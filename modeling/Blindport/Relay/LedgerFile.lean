import Blindport.Relay.Bandwidth
import Blindport.Text.Calendar
import Blindport.Text.JsonReader

/-!
# Blindport.Relay.LedgerFile

`cmd/blindport-relay/bandwidth.go`: the ledger file itself, its days as texts, how
it is validated, encoded, stored and loaded.

`Blindport.Relay.Bandwidth` runs the reporter on day numbers.  `BandwidthLedger.file`
is the file it stores, and `LedgerFile.ledger` the ledger in a file; `LedgerOk` says
which ledgers `validateBandwidthLedger` accepts there (`LedgerOk.validate`,
`ledgerOk_of_validate`).
-/

namespace Relay

open Wire

/-! ## days -/

/-- `Format("2006-01-02")` of a time of the day. -/
def dayText (day : ℤ) : String := String.ofList (Calendar.format (Calendar.dateOf day))

/-- `canonicalBandwidthDay`. -/
def canonicalBandwidthDay (value : String) : Bool :=
  (Calendar.parse value.toList).any fun d => Calendar.format d = value.toList

/-- The day of a canonical text. -/
def dayNumber (value : String) : ℤ :=
  ((Calendar.parse value.toList).map Calendar.Date.number).getD 0

/-- The day's year has four digits. -/
def Dated (day : ℤ) : Prop := (Calendar.dateOf day).FourDigits

instance (day : ℤ) : Decidable (Dated day) :=
  inferInstanceAs (Decidable (Calendar.Date.FourDigits _))

@[simp] theorem toList_dayText (day : ℤ) :
    (dayText day).toList = Calendar.format (Calendar.dateOf day) := String.toList_ofList

theorem parse_dayText {day : ℤ} (h : Dated day) :
    Calendar.parse (dayText day).toList = some (Calendar.dateOf day) := by
  rw [toList_dayText]
  exact Calendar.parse_format (Calendar.dateOf_valid day) h

theorem canonicalBandwidthDay_dayText {day : ℤ} (h : Dated day) :
    canonicalBandwidthDay (dayText day) = true := by
  rw [canonicalBandwidthDay, parse_dayText h]
  simp

/-- The texts of other days are not canonical. -/
theorem dated_of_canonicalBandwidthDay {day : ℤ} (h : canonicalBandwidthDay (dayText day) = true) :
    Dated day := by
  rw [canonicalBandwidthDay, Option.any_eq_true] at h
  obtain ⟨d, hparse, hformat⟩ := h
  rw [decide_eq_true_eq, toList_dayText] at hformat
  obtain ⟨hvalid, hyear⟩ := Calendar.parse_some hparse
  exact Calendar.fourDigits_of_format hvalid hyear hformat.symm

@[simp] theorem dayNumber_dayText {day : ℤ} (h : Dated day) : dayNumber (dayText day) = day := by
  rw [dayNumber, parse_dayText h]
  simp

/-- A canonical text is that of a day. -/
theorem dayText_dayNumber {value : String} (h : canonicalBandwidthDay value = true) :
    dayText (dayNumber value) = value ∧ Dated (dayNumber value) := by
  rw [canonicalBandwidthDay, Option.any_eq_true] at h
  obtain ⟨d, hparse, hformat⟩ := h
  rw [decide_eq_true_eq] at hformat
  obtain ⟨hvalid, hyear⟩ := Calendar.parse_some hparse
  have hdate : Calendar.dateOf (dayNumber value) = d := by
    rw [dayNumber, hparse]
    exact Calendar.dateOf_number hvalid
  constructor
  · rw [dayText, hdate, hformat, String.ofList_toList]
  · rw [Dated, hdate]
    exact hyear

theorem length_dayText {day : ℤ} (h : Dated day) : (dayText day).toList.length = 10 := by
  rw [toList_dayText, Calendar.format_eq (Calendar.dateOf_valid day) h]
  simp

/-- The texts of days are ordered as they are. -/
theorem dayText_lt {day day' : ℤ} (h : Dated day) (h' : Dated day') (hlt : day < day') :
    dayText day < dayText day' := by
  rw [String.lt_iff_toList_lt, toList_dayText, toList_dayText]
  exact Calendar.format_lt h h' hlt

theorem dayText_lt_iff {day day' : ℤ} (h : Dated day) (h' : Dated day') :
    dayText day < dayText day' ↔ day < day' := by
  constructor
  · intro hlt
    by_contra hle
    cases lt_or_eq_of_le (not_lt.mp hle) with
    | inl hgt => exact lt_asymm hlt (dayText_lt h' h hgt)
    | inr heq => exact lt_irrefl _ (heq ▸ hlt)
  · exact dayText_lt h h'

/-- `pruneBefore` with the comparison the source makes, that of the texts. -/
theorem pruneBefore_eq_dayText {entries : BandwidthEntries} {day : ℤ}
    (hkeys : ∀ k ∈ entries, Dated k.day) (hday : Dated day) :
    pruneBefore entries day =
      Table.eraseAll (entries.keys.filter fun k => dayText k.day < dayText day) entries := by
  have hsame : (entries.keys.filter fun k => k.day < day) =
      entries.keys.filter fun k => dayText k.day < dayText day := by
    apply List.filter_congr
    intro k hk
    rw [decide_eq_decide, dayText_lt_iff (hkeys k (AList.mem_keys.mpr hk)) hday]
  rw [pruneBefore, hsame]

/-! ## the file -/

/-- `bandwidthLedgerReport`. -/
structure LedgerReport where
  subscriptionID : String
  day : String
  ingressBytes : ℤ
  egressBytes : ℤ
deriving DecidableEq

/-- `bandwidthLedger`. -/
structure LedgerFile where
  version : ℤ
  bootID : String
  sequence : ℤ
  reports : List LedgerReport
deriving DecidableEq

def bandwidthLedgerVersion : ℤ := 1

def maxBandwidthLedgerSize : ℕ := 1048576

/-- The text that orders the reports. -/
def LedgerReport.order (r : LedgerReport) : String := r.day ++ "/" ++ r.subscriptionID

namespace LedgerFile

/-- The loop of `validateBandwidthLedger`. -/
def checkReports : String → List (String × String) → List LedgerReport → Except String Unit
  | _, _, [] => .ok ()
  | previous, seen, r :: rs =>
      if canonicalSubscriptionID r.subscriptionID = false ∨ canonicalBandwidthDay r.day = false ∨
          r.ingressBytes < 0 ∨ r.egressBytes < 0 then .error "invalid bandwidth ledger"
      else if previous ≠ "" ∧ r.order ≤ previous then
        .error "bandwidth ledger reports are not canonical"
      else if (r.subscriptionID, r.day) ∈ seen then .error "invalid bandwidth ledger"
      else checkReports r.order ((r.subscriptionID, r.day) :: seen) rs

def validateBandwidthLedger (ledger : LedgerFile) : Except String Unit :=
  if ledger.version ≠ bandwidthLedgerVersion ∨ canonicalSubscriptionID ledger.bootID = false ∨
      ledger.sequence < 0 ∨ ledger.reports.length > maxBandwidthEntries then
    .error "invalid bandwidth ledger"
  else checkReports "" [] ledger.reports

/-- The order of `sort.Slice`. -/
def reportOrder (x y : LedgerReport) : Prop :=
  x.day < y.day ∨ (x.day = y.day ∧ x.subscriptionID ≤ y.subscriptionID)

instance : DecidableRel reportOrder := fun x y => by unfold reportOrder; infer_instance

/-- An integer as `json.Marshal` writes it. -/
def marshalInt (n : ℤ) : List Char :=
  if n < 0 then '-' :: Nat.toDigits 10 n.natAbs else Nat.toDigits 10 n.natAbs

/-- `json.Marshal` of a report. -/
def marshalReport (r : LedgerReport) : List Char :=
  Json.bracketed '{' '}'
    [Json.member "s" (Json.quote Json.goEscape r.subscriptionID),
      Json.member "d" (Json.quote Json.goEscape r.day),
      Json.member "i" (marshalInt r.ingressBytes),
      Json.member "e" (marshalInt r.egressBytes)]

/-- `json.Marshal` of the ledger. -/
def marshal (ledger : LedgerFile) : List Char :=
  Json.bracketed '{' '}'
    [Json.member "v" (marshalInt ledger.version),
      Json.member "b" (Json.quote Json.goEscape ledger.bootID),
      Json.member "q" (marshalInt ledger.sequence),
      Json.member "r" (Json.bracketed '[' ']' (ledger.reports.map marshalReport))]

/-- What `storeBandwidthLedger` writes. -/
def storeBandwidthLedger (ledger : LedgerFile) : Except String Bytes := do
  let ledger := { ledger with reports := ledger.reports.insertionSort reportOrder }
  validateBandwidthLedger ledger
  let raw := Json.utf8 ledger.marshal
  if raw.length > maxBandwidthLedgerSize then .error "encode bandwidth ledger" else .ok raw

/-! ## decoding -/

/-- A report in compact form. -/
def readReport : Json.Reader LedgerReport := fun cs => do
  let (fields, rest) ← Json.readObject cs
  match fields with
  | [("s", .text s), ("d", .text d), ("i", .number i), ("e", .number e)] =>
      some (⟨s, d, i, e⟩, rest)
  | _ => none

/-- A ledger in compact form. -/
def read (cs : List Char) : Option LedgerFile := do
  let cs ← Json.readChar '{' cs
  let (v, cs) ← Json.readField cs
  let cs ← Json.readChar ',' cs
  let (b, cs) ← Json.readField cs
  let cs ← Json.readChar ',' cs
  let (q, cs) ← Json.readField cs
  let cs ← Json.readChar ',' cs
  let (r, cs) ← Json.readString cs
  let cs ← Json.readChar ':' cs
  let (reports, cs) ← Json.readBracketed '[' ']' readReport cs
  match v, b, q, r, cs with
  | ("v", .number v), ("b", .text b), ("q", .number q), "r", ['}'] => some ⟨v, b, q, reports⟩
  | _, _, _, _, _ => none

/-- A number of the type `int64`. -/
def IsInt64 (n : ℤ) : Prop := -(maxInt64 : ℤ) - 1 ≤ n ∧ n ≤ maxInt64

instance (n : ℤ) : Decidable (IsInt64 n) := inferInstanceAs (Decidable (_ ∧ _))

/-- The numbers fit the fields' types; others are refused. -/
def Fits (ledger : LedgerFile) : Prop :=
  IsInt64 ledger.version ∧ IsInt64 ledger.sequence ∧
    ∀ r ∈ ledger.reports, IsInt64 r.ingressBytes ∧ IsInt64 r.egressBytes

instance (ledger : LedgerFile) : Decidable ledger.Fits := inferInstanceAs (Decidable (_ ∧ _ ∧ _))

/-- `Decode` into the struct without unknown fields, and the end of the input.
Compact texts are read here; what the decoder makes of any other is `other`. -/
def decode (other : Bytes → Option LedgerFile) (raw : Bytes) : Option LedgerFile :=
  let ledger := match read (Json.chars raw) with
    | some ledger => if Json.utf8 ledger.marshal = raw then some ledger else other raw
    | none => other raw
  ledger.filter fun ledger => ledger.Fits

/-- The sixteen bytes of a new identifier, with its version and variant. -/
def stamped (raw : Fin 16 → Fin 256) (i : Fin 16) : Fin 256 :=
  if i = 6 then raw i &&& 0x0f ||| 0x40
  else if i = 8 then raw i &&& 0x3f ||| 0x80
  else raw i

/-- Two hexadecimal digits for each byte. -/
def nibbles (raw : Fin 16 → Fin 256) : List (Fin 16) :=
  (List.finRange 16).flatMap fun i =>
    [Fin.ofNat 16 ((raw i).val / 16), Fin.ofNat 16 ((raw i).val % 16)]

theorem length_nibbles (raw : Fin 16 → Fin 256) : (nibbles raw).length = 32 := by
  simp [nibbles, List.length_flatMap]

/-- `randomCanonicalUUID` of some random bytes. -/
def randomCanonicalUUID (raw : Fin 16 → Fin 256) : String :=
  (Uuid.mk (nibbles (stamped raw)) (length_nibbles _)).text

/-- `loadBandwidthLedger` of the file's content, when there is one. -/
def loadBandwidthLedger (other : Bytes → Option LedgerFile) (random : Fin 16 → Fin 256) :
    Option Bytes → Except String LedgerFile
  | none => do
      let ledger : LedgerFile := ⟨bandwidthLedgerVersion, randomCanonicalUUID random, 0, []⟩
      let _ ← storeBandwidthLedger ledger
      .ok ledger
  | some raw => do
      if raw.length = 0 ∨ raw.length > maxBandwidthLedgerSize then
        .error "invalid bandwidth ledger size"
      else match decode other raw with
        | none => .error "invalid bandwidth ledger"
        | some ledger =>
            validateBandwidthLedger ledger
            .ok ledger

end LedgerFile

/-! ## what is valid -/

/-- A report that `validateBandwidthLedger` accepts. -/
structure LedgerReport.Valid (r : LedgerReport) : Prop where
  canonical : canonicalSubscriptionID r.subscriptionID = true
  day : canonicalBandwidthDay r.day = true
  ingress : 0 ≤ r.ingressBytes
  egress : 0 ≤ r.egressBytes

theorem LedgerReport.order_ne_empty (r : LedgerReport) : r.order ≠ "" := by
  intro h
  have hlist := congrArg String.toList h
  rw [LedgerReport.order, String.toList_append, String.toList_append] at hlist
  simp at hlist

/-- **What the loop accepts**: valid reports whose order texts rise. -/
theorem LedgerFile.checkReports_ok_iff {previous : String} {seen : List (String × String)}
    {rs : List LedgerReport} : checkReports previous seen rs = .ok () ↔
      (∀ r ∈ rs, r.Valid) ∧ rs.Pairwise (fun x y => x.order < y.order) ∧
        (previous ≠ "" → ∀ r ∈ rs, previous < r.order) ∧
        ∀ r ∈ rs, (r.subscriptionID, r.day) ∉ seen := by
  induction rs generalizing previous seen with
  | nil => simp [checkReports]
  | cons r rs ih =>
      have hsame : ∀ r' : LedgerReport, (r'.subscriptionID, r'.day) = (r.subscriptionID, r.day) →
          r'.order = r.order := by
        intro r' heq
        rw [Prod.mk.injEq] at heq
        rw [LedgerReport.order, LedgerReport.order, heq.1, heq.2]
      rw [checkReports]
      constructor
      · intro h
        split at h
        · cases h
        split at h
        · cases h
        split at h
        · cases h
        rename_i hvalid hprevious hseen
        obtain ⟨hall, hsorted, hnext, hnew⟩ := ih.mp h
        have hrest := hnext r.order_ne_empty
        have hr : previous ≠ "" → previous < r.order := by
          intro hne
          by_contra hle
          exact hprevious ⟨hne, not_lt.mp hle⟩
        refine ⟨?_, List.pairwise_cons.mpr ⟨hrest, hsorted⟩, ?_, ?_⟩
        · intro r' hr'
          cases List.mem_cons.mp hr' with
          | inl heq =>
              simp only [not_or, Bool.not_eq_false, not_lt] at hvalid
              rw [heq]
              exact ⟨hvalid.1, hvalid.2.1, hvalid.2.2.1, hvalid.2.2.2⟩
          | inr hmem => exact hall r' hmem
        · intro hne r' hr'
          cases List.mem_cons.mp hr' with
          | inl heq => rw [heq]; exact hr hne
          | inr hmem => exact lt_trans (hr hne) (hrest r' hmem)
        · intro r' hr'
          cases List.mem_cons.mp hr' with
          | inl heq => rw [heq]; exact hseen
          | inr hmem => exact fun hin => hnew r' hmem (List.mem_cons_of_mem _ hin)
      · intro ⟨hall, hsorted, hprevious, hnew⟩
        obtain ⟨hid, hday, hin, hout⟩ := hall r List.mem_cons_self
        obtain ⟨hrest, hsorted⟩ := List.pairwise_cons.mp hsorted
        rw [if_neg (by simp [hid, hday, hin, hout]), if_neg, if_neg (hnew r List.mem_cons_self)]
        · refine ih.mpr ⟨fun r' hr' => hall r' (List.mem_cons_of_mem _ hr'), hsorted,
            fun _ => hrest, fun r' hr' hmem => ?_⟩
          cases List.mem_cons.mp hmem with
          | inl heq =>
              have hlt := hrest r' hr'
              rw [hsame r' heq] at hlt
              exact lt_irrefl _ hlt
          | inr hmem => exact hnew r' (List.mem_cons_of_mem _ hr') hmem
        · intro ⟨hne, hle⟩
          exact absurd (hprevious hne r List.mem_cons_self) (not_lt.mpr hle)

/-! ## the file of a ledger -/

/-- A report as `persistLocked` writes it. -/
def reportText (r : DailyBandwidthReport) : LedgerReport :=
  ⟨r.1.subscriptionID, dayText r.1.day, r.2.1, r.2.2⟩

/-- An entry as `newBandwidthReporterWithClock` takes it from a report. -/
def reportOf (r : LedgerReport) : DailyBandwidthReport :=
  (⟨r.subscriptionID, dayNumber r.day⟩, (r.ingressBytes.toNat, r.egressBytes.toNat))

/-- The file of a ledger. -/
def BandwidthLedger.file (ledger : BandwidthLedger) (bootID : String) : LedgerFile where
  version := bandwidthLedgerVersion
  bootID := bootID
  sequence := ledger.sequence
  reports := ledger.reports.map reportText

/-- The ledger in a file. -/
def LedgerFile.ledger (file : LedgerFile) : BandwidthLedger :=
  ⟨file.sequence.toNat, file.reports.map reportOf⟩

/-- A report whose totals are those of the type `int64`. -/
structure ReportBounded (r : DailyBandwidthReport) : Prop where
  canonical : canonicalSubscriptionID r.1.subscriptionID = true
  ingress : r.2.1 ≤ maxInt64
  egress : r.2.2 ≤ maxInt64

/-- A report that fits the file. -/
structure ReportOk (r : DailyBandwidthReport) : Prop extends ReportBounded r where
  dated : Dated r.1.day

/-- The order of keys. -/
def BandwidthKey.Before (x y : BandwidthKey) : Prop :=
  x.day < y.day ∨ x.day = y.day ∧ x.subscriptionID < y.subscriptionID

/-- A ledger that fits the file, but for its days. -/
structure LedgerBounded (ledger : BandwidthLedger) : Prop where
  sequence : ledger.sequence ≤ maxInt64
  bounded : ∀ r ∈ ledger.reports, ReportBounded r
  sorted : ledger.reports.Pairwise fun x y => x.1.Before y.1
  count : ledger.reports.length ≤ maxBandwidthEntries

/-- A ledger that fits the file. -/
structure LedgerOk (ledger : BandwidthLedger) : Prop extends LedgerBounded ledger where
  dated : ∀ r ∈ ledger.reports, Dated r.1.day

theorem LedgerOk.reports {ledger : BandwidthLedger} (h : LedgerOk ledger) :
    ∀ r ∈ ledger.reports, ReportOk r := fun r hr => ⟨h.bounded r hr, h.dated r hr⟩

theorem BandwidthKey.before_trichotomy {x y : BandwidthKey} (h : x ≠ y) :
    x.Before y ∨ y.Before x := by
  unfold BandwidthKey.Before
  rcases lt_trichotomy x.day y.day with hlt | heq | hlt
  · exact .inl (.inl hlt)
  · rcases lt_trichotomy x.subscriptionID y.subscriptionID with hid | hid | hid
    · exact .inl (.inr ⟨heq, hid⟩)
    · exact absurd (BandwidthKey.ext hid heq) h
    · exact .inr (.inr ⟨heq.symm, hid⟩)
  · exact .inr (.inl hlt)

theorem BandwidthKey.before_ne {x y : BandwidthKey} (h : x.Before y) : x ≠ y := by
  intro heq
  rw [heq] at h
  cases h with
  | inl hlt => exact lt_irrefl _ hlt
  | inr hlt => exact lt_irrefl _ hlt.2

@[simp] theorem reportOf_reportText {r : DailyBandwidthReport} (h : Dated r.1.day) :
    reportOf (reportText r) = r := by
  rw [reportText, reportOf, dayNumber_dayText h, Int.toNat_natCast, Int.toNat_natCast]

theorem reportText_valid {r : DailyBandwidthReport} (h : ReportOk r) : (reportText r).Valid where
  canonical := h.canonical
  day := canonicalBandwidthDay_dayText h.dated
  ingress := Int.natCast_nonneg _
  egress := Int.natCast_nonneg _

/-- The order texts are in the order of the keys. -/
theorem order_lt {x y : DailyBandwidthReport} (hx : ReportOk x) (hy : ReportOk y)
    (h : x.1.Before y.1) : (reportText x).order < (reportText y).order := by
  have hlist : ∀ r : DailyBandwidthReport, (reportText r).order.toList =
      (dayText r.1.day).toList ++ '/' :: r.1.subscriptionID.toList := by
    intro r
    rw [LedgerReport.order, String.toList_append, String.toList_append, List.append_assoc]
    rfl
  rw [String.lt_iff_toList_lt, hlist, hlist]
  apply Calendar.append_lt_append (by rw [length_dayText hx.dated, length_dayText hy.dated])
  cases h with
  | inl hday => exact .inl (String.lt_iff_toList_lt.mp (dayText_lt hx.dated hy.dated hday))
  | inr hid =>
      right
      rw [hid.1]
      exact ⟨rfl, List.cons_lt_cons_iff.mpr (.inr ⟨rfl, String.lt_iff_toList_lt.mp hid.2⟩)⟩

theorem order_lt_iff {x y : DailyBandwidthReport} (hx : ReportOk x) (hy : ReportOk y) :
    (reportText x).order < (reportText y).order ↔ x.1.Before y.1 := by
  refine ⟨fun hlt => ?_, order_lt hx hy⟩
  by_cases hkey : x.1 = y.1
  · have hsame : (reportText x).order = (reportText y).order := by
      rw [LedgerReport.order, LedgerReport.order, reportText, reportText, hkey]
    rw [hsame] at hlt
    exact absurd hlt (lt_irrefl _)
  · cases BandwidthKey.before_trichotomy hkey with
    | inl hbefore => exact hbefore
    | inr hafter => exact absurd (order_lt hy hx hafter) (lt_asymm hlt)

/-- **A ledger that fits the file is valid in it.** -/
theorem LedgerOk.validate {ledger : BandwidthLedger} (h : LedgerOk ledger) {bootID : String}
    (hboot : canonicalSubscriptionID bootID = true) :
    (ledger.file bootID).validateBandwidthLedger = .ok () := by
  have hcount : ¬ (ledger.reports.map reportText).length > maxBandwidthEntries := by
    rw [List.length_map]
    exact not_lt.mpr h.count
  have hsequence : ¬ ((ledger.sequence : ℤ) < 0) := by omega
  rw [LedgerFile.validateBandwidthLedger, if_neg, BandwidthLedger.file,
    LedgerFile.checkReports_ok_iff]
  · refine ⟨?_, ?_, fun hne => absurd rfl hne, fun r _ => List.not_mem_nil⟩
    · intro r hr
      obtain ⟨r', hr', rfl⟩ := List.mem_map.mp hr
      exact reportText_valid (h.reports r' hr')
    · rw [List.pairwise_map]
      exact h.sorted.imp_of_mem fun hx hy => order_lt (h.reports _ hx) (h.reports _ hy)
  · rw [BandwidthLedger.file]
    simp only [hboot, hsequence, hcount]
    simp

/-- **What is valid in a file is a ledger that fits it**, and this file is its own. -/
theorem ledgerOk_of_validate {file : LedgerFile} (h : file.validateBandwidthLedger = .ok ())
    (hfits : file.Fits) : LedgerOk file.ledger ∧ file.ledger.file file.bootID = file ∧
      canonicalSubscriptionID file.bootID = true := by
  rw [LedgerFile.validateBandwidthLedger] at h
  split at h
  · cases h
  rename_i hhead
  simp only [not_or, ne_eq, not_not, Bool.not_eq_false, not_lt] at hhead
  obtain ⟨hversion, hboot, hsequence, hcount⟩ := hhead
  obtain ⟨hall, hsorted, -, -⟩ := LedgerFile.checkReports_ok_iff.mp h
  obtain ⟨-, hsequence', hfits⟩ := hfits
  have hself : ∀ r ∈ file.reports, reportText (reportOf r) = r := by
    intro r hr
    obtain ⟨-, hday, hin, hout⟩ := hall r hr
    rw [reportOf, reportText]
    dsimp only
    rw [(dayText_dayNumber hday).1, Int.toNat_of_nonneg hin, Int.toNat_of_nonneg hout]
  have hok : ∀ r ∈ file.reports, ReportOk (reportOf r) := by
    intro r hr
    obtain ⟨hid, hday, hin, hout⟩ := hall r hr
    obtain ⟨hin', hout'⟩ := hfits r hr
    refine ⟨⟨hid, ?_, ?_⟩, (dayText_dayNumber hday).2⟩
    · have := hin'.2
      show r.ingressBytes.toNat ≤ maxInt64
      omega
    · have := hout'.2
      show r.egressBytes.toNat ≤ maxInt64
      omega
  have hreports : ∀ r ∈ file.ledger.reports, ReportOk r := by
    intro r hr
    obtain ⟨r', hr', rfl⟩ := List.mem_map.mp hr
    exact hok r' hr'
  refine ⟨⟨⟨?_, fun r hr => (hreports r hr).toReportBounded, ?_, ?_⟩,
    fun r hr => (hreports r hr).dated⟩, ?_, hboot⟩
  · have := hsequence'.2
    show file.sequence.toNat ≤ maxInt64
    omega
  · rw [LedgerFile.ledger, List.pairwise_map]
    refine hsorted.imp_of_mem fun hx hy hlt => ?_
    rw [← order_lt_iff (hok _ hx) (hok _ hy), hself _ hx, hself _ hy]
    exact hlt
  · rw [LedgerFile.ledger, List.length_map]
    exact hcount
  · have hreports : (file.reports.map reportOf).map reportText = file.reports := by
      rw [List.map_map]
      conv_rhs => rw [← List.map_id file.reports]
      exact List.map_congr_left hself
    rw [LedgerFile.ledger, BandwidthLedger.file, hreports, Int.toNat_of_nonneg hsequence,
      ← hversion]

/-- The ledger is the one in its file. -/
theorem LedgerOk.ledger_file {ledger : BandwidthLedger} (h : LedgerOk ledger) (bootID : String) :
    (ledger.file bootID).ledger = ledger := by
  have hreports : (ledger.reports.map reportText).map reportOf = ledger.reports := by
    rw [List.map_map]
    conv_rhs => rw [← List.map_id ledger.reports]
    exact List.map_congr_left fun r hr => reportOf_reportText (h.reports r hr).dated
  rw [BandwidthLedger.file, LedgerFile.ledger, hreports, Int.toNat_natCast]

end Relay

import Blindport.Data.Except
import Blindport.Relay.LedgerFile

/-!
# Blindport.Relay.LedgerText

The text of the ledger file.  The cap on the entries leaves room for the widest
identifiers and totals, so a ledger that fits the file is stored within the size
limit (`LedgerOk.store`), and what was stored is loaded again (`load_store`).
-/

namespace Relay

open Wire

/-! ## texts of identifiers -/

/-- Digits and dashes of an identifier need no escapes. -/
theorem plain_of_isLowerHex {c : Char} (h : Uuid.isLowerHex c = true ∨ c = '-') :
    Json.plain c = true := by
  cases h with
  | inl h =>
      have hc : 48 ≤ c.toNat ∧ c.toNat ≤ 57 ∨ 97 ≤ c.toNat ∧ c.toNat ≤ 102 := by
        simp only [Uuid.isLowerHex, Bool.decide_or, Bool.or_eq_true, decide_eq_true_eq] at h
        exact h
      simp only [Json.plain, Bool.and_eq_true, decide_eq_true_eq]
      omega
  | inr h =>
      rw [h]
      decide

theorem readHex_some {n : ℕ} {cs rest : List Char} (h : Uuid.readHex n cs = some rest) :
    ∃ xs, cs = xs ++ rest ∧ xs.length = n ∧ ∀ c ∈ xs, Uuid.isLowerHex c = true := by
  induction n generalizing cs with
  | zero => exact ⟨[], Option.some.inj h, rfl, fun c hc => by cases hc⟩
  | succ n ih =>
      cases cs with
      | nil => cases h
      | cons c cs =>
          rw [Uuid.readHex] at h
          split at h
          · rename_i hc
            obtain ⟨xs, hcs, hlen, hxs⟩ := ih h
            refine ⟨c :: xs, by rw [hcs, List.cons_append], by simp [hlen], ?_⟩
            intro d hd
            cases List.mem_cons.mp hd with
            | inl hd => rw [hd]; exact hc
            | inr hd => exact hxs d hd
          · cases h

theorem readDash_some {cs rest : List Char} (h : Uuid.readDash cs = some rest) :
    cs = '-' :: rest := by
  unfold Uuid.readDash at h
  split at h
  · cases h
    rfl
  · cases h

/-- A canonical identifier has 36 characters, digits and dashes. -/
theorem canonical_chars {value : String} (h : canonicalSubscriptionID value = true) :
    value.toList.length = 36 ∧ Json.PlainText value := by
  simp only [canonicalSubscriptionID, Uuid.canonical, decide_eq_true_eq,
    Option.bind_eq_some_iff] at h
  obtain ⟨r₇, ⟨r₆, ⟨r₅, ⟨r₄, ⟨r₃, ⟨r₂, ⟨r₁, ⟨r₀, h0, d0⟩, h1⟩, d1⟩, h2⟩, d2⟩, h3⟩, d3⟩, h4⟩ := h
  obtain ⟨x₀, e0, l0, p0⟩ := readHex_some h0
  obtain ⟨x₁, e1, l1, p1⟩ := readHex_some h1
  obtain ⟨x₂, e2, l2, p2⟩ := readHex_some h2
  obtain ⟨x₃, e3, l3, p3⟩ := readHex_some h3
  obtain ⟨x₄, e4, l4, p4⟩ := readHex_some h4
  rw [readDash_some d0, e1, readDash_some d1, e2, readDash_some d2, e3, readDash_some d3, e4] at e0
  rw [Json.PlainText, e0]
  constructor
  · simp only [List.length_append, List.length_cons, List.length_nil]
    omega
  · intro c hc
    apply plain_of_isLowerHex
    simp only [List.mem_append, List.mem_cons, List.not_mem_nil, or_false] at hc
    grind

theorem plain_dayText {day : ℤ} (h : Dated day) : Json.PlainText (dayText day) := by
  have hdigit : ∀ {c : Char}, c.isDigit = true → Uuid.isLowerHex c = true := by
    intro c hc
    simp only [Char.isDigit, Bool.and_eq_true, decide_eq_true_eq] at hc
    simp only [Uuid.isLowerHex, Bool.decide_or, Bool.or_eq_true, decide_eq_true_eq]
    exact .inl hc
  intro c hc
  apply plain_of_isLowerHex
  rw [toList_dayText, Calendar.format_eq (Calendar.dateOf_valid day) h, List.mem_append,
    List.mem_cons, List.mem_append, List.mem_cons] at hc
  obtain hc | hc | hc | hc | hc := hc
  · exact .inl (hdigit (Calendar.isDigit_padded hc))
  · exact .inr hc
  · exact .inl (hdigit (Calendar.isDigit_padded hc))
  · exact .inr hc
  · exact .inl (hdigit (Calendar.isDigit_padded hc))

/-! ## the text of the file -/

/-- The fields of a report. -/
def reportFields (r : DailyBandwidthReport) : Json.Fields :=
  [("s", .text r.1.subscriptionID), ("d", .text (dayText r.1.day)), ("i", .number r.2.1),
    ("e", .number r.2.2)]

theorem marshalInt_natCast (n : ℕ) : LedgerFile.marshalInt n = Nat.toDigits 10 n := by
  rw [LedgerFile.marshalInt, if_neg (by omega), Int.natAbs_natCast]

theorem marshalReport_reportText (r : DailyBandwidthReport) :
    LedgerFile.marshalReport (reportText r) = Json.render Json.goEscape (reportFields r) := by
  rw [LedgerFile.marshalReport, reportText, marshalInt_natCast, marshalInt_natCast]
  rfl

theorem plain_reportFields {r : DailyBandwidthReport} (h : ReportOk r) :
    Json.PlainFields (reportFields r) := by
  have hid := (canonical_chars h.canonical).2
  have hday := plain_dayText h.dated
  have hname : ∀ name ∈ ["s", "d", "i", "e"], name.toList.all Json.plain = true := by decide
  intro field hfield
  simp only [reportFields, List.mem_cons, List.not_mem_nil, or_false] at hfield
  obtain rfl | rfl | rfl | rfl := hfield
  · exact ⟨Json.plainText_of_all (hname "s" (by simp)), fun s hs => by cases hs; exact hid⟩
  · exact ⟨Json.plainText_of_all (hname "d" (by simp)), fun s hs => by cases hs; exact hday⟩
  · exact ⟨Json.plainText_of_all (hname "i" (by simp)), fun s hs => by cases hs⟩
  · exact ⟨Json.plainText_of_all (hname "e" (by simp)), fun s hs => by cases hs⟩

/-- A number of the type `int64` takes at most 19 digits. -/
theorem length_toDigits_int64 {n : ℕ} (h : n ≤ maxInt64) : (Nat.toDigits 10 n).length ≤ 19 := by
  apply Nat.toDigits_length 10 n 19 (by decide)
  simp only [maxInt64] at h
  simp only [Nat.reducePow]
  omega

/-- A report takes at most 110 bytes. -/
theorem size_report_le {r : DailyBandwidthReport} (h : ReportOk r) :
    Json.size (LedgerFile.marshalReport (reportText r)) ≤ 110 := by
  have hplain := plain_reportFields h
  have hin := length_toDigits_int64 h.ingress
  have hout := length_toDigits_int64 h.egress
  rw [marshalReport_reportText, Json.size_ascii (Json.ascii_render hplain)]
  refine le_trans (Json.length_render hplain) ?_
  simp only [reportFields, List.map_cons, List.map_nil, List.sum_cons, List.sum_nil,
    Json.Value.size, (canonical_chars h.canonical).1, length_dayText h.dated]
  have hname : "s".toList.length = 1 ∧ "d".toList.length = 1 ∧ "i".toList.length = 1 ∧
      "e".toList.length = 1 := by decide
  omega

theorem ascii_marshal {ledger : BandwidthLedger} (h : LedgerOk ledger) {bootID : String}
    (hboot : canonicalSubscriptionID bootID = true) :
    Json.Ascii (ledger.file bootID).marshal := by
  have hreports : Json.Ascii (Json.bracketed '[' ']'
      ((ledger.reports.map reportText).map LedgerFile.marshalReport)) := by
    refine Json.ascii_bracketed (by decide) (by decide) fun t ht => ?_
    simp only [List.map_map, List.mem_map, Function.comp_apply] at ht
    obtain ⟨r, hr, rfl⟩ := ht
    rw [marshalReport_reportText]
    exact Json.ascii_render (plain_reportFields (h.reports r hr))
  refine Json.ascii_bracketed (by decide) (by decide) fun t ht => ?_
  simp only [BandwidthLedger.file, List.mem_cons, List.not_mem_nil, or_false] at ht
  obtain rfl | rfl | rfl | rfl := ht
  · exact Json.ascii_member (Json.plainText_of_all (by decide)) (Json.ascii_toDigits 1)
  · exact Json.ascii_member (Json.plainText_of_all (by decide))
      (Json.ascii_quote (canonical_chars hboot).2)
  · rw [marshalInt_natCast]
    exact Json.ascii_member (Json.plainText_of_all (by decide)) (Json.ascii_toDigits _)
  · exact Json.ascii_member (Json.plainText_of_all (by decide)) hreports

/-- **The file stays within its size**: the cap on the entries leaves room for the
widest totals. -/
theorem size_marshal_le {ledger : BandwidthLedger} (h : LedgerOk ledger) {bootID : String}
    (hboot : canonicalSubscriptionID bootID = true) :
    Json.size (ledger.file bootID).marshal ≤ maxBandwidthLedgerSize := by
  have hroom : ∀ reports : List DailyBandwidthReport, (∀ r ∈ reports, ReportOk r) →
      Json.room ((reports.map reportText).map LedgerFile.marshalReport) ≤ 111 * reports.length := by
    intro reports hok
    induction reports with
    | nil => exact Nat.zero_le _
    | cons r reports ih =>
        have hr := size_report_le (hok r List.mem_cons_self)
        have hrest := ih fun r' hr' => hok r' (List.mem_cons_of_mem _ hr')
        rw [List.map_cons, List.map_cons, Json.room_cons, List.length_cons]
        omega
  have hreports := @Json.size_bracketed_le '[' ']' (by decide) (by decide)
    ((ledger.reports.map reportText).map LedgerFile.marshalReport)
  have hrows := hroom ledger.reports h.reports
  have hcount := h.count
  have hname : ∀ s ∈ ["v", "b", "q", "r"], Json.size (Json.quote Json.goEscape s) = 3 := by decide
  have hbytes : Json.size (Json.quote Json.goEscape bootID) = 38 := by
    obtain ⟨hlength, hplain⟩ := canonical_chars hboot
    rw [Json.size_quote_plain hplain, ← Json.size_eq_utf8ByteSize,
      Json.size_ascii fun c hc => Json.plain_ascii (hplain c hc), hlength]
  have hversion : Json.size (LedgerFile.marshalInt bandwidthLedgerVersion) = 1 := by decide
  have hsequence : Json.size (Nat.toDigits 10 ledger.sequence) ≤ 19 := by
    rw [Json.size_ascii (Json.ascii_toDigits _)]
    exact length_toDigits_int64 h.sequence
  refine le_trans (Json.size_bracketed_le (by decide) (by decide) _) ?_
  simp only [BandwidthLedger.file, Json.room_cons, Json.room_nil, Json.size_member, hbytes,
    hversion, marshalInt_natCast, hname "v" (by simp), hname "b" (by simp), hname "q" (by simp),
    hname "r" (by simp)]
  simp only [maxBandwidthEntries] at hcount
  simp only [maxBandwidthLedgerSize]
  omega

/-! ## reading it back -/

theorem readReport_marshalReport {r : DailyBandwidthReport} (h : ReportOk r) (rest : List Char) :
    LedgerFile.readReport (LedgerFile.marshalReport (reportText r) ++ rest) =
      some (reportText r, rest) := by
  rw [marshalReport_reportText, LedgerFile.readReport,
    Json.readObject_render (plain_reportFields h)]
  rfl

theorem readReports_marshal {reports : List DailyBandwidthReport}
    (h : ∀ r ∈ reports, ReportOk r) (rest : List Char) :
    Json.readBracketed '[' ']' LedgerFile.readReport
      (Json.bracketed '[' ']' ((reports.map reportText).map LedgerFile.marshalReport) ++ rest) =
      some (reports.map reportText, rest) := by
  apply Json.readBracketed_bracketed (by decide)
  · intro x hx d rest' _
    obtain ⟨r, hr, rfl⟩ := List.mem_map.mp hx
    exact readReport_marshalReport (h r hr) _
  · intro x hx
    exact ⟨'{', _, rfl, by decide⟩

/-- The members of the text. -/
theorem marshal_eq (ledger : BandwidthLedger) (bootID : String) :
    (ledger.file bootID).marshal =
      '{' :: (Json.renderField Json.goEscape ("v", .number 1) ++ ',' ::
        (Json.renderField Json.goEscape ("b", .text bootID) ++ ',' ::
          (Json.renderField Json.goEscape ("q", .number ledger.sequence) ++ ',' ::
            (Json.quote Json.goEscape "r" ++ ':' ::
              (Json.bracketed '[' ']' ((ledger.reports.map reportText).map
                LedgerFile.marshalReport) ++ ['}']))))) := by
  have hjoin : ∀ a b c d : List Char, [','].intercalate [a, b, c, d] =
      a ++ ',' :: (b ++ ',' :: (c ++ ',' :: d)) := by
    intro a b c d
    simp [List.intercalate]
  rw [LedgerFile.marshal, BandwidthLedger.file, marshalInt_natCast, Json.bracketed, hjoin]
  simp only [Json.member, Json.renderField, Json.Value.render, List.append_assoc, List.cons_append]
  rfl

/-- The text is read back member by member. -/
theorem read_marshal {ledger : BandwidthLedger} (h : LedgerOk ledger) {bootID : String}
    (hboot : canonicalSubscriptionID bootID = true) :
    LedgerFile.read (ledger.file bootID).marshal = some (ledger.file bootID) := by
  have hname : ∀ name ∈ ["v", "b", "q", "r"], name.toList.all Json.plain = true := by decide
  have hplain : ∀ name ∈ ["v", "b", "q", "r"], Json.PlainText name := fun name hmem =>
    Json.plainText_of_all (hname name hmem)
  have hfield : ∀ name ∈ ["v", "b", "q", "r"], ∀ value : Json.Value,
      (∀ s, value = .text s → Json.PlainText s) → ∀ rest : List Char,
      Json.readField (Json.renderField Json.goEscape (name, value) ++ ',' :: rest) =
        some ((name, value), ',' :: rest) := by
    intro name hmem value hvalue rest
    have hdigit : ','.isDigit = false := by decide
    exact Json.readField_render (hplain name hmem) hvalue hdigit
  have htext : ∀ s, Json.Value.text bootID = .text s → Json.PlainText s := by
    intro s hs
    cases hs
    exact (canonical_chars hboot).2
  have hnumber : ∀ n s, Json.Value.number n = .text s → Json.PlainText s := by
    intro n s hs
    cases hs
  have hv := hfield "v" (by simp) (.number 1) (hnumber 1)
  have hb := hfield "b" (by simp) (.text bootID) htext
  have hq := hfield "q" (by simp) (.number ledger.sequence) (hnumber _)
  have hr : ∀ rest, Json.readString (Json.quote Json.goEscape "r" ++ rest) = some ("r", rest) :=
    Json.readString_quote (hplain "r" (by simp))
  have hbind : ∀ {α β : Type} (x : α) (f : α → Option β), (some x >>= f) = f x := fun _ _ => rfl
  rw [marshal_eq, LedgerFile.read]
  -- the members are read one after another, each before what follows it
  rw [Json.readChar_cons, hbind, hv, hbind]
  dsimp only
  rw [Json.readChar_cons, hbind, hb, hbind]
  dsimp only
  rw [Json.readChar_cons, hbind, hq, hbind]
  dsimp only
  rw [Json.readChar_cons, hbind, hr, hbind]
  dsimp only
  rw [Json.readChar_cons, hbind, readReports_marshal h.reports, hbind]
  rfl

/-! ## the round trip -/

theorem LedgerOk.fits {ledger : BandwidthLedger} (h : LedgerOk ledger) (bootID : String) :
    (ledger.file bootID).Fits := by
  have hnat : ∀ n : ℕ, n ≤ maxInt64 → LedgerFile.IsInt64 n := by
    intro n hn
    unfold LedgerFile.IsInt64
    omega
  refine ⟨hnat 1 (by decide), hnat _ h.sequence, fun r hr => ?_⟩
  obtain ⟨r', hr', rfl⟩ := List.mem_map.mp hr
  exact ⟨hnat _ (h.reports r' hr').ingress, hnat _ (h.reports r' hr').egress⟩

/-- The reports already stand in the order of the file. -/
theorem LedgerOk.sort_file {ledger : BandwidthLedger} (h : LedgerOk ledger) :
    (ledger.reports.map reportText).insertionSort LedgerFile.reportOrder =
      ledger.reports.map reportText := by
  apply List.Pairwise.insertionSort_eq
  rw [List.pairwise_map]
  refine h.sorted.imp_of_mem fun {x y} hx hy hbefore => ?_
  cases hbefore with
  | inl hday => exact .inl (dayText_lt (h.reports x hx).dated (h.reports y hy).dated hday)
  | inr hid =>
      right
      exact ⟨congrArg dayText hid.1, le_of_lt hid.2⟩

/-- **A ledger that fits the file is stored**, within the size limit. -/
theorem LedgerOk.store {ledger : BandwidthLedger} (h : LedgerOk ledger) {bootID : String}
    (hboot : canonicalSubscriptionID bootID = true) :
    (ledger.file bootID).storeBandwidthLedger = .ok (Json.utf8 (ledger.file bootID).marshal) ∧
      (Json.utf8 (ledger.file bootID).marshal).length ≤ maxBandwidthLedgerSize := by
  have hsize := size_marshal_le h hboot
  have hsame : { ledger.file bootID with
      reports := (ledger.file bootID).reports.insertionSort LedgerFile.reportOrder } =
      ledger.file bootID := by
    rw [BandwidthLedger.file, h.sort_file]
  refine ⟨?_, hsize⟩
  rw [LedgerFile.storeBandwidthLedger]
  simp only [hsame, h.validate hboot]
  exact if_neg (not_lt.mpr hsize)

/-- **What was stored is loaded again**: boot identifier, sequence and totals. -/
theorem load_store {ledger : BandwidthLedger} (h : LedgerOk ledger) {bootID : String}
    (hboot : canonicalSubscriptionID bootID = true) (other : Bytes → Option LedgerFile)
    (random : Fin 16 → Fin 256) {raw : Bytes}
    (hstore : (ledger.file bootID).storeBandwidthLedger = .ok raw) :
    LedgerFile.loadBandwidthLedger other random (some raw) = .ok (ledger.file bootID) := by
  obtain ⟨hok, hsize⟩ := h.store hboot
  rw [hok] at hstore
  cases hstore
  have hne : (Json.utf8 (ledger.file bootID).marshal).length ≠ 0 := by
    have hpos : 0 < Json.size (ledger.file bootID).marshal := by
      rw [Json.size_ascii (ascii_marshal h hboot), marshal_eq, List.length_cons]
      omega
    exact Nat.pos_iff_ne_zero.mp hpos
  have hdecode : LedgerFile.decode other (Json.utf8 (ledger.file bootID).marshal) =
      some (ledger.file bootID) := by
    rw [LedgerFile.decode, Json.chars_utf8 (ascii_marshal h hboot), read_marshal h hboot]
    simp [h.fits bootID]
  rw [LedgerFile.loadBandwidthLedger, if_neg (by omega), hdecode]
  simp only [h.validate hboot]
  rfl

theorem ledgerOk_empty : LedgerOk ⟨0, []⟩ :=
  ⟨⟨Nat.zero_le _, fun _ hr => absurd hr List.not_mem_nil, .nil, Nat.zero_le _⟩,
    fun _ hr => absurd hr List.not_mem_nil⟩

theorem canonical_randomCanonicalUUID (random : Fin 16 → Fin 256) :
    canonicalSubscriptionID (LedgerFile.randomCanonicalUUID random) = true := Uuid.canonical_text _

/-- Where there is no file, a start stores an empty one. -/
theorem load_none (other : Bytes → Option LedgerFile) (random : Fin 16 → Fin 256) :
    LedgerFile.loadBandwidthLedger other random none =
      .ok ((BandwidthLedger.mk 0 []).file (LedgerFile.randomCanonicalUUID random)) := by
  have hstore := (ledgerOk_empty.store (canonical_randomCanonicalUUID random)).1
  show (((BandwidthLedger.mk 0 []).file
    (LedgerFile.randomCanonicalUUID random)).storeBandwidthLedger >>= fun _ => _) = _
  rw [hstore]
  rfl

/-- What is loaded is a ledger that fits the file. -/
theorem load_ok {other : Bytes → Option LedgerFile} {random : Fin 16 → Fin 256}
    {raw : Option Bytes} {file : LedgerFile}
    (h : LedgerFile.loadBandwidthLedger other random raw = .ok file) :
    LedgerOk file.ledger ∧ file.ledger.file file.bootID = file ∧
      canonicalSubscriptionID file.bootID = true := by
  cases raw with
  | none =>
      rw [load_none] at h
      rw [← Except.ok.inj h]
      exact ⟨ledgerOk_empty, rfl, canonical_randomCanonicalUUID random⟩
  | some raw =>
      rw [LedgerFile.loadBandwidthLedger] at h
      split at h
      · cases h
      split at h
      · cases h
      rename_i ledger hdecode
      obtain ⟨valid, hvalidate, hledger⟩ := Except.bind_eq_ok h
      rw [Except.ok.inj hledger] at hdecode hvalidate
      have hfits : file.Fits := by
        rw [LedgerFile.decode] at hdecode
        exact of_decide_eq_true (Option.filter_eq_some_iff.mp hdecode).2
      exact ledgerOk_of_validate hvalidate hfits

end Relay

import Mathlib.Data.List.Infix
import Mathlib.Data.List.DropRight
import Blindport.Text.HostPort
import Blindport.Wgnet.State

/-!
# Blindport.Wgnet.PortRanges

The ports of `internal/wgnet/gateway.go`: the list an operator writes, the check of a
firewall configuration, and the port set that is written into the nft rules.

`parsePortRanges_iff` says that the parser accepts the renderings of the lists that pass
`validatePortRanges`, and nothing else.
-/

namespace Wgnet

/-! ## texts -/

/-- `unicode.IsSpace`. -/
def isSpace (c : Char) : Bool :=
  let n := c.toNat
  (9 ≤ n ∧ n ≤ 13) ∨ n = 32 ∨ n = 0x85 ∨ n = 0xA0 ∨ n = 0x1680 ∨ (0x2000 ≤ n ∧ n ≤ 0x200A) ∨
    n = 0x2028 ∨ n = 0x2029 ∨ n = 0x202F ∨ n = 0x205F ∨ n = 0x3000

/-- `strings.TrimSpace`. -/
def trimSpace (s : List Char) : List Char := (s.dropWhile isSpace).rdropWhile isSpace

/-- `PortRange`: an inclusive TCP or UDP port interval. -/
structure PortRange where
  start : UInt16
  stop : UInt16
deriving DecidableEq

/-- The errors of `ParsePortRanges` and `validatePortRanges`, one constructor per message
of the source. -/
inductive PortError where
  | whitespace
  | tooManyEntries
  | invalidRange (part : List Char)
  | notCanonical (value : List Char)
  | notDecimal (value : List Char)
  | outOfRange (value : List Char)
  | notAscending (part : List Char)
  | outOfOrder (part : List Char)
  | tooManyPorts
  | notOrdered
deriving DecidableEq

/-- `maxGatewayPortRanges`. -/
def maxGatewayPortRanges : Nat := 64

/-- `maxGatewayPorts`. -/
def maxGatewayPorts : Nat := 1024

/-- `parseCanonicalPort`. -/
def parseCanonicalPort (value : List Char) : Except PortError UInt16 :=
  if value = [] ∨ (1 < value.length ∧ value.head? = some '0') then .error (.notCanonical value)
  else if value.any (fun c => c < '0' ∨ '9' < c) then .error (.notDecimal value)
  else
    match HostPort.parseUint16 value with
    | none => .error (.outOfRange value)
    | some parsed => if parsed = 0 then .error (.outOfRange value) else .ok (UInt16.ofNat parsed)

/-- The two ports of a part of the list. -/
def parseBounds (part : List Char) : Except PortError (UInt16 × UInt16) :=
  match part.splitOn '-' with
  | [value] => do
      let start ← parseCanonicalPort value
      .ok (start, start)
  | [value, value'] => do
      let start ← parseCanonicalPort value
      let stop ← parseCanonicalPort value'
      if stop ≤ start then .error (.notAscending part) else .ok (start, stop)
  | _ => .error (.invalidRange part)

/-- The loop of `ParsePortRanges`. -/
def parseParts (previousEnd total : Nat) : List (List Char) → Except PortError (List PortRange)
  | [] => .ok []
  | part :: parts =>
      if part = [] ∨ 1 < part.count '-' then .error (.invalidRange part)
      else do
        let (start, stop) ← parseBounds part
        if start.toNat ≤ previousEnd then .error (.outOfOrder part)
        else
          let width := stop.toNat - start.toNat + 1
          if maxGatewayPorts < total + width then .error .tooManyPorts
          else do
            let ranges ← parseParts stop.toNat (total + width) parts
            .ok (⟨start, stop⟩ :: ranges)

/-- `ParsePortRanges`. -/
def parsePortRanges (value : List Char) : Except PortError (List PortRange) :=
  if value = [] then .ok []
  else if trimSpace value ≠ value then .error .whitespace
  else
    let parts := value.splitOn ','
    if maxGatewayPortRanges < parts.length then .error .tooManyEntries else parseParts 0 0 parts

/-- The loop of `validatePortRanges`. -/
def validateFrom (previous total : Nat) : List PortRange → Except PortError Unit
  | [] => .ok ()
  | r :: ranges =>
      if r.start = 0 ∨ r.stop < r.start ∨ r.start.toNat ≤ previous then .error .notOrdered
      else
        let total := total + (r.stop.toNat - r.start.toNat + 1)
        if maxGatewayPorts < total then .error .tooManyPorts
        else validateFrom r.stop.toNat total ranges

/-- `validatePortRanges`. -/
def validatePortRanges (ranges : List PortRange) : Except PortError Unit :=
  if maxGatewayPortRanges < ranges.length then .error .tooManyEntries else validateFrom 0 0 ranges

/-- A range as `writeNFTPortSet` writes it. -/
def PortRange.text (r : PortRange) : List Char :=
  if r.start = r.stop then Nat.toDigits 10 r.start.toNat
  else Nat.toDigits 10 r.start.toNat ++ '-' :: Nat.toDigits 10 r.stop.toNat

/-- The list an operator writes for ranges. -/
def render (ranges : List PortRange) : List Char := [','].intercalate (ranges.map PortRange.text)

/-- What `writeNFTPortSet` writes before the elements. -/
def setHeader (name : List Char) : List Char :=
  "\tset ".toList ++ name ++ " \x7b\n\t\ttype inet_service\n\t\tflags interval\n".toList

/-- `writeNFTPortSet`. -/
def writeNFTPortSet (name : List Char) (ranges : List PortRange) : List Char :=
  let values := (sortStrings (ranges.map fun r => String.ofList r.text)).map String.toList
  setHeader name ++
    (if values = [] then []
      else "\t\telements = \x7b ".toList ++ ", ".toList.intercalate values ++ " \x7d\n".toList) ++
    "\t\x7d\n".toList

/-! ## nft port sets -/

/-- The interval an element of a port set stands for. -/
def readElement (element : List Char) : Option (Nat × Nat) :=
  match element.splitOn '-' with
  | [port] => (HostPort.parseUint16 port).map fun p => (p, p)
  | [first, last] => do
      let first ← HostPort.parseUint16 first
      let last ← HostPort.parseUint16 last
      some (first, last)
  | _ => none

/-- The elements between the braces. -/
def readElements (elements : List Char) : Option (List (Nat × Nat)) :=
  (elements.splitOn ',').mapM fun element => readElement (element.dropWhile (· = ' '))

/-- The elements in a port set: behind its header nothing, or one line of them. -/
def readNFTPortSet (name text : List Char) : Option (List (Nat × Nat)) := do
  let body ← (setHeader name).isPrefixOf? text
  if body = "\t\x7d\n".toList then some []
  else
    let elements ← "\t\telements = \x7b ".toList.isPrefixOf? body
    let elements ← " \x7d\n\t\x7d\n".toList.isSuffixOf? elements
    readElements elements

/-- The ports a port set holds. -/
def setPorts (name text : List Char) : Option (Set Nat) :=
  (readNFTPortSet name text).map fun elements => {p | ∃ e ∈ elements, e.1 ≤ p ∧ p ≤ e.2}

/-! ## ports and ranges -/

/-- A positive number prints without a leading zero. -/
theorem head?_toDigits {n : Nat} (h : 0 < n) : (Nat.toDigits 10 n).head? ≠ some '0' := by
  induction n using Nat.strong_induction_on with
  | _ n ih =>
      by_cases hlt : n < 10
      · have hdigit : ∀ k : Fin 10, 0 < k.val → Nat.digitChar k ≠ '0' := by decide
        rw [Nat.toDigits_of_lt_base hlt, List.head?_cons]
        intro heq
        exact hdigit ⟨n, hlt⟩ h (Option.some.inj heq)
      · rw [Nat.toDigits_of_base_le (by decide) (Nat.le_of_not_lt hlt)]
        have hinit := ih (n / 10) (by omega) (by omega)
        cases hcs : Nat.toDigits 10 (n / 10) with
        | nil => exact absurd hcs Nat.toDigits_ne_nil
        | cons c cs =>
            rw [hcs] at hinit
            exact hinit

theorem isDigit_toDigits {n : Nat} {c : Char} (h : c ∈ Nat.toDigits 10 n) : c.isDigit = true :=
  Nat.isDigit_of_mem_toDigits (by decide) (by decide) h

theorem not_mem_toDigits {c : Char} (hc : c.isDigit = false) (n : Nat) :
    c ∉ Nat.toDigits 10 n := by
  intro h
  rw [isDigit_toDigits h] at hc
  contradiction

/-- **A port has one spelling.** -/
theorem parseCanonicalPort_iff {value : List Char} {p : UInt16} :
    parseCanonicalPort value = .ok p ↔ p ≠ 0 ∧ value = Nat.toDigits 10 p.toNat := by
  constructor
  · intro h
    unfold parseCanonicalPort at h
    split at h
    · contradiction
    rename_i hlead
    split at h
    · contradiction
    split at h
    · contradiction
    rename_i n hn
    split at h
    · contradiction
    rename_i hzero
    obtain rfl := Except.ok.inj h
    have hto : (UInt16.ofNat n).toNat = n := UInt16.toNat_ofNat_of_lt' (HostPort.parseUint16_lt hn)
    constructor
    · intro heq
      rw [heq] at hto
      exact hzero hto.symm
    · rw [hto]
      refine HostPort.eq_toDigits_of_parseUint16 hn fun hhead => ?_
      by_contra hlen
      have hne : value ≠ [] := fun hnil => hlead (.inl hnil)
      have hpos := List.length_pos_iff.mpr hne
      exact hlead (.inr ⟨by omega, hhead⟩)
  · rintro ⟨hp, rfl⟩
    have hpos : 0 < p.toNat := by
      by_contra hzero
      exact hp (UInt16.toNat_inj.mp (Nat.le_zero.mp (Nat.le_of_not_lt hzero)))
    have hdecimal :
        ((Nat.toDigits 10 p.toNat).any fun c => decide (c < '0' ∨ '9' < c)) = false := by
      rw [List.any_eq_false]
      intro c hc
      have hdigit := isDigit_toDigits hc
      simp only [Char.isDigit, ge_iff_le, Bool.and_eq_true, decide_eq_true_eq] at hdigit
      rw [decide_eq_true_eq, not_or]
      exact ⟨Char.not_lt.mpr hdigit.1, Char.not_lt.mpr hdigit.2⟩
    unfold parseCanonicalPort
    rw [if_neg, hdecimal, if_neg (by decide), HostPort.parseUint16_toDigits p.toNat_lt]
    · simp only
      rw [if_neg (Nat.ne_of_gt hpos), UInt16.ofNat_toNat]
    · rw [not_or]
      exact ⟨Nat.toDigits_ne_nil, fun h => head?_toDigits hpos h.2⟩

theorem text_ne_nil (r : PortRange) : r.text ≠ [] := by
  unfold PortRange.text
  split
  · exact Nat.toDigits_ne_nil
  · simp

theorem count_hyphen_toDigits (n : Nat) : (Nat.toDigits 10 n).count '-' = 0 :=
  List.count_eq_zero.mpr (not_mem_toDigits (by decide) n)

theorem count_hyphen_text (r : PortRange) : r.text.count '-' ≤ 1 := by
  unfold PortRange.text
  split
  · rw [count_hyphen_toDigits]
    decide
  · rw [List.count_append, List.count_cons_self, count_hyphen_toDigits, count_hyphen_toDigits]

/-- The pieces of the text of a range. -/
theorem splitOn_text (r : PortRange) : r.text.splitOn '-' =
    if r.start = r.stop then [Nat.toDigits 10 r.start.toNat]
    else [Nat.toDigits 10 r.start.toNat, Nat.toDigits 10 r.stop.toNat] := by
  have hhyphen := fun n => not_mem_toDigits (c := '-') (by decide) n
  unfold PortRange.text
  split
  · exact List.splitOn_eq_singleton (hhyphen _)
  · rw [List.splitOn_append_cons_self_of_not_mem (hhyphen _), List.splitOn_eq_singleton (hhyphen _)]

/-- A range that may be written: its ports are in order, and the first is not zero. -/
def PortRange.Proper (r : PortRange) : Prop := r.start ≠ 0 ∧ r.start ≤ r.stop

theorem parseBounds_text {r : PortRange} (h : r.Proper) :
    parseBounds r.text = .ok (r.start, r.stop) := by
  obtain ⟨hstart, hle⟩ := h
  have hfirst := parseCanonicalPort_iff.mpr ⟨hstart, rfl⟩
  rw [parseBounds, splitOn_text]
  by_cases hone : r.start = r.stop
  · rw [if_pos hone]
    simp only [hfirst]
    rw [← hone]
    rfl
  · have hstop : r.stop ≠ 0 := by
      intro hzero
      rw [hzero] at hle
      exact hstart (UInt16.le_zero_iff.mp hle)
    have hlast := parseCanonicalPort_iff.mpr ⟨hstop, rfl⟩
    rw [if_neg hone]
    simp only [hfirst, hlast]
    have hlt : ¬ r.stop ≤ r.start := fun hge => hone (UInt16.le_antisymm hle hge)
    change (if r.stop ≤ r.start then _ else _) = _
    rw [if_neg hlt]

theorem text_of_parseBounds {part : List Char} {start stop : UInt16}
    (h : parseBounds part = .ok (start, stop)) :
    (PortRange.mk start stop).Proper ∧ part = (PortRange.mk start stop).text := by
  unfold parseBounds at h
  have hjoin : ['-'].intercalate (part.splitOn '-') = part := List.intercalate_splitOn '-'
  split at h
  · rename_i value hsplit
    cases hport : parseCanonicalPort value with
    | error e => rw [hport] at h; contradiction
    | ok p =>
        rw [hport] at h
        obtain ⟨rfl, rfl⟩ := Prod.mk.inj (Except.ok.inj h)
        obtain ⟨hp, rfl⟩ := parseCanonicalPort_iff.mp hport
        refine ⟨⟨hp, UInt16.le_refl p⟩, ?_⟩
        rw [hsplit, List.intercalate_singleton] at hjoin
        rw [← hjoin, PortRange.text, if_pos rfl]
  · rename_i value value' hsplit
    cases hfirst : parseCanonicalPort value with
    | error e => rw [hfirst] at h; contradiction
    | ok first =>
        cases hlast : parseCanonicalPort value' with
        | error e => rw [hfirst, hlast] at h; contradiction
        | ok last =>
            rw [hfirst, hlast] at h
            change (if last ≤ first then _ else _) = _ at h
            split at h
            · contradiction
            rename_i hlt
            obtain ⟨rfl, rfl⟩ := Prod.mk.inj (Except.ok.inj h)
            obtain ⟨hp, rfl⟩ := parseCanonicalPort_iff.mp hfirst
            obtain ⟨-, rfl⟩ := parseCanonicalPort_iff.mp hlast
            have hless := UInt16.not_le.mp hlt
            refine ⟨⟨hp, UInt16.le_of_lt hless⟩, ?_⟩
            rw [hsplit, List.intercalate_cons_cons, List.intercalate_singleton] at hjoin
            have hne : first ≠ last := fun heq => hlt (heq ▸ UInt16.le_refl _)
            rw [← hjoin, PortRange.text, if_neg hne, List.append_assoc, List.singleton_append]
  · contradiction

/-! ## lists of ranges -/

/-- The number of ports in a range. -/
def PortRange.width (r : PortRange) : Nat := r.stop.toNat - r.start.toNat + 1

/-- A list of ranges as it may be written: proper ranges, one behind the other, and not too
many of them. -/
structure CanonicalRanges (ranges : List PortRange) : Prop where
  proper : ∀ r ∈ ranges, 1 ≤ r.start.toNat ∧ r.start ≤ r.stop ∧ r.stop.toNat ≤ 65535
  ordered : ranges.Pairwise fun r r' => r.stop < r'.start
  entries : ranges.length ≤ 64
  ports : (ranges.map PortRange.width).sum ≤ 1024

/-- One step of both loops. -/
theorem validateFrom_cons {previous total : Nat} {r : PortRange} {ranges : List PortRange} :
    validateFrom previous total (r :: ranges) = .ok () ↔
      r.Proper ∧ previous < r.start.toNat ∧ total + r.width ≤ maxGatewayPorts ∧
        validateFrom r.stop.toNat (total + r.width) ranges = .ok () := by
  rw [validateFrom]
  constructor
  · intro h
    split at h
    · contradiction
    rename_i hbad
    rw [not_or, not_or] at hbad
    simp only at h
    split at h
    · contradiction
    rename_i hports
    exact ⟨⟨hbad.1, UInt16.not_lt.mp hbad.2.1⟩, Nat.lt_of_not_le hbad.2.2,
      Nat.le_of_not_lt hports, h⟩
  · rintro ⟨⟨hstart, hle⟩, hlt, hports, hrest⟩
    rw [if_neg]
    · change (if maxGatewayPorts < total + r.width then _ else _) = _
      rw [if_neg (Nat.not_lt.mpr hports)]
      exact hrest
    · rw [not_or, not_or]
      exact ⟨hstart, UInt16.not_lt.mpr hle, Nat.not_le.mpr hlt⟩

/-- **The two loops agree**: what one parses the other accepts, and it is what was
written. -/
theorem parseParts_iff {previous total : Nat} {parts : List (List Char)}
    {ranges : List PortRange} :
    parseParts previous total parts = .ok ranges ↔
      validateFrom previous total ranges = .ok () ∧ parts = ranges.map PortRange.text := by
  induction parts generalizing previous total ranges with
  | nil =>
      constructor
      · intro h
        obtain rfl := Except.ok.inj h
        exact ⟨rfl, rfl⟩
      · rintro ⟨-, h⟩
        rw [List.map_eq_nil_iff.mp h.symm]
        rfl
  | cons part parts ih =>
      constructor
      · intro h
        rw [parseParts] at h
        split at h
        · contradiction
        cases hbounds : parseBounds part with
        | error e => rw [hbounds] at h; contradiction
        | ok bounds =>
            obtain ⟨start, stop⟩ := bounds
            rw [hbounds] at h
            change (if start.toNat ≤ previous then _ else _) = _ at h
            obtain ⟨hproper, htext⟩ := text_of_parseBounds hbounds
            split at h
            · contradiction
            rename_i hlt
            split at h
            · contradiction
            rename_i hports
            cases hrest : parseParts stop.toNat (total + (stop.toNat - start.toNat + 1)) parts with
            | error e => rw [hrest] at h; contradiction
            | ok rest =>
                rw [hrest] at h
                obtain rfl := Except.ok.inj h
                obtain ⟨hvalid, hparts⟩ := ih.mp hrest
                constructor
                · exact validateFrom_cons.mpr
                    ⟨hproper, Nat.lt_of_not_le hlt, Nat.le_of_not_lt hports, hvalid⟩
                · rw [List.map_cons, ← htext, ← hparts]
      · rintro ⟨hvalid, hparts⟩
        cases ranges with
        | nil => contradiction
        | cons r ranges =>
            rw [List.map_cons, List.cons.injEq] at hparts
            obtain ⟨rfl, rfl⟩ := hparts
            obtain ⟨hproper, hlt, hports, hrest⟩ := validateFrom_cons.mp hvalid
            have hparsed : parseParts r.stop.toNat (total + (r.stop.toNat - r.start.toNat + 1))
                (ranges.map PortRange.text) = .ok ranges := ih.mpr ⟨hrest, rfl⟩
            have hplain : ¬(r.text = [] ∨ 1 < r.text.count '-') := by
              rw [not_or]
              exact ⟨text_ne_nil r, Nat.not_lt.mpr (count_hyphen_text r)⟩
            rw [parseParts, if_neg hplain, parseBounds_text hproper]
            change (if r.start.toNat ≤ previous then _ else _) = _
            rw [if_neg (Nat.not_le.mpr hlt)]
            change (if maxGatewayPorts < total + r.width then _ else _) = _
            rw [if_neg (Nat.not_lt.mpr hports), hparsed]
            rfl

/-- What the loop of `validatePortRanges` accepts. -/
theorem canonical_of_validateFrom {previous total : Nat} {ranges : List PortRange}
    (h : validateFrom previous total ranges = .ok ()) (htotal : total ≤ maxGatewayPorts) :
    (∀ r ∈ ranges, r.Proper ∧ previous < r.start.toNat) ∧
      ranges.Pairwise (fun r r' => r.stop < r'.start) ∧
      total + (ranges.map PortRange.width).sum ≤ maxGatewayPorts := by
  induction ranges generalizing previous total with
  | nil => exact ⟨by simp, List.Pairwise.nil, by simpa using htotal⟩
  | cons r ranges ih =>
      obtain ⟨hproper, hlt, hports, hrest⟩ := validateFrom_cons.mp h
      obtain ⟨hall, hordered, hsum⟩ := ih hrest hports
      refine ⟨?_, ?_, ?_⟩
      · intro r' hr'
        cases List.mem_cons.mp hr' with
        | inl heq => exact heq ▸ ⟨hproper, hlt⟩
        | inr hr' =>
            obtain ⟨hproper', hafter⟩ := hall r' hr'
            have hle := UInt16.le_iff_toNat_le.mp hproper.2
            exact ⟨hproper', by omega⟩
      · rw [List.pairwise_cons]
        exact ⟨fun r' hr' => UInt16.lt_iff_toNat_lt.mpr (hall r' hr').2, hordered⟩
      · rw [List.map_cons, List.sum_cons]
        omega

/-- What `validatePortRanges` accepts is canonical. -/
theorem canonical_of_valid {ranges : List PortRange} (h : validatePortRanges ranges = .ok ()) :
    CanonicalRanges ranges := by
  unfold validatePortRanges at h
  split at h
  · contradiction
  rename_i hentries
  obtain ⟨hall, hordered, hports⟩ := canonical_of_validateFrom h (by decide)
  refine ⟨fun r hr => ?_, hordered, Nat.le_of_not_lt hentries, by rwa [Nat.zero_add] at hports⟩
  obtain ⟨hproper, hpos⟩ := hall r hr
  exact ⟨hpos, hproper.2, Nat.le_of_lt_succ r.stop.toNat_lt⟩

/-! ## the whole list -/

theorem not_mem_text {c : Char} (hc : c.isDigit = false) (hhyphen : c ≠ '-') (r : PortRange) :
    c ∉ r.text := by
  unfold PortRange.text
  split
  · exact not_mem_toDigits hc _
  · simp [not_mem_toDigits hc, hhyphen]

theorem splitOn_render {ranges : List PortRange} (hne : ranges ≠ []) :
    (render ranges).splitOn ',' = ranges.map PortRange.text := by
  refine List.splitOn_intercalate ',' ?_ (by simpa using hne)
  intro part hpart
  obtain ⟨r, -, rfl⟩ := List.mem_map.mp hpart
  exact not_mem_text (by decide) (by decide) r

theorem render_eq_nil {ranges : List PortRange} : render ranges = [] ↔ ranges = [] := by
  constructor
  · intro h
    by_contra hne
    have hsplit := splitOn_render hne
    rw [h, List.splitOn_nil] at hsplit
    cases ranges with
    | nil => contradiction
    | cons r ranges =>
        rw [List.map_cons, List.cons.injEq] at hsplit
        exact text_ne_nil r hsplit.1.symm
  · rintro rfl
    rfl

/-- There is no blank in a rendered list. -/
theorem isSpace_render {ranges : List PortRange} {c : Char} (hc : c ∈ render ranges) :
    isSpace c = false := by
  have hchar : c = ',' ∨ c = '-' ∨ c.isDigit = true := by
    cases mem_intercalate hc with
    | inl hcomma => exact .inl hcomma
    | inr hpart =>
        obtain ⟨part, hpart, hc⟩ := hpart
        obtain ⟨r, -, rfl⟩ := List.mem_map.mp hpart
        by_contra hother
        rw [not_or, not_or, Bool.not_eq_true] at hother
        exact not_mem_text hother.2.2 hother.2.1 r hc
  cases hchar with
  | inl h => rw [h]; decide
  | inr h =>
      cases h with
      | inl h => rw [h]; decide
      | inr h =>
          have hrange : 48 ≤ c.toNat ∧ c.toNat ≤ 57 := by
            simpa [Char.isDigit, UInt32.le_iff_toNat_le] using h
          simp only [isSpace, decide_eq_false_iff_not]
          omega

theorem trimSpace_eq_self {s : List Char} (h : ∀ c ∈ s, isSpace c = false) : trimSpace s = s := by
  have hleft : s.dropWhile isSpace = s := by
    cases s with
    | nil => rfl
    | cons c s => rw [List.dropWhile_cons_of_neg (by simp [h c List.mem_cons_self])]
  rw [trimSpace, hleft, List.rdropWhile_eq_self_iff]
  intro hne
  rw [h _ (List.getLast_mem hne)]
  decide

/-- **`ParsePortRanges` accepts the renderings of what `validatePortRanges` accepts**, and
nothing else. -/
theorem parsePortRanges_iff {value : List Char} {ranges : List PortRange} :
    parsePortRanges value = .ok ranges ↔
      validatePortRanges ranges = .ok () ∧ value = render ranges := by
  constructor
  · intro h
    unfold parsePortRanges at h
    split at h
    · rename_i hempty
      obtain rfl := Except.ok.inj h
      exact ⟨rfl, hempty⟩
    split at h
    · contradiction
    simp only at h
    split at h
    · contradiction
    rename_i hentries
    obtain ⟨hvalid, hparts⟩ := parseParts_iff.mp h
    have hjoin : [','].intercalate (value.splitOn ',') = value := List.intercalate_splitOn ','
    rw [hparts, List.length_map] at hentries
    rw [hparts] at hjoin
    rw [validatePortRanges, if_neg hentries]
    exact ⟨hvalid, hjoin.symm⟩
  · rintro ⟨hvalid, rfl⟩
    by_cases hnil : ranges = []
    · subst hnil
      rfl
    · unfold validatePortRanges at hvalid
      split at hvalid
      · contradiction
      rename_i hentries
      have hspace : ∀ c ∈ render ranges, isSpace c = false := fun c hc => isSpace_render hc
      have htrim := trimSpace_eq_self hspace
      rw [parsePortRanges, if_neg (mt render_eq_nil.mp hnil), if_neg (not_not.mpr htrim),
        splitOn_render hnil]
      simp only
      rw [List.length_map, if_neg hentries]
      exact parseParts_iff.mpr ⟨hvalid, rfl⟩

/-! ## the written set -/

theorem isPrefixOf?_append {α : Type} [DecidableEq α] (xs ys : List α) :
    xs.isPrefixOf? (xs ++ ys) = some ys := by
  induction xs with
  | nil => rfl
  | cons x xs ih => simp [List.isPrefixOf?, ih]

theorem isSuffixOf?_append {α : Type} [DecidableEq α] (xs ys : List α) :
    ys.isSuffixOf? (xs ++ ys) = some xs := by
  rw [List.isSuffixOf?, List.reverse_append, isPrefixOf?_append, Option.map_some,
    List.reverse_reverse]

/-- A function that succeeds on every element. -/
theorem mapM_of_forall {α β : Type} {f : α → Option β} {g : α → β} {l : List α}
    (h : ∀ x ∈ l, f x = some (g x)) : l.mapM f = some (l.map g) := by
  induction l with
  | nil => rfl
  | cons x l ih =>
      rw [List.mapM_cons, h x List.mem_cons_self, ih fun y hy => h y (List.mem_cons_of_mem x hy)]
      rfl

theorem intercalate_comma_blank (v : List Char) (vs : List (List Char)) :
    [',', ' '].intercalate (v :: vs) = [','].intercalate (v :: vs.map (' ' :: ·)) := by
  induction vs generalizing v with
  | nil => rfl
  | cons w ws ih =>
      rw [List.intercalate_cons_cons, ih w, List.map_cons, List.intercalate_cons_cons]
      cases ws with
      | nil => simp
      | cons x xs =>
          rw [List.map_cons, List.intercalate_cons_cons, List.intercalate_cons_cons]
          simp

/-- An element is read as the range it was written for. -/
theorem readElement_text (r : PortRange) :
    readElement r.text = some (r.start.toNat, r.stop.toNat) := by
  rw [readElement, splitOn_text]
  by_cases hone : r.start = r.stop
  · rw [if_pos hone]
    simp only [HostPort.parseUint16_toDigits r.start.toNat_lt, Option.map_some, ← hone]
  · rw [if_neg hone]
    simp only [HostPort.parseUint16_toDigits r.start.toNat_lt,
      HostPort.parseUint16_toDigits r.stop.toNat_lt]
    rfl

theorem dropBlanks_text (r : PortRange) : r.text.dropWhile (· = ' ') = r.text := by
  cases htext : r.text with
  | nil => rfl
  | cons c cs =>
      have hc : c ≠ ' ' := by
        rintro rfl
        exact not_mem_text (c := ' ') (by decide) (by decide) r (htext ▸ List.mem_cons_self)
      rw [List.dropWhile_cons_of_neg (by simpa using hc)]

/-- Written elements are read back one by one. -/
theorem readElements_written {v : List Char} {vs : List (List Char)}
    (h : ∀ w ∈ v :: vs, ∃ r : PortRange, w = r.text) :
    readElements (", ".toList.intercalate (v :: vs)) =
      some ((v :: vs).map fun w => (readElement w).getD (0, 0)) := by
  have hno : ∀ part ∈ v :: vs.map (' ' :: ·), ',' ∉ part := by
    intro part hpart hcomma
    have hin : ∃ w ∈ v :: vs, ',' ∈ w := by
      cases List.mem_cons.mp hpart with
      | inl heq => exact ⟨v, List.mem_cons_self, heq ▸ hcomma⟩
      | inr hpart =>
          obtain ⟨w, hw, rfl⟩ := List.mem_map.mp hpart
          exact ⟨w, List.mem_cons_of_mem v hw, by simpa using hcomma⟩
    obtain ⟨w, hw, hcomma⟩ := hin
    obtain ⟨r, rfl⟩ := h w hw
    exact not_mem_text (by decide) (by decide) r hcomma
  have hread : ∀ w ∈ v :: vs, readElement (w.dropWhile (· = ' ')) =
      some ((readElement w).getD (0, 0)) := by
    intro w hw
    obtain ⟨r, rfl⟩ := h w hw
    rw [dropBlanks_text, readElement_text, Option.getD_some]
  have htail : (vs.map (' ' :: ·)).mapM (fun element => readElement (element.dropWhile (· = ' '))) =
      some (vs.map fun w => (readElement w).getD (0, 0)) := by
    have hall := mapM_of_forall (f := fun element => readElement (element.dropWhile (· = ' ')))
      (g := fun element => (readElement element.tail).getD (0, 0)) (l := vs.map (' ' :: ·)) (by
        intro part hpart
        obtain ⟨w, hw, rfl⟩ := List.mem_map.mp hpart
        rw [List.dropWhile_cons_of_pos (by simp), hread w (List.mem_cons_of_mem v hw),
          List.tail_cons])
    rw [hall, List.map_map]
    rfl
  rw [readElements, show ", ".toList = [',', ' '] from rfl, intercalate_comma_blank,
    List.splitOn_intercalate ',' hno (by simp), List.mapM_cons, hread v List.mem_cons_self, htail]
  rfl

/-- The elements of a written set. -/
theorem readNFTPortSet_written (name : List Char) (ranges : List PortRange) :
    ∃ elements, readNFTPortSet name (writeNFTPortSet name ranges) = some elements ∧
      ∀ e, e ∈ elements ↔ ∃ r ∈ ranges, e = (r.start.toNat, r.stop.toNat) := by
  have hvalue : ∀ v,
      v ∈ (sortStrings (ranges.map fun r => String.ofList r.text)).map String.toList ↔
        ∃ r ∈ ranges, v = r.text := by
    intro v
    simp only [List.mem_map, mem_sortStrings]
    constructor
    · rintro ⟨-, ⟨r, hr, rfl⟩, rfl⟩
      exact ⟨r, hr, String.toList_ofList⟩
    · rintro ⟨r, hr, rfl⟩
      exact ⟨_, ⟨r, hr, rfl⟩, String.toList_ofList⟩
  unfold readNFTPortSet writeNFTPortSet
  simp only
  generalize (sortStrings (ranges.map fun r => String.ofList r.text)).map String.toList = values
    at hvalue
  rw [List.append_assoc, isPrefixOf?_append]
  cases values with
  | nil =>
      refine ⟨[], rfl, fun e => ?_⟩
      constructor
      · intro he
        contradiction
      · rintro ⟨r, hr, -⟩
        exact absurd ((hvalue r.text).mpr ⟨r, hr, rfl⟩) (by simp)
  | cons v vs =>
      refine ⟨(v :: vs).map fun w => (readElement w).getD (0, 0), ?_, fun e => ?_⟩
      · have hwritten : (if v :: vs = [] then []
            else "\t\telements = \x7b ".toList ++ ", ".toList.intercalate (v :: vs) ++
              " \x7d\n".toList) ++ "\t\x7d\n".toList =
            "\t\telements = \x7b ".toList ++ (", ".toList.intercalate (v :: vs) ++
              " \x7d\n\t\x7d\n".toList) := by
          rw [if_neg (by simp), List.append_assoc, List.append_assoc]
          rfl
        have hclosed : ¬ "\t\telements = \x7b ".toList ++ (", ".toList.intercalate (v :: vs) ++
            " \x7d\n\t\x7d\n".toList) = "\t\x7d\n".toList := by simp
        rw [hwritten]
        simp only [Option.bind_eq_bind, Option.bind_some]
        rw [if_neg hclosed, isPrefixOf?_append, Option.bind_some, isSuffixOf?_append,
          Option.bind_some]
        apply readElements_written
        intro w hw
        obtain ⟨r, -, heq⟩ := (hvalue w).mp hw
        exact ⟨r, heq⟩
      · rw [List.mem_map]
        constructor
        · rintro ⟨w, hw, rfl⟩
          obtain ⟨r, hr, rfl⟩ := (hvalue w).mp hw
          exact ⟨r, hr, by rw [readElement_text, Option.getD_some]⟩
        · rintro ⟨r, hr, rfl⟩
          have hread : (readElement r.text).getD (0, 0) = (r.start.toNat, r.stop.toNat) := by
            rw [readElement_text, Option.getD_some]
          exact ⟨r.text, (hvalue r.text).mpr ⟨r, hr, rfl⟩, hread⟩

/-- **The firewall opens the ports of the ranges**, and no other. -/
theorem setPorts_written (name : List Char) (ranges : List PortRange) :
    setPorts name (writeNFTPortSet name ranges) =
      some {p | ∃ r ∈ ranges, r.start.toNat ≤ p ∧ p ≤ r.stop.toNat} := by
  obtain ⟨elements, hread, hmem⟩ := readNFTPortSet_written name ranges
  rw [setPorts, hread, Option.map_some]
  congr 1
  ext p
  simp only [Set.mem_ofPred_eq, hmem]
  constructor
  · rintro ⟨e, ⟨r, hr, rfl⟩, hp⟩
    exact ⟨r, hr, hp⟩
  · rintro ⟨r, hr, hp⟩
    exact ⟨_, ⟨r, hr, rfl⟩, hp⟩

/-- **Port ranges.**  What `ParsePortRanges` accepts is a canonical list, written in the one
way it accepts, which passes `validatePortRanges` and which the firewall set opens as it
stands; and it accepts every list that passes. -/
theorem port_ranges_canonical :
    (∀ value ranges, parsePortRanges value = .ok ranges →
      CanonicalRanges ranges ∧ render ranges = value ∧ validatePortRanges ranges = .ok () ∧
      ∀ name, setPorts name (writeNFTPortSet name ranges) =
        some {p | ∃ r ∈ ranges, r.start.toNat ≤ p ∧ p ≤ r.stop.toNat}) ∧
    ∀ ranges, validatePortRanges ranges = .ok () →
      parsePortRanges (render ranges) = .ok ranges := by
  constructor
  · intro value ranges h
    obtain ⟨hvalid, heq⟩ := parsePortRanges_iff.mp h
    exact ⟨canonical_of_valid hvalid, heq.symm, hvalid, fun name => setPorts_written name ranges⟩
  · intro ranges hvalid
    exact parsePortRanges_iff.mpr ⟨hvalid, rfl⟩

/-- Two ports and a range. -/
theorem port_ranges_canonical_sample :
    CanonicalRanges [⟨80, 80⟩, ⟨443, 443⟩, ⟨8000, 8010⟩] ∧
    render [⟨80, 80⟩, ⟨443, 443⟩, ⟨8000, 8010⟩] = "80,443,8000-8010".toList := by
  have hparsed : parsePortRanges "80,443,8000-8010".toList =
      .ok [⟨80, 80⟩, ⟨443, 443⟩, ⟨8000, 8010⟩] := by decide
  obtain ⟨hcanonical, hrender, -, -⟩ := port_ranges_canonical.1 _ _ hparsed
  exact ⟨hcanonical, hrender⟩

end Wgnet

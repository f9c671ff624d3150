import Mathlib.Data.List.TakeWhile
import Blindport.Text.Address

/-!
# Blindport.Text.IPv6

IPv6 addresses and their texts.  The canonical text writes the eight groups in
hexadecimal without leading zeros and the first of the longest runs of at least
two zero groups as `::`.  Three programs print it, each with its own loop:
Python's `_compress_hextets` (`pyChars`), Go's `netip.Addr.String`
(`netipChars`) and `canonicalIP` of the entitlement verifier (`canonicalIP`).
The main results are that the three agree (`canonicalIP_eq_pyChars`,
`netipChars_eq_pyChars`) and that the parser reads the text back
(`parse_pyChars`).
-/

/-! ## groups -/

namespace Hextet

/-- `'%x' % group`: no leading zeros. -/
def chars (g : Fin 65536) : List Char :=
  let d (n : Nat) : Char := Uuid.hexDigit ⟨n % 16, Nat.mod_lt _ (by decide)⟩
  if g.val < 16 then [d g.val]
  else if g.val < 256 then [d (g.val / 16), d g.val]
  else if g.val < 4096 then [d (g.val / 256), d (g.val / 16), d g.val]
  else [d (g.val / 4096), d (g.val / 256), d (g.val / 16), d g.val]

/-- The value of a hexadecimal digit of either case. -/
def value? (c : Char) : Option Nat :=
  if '0' ≤ c ∧ c ≤ '9' then some (c.toNat - 48)
  else if 'a' ≤ c ∧ c ≤ 'f' then some (c.toNat - 87)
  else if 'A' ≤ c ∧ c ≤ 'F' then some (c.toNat - 55)
  else none

/-- One group field: one to four hexadecimal digits. -/
def parse (cs : List Char) : Option (Fin 65536) :=
  if cs.length = 0 ∨ 4 < cs.length then none
  else (cs.foldl (fun acc c => acc.bind fun n => (value? c).map (16 * n + ·)) (some 0)).bind
    fun n => if h : n < 65536 then some ⟨n, h⟩ else none

private theorem value?_hexDigit : ∀ n : Fin 16, value? (Uuid.hexDigit n) = some n.val := by
  decide

private theorem hexDigit_plain : ∀ n : Fin 16,
    Uuid.hexDigit n ≠ ':' ∧ Uuid.hexDigit n ≠ '.' ∧ Uuid.hexDigit n ≠ '%' := by
  decide

@[simp] theorem parse_chars (g : Fin 65536) : parse (chars g) = some g := by
  have hg := g.isLt
  unfold chars
  split
  · simp [parse, value?_hexDigit, Fin.ext_iff]
    omega
  · split
    · simp [parse, value?_hexDigit, Fin.ext_iff]
      omega
    · split
      · simp [parse, value?_hexDigit, Fin.ext_iff]
        omega
      · simp [parse, value?_hexDigit, Fin.ext_iff]
        omega

theorem chars_ne_nil (g : Fin 65536) : chars g ≠ [] := by
  unfold chars
  split
  · simp
  · split
    · simp
    · split <;> simp

theorem length_chars_le (g : Fin 65536) : (chars g).length ≤ 4 := by
  unfold chars
  split
  · simp
  · split
    · simp
    · split <;> simp

/-- The characters of a group are digits. -/
theorem mem_chars {g : Fin 65536} {c : Char} (h : c ∈ chars g) :
    ∃ n : Fin 16, c = Uuid.hexDigit n := by
  unfold chars at h
  split at h
  · simp only [List.mem_singleton] at h
    exact ⟨_, h⟩
  · split at h
    · simp only [List.mem_cons, List.not_mem_nil, or_false] at h
      cases h with
      | inl h => exact ⟨_, h⟩
      | inr h => exact ⟨_, h⟩
    · split at h
      · simp only [List.mem_cons, List.not_mem_nil, or_false] at h
        obtain h | h | h := h
        · exact ⟨_, h⟩
        · exact ⟨_, h⟩
        · exact ⟨_, h⟩
      · simp only [List.mem_cons, List.not_mem_nil, or_false] at h
        obtain h | h | h | h := h
        · exact ⟨_, h⟩
        · exact ⟨_, h⟩
        · exact ⟨_, h⟩
        · exact ⟨_, h⟩

/-- None of the separators of an address is in a group. -/
theorem plain_of_mem_chars {g : Fin 65536} {c : Char} (h : c ∈ chars g) :
    c ≠ ':' ∧ c ≠ '.' ∧ c ≠ '%' := by
  obtain ⟨n, rfl⟩ := mem_chars h
  exact hexDigit_plain n

/-- A group prints as `0` exactly when it is zero. -/
theorem chars_eq_zero_iff {g : Fin 65536} : chars g = ['0'] ↔ g = 0 := by
  constructor
  · intro h
    have hp := parse_chars g
    have hz : parse ['0'] = some 0 := by decide
    rw [h, hz] at hp
    exact (Option.some_inj.mp hp).symm
  · intro h
    rw [h]
    decide

end Hextet

/-- An IPv6 address by its eight groups. -/
structure IPv6 where
  groups : List (Fin 65536)
  length_eq : groups.length = 8
deriving DecidableEq

namespace IPv6

/-- The texts of the groups. -/
def hextets (ip : IPv6) : List (List Char) := ip.groups.map Hextet.chars

@[simp] theorem length_hextets (ip : IPv6) : ip.hextets.length = 8 := by
  simp [hextets, ip.length_eq]

/-- `Is4In6`: an IPv4 address mapped into IPv6. -/
def is4In6 (ip : IPv6) : Bool := ip.groups.take 6 = [0, 0, 0, 0, 0, 0xffff]

/-! ## the run that is left out -/

/-- The zero groups. -/
def mask (ip : IPv6) : List Bool := ip.groups.map (· == 0)

/-- The variables of the loop in `_compress_hextets`. -/
structure Scan where
  bestStart : Option Nat := none
  bestLen : Nat := 0
  start : Option Nat := none
  len : Nat := 0

/-- One turn of that loop. -/
def Scan.step (s : Scan) (index : Nat) (zero : Bool) : Scan :=
  if zero then
    let len := s.len + 1
    let start := s.start.getD index
    if s.bestLen < len then ⟨some start, len, some start, len⟩
    else ⟨s.bestStart, s.bestLen, some start, len⟩
  else ⟨s.bestStart, s.bestLen, none, 0⟩

/-- The run Python leaves out: its first group and its length. -/
def pyRun (zeros : List Bool) : Option (Nat × Nat) :=
  let s : Scan := zeros.zipIdx.foldl (fun s x => s.step x.2 x.1) {}
  if 1 < s.bestLen then s.bestStart.map fun start => (start, s.bestLen) else none

/-- The end of the run of zeros that starts at an index. -/
def runEnd (zeros : List Bool) (index : Nat) : Nat :=
  index + ((zeros.drop index).takeWhile id).length

/-- The first loop of `canonicalIP`, over what is left from `index`. -/
def goRunLoop (zeros : List Bool) : Nat → Nat → Option Nat × Nat → Option Nat × Nat
  | 0, _, best => best
  | fuel + 1, index, best =>
      if index < zeros.length then
        if zeros[index]? = some true then
          let stop := runEnd zeros index
          goRunLoop zeros fuel stop
            (if best.2 < stop - index then (some index, stop - index) else best)
        else goRunLoop zeros fuel (index + 1) best
      else best

/-- The run `canonicalIP` leaves out. -/
def goRun (zeros : List Bool) : Option (Nat × Nat) :=
  let best := goRunLoop zeros zeros.length 0 (none, 0)
  if best.2 < 2 then none else best.1.map fun start => (start, best.2)

/-- The run `netip.Addr.String` leaves out: `zeroStart` and the run's length. -/
def netipRun (zeros : List Bool) : Option (Nat × Nat) :=
  (List.range zeros.length).foldl
    (fun best i =>
      let l := runEnd zeros i - i
      if 2 ≤ l ∧ (best.map Prod.snd).getD 0 < l then some (i, l) else best) none

/-- A run as the printers need it: not empty, inside the eight groups, and all
zeros. -/
def RunOk (zeros : List Bool) (run : Nat × Nat) : Prop :=
  0 < run.2 ∧ run.1 + run.2 ≤ zeros.length ∧
    (zeros.drop run.1).take run.2 = List.replicate run.2 true

instance (zeros : List Bool) (run : Nat × Nat) : Decidable (RunOk zeros run) :=
  inferInstanceAs (Decidable (_ ∧ _ ∧ _))

-- which groups are zero decides the run, so the eight booleans are all there is
set_option maxRecDepth 4000 in
private theorem run_spec : ∀ a b c d e f g h : Bool,
    goRun [a, b, c, d, e, f, g, h] = pyRun [a, b, c, d, e, f, g, h] ∧
    netipRun [a, b, c, d, e, f, g, h] = pyRun [a, b, c, d, e, f, g, h] ∧
    ∀ run ∈ pyRun [a, b, c, d, e, f, g, h], RunOk [a, b, c, d, e, f, g, h] run := by
  decide +kernel

private theorem run_spec_of_length {zeros : List Bool} (h : zeros.length = 8) :
    goRun zeros = pyRun zeros ∧ netipRun zeros = pyRun zeros ∧
      ∀ run ∈ pyRun zeros, RunOk zeros run := by
  match zeros, h with
  | [a, b, c, d, e, f, g, h], _ => exact run_spec a b c d e f g h

@[simp] theorem length_mask (ip : IPv6) : ip.mask.length = 8 := by simp [mask, ip.length_eq]

theorem goRun_mask (ip : IPv6) : goRun ip.mask = pyRun ip.mask :=
  (run_spec_of_length ip.length_mask).1

theorem netipRun_mask (ip : IPv6) : netipRun ip.mask = pyRun ip.mask :=
  (run_spec_of_length ip.length_mask).2.1

theorem runOk_of_pyRun {ip : IPv6} {run : Nat × Nat} (h : pyRun ip.mask = some run) :
    RunOk ip.mask run :=
  (run_spec_of_length ip.length_mask).2.2 run h

/-! ## the printers -/

/-- `_compress_hextets`. -/
def compressHextets (hextets : List (List Char)) : List (List Char) :=
  match pyRun (hextets.map (· == ['0'])) with
  | none => hextets
  | some (start, len) =>
      let stop := start + len
      -- an empty field at either end makes the join write both colons
      let hextets := if stop = hextets.length then hextets ++ [[]] else hextets
      let hextets := hextets.take start ++ [] :: hextets.drop stop
      if start = 0 then [] :: hextets else hextets

/-- The text of `str(ip_address(...))`, without scope id and not IPv4-mapped. -/
def pyChars (ip : IPv6) : List Char := [':'].intercalate (compressHextets ip.hextets)

/-- The colon `canonicalIP` writes before a group, unless one is there. -/
def separated (builder : List Char) : List Char :=
  if builder ≠ [] ∧ builder.getLast? ≠ some ':' then builder ++ [':'] else builder

/-- The second loop of `canonicalIP`; the last argument is the builder. -/
def goPrintLoop (texts : List (List Char)) (run : Option (Nat × Nat)) :
    Nat → Nat → List Char → List Char
  | 0, _, builder => builder
  | fuel + 1, index, builder =>
      if index < texts.length then
        if run.map Prod.fst = some index then
          goPrintLoop texts run fuel (index + (run.map Prod.snd).getD 0) (builder ++ [':', ':'])
        else
          goPrintLoop texts run fuel (index + 1) (separated builder ++ (texts[index]?).getD [])
      else builder

/-- `canonicalIP` of an IPv6 address. -/
def canonicalIP (ip : IPv6) : List Char :=
  goPrintLoop ip.hextets (goRun ip.mask) 8 0 []

/-- The loop of `netip.Addr.String` over the eight groups. -/
def netipPrintLoop (texts : List (List Char)) (run : Option (Nat × Nat)) :
    Nat → Nat → List Char → List Char
  | 0, _, ret => ret
  | fuel + 1, i, ret =>
      if i < texts.length then
        if run.map Prod.fst = some i then
          let i := i + (run.map Prod.snd).getD 0
          if texts.length ≤ i then ret ++ [':', ':']
          else netipPrintLoop texts run fuel (i + 1) (ret ++ [':', ':'] ++ (texts[i]?).getD [])
        else
          let ret := if 0 < i then ret ++ [':'] else ret
          netipPrintLoop texts run fuel (i + 1) (ret ++ (texts[i]?).getD [])
      else ret

/-- `netip.Addr.String` of an IPv6 address that is not IPv4-mapped. -/
def netipChars (ip : IPv6) : List Char :=
  netipPrintLoop ip.hextets (netipRun ip.mask) 8 0 []

/-- What all of them print: the groups before the run, two colons, the groups
after it. -/
def joined (texts : List (List Char)) : Option (Nat × Nat) → List Char
  | none => [':'].intercalate texts
  | some (start, len) =>
      [':'].intercalate (texts.take start) ++ [':', ':'] ++
        [':'].intercalate (texts.drop (start + len))

theorem mask_eq (ip : IPv6) : ip.hextets.map (· == ['0']) = ip.mask := by
  rw [hextets, mask, List.map_map]
  apply List.map_congr_left
  intro g _
  rw [Function.comp_apply, Bool.eq_iff_iff, beq_iff_eq, beq_iff_eq]
  exact Hextet.chars_eq_zero_iff

/-- The fields Python joins when it leaves a run out. -/
theorem compressHextets_of_run {ip : IPv6} {start len : Nat}
    (h : pyRun ip.mask = some (start, len)) :
    compressHextets ip.hextets =
      (if start = 0 then [[]] else ip.hextets.take start) ++
        [] :: (if start + len = 8 then [[]] else ip.hextets.drop (start + len)) := by
  obtain ⟨-, hle, -⟩ := runOk_of_pyRun h
  rw [length_mask] at hle
  simp only [compressHextets, mask_eq, h, length_hextets]
  have htake : (ip.hextets ++ [[]]).take start = ip.hextets.take start :=
    List.take_append_of_le_length (by rw [length_hextets]; omega)
  by_cases hstop : start + len = 8
  · have hdrop : (ip.hextets ++ [[]]).drop 8 = [[]] :=
      List.drop_left' ip.length_hextets
    rw [if_pos hstop, if_pos hstop, hstop, htake, hdrop]
    split
    · rename_i h0
      rw [h0]
      rfl
    · rfl
  · rw [if_neg hstop, if_neg hstop]
    split
    · rename_i h0
      rw [h0]
      rfl
    · rfl

theorem pyChars_eq (ip : IPv6) : ip.pyChars = joined ip.hextets (pyRun ip.mask) := by
  cases h : pyRun ip.mask with
  | none => simp only [pyChars, compressHextets, mask_eq, h, joined]
  | some run =>
      obtain ⟨start, len⟩ := run
      obtain ⟨-, hle, -⟩ := runOk_of_pyRun h
      rw [length_mask] at hle
      rw [pyChars, compressHextets_of_run h, intercalate_append, joined]
      · have hafter : [':'].intercalate ([] :: (if start + len = 8 then [[]]
            else ip.hextets.drop (start + len))) =
            ':' :: [':'].intercalate (ip.hextets.drop (start + len)) := by
          by_cases hstop : start + len = 8
          · have hnil : ip.hextets.drop (start + len) = [] := by
              rw [List.drop_eq_nil_iff, length_hextets]
              omega
            rw [if_pos hstop, hnil]
            rfl
          · have hne : ip.hextets.drop (start + len) ≠ [] := by
              rw [ne_eq, List.drop_eq_nil_iff, length_hextets]
              omega
            rw [if_neg hstop, List.intercalate_cons_of_ne_nil hne]
            rfl
        have hbefore : [':'].intercalate (if start = 0 then [[]] else ip.hextets.take start) =
            [':'].intercalate (ip.hextets.take start) := by
          by_cases h0 : start = 0
          · rw [if_pos h0, h0]
            rfl
          · rw [if_neg h0]
        rw [hafter, hbefore]
        simp
      · by_cases h0 : start = 0
        · simp [h0]
        · rw [if_neg h0, ne_eq, List.take_eq_nil_iff]
          have := ip.length_hextets
          grind
      · simp

/-- The texts both Go loops print: no one is empty or ends in a colon. -/
def Closed (texts : List (List Char)) : Prop :=
  ∀ t ∈ texts, t ≠ [] ∧ t.getLast? ≠ some ':'

theorem closed_hextets (ip : IPv6) : Closed ip.hextets := by
  intro t ht
  obtain ⟨g, -, rfl⟩ := List.mem_map.mp ht
  refine ⟨Hextet.chars_ne_nil g, ?_⟩
  intro hlast
  exact (Hextet.plain_of_mem_chars (List.mem_of_getLast? hlast)).1 rfl

theorem separated_append {builder t : List Char} (ht : t ≠ []) (hlast : t.getLast? ≠ some ':') :
    separated (builder ++ t) = builder ++ t ++ [':'] := by
  rw [separated, if_pos]
  rw [List.getLast?_append_of_ne_nil _ ht]
  exact ⟨by simp [ht], hlast⟩

/-- Past the run the loop joins the groups that are left. -/
theorem goPrintLoop_tail {texts : List (List Char)} (hclosed : Closed texts)
    {run : Option (Nat × Nat)} {fuel index : Nat} {builder : List Char}
    (hfuel : texts.length ≤ index + fuel) (hrun : ∀ r, run = some r → r.1 < index) :
    goPrintLoop texts run fuel index builder =
      if texts.length ≤ index then builder
      else separated builder ++ [':'].intercalate (texts.drop index) := by
  induction fuel generalizing index builder with
  | zero =>
      rw [goPrintLoop, if_pos (by omega)]
  | succ fuel ih =>
      rw [goPrintLoop]
      by_cases hindex : index < texts.length
      · have hskip : ¬ run.map Prod.fst = some index := by
          intro h
          obtain ⟨r, hr, hfst⟩ := Option.map_eq_some_iff.mp h
          have := hrun r hr
          omega
        rw [if_pos hindex, if_neg hskip, if_neg (by omega), ih (by omega)
          (fun r hr => Nat.lt_succ_of_lt (hrun r hr))]
        have hget : (texts[index]?).getD [] = texts[index] := by
          rw [List.getElem?_eq_getElem hindex, Option.getD_some]
        obtain ⟨hne, hlast⟩ := hclosed _ (List.getElem_mem hindex)
        rw [hget, List.drop_eq_getElem_cons hindex]
        split
        · rename_i hend
          have hnil : texts.drop (index + 1) = [] := List.drop_eq_nil_of_le hend
          rw [hnil, List.intercalate_singleton]
        · rename_i hmore
          have hrest : texts.drop (index + 1) ≠ [] := by
            rw [ne_eq, List.drop_eq_nil_iff]
            exact hmore
          rw [separated_append hne hlast, List.intercalate_cons_of_ne_nil hrest]
          simp
      · rw [if_neg hindex, if_pos (by omega)]

/-- A prefix of the groups and the next one. -/
theorem intercalate_take_succ {texts : List (List Char)} {index : Nat}
    (h : index < texts.length) (h0 : 0 < index) :
    [':'].intercalate (texts.take (index + 1)) =
      [':'].intercalate (texts.take index) ++ ':' :: texts[index] := by
  rw [List.take_succ_eq_append_getElem h, intercalate_append _ (by simp)]
  · rw [List.intercalate_singleton]
  · rw [ne_eq, List.take_eq_nil_iff]
    grind

/-- What stands before the next group: the groups so far, with their colon. -/
theorem separated_take {texts : List (List Char)} (hclosed : Closed texts) {index : Nat}
    (h : index < texts.length) :
    separated ([':'].intercalate (texts.take index)) ++ texts[index] =
      [':'].intercalate (texts.take (index + 1)) := by
  cases index with
  | zero =>
      rw [List.take_succ_eq_append_getElem h]
      simp [separated]
  | succ index =>
      obtain ⟨hne, hlast⟩ := hclosed _ (List.getElem_mem (by omega : index < texts.length))
      rw [intercalate_take_succ h (by omega)]
      cases index with
      | zero =>
          have := @separated_append [] _ hne hlast
          rw [List.nil_append] at this
          rw [List.take_succ_eq_append_getElem (by omega)]
          simp [this]
      | succ index =>
          rw [intercalate_take_succ (by omega) (by omega), List.append_cons,
            separated_append hne hlast]
          simp

/-- Up to the run the loop has joined the groups before it. -/
theorem goPrintLoop_run {texts : List (List Char)} (hclosed : Closed texts) {start len : Nat}
    (hlen : 0 < len) (hstop : start + len ≤ texts.length) {fuel index : Nat}
    (hfuel : texts.length ≤ index + fuel) (hindex : index ≤ start) :
    goPrintLoop texts (some (start, len)) fuel index ([':'].intercalate (texts.take index)) =
      joined texts (some (start, len)) := by
  induction fuel generalizing index with
  | zero => omega
  | succ fuel ih =>
      rw [goPrintLoop, if_pos (by omega)]
      by_cases hat : index = start
      · subst hat
        rw [if_pos (by simp)]
        simp only [Option.map_some, Option.getD_some]
        rw [goPrintLoop_tail hclosed (by omega) (by simp; omega), joined]
        split
        · rename_i hend
          rw [List.drop_eq_nil_of_le hend]
          simp
        · rw [separated, if_neg (by simp)]
      · have hskip : ¬ (some (start, len)).map Prod.fst = some index := by
          simp only [Option.map_some, Option.some_inj]
          omega
        have hlt : index < texts.length := by omega
        rw [if_neg hskip, List.getElem?_eq_getElem hlt, Option.getD_some,
          separated_take hclosed hlt]
        exact ih (by omega) (by omega)

/-- **`canonicalIP` prints Python's text.** -/
theorem canonicalIP_eq_pyChars (ip : IPv6) : ip.canonicalIP = ip.pyChars := by
  rw [canonicalIP, goRun_mask, pyChars_eq]
  cases h : pyRun ip.mask with
  | none =>
      rw [goPrintLoop_tail ip.closed_hextets (by simp) (by simp), if_neg (by simp)]
      rfl
  | some run =>
      obtain ⟨start, len⟩ := run
      obtain ⟨hlen, hle, -⟩ := runOk_of_pyRun h
      rw [length_mask] at hle
      exact goPrintLoop_run ip.closed_hextets hlen (by simpa using hle) (by simp) (Nat.zero_le _)

/-- Past the run `String` writes a colon before each group that is left. -/
theorem netipPrintLoop_tail {texts : List (List Char)} {run : Option (Nat × Nat)}
    {fuel i : Nat} {ret : List Char} (hfuel : texts.length ≤ i + fuel)
    (hrun : ∀ r, run = some r → r.1 < i) (hi : 0 < i) :
    netipPrintLoop texts run fuel i ret =
      if texts.length ≤ i then ret else ret ++ ':' :: [':'].intercalate (texts.drop i) := by
  induction fuel generalizing i ret with
  | zero => rw [netipPrintLoop, if_pos (by omega)]
  | succ fuel ih =>
      rw [netipPrintLoop]
      by_cases hlt : i < texts.length
      · have hskip : ¬ run.map Prod.fst = some i := by
          intro h
          obtain ⟨r, hr, hfst⟩ := Option.map_eq_some_iff.mp h
          have := hrun r hr
          omega
        have hget : (texts[i]?).getD [] = texts[i] := by
          rw [List.getElem?_eq_getElem hlt, Option.getD_some]
        simp only [if_pos hlt, if_neg hskip, if_pos hi, hget]
        rw [ih (by omega) (fun r hr => Nat.lt_succ_of_lt (hrun r hr)) (by omega),
          if_neg (Nat.not_le_of_lt hlt), List.drop_eq_getElem_cons hlt]
        split
        · rename_i hend
          have hnil : texts.drop (i + 1) = [] := List.drop_eq_nil_of_le hend
          rw [hnil, List.intercalate_singleton]
          simp
        · rename_i hmore
          have hrest : texts.drop (i + 1) ≠ [] := by
            rw [ne_eq, List.drop_eq_nil_iff]
            exact hmore
          rw [List.intercalate_cons_of_ne_nil hrest]
          simp
      · rw [if_neg hlt, if_pos (by omega)]

/-- Before the run `String` has joined the groups so far. -/
theorem netipPrintLoop_take {texts : List (List Char)} {run : Option (Nat × Nat)} {fuel i : Nat}
    (hfuel : texts.length ≤ i + fuel) (hi : i ≤ texts.length)
    (hrun : ∀ r, run = some r → i ≤ r.1 ∧ 0 < r.2 ∧ r.1 + r.2 ≤ texts.length) :
    netipPrintLoop texts run fuel i ([':'].intercalate (texts.take i)) = joined texts run := by
  induction fuel generalizing i with
  | zero =>
      cases run with
      | none =>
          rw [netipPrintLoop, joined, List.take_of_length_le (by omega)]
      | some r =>
          have := hrun r rfl
          omega
  | succ fuel ih =>
      rw [netipPrintLoop]
      by_cases hlt : i < texts.length
      · rw [if_pos hlt]
        by_cases hat : run.map Prod.fst = some i
        · obtain ⟨⟨start, len⟩, rfl, rfl⟩ := Option.map_eq_some_iff.mp hat
          obtain ⟨-, hlen, hstop⟩ := hrun _ rfl
          rw [if_pos hat]
          simp only [Option.map_some, Option.getD_some, joined] at hlt hlen hstop ⊢
          split
          · rename_i hend
            rw [List.drop_eq_nil_of_le hend]
            simp
          · rename_i hmore
            have hlt' : start + len < texts.length := by omega
            rw [List.getElem?_eq_getElem hlt', Option.getD_some,
              netipPrintLoop_tail (by omega) (by rintro r ⟨⟩; change start < _; omega) (by omega)]
            rw [List.drop_eq_getElem_cons hlt']
            split
            · rename_i hend
              rw [List.drop_eq_nil_of_le hend, List.intercalate_singleton]
            · rename_i hmore'
              have hrest : texts.drop (start + len + 1) ≠ [] := by
                rw [ne_eq, List.drop_eq_nil_iff]
                exact hmore'
              rw [List.intercalate_cons_of_ne_nil hrest]
              simp
        · have hnext : ∀ r, run = some r → i + 1 ≤ r.1 ∧ 0 < r.2 ∧ r.1 + r.2 ≤ texts.length := by
            intro r hr
            obtain ⟨hle, hlen, hstop⟩ := hrun r hr
            refine ⟨?_, hlen, hstop⟩
            have : r.1 ≠ i := fun e => hat (by rw [hr, Option.map_some, e])
            omega
          have hret : (if 0 < i then [':'].intercalate (texts.take i) ++ [':']
              else [':'].intercalate (texts.take i)) ++ texts[i] =
              [':'].intercalate (texts.take (i + 1)) := by
            split
            · rename_i hpos
              rw [intercalate_take_succ hlt hpos]
              simp
            · have h0 : i = 0 := by omega
              subst h0
              rw [List.take_succ_eq_append_getElem hlt]
              simp
          simp only [if_neg hat, List.getElem?_eq_getElem hlt, Option.getD_some, hret]
          exact ih (by omega) (by omega) hnext
      · rw [if_neg hlt]
        cases run with
        | none => rw [joined, List.take_of_length_le (by omega)]
        | some r =>
            have := hrun r rfl
            omega

/-- **`netip.Addr.String` prints Python's text.** -/
theorem netipChars_eq_pyChars (ip : IPv6) : ip.netipChars = ip.pyChars := by
  rw [netipChars, netipRun_mask, pyChars_eq]
  apply netipPrintLoop_take (by simp) (Nat.zero_le _)
  intro r hr
  obtain ⟨hlen, hle, -⟩ := runOk_of_pyRun hr
  rw [length_mask] at hle
  exact ⟨Nat.zero_le _, hlen, by simpa using hle⟩

/-! ## the parser -/

/-- A dotted tail stands for the last two groups. -/
def expandTail (fields : List (List Char)) : Option (List (List Char)) :=
  match fields.getLast? with
  | none => none
  | some last =>
      if '.' ∈ last then
        (IPv4.parse last).map fun ip =>
          fields.dropLast ++
            [Hextet.chars (Fin.ofNat 65536 (ip.a.val * 256 + ip.b.val)),
              Hextet.chars (Fin.ofNat 65536 (ip.c.val * 256 + ip.d.val))]
      else some fields

/-- Eight groups from those before and after the two colons, which stand for at
least one. -/
def fill (before after : List (Fin 65536)) : Option (List (Fin 65536)) :=
  if before.length + after.length ≤ 7 then
    some (before ++ List.replicate (8 - (before.length + after.length)) 0 ++ after)
  else none

/-- The fields between the colons.  The first empty one is where the two colons
are; at either end of the text they leave two. -/
def parseFields (fields : List (List Char)) : Option (List (Fin 65536)) := do
  let before := fields.takeWhile (· ≠ [])
  match fields.dropWhile (· ≠ []) with
  | [] => if fields.length = 8 then fields.mapM Hextet.parse else none
  | _ :: rest =>
      let after ← if before = [] then
          match rest with
          | [] :: after => some after
          | _ => none
        else some rest
      if after = [] then none
      else do
        let before ← before.mapM Hextet.parse
        let after ← (if after = [[]] then [] else after).mapM Hextet.parse
        fill before after

/-- Read an IPv6 text without scope id. -/
def parse (cs : List Char) : Option IPv6 := do
  let fields ← expandTail (cs.splitOn ':')
  let groups ← parseFields fields
  if h : groups.length = 8 then some ⟨groups, h⟩ else none

theorem mapM_parse_chars (gs : List (Fin 65536)) :
    (gs.map Hextet.chars).mapM Hextet.parse = some gs := by
  induction gs with
  | nil => rfl
  | cons g gs ih => simp [ih]

theorem takeWhile_hextets {gs : List (Fin 65536)} {rest : List (List Char)} :
    (gs.map Hextet.chars ++ [] :: rest).takeWhile (· ≠ []) = gs.map Hextet.chars ∧
      (gs.map Hextet.chars ++ [] :: rest).dropWhile (· ≠ []) = [] :: rest := by
  have hall : ∀ t ∈ gs.map Hextet.chars, decide (t ≠ []) = true := by
    intro t ht
    obtain ⟨g, -, rfl⟩ := List.mem_map.mp ht
    simp [Hextet.chars_ne_nil]
  rw [List.takeWhile_append_of_pos hall, List.dropWhile_append_of_pos hall]
  simp

/-- The groups around a run of zeros, filled up, are the address. -/
theorem fill_run {ip : IPv6} {start len : Nat} (h : RunOk ip.mask (start, len)) :
    fill (ip.groups.take start) (ip.groups.drop (start + len)) = some ip.groups := by
  obtain ⟨hlen, hle, hzero⟩ := h
  rw [length_mask] at hle
  have hgroups := ip.length_eq
  have hmid : (ip.groups.drop start).take len = List.replicate len 0 := by
    rw [mask, ← List.map_drop, ← List.map_take] at hzero
    rw [List.eq_replicate_iff] at hzero ⊢
    refine ⟨by simpa using hzero.1, ?_⟩
    intro g hg
    have := hzero.2 _ (List.mem_map_of_mem hg)
    simpa using this
  have hcount : 8 - ((ip.groups.take start).length + (ip.groups.drop (start + len)).length) =
      len := by
    rw [List.length_take, List.length_drop, hgroups]
    omega
  rw [fill, if_pos (by rw [List.length_take, List.length_drop, hgroups]; omega), hcount, ← hmid,
    List.append_assoc, ← List.drop_drop, List.take_append_drop, List.take_append_drop]

/-- The fields Python joins are read back as the groups. -/
theorem parseFields_compressHextets (ip : IPv6) :
    parseFields (compressHextets ip.hextets) = some ip.groups := by
  cases h : pyRun ip.mask with
  | none =>
      have hfields : compressHextets ip.hextets = ip.hextets := by
        simp only [compressHextets, mask_eq, h]
      have hall : ip.hextets.dropWhile (· ≠ []) = [] := by
        rw [List.dropWhile_eq_nil_iff]
        intro t ht
        simp [(ip.closed_hextets t ht).1]
      simp only [hfields, parseFields, hall, length_hextets, if_true]
      exact mapM_parse_chars ip.groups
  | some run =>
      obtain ⟨start, len⟩ := run
      have hok := runOk_of_pyRun h
      have hle := hok.2.1
      rw [length_mask] at hle
      -- the field list after the colons, empty at the end of the text
      have hafter : (if (if start + len = 8 then [[]] else ip.hextets.drop (start + len)) = [[]]
          then [] else (if start + len = 8 then [[]] else ip.hextets.drop (start + len))) =
          (ip.groups.drop (start + len)).map Hextet.chars := by
        by_cases hstop : start + len = 8
        · rw [if_pos hstop, if_pos rfl, List.drop_eq_nil_of_le (by rw [ip.length_eq]; omega)]
          rfl
        · rw [if_neg hstop, hextets, ← List.map_drop, if_neg]
          intro hone
          have hmem : [] ∈ (ip.groups.drop (start + len)).map Hextet.chars := by simp [hone]
          obtain ⟨g, -, hg⟩ := List.mem_map.mp hmem
          exact Hextet.chars_ne_nil g hg
      have hne : (if start + len = 8 then [[]] else ip.hextets.drop (start + len)) ≠ [] := by
        by_cases hstop : start + len = 8
        · simp [hstop]
        · rw [if_neg hstop, ne_eq, List.drop_eq_nil_iff, length_hextets]
          omega
      rw [compressHextets_of_run h]
      by_cases h0 : start = 0
      · subst h0
        have htake : ∀ rest : List (List Char),
            ([[]] ++ [] :: rest).takeWhile (· ≠ []) = [] ∧
              ([[]] ++ [] :: rest).dropWhile (· ≠ []) = [] :: [] :: rest := by
          simp
        simp only [parseFields, if_true, (htake _).1, (htake _).2, Option.bind_eq_bind,
          Option.bind_some, if_neg hne, hafter, mapM_parse_chars]
        exact fill_run hok
      · have hbefore : ip.hextets.take start = (ip.groups.take start).map Hextet.chars := by
          rw [hextets, List.map_take]
        have hbne : (ip.groups.take start).map Hextet.chars ≠ [] := by
          rw [ne_eq, List.map_eq_nil_iff, List.take_eq_nil_iff]
          have := ip.length_eq
          grind
        rw [if_neg h0, hbefore]
        simp only [parseFields, takeWhile_hextets.1, takeWhile_hextets.2, if_neg hbne,
          Option.bind_eq_bind, Option.bind_some, if_neg hne, hafter, mapM_parse_chars]
        exact fill_run hok

/-- A field of the canonical text is a group or empty. -/
theorem mem_compressHextets {ip : IPv6} {t : List Char} (h : t ∈ compressHextets ip.hextets) :
    t ∈ ip.hextets ∨ t = [] := by
  cases hrun : pyRun ip.mask with
  | none =>
      simp only [compressHextets, mask_eq, hrun] at h
      exact Or.inl h
  | some run =>
      obtain ⟨start, len⟩ := run
      rw [compressHextets_of_run hrun, List.mem_append, List.mem_cons] at h
      obtain h | h | h := h
      · split at h
        · exact Or.inr (List.mem_singleton.mp h)
        · exact Or.inl (List.mem_of_mem_take h)
      · exact Or.inr h
      · split at h
        · exact Or.inr (List.mem_singleton.mp h)
        · exact Or.inl (List.mem_of_mem_drop h)

theorem compressHextets_ne_nil (ip : IPv6) : compressHextets ip.hextets ≠ [] := by
  cases hrun : pyRun ip.mask with
  | none =>
      simp only [compressHextets, mask_eq, hrun]
      intro hnil
      have := ip.length_hextets
      simp [hnil] at this
  | some run =>
      rw [compressHextets_of_run hrun]
      simp

/-- The characters of a field. -/
theorem plain_of_mem_field {ip : IPv6} {t : List Char} (h : t ∈ compressHextets ip.hextets)
    {c : Char} (hc : c ∈ t) : c ≠ ':' ∧ c ≠ '.' ∧ c ≠ '%' := by
  cases mem_compressHextets h with
  | inl ht =>
      obtain ⟨g, -, rfl⟩ := List.mem_map.mp ht
      exact Hextet.plain_of_mem_chars hc
  | inr ht => simp [ht] at hc

/-- **Round trip**: the canonical text is read back. -/
@[simp] theorem parse_pyChars (ip : IPv6) : parse ip.pyChars = some ip := by
  have hsplit : ip.pyChars.splitOn ':' = compressHextets ip.hextets := by
    apply List.splitOn_intercalate
    · intro t ht hc
      exact (plain_of_mem_field ht hc).1 rfl
    · exact compressHextets_ne_nil ip
  have htail : expandTail (compressHextets ip.hextets) = some (compressHextets ip.hextets) := by
    unfold expandTail
    cases hlast : (compressHextets ip.hextets).getLast? with
    | none => exact absurd (List.getLast?_eq_none_iff.mp hlast) (compressHextets_ne_nil ip)
    | some last =>
        have hdot : '.' ∉ last := by
          intro hc
          exact (plain_of_mem_field (List.mem_of_getLast? hlast) hc).2.1 rfl
        simp [hdot]
  simp [parse, hsplit, htail, parseFields_compressHextets, ip.length_eq]

/-- The canonical text has digits and colons. -/
theorem mem_pyChars {ip : IPv6} {c : Char} (h : c ∈ ip.pyChars) :
    c = ':' ∨ ∃ n : Fin 16, c = Uuid.hexDigit n := by
  cases mem_intercalate h with
  | inl h => exact Or.inl h
  | inr h =>
      obtain ⟨t, ht, hc⟩ := h
      cases mem_compressHextets ht with
      | inl ht =>
          obtain ⟨g, -, rfl⟩ := List.mem_map.mp ht
          exact Or.inr (Hextet.mem_chars hc)
      | inr ht => simp [ht] at hc

theorem not_mem_pyChars (ip : IPv6) : '.' ∉ ip.pyChars ∧ '%' ∉ ip.pyChars := by
  have hdigits : ∀ n : Fin 16, Uuid.hexDigit n ≠ '.' ∧ Uuid.hexDigit n ≠ '%' := by decide
  constructor
  · intro h
    obtain h | ⟨n, hn⟩ := mem_pyChars h
    · exact absurd h (by decide)
    · exact (hdigits n).1 hn.symm
  · intro h
    obtain h | ⟨n, hn⟩ := mem_pyChars h
    · exact absurd h (by decide)
    · exact (hdigits n).2 hn.symm

theorem length_pyChars_le (ip : IPv6) : ip.pyChars.length ≤ 40 := by
  have hsmall : ∀ t ∈ ip.hextets, t.length ≤ 4 := by
    intro t ht
    obtain ⟨g, -, rfl⟩ := List.mem_map.mp ht
    exact Hextet.length_chars_le g
  have hlen := ip.length_hextets
  rw [pyChars_eq]
  cases hrun : pyRun ip.mask with
  | none =>
      have := @length_intercalate_le _ ':' _ _ hsmall
      rw [joined]
      omega
  | some run =>
      obtain ⟨start, len⟩ := run
      obtain ⟨hpos, hle, -⟩ := runOk_of_pyRun hrun
      simp only [length_mask] at hle hpos
      have hbefore := @length_intercalate_le _ ':' 4 (ip.hextets.take start)
        fun t ht => hsmall t (List.mem_of_mem_take ht)
      have hafter := @length_intercalate_le _ ':' 4 (ip.hextets.drop (start + len))
        fun t ht => hsmall t (List.mem_of_mem_drop ht)
      rw [List.length_take, hlen] at hbefore
      rw [List.length_drop, hlen] at hafter
      rw [joined, List.length_append, List.length_append, List.length_cons, List.length_singleton]
      omega

end IPv6

/-! ## addresses of either family -/

/-- An address as `ip_address` and `netip.ParseAddr` return it. -/
inductive IpAddr
  | v4 (ip : IPv4)
  | v6 (ip : IPv6) (zone : Option (List Char))
deriving DecidableEq

namespace IpAddr

/-- The readers of both languages; they differ in the scope ids they take. -/
def parse (zoneOk : List Char → Bool) (cs : List Char) : Option IpAddr :=
  if '%' ∈ cs then
    let zone := (cs.dropWhile (· ≠ '%')).drop 1
    if zone = [] ∨ zoneOk zone = false then none
    else (IPv6.parse (cs.takeWhile (· ≠ '%'))).map (.v6 · (some zone))
  else
    match IPv4.parse cs with
    | some ip => some (.v4 ip)
    | none => (IPv6.parse cs).map (.v6 · none)

/-- `str(ip_address(...))`; how an IPv4-mapped address is written depends on the
version of Python. -/
def pyChars (mappedText : IPv6 → List Char) : IpAddr → List Char
  | .v4 ip => ip.chars
  | .v6 ip zone =>
      (if ip.is4In6 then mappedText ip else ip.pyChars) ++ (zone.map ('%' :: ·)).getD []

/-- `netip.Addr.String`. -/
def netipChars : IpAddr → List Char
  | .v4 ip => ip.chars
  | .v6 ip zone =>
      (if ip.is4In6 then
        "::ffff:".toList ++ (match ip.groups.drop 6 with
          | [g, h] => IPv4.chars ⟨Fin.ofNat 256 (g.val / 256), Fin.ofNat 256 g.val,
              Fin.ofNat 256 (h.val / 256), Fin.ofNat 256 h.val⟩
          | _ => [])
      else ip.netipChars) ++ (zone.map ('%' :: ·)).getD []

/-- `canonicalIP` of the entitlement verifier; it drops the scope id. -/
def canonicalIP : IpAddr → List Char
  | .v4 ip => ip.chars
  | .v6 ip _ => ip.canonicalIP

/-- `Is4In6`. -/
def is4In6 : IpAddr → Bool
  | .v4 _ => false
  | .v6 ip _ => ip.is4In6

/-- The scope id of an address. -/
def zone : IpAddr → Option (List Char)
  | .v4 _ => none
  | .v6 _ zone => zone

/-- The texts `net.ParseIP` accepts: an address without scope id. -/
def parseIP (s : String) : Bool :=
  match parse (fun _ => true) s.toList with
  | some addr => addr.zone.isNone
  | none => false

theorem percent_not_mem_v4 (ip : IPv4) : '%' ∉ ip.chars := by
  intro h
  cases mem_intercalate h with
  | inl h => exact absurd h (by decide)
  | inr h =>
      obtain ⟨l, hl, hc⟩ := h
      obtain ⟨o, -, rfl⟩ := List.mem_map.mp hl
      have := Nat.isDigit_of_mem_toDigits (by decide) (by decide) hc
      exact absurd this (by decide)

/-- An IPv6 text has no dot, so it is no dotted quad. -/
theorem parse_v4_pyChars (ip : IPv6) : IPv4.parse ip.pyChars = none := by
  rw [IPv4.parse, List.splitOn_eq_singleton ip.not_mem_pyChars.1]

/-- What the three printers and the parser do on an address without scope id that
is not IPv4-mapped. -/
theorem canonical_spec {mappedText : IPv6 → List Char} {addr : IpAddr}
    (hmapped : addr.is4In6 = false) (hzone : addr.zone = none) (zoneOk : List Char → Bool) :
    parse zoneOk (addr.pyChars mappedText) = some addr ∧
      addr.canonicalIP = addr.pyChars mappedText ∧ addr.netipChars = addr.pyChars mappedText := by
  cases addr with
  | v4 ip => simp [parse, pyChars, percent_not_mem_v4, canonicalIP, netipChars]
  | v6 ip zone =>
      simp only [is4In6, IpAddr.zone] at hmapped hzone
      have hpercent := ip.not_mem_pyChars.2
      simp [parse, pyChars, hmapped, hzone, hpercent, parse_v4_pyChars, canonicalIP, netipChars,
        IPv6.canonicalIP_eq_pyChars, IPv6.netipChars_eq_pyChars]

/-- `net.ParseIP` takes no text with a scope id. -/
theorem parseIP_of_percent {s : String} (h : '%' ∈ s.toList) : parseIP s = false := by
  rw [parseIP, parse, if_pos h]
  split
  · rename_i addr haddr
    dsimp only at haddr
    split at haddr
    · cases haddr
    · obtain ⟨ip, -, rfl⟩ := Option.map_eq_some_iff.mp haddr
      rfl
  · rfl

end IpAddr

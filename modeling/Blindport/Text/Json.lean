import Mathlib.Algebra.Group.Nat.Defs
import Mathlib.Data.List.TakeWhile
import Blindport.Text.Address

/-!
# Blindport.Text.Json

Flat JSON objects of texts and naturals in compact form, without spaces: what
`json.dumps(..., separators=(",", ":"))` and `json.Marshal` write for a record
of such fields.  The two languages differ in the characters they escape; on the
`plain` ones both write the character itself, so the way others are written is a
parameter of `render`.

`read` reads the compact form back when all its texts are plain (`read_render`).
-/

namespace Json

/-! ## the form -/

/-- A field's value. -/
inductive Value
  | text (s : String)
  | number (n : Nat)
deriving DecidableEq

/-- An object: its fields in order. -/
abbrev Fields := List (String × Value)

/-- The characters neither language escapes: printable ASCII without the quote,
the backslash and the three that HTML reserves. -/
def plain (c : Char) : Bool :=
  32 ≤ c.toNat && c.toNat < 127 && c.toNat ≠ 34 && c.toNat ≠ 92 && c.toNat ≠ 60 &&
    c.toNat ≠ 62 && c.toNat ≠ 38

/-- The quotation mark. -/
def mark : Char := Char.ofNat 34

/-- A text between quotation marks. -/
def quote (escape : Char → List Char) (s : String) : List Char :=
  mark :: (s.toList.flatMap fun c => if plain c then [c] else escape c) ++ [mark]

/-- One value. -/
def Value.render (escape : Char → List Char) : Value → List Char
  | .text s => quote escape s
  | .number n => Nat.toDigits 10 n

/-- One field. -/
def renderField (escape : Char → List Char) (field : String × Value) : List Char :=
  quote escape field.1 ++ ':' :: field.2.render escape

/-- The object. -/
def render (escape : Char → List Char) (fields : Fields) : List Char :=
  '{' :: [','].intercalate (fields.map (renderField escape)) ++ ['}']

/-- All characters of a text are plain. -/
def PlainText (s : String) : Prop := ∀ c ∈ s.toList, plain c = true

theorem plainText_of_all {s : String} (h : s.toList.all plain = true) : PlainText s :=
  List.all_eq_true.mp h

/-- All texts of an object are plain, the names included. -/
def PlainFields (fields : Fields) : Prop :=
  ∀ field ∈ fields, PlainText field.1 ∧ ∀ s, field.2 = .text s → PlainText s

/-! ## the reader -/

/-- A quoted text without escapes, and what follows it. -/
def readString : List Char → Option (String × List Char)
  | [] => none
  | c :: cs =>
      if c = mark then
        match cs.dropWhile plain with
        | [] => none
        | d :: rest => if d = mark then some (String.ofList (cs.takeWhile plain), rest) else none
      else none

/-- A decimal as it is printed, and what follows it. -/
def readNumber (cs : List Char) : Option (Nat × List Char) :=
  let digits := cs.takeWhile Char.isDigit
  let n := Nat.ofDigitChars 10 digits 0
  if Nat.toDigits 10 n = digits then some (n, cs.dropWhile Char.isDigit) else none

/-- A text or a number. -/
def readValue (cs : List Char) : Option (Value × List Char) :=
  if cs.head? = some mark then (readString cs).map fun r => (.text r.1, r.2)
  else (readNumber cs).map fun r => (.number r.1, r.2)

/-- One field, and what follows it. -/
def readField (cs : List Char) : Option ((String × Value) × List Char) := do
  let (name, rest) ← readString cs
  match rest with
  | ':' :: rest => do
      let (value, rest) ← readValue rest
      some ((name, value), rest)
  | _ => none

/-- The fields up to the closing brace, with fuel for their number. -/
def readFields : Nat → List Char → Option Fields
  | 0, _ => none
  | fuel + 1, cs => do
      let (field, rest) ← readField cs
      match rest with
      | ',' :: rest => (readFields fuel rest).map (field :: ·)
      | ['}'] => some [field]
      | _ => none

/-- Read a compact object. -/
def read : List Char → Option Fields
  | '{' :: cs => if cs = ['}'] then some [] else readFields cs.length cs
  | _ => none

/-! ## round trip -/

theorem mark_not_plain : plain mark = false := by decide

/-- A plain text is quoted as it is. -/
theorem quote_plain {escape : Char → List Char} {s : String} (h : PlainText s) :
    quote escape s = mark :: s.toList ++ [mark] := by
  have hflat : ∀ cs : List Char, (∀ c ∈ cs, plain c = true) →
      (cs.flatMap fun c => if plain c then [c] else escape c) = cs := by
    intro cs hcs
    induction cs with
    | nil => rfl
    | cons c cs ih =>
        rw [List.flatMap_cons, if_pos (hcs c List.mem_cons_self),
          ih fun d hd => hcs d (List.mem_cons_of_mem c hd)]
        rfl
  rw [quote, hflat _ h]

theorem readString_quote {escape : Char → List Char} {s : String} (h : PlainText s)
    (rest : List Char) : readString (quote escape s ++ rest) = some (s, rest) := by
  have htake : (s.toList ++ mark :: rest).takeWhile plain = s.toList := by
    rw [List.takeWhile_append_of_pos h, List.takeWhile_cons_of_neg (by simp [mark_not_plain])]
    simp
  have hdrop : (s.toList ++ mark :: rest).dropWhile plain = mark :: rest := by
    rw [List.dropWhile_append_of_pos h, List.dropWhile_cons_of_neg (by simp [mark_not_plain])]
  rw [quote_plain h, List.cons_append, List.cons_append, List.append_assoc, List.singleton_append,
    readString, if_pos rfl]
  simp only [hdrop, htake, String.ofList_toList, if_true]

theorem isDigit_of_mem_toDigits {n : Nat} {c : Char} (h : c ∈ Nat.toDigits 10 n) :
    c.isDigit = true :=
  Nat.isDigit_of_mem_toDigits (by decide) (by decide) h

/-- A number is read up to the first character that is no digit. -/
theorem readNumber_toDigits {n : Nat} {d : Char} {rest : List Char} (h : d.isDigit = false) :
    readNumber (Nat.toDigits 10 n ++ d :: rest) = some (n, d :: rest) := by
  have hall : ∀ c ∈ Nat.toDigits 10 n, c.isDigit = true := fun c hc => isDigit_of_mem_toDigits hc
  have htake : (Nat.toDigits 10 n ++ d :: rest).takeWhile Char.isDigit = Nat.toDigits 10 n := by
    rw [List.takeWhile_append_of_pos hall, List.takeWhile_cons_of_neg (by simp [h])]
    simp
  have hdrop : (Nat.toDigits 10 n ++ d :: rest).dropWhile Char.isDigit = d :: rest := by
    rw [List.dropWhile_append_of_pos hall, List.dropWhile_cons_of_neg (by simp [h])]
  have hvalue : Nat.ofDigitChars 10 (Nat.toDigits 10 n) 0 = n :=
    Nat.ofDigitChars_toDigits (by decide) (by decide)
  simp only [readNumber, htake, hdrop, hvalue, if_true]

theorem readValue_render {escape : Char → List Char} {v : Value} {d : Char} {rest : List Char}
    (hv : ∀ s, v = .text s → PlainText s) (hd : d.isDigit = false) :
    readValue (v.render escape ++ d :: rest) = some (v, d :: rest) := by
  cases v with
  | text s =>
      have hhead : (quote escape s ++ d :: rest).head? = some mark := by simp [quote]
      rw [Value.render, readValue, if_pos hhead, readString_quote (hv s rfl), Option.map_some]
  | number n =>
      have hhead : (Nat.toDigits 10 n ++ d :: rest).head? ≠ some mark := by
        intro h
        cases hdigits : Nat.toDigits 10 n with
        | nil => exact Nat.toDigits_ne_nil hdigits
        | cons c cs =>
            rw [hdigits] at h
            simp only [List.cons_append, List.head?_cons, Option.some_inj] at h
            have hc : mark ∈ Nat.toDigits 10 n := by simp [hdigits, h]
            exact absurd (isDigit_of_mem_toDigits hc) (by decide)
      rw [Value.render, readValue, if_neg hhead, readNumber_toDigits hd, Option.map_some]

theorem readField_render {escape : Char → List Char} {field : String × Value} {d : Char}
    {rest : List Char} (hname : PlainText field.1) (hvalue : ∀ s, field.2 = .text s → PlainText s)
    (hd : d.isDigit = false) :
    readField (renderField escape field ++ d :: rest) = some (field, d :: rest) := by
  rw [renderField, List.append_assoc, List.cons_append, readField, readString_quote hname]
  simp only [Option.bind_eq_bind, Option.bind_some, readValue_render hvalue hd]

/-- The fields are read one after the other; the fuel is at least their number. -/
theorem readFields_render {escape : Char → List Char} {fields : Fields} (hne : fields ≠ [])
    (hplain : PlainFields fields) {fuel : Nat} (hfuel : fields.length ≤ fuel) :
    readFields fuel ([','].intercalate (fields.map (renderField escape)) ++ ['}']) =
      some fields := by
  induction fields generalizing fuel with
  | nil => exact absurd rfl hne
  | cons field fields ih =>
      obtain ⟨hname, hvalue⟩ := hplain field List.mem_cons_self
      obtain ⟨fuel, rfl⟩ : ∃ k, fuel = k + 1 := ⟨fuel - 1, by simp at hfuel; omega⟩
      rw [readFields]
      by_cases hlast : fields = []
      · subst hlast
        rw [List.map_singleton, List.intercalate_singleton,
          readField_render hname hvalue (by decide)]
        rfl
      · have hmap : fields.map (renderField escape) ≠ [] := by simp [hlast]
        rw [List.map_cons, List.intercalate_cons_of_ne_nil hmap, List.append_assoc,
          List.append_assoc, List.singleton_append, readField_render hname hvalue (by decide)]
        simp only [Option.bind_eq_bind, Option.bind_some]
        rw [ih hlast (fun f hf => hplain f (List.mem_cons_of_mem _ hf))
          (by simp at hfuel; omega), Option.map_some]

theorem length_le_intercalate {escape : Char → List Char} (fields : Fields) :
    fields.length ≤ ([','].intercalate (fields.map (renderField escape))).length := by
  induction fields with
  | nil => simp
  | cons field fields ih =>
      have hfield : 1 ≤ (renderField escape field).length := by simp [renderField, quote]
      by_cases hlast : fields = []
      · subst hlast
        simpa using hfield
      · rw [List.map_cons, List.intercalate_cons_of_ne_nil (by simp [hlast])]
        simp only [List.length_cons, List.length_append, List.length_nil]
        omega

/-- **Round trip**: the compact form of plain fields is read back, however the
other characters are escaped. -/
theorem read_render {escape : Char → List Char} {fields : Fields} (hplain : PlainFields fields) :
    read (render escape fields) = some fields := by
  rw [render, List.cons_append, read]
  by_cases hne : fields = []
  · subst hne
    rfl
  · have hlen := @length_le_intercalate escape fields
    have hpos : 0 < fields.length := List.length_pos_iff.mpr hne
    rw [if_neg, readFields_render hne hplain]
    · rw [List.length_append]
      omega
    · intro h
      have := congrArg List.length h
      rw [List.length_append] at this
      simp only [List.length_singleton] at this
      omega

/-- The two languages write plain fields alike. -/
theorem render_congr {escape escape' : Char → List Char} {fields : Fields}
    (hplain : PlainFields fields) : render escape fields = render escape' fields := by
  have hfield : ∀ field ∈ fields, renderField escape field = renderField escape' field := by
    intro field hf
    obtain ⟨hname, hvalue⟩ := hplain field hf
    rw [renderField, renderField, quote_plain hname, quote_plain hname]
    congr 2
    cases hv : field.2 with
    | text s =>
        rw [Value.render, Value.render, quote_plain (hvalue s hv), quote_plain (hvalue s hv)]
    | number n => rfl
  rw [render, render, List.map_congr_left hfield]

/-! ## size and alphabet -/

/-- The number of characters a value takes. -/
def Value.size : Value → Nat
  | .text s => s.toList.length + 2
  | .number n => (Nat.toDigits 10 n).length

theorem length_render {escape : Char → List Char} {fields : Fields} (hplain : PlainFields fields) :
    (render escape fields).length ≤
      2 + (fields.map fun field => field.1.toList.length + 4 + field.2.size).sum := by
  have hfield : ∀ field ∈ fields, (renderField escape field).length =
      field.1.toList.length + 3 + field.2.size := by
    intro field hf
    obtain ⟨hname, hvalue⟩ := hplain field hf
    rw [renderField, quote_plain hname]
    cases hv : field.2 with
    | text s =>
        rw [Value.render, quote_plain (hvalue s hv), Value.size]
        simp
        omega
    | number n =>
        simp [Value.render, Value.size]
        omega
  have hjoin : ([','].intercalate (fields.map (renderField escape))).length ≤
      (fields.map fun field => field.1.toList.length + 4 + field.2.size).sum := by
    clear hplain
    induction fields with
    | nil => simp
    | cons field fields ih =>
        have hhead := hfield field List.mem_cons_self
        have htail := ih fun f hf => hfield f (List.mem_cons_of_mem _ hf)
        rw [List.map_cons, List.map_cons, List.sum_cons]
        by_cases hlast : fields = []
        · subst hlast
          rw [List.map_nil, List.intercalate_singleton, hhead]
          omega
        · rw [List.intercalate_cons_of_ne_nil (by simp [hlast])]
          simp only [List.length_append, List.length_singleton]
          omega
  rw [render, List.length_append, List.length_cons, List.length_singleton]
  omega

/-- The compact form of plain fields is ASCII. -/
theorem ascii_render {escape : Char → List Char} {fields : Fields} (hplain : PlainFields fields) :
    ∀ c ∈ render escape fields, c.toNat < 128 := by
  have htext : ∀ s : String, PlainText s → ∀ c ∈ quote escape s, c.toNat < 128 := by
    intro s hs c hc
    rw [quote_plain hs] at hc
    simp only [List.cons_append, List.mem_cons, List.mem_append, List.not_mem_nil, or_false] at hc
    have hmark : mark.toNat < 128 := by decide
    obtain rfl | hc | rfl := hc
    · exact hmark
    · have := hs c hc
      simp only [plain, Bool.and_eq_true, decide_eq_true_eq] at this
      omega
    · exact hmark
  intro c hc
  simp only [render, List.cons_append, List.mem_cons, List.mem_append, List.not_mem_nil,
    or_false] at hc
  obtain rfl | hc | rfl := hc
  · decide
  · cases mem_intercalate hc with
    | inl h => rw [h]; decide
    | inr h =>
        obtain ⟨l, hl, hc⟩ := h
        obtain ⟨field, hf, rfl⟩ := List.mem_map.mp hl
        obtain ⟨hname, hvalue⟩ := hplain field hf
        rw [renderField, List.mem_append, List.mem_cons] at hc
        obtain hc | rfl | hc := hc
        · exact htext _ hname c hc
        · decide
        · cases hv : field.2 with
          | text s =>
              rw [hv, Value.render] at hc
              exact htext s (hvalue s hv) c hc
          | number n =>
              rw [hv, Value.render] at hc
              have := isDigit_of_mem_toDigits hc
              simp only [Char.isDigit, Bool.and_eq_true, decide_eq_true_eq] at this
              have h57 := this.2
              have : c.toNat ≤ 57 := by
                rw [Char.toNat]
                exact UInt32.le_iff_toNat_le.mp h57
              omega
  · decide

end Json

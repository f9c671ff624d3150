import Blindport.Text.GoJson

/-!
# Blindport.Text.JsonReader

Reading the lists and objects that `bracketed` writes, inside a longer text: a
reader returns a value and what follows it, and `readBracketed` turns a reader of
one item into one of a bracketed list of them (`readBracketed_bracketed`).

`readObject` reads a flat object this way, so a list of objects is read by
`readBracketed` twice.  An ASCII text is read from its bytes (`chars_utf8`).
-/

namespace Json

/-- A reader of a value at the start of a text. -/
abbrev Reader (α : Type) := List Char → Option (α × List Char)

/-- Read one character. -/
def readChar (c : Char) : List Char → Option (List Char)
  | [] => none
  | d :: rest => if d = c then some rest else none

@[simp] theorem readChar_cons (c : Char) (rest : List Char) :
    readChar c (c :: rest) = some rest := if_pos rfl

variable {α : Type}

/-- Items up to the closing bracket, with fuel for their number. -/
def readItems (closing : Char) (item : Reader α) : ℕ → Reader (List α)
  | 0, _ => none
  | fuel + 1, cs => do
      let (x, rest) ← item cs
      match rest with
      | [] => none
      | d :: rest =>
          if d = closing then some ([x], rest)
          else if d = ',' then (readItems closing item fuel rest).map fun r => (x :: r.1, r.2)
          else none

/-- A list of items in brackets. -/
def readBracketed (opening closing : Char) (item : Reader α) : Reader (List α) := fun cs => do
  let rest ← readChar opening cs
  match readChar closing rest with
  | some rest => some ([], rest)
  | none => readItems closing item rest.length rest

/-- A flat object of texts and naturals. -/
def readObject : Reader Fields := readBracketed '{' '}' readField

/-- The reader takes what `render` writes, before a comma or the closing
bracket. -/
def Reads (closing : Char) (item : Reader α) (render : α → List Char) (x : α) : Prop :=
  ∀ d rest, d = ',' ∨ d = closing → item (render x ++ d :: rest) = some (x, d :: rest)

/-- The items are read one after the other; the fuel is at least their number. -/
theorem readItems_intercalate {closing : Char} (hclosing : closing ≠ ',') {item : Reader α}
    {render : α → List Char} {xs : List α} (hne : xs ≠ [])
    (hread : ∀ x ∈ xs, Reads closing item render x) {fuel : ℕ} (hfuel : xs.length ≤ fuel)
    (rest : List Char) :
    readItems closing item fuel ([','].intercalate (xs.map render) ++ closing :: rest) =
      some (xs, rest) := by
  induction xs generalizing fuel with
  | nil => exact absurd rfl hne
  | cons x xs ih =>
      have hx := hread x List.mem_cons_self
      obtain ⟨fuel, rfl⟩ : ∃ k, fuel = k + 1 := ⟨fuel - 1, by simp at hfuel; omega⟩
      rw [readItems]
      by_cases hlast : xs = []
      · subst hlast
        rw [List.map_singleton, List.intercalate_singleton, hx closing rest (.inr rfl)]
        simp
      · have hmap : xs.map render ≠ [] := by simp [hlast]
        have hcomma : ',' ≠ closing := hclosing.symm
        rw [List.map_cons, List.intercalate_cons_of_ne_nil hmap, List.append_assoc,
          List.append_assoc, List.singleton_append, hx ',' _ (.inl rfl)]
        simp only [Option.bind_eq_bind, Option.bind_some]
        rw [if_neg hcomma, if_pos trivial,
          ih hlast (fun y hy => hread y (List.mem_cons_of_mem _ hy)) (by simp at hfuel; omega)]
        rfl

theorem length_le_length_intercalate {render : α → List Char} {xs : List α}
    (h : ∀ x ∈ xs, render x ≠ []) : xs.length ≤ ([','].intercalate (xs.map render)).length := by
  induction xs with
  | nil => simp
  | cons x xs ih =>
      have hx : 1 ≤ (render x).length := List.length_pos_iff.mpr (h x List.mem_cons_self)
      have hxs := ih fun y hy => h y (List.mem_cons_of_mem _ hy)
      by_cases hlast : xs = []
      · subst hlast
        simpa using hx
      · rw [List.map_cons, List.intercalate_cons_of_ne_nil (by simp [hlast])]
        simp only [List.length_cons, List.length_append, List.length_nil]
        omega

/-- **What `bracketed` writes is read back**, item by item. -/
theorem readBracketed_bracketed {opening closing : Char} (hclosing : closing ≠ ',')
    {item : Reader α} {render : α → List Char} {xs : List α}
    (hread : ∀ x ∈ xs, Reads closing item render x)
    (hstart : ∀ x ∈ xs, ∃ c cs, render x = c :: cs ∧ c ≠ closing) (rest : List Char) :
    readBracketed opening closing item (bracketed opening closing (xs.map render) ++ rest) =
      some (xs, rest) := by
  have htext : bracketed opening closing (xs.map render) ++ rest =
      opening :: ([','].intercalate (xs.map render) ++ closing :: rest) := by
    rw [bracketed]
    simp
  rw [htext, readBracketed, readChar_cons, Option.bind_eq_bind, Option.bind_some]
  cases xs with
  | nil => simp
  | cons x xs =>
      have hnone : ∀ r : List Char, readChar closing
          ([','].intercalate ((x :: xs).map render) ++ r) = none := by
        intro r
        obtain ⟨c, cs, hx, hc⟩ := hstart x List.mem_cons_self
        have hhead : ∃ ds, [','].intercalate ((x :: xs).map render) ++ r = c :: ds := by
          by_cases hlast : xs = []
          · subst hlast
            exact ⟨cs ++ r, by simp [hx]⟩
          · rw [List.map_cons, List.intercalate_cons_of_ne_nil (by simp [hlast]), hx]
            exact ⟨_, rfl⟩
        obtain ⟨ds, hds⟩ := hhead
        rw [hds, readChar, if_neg hc]
      rw [hnone]
      apply readItems_intercalate hclosing (by simp) hread
      have hlength : (x :: xs).length ≤ ([','].intercalate ((x :: xs).map render)).length := by
        apply length_le_length_intercalate
        intro y hy
        obtain ⟨c, cs, hcons, -⟩ := hstart y hy
        simp [hcons]
      rw [List.length_append]
      omega

/-- A plain object is read back before anything. -/
theorem readObject_render {escape : Char → List Char} {fields : Fields}
    (hplain : PlainFields fields) (rest : List Char) :
    readObject (render escape fields ++ rest) = some (fields, rest) := by
  apply readBracketed_bracketed (by decide)
  · intro field hf d rest hd
    obtain ⟨hname, hvalue⟩ := hplain field hf
    apply readField_render hname hvalue
    cases hd with
    | inl hd => rw [hd]; decide
    | inr hd => rw [hd]; decide
  · intro field hf
    exact ⟨mark, _, rfl, by decide⟩

/-! ## bytes -/

/-- The text is ASCII. -/
def Ascii (cs : List Char) : Prop := ∀ c ∈ cs, c.toNat < 128

theorem ascii_quote {escape : Char → List Char} {s : String} (h : PlainText s) :
    Ascii (quote escape s) := by
  intro c hc
  have hmark : mark.toNat < 128 := by decide
  rw [quote_plain h, List.mem_append, List.mem_cons, List.mem_singleton] at hc
  obtain (rfl | hc) | rfl := hc
  · exact hmark
  · exact plain_ascii (h c hc)
  · exact hmark

theorem ascii_toDigits (n : ℕ) : Ascii (Nat.toDigits 10 n) := by
  intro c hc
  have hdigit := isDigit_of_mem_toDigits hc
  simp only [Char.isDigit, Bool.and_eq_true, decide_eq_true_eq, UInt32.le_iff_toNat_le] at hdigit
  exact lt_of_le_of_lt hdigit.2 (by decide)

theorem ascii_member {name : String} {value : List Char} (hname : PlainText name)
    (hvalue : Ascii value) : Ascii (member name value) := by
  intro c hc
  rw [member, List.mem_append, List.mem_cons] at hc
  obtain hc | rfl | hc := hc
  · exact ascii_quote hname c hc
  · decide
  · exact hvalue c hc

theorem ascii_bracketed {opening closing : Char} (hopening : opening.toNat < 128)
    (hclosing : closing.toNat < 128) {ts : List (List Char)} (h : ∀ t ∈ ts, Ascii t) :
    Ascii (bracketed opening closing ts) := by
  intro c hc
  rw [bracketed, List.mem_append, List.mem_cons, List.mem_singleton] at hc
  obtain (rfl | hc) | rfl := hc
  · exact hopening
  · cases mem_intercalate hc with
    | inl hcomma => rw [hcomma]; decide
    | inr hmem =>
        obtain ⟨t, ht, hc⟩ := hmem
        exact h t ht c hc
  · exact hclosing

/-- The characters of some bytes, one each. -/
def chars (bs : Wire.Bytes) : List Char := bs.map fun b => Char.ofNat b.toNat

/-- An ASCII text is read back from its bytes. -/
theorem chars_utf8 {cs : List Char} (h : Ascii cs) : chars (utf8 cs) = cs := by
  induction cs with
  | nil => rfl
  | cons c cs ih =>
      have hc : c.toNat < 128 := h c List.mem_cons_self
      have hbyte : (c.val.toUInt8).toNat = c.toNat := by
        rw [UInt32.toNat_toUInt8]
        exact Nat.mod_eq_of_lt (by show c.toNat < 2 ^ 8; omega)
      have hcs := ih fun d hd => h d (List.mem_cons_of_mem _ hd)
      rw [chars, utf8] at hcs ⊢
      rw [List.flatMap_cons, String.utf8EncodeChar_eq_singleton (utf8Size_ascii hc),
        List.singleton_append, List.map_cons, hbyte, Char.ofNat_toNat, hcs]

end Json

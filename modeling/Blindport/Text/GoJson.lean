import Mathlib.Algebra.Order.BigOperators.Group.List
import Mathlib.Data.Nat.Digits.Defs
import Blindport.Text.Base64
import Blindport.Text.Json
import Blindport.Wire.Bytes

/-!
# Blindport.Text.GoJson

How Go's `json.Marshal` writes texts, numbers and byte strings, and how many bytes
this takes: `size` is the length in UTF-8.  A text grows at most sixfold
(`size_quote_le`), a plain one by its two marks (`size_quote_plain`).
-/

namespace Json

open Wire

/-! ## bytes of a text -/

/-- The UTF-8 bytes of some characters. -/
def utf8 (cs : List Char) : Bytes := cs.flatMap String.utf8EncodeChar

/-- How many bytes they are. -/
def size (cs : List Char) : Nat := (utf8 cs).length

@[simp] theorem size_nil : size [] = 0 := rfl

@[simp] theorem size_append (cs ds : List Char) : size (cs ++ ds) = size cs + size ds := by
  rw [size, utf8, List.flatMap_append, List.length_append]
  rfl

@[simp] theorem size_cons (c : Char) (cs : List Char) : size (c :: cs) = c.utf8Size + size cs := by
  rw [size, utf8, List.flatMap_cons, List.length_append, String.length_utf8EncodeChar]
  rfl

theorem size_eq_utf8ByteSize (s : String) : size s.toList = s.utf8ByteSize := by
  conv_rhs => rw [← String.ofList_toList (s := s)]
  rw [← String.size_toByteArray, String.toByteArray_ofList, List.utf8Encode, List.size_toByteArray]
  rfl

theorem utf8Size_ascii {c : Char} (h : c.toNat < 128) : c.utf8Size = 1 := by
  rw [Char.utf8Size_eq_one_iff, UInt32.le_iff_toNat_le]
  exact Nat.lt_succ_iff.mp h

theorem size_ascii {cs : List Char} (h : ∀ c ∈ cs, c.toNat < 128) : size cs = cs.length := by
  induction cs with
  | nil => rfl
  | cons c cs ih =>
      rw [size_cons, utf8Size_ascii (h c List.mem_cons_self),
        ih fun d hd => h d (List.mem_cons_of_mem _ hd), List.length_cons]
      omega

theorem plain_ascii {c : Char} (h : plain c = true) : c.toNat < 128 := by
  simp only [plain, Bool.and_eq_true, decide_eq_true_eq] at h
  omega

/-! ## texts -/

/-- A character by the four hexadecimal digits of its number. -/
def unicodeEscape (n : Nat) : List Char :=
  let digit (k : Nat) : Char := Uuid.hexDigit ⟨n / 16 ^ k % 16, Nat.mod_lt _ (by decide)⟩
  ['\\', 'u', digit 3, digit 2, digit 1, digit 0]

/-- `appendString` of `encoding/json`, with HTML escaping, on a character that is not
plain. -/
def goEscape (c : Char) : List Char :=
  if c = mark ∨ c = '\\' then ['\\', c]
  else if c.toNat = 8 then ['\\', 'b']
  else if c.toNat = 12 then ['\\', 'f']
  else if c.toNat = 10 then ['\\', 'n']
  else if c.toNat = 13 then ['\\', 'r']
  else if c.toNat = 9 then ['\\', 't']
  else if c.toNat < 32 ∨ c = '<' ∨ c = '>' ∨ c = '&' ∨ c.toNat = 0x2028 ∨ c.toNat = 0x2029 then
    unicodeEscape c.toNat
  else [c]

theorem size_unicodeEscape (n : Nat) : size (unicodeEscape n) = 6 := by
  have hdigit : ∀ d : Fin 16, (Uuid.hexDigit d).utf8Size = 1 := by decide
  rw [unicodeEscape]
  simp only [size_cons, size_nil, hdigit]
  rfl

theorem size_goEscape_le (c : Char) : size (goEscape c) ≤ 6 * c.utf8Size := by
  have hpos := c.utf8Size_pos
  have htwo : ∀ d : Char, d.utf8Size = 1 → size ['\\', d] ≤ 6 * c.utf8Size := by
    intro d hd
    have hslash : ('\\' : Char).utf8Size = 1 := by decide
    rw [size_cons, size_cons, size_nil, hd, hslash]
    omega
  unfold goEscape
  split
  · rename_i hc
    cases hc with
    | inl hc => exact htwo c (by rw [hc]; decide)
    | inr hc => exact htwo c (by rw [hc]; decide)
  · repeat' split
    · exact htwo _ (by decide)
    · exact htwo _ (by decide)
    · exact htwo _ (by decide)
    · exact htwo _ (by decide)
    · exact htwo _ (by decide)
    · rw [size_unicodeEscape]
      omega
    · rw [size_cons, size_nil]
      omega

theorem size_mark : mark.utf8Size = 1 := by decide

/-- A text of some bytes takes at most six times as many, and its marks. -/
theorem size_quote_le (s : String) : size (quote goEscape s) ≤ 6 * s.utf8ByteSize + 2 := by
  have hbody : ∀ cs : List Char,
      size (cs.flatMap fun c => if plain c then [c] else goEscape c) ≤ 6 * size cs := by
    intro cs
    induction cs with
    | nil => exact Nat.le_refl _
    | cons c cs ih =>
        have hc : size (if plain c then [c] else goEscape c) ≤ 6 * c.utf8Size := by
          split
          · rw [size_cons, size_nil]
            omega
          · exact size_goEscape_le c
        rw [List.flatMap_cons, size_append, size_cons]
        omega
  have hle := hbody s.toList
  rw [size_eq_utf8ByteSize] at hle
  rw [quote, size_append, size_cons, size_cons, size_nil, size_mark]
  omega

/-- A plain text takes its bytes and its marks. -/
theorem size_quote_plain {s : String} (h : PlainText s) :
    size (quote goEscape s) = s.utf8ByteSize + 2 := by
  rw [quote_plain h, ← size_eq_utf8ByteSize, size_append, size_cons, size_cons, size_nil, size_mark]
  omega

/-! ## numbers and bytes -/

/-- A number below a power of ten takes at most its exponent. -/
theorem size_digits_le {n k : Nat} (h : n < 10 ^ k) (hk : 0 < k) :
    size (Nat.toDigits 10 n) ≤ k := by
  have hascii : ∀ c ∈ Nat.toDigits 10 n, c.toNat < 128 := by
    intro c hc
    have hdigit := isDigit_of_mem_toDigits hc
    simp only [Char.isDigit, Bool.and_eq_true, decide_eq_true_eq, UInt32.le_iff_toNat_le] at hdigit
    exact lt_of_le_of_lt hdigit.2 (by decide)
  rw [size_ascii hascii]
  exact Nat.toDigits_length 10 n k hk h

theorem length_base64 (bs : Bytes) : (Base64.encode bs).length = 4 * ((bs.length + 2) / 3) := by
  fun_induction Base64.encode bs with
  | case1 => rfl
  | case2 a => simp
  | case3 a b => simp
  | case4 a b c rest ih =>
      simp only [List.length_cons, ih]
      omega

theorem base64_ascii {bs : Bytes} {c : Char} (h : c ∈ Base64.encode bs) : c.toNat < 128 := by
  have hdigit : ∀ i : Fin 64, (Base64.digit i.val).toNat < 128 := by decide
  obtain rfl | ⟨i, hi, rfl⟩ := Base64.mem_encode h
  · decide
  · exact hdigit ⟨i, hi⟩

/-- `[]byte` values are texts in base64. -/
def quoteBytes (bs : Bytes) : List Char := mark :: Base64.encode bs ++ [mark]

theorem size_quoteBytes (bs : Bytes) : size (quoteBytes bs) = 4 * ((bs.length + 2) / 3) + 2 := by
  have hsize := size_ascii fun c (hc : c ∈ Base64.encode bs) => base64_ascii hc
  rw [quoteBytes, size_append, size_cons, size_cons, size_nil, size_mark, hsize, length_base64]
  omega

/-! ## objects and lists -/

/-- A struct, or a list. -/
def bracketed (opening closing : Char) (members : List (List Char)) : List Char :=
  opening :: [','].intercalate members ++ [closing]

/-- One member of a struct. -/
def member (name : String) (value : List Char) : List Char := quote goEscape name ++ ':' :: value

/-- A member that is left out when it is the zero value. -/
def omitEmpty (empty : Bool) (name : String) (value : List Char) : List (List Char) :=
  if empty then [] else [member name value]

/-- What some members take, with a comma each. -/
def room (ts : List (List Char)) : Nat := (ts.map fun t => size t + 1).sum

@[simp] theorem room_nil : room [] = 0 := rfl

@[simp] theorem room_cons (t : List Char) (ts : List (List Char)) :
    room (t :: ts) = size t + 1 + room ts := by
  rw [room, List.map_cons, List.sum_cons]
  rfl

@[simp] theorem room_append (ts us : List (List Char)) : room (ts ++ us) = room ts + room us := by
  rw [room, List.map_append, List.sum_append]
  rfl

theorem size_intercalate_le (ts : List (List Char)) : size ([','].intercalate ts) ≤ room ts := by
  have hcomma : (',' : Char).utf8Size = 1 := by decide
  induction ts with
  | nil => exact Nat.zero_le _
  | cons t ts ih =>
      rw [room_cons]
      by_cases hts : ts = []
      · subst hts
        rw [List.intercalate_singleton]
        omega
      · rw [List.intercalate_cons_of_ne_nil hts, size_append, size_append, size_cons, size_nil,
          hcomma]
        omega

/-- A struct takes its members and two brackets. -/
theorem size_bracketed_le {opening closing : Char} (hopening : opening.utf8Size = 1)
    (hclosing : closing.utf8Size = 1) (ts : List (List Char)) :
    size (bracketed opening closing ts) ≤ room ts + 2 := by
  have hle := size_intercalate_le ts
  rw [bracketed, size_append, size_cons, size_cons, size_nil, hopening, hclosing]
  omega

theorem size_member (name : String) (value : List Char) :
    size (member name value) = size (quote goEscape name) + size value + 1 := by
  have hcolon : (':' : Char).utf8Size = 1 := by decide
  rw [member, size_append, size_cons, hcolon]
  omega

@[simp] theorem omitEmpty_true (name : String) (value : List Char) :
    omitEmpty true name value = [] := rfl

theorem room_omitEmpty_le (empty : Bool) (name : String) (value : List Char) :
    room (omitEmpty empty name value) ≤ size (quote goEscape name) + size value + 2 := by
  cases empty with
  | true => exact Nat.zero_le _
  | false =>
      rw [omitEmpty, if_neg (by decide), room_cons, room_nil, size_member]

end Json

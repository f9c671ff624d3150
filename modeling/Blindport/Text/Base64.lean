import Mathlib.Data.List.Basic

/-!
# Blindport.Text.Base64

The standard base64 alphabet over byte lists, as the `encoding/base64` and
`base64` libraries define it: `encode` always pads, `decode` is the strict
decoder (padding only at the end, the bits the padding stands for are zero)
and `decodeString` skips the line terminators before decoding.

The one fact the key checks need is `decodeString_encode`: what `encode`
writes, the strict decoder reads back.
-/

namespace Base64

/-! ## the alphabet -/

/-- The character of a six-bit value. -/
def digit (i : Nat) : Char :=
  if i < 26 then Char.ofNat (65 + i)
  else if i < 52 then Char.ofNat (97 + (i - 26))
  else if i < 62 then Char.ofNat (48 + (i - 52))
  else if i = 62 then '+'
  else '/'

/-- The six-bit value of an alphabet character. -/
def value? (c : Char) : Option Nat :=
  let n := c.toNat
  if 65 ≤ n ∧ n ≤ 90 then some (n - 65)
  else if 97 ≤ n ∧ n ≤ 122 then some (n - 97 + 26)
  else if 48 ≤ n ∧ n ≤ 57 then some (n - 48 + 52)
  else if c = '+' then some 62
  else if c = '/' then some 63
  else none

private theorem digit_spec : ∀ i : Fin 64,
    value? (digit i) = some i.val ∧ digit i ≠ '=' ∧ digit i ≠ '\r' ∧ digit i ≠ '\n' := by
  decide

@[simp] theorem value?_digit (h : i < 64) : value? (digit i) = some i := (digit_spec ⟨i, h⟩).1

theorem digit_ne_pad (h : i < 64) : digit i ≠ '=' := (digit_spec ⟨i, h⟩).2.1

theorem digit_ne_cr (h : i < 64) : digit i ≠ '\r' := (digit_spec ⟨i, h⟩).2.2.1

theorem digit_ne_lf (h : i < 64) : digit i ≠ '\n' := (digit_spec ⟨i, h⟩).2.2.2

/-! ## the codec -/

/-- Encode with padding, three bytes to four characters. -/
def encode : List UInt8 → List Char
  | [] => []
  | [a] => [digit (a.toNat / 4), digit (a.toNat % 4 * 16), '=', '=']
  | [a, b] =>
      [digit (a.toNat / 4), digit (a.toNat % 4 * 16 + b.toNat / 16), digit (b.toNat % 16 * 4), '=']
  | a :: b :: c :: rest =>
      digit (a.toNat / 4) :: digit (a.toNat % 4 * 16 + b.toNat / 16) ::
        digit (b.toNat % 16 * 4 + c.toNat / 64) :: digit (c.toNat % 64) :: encode rest

/-- Strict decoding of a text without line terminators. -/
def decode : List Char → Option (List UInt8)
  | [] => some []
  | a :: b :: c :: d :: rest => do
      let x ← value? a
      let y ← value? b
      if d = '=' then
        -- a padded quantum is the last one
        if rest ≠ [] then none
        else if c = '=' then
          if y % 16 = 0 then some [UInt8.ofNat (x * 4 + y / 16)] else none
        else do
          let z ← value? c
          if z % 4 = 0 then
            some [UInt8.ofNat (x * 4 + y / 16), UInt8.ofNat (y % 16 * 16 + z / 4)]
          else none
      else do
        let z ← value? c
        let w ← value? d
        let tail ← decode rest
        some (UInt8.ofNat (x * 4 + y / 16) :: UInt8.ofNat (y % 16 * 16 + z / 4) ::
          UInt8.ofNat (z % 4 * 64 + w) :: tail)
  | _ => none

/-- `StdEncoding.Strict().DecodeString`: line terminators are skipped. -/
def decodeString (cs : List Char) : Option (List UInt8) :=
  decode (cs.filter fun c => c ≠ '\r' ∧ c ≠ '\n')

/-! ## round trip -/

private theorem byte_eq (a : UInt8) (h : n = a.toNat) : UInt8.ofNat n = a := by
  subst h; simp

/-- The strict decoder reads back what `encode` writes. -/
theorem decode_encode (bs : List UInt8) : decode (encode bs) = some bs := by
  fun_induction encode bs with
  | case1 => rfl
  | case2 a =>
      have ha := a.toNat_lt
      rw [decode, value?_digit (by omega), value?_digit (by omega)]
      have hz : a.toNat % 4 * 16 % 16 = 0 := by omega
      simp only [Option.bind_eq_bind, Option.bind_some, ne_eq, not_true_eq_false, if_true, if_false,
        hz]
      rw [byte_eq a (by omega)]
  | case3 a b =>
      have ha := a.toNat_lt
      have hb := b.toNat_lt
      rw [decode, value?_digit (by omega), value?_digit (by omega)]
      have hz : b.toNat % 16 * 4 % 4 = 0 := by omega
      simp only [Option.bind_eq_bind, Option.bind_some, ne_eq, not_true_eq_false, if_true, if_false,
        hz, digit_ne_pad (show b.toNat % 16 * 4 < 64 by omega),
        value?_digit (show b.toNat % 16 * 4 < 64 by omega)]
      rw [byte_eq a (by omega), byte_eq b (by omega)]
  | case4 a b c rest ih =>
      have ha := a.toNat_lt
      have hb := b.toNat_lt
      have hc := c.toNat_lt
      rw [decode, value?_digit (by omega), value?_digit (by omega)]
      simp only [Option.bind_eq_bind, Option.bind_some, if_false, ih,
        digit_ne_pad (show c.toNat % 64 < 64 by omega),
        value?_digit (show c.toNat % 64 < 64 by omega),
        value?_digit (show b.toNat % 16 * 4 + c.toNat / 64 < 64 by omega)]
      rw [byte_eq a (by omega), byte_eq b (by omega), byte_eq c (by omega)]

/-- Every character is one of the alphabet or padding. -/
theorem mem_encode {bs : List UInt8} {c : Char} (h : c ∈ encode bs) :
    c = '=' ∨ ∃ i, i < 64 ∧ c = digit i := by
  fun_induction encode bs with
  | case1 => simp at h
  | case2 a =>
      have ha := a.toNat_lt
      simp only [List.mem_cons, List.not_mem_nil, or_false] at h
      obtain h | h | h | h := h
      · exact Or.inr ⟨_, by omega, h⟩
      · exact Or.inr ⟨_, by omega, h⟩
      · exact Or.inl h
      · exact Or.inl h
  | case3 a b =>
      have ha := a.toNat_lt
      have hb := b.toNat_lt
      simp only [List.mem_cons, List.not_mem_nil, or_false] at h
      obtain h | h | h | h := h
      · exact Or.inr ⟨_, by omega, h⟩
      · exact Or.inr ⟨_, by omega, h⟩
      · exact Or.inr ⟨_, by omega, h⟩
      · exact Or.inl h
  | case4 a b c rest ih =>
      have ha := a.toNat_lt
      have hb := b.toNat_lt
      have hc := c.toNat_lt
      simp only [List.mem_cons] at h
      obtain h | h | h | h | h := h
      · exact Or.inr ⟨_, by omega, h⟩
      · exact Or.inr ⟨_, by omega, h⟩
      · exact Or.inr ⟨_, by omega, h⟩
      · exact Or.inr ⟨_, by omega, h⟩
      · exact ih h

/-- Encoded text holds no line terminator. -/
theorem filter_encode (bs : List UInt8) :
    (encode bs).filter (fun c => c ≠ '\r' ∧ c ≠ '\n') = encode bs := by
  apply List.filter_eq_self.mpr
  intro c hc
  have key : c ≠ '\r' ∧ c ≠ '\n' := by
    obtain rfl | ⟨i, hi, rfl⟩ := mem_encode hc
    · decide
    · exact ⟨digit_ne_cr hi, digit_ne_lf hi⟩
  simpa using key

/-- **Round trip**: `decodeString` inverts `encode`. -/
theorem decodeString_encode (bs : List UInt8) : decodeString (encode bs) = some bs := by
  rw [decodeString, filter_encode, decode_encode]

/-! ## the URL alphabet without padding -/

/-- The URL alphabet's character of a six-bit value. -/
def urlDigit (i : Nat) : Char :=
  if i = 62 then '-' else if i = 63 then '_' else digit i

/-- The six-bit value of a character of the URL alphabet. -/
def urlValue? (c : Char) : Option Nat :=
  if c = '-' then some 62
  else if c = '_' then some 63
  else if c = '+' ∨ c = '/' then none
  else value? c

/-- `RawURLEncoding.EncodeToString`. -/
def encodeRaw : List UInt8 → List Char
  | [] => []
  | [a] => [urlDigit (a.toNat / 4), urlDigit (a.toNat % 4 * 16)]
  | [a, b] =>
      [urlDigit (a.toNat / 4), urlDigit (a.toNat % 4 * 16 + b.toNat / 16),
        urlDigit (b.toNat % 16 * 4)]
  | a :: b :: c :: rest =>
      urlDigit (a.toNat / 4) :: urlDigit (a.toNat % 4 * 16 + b.toNat / 16) ::
        urlDigit (b.toNat % 16 * 4 + c.toNat / 64) :: urlDigit (c.toNat % 64) :: encodeRaw rest

/-- `RawURLEncoding.DecodeString` of a text without line terminators; the strict
decoder wants the bits that stand for no byte to be zero. -/
def decodeRaw (strict : Bool) : List Char → Option (List UInt8)
  | [] => some []
  | [_] => none
  | [a, b] => do
      let x ← urlValue? a
      let y ← urlValue? b
      if strict ∧ y % 16 ≠ 0 then none else some [UInt8.ofNat (x * 4 + y / 16)]
  | [a, b, c] => do
      let x ← urlValue? a
      let y ← urlValue? b
      let z ← urlValue? c
      if strict ∧ z % 4 ≠ 0 then none
      else some [UInt8.ofNat (x * 4 + y / 16), UInt8.ofNat (y % 16 * 16 + z / 4)]
  | a :: b :: c :: d :: rest => do
      let x ← urlValue? a
      let y ← urlValue? b
      let z ← urlValue? c
      let w ← urlValue? d
      let tail ← decodeRaw strict rest
      some (UInt8.ofNat (x * 4 + y / 16) :: UInt8.ofNat (y % 16 * 16 + z / 4) ::
        UInt8.ofNat (z % 4 * 64 + w) :: tail)

/-- `urlsafe_b64encode(value).rstrip(b"=")`. -/
def urlsafeStripped (bs : List UInt8) : List Char :=
  let swapped := (encode bs).map fun c => if c = '+' then '-' else if c = '/' then '_' else c
  (swapped.reverse.dropWhile (· = '=')).reverse

private theorem urlDigit_spec : ∀ i : Fin 64,
    urlValue? (urlDigit i) = some i.val ∧ urlDigit i ≠ '.' ∧ urlDigit i ≠ '=' ∧
      (urlDigit i).toNat < 128 ∧
      (if digit i = '+' then '-' else if digit i = '/' then '_' else digit i) = urlDigit i := by
  decide

@[simp] theorem urlValue?_urlDigit (h : i < 64) : urlValue? (urlDigit i) = some i :=
  (urlDigit_spec ⟨i, h⟩).1

/-- Every character is one of the alphabet. -/
theorem mem_encodeRaw {bs : List UInt8} {c : Char} (h : c ∈ encodeRaw bs) :
    ∃ i, i < 64 ∧ c = urlDigit i := by
  fun_induction encodeRaw bs with
  | case1 => simp at h
  | case2 a =>
      have ha := a.toNat_lt
      simp only [List.mem_cons, List.not_mem_nil, or_false] at h
      cases h with
      | inl h => exact ⟨_, by omega, h⟩
      | inr h => exact ⟨_, by omega, h⟩
  | case3 a b =>
      have ha := a.toNat_lt
      have hb := b.toNat_lt
      simp only [List.mem_cons, List.not_mem_nil, or_false] at h
      obtain h | h | h := h
      · exact ⟨_, by omega, h⟩
      · exact ⟨_, by omega, h⟩
      · exact ⟨_, by omega, h⟩
  | case4 a b c rest ih =>
      have ha := a.toNat_lt
      have hb := b.toNat_lt
      have hc := c.toNat_lt
      simp only [List.mem_cons] at h
      obtain h | h | h | h | h := h
      · exact ⟨_, by omega, h⟩
      · exact ⟨_, by omega, h⟩
      · exact ⟨_, by omega, h⟩
      · exact ⟨_, by omega, h⟩
      · exact ih h

/-- What `encodeRaw` writes, either decoder reads back. -/
@[simp] theorem decodeRaw_encodeRaw (strict : Bool) (bs : List UInt8) :
    decodeRaw strict (encodeRaw bs) = some bs := by
  fun_induction encodeRaw bs with
  | case1 => rfl
  | case2 a =>
      have ha := a.toNat_lt
      have hz : a.toNat % 4 * 16 % 16 = 0 := by omega
      rw [decodeRaw, urlValue?_urlDigit (by omega), urlValue?_urlDigit (by omega)]
      simp only [Option.bind_eq_bind, Option.bind_some, hz, ne_eq, not_true_eq_false, and_false,
        if_false]
      rw [byte_eq a (by omega)]
  | case3 a b =>
      have ha := a.toNat_lt
      have hb := b.toNat_lt
      have hz : b.toNat % 16 * 4 % 4 = 0 := by omega
      rw [decodeRaw, urlValue?_urlDigit (by omega), urlValue?_urlDigit (by omega),
        urlValue?_urlDigit (by omega)]
      simp only [Option.bind_eq_bind, Option.bind_some, hz, ne_eq, not_true_eq_false, and_false,
        if_false]
      rw [byte_eq a (by omega), byte_eq b (by omega)]
  | case4 a b c rest ih =>
      have ha := a.toNat_lt
      have hb := b.toNat_lt
      have hc := c.toNat_lt
      rw [decodeRaw, urlValue?_urlDigit (by omega), urlValue?_urlDigit (by omega),
        urlValue?_urlDigit (by omega), urlValue?_urlDigit (by omega)]
      simp only [Option.bind_eq_bind, Option.bind_some, ih]
      rw [byte_eq a (by omega), byte_eq b (by omega), byte_eq c (by omega)]

theorem length_encodeRaw (bs : List UInt8) :
    (encodeRaw bs).length = (4 * bs.length + 2) / 3 := by
  fun_induction encodeRaw bs with
  | case1 => rfl
  | case2 a => simp
  | case3 a b => simp
  | case4 a b c rest ih =>
      simp only [List.length_cons, ih]
      omega

/-- The text Python writes is Go's raw encoding. -/
theorem urlsafeStripped_eq (bs : List UInt8) : urlsafeStripped bs = encodeRaw bs := by
  have hdigit : ∀ {i : Nat}, i < 64 →
      (if digit i = '+' then '-' else if digit i = '/' then '_' else digit i) = urlDigit i :=
    fun h => (urlDigit_spec ⟨_, h⟩).2.2.2.2
  have hpad : ∀ {i : Nat}, i < 64 → urlDigit i ≠ '=' := fun h => (urlDigit_spec ⟨_, h⟩).2.2.1
  have hmain : ∃ pad : List Char, (∀ c ∈ pad, c = '=') ∧
      ((encode bs).map fun c => if c = '+' then '-' else if c = '/' then '_' else c) =
        encodeRaw bs ++ pad := by
    fun_induction encodeRaw bs with
    | case1 => exact ⟨[], by simp, rfl⟩
    | case2 a =>
        have ha := a.toNat_lt
        refine ⟨['=', '='], by simp, ?_⟩
        simp [encode, hdigit (show a.toNat / 4 < 64 by omega),
          hdigit (show a.toNat % 4 * 16 < 64 by omega)]
    | case3 a b =>
        have ha := a.toNat_lt
        have hb := b.toNat_lt
        refine ⟨['='], by simp, ?_⟩
        simp [encode, hdigit (show a.toNat / 4 < 64 by omega),
          hdigit (show a.toNat % 4 * 16 + b.toNat / 16 < 64 by omega),
          hdigit (show b.toNat % 16 * 4 < 64 by omega)]
    | case4 a b c rest ih =>
        have ha := a.toNat_lt
        have hb := b.toNat_lt
        have hc := c.toNat_lt
        obtain ⟨pad, hp, heq⟩ := ih
        refine ⟨pad, hp, ?_⟩
        rw [encode]
        simp only [List.map_cons, hdigit (show a.toNat / 4 < 64 by omega),
          hdigit (show a.toNat % 4 * 16 + b.toNat / 16 < 64 by omega),
          hdigit (show b.toNat % 16 * 4 + c.toNat / 64 < 64 by omega),
          hdigit (show c.toNat % 64 < 64 by omega), heq, List.cons_append]
  obtain ⟨pad, hp, heq⟩ := hmain
  have hlast : (encodeRaw bs).reverse.dropWhile (· = '=') = (encodeRaw bs).reverse := by
    cases hrev : (encodeRaw bs).reverse with
    | nil => rfl
    | cons c cs =>
        have hc : c ∈ encodeRaw bs := by
          rw [← List.mem_reverse, hrev]
          exact List.mem_cons_self
        obtain ⟨i, hi, rfl⟩ := mem_encodeRaw hc
        rw [List.dropWhile_cons_of_neg (by simpa using hpad hi)]
  rw [urlsafeStripped, heq, List.reverse_append,
    List.dropWhile_append_of_pos (by simpa using hp), hlast, List.reverse_reverse]

end Base64

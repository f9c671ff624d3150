import Blindport.Protocol.Claim

/-!
# Blindport.Text.Utf8

Go strings that need not be UTF-8: the characters a `range` over the bytes of a
string yields, and `strings.ToLower` of such a string.  Every byte that starts no
character stands for U+FFFD.
-/

namespace Utf8

/-! ## characters -/

/-- What an invalid byte is read as. -/
def runeError : Char := Char.ofNat 0xfffd

/-- A byte within bounds. -/
def within (low high : Nat) (b : UInt8) : Bool := low ≤ b.toNat ∧ b.toNat ≤ high

/-- The six bits of a continuation byte. -/
def bits (b : UInt8) : Nat := b.toNat % 64

/-- `utf8.DecodeRune`: the first character and its width. -/
def decodeRune : List UInt8 → Char × Nat
  | [] => (runeError, 0)
  | b :: rest =>
      if b.toNat < 0x80 then (Char.ofNat b.toNat, 1)
      else if within 0xc2 0xdf b then
        match rest with
        | c :: _ =>
            if within 0x80 0xbf c then (Char.ofNat (b.toNat % 32 * 64 + bits c), 2)
            else (runeError, 1)
        | _ => (runeError, 1)
      else if within 0xe0 0xef b then
        match rest with
        | c :: d :: _ =>
            -- neither overlong forms nor surrogates
            let low := if b.toNat = 0xe0 then 0xa0 else 0x80
            let high := if b.toNat = 0xed then 0x9f else 0xbf
            if within low high c && within 0x80 0xbf d then
              (Char.ofNat ((b.toNat % 16 * 64 + bits c) * 64 + bits d), 3)
            else (runeError, 1)
        | _ => (runeError, 1)
      else if within 0xf0 0xf4 b then
        match rest with
        | c :: d :: e :: _ =>
            let low := if b.toNat = 0xf0 then 0x90 else 0x80
            let high := if b.toNat = 0xf4 then 0x8f else 0xbf
            if within low high c && within 0x80 0xbf d && within 0x80 0xbf e then
              (Char.ofNat (((b.toNat % 8 * 64 + bits c) * 64 + bits d) * 64 + bits e), 4)
            else (runeError, 1)
        | _ => (runeError, 1)
      else (runeError, 1)

/-- The characters of a string. -/
def runes : List UInt8 → List Char
  | [] => []
  | b :: rest =>
      let rune := decodeRune (b :: rest)
      rune.1 :: runes (rest.drop (rune.2 - 1))
termination_by bs => bs.length
decreasing_by
  rw [List.length_drop, List.length_cons]
  omega

theorem runes_ne_nil {bs : List UInt8} (h : bs ≠ []) : runes bs ≠ [] := by
  cases bs with
  | nil => exact absurd rfl h
  | cons b rest =>
      rw [runes]
      exact List.cons_ne_nil _ _

/-! ## lower case -/

/-- ASCII lower case of a byte. -/
def lowerByte (b : UInt8) : UInt8 := if within 65 90 b then b + 32 else b

/-- The bytes are ASCII. -/
def ascii (bs : List UInt8) : Bool := bs.all fun b => b.toNat < 0x80

end Utf8

open Utf8 in
/-- `strings.ToLower` of a string given by its bytes. -/
def Protocol.Go.toLowerBytes (go : Protocol.Go) (bs : List UInt8) : List UInt8 :=
  if ascii bs then bs.map lowerByte
  else (runes bs).flatMap fun c =>
    String.utf8EncodeChar (if c.toNat < 128 then c.toLower else go.lowerRune c)

namespace Utf8

theorem encodeChar_ne_nil (c : Char) : String.utf8EncodeChar c ≠ [] := by
  have h : (String.utf8EncodeChar c).length = c.utf8Size := String.length_utf8EncodeChar c
  intro hnil
  rw [hnil] at h
  exact absurd h.symm (Nat.pos_iff_ne_zero.mp c.utf8Size_pos)

/-- Lower case is empty for nothing but the empty string. -/
theorem toLowerBytes_ne_nil {go : Protocol.Go} {bs : List UInt8} (h : bs ≠ []) :
    go.toLowerBytes bs ≠ [] := by
  unfold Protocol.Go.toLowerBytes
  split
  · simpa using h
  · intro hnil
    rw [List.flatMap_eq_nil_iff] at hnil
    obtain ⟨c, rest, hruns⟩ := List.exists_cons_of_ne_nil (runes_ne_nil h)
    exact encodeChar_ne_nil _ (hnil c (by rw [hruns]; simp))

theorem toLowerBytes_ascii {go : Protocol.Go} {bs : List UInt8} (h : ascii bs = true) :
    go.toLowerBytes bs = bs.map lowerByte := by
  rw [Protocol.Go.toLowerBytes, if_pos h]

end Utf8

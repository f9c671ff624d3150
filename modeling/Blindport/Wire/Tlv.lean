import Mathlib.Algebra.Group.Nat.Defs
import Mathlib.Data.List.Basic

/-!
# Blindport.Wire.Tlv

Named fields written one after another: the length of the name in two bytes, the name, the
length of the value in four bytes, the value.

`encode_injective` says that the bytes determine the fields.
-/

namespace Tlv

/-! ## big-endian numbers -/

/-- The `w` low bytes of a number, the highest first. -/
def bigEndian : Nat → Nat → List UInt8
  | 0, _ => []
  | w + 1, n => UInt8.ofNat (n / 256 ^ w) :: bigEndian w n

@[simp] theorem length_bigEndian (w n : Nat) : (bigEndian w n).length = w := by
  induction w with
  | zero => rfl
  | succ w ih => rw [bigEndian, List.length_cons, ih]

/-- The bytes determine the number, as far as they go. -/
theorem mod_eq_of_bigEndian {w m n : Nat} (h : bigEndian w m = bigEndian w n) :
    m % 256 ^ w = n % 256 ^ w := by
  induction w with
  | zero => rw [Nat.pow_zero, Nat.mod_one, Nat.mod_one]
  | succ w ih =>
      rw [bigEndian, bigEndian, List.cons.injEq] at h
      have hhead : m / 256 ^ w % 256 = n / 256 ^ w % 256 := by
        have hbyte := congrArg UInt8.toNat h.1
        rwa [UInt8.toNat_ofNat', UInt8.toNat_ofNat'] at hbyte
      rw [Nat.pow_succ, Nat.mod_mul, Nat.mod_mul, ih h.2, hhead]

theorem bigEndian_injective {w m n : Nat} (hm : m < 256 ^ w) (hn : n < 256 ^ w)
    (h : bigEndian w m = bigEndian w n) : m = n := by
  have hmod := mod_eq_of_bigEndian h
  rwa [Nat.mod_eq_of_lt hm, Nat.mod_eq_of_lt hn] at hmod

/-! ## fields -/

/-- A name and a value. -/
abbrev Field := List UInt8 × List UInt8

/-- The lengths of the field fit. -/
def Sized (f : Field) : Prop := f.1.length < 256 ^ 2 ∧ f.2.length < 256 ^ 4

/-- The bytes of a field. -/
def encodeField (f : Field) : List UInt8 :=
  bigEndian 2 f.1.length ++ f.1 ++ bigEndian 4 f.2.length ++ f.2

/-- The bytes of fields. -/
def encode (fs : List Field) : List UInt8 := fs.flatMap encodeField

theorem encodeField_ne_nil (f : Field) : encodeField f ≠ [] := by
  simp [encodeField, bigEndian]

/-- No field is the start of another. -/
theorem encodeField_append_injective {f g : Field} {rest rest' : List UInt8} (hf : Sized f)
    (hg : Sized g) (h : encodeField f ++ rest = encodeField g ++ rest') : f = g ∧ rest = rest' := by
  simp only [encodeField, List.append_assoc] at h
  obtain ⟨hlen, h⟩ := List.append_inj h (by simp)
  have hname := bigEndian_injective hf.1 hg.1 hlen
  obtain ⟨hname, h⟩ := List.append_inj h hname
  obtain ⟨hlen, h⟩ := List.append_inj h (by simp)
  have hvalue := bigEndian_injective hf.2 hg.2 hlen
  obtain ⟨hvalue, h⟩ := List.append_inj h hvalue
  exact ⟨Prod.ext hname hvalue, h⟩

/-- **The bytes determine the fields.** -/
theorem encode_injective {fs gs : List Field} (hf : ∀ f ∈ fs, Sized f) (hg : ∀ g ∈ gs, Sized g)
    (h : encode fs = encode gs) : fs = gs := by
  induction fs generalizing gs with
  | nil =>
      cases gs with
      | nil => rfl
      | cons g gs =>
          have hnil := (List.append_eq_nil_iff.mp h.symm).1
          exact absurd hnil (encodeField_ne_nil g)
  | cons f fs ih =>
      cases gs with
      | nil =>
          have hnil := (List.append_eq_nil_iff.mp h).1
          exact absurd hnil (encodeField_ne_nil f)
      | cons g gs =>
          obtain ⟨hfield, hrest⟩ := encodeField_append_injective (hf f List.mem_cons_self)
            (hg g List.mem_cons_self) h
          rw [hfield, ih (fun x hx => hf x (List.mem_cons_of_mem f hx))
            (fun x hx => hg x (List.mem_cons_of_mem g hx)) hrest]

end Tlv

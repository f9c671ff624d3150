import Mathlib.Data.Nat.Bitwise

/-!
# Blindport.Data.Bits

The low bits of a number, first the highest of them, and groups of bits of one width
written one after another.

`regrouped` says when two readings of one bit string give the same groups: whoever cuts
it into groups of a width has no choice, up to what does not fill a group.
-/

namespace Bits

/-! ## the low bits of a number -/

/-- The `w` low bits of `n`, the highest first. -/
def ofNat : Nat → Nat → List Bool
  | 0, _ => []
  | w + 1, n => n.testBit w :: ofNat w n

@[simp] theorem length_ofNat (w n : Nat) : (ofNat w n).length = w := by
  induction w with
  | zero => rfl
  | succ w ih => rw [ofNat, List.length_cons, ih]

/-- Two numbers have the same low bits when they agree there. -/
theorem ofNat_congr {w m n : Nat} (h : ∀ j < w, m.testBit j = n.testBit j) :
    ofNat w m = ofNat w n := by
  induction w with
  | zero => rfl
  | succ w ih =>
      rw [ofNat, ofNat, h w (Nat.lt_succ_self w)]
      exact congrArg _ (ih fun j hj => h j (Nat.lt_succ_of_lt hj))

/-- The bits above the `k` lowest ones come first. -/
theorem ofNat_add (w k n : Nat) : ofNat (w + k) n = ofNat w (n >>> k) ++ ofNat k n := by
  induction w with
  | zero => rw [Nat.zero_add, ofNat, List.nil_append]
  | succ w ih =>
      have hbit : (n >>> k).testBit w = n.testBit (w + k) := by
        rw [Nat.testBit_shiftRight, Nat.add_comm]
      rw [Nat.succ_add, ofNat, ofNat, ih, hbit, List.cons_append]

/-- A mask keeps the bits it covers. -/
@[simp] theorem ofNat_mask (w n : Nat) : ofNat w (n &&& (2 ^ w - 1)) = ofNat w n := by
  apply ofNat_congr
  intro j hj
  rw [Nat.testBit_and, Nat.testBit_two_pow_sub_one]
  simp [hj]

/-- A digit that is shifted in is what the number ends with. -/
theorem ofNat_shiftIn {w k n d : Nat} (hd : d < 2 ^ k) :
    ofNat (w + k) (n <<< k ||| d) = ofNat w n ++ ofNat k d := by
  rw [ofNat_add]
  congr 1
  · apply ofNat_congr
    intro j hj
    rw [Nat.testBit_shiftRight, Nat.testBit_or, Nat.testBit_shiftLeft]
    have hhigh : d.testBit (k + j) = false :=
      Nat.testBit_lt_two_pow (Nat.lt_of_lt_of_le hd (Nat.pow_le_pow_right (by decide) (by omega)))
    simp [hhigh]
  · apply ofNat_congr
    intro j hj
    rw [Nat.testBit_or, Nat.testBit_shiftLeft]
    simp [Nat.not_le.mpr hj]

/-- A number that is shifted up ends with zeros. -/
theorem ofNat_shiftLeft (w k n : Nat) :
    ofNat (w + k) (n <<< k) = ofNat w n ++ List.replicate k false := by
  have hzero : ofNat k 0 = List.replicate k false := by
    induction k with
    | zero => rfl
    | succ k ih => rw [ofNat, ih, Nat.zero_testBit, List.replicate_succ]
  rw [← hzero, ← ofNat_shiftIn (Nat.two_pow_pos k), Nat.or_zero]

/-- A number of `w` bits is known by them. -/
theorem ofNat_injective {w m n : Nat} (hm : m < 2 ^ w) (hn : n < 2 ^ w)
    (h : ofNat w m = ofNat w n) : m = n := by
  apply Nat.eq_of_testBit_eq
  intro j
  by_cases hj : j < w
  · clear hm hn
    induction w with
    | zero => omega
    | succ w ih =>
        rw [ofNat, ofNat, List.cons.injEq] at h
        by_cases hw : j = w
        · rw [hw]
          exact h.1
        · exact ih h.2 (by omega)
  · have hpow : 2 ^ w ≤ 2 ^ j := Nat.pow_le_pow_right (by decide) (Nat.le_of_not_lt hj)
    rw [Nat.testBit_lt_two_pow (Nat.lt_of_lt_of_le hm hpow),
      Nat.testBit_lt_two_pow (Nat.lt_of_lt_of_le hn hpow)]

/-! ## groups -/

/-- Digits of width `w`, one after another. -/
def groups (w : Nat) (ds : List Nat) : List Bool := ds.flatMap (ofNat w)

@[simp] theorem groups_nil (w : Nat) : groups w [] = [] := rfl

@[simp] theorem groups_cons (w d : Nat) (ds : List Nat) :
    groups w (d :: ds) = ofNat w d ++ groups w ds := rfl

@[simp] theorem groups_append (w : Nat) (ds es : List Nat) :
    groups w (ds ++ es) = groups w ds ++ groups w es := List.flatMap_append

theorem length_groups (w : Nat) (ds : List Nat) : (groups w ds).length = w * ds.length := by
  induction ds with
  | nil => rfl
  | cons d ds ih =>
      rw [groups_cons, List.length_append, length_ofNat, ih, List.length_cons, Nat.mul_succ]
      omega

/-- The digits of two equal bit strings are equal. -/
theorem groups_injective {w : Nat} {ds es : List Nat} (hlen : ds.length = es.length)
    (hd : ∀ d ∈ ds, d < 2 ^ w) (he : ∀ e ∈ es, e < 2 ^ w) (h : groups w ds = groups w es) :
    ds = es := by
  induction ds generalizing es with
  | nil =>
      rw [List.length_nil] at hlen
      exact (List.length_eq_zero_iff.mp hlen.symm).symm
  | cons d ds ih =>
      cases es with
      | nil => contradiction
      | cons e es =>
          rw [groups_cons, groups_cons] at h
          obtain ⟨hhead, htail⟩ := List.append_inj h (by simp)
          rw [ofNat_injective (hd d List.mem_cons_self) (he e List.mem_cons_self) hhead,
            ih (by simpa using hlen) (fun x hx => hd x (List.mem_cons_of_mem d hx))
              (fun x hx => he x (List.mem_cons_of_mem e hx)) htail]

/-- **Whoever cuts a bit string into groups of a width has no choice**, as long as what is
left over fills no group. -/
theorem regrouped {w : Nat} {ds es : List Nat} {rest rest' : List Bool}
    (hd : ∀ d ∈ ds, d < 2 ^ w) (he : ∀ e ∈ es, e < 2 ^ w) (hrest : rest.length < w)
    (hrest' : rest'.length < w) (h : groups w ds ++ rest = groups w es ++ rest') : ds = es := by
  have htotal := congrArg List.length h
  rw [List.length_append, List.length_append, length_groups, length_groups] at htotal
  have hlen : ds.length = es.length := by
    have hdiv := congrArg (· / w) htotal
    have hw : 0 < w := by omega
    simp only [Nat.mul_add_div hw, Nat.div_eq_of_lt hrest, Nat.div_eq_of_lt hrest'] at hdiv
    omega
  obtain ⟨hgroups, -⟩ := List.append_inj h (by rw [length_groups, length_groups, hlen])
  exact groups_injective hlen hd he hgroups

end Bits

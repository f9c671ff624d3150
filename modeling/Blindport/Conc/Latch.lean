import Mathlib.Data.List.Count

/-!
# Blindport.Conc.Latch

Records of what several threads did, newest entry first, and the argument that
something was done at most once.

A thread may make a `p`-entry only against a `q`-entry of its own that it has
not used yet (`Covered`).  When there is at most one `q`-entry in the whole
record, because it marks a latch being set, there is at most one `p`-entry.
-/

namespace Conc

variable {E : Type} (thread : E → Nat)

/-- The `p`-entries of thread `i`. -/
def countBy (p : E → Bool) (i : Nat) (h : List E) : Nat :=
  h.countP fun e => thread e = i && p e

/-- Every `p`-entry was made against an earlier, unused `q`-entry of its
thread. -/
def Covered (p q : E → Bool) : List E → Prop
  | [] => True
  | e :: h =>
      (p e = true → countBy thread p (thread e) h < countBy thread q (thread e) h) ∧ Covered p q h

variable {p q : E → Bool}

theorem countBy_cons (p : E → Bool) (i : Nat) (e : E) (h : List E) :
    countBy thread p i (e :: h) = countBy thread p i h + if thread e = i ∧ p e then 1 else 0 := by
  simp [countBy, List.countP_cons]

theorem countBy_le (p : E → Bool) (i : Nat) (h : List E) : countBy thread p i h ≤ h.countP p := by
  apply List.countP_mono_left
  intro e _ he
  simp only [Bool.and_eq_true] at he
  exact he.2

theorem countBy_add_le (p : E → Bool) {i j : Nat} (hne : i ≠ j) (h : List E) :
    countBy thread p i h + countBy thread p j h ≤ h.countP p := by
  induction h with
  | nil => simp [countBy]
  | cons e h ih =>
      rw [countBy_cons, countBy_cons, List.countP_cons]
      by_cases hi : thread e = i ∧ p e = true
      · have hj : ¬ (thread e = j ∧ p e = true) := fun hj => hne (hi.1.symm.trans hj.1)
        rw [if_pos hi, if_neg hj, if_pos hi.2]
        omega
      · rw [if_neg hi]
        by_cases hj : thread e = j ∧ p e = true
        · rw [if_pos hj, if_pos hj.2]
          omega
        · rw [if_neg hj]
          omega

/-- A record whose entries of every thread number zero has none. -/
theorem countP_eq_zero_of_countBy {h : List E} (hz : ∀ i, countBy thread p i h = 0) :
    h.countP p = 0 := by
  rw [List.countP_eq_zero]
  intro e he hp
  have := List.countP_eq_zero.mp (hz (thread e)) e he
  simp [hp] at this

variable {thread}

theorem Covered.le {h : List E} (hc : Covered thread p q h) (i : Nat) :
    countBy thread p i h ≤ countBy thread q i h := by
  induction h with
  | nil => simp [countBy]
  | cons e h ih =>
      rw [countBy_cons, countBy_cons]
      have := ih hc.2
      by_cases hp : thread e = i ∧ p e = true
      · have hlt := hc.1 hp.2
        rw [hp.1] at hlt
        rw [if_pos hp]
        omega
      · rw [if_neg hp]
        omega

/-- **At most once.** One `q`-entry in the record covers one `p`-entry. -/
theorem Covered.countP_le_one {h : List E} (hc : Covered thread p q h) (hq : h.countP q ≤ 1) :
    h.countP p ≤ 1 := by
  induction h with
  | nil => simp
  | cons e h ih =>
      have hq' : h.countP q ≤ 1 := by
        rw [List.countP_cons] at hq
        omega
      rw [List.countP_cons]
      cases hp : p e with
      | false => simpa using ih hc.2 hq'
      | true =>
          -- The thread of `e` has the only `q`-entry, so nobody used one before.
          have hlt := hc.1 hp
          have hzero : h.countP p = 0 := by
            apply countP_eq_zero_of_countBy thread
            intro j
            have hle := Covered.le hc.2 j
            by_cases hj : thread e = j
            · have := countBy_le thread q (thread e) h
              rw [hj] at hlt this
              omega
            · have := countBy_add_le thread q hj h
              omega
          simp [hzero]

end Conc

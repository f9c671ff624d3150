import Mathlib.Algebra.BigOperators.Group.Finset.Piecewise
import Mathlib.Algebra.Order.Ring.Nat
import Mathlib.Data.List.Count
import Mathlib.Tactic.Ring

/-!
# Blindport.Data.Tally

Choosing from an unordered collection in passes: the first of the least elements,
the number of elements of each kind, and the entry with the largest number.  The
passes see the collection in an arbitrary order.

* `least_eq_some`, `least_eq_none_iff` — a running minimum is a minimum;
* `mem_tally` — the entries of a tally are the kinds with their counts;
* `top_mem`, `le_top` — the running maximum of the counts;
* `sumSquares_swap` — when an element of a kind with at least two more is replaced,
  the sum of the squared counts falls.
-/

namespace Tally

variable {α κ : Type}

/-- The order in which a pass sees the elements. -/
structure MapOrder (α : Type) where
  range : List α → List α
  range_perm : ∀ l, (range l).Perm l

namespace MapOrder

/-- The elements in the order of the list. -/
def id : MapOrder α := ⟨fun l => l, fun l => List.Perm.refl l⟩

/-- An order in which `v` comes first. -/
def front [DecidableEq α] (v : α) : MapOrder α where
  range l := if v ∈ l then v :: l.erase v else l
  range_perm l := by
    split
    · rename_i hv
      exact (List.perm_cons_erase hv).symm
    · exact List.Perm.refl l

@[simp] theorem mem_range (o : MapOrder α) {l : List α} {x : α} : x ∈ o.range l ↔ x ∈ l :=
  (o.range_perm l).mem_iff

theorem range_front [DecidableEq α] {v : α} {l : List α} (hv : v ∈ l) :
    ∃ rest, (front v).range l = v :: rest ∧ ∀ t ∈ rest, t ∈ l :=
  ⟨l.erase v, if_pos hv, fun _ ht => List.mem_of_mem_erase ht⟩

end MapOrder

/-! ## the running minimum -/

section Least

variable {β : Type} [LinearOrder β] (p : α → Bool) (key : α → β)

/-- One turn of a pass that keeps the least element with `p`; the earlier one
stays when the keys are equal. -/
def keepLeast (best : Option α) (x : α) : Option α :=
  match best with
  | none => if p x then some x else none
  | some b => if p x ∧ key x < key b then some x else some b

/-- The first of the least elements with `p`. -/
def least (l : List α) : Option α := l.foldl (keepLeast p key) none

variable {p key}

theorem foldl_keepLeast (key : α → β) (l : List α) {b : α} (hb : p b = true) :
    ∃ v, l.foldl (keepLeast p key) (some b) = some v ∧ (v = b ∨ v ∈ l) ∧ p v = true ∧
      key v ≤ key b ∧ ∀ t ∈ l, p t = true → key v ≤ key t := by
  induction l generalizing b with
  | nil => exact ⟨b, rfl, Or.inl rfl, hb, le_refl _, by simp⟩
  | cons x l ih =>
      rw [List.foldl_cons, keepLeast]
      by_cases hx : p x = true ∧ key x < key b
      · rw [if_pos hx]
        obtain ⟨v, heq, hmem, hp, hle, hl⟩ := ih hx.1
        have hall : ∀ t ∈ x :: l, p t = true → key v ≤ key t := by
          intro t ht hpt
          cases List.mem_cons.mp ht with
          | inl hxt => rw [hxt]; exact hle
          | inr ht => exact hl t ht hpt
        have hmem : v = b ∨ v ∈ x :: l := by grind
        exact ⟨v, heq, hmem, hp, hle.trans hx.2.le, hall⟩
      · rw [if_neg hx]
        obtain ⟨v, heq, hmem, hp, hle, hl⟩ := ih hb
        have hall : ∀ t ∈ x :: l, p t = true → key v ≤ key t := by
          intro t ht hpt
          cases List.mem_cons.mp ht with
          | inl hxt =>
              subst hxt
              exact hle.trans (not_lt.mp fun hlt => hx ⟨hpt, hlt⟩)
          | inr ht => exact hl t ht hpt
        have hmem : v = b ∨ v ∈ x :: l := by grind
        exact ⟨v, heq, hmem, hp, hle, hall⟩

/-- A running minimum is a least element with `p`, if there is one. -/
theorem least_spec (p : α → Bool) (key : α → β) (l : List α) :
    (least p key l = none ∧ ∀ t ∈ l, p t = false) ∨
      ∃ v, least p key l = some v ∧ v ∈ l ∧ p v = true ∧ ∀ t ∈ l, p t = true → key v ≤ key t := by
  induction l with
  | nil => exact Or.inl ⟨rfl, by simp⟩
  | cons x l ih =>
      rw [least, List.foldl_cons, keepLeast]
      by_cases hx : p x = true
      · right
        rw [if_pos hx]
        obtain ⟨v, heq, hmem, hp, hle, hl⟩ := foldl_keepLeast key l hx
        have hall : ∀ t ∈ x :: l, p t = true → key v ≤ key t := by
          intro t ht hpt
          cases List.mem_cons.mp ht with
          | inl hxt => rw [hxt]; exact hle
          | inr ht => exact hl t ht hpt
        exact ⟨v, heq, List.mem_cons.mpr hmem, hp, hall⟩
      · rw [if_neg hx, ← least]
        grind

theorem least_eq_some {l : List α} {v : α} (h : least p key l = some v) :
    v ∈ l ∧ p v = true ∧ ∀ t ∈ l, p t = true → key v ≤ key t := by
  grind [least_spec p key l]

theorem least_eq_none_iff {l : List α} : least p key l = none ↔ ∀ t ∈ l, p t = false := by
  grind [least_spec p key l]

/-- A least element that comes first is the one that is found. -/
theorem least_cons {l : List α} {v : α} (hv : p v = true)
    (hl : ∀ t ∈ l, p t = true → key v ≤ key t) : least p key (v :: l) = some v := by
  rw [least, List.foldl_cons, keepLeast, if_pos hv]
  induction l with
  | nil => rfl
  | cons x l ih =>
      have hx : ¬(p x = true ∧ key x < key v) := fun hx =>
        not_lt.mpr (hl x List.mem_cons_self hx.1) hx.2
      rw [List.foldl_cons, keepLeast, if_neg hx]
      exact ih fun t ht => hl t (List.mem_cons_of_mem _ ht)

end Least

/-! ## the largest count -/

/-- One turn of a pass that keeps the entry with the largest count. -/
def keepTop (best e : κ × Nat) : κ × Nat := if e.2 > best.2 then e else best

/-- The first entry with the largest count. -/
def top (default : κ) (counts : List (κ × Nat)) : κ × Nat := counts.foldl keepTop (default, 0)

theorem foldl_keepTop (counts : List (κ × Nat)) (best : κ × Nat) :
    (counts.foldl keepTop best = best ∨ counts.foldl keepTop best ∈ counts) ∧
      best.2 ≤ (counts.foldl keepTop best).2 ∧
      ∀ e ∈ counts, e.2 ≤ (counts.foldl keepTop best).2 := by
  induction counts generalizing best with
  | nil => simp
  | cons e counts ih =>
      obtain ⟨hmem, hbest, hle⟩ := ih (keepTop best e)
      have hkeep : (keepTop best e = best ∨ keepTop best e = e) ∧
          best.2 ≤ (keepTop best e).2 ∧ e.2 ≤ (keepTop best e).2 := by
        unfold keepTop
        split
        · exact ⟨Or.inr rfl, by omega, le_refl _⟩
        · exact ⟨Or.inl rfl, le_refl _, by omega⟩
      rw [List.foldl_cons]
      refine ⟨?_, hkeep.2.1.trans hbest, ?_⟩
      · cases hmem with
        | inl heq =>
            rw [heq]
            refine hkeep.1.imp id fun h => ?_
            rw [h]
            exact List.mem_cons_self
        | inr hmem => exact Or.inr (List.mem_cons_of_mem _ hmem)
      · intro e' he'
        cases he' with
        | head => exact hkeep.2.2.trans hbest
        | tail _ he' => exact hle e' he'

theorem le_top (default : κ) {counts : List (κ × Nat)} {e : κ × Nat} (h : e ∈ counts) :
    e.2 ≤ (top default counts).2 :=
  (foldl_keepTop counts (default, 0)).2.2 e h

theorem top_mem (default : κ) {counts : List (κ × Nat)} (h : 0 < (top default counts).2) :
    top default counts ∈ counts := by
  rcases (foldl_keepTop counts (default, 0)).1 with heq | hmem
  · rw [top, heq] at h
    exact absurd h (lt_irrefl 0)
  · exact hmem

/-- An entry with a largest count that comes first is the one that is found. -/
theorem top_cons (default : κ) {counts : List (κ × Nat)} {e : κ × Nat} (he : 0 < e.2)
    (hle : ∀ e' ∈ counts, e'.2 ≤ e.2) : top default (e :: counts) = e := by
  have hfold : counts.foldl keepTop e = e := by
    induction counts with
    | nil => rfl
    | cons e' counts ih =>
        have hkeep : keepTop e e' = e := by
          grind [keepTop]
        rw [List.foldl_cons, hkeep]
        exact ih fun e'' he'' => hle e'' (List.mem_cons_of_mem _ he'')
  rw [top, List.foldl_cons, keepTop, if_pos he, hfold]

/-! ## the tally -/

section Counts

variable [DecidableEq κ]

/-- One more of kind `k`. -/
def bump : List (κ × Nat) → κ → List (κ × Nat)
  | [], k => [(k, 1)]
  | (k', n) :: rest, k => if k' = k then (k', n + 1) :: rest else (k', n) :: bump rest k

/-- The count of a kind, zero without an entry. -/
def countOf (counts : List (κ × Nat)) (k : κ) : Nat := (counts.lookup k).getD 0

/-- How many of each kind. -/
def tally (ks : List κ) : List (κ × Nat) := ks.foldl bump []

theorem countOf_bump (counts : List (κ × Nat)) (k k' : κ) :
    countOf (bump counts k) k' = countOf counts k' + if k' = k then 1 else 0 := by
  induction counts with
  | nil =>
      by_cases h : k' = k
      · simp [bump, countOf, h]
      · simp [bump, countOf, List.lookup_cons, beq_eq_false_iff_ne.mpr h, h]
  | cons e rest ih =>
      obtain ⟨k₀, n⟩ := e
      unfold countOf at ih
      rw [bump]
      by_cases h₀ : k₀ = k <;> by_cases h : k' = k₀ <;> by_cases h' : k' = k <;>
        grind [countOf]

theorem bump_keys_nodup {counts : List (κ × Nat)} (h : (counts.map (·.1)).Nodup) (k : κ) :
    ((bump counts k).map (·.1)).Nodup ∧
      ∀ k', k' ∈ (bump counts k).map (·.1) ↔ k' ∈ counts.map (·.1) ∨ k' = k := by
  induction counts with
  | nil => simp [bump]
  | cons e rest ih =>
      obtain ⟨k₀, n⟩ := e
      rw [List.map_cons, List.nodup_cons] at h
      obtain ⟨hnodup, hkeys⟩ := ih h.2
      rw [bump]
      split
      · rename_i heq
        grind
      · rename_i hne
        rw [List.map_cons, List.nodup_cons]
        grind

theorem foldl_bump (ks : List κ) (counts : List (κ × Nat)) (h : (counts.map (·.1)).Nodup) :
    ((ks.foldl bump counts).map (·.1)).Nodup ∧
      (∀ k, k ∈ (ks.foldl bump counts).map (·.1) ↔ k ∈ counts.map (·.1) ∨ k ∈ ks) ∧
      ∀ k, countOf (ks.foldl bump counts) k = countOf counts k + ks.count k := by
  induction ks generalizing counts with
  | nil => simp [h]
  | cons k₀ ks ih =>
      obtain ⟨hnodup, hkeys⟩ := bump_keys_nodup h k₀
      obtain ⟨h₁, h₂, h₃⟩ := ih _ hnodup
      rw [List.foldl_cons]
      refine ⟨h₁, ?_, ?_⟩
      · intro k
        rw [h₂, hkeys, List.mem_cons, or_assoc]
      · intro k
        rw [h₃, countOf_bump, List.count_cons]
        grind

@[simp] theorem countOf_tally (ks : List κ) (k : κ) : countOf (tally ks) k = ks.count k := by
  rw [tally, (foldl_bump ks [] (by simp)).2.2]
  simp [countOf]

theorem lookup_eq_some_iff {counts : List (κ × Nat)} (h : (counts.map (·.1)).Nodup) {k : κ}
    {n : Nat} : counts.lookup k = some n ↔ (k, n) ∈ counts := by
  induction counts with
  | nil => simp
  | cons e rest ih =>
      obtain ⟨k₀, n₀⟩ := e
      rw [List.map_cons, List.nodup_cons, List.mem_map] at h
      have ih := ih h.2
      by_cases hk : k = k₀
      · subst hk
        have hnot : (k, n) ∉ rest := fun hmem => h.1 ⟨(k, n), hmem, rfl⟩
        simp [hnot, eq_comm]
      · simp [List.lookup_cons, beq_eq_false_iff_ne.mpr hk, ih, hk]

/-- The entries of a tally are the kinds with their counts. -/
theorem mem_tally {ks : List κ} {k : κ} {n : Nat} :
    (k, n) ∈ tally ks ↔ k ∈ ks ∧ n = ks.count k := by
  obtain ⟨hnodup, hkeys, -⟩ := foldl_bump ks [] (by simp)
  rw [← tally] at hnodup
  have hcount := countOf_tally ks k
  rw [← lookup_eq_some_iff hnodup]
  constructor
  · intro h
    have hmem := (lookup_eq_some_iff hnodup).mp h
    have hk : k ∈ (tally ks).map (·.1) := List.mem_map_of_mem (f := (·.1)) hmem
    rw [tally, hkeys] at hk
    rw [countOf, h, Option.getD_some] at hcount
    exact ⟨by simpa using hk, hcount⟩
  · rintro ⟨hk, rfl⟩
    have hkey : k ∈ (tally ks).map (·.1) := by
      rw [tally, hkeys]
      exact Or.inr hk
    obtain ⟨⟨k', n⟩, hmem, rfl⟩ := List.mem_map.mp hkey
    have hlookup := (lookup_eq_some_iff hnodup).mpr hmem
    rw [countOf, hlookup, Option.getD_some] at hcount
    rw [hlookup, hcount]

/-! ## squared counts -/

/-- The sum of the squared counts. -/
def sumSquares (ks : List κ) : Nat := ∑ k ∈ ks.toFinset, ks.count k ^ 2

theorem sumSquares_cons (k : κ) (ks : List κ) :
    sumSquares (k :: ks) = sumSquares ks + 2 * ks.count k + 1 := by
  have hks : sumSquares ks = ∑ x ∈ (k :: ks).toFinset, ks.count x ^ 2 := by
    rw [sumSquares]
    apply Finset.sum_subset
    · intro x hx
      simp only [List.mem_toFinset, List.mem_cons] at hx ⊢
      exact Or.inr hx
    · intro x _ hx
      rw [List.mem_toFinset] at hx
      rw [List.count_eq_zero_of_not_mem hx]
      rfl
  have hstep : ∀ x, (k :: ks).count x ^ 2 =
      ks.count x ^ 2 + if k = x then 2 * ks.count k + 1 else 0 := by
    intro x
    by_cases hx : k = x
    · subst hx
      rw [List.count_cons_self, if_pos rfl]
      ring
    · rw [List.count_cons_of_ne hx, if_neg hx, Nat.add_zero]
  calc
    sumSquares (k :: ks)
        = ∑ x ∈ (k :: ks).toFinset,
            (ks.count x ^ 2 + if k = x then 2 * ks.count k + 1 else 0) :=
          Finset.sum_congr rfl fun x _ => hstep x
    _ = sumSquares ks + (2 * ks.count k + 1) := by
          rw [Finset.sum_add_distrib, ← hks, Finset.sum_ite_eq, if_pos (by simp)]

theorem sumSquares_perm {ks ks' : List κ} (h : ks.Perm ks') : sumSquares ks = sumSquares ks' := by
  rw [sumSquares, sumSquares, List.toFinset_eq_of_perm _ _ h]
  exact Finset.sum_congr rfl fun k _ => by rw [h.count_eq]

/-- When one of a kind with at least two more is replaced, the sum of the squared
counts falls. -/
theorem sumSquares_swap {k k' : κ} {ks rest : List κ} (h : ks.Perm (k' :: rest))
    (hmore : ks.count k + 2 ≤ ks.count k') : sumSquares (k :: rest) < sumSquares ks := by
  have hne : k' ≠ k := by
    rintro rfl
    omega
  have hk : ks.count k = rest.count k := by
    rw [h.count_eq, List.count_cons_of_ne hne]
  have hk' : ks.count k' = rest.count k' + 1 := by
    rw [h.count_eq, List.count_cons_self]
  rw [sumSquares_perm h, sumSquares_cons, sumSquares_cons]
  omega

end Counts

end Tally

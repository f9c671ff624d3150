import Mathlib.Algebra.BigOperators.Group.Finset.Basic
import Mathlib.Order.Lattice
import Mathlib.Tactic.Abel

/-!
# Blindport.Data.Cumulative

Cumulative counters that many sources report under increasing sequence numbers.

A source reports, for one `key`, totals that only grow; reports may be
repeated, reordered or lost.  A receiver counts a report only when its sequence
is above every earlier one of its key.  `highest log k` is the greatest total
counted for `k`, and `total log p` adds it over the keys that satisfy `p`:

* `aggregate_cons_fresh` — a counted report adds exactly what its key gained;
* `aggregate_cons_stale` — any other report adds nothing;
* `highest_eq_of_newest` — a counted report is itself the highest of its key.
-/

namespace Cumulative

variable {κ τ : Type*}

/-- One report of the running totals of a key. -/
structure Report (κ τ : Type*) where
  key : κ
  sequence : ℕ
  totals : τ
deriving DecidableEq

/-- The report is newer than all of its key in the log. -/
def Fresh (log : List (Report κ τ)) (r : Report κ τ) : Prop :=
  ∀ earlier ∈ log, earlier.key = r.key → earlier.sequence < r.sequence

instance [DecidableEq κ] (log : List (Report κ τ)) (r : Report κ τ) : Decidable (Fresh log r) :=
  inferInstanceAs (Decidable (∀ earlier ∈ log, _))

/-- The keys reported so far. -/
def keys [DecidableEq κ] (log : List (Report κ τ)) : Finset κ := (log.map Report.key).toFinset

theorem keys_subset_cons [DecidableEq κ] (r : Report κ τ) (log : List (Report κ τ)) :
    keys log ⊆ keys (r :: log) := by
  intro k hk
  simp only [keys, List.map_cons, List.toFinset_cons, Finset.mem_insert]
  exact .inr hk

/-- Newer reports of a key are never below earlier ones. -/
def NonDecreasing [LE τ] (log : List (Report κ τ)) : Prop :=
  ∀ r ∈ log, ∀ r' ∈ log, r.key = r'.key → r.sequence < r'.sequence → r.totals ≤ r'.totals

section Highest

variable [DecidableEq κ] [SemilatticeSup τ] [Zero τ]

/-- The greatest totals counted for a key; the log is newest first. -/
def highest : List (Report κ τ) → κ → τ
  | [], _ => 0
  | r :: log, k => if r.key = k ∧ Fresh log r then highest log k ⊔ r.totals else highest log k

/-- A report that is not newer than an earlier one counts for nothing. -/
theorem highest_cons_stale {log : List (Report κ τ)} {r : Report κ τ} (h : ¬ Fresh log r) (k : κ) :
    highest (r :: log) k = highest log k := by
  rw [highest, if_neg fun hr => h hr.2]

/-- A report says nothing about the other keys. -/
theorem highest_cons_of_ne {log : List (Report κ τ)} {r : Report κ τ} {k : κ} (h : r.key ≠ k) :
    highest (r :: log) k = highest log k := by
  rw [highest, if_neg fun hr => h hr.1]

/-- A counted report that did not go back is the highest of its key. -/
theorem highest_eq_of_newest {log : List (Report κ τ)} {r : Report κ τ} (hf : Fresh log r)
    (hle : highest log r.key ≤ r.totals) : highest (r :: log) r.key = r.totals := by
  rw [highest, if_pos ⟨rfl, hf⟩, sup_eq_right]
  exact hle

/-- A key that was never reported has nothing counted. -/
theorem highest_eq_zero {log : List (Report κ τ)} {k : κ} (h : k ∉ keys log) :
    highest log k = 0 := by
  induction log with
  | nil => rfl
  | cons r log ih =>
      simp only [keys, List.map_cons, List.toFinset_cons, Finset.mem_insert, not_or] at h
      rw [highest_cons_of_ne (Ne.symm h.1)]
      exact ih h.2

end Highest

section Total

variable [DecidableEq κ] [AddCommMonoid τ] [SemilatticeSup τ]

/-- What was counted over all keys that satisfy `p`. -/
def total (log : List (Report κ τ)) (p : κ → Prop) [DecidablePred p] : τ :=
  ∑ k ∈ (keys log).filter p, highest log k

/-- The keys may be taken from any set that has all reported ones. -/
theorem total_eq_sum {log : List (Report κ τ)} {s : Finset κ} (hs : keys log ⊆ s) (p : κ → Prop)
    [DecidablePred p] : total log p = ∑ k ∈ s.filter p, highest log k := by
  refine Finset.sum_subset (Finset.filter_subset_filter p hs) fun k hk hnot => ?_
  apply highest_eq_zero
  intro hmem
  exact hnot (Finset.mem_filter.mpr ⟨hmem, (Finset.mem_filter.mp hk).2⟩)

/-- A report of a key outside `p`, or one that is not newer, leaves the total. -/
theorem total_cons_stale {log : List (Report κ τ)} {r : Report κ τ} {p : κ → Prop}
    [DecidablePred p] (h : p r.key → ¬ Fresh log r) : total (r :: log) p = total log p := by
  rw [total_eq_sum (keys_subset_cons r log) p, total]
  refine Finset.sum_congr rfl fun k hk => ?_
  by_cases hkey : r.key = k
  · subst hkey
    exact highest_cons_stale (h (Finset.mem_filter.mp hk).2) _
  · exact highest_cons_of_ne hkey

/-- **A counted report adds to every total it belongs to what its key gained.** -/
theorem total_cons_fresh {log : List (Report κ τ)} {r : Report κ τ} {p : κ → Prop}
    [DecidablePred p] {gain : τ} (hp : p r.key) (hf : Fresh log r)
    (hle : highest log r.key ≤ r.totals) (hgain : highest log r.key + gain = r.totals) :
    total (r :: log) p = total log p + gain := by
  have hmem : r.key ∈ (keys (r :: log)).filter p := by
    simp [keys, hp]
  have hrest : ∑ k ∈ ((keys (r :: log)).filter p).erase r.key, highest (r :: log) k =
      ∑ k ∈ ((keys (r :: log)).filter p).erase r.key, highest log k := by
    refine Finset.sum_congr rfl fun k hk => ?_
    exact highest_cons_of_ne (Ne.symm (Finset.ne_of_mem_erase hk))
  rw [total_eq_sum (keys_subset_cons r log) p, total, ← Finset.add_sum_erase _ _ hmem,
    ← Finset.add_sum_erase _ (highest log) hmem, hrest, highest_eq_of_newest hf hle, ← hgain]
  abel

/-- The row that carries a total: it exists once a report belongs to it. -/
def aggregate (log : List (Report κ τ)) (p : κ → Prop) [DecidablePred p] : Option τ :=
  if ∃ r ∈ log, p r.key then some (total log p) else none

theorem total_of_aggregate (log : List (Report κ τ)) (p : κ → Prop) [DecidablePred p] :
    (aggregate log p).getD 0 = total log p := by
  unfold aggregate
  split
  · rfl
  · rename_i hnone
    symm
    refine Finset.sum_eq_zero fun k hk => ?_
    -- a key of the log that satisfies `p` would be a report of the row
    simp only [keys, Finset.mem_filter, List.mem_toFinset, List.mem_map] at hk
    obtain ⟨⟨r, hr, rfl⟩, hp⟩ := hk
    exact absurd ⟨r, hr, hp⟩ hnone

/-- A row changes only by a newer report that belongs to it. -/
theorem aggregate_cons_stale {log : List (Report κ τ)} {r : Report κ τ} {p : κ → Prop}
    [DecidablePred p] (h : p r.key → ¬ Fresh log r) :
    aggregate (r :: log) p = aggregate log p := by
  have hex : (∃ x ∈ r :: log, p x.key) ↔ ∃ x ∈ log, p x.key := by
    constructor
    · rintro ⟨x, hx, hp⟩
      cases List.mem_cons.mp hx with
      | inr hx => exact ⟨x, hx, hp⟩
      | inl hx =>
          -- the report is not newer, so its key has an earlier one
          subst hx
          have hstale := h hp
          simp only [Fresh, not_forall] at hstale
          obtain ⟨y, hy, hkey, -⟩ := hstale
          exact ⟨y, hy, hkey ▸ hp⟩
    · rintro ⟨x, hx, hp⟩
      exact ⟨x, List.mem_cons_of_mem _ hx, hp⟩
  unfold aggregate
  rw [total_cons_stale h]
  simp only [hex]

/-- A newer report adds its gain to the row, or starts it. -/
theorem aggregate_cons_fresh {log : List (Report κ τ)} {r : Report κ τ} {p : κ → Prop}
    [DecidablePred p] {gain : τ} (hp : p r.key) (hf : Fresh log r)
    (hle : highest log r.key ≤ r.totals) (hgain : highest log r.key + gain = r.totals) :
    aggregate (r :: log) p = some ((aggregate log p).getD 0 + gain) := by
  rw [total_of_aggregate, aggregate, if_pos ⟨r, List.mem_cons_self, hp⟩,
    total_cons_fresh hp hf hle hgain]

end Total

end Cumulative

import Mathlib.Data.List.Sort

/-!
# Blindport.Data.Paging

Going through the rows of a table page by page: each page is the first rows after a
cursor, in the order of their keys, and the cursor then stands at its last row.

* `le_last_iff` — what lies behind the new cursor is what lay behind the old one and the
  page, no row more and no row less;
* `covered_of_short` — behind a page that is not full there is nothing.
-/

namespace Paging

variable {α β : Type} [LinearOrder β] (key : α → β)

/-- The rows after the cursor, in the order of their keys. -/
def after (cursor : β) (rows : List α) : List α :=
  (rows.filter fun r => cursor < key r).insertionSort fun a b => key a ≤ key b

/-- The first page after the cursor. -/
def page (size : Nat) (cursor : β) (rows : List α) : List α := (after key cursor rows).take size

variable {key} {size : Nat} {cursor : β} {rows : List α} {r last : α}

theorem mem_after : r ∈ after key cursor rows ↔ r ∈ rows ∧ cursor < key r := by
  rw [after, List.mem_insertionSort, List.mem_filter, decide_eq_true_eq]

/-- The rows of a page are rows after the cursor. -/
theorem mem_of_mem_page (h : r ∈ page key size cursor rows) : r ∈ rows ∧ cursor < key r :=
  mem_after.mp (List.mem_of_mem_take h)

/-- No two rows have the same key, so the order is strict. -/
theorem pairwise_after (hnodup : (rows.map key).Nodup) :
    (after key cursor rows).Pairwise fun a b => key a < key b := by
  have hperm : (after key cursor rows).Perm (rows.filter fun r => cursor < key r) :=
    List.perm_insertionSort _ _
  have hkeys : ((after key cursor rows).map key).Nodup :=
    (hperm.map key).nodup_iff.mpr (hnodup.sublist (List.filter_sublist.map key))
  have hsorted : (after key cursor rows).Pairwise fun a b => key a ≤ key b :=
    List.pairwise_insertionSort _ _
  rw [List.Nodup, List.pairwise_map] at hkeys
  exact (hsorted.and hkeys).imp fun h => lt_of_le_of_ne h.1 h.2

theorem nodup_page (hnodup : (rows.map key).Nodup) :
    ((page key size cursor rows).map key).Nodup := by
  rw [List.Nodup, List.pairwise_map]
  exact ((pairwise_after hnodup).sublist (List.take_sublist ..)).imp fun h => h.ne

/-- The rows that are left come after those of the page. -/
theorem lt_of_mem_page (hnodup : (rows.map key).Nodup) {a : α} (ha : a ∈ page key size cursor rows)
    (hr : r ∈ rows) (hcursor : cursor < key r) (hpage : r ∉ page key size cursor rows) :
    key a < key r := by
  have hafter : r ∈ after key cursor rows := mem_after.mpr ⟨hr, hcursor⟩
  rw [← List.take_append_drop size (after key cursor rows), List.mem_append] at hafter
  have hdrop := hafter.resolve_left hpage
  have hsorted : (after key cursor rows).Pairwise fun a b => key a < key b :=
    pairwise_after hnodup
  rw [← List.take_append_drop size (after key cursor rows), List.pairwise_append] at hsorted
  exact hsorted.2.2 a ha r hdrop

/-- **What lies behind the new cursor** lay behind the old one or is on the page. -/
theorem le_last_iff (hnodup : (rows.map key).Nodup)
    (hlast : (page key size cursor rows).getLast? = some last) (hr : r ∈ rows) :
    key r ≤ key last ↔ key r ≤ cursor ∨ r ∈ page key size cursor rows := by
  have hmem := List.mem_of_getLast? hlast
  constructor
  · intro hle
    by_contra hnot
    rw [not_or, not_le] at hnot
    exact absurd hle (not_le.mpr (lt_of_mem_page hnodup hmem hr hnot.1 hnot.2))
  · rintro (hle | hpage)
    · exact hle.trans (mem_of_mem_page hmem).2.le
    · -- the last row of the page is the largest
      obtain ⟨front, hfront⟩ := List.getLast?_eq_some_iff.mp hlast
      have hsorted : (page key size cursor rows).Pairwise fun a b => key a < key b :=
        (pairwise_after hnodup).sublist (List.take_sublist size _)
      rw [hfront, List.pairwise_append] at hsorted
      rw [hfront, List.mem_append, List.mem_singleton] at hpage
      cases hpage with
      | inl hmem => exact (hsorted.2.2 r hmem last (List.mem_singleton_self last)).le
      | inr heq => rw [heq]

/-- **Behind a page that is not full** there is no row. -/
theorem covered_of_short (hshort : (page key size cursor rows).length < size) (hr : r ∈ rows) :
    key r ≤ cursor ∨ r ∈ page key size cursor rows := by
  by_cases hcursor : cursor < key r
  · right
    have hall : page key size cursor rows = after key cursor rows := by
      rw [page, List.take_of_length_le]
      rw [page, List.length_take] at hshort
      omega
    rw [hall]
    exact mem_after.mpr ⟨hr, hcursor⟩
  · exact Or.inl (not_lt.mp hcursor)

end Paging

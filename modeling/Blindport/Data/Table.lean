import Mathlib.Algebra.BigOperators.Group.List.Basic
import Mathlib.Algebra.Order.Monoid.Canonical.Defs
import Mathlib.Data.List.AList
import Mathlib.Tactic.Abel

/-!
# Blindport.Data.Table

Tables with one row per key, as finite maps (`AList`): many rows written or
deleted at once, and the rows of a table as a list.

* `lookup_eraseAll`, `lookup_insertAll` — what is found after many deletes or
  writes;
* `nodup_rows_map` — rows that are told apart by what is kept of them;
* `lookup_ofRows` — a table is recovered from its rows, in any order;
* `length_erase`, `length_insert`, `length_eraseAll`, `length_insertAll` — the number of
  rows;
* `total_erase`, `total_insert` — the sum of the rows;
* `rowsFit_cons` — bounded sums: items that add to rows of a table fit together
  exactly when they fit one after the other.
-/

namespace Table

variable {κ β : Type} [DecidableEq κ]

/-- The table without the rows of the given keys. -/
def eraseAll (ks : List κ) (t : AList fun _ : κ => β) : AList fun _ : κ => β :=
  ks.foldl (fun t k => t.erase k) t

theorem lookup_eraseAll (ks : List κ) (t : AList fun _ : κ => β) (k : κ) :
    (eraseAll ks t).lookup k = if k ∈ ks then none else t.lookup k := by
  induction ks generalizing t with
  | nil => simp [eraseAll]
  | cons k' ks ih =>
      rw [eraseAll, List.foldl_cons, ← eraseAll, ih]
      by_cases hk : k = k'
      · subst hk
        simp
      · simp [hk]

/-- The rows of a table. -/
def rows (t : AList fun _ : κ => β) : List (κ × β) := t.entries.map fun e => (e.1, e.2)

theorem mem_rows {t : AList fun _ : κ => β} {k : κ} {v : β} :
    (k, v) ∈ rows t ↔ t.lookup k = some v := by
  rw [← Option.mem_def, AList.mem_lookup_iff, rows, List.mem_map]
  constructor
  · rintro ⟨⟨k', v'⟩, hmem, heq⟩
    cases heq
    exact hmem
  · intro hmem
    exact ⟨⟨k, v⟩, hmem, rfl⟩

omit [DecidableEq κ] in
/-- There is one row for each key. -/
theorem nodup_rows (t : AList fun _ : κ => β) : ((rows t).map Prod.fst).Nodup := by
  have hkeys : (rows t).map Prod.fst = t.keys := by
    rw [rows, List.map_map]
    rfl
  rw [hkeys]
  exact t.keys_nodup

omit [DecidableEq κ] in
/-- Rows that are told apart by what is kept of them. -/
theorem nodup_rows_map {γ : Type} {t : AList fun _ : κ => β} {p : κ × β → Bool} {f : κ × β → γ}
    (hf : ∀ r ∈ rows t, ∀ r' ∈ rows t, p r → p r' → f r = f r' → r.1 = r'.1) :
    (((rows t).filter p).map f).Nodup := by
  have hrows : (rows t).Nodup := (nodup_rows t).of_map _
  refine (hrows.filter p).map_on fun r hr r' hr' heq => ?_
  obtain ⟨hmem, hp⟩ := List.mem_filter.mp hr
  obtain ⟨hmem', hp'⟩ := List.mem_filter.mp hr'
  exact List.inj_on_of_nodup_map (nodup_rows t) hmem hmem' (hf r hmem r' hmem' hp hp' heq)

/-- The table after writing the given rows, one after the other. -/
def insertAll (rs : List (κ × β)) (t : AList fun _ : κ => β) : AList fun _ : κ => β :=
  rs.foldl (fun t r => t.insert r.1 r.2) t

/-- Where the rows agree on each key, the order in which they are written is
not seen. -/
theorem lookup_insertAll {rs : List (κ × β)}
    (hrs : ∀ k v v', (k, v) ∈ rs → (k, v') ∈ rs → v = v') (t : AList fun _ : κ => β) (k : κ)
    (v : β) : (insertAll rs t).lookup k = some v ↔
      (k, v) ∈ rs ∨ (∀ v', (k, v') ∉ rs) ∧ t.lookup k = some v := by
  induction rs generalizing t with
  | nil => simp [insertAll]
  | cons r rs ih =>
      obtain ⟨k', v'⟩ := r
      rw [insertAll, List.foldl_cons, ← insertAll,
        ih fun k v v' h h' => hrs k v v' (List.mem_cons_of_mem _ h) (List.mem_cons_of_mem _ h')]
      by_cases hk : k = k'
      · subst hk
        have hsame : ∀ w, (k, w) ∈ rs → w = v' := fun w hw =>
          hrs k w v' (List.mem_cons_of_mem _ hw) List.mem_cons_self
        simp only [AList.lookup_insert, List.mem_cons, Prod.mk.injEq, true_and, Option.some.injEq]
        grind
      · simp only [AList.lookup_insert_ne hk, List.mem_cons, Prod.mk.injEq, hk, false_and, false_or]

/-- The rows of a table agree on each key. -/
theorem eq_of_mem_rows {t : AList fun _ : κ => β} {k : κ} {v v' : β} (h : (k, v) ∈ rows t)
    (h' : (k, v') ∈ rows t) : v = v' := by
  rw [mem_rows] at h h'
  rw [h] at h'
  exact Option.some.inj h'

/-- Writing one table's rows over another's. -/
theorem lookup_insertAll_rows (new t : AList fun _ : κ => β) (k : κ) :
    (insertAll (rows new) t).lookup k = (new.lookup k).or (t.lookup k) := by
  apply Option.ext
  intro v
  rw [lookup_insertAll fun _ _ _ => eq_of_mem_rows, mem_rows]
  cases hk : new.lookup k with
  | none => simp [mem_rows, hk]
  | some v' => simp [mem_rows, hk]

/-- The table with the given rows. -/
def ofRows (rs : List (κ × β)) : AList fun _ : κ => β := insertAll rs ∅

/-- **A table is recovered from its rows, in whatever order they are listed.** -/
theorem lookup_ofRows {t : AList fun _ : κ => β} {rs : List (κ × β)}
    (h : ∀ r, r ∈ rs ↔ r ∈ rows t) (k : κ) : (ofRows rs).lookup k = t.lookup k := by
  have hagree : ∀ k v v', (k, v) ∈ rs → (k, v') ∈ rs → v = v' := fun k v v' hv hv' =>
    eq_of_mem_rows ((h _).mp hv) ((h _).mp hv')
  apply Option.ext
  intro v
  rw [ofRows, lookup_insertAll hagree, h, mem_rows]
  simp

/-! ## the number of rows -/

/-- A row that is taken out is missing from the count. -/
theorem length_erase (t : AList fun _ : κ => β) (k : κ) :
    (t.erase k).entries.length + (if (t.lookup k).isSome then 1 else 0) = t.entries.length := by
  by_cases hk : k ∈ t
  · obtain ⟨b, l, l', -, hentries, herase⟩ := List.exists_of_kerase hk
    have htaken : (t.erase k).entries = l ++ l' := herase
    rw [if_pos (AList.lookup_isSome.mpr hk), htaken, hentries]
    simp only [List.length_append, List.length_cons]
    omega
  · have hlookup := AList.lookup_eq_none.mpr hk
    have hsame : (t.erase k).entries = t.entries := List.kerase_of_notMem_keys hk
    rw [hsame, hlookup]
    rfl

theorem length_insert (t : AList fun _ : κ => β) (k : κ) (v : β) :
    (t.insert k v).entries.length + (if (t.lookup k).isSome then 1 else 0) =
      t.entries.length + 1 := by
  rw [← length_erase t k, AList.entries_insert, List.length_cons]
  change (t.erase k).entries.length + 1 + _ = _
  omega

/-- Many rows taken out, each of them once. -/
theorem length_eraseAll {ks : List κ} (hnodup : ks.Nodup) {t : AList fun _ : κ => β}
    (hmem : ∀ k ∈ ks, (t.lookup k).isSome) :
    (eraseAll ks t).entries.length + ks.length = t.entries.length := by
  induction ks generalizing t with
  | nil => rfl
  | cons k ks ih =>
      obtain ⟨hk, hnodup⟩ := List.nodup_cons.mp hnodup
      have hrest : ∀ k' ∈ ks, ((t.erase k).lookup k').isSome := by
        intro k' hk'
        have hne : k' ≠ k := fun e => hk (e ▸ hk')
        rw [AList.lookup_erase_ne hne]
        exact hmem k' (List.mem_cons_of_mem k hk')
      have hone := length_erase t k
      rw [if_pos (hmem k List.mem_cons_self)] at hone
      have := ih hnodup hrest
      rw [eraseAll, List.foldl_cons, ← eraseAll, List.length_cons]
      omega

/-- Many rows written, one for each key: those of new keys are counted. -/
theorem length_insertAll {rs : List (κ × β)} (hnodup : (rs.map Prod.fst).Nodup)
    (t : AList fun _ : κ => β) :
    (insertAll rs t).entries.length =
      t.entries.length + (rs.map Prod.fst).countP fun k => k ∉ t := by
  induction rs generalizing t with
  | nil => rfl
  | cons r rs ih =>
      obtain ⟨hr, hnodup⟩ := List.nodup_cons.mp hnodup
      have hsame : ((rs.map Prod.fst).countP fun k => k ∉ t.insert r.1 r.2) =
          (rs.map Prod.fst).countP fun k => k ∉ t := by
        apply List.countP_congr
        intro k hk
        have hne : k ≠ r.1 := fun e => hr (e ▸ hk)
        simp [AList.mem_insert, hne]
      have hone := length_insert t r.1 r.2
      rw [insertAll, List.foldl_cons, ← insertAll, ih hnodup, hsame, List.map_cons,
        List.countP_cons]
      by_cases hmem : r.1 ∈ t
      · rw [if_pos (AList.lookup_isSome.mpr hmem)] at hone
        simp only [hmem, not_true_eq_false, decide_false, Bool.false_eq_true, if_false]
        omega
      · rw [if_neg (by simp [AList.lookup_isSome, hmem])] at hone
        simp only [hmem, not_false_eq_true, decide_true, if_true]
        omega

/-! ## the sum of a table -/

section Total

variable {τ : Type} [AddCommMonoid τ]

/-- The sum of the rows. -/
def total (t : AList fun _ : κ => τ) : τ := (t.entries.map Sigma.snd).sum

/-- A row that is taken out is missing from the sum. -/
theorem total_erase (t : AList fun _ : κ => τ) (k : κ) :
    total (t.erase k) + (t.lookup k).getD 0 = total t := by
  by_cases hk : k ∈ t
  · obtain ⟨b, l, l', -, hentries, herase⟩ := List.exists_of_kerase hk
    have hlookup : t.lookup k = some b := by
      rw [← Option.mem_def, AList.mem_lookup_iff, hentries]
      simp
    have htaken : (t.erase k).entries = l ++ l' := herase
    rw [total, total, htaken, hentries, hlookup, Option.getD_some]
    simp only [List.map_append, List.sum_append, List.map_cons, List.sum_cons]
    abel
  · have hlookup := AList.lookup_eq_none.mpr hk
    have hsame : (t.erase k).entries = t.entries := List.kerase_of_notMem_keys hk
    rw [total, total, hsame, hlookup, Option.getD_none, add_zero]

/-- A row that is written counts in place of the one before. -/
theorem total_insert (t : AList fun _ : κ => τ) (k : κ) (v : τ) :
    total (t.insert k v) = v + total (t.erase k) := by
  rw [total, AList.entries_insert, List.map_cons, List.sum_cons]
  rfl

end Total

/-! ## bounded sums -/

section Sums

variable {α τ : Type} [AddCommMonoid τ] [PartialOrder τ]

/-- Every row an item adds to has room for all the items that add to it. -/
def RowsFit (bound : τ) (row : α → κ) (gain : α → τ) (t : AList fun _ : κ => τ) (xs : List α) :
    Prop :=
  ∀ x ∈ xs, (t.lookup (row x)).getD 0 + ((xs.filter fun y => row y = row x).map gain).sum ≤ bound

/-- Only the gains of the items themselves are looked at. -/
theorem RowsFit.congr {bound : τ} {row : α → κ} {gain gain' : α → τ} {t : AList fun _ : κ => τ}
    {xs : List α} (h : RowsFit bound row gain t xs) (hgain : ∀ x ∈ xs, gain' x = gain x) :
    RowsFit bound row gain' t xs := by
  intro x hx
  have hmap : (xs.filter fun y => row y = row x).map gain' =
      (xs.filter fun y => row y = row x).map gain :=
    List.map_congr_left fun y hy => hgain y (List.mem_of_mem_filter hy)
  rw [hmap]
  exact h x hx

/-- **Items fit together exactly when they fit one after the other.** -/
theorem rowsFit_cons [CanonicallyOrderedAdd τ] {bound : τ} {row : α → κ} {gain : α → τ}
    {t : AList fun _ : κ => τ} {x : α} {xs : List α} : RowsFit bound row gain t (x :: xs) ↔
      (t.lookup (row x)).getD 0 + gain x ≤ bound ∧
      RowsFit bound row gain (t.insert (row x) ((t.lookup (row x)).getD 0 + gain x)) xs := by
  -- the sum of a row before the first item, and after it
  have hrow : ∀ y, ((t.insert (row x) ((t.lookup (row x)).getD 0 + gain x)).lookup
        (row y)).getD 0 + ((xs.filter fun z => row z = row y).map gain).sum =
      (t.lookup (row y)).getD 0 + (((x :: xs).filter fun z => row z = row y).map gain).sum := by
    intro y
    by_cases hy : row y = row x
    · rw [hy, AList.lookup_insert, List.filter_cons_of_pos (by simp), List.map_cons,
        List.sum_cons, Option.getD_some, add_assoc]
    · rw [AList.lookup_insert_ne hy, List.filter_cons_of_neg (by simpa using fun h => hy h.symm)]
  constructor
  · intro h
    refine ⟨?_, fun y hy => ?_⟩
    · have hx := h x List.mem_cons_self
      rw [List.filter_cons_of_pos (by simp), List.map_cons, List.sum_cons, ← add_assoc] at hx
      exact le_trans le_self_add hx
    · rw [hrow y]
      exact h y (List.mem_cons_of_mem _ hy)
  · rintro ⟨hx, hxs⟩ y hy
    rw [← hrow y]
    by_cases hmem : ∃ z ∈ xs, row z = row y
    · obtain ⟨z, hz, hzy⟩ := hmem
      have := hxs z hz
      rw [hzy] at this
      exact this
    · -- the first item is alone in its row
      have hnil : xs.filter (fun z => row z = row y) = [] := by
        rw [List.filter_eq_nil_iff]
        intro z hz hzy
        exact hmem ⟨z, hz, by simpa using hzy⟩
      cases List.mem_cons.mp hy with
      | inl heq =>
          subst heq
          rw [hnil, AList.lookup_insert]
          simpa using hx
      | inr hy => exact absurd ⟨y, hy, rfl⟩ hmem

end Sums

end Table

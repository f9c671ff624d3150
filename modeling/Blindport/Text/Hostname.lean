import Mathlib.Data.List.Infix
import Blindport.Text.Address

/-!
# Blindport.Text.Hostname

Host names as lists of labels.  `Covers base name` says that `base` is `name` or
one of its parents: the labels of `base` are the last labels of `name`.  The
programs that route by host name compare texts instead, and `covers_iff` says
that `name == base` or `name` ending in a dot and `base` is the same relation.

`searchSuffix` is the search for the longest registered parent, from the whole
name to its last label; `searchSuffix_spec` says which one it finds.
-/

namespace Hostname

/-! ## labels -/

/-- `strings.Split(name, ".")`. -/
def labels (name : String) : List (List Char) := name.toList.splitOn '.'

/-- `strings.Join(labels, ".")`. -/
def ofLabels (ls : List (List Char)) : String := String.ofList (['.'].intercalate ls)

@[simp] theorem ofLabels_labels (name : String) : ofLabels (labels name) = name := by
  rw [ofLabels, labels, List.intercalate_splitOn, String.ofList_toList]

theorem labels_injective {a b : String} (h : labels a = labels b) : a = b := by
  rw [← ofLabels_labels a, h, ofLabels_labels]

@[simp] theorem labels_ne_nil (name : String) : labels name ≠ [] :=
  List.splitOn_ne_nil '.' name.toList

theorem labels_ofLabels {ls : List (List Char)} (hls : ls ≠ []) (hdot : ∀ l ∈ ls, '.' ∉ l) :
    labels (ofLabels ls) = ls := by
  rw [labels, ofLabels, String.toList_ofList, List.splitOn_intercalate '.' hdot hls]

/-- A piece between two separators has no separator. -/
theorem not_mem_of_mem_splitOn {α : Type} [DecidableEq α] {a : α} {xs l : List α}
    (h : l ∈ xs.splitOn a) : a ∉ l := by
  induction xs generalizing l with
  | nil =>
      simp only [List.splitOn_nil, List.mem_singleton] at h
      simp [h]
  | cons x xs ih =>
      rw [List.splitOn_cons_eq_if_modifyHead] at h
      by_cases hx : x = a
      · simp only [hx, beq_self_eq_true, if_true, List.mem_cons] at h
        cases h with
        | inl h => simp [h]
        | inr h => exact ih h
      · rw [if_neg (by simpa using hx)] at h
        cases hsplit : xs.splitOn a with
        | nil => simp [hsplit] at h
        | cons l' ls =>
            simp only [hsplit, List.modifyHead_cons, List.mem_cons] at h ih
            cases h with
            | inl h =>
                have := ih (Or.inl rfl)
                simp only [h, List.mem_cons, not_or]
                exact ⟨fun e => hx e.symm, this⟩
            | inr h => exact ih (Or.inr h)

theorem dot_not_mem_label {name : String} {l : List Char} (h : l ∈ labels name) : '.' ∉ l :=
  not_mem_of_mem_splitOn h

/-- The last labels of a name are the labels of a name. -/
theorem labels_ofLabels_suffix {name : String} {ls : List (List Char)} (hls : ls ≠ [])
    (h : ls <:+ labels name) : labels (ofLabels ls) = ls := by
  apply labels_ofLabels hls
  intro l hl
  exact dot_not_mem_label (h.subset hl)

/-! ## covering -/

/-- `base` is `name` or a parent of it: its labels are the last ones of `name`. -/
def Covers (base name : String) : Prop := labels base <:+ labels name

instance (base name : String) : Decidable (Covers base name) :=
  inferInstanceAs (Decidable (labels base <:+ labels name))

theorem Covers.refl (name : String) : Covers name name := List.suffix_refl _

/-- The text form of `Covers`: equal, or ending in a dot and the base. -/
theorem covers_iff {base name : String} :
    Covers base name ↔ name = base ∨ '.' :: base.toList <:+ name.toList := by
  constructor
  · rintro ⟨front, h⟩
    cases front with
    | nil => exact Or.inl (labels_injective h.symm)
    | cons l front =>
        right
        have hname : name.toList = ['.'].intercalate ((l :: front) ++ labels base) := by
          rw [h, labels, List.intercalate_splitOn]
        have hbase : base.toList = ['.'].intercalate (labels base) := by
          rw [labels, List.intercalate_splitOn]
        -- the dot before `base` is the separator after the labels in front
        rw [hname, hbase, intercalate_append (by simp) (labels_ne_nil base)]
        exact List.suffix_append _ _
  · intro h
    cases h with
    | inl h => rw [h]; exact Covers.refl base
    | inr h =>
        obtain ⟨front, h⟩ := h
        refine ⟨front.splitOn '.', ?_⟩
        rw [labels, labels, ← h, List.splitOn_append_cons_self]

-- a base covers what is below it at a dot, not every text that ends in it
example : Covers "example.com" "a.b.example.com" ∧ ¬ Covers "example.com" "evilexample.com" := by
  decide

/-- A parent has no character that the name does not have. -/
theorem mem_of_covers {base name : String} {c : Char} (h : Covers base name)
    (hc : c ∈ base.toList) : c ∈ name.toList := by
  cases covers_iff.mp h with
  | inl h => rwa [h]
  | inr h => exact h.subset (List.mem_cons_of_mem _ hc)

/-! ## the longest parent -/

/-- The first of a list and its tails that passes: the whole list, then without
its first element, and so on. -/
def searchSuffix {α : Type} (p : List α → Bool) : List α → Option (List α)
  | [] => none
  | a :: as => if p (a :: as) then some (a :: as) else searchSuffix p as

/-- What `searchSuffix` returns: the longest nonempty suffix that passes, or
`none` when none does. -/
theorem searchSuffix_spec {α : Type} (p : List α → Bool) (ls : List α) :
    match searchSuffix p ls with
    | some s => s <:+ ls ∧ s ≠ [] ∧ p s = true ∧
        ∀ s', s' <:+ ls → s' ≠ [] → p s' = true → s' <:+ s
    | none => ∀ s', s' <:+ ls → s' ≠ [] → p s' = false := by
  induction ls with
  | nil =>
      intro s' hs hne
      exact absurd (List.suffix_nil.mp hs) hne
  | cons a as ih =>
      rw [searchSuffix]
      by_cases hp : p (a :: as) = true
      · rw [if_pos hp]
        exact ⟨List.suffix_refl _, by simp, hp, fun s' hs _ _ => hs⟩
      · rw [if_neg hp]
        cases hsearch : searchSuffix p as with
        | some s =>
            rw [hsearch] at ih
            obtain ⟨hs, hne, hps, hmax⟩ := ih
            refine ⟨hs.trans (List.suffix_cons a as), hne, hps, ?_⟩
            intro s' hs' hne' hp'
            cases List.suffix_cons_iff.mp hs' with
            | inl h => exact absurd (h ▸ hp') hp
            | inr h => exact hmax s' h hne' hp'
        | none =>
            rw [hsearch] at ih
            intro s' hs' hne'
            cases List.suffix_cons_iff.mp hs' with
            | inl h => rw [h]; exact Bool.eq_false_iff.mpr hp
            | inr h => exact ih s' h hne'

end Hostname

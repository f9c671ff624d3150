import Mathlib.Data.List.Nodup
import Blindport.Conc.Discipline
import Blindport.Conc.Store

/-!
# Blindport.Conc.Journal

A store under READ COMMITTED that keeps a record of what its sessions did.

A `Journal` holds rows under keys of any kind, as cells (`Conc.Store`), and the
events of its sessions, newest first.  A commit is an event: the rows it
publishes, all at once.  What the sessions may record is given by `Rules`:
`Allowed h i e` says when session `i` may record `e` after the history `h`.

The committed rows are those the history published last, and what a session
recorded itself and holds locked is changed by nobody else
(`Rules.stable_local`).  So a program is specified by its own trace, and what
holds of all histories follows from the rules alone (`Rules.Justified`).
-/

namespace Conc

namespace Cell

variable {R : Type}

/-- The value of session `s`, when it has the row. -/
def pendingOf (c : Cell R) (s : Nat) : Option R :=
  match c.pending with
  | some (t, r) => if t = s then some r else none
  | none => none

theorem pendingOf_eq_some {c : Cell R} {s : Nat} {r : R} :
    c.pendingOf s = some r ↔ c.pending = some (s, r) := by
  unfold pendingOf
  split
  · rename_i t r' hp
    rw [hp]
    by_cases ht : t = s <;> simp [ht]
  · rename_i hp
    simp [hp]

theorem view_eq (c : Cell R) (s : Nat) : c.view s = (c.pendingOf s).or c.committed := by
  unfold view pendingOf
  cases c.pending with
  | none => rfl
  | some p =>
      obtain ⟨t, r⟩ := p
      by_cases ht : t = s <;> simp [ht]

end Cell

/-- Rows under keys, the keys ever used, and the events of the sessions, newest
first. -/
structure Journal (κ R E : Type) where
  cell : κ → Cell R
  keys : List κ
  history : List (Nat × E)

namespace Journal

variable {κ R E : Type}

/-- The row a session sees. -/
def get (g : Journal κ R E) (i : Nat) (k : κ) : Option R := (g.cell k).view i

/-- Record an event. -/
def note (g : Journal κ R E) (i : Nat) (e : E) : Journal κ R E :=
  { g with history := (i, e) :: g.history }

/-- The rows a session has written. -/
def owned (g : Journal κ R E) (i : Nat) : List (κ × R) :=
  g.keys.filterMap fun k => ((g.cell k).pendingOf i).map fun r => (k, r)

/-- What a session has locked: the committed row and its own. -/
def held (g : Journal κ R E) (i : Nat) (k : κ) : Option (Option R × R) :=
  ((g.cell k).pendingOf i).map fun r => ((g.cell k).committed, r)

/-- A row is stored under a key, committed or not. -/
def Has (g : Journal κ R E) (k : κ) (r : R) : Prop :=
  (g.cell k).committed = some r ∨ ∃ j, (g.cell k).pending = some (j, r)

/-- Publish what a session has written; `published` is the event of that. -/
def commit (published : List (κ × R) → E) (g : Journal κ R E) (i : Nat) : Journal κ R E :=
  { g with
    cell := fun k => (g.cell k).commit i
    history := if (g.owned i).isEmpty then g.history else (i, published (g.owned i)) :: g.history }

/-- Drop what a session has written. -/
def rollback (g : Journal κ R E) (i : Nat) : Journal κ R E :=
  { g with cell := fun k => (g.cell k).rollback i }

/-- The events of one session. -/
def own (i : Nat) : List (Nat × E) → List E
  | [] => []
  | (j, e) :: h => if j = i then e :: own i h else own i h

@[simp] theorem own_cons_self (i : Nat) (e : E) (h : List (Nat × E)) :
    own i ((i, e) :: h) = e :: own i h := by
  simp [own]

@[simp] theorem own_cons_of_ne {i j : Nat} (hne : j ≠ i) (e : E) (h : List (Nat × E)) :
    own i ((j, e) :: h) = own i h := by
  simp [own, hne]

theorem mem_own {i : Nat} {e : E} {h : List (Nat × E)} : e ∈ own i h ↔ (i, e) ∈ h := by
  induction h with
  | nil => simp [own]
  | cons p h ih =>
      obtain ⟨j, e'⟩ := p
      by_cases hj : j = i
      · subst hj
        simp [ih]
      · simp [hj, ih, Ne.symm hj]

theorem mem_owned {g : Journal κ R E} {i : Nat} {k : κ} {r : R} :
    (k, r) ∈ g.owned i ↔ k ∈ g.keys ∧ (g.cell k).pending = some (i, r) := by
  simp only [owned, List.mem_filterMap, Option.map_eq_some_iff, Cell.pendingOf_eq_some,
    Prod.mk.injEq]
  constructor
  · rintro ⟨k', hk', r', hr', rfl, rfl⟩
    exact ⟨hk', hr'⟩
  · rintro ⟨hk, hr⟩
    exact ⟨k, hk, r, hr, rfl, rfl⟩

theorem own_append (i : Nat) (h₁ h₂ : List (Nat × E)) :
    own i (h₁ ++ h₂) = own i h₁ ++ own i h₂ := by
  induction h₁ with
  | nil => rfl
  | cons p h₁ ih =>
      obtain ⟨j, e⟩ := p
      by_cases hj : j = i
      · subst hj
        simp [ih]
      · simp [hj, ih]

/-- The last event of a session, and what came before it. -/
theorem own_eq_cons {i : Nat} {e : E} {es : List E} {h : List (Nat × E)}
    (heq : own i h = e :: es) :
    ∃ h₁ h₂, h = h₁ ++ (i, e) :: h₂ ∧ own i h₁ = [] ∧ own i h₂ = es := by
  induction h with
  | nil => simp [own] at heq
  | cons p h ih =>
      obtain ⟨j, e'⟩ := p
      by_cases hj : j = i
      · subst hj
        rw [own_cons_self, List.cons.injEq] at heq
        exact ⟨[], h, by rw [heq.1, List.nil_append], rfl, heq.2⟩
      · rw [own_cons_of_ne hj] at heq
        obtain ⟨h₁, h₂, rfl, hnil, hes⟩ := ih heq
        exact ⟨(j, e') :: h₁, h₂, rfl, by rw [own_cons_of_ne hj, hnil], hes⟩

variable [DecidableEq κ]

/-- Write a row; a key that is new is listed. -/
def write (g : Journal κ R E) (i : Nat) (k : κ) (r : R) : Journal κ R E :=
  { g with
    cell := Function.update g.cell k ((g.cell k).write i r)
    keys := if k ∈ g.keys then g.keys else g.keys ++ [k] }

/-- A row that may not stand beside another under a different key: `none` when it is
another session's to decide, else whether there is one.  A row the session itself is
changing counts as it was, too. -/
def clash (g : Journal κ R E) (i : Nat) (k : κ) (p : R → Bool) : Option Bool :=
  let others := g.keys.filter (· ≠ k)
  if others.any fun k' => (g.cell k').lockedByOther i &&
      ((g.cell k').committed.any p != (g.cell k').pending.any fun r => p r.2) then none
  else some (others.any fun k' => (g.cell k').committed.any p || (g.get i k').any p)

/-- The row of a key among published rows. -/
def rowOf (rows : List (κ × R)) (k : κ) : Option R := (rows.find? (·.1 = k)).map (·.2)

theorem mem_of_rowOf {rows : List (κ × R)} {k : κ} {r : R} (h : rowOf rows k = some r) :
    (k, r) ∈ rows := by
  unfold rowOf at h
  obtain ⟨p, hfind, rfl⟩ := Option.map_eq_some_iff.mp h
  have hkey : p.1 = k := by simpa using List.find?_some hfind
  rw [← hkey]
  exact List.mem_of_find?_eq_some hfind

theorem rowOf_eq_some {rows : List (κ × R)} {k : κ} {r : R}
    (hfun : ∀ r', (k, r') ∈ rows → r' = r) : rowOf rows k = some r ↔ (k, r) ∈ rows := by
  constructor
  · exact mem_of_rowOf
  · intro h
    cases hfind : rows.find? (·.1 = k) with
    | none => exact absurd (List.find?_eq_none.mp hfind _ h) (by simp)
    | some p =>
        have hkey : p.1 = k := by simpa using List.find?_some hfind
        have hmem := List.mem_of_find?_eq_some hfind
        obtain ⟨k', r'⟩ := p
        simp only at hkey
        subst hkey
        rw [rowOf, hfind, Option.map_some, hfun r' hmem]

/-- What a commit publishes under a key is what the session has there. -/
theorem rowOf_owned {g : Journal κ R E} {i : Nat} {k : κ}
    (hlisted : (g.cell k).pending ≠ none → k ∈ g.keys) :
    rowOf (g.owned i) k = (g.cell k).pendingOf i := by
  apply Option.ext
  intro r
  rw [Cell.pendingOf_eq_some]
  constructor
  · intro h
    exact (mem_owned.mp (mem_of_rowOf h)).2
  · intro h
    refine (rowOf_eq_some fun r' hr' => ?_).mpr (mem_owned.mpr ⟨hlisted (by simp [h]), h⟩)
    have hp := (mem_owned.mp hr').2
    rw [h] at hp
    simpa using hp.symm

/-- Nothing stands beside a row that clashes with nothing. -/
theorem clash_eq_false {g : Journal κ R E} {i : Nat} {k : κ} {p : R → Bool}
    (h : g.clash i k p = some false) {k' : κ} (hk' : k' ∈ g.keys) (hne : k' ≠ k) {r : R}
    (hr : g.Has k' r) : p r = false := by
  have hmem : k' ∈ g.keys.filter (· ≠ k) := by simp [hk', hne]
  simp only [clash] at h
  split at h
  · cases h
  rename_i hbusy
  simp only [Bool.not_eq_true, List.any_eq_false] at hbusy
  simp only [Option.some.injEq, List.any_eq_false] at h
  have hfree := hbusy k' hmem
  have hnone := h k' hmem
  simp only [Bool.or_eq_true, not_or, Bool.not_eq_true] at hnone
  obtain ⟨hcommitted, hseen⟩ := hnone
  cases hr with
  | inl hrow => simpa [hrow] using hcommitted
  | inr hrow =>
      obtain ⟨j, hrow⟩ := hrow
      by_cases hj : j = i
      · subst hj
        simpa [get, Cell.view_of_held hrow] using hseen
      · -- another session's row agrees with the committed one, which satisfies nothing
        have hlocked : (g.cell k').lockedByOther i = true := by simp [Cell.lockedByOther, hrow, hj]
        simpa [hlocked, hcommitted, hrow] using hfree

/-- Something stands beside a row that clashes. -/
theorem clash_eq_true {g : Journal κ R E} {i : Nat} {k : κ} {p : R → Bool}
    (h : g.clash i k p = some true) : ∃ r, p r = true := by
  simp only [clash] at h
  split at h
  · cases h
  simp only [Option.some.injEq, List.any_eq_true, Bool.or_eq_true, Option.any_eq_true] at h
  obtain ⟨k', -, hrow⟩ := h
  cases hrow with
  | inl hcommitted =>
      obtain ⟨r, -, hp⟩ := hcommitted
      exact ⟨r, hp⟩
  | inr hseen =>
      obtain ⟨r, -, hp⟩ := hseen
      exact ⟨r, hp⟩

theorem write_cell_self (g : Journal κ R E) (i : Nat) (k : κ) (r : R) :
    (g.write i k r).cell k = (g.cell k).write i r := by
  simp [write]

theorem write_cell_of_ne (g : Journal κ R E) (i : Nat) {k k' : κ} (hne : k' ≠ k) (r : R) :
    (g.write i k r).cell k' = g.cell k' := by
  simp [write, Function.update, hne]

theorem mem_write_keys {g : Journal κ R E} {i : Nat} {k k' : κ} {r : R} :
    k' ∈ (g.write i k r).keys ↔ k' ∈ g.keys ∨ k' = k := by
  simp only [write]
  split
  · rename_i hk
    constructor
    · exact .inl
    · rintro (h | rfl)
      · exact h
      · exact hk
  · simp

theorem has_write {g : Journal κ R E} {i : Nat} {k k' : κ} {r r' : R}
    (h : (g.write i k r).Has k' r') : g.Has k' r' ∨ (k' = k ∧ r' = r) := by
  by_cases hk : k' = k
  · subst hk
    rw [Has, write_cell_self] at h
    cases h with
    | inl hrow => exact .inl (.inl hrow)
    | inr hrow =>
        obtain ⟨j, hrow⟩ := hrow
        simp only [Cell.write_pending, Option.some.injEq, Prod.mk.injEq] at hrow
        exact .inr ⟨rfl, hrow.2.symm⟩
  · rw [Has, write_cell_of_ne g i hk] at h
    exact .inl h

/-- The rows of a store before its first session: one under each key, and none that may
not stand beside another. -/
structure Stored (κ R : Type) (rival : R → R → Bool) where
  rows : List (κ × R)
  nodup : (rows.map (·.1)).Nodup
  unique : ∀ k k' r r', (k, r) ∈ rows → (k', r') ∈ rows → k ≠ k' → rival r r' = false

/-- A store with the given rows and nothing on record. -/
def ofStored {rival : R → R → Bool} (stored : Stored κ R rival) : Journal κ R E where
  cell k := ⟨rowOf stored.rows k, none⟩
  keys := stored.rows.map (·.1)
  history := []

end Journal

/-! ## rules -/

/-- How rows are published: the rows of an event that is a commit, and the rows of the
start. -/
structure Feed (κ R E : Type) where
  publication : E → Option (List (κ × R))
  init : κ → Option R

/-- The row a history published last under a key. -/
def Feed.committedAt {κ R E : Type} [DecidableEq κ] (feed : Feed κ R E) :
    List (Nat × E) → κ → Option R
  | [], k => feed.init k
  | (_, e) :: h, k =>
      match feed.publication e with
      | some rows => (Journal.rowOf rows k).or (feed.committedAt h k)
      | none => feed.committedAt h k

/-- A row that was published is there. -/
theorem Feed.committedAt_of_mem {κ R E : Type} [DecidableEq κ] {feed : Feed κ R E}
    {h : List (Nat × E)} {i : Nat} {e : E} {rows : List (κ × R)} {k : κ}
    (hrows : feed.publication e = some rows) (hk : Journal.rowOf rows k ≠ none)
    (hmem : (i, e) ∈ h) : feed.committedAt h k ≠ none := by
  induction h with
  | nil => cases hmem
  | cons p h ih =>
      obtain ⟨j, e'⟩ := p
      rw [committedAt]
      cases List.mem_cons.mp hmem with
      | inl heq =>
          cases heq
          rw [hrows]
          simp [hk]
      | inr hmem =>
          split
          · simp [ih hmem]
          · exact ih hmem

/-- What may happen: the events a session may record after a history, and the rows that
may not stand beside each other. -/
structure Rules (κ R E : Type) extends Feed κ R E where
  Allowed : List (Nat × E) → Nat → E → Prop
  rival : R → R → Bool
  rival_symm : ∀ r r', rival r r' = rival r' r

namespace Rules

open Journal

variable {κ R E : Type} [DecidableEq κ] (rules : Rules κ R E)

/-- Every event of a history was allowed after those before it. -/
def Justified : List (Nat × E) → Prop
  | [] => True
  | (i, e) :: h => rules.Allowed h i e ∧ Justified h

omit [DecidableEq κ] in
theorem Justified.allowed {rules : Rules κ R E} {h₁ h₂ : List (Nat × E)} {i : Nat} {e : E}
    (h : rules.Justified (h₁ ++ (i, e) :: h₂)) : rules.Allowed h₂ i e := by
  induction h₁ with
  | nil => exact h.1
  | cons p h₁ ih => exact ih h.2

omit [DecidableEq κ] in
theorem Justified.suffix {rules : Rules κ R E} {h₁ h₂ : List (Nat × E)}
    (h : rules.Justified (h₁ ++ h₂)) : rules.Justified h₂ := by
  induction h₁ with
  | nil => exact h
  | cons p h₁ ih => exact ih h.2

/-- What every state of a run satisfies. -/
structure Inv (g : Journal κ R E) : Prop where
  committed : ∀ k, (g.cell k).committed = rules.committedAt g.history k
  listed : ∀ k r, g.Has k r → k ∈ g.keys
  nodup : g.keys.Nodup
  justified : rules.Justified g.history
  unique : ∀ k k' r r', k ≠ k' → g.Has k r → g.Has k' r' → rules.rival r r' = false

/-- What a session may do. -/
inductive Basic (i : Nat) : Journal κ R E → Journal κ R E → Prop where
  | note {g : Journal κ R E} {e : E} (hkind : rules.publication e = none)
      (hallowed : rules.Allowed g.history i e) : Basic i g (g.note i e)
  | write {g : Journal κ R E} {k : κ} {r : R} (hfree : (g.cell k).lockedByOther i = false)
      (hrivals : ∀ k' r', k' ≠ k → g.Has k' r' → rules.rival r r' = false) :
      Basic i g (g.write i k r)
  | commit {g : Journal κ R E} {published : List (κ × R) → E}
      (hkind : rules.publication (published (g.owned i)) = some (g.owned i))
      (hallowed : g.owned i ≠ [] → rules.Allowed g.history i (published (g.owned i))) :
      Basic i g (g.commit published i)
  | rollback {g : Journal κ R E} : Basic i g (g.rollback i)

variable {rules}

/-- A store with the rows of the start keeps the rules. -/
theorem inv_ofStored (stored : Stored κ R rules.rival) (hinit : rules.init = rowOf stored.rows) :
    rules.Inv (ofStored stored) where
  committed k := (congrFun hinit k).symm
  listed k r hr := by
    cases hr with
    | inl hrow => exact List.mem_map.mpr ⟨(k, r), mem_of_rowOf hrow, rfl⟩
    | inr hrow =>
        obtain ⟨j, hrow⟩ := hrow
        cases hrow
  nodup := stored.nodup
  justified := trivial
  unique k k' r r' hne hr hr' := by
    cases hr with
    | inl hrow =>
        cases hr' with
        | inl hrow' =>
            exact stored.unique k k' r r' (mem_of_rowOf hrow) (mem_of_rowOf hrow') hne
        | inr hrow' =>
            obtain ⟨j, hrow'⟩ := hrow'
            cases hrow'
    | inr hrow =>
        obtain ⟨j, hrow⟩ := hrow
        cases hrow

theorem Inv.listed_pending {g : Journal κ R E} (h : rules.Inv g) {k : κ}
    (hk : (g.cell k).pending ≠ none) : k ∈ g.keys := by
  cases hp : (g.cell k).pending with
  | none => exact absurd hp hk
  | some p => exact h.listed k p.2 (.inr ⟨p.1, hp⟩)

theorem Inv.note {g : Journal κ R E} {i : Nat} {e : E} (h : rules.Inv g)
    (hkind : rules.publication e = none) (hallowed : rules.Allowed g.history i e) :
    rules.Inv (g.note i e) where
  committed k := by
    rw [Journal.note, Feed.committedAt, hkind]
    exact h.committed k
  listed := h.listed
  nodup := h.nodup
  justified := ⟨hallowed, h.justified⟩
  unique := h.unique

theorem Inv.write {g : Journal κ R E} {i : Nat} {k : κ} {r : R} (h : rules.Inv g)
    (hrivals : ∀ k' r', k' ≠ k → g.Has k' r' → rules.rival r r' = false) :
    rules.Inv (g.write i k r) where
  committed k' := by
    have hrow : ((g.write i k r).cell k').committed = (g.cell k').committed := by
      by_cases hk : k' = k
      · subst hk
        rw [write_cell_self]
        rfl
      · rw [write_cell_of_ne g i hk]
    rw [hrow]
    exact h.committed k'
  listed k' r' hr := by
    rw [mem_write_keys]
    cases has_write hr with
    | inl hr => exact .inl (h.listed k' r' hr)
    | inr hr => exact .inr hr.1
  nodup := by
    simp only [Journal.write]
    split
    · exact h.nodup
    · rename_i hk
      exact List.Nodup.append h.nodup (List.nodup_singleton k) (by simpa using hk)
  justified := h.justified
  unique k₁ k₂ r₁ r₂ hne h₁ h₂ := by
    cases has_write h₁ with
    | inl old₁ =>
        cases has_write h₂ with
        | inl old₂ => exact h.unique k₁ k₂ r₁ r₂ hne old₁ old₂
        | inr new₂ =>
            obtain ⟨rfl, rfl⟩ := new₂
            rw [rules.rival_symm]
            exact hrivals k₁ r₁ hne old₁
    | inr new₁ =>
        obtain ⟨rfl, rfl⟩ := new₁
        cases has_write h₂ with
        | inl old₂ => exact hrivals k₂ r₂ (Ne.symm hne) old₂
        | inr new₂ => exact absurd new₂.1.symm hne

omit [DecidableEq κ] in
theorem has_commit {published : List (κ × R) → E} {g : Journal κ R E} {i : Nat} {k : κ} {r : R}
    (h : (g.commit published i).Has k r) : g.Has k r := by
  simp only [Has, Journal.commit] at h
  cases h with
  | inl hrow =>
      rw [Cell.commit_committed, Cell.view_eq] at hrow
      cases hp : (g.cell k).pendingOf i with
      | none => exact .inl (by simpa [hp] using hrow)
      | some r' =>
          rw [hp, Option.some_or, Option.some.injEq] at hrow
          exact .inr ⟨i, hrow ▸ Cell.pendingOf_eq_some.mp hp⟩
  | inr hrow =>
      obtain ⟨j, hrow⟩ := hrow
      exact .inr ⟨j, (Cell.commit_pending (g.cell k) i).mp hrow |>.1⟩

theorem Inv.commit {g : Journal κ R E} {i : Nat} {published : List (κ × R) → E} (h : rules.Inv g)
    (hkind : rules.publication (published (g.owned i)) = some (g.owned i))
    (hallowed : g.owned i ≠ [] → rules.Allowed g.history i (published (g.owned i))) :
    rules.Inv (g.commit published i) where
  committed k := by
    have hrow := rowOf_owned (i := i) (g := g) (k := k) h.listed_pending
    have hview : ((g.commit published i).cell k).committed =
        (rowOf (g.owned i) k).or (rules.committedAt g.history k) := by
      simp only [Journal.commit]
      rw [Cell.commit_committed, Cell.view_eq, hrow, h.committed k]
    rw [hview]
    simp only [Journal.commit]
    split
    · rename_i hnil
      rw [List.isEmpty_iff.mp hnil]
      rfl
    · rw [Feed.committedAt, hkind]
  listed k r hr := h.listed k r (has_commit hr)
  nodup := h.nodup
  justified := by
    simp only [Journal.commit]
    split
    · exact h.justified
    · rename_i hnil
      exact ⟨hallowed (by simpa [List.isEmpty_iff] using hnil), h.justified⟩
  unique k k' r r' hne hr hr' := h.unique k k' r r' hne (has_commit hr) (has_commit hr')

omit [DecidableEq κ] in
theorem has_rollback {g : Journal κ R E} {i : Nat} {k : κ} {r : R} (h : (g.rollback i).Has k r) :
    g.Has k r := by
  simp only [Has, Journal.rollback, Cell.rollback_committed] at h
  cases h with
  | inl hrow => exact .inl hrow
  | inr hrow =>
      obtain ⟨j, hrow⟩ := hrow
      exact .inr ⟨j, (Cell.rollback_pending (g.cell k) i).mp hrow |>.1⟩

theorem Inv.rollback {g : Journal κ R E} {i : Nat} (h : rules.Inv g) :
    rules.Inv (g.rollback i) where
  committed k := by
    simp only [Journal.rollback, Cell.rollback_committed]
    exact h.committed k
  listed k r hr := h.listed k r (has_rollback hr)
  nodup := h.nodup
  justified := h.justified
  unique k k' r r' hne hr hr' := h.unique k k' r r' hne (has_rollback hr) (has_rollback hr')

theorem Basic.inv {i : Nat} {g g' : Journal κ R E} (hstep : rules.Basic i g g')
    (h : rules.Inv g) : rules.Inv g' := by
  cases hstep with
  | note hkind hallowed => exact h.note hkind hallowed
  | write hfree hrivals => exact h.write hrivals
  | commit hkind hallowed => exact h.commit hkind hallowed
  | rollback => exact h.rollback

variable (rules) in
/-- Sessions that keep to the rules. -/
def discipline : Discipline (Journal κ R E) where
  Inv := rules.Inv
  Move i := Relation.ReflTransGen (rules.Basic i)
  preserved := by
    intro i g g' h hmove
    induction hmove with
    | refl => exact h
    | tail _ hstep ih => exact hstep.inv ih

theorem Basic.own_of_ne {i j : Nat} {g g' : Journal κ R E} (hne : j ≠ i)
    (hstep : rules.Basic j g g') : own i g'.history = own i g.history := by
  cases hstep with
  | note hkind hallowed => exact own_cons_of_ne hne _ _
  | write hfree hrivals => rfl
  | commit hkind hallowed =>
      simp only [Journal.commit]
      split
      · rfl
      · exact own_cons_of_ne hne _ _
  | rollback => rfl

omit [DecidableEq κ] in
theorem held_congr {i : Nat} {g g' : Journal κ R E} {k : κ}
    (hpending : ∀ r, (g'.cell k).pending = some (i, r) ↔ (g.cell k).pending = some (i, r))
    (hcommitted : ∀ r, (g.cell k).pending = some (i, r) →
      (g'.cell k).committed = (g.cell k).committed) : g'.held i k = g.held i k := by
  have hsame : (g'.cell k).pendingOf i = (g.cell k).pendingOf i := by
    apply Option.ext
    intro r
    rw [Cell.pendingOf_eq_some, Cell.pendingOf_eq_some]
    exact hpending r
  unfold held
  rw [hsame]
  cases hp : (g.cell k).pendingOf i with
  | none => rfl
  | some r => rw [Option.map_some, Option.map_some, hcommitted r (Cell.pendingOf_eq_some.mp hp)]

/-- What a session has locked nobody else changes. -/
theorem Basic.held_of_ne {i j : Nat} {g g' : Journal κ R E} (hne : j ≠ i)
    (hstep : rules.Basic j g g') : g'.held i = g.held i := by
  funext k
  cases hstep with
  | note hkind hallowed => rfl
  | @write k' r' hfree hrivals =>
      by_cases hk : k = k'
      · subst hk
        refine held_congr (fun r => ?_) (fun r _ => ?_)
        · rw [write_cell_self, Cell.write_pending]
          have hfree := Cell.lockedByOther_eq_false.mp hfree
          constructor
          · intro h
            simp [hne] at h
          · intro h
            rw [h] at hfree
            simp [Ne.symm hne] at hfree
        · rw [write_cell_self, Cell.write_committed]
      · exact held_congr (fun r => by rw [write_cell_of_ne _ _ hk])
          (fun r _ => by rw [write_cell_of_ne _ _ hk])
  | commit hkind hallowed =>
      refine held_congr (fun r => ?_) (fun r hr => ?_)
      · simp only [Journal.commit, Cell.commit_pending]
        exact ⟨fun h => h.1, fun h => ⟨h, Ne.symm hne⟩⟩
      · simp only [Journal.commit]
        rw [Cell.commit_of_not_held]
        intro r' hr'
        rw [hr, Option.some.injEq, Prod.mk.injEq] at hr'
        exact hne hr'.1.symm
  | rollback =>
      refine held_congr (fun r => ?_) (fun r hr => ?_)
      · simp only [Journal.rollback, Cell.rollback_pending]
        exact ⟨fun h => h.1, fun h => ⟨h, Ne.symm hne⟩⟩
      · simp only [Journal.rollback, Cell.rollback_committed]

/-- A session knows what it recorded itself and what it has locked. -/
theorem stable_local {i : Nat} (T : List E → (κ → Option (Option R × R)) → Prop) :
    rules.discipline.Stable i fun g => T (own i g.history) (g.held i) := by
  intro j g g' hne hinv hmove h
  change Relation.ReflTransGen (rules.Basic j) g g' at hmove
  clear hinv
  induction hmove with
  | refl => exact h
  | tail _ hstep ih =>
      rw [hstep.own_of_ne hne, hstep.held_of_ne hne]
      exact ih

end Rules

end Conc

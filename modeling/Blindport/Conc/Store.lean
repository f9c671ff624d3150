import Mathlib.Logic.Function.Basic

/-!
# Blindport.Conc.Store

Tables of rows under READ COMMITTED.

A row has a committed value and, while some session has it locked, that
session's own value.  A session sees its own value where it has one and the
committed value elsewhere.  An update waits while another session has the row,
and looks at the row as it is when it gets it.  A commit publishes the
session's values, a rollback drops them.

`Cell.Step` is everything a session can do to one row; with a preorder `T` on
rows, writes along `T` move the committed values along `T` (`Cell.Step.ordered`,
`Cell.Step.le`).
-/

namespace Conc

/-- One row: the committed value, and the value of the session that has the
row locked. -/
@[ext]
structure Cell (R : Type) where
  committed : Option R
  pending : Option (Nat × R)

namespace Cell

variable {R : Type}

/-- What session `s` sees. -/
def view (c : Cell R) (s : Nat) : Option R :=
  match c.pending with
  | some (t, r) => if t = s then some r else c.committed
  | none => c.committed

/-- Another session has the row. -/
def lockedByOther (c : Cell R) (s : Nat) : Bool :=
  match c.pending with
  | some (t, _) => t ≠ s
  | none => false

/-- Session `s` locks the row with a value. -/
def write (c : Cell R) (s : Nat) (r : R) : Cell R := { c with pending := some (s, r) }

/-- Publish the value of session `s`. -/
def commit (c : Cell R) (s : Nat) : Cell R :=
  match c.pending with
  | some (t, r) => if t = s then ⟨some r, none⟩ else c
  | none => c

/-- Drop the value of session `s`. -/
def rollback (c : Cell R) (s : Nat) : Cell R :=
  match c.pending with
  | some (t, _) => if t = s then ⟨c.committed, none⟩ else c
  | none => c

@[simp] theorem view_of_held {c : Cell R} {s : Nat} {r : R} (h : c.pending = some (s, r)) :
    c.view s = some r := by
  simp [view, h]

theorem view_of_not_held {c : Cell R} {s : Nat} (h : ∀ r, c.pending ≠ some (s, r)) :
    c.view s = c.committed := by
  unfold view
  split
  · rename_i t r hp
    have hne : t ≠ s := fun e => h r (e ▸ hp)
    simp [hne]
  · rfl

theorem lockedByOther_eq_false {c : Cell R} {s : Nat} :
    c.lockedByOther s = false ↔ c.pending = none ∨ ∃ r, c.pending = some (s, r) := by
  unfold lockedByOther
  split
  · rename_i t r hp
    simp only [decide_not, Bool.not_eq_false', decide_eq_true_eq, hp, reduceCtorEq,
      Option.some.injEq, Prod.mk.injEq, false_or]
    constructor
    · rintro rfl
      exact ⟨r, rfl, rfl⟩
    · rintro ⟨_, h, -⟩
      exact h
  · rename_i hp
    simp [hp]

@[simp] theorem commit_of_held {c : Cell R} {s : Nat} {r : R} (h : c.pending = some (s, r)) :
    c.commit s = ⟨some r, none⟩ := by
  simp [commit, h]

theorem commit_of_not_held {c : Cell R} {s : Nat} (h : ∀ r, c.pending ≠ some (s, r)) :
    c.commit s = c := by
  unfold commit
  split
  · rename_i t r hp
    have hne : t ≠ s := fun e => h r (e ▸ hp)
    simp [hne]
  · rfl

/-- What a session sees of a row is what its commit leaves. -/
theorem commit_committed (c : Cell R) (s : Nat) : (c.commit s).committed = c.view s := by
  unfold commit view
  split
  · rename_i t r hp
    split <;> simp_all
  · rfl

theorem commit_pending (c : Cell R) (s : Nat) {t : Nat} {r : R} :
    (c.commit s).pending = some (t, r) ↔ c.pending = some (t, r) ∧ t ≠ s := by
  unfold commit
  split
  · rename_i t' r' hp
    split
    · simp_all
    · rename_i hne
      constructor
      · intro h
        rw [hp, Option.some.injEq, Prod.mk.injEq] at h
        exact ⟨hp.trans (by rw [h.1, h.2]), h.1 ▸ hne⟩
      · exact fun h => h.1
  · simp_all

@[simp] theorem rollback_committed (c : Cell R) (s : Nat) :
    (c.rollback s).committed = c.committed := by
  unfold rollback
  split
  · split <;> rfl
  · rfl

theorem rollback_pending (c : Cell R) (s : Nat) {t : Nat} {r : R} :
    (c.rollback s).pending = some (t, r) ↔ c.pending = some (t, r) ∧ t ≠ s := by
  unfold rollback
  split
  · rename_i t' r' hp
    split
    · simp_all
    · rename_i hne
      constructor
      · intro h
        rw [hp, Option.some.injEq, Prod.mk.injEq] at h
        exact ⟨hp.trans (by rw [h.1, h.2]), h.1 ▸ hne⟩
      · exact fun h => h.1
  · simp_all

@[simp] theorem write_committed (c : Cell R) (s : Nat) (r : R) :
    (c.write s r).committed = c.committed := rfl

@[simp] theorem write_pending (c : Cell R) (s : Nat) (r : R) :
    (c.write s r).pending = some (s, r) := rfl

/-! ## what the sessions see -/

/-- Only the session that writes sees it. -/
theorem write_view {c : Cell R} {s : Nat} (hfree : c.lockedByOther s = false) (r : R) (i : Nat) :
    (c.write s r).view i = if i = s then some r else c.view i := by
  by_cases e : i = s
  · simp [write, view, e]
  · have hview : c.view i = c.committed := by
      refine view_of_not_held fun r' hr' => ?_
      rcases lockedByOther_eq_false.mp hfree with hn | ⟨t, ht⟩
      · simp [hn] at hr'
      · rw [hr', Option.some.injEq, Prod.mk.injEq] at ht
        exact e ht.1
    rw [if_neg e, hview]
    simp [write, view, Ne.symm e]

/-- A commit shows everybody what its session saw, or nothing new. -/
theorem commit_view (c : Cell R) (s i : Nat) :
    (c.commit s).view i = c.view s ∨ (c.commit s).view i = c.view i := by
  by_cases h : ∃ r, c.pending = some (s, r)
  · obtain ⟨r, hr⟩ := h
    left
    rw [commit_of_held hr, view_of_held hr]
    rfl
  · right
    rw [commit_of_not_held fun r hr => h ⟨r, hr⟩]

/-- A rollback takes its session back to what is committed. -/
theorem rollback_view (c : Cell R) (s i : Nat) :
    (c.rollback s).view i = if i = s then c.committed else c.view i := by
  cases hp : c.pending with
  | none => simp [rollback, view, hp]
  | some held =>
      obtain ⟨t, r⟩ := held
      by_cases e : t = s
      · by_cases ei : i = s
        · simp [rollback, view, hp, e, ei]
        · simp [rollback, view, hp, e, ei, Ne.symm ei]
      · by_cases ei : i = s
        · simp [rollback, view, hp, e, ei]
        · simp [rollback, view, hp, e, ei]

/-- Some session sees no more than what is committed in either row. -/
theorem exists_reader {S : Type} (c : Cell R) (d : Cell S) :
    ∃ s, c.view s = c.committed ∧ d.view s = d.committed := by
  obtain ⟨s, hs⟩ : ∃ s, (∀ r, c.pending ≠ some (s, r)) ∧ ∀ r, d.pending ≠ some (s, r) := by
    refine ⟨(c.pending.elim 0 (·.1)) + (d.pending.elim 0 (·.1)) + 1, fun r hr => ?_, fun r hr => ?_⟩
    · have := congrArg (·.elim 0 (·.1)) hr
      simp only [Option.elim_some] at this
      omega
    · have := congrArg (·.elim 0 (·.1)) hr
      simp only [Option.elim_some] at this
      omega
  exact ⟨s, view_of_not_held hs.1, view_of_not_held hs.2⟩

/-- What is seen after a rollback was seen before it, if by another session. -/
theorem exists_view_of_rollback (c : Cell R) (s i : Nat) :
    ∃ j, (c.rollback s).view i = c.view j := by
  obtain ⟨j, hj, -⟩ := exists_reader c c
  by_cases e : i = s
  · exact ⟨j, by rw [rollback_view, if_pos e, hj]⟩
  · exact ⟨i, by rw [rollback_view, if_neg e]⟩

/-- Everything session `s` can do to a row; its writes satisfy `W` from what
it saw to what it leaves. -/
inductive Step (s : Nat) (W : Option R → R → Prop) : Cell R → Cell R → Prop where
  | same (c : Cell R) : Step s W c c
  | write {c : Cell R} {r : R} (hfree : c.lockedByOther s = false) (hW : W (c.view s) r) :
      Step s W c (c.write s r)
  | commit {c : Cell R} {r : R} (h : c.pending = some (s, r)) : Step s W c ⟨some r, none⟩
  | rollback {c : Cell R} {r : R} (h : c.pending = some (s, r)) : Step s W c ⟨c.committed, none⟩

theorem step_commit {s : Nat} {W : Option R → R → Prop} (c : Cell R) :
    Step s W c (c.commit s) := by
  unfold Cell.commit
  split
  · rename_i t r hp
    split
    · rename_i e
      subst e
      exact .commit hp
    · exact .same c
  · exact .same c

theorem step_rollback {s : Nat} {W : Option R → R → Prop} (c : Cell R) :
    Step s W c (c.rollback s) := by
  unfold Cell.rollback
  split
  · rename_i t r hp
    split
    · rename_i e
      subst e
      exact .rollback hp
    · exact .same c
  · exact .same c

/-- No other session changes a row that `j` has, nor acts in its name. -/
theorem Step.foreign {s j : Nat} {W : Option R → R → Prop} {c c' : Cell R} (h : Step s W c c')
    (hne : s ≠ j) (r : R) : c.pending = some (j, r) → c' = c := by
  intro hp
  cases h with
  | same => rfl
  | write hfree hW =>
      rcases lockedByOther_eq_false.mp hfree with hn | ⟨r', hr'⟩
      · simp [hn] at hp
      · simp only [hr', Option.some.injEq, Prod.mk.injEq] at hp
        exact absurd hp.1 hne
  | commit h =>
      simp only [h, Option.some.injEq, Prod.mk.injEq] at hp
      exact absurd hp.1 hne
  | rollback h =>
      simp only [h, Option.some.injEq, Prod.mk.injEq] at hp
      exact absurd hp.1 hne

theorem Step.foreign_pending {s j : Nat} {W : Option R → R → Prop} {c c' : Cell R}
    (h : Step s W c c') (hne : s ≠ j) (r : R) :
    c'.pending = some (j, r) → c.pending = some (j, r) := by
  intro hp
  cases h with
  | same => exact hp
  | write hfree hW =>
      simp only [Cell.write, Option.some.injEq, Prod.mk.injEq] at hp
      exact absurd hp.1 hne
  | commit h => simp at hp
  | rollback h => simp at hp

/-! ## rows under a preorder -/

/-- Rows appear and move along `T`; they never disappear. -/
def Le (T : R → R → Prop) : Option R → Option R → Prop
  | none, _ => True
  | some _, none => False
  | some a, some b => T a b

theorem Le.refl {T : R → R → Prop} (hT : ∀ a, T a a) (o : Option R) : Le T o o := by
  cases o with
  | none => trivial
  | some a => exact hT a

theorem Le.of_some {T : R → R → Prop} {a : R} {o : Option R} (h : Le T (some a) o) :
    ∃ b, o = some b ∧ T a b := by
  cases o with
  | none => exact absurd h id
  | some b => exact ⟨b, rfl, h⟩

theorem Le.trans {T : R → R → Prop} (hT : ∀ a b c, T a b → T b c → T a c) {o₁ o₂ o₃ : Option R}
    (h₁ : Le T o₁ o₂) (h₂ : Le T o₂ o₃) : Le T o₁ o₃ := by
  cases o₁ with
  | none => trivial
  | some a =>
      cases o₂ with
      | none => exact absurd h₁ id
      | some b =>
          cases o₃ with
          | none => exact absurd h₂ id
          | some c => exact hT a b c h₁ h₂

/-- What a locked row holds is ahead of what is committed. -/
def Ordered (T : R → R → Prop) (c : Cell R) : Prop :=
  ∀ s r, c.pending = some (s, r) → Le T c.committed (some r)

theorem Ordered.le_view {T : R → R → Prop} (hT : ∀ a, T a a) {c : Cell R} (h : c.Ordered T)
    (s : Nat) : Le T c.committed (c.view s) := by
  unfold view
  split
  · rename_i t r hp
    split
    · exact h t r hp
    · exact Le.refl hT _
  · exact Le.refl hT _

/-- What a session sees is no older after a commit, nor older than what is published. -/
theorem Ordered.le_commit {T : R → R → Prop} (hT : ∀ a, T a a) {c : Cell R} (h : c.Ordered T)
    (s i : Nat) :
    Le T (c.view i) ((c.commit s).view i) ∧ Le T (c.view s) ((c.commit s).view i) := by
  by_cases hheld : ∃ r, c.pending = some (s, r)
  · obtain ⟨r, hr⟩ := hheld
    have hview : (c.commit s).view i = some r := by
      rw [commit_of_held hr]
      rfl
    rw [hview, view_of_held hr]
    refine ⟨?_, hT r⟩
    by_cases e : i = s
    · rw [e, view_of_held hr]
      exact hT r
    · have hnot : ∀ r', c.pending ≠ some (i, r') := fun r' hr' => by
        rw [hr, Option.some.injEq, Prod.mk.injEq] at hr'
        exact e hr'.1.symm
      rw [view_of_not_held hnot]
      exact h s r hr
  · have hnot : ∀ r, c.pending ≠ some (s, r) := fun r hr => hheld ⟨r, hr⟩
    rw [commit_of_not_held hnot, view_of_not_held hnot]
    exact ⟨Le.refl hT _, h.le_view hT i⟩

theorem Step.le {T : R → R → Prop} (hrefl : ∀ a, T a a) {s : Nat} {W : Option R → R → Prop}
    {c c' : Cell R} (h : Step s W c c') (hc : c.Ordered T) : Le T c.committed c'.committed := by
  cases h with
  | same => exact Le.refl hrefl _
  | write hfree hW => exact Le.refl hrefl _
  | commit h => exact hc s _ h
  | rollback h => exact Le.refl hrefl _

end Cell

/-! ## tables -/

/-- A table: one cell per key, and the next key of its sequence. -/
structure Table (R : Type) where
  cell : Nat → Cell R
  next : Nat

namespace Table

variable {R : Type}

/-- A table with the given committed rows. -/
def ofList (rows : List R) (key : R → Nat) : Table R where
  cell id := ⟨rows.find? (key · = id), none⟩
  next := rows.foldl (fun n r => max n (key r + 1)) 0

/-- The row a session sees. -/
def get (t : Table R) (s id : Nat) : Option R := (t.cell id).view s

/-- The rows a session sees, in key order. -/
def rows (t : Table R) (s : Nat) : List R := (List.range t.next).filterMap (t.get s)

/-- Replace one cell. -/
def set (t : Table R) (id : Nat) (c : Cell R) : Table R :=
  { t with cell := Function.update t.cell id c }

/-- `SELECT … FOR UPDATE` by key: waits for the row, then locks and returns it. -/
def lock (t : Table R) (s id : Nat) : Option (Table R × Option R) :=
  match t.get s id with
  | none => some (t, none)
  | some r =>
      if (t.cell id).lockedByOther s then none
      else some (t.set id ((t.cell id).write s r), some r)

/-- `UPDATE … WHERE id = … AND p`, with whether a row was updated.  A row that
does not satisfy `p` is not waited for. -/
def update (t : Table R) (s id : Nat) (p : R → Bool) (f : R → R) : Option (Table R × Bool) :=
  match t.get s id with
  | none => some (t, false)
  | some r =>
      if p r then
        if (t.cell id).lockedByOther s then none
        else some (t.set id ((t.cell id).write s (f r)), true)
      else some (t, false)

/-- `INSERT` with the next key. -/
def insert (t : Table R) (s : Nat) (row : Nat → R) : Table R :=
  { t.set t.next ((t.cell t.next).write s (row t.next)) with next := t.next + 1 }

/-- A session is about to store a value under `id` that no other row satisfying
`p` may stand beside: `none` when it has to wait for another session's row to
be decided, else whether there is such a row.  An undecided insert may have
satisfied `p` before its session changed it; `w` says which may have. -/
def clash (t : Table R) (s id : Nat) (p w : R → Bool) : Option Bool :=
  let others := (List.range t.next).filter (· ≠ id)
  if others.any fun k => (t.cell k).lockedByOther s &&
      ((t.cell k).committed.any p || (t.cell k).pending.any fun r =>
        p r.2 || ((t.cell k).committed.isNone && w r.2)) then none
  else some (others.any fun k => (t.get s k).any p)

def commit (t : Table R) (s : Nat) : Table R := { t with cell := fun id => (t.cell id).commit s }

def rollback (t : Table R) (s : Nat) : Table R :=
  { t with cell := fun id => (t.cell id).rollback s }

@[simp] theorem set_next (t : Table R) (id : Nat) (c : Cell R) : (t.set id c).next = t.next := rfl

@[simp] theorem set_cell_self (t : Table R) (id : Nat) (c : Cell R) : (t.set id c).cell id = c := by
  simp [set]

@[simp] theorem set_cell_of_ne (t : Table R) {id id' : Nat} (c : Cell R) (h : id' ≠ id) :
    (t.set id c).cell id' = t.cell id' := by
  simp [set, Function.update, h]

/-- A row that is written is seen by its session alone. -/
theorem get_write {t : Table R} {s id : Nat} (hfree : (t.cell id).lockedByOther s = false)
    (r : R) (i k : Nat) :
    (t.set id ((t.cell id).write s r)).get i k =
      if k = id ∧ i = s then some r else t.get i k := by
  by_cases e : k = id
  · subst e
    simp [get, Cell.write_view hfree]
  · simp [get, e]

/-- Everything an update can do. -/
theorem update_cases {t t' : Table R} {s id : Nat} {p : R → Bool} {f : R → R} {hit : Bool}
    (h : t.update s id p f = some (t', hit)) :
    (hit = false ∧ t' = t ∧ ∀ r, t.get s id = some r → p r = false) ∨
    (hit = true ∧ ∃ r, t.get s id = some r ∧ p r = true ∧ (t.cell id).lockedByOther s = false ∧
      t' = t.set id ((t.cell id).write s (f r))) := by
  unfold update at h
  split at h
  · rename_i hg
    simp only [Option.some.injEq, Prod.mk.injEq] at h
    exact .inl ⟨h.2.symm, h.1.symm, by simp [hg]⟩
  · rename_i r hg
    split at h
    · rename_i hp
      split at h
      · contradiction
      · rename_i hl
        simp only [Option.some.injEq, Prod.mk.injEq] at h
        exact .inr ⟨h.2.symm, r, hg, hp, Bool.eq_false_iff.mpr hl, h.1.symm⟩
    · rename_i hp
      simp only [Option.some.injEq, Prod.mk.injEq] at h
      refine .inl ⟨h.2.symm, h.1.symm, ?_⟩
      intro r' hr'
      rw [hg, Option.some.injEq] at hr'
      exact hr' ▸ Bool.eq_false_iff.mpr hp

/-- Everything a lock can do. -/
theorem lock_cases {t t' : Table R} {s id : Nat} {o : Option R} (h : t.lock s id = some (t', o)) :
    (o = none ∧ t' = t ∧ t.get s id = none) ∨
    (∃ r, o = some r ∧ t.get s id = some r ∧ (t.cell id).lockedByOther s = false ∧
      t' = t.set id ((t.cell id).write s r)) := by
  unfold lock at h
  split at h
  · rename_i hg
    simp only [Option.some.injEq, Prod.mk.injEq] at h
    exact .inl ⟨h.2.symm, h.1.symm, hg⟩
  · rename_i r hg
    split at h
    · contradiction
    · rename_i hl
      simp only [Option.some.injEq, Prod.mk.injEq] at h
      exact .inr ⟨r, h.2.symm, hg, Bool.eq_false_iff.mpr hl, h.1.symm⟩

/-- Nothing stands beside a value that clashes with nothing. -/
theorem clash_eq_false {t : Table R} {s id : Nat} {p w : R → Bool}
    (h : t.clash s id p w = some false) {k : Nat} (hk : k < t.next) (hne : k ≠ id) :
    (t.get s k).any p = false ∧
    ((t.cell k).lockedByOther s = true → (t.cell k).committed.any p = false ∧
      ∀ j r, (t.cell k).pending = some (j, r) →
        p r = false ∧ ((t.cell k).committed = none → w r = false)) := by
  have hmem : k ∈ (List.range t.next).filter (· ≠ id) := by simp [hk, hne]
  unfold clash at h
  dsimp only at h
  split at h
  · contradiction
  · rename_i hbusy
    simp only [Option.some.injEq, List.any_eq_false] at h
    refine ⟨by simpa using h k hmem, fun hlocked => ?_⟩
    simp only [Bool.not_eq_true, List.any_eq_false] at hbusy
    have := hbusy k hmem
    simp only [hlocked, Bool.true_and, Bool.or_eq_false_iff] at this
    refine ⟨this.1, fun j r hp => ?_⟩
    have := this.2
    simp only [hp, Option.any_some, Bool.or_eq_false_iff, Bool.and_eq_false_iff] at this
    refine ⟨this.1, fun hc => ?_⟩
    rcases this.2 with hnone | hw
    · simp [hc] at hnone
    · exact hw

end Table

end Conc

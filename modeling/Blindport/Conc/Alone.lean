import Blindport.Conc.Prog
import Blindport.Conc.Store

/-!
# Blindport.Conc.Alone

A program that nobody interrupts.

`alone Q E p g` says that `p`, started in `g` with no other thread in between, comes to its
end whatever it reads from outside, in `Q` where it returns and in `E` where it raises.
Unlike `wp` it says that no action is ever blocked.

`Table.Free` says of a table that one session alone has changed it; nothing there waits.
-/

namespace Conc

namespace Prog

variable {Ω Γ ε α β : Type}

/-- The weakest precondition of a program that runs by itself. -/
def alone (Q : α → Γ → Prop) (E : ε → Γ → Prop) : Prog Ω Γ ε α → Γ → Prop
  | ret a, g => Q a g
  | raise e, g => E e g
  | act f k, g => ∀ ω, ∃ g' b, f ω g = some (g', b) ∧ (k b).alone Q E g'

variable {Q : α → Γ → Prop} {E : ε → Γ → Prop}

theorem alone_atomic (f : Ω → Γ → Option (Γ × α)) (g : Γ) :
    (atomic f : Prog Ω Γ ε α).alone Q E g ↔ ∀ ω, ∃ g' a, f ω g = some (g', a) ∧ Q a g' := Iff.rfl

theorem alone_mono {Q' : α → Γ → Prop} {E' : ε → Γ → Prop} {p : Prog Ω Γ ε α} {g : Γ}
    (h : p.alone Q E g) (hQ : ∀ a g, Q a g → Q' a g) (hE : ∀ e g, E e g → E' e g) :
    p.alone Q' E' g := by
  induction p generalizing g with
  | ret a => exact hQ a g h
  | raise e => exact hE e g h
  | act f k ih =>
      intro ω
      obtain ⟨g', b, hf, hk⟩ := h ω
      exact ⟨g', b, hf, ih b hk⟩

/-- Sequencing: the continuation comes to its end from every end of the first part. -/
theorem alone_bind {Q : β → Γ → Prop} {p : Prog Ω Γ ε α} {k : α → Prog Ω Γ ε β} {g : Γ} :
    (p >>= k).alone Q E g ↔ p.alone (fun a g => (k a).alone Q E g) E g := by
  change (p.bind k).alone Q E g ↔ _
  induction p generalizing g with
  | ret a => exact Iff.rfl
  | raise e => exact Iff.rfl
  | act f c ih =>
      simp only [bind, alone]
      constructor
      · intro h ω
        obtain ⟨g', b, hf, hk⟩ := h ω
        exact ⟨g', b, hf, ih b |>.mp hk⟩
      · intro h ω
        obtain ⟨g', b, hf, hk⟩ := h ω
        exact ⟨g', b, hf, ih b |>.mpr hk⟩

end Prog

/-! ## a table nobody else has changed -/

namespace Table

variable {R : Type} {t : Table R} {s : Nat}

/-- No other session has a row, and keys from `next` on are unused. -/
structure Free (t : Table R) (s : Nat) : Prop where
  unlocked : ∀ id, (t.cell id).lockedByOther s = false
  bounded : ∀ id row, t.get s id = some row → id < t.next

theorem mem_rows (h : t.Free s) {row : R} : row ∈ t.rows s ↔ ∃ id, t.get s id = some row := by
  unfold rows
  rw [List.mem_filterMap]
  constructor
  · rintro ⟨id, -, hrow⟩
    exact ⟨id, hrow⟩
  · rintro ⟨id, hrow⟩
    exact ⟨id, List.mem_range.mpr (h.bounded id row hrow), hrow⟩

/-- The check of a unique index comes back at once. -/
theorem clash_of_free (h : t.Free s) (id : Nat) (p w : R → Bool) :
    ∃ b, t.clash s id p w = some b ∧
      (b = true ↔ ∃ id' row, id' ≠ id ∧ t.get s id' = some row ∧ p row = true) := by
  unfold clash
  dsimp only
  rw [if_neg (by simp [h.unlocked])]
  refine ⟨_, rfl, ?_⟩
  rw [List.any_eq_true]
  constructor
  · rintro ⟨id', hmem, hany⟩
    rw [Option.any_eq_true] at hany
    obtain ⟨row, hrow, hp⟩ := hany
    exact ⟨id', row, by simpa using (List.mem_filter.mp hmem).2, hrow, hp⟩
  · rintro ⟨id', row, hne, hrow, hp⟩
    refine ⟨id', ?_, by rw [hrow]; exact hp⟩
    rw [List.mem_filter]
    exact ⟨List.mem_range.mpr (h.bounded id' row hrow), by simpa using hne⟩

/-- So does an update, and it leaves every other row alone. -/
theorem update_of_free (h : t.Free s) {id : Nat} {row : R} (hrow : t.get s id = some row)
    (f : R → R) : ∃ t', t.update s id (fun _ => true) f = some (t', true) ∧ t'.Free s ∧
      t'.get s id = some (f row) ∧ ∀ id' ≠ id, t'.get s id' = t.get s id' := by
  have hself : (t.set id ((t.cell id).write s (f row))).get s id = some (f row) := by
    simp [get, Cell.view]
  have hother : ∀ id' ≠ id, (t.set id ((t.cell id).write s (f row))).get s id' = t.get s id' := by
    intro id' hne
    rw [get, set_cell_of_ne t _ hne, get]
  refine ⟨t.set id ((t.cell id).write s (f row)), ?_, ⟨fun id' => ?_, fun id' row' hrow' => ?_⟩,
    hself, hother⟩
  · simp only [update, hrow, if_true, h.unlocked id, Bool.false_eq_true, if_false]
  · by_cases heq : id' = id
    · rw [heq, set_cell_self]
      simp [Cell.lockedByOther]
    · rw [set_cell_of_ne t _ heq]
      exact h.unlocked id'
  · by_cases heq : id' = id
    · rw [heq]
      exact h.bounded id row hrow
    · rw [hother id' heq] at hrow'
      exact h.bounded id' row' hrow'

end Table

end Conc

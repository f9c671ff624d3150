import Mathlib.Logic.Relation
import Blindport.Conc.System

/-!
# Blindport.Conc.Discipline

Rely-guarantee proofs of a system of threads.

A `Discipline` says what every thread may do to the shared state (`Move`) and
what all of that keeps (`Inv`).  `Triple D i P p Q E` is the specification of a
program `p` run by thread `i` among others that keep to `D`: from `P` it only
makes moves of its own, and it ends in `Q` or, raising, in `E`.  An assertion
that is held across an action has to survive the moves of the others
(`Stable`).

`Certified.run_safe` is the parallel composition: when every entry point has a
triple, every configuration a run reaches satisfies the invariant and every
step of it is some thread's move (`Certified.step_move`).
-/

namespace Conc

/-- What the threads may do and what that keeps. -/
structure Discipline (Γ : Type) where
  Inv : Γ → Prop
  Move : Nat → Γ → Γ → Prop
  preserved : ∀ {i : Nat} {g g' : Γ}, Inv g → Move i g g' → Inv g'

namespace Discipline

variable {Ω Γ ε α β : Type} (D : Discipline Γ)

/-- One move of a thread other than `i`. -/
def Other (i : Nat) (g g' : Γ) : Prop := D.Inv g ∧ ∃ j, j ≠ i ∧ D.Move j g g'

/-- What the others may have done. -/
def Rely (i : Nat) : Γ → Γ → Prop := Relation.ReflTransGen (D.Other i)

/-- The others do not destroy `P`. -/
def Stable (i : Nat) (P : Γ → Prop) : Prop :=
  ∀ ⦃j : Nat⦄ ⦃g g' : Γ⦄, j ≠ i → D.Inv g → D.Move j g g' → P g → P g'

variable {D}

theorem Rely.inv {i : Nat} {g g' : Γ} (h : D.Rely i g g') (hg : D.Inv g) : D.Inv g' := by
  induction h with
  | refl => exact hg
  | tail _ hstep ih =>
      obtain ⟨j, -, hmove⟩ := hstep.2
      exact D.preserved ih hmove

theorem Stable.rely {i : Nat} {P : Γ → Prop} (hP : D.Stable i P) {g g' : Γ}
    (h : D.Rely i g g') (hg : P g) : P g' := by
  induction h with
  | refl => exact hg
  | tail _ hstep ih =>
      obtain ⟨hinv, j, hj, hmove⟩ := hstep
      exact hP hj hinv hmove ih

theorem Stable.true {i : Nat} : D.Stable i fun _ => True := fun _ _ _ _ _ _ _ => trivial

theorem Stable.pure {i : Nat} {p : Prop} : D.Stable i fun _ => p := fun _ _ _ _ _ _ h => h

theorem Stable.and {i : Nat} {P Q : Γ → Prop} (hP : D.Stable i P) (hQ : D.Stable i Q) :
    D.Stable i fun g => P g ∧ Q g :=
  fun _ _ _ hj hinv hmove h => ⟨hP hj hinv hmove h.1, hQ hj hinv hmove h.2⟩

theorem Stable.exists {i : Nat} {ι : Sort*} {P : ι → Γ → Prop} (hP : ∀ x, D.Stable i (P x)) :
    D.Stable i fun g => ∃ x, P x g := by
  rintro j g g' hj hinv hmove ⟨x, hx⟩
  exact ⟨x, hP x hj hinv hmove hx⟩

variable (D)

/-! ## triples -/

/-- The specification of a program of thread `i`. -/
def Triple (i : Nat) (P : Γ → Prop) (p : Prog Ω Γ ε α) (Q : α → Γ → Prop) (E : ε → Γ → Prop) :
    Prop :=
  ∀ g, D.Inv g → P g →
    p.wp (D.Rely i) (D.Move i) (fun a g => D.Inv g ∧ Q a g) (fun e g => D.Inv g ∧ E e g) g

variable {D}
variable {i : Nat} {P P' : Γ → Prop} {Q Q' : α → Γ → Prop} {E E' : ε → Γ → Prop}

theorem Triple.ret {a : α} (h : ∀ g, D.Inv g → P g → Q a g) :
    D.Triple i P (Prog.ret a : Prog Ω Γ ε α) Q E :=
  fun g hinv hP => ⟨hinv, h g hinv hP⟩

theorem Triple.pure {a : α} (h : ∀ g, D.Inv g → P g → Q a g) :
    D.Triple i P (Pure.pure a : Prog Ω Γ ε α) Q E :=
  Triple.ret h

theorem Triple.raise {e : ε} (h : ∀ g, D.Inv g → P g → E e g) :
    D.Triple i P (Prog.raise e : Prog Ω Γ ε α) Q E :=
  fun g hinv hP => ⟨hinv, h g hinv hP⟩

/-- One action: its precondition survives the others, and it is a move. -/
theorem Triple.atomic {f : Ω → Γ → Option (Γ × α)} (hP : D.Stable i P)
    (h : ∀ ω g g' b, D.Inv g → P g → f ω g = some (g', b) → D.Move i g g' ∧ Q b g') :
    D.Triple i P (Prog.atomic f : Prog Ω Γ ε α) Q E := by
  intro g hinv hg g₁ hR ω g₂ b hf
  have hinv₁ := Rely.inv hR hinv
  obtain ⟨hmove, hQ⟩ := h ω g₁ g₂ b hinv₁ (hP.rely hR hg) hf
  exact ⟨hmove, D.preserved hinv₁ hmove, hQ⟩

theorem Triple.mono {p : Prog Ω Γ ε α} (h : D.Triple i P p Q E)
    (hQ : ∀ a g, D.Inv g → Q a g → Q' a g) (hE : ∀ e g, E e g → E' e g) :
    D.Triple i P p Q' E' :=
  fun g hinv hP => Prog.wp_mono (h g hinv hP) (fun a g h => ⟨h.1, hQ a g h.1 h.2⟩)
    (fun e g h => ⟨h.1, hE e g h.2⟩)

theorem Triple.pre {p : Prog Ω Γ ε α} (h : D.Triple i P p Q E)
    (hP : ∀ g, D.Inv g → P' g → P g) : D.Triple i P' p Q E :=
  fun g hinv hg => h g hinv (hP g hinv hg)

/-- Sequencing. -/
theorem Triple.bind {p : Prog Ω Γ ε α} {k : α → Prog Ω Γ ε β} {S : β → Γ → Prop}
    (h : D.Triple i P p Q E) (hk : ∀ a, D.Triple i (Q a) (k a) S E) :
    D.Triple i P (p >>= k) S E :=
  fun g hinv hP => Prog.wp_seq (h g hinv hP) (fun _ _ h => h) fun a g h => hk a g h.1 h.2

/-- A handler takes over from wherever the body raised. -/
theorem Triple.tryCatch {p : Prog Ω Γ ε α} {handler : ε → Prog Ω Γ ε α}
    (h : D.Triple i P p Q E') (hh : ∀ e, D.Triple i (E' e) (handler e) Q E) :
    D.Triple i P (p.tryCatch handler) Q E :=
  fun g hinv hP => Prog.wp_tryCatch (h g hinv hP) fun e g h => hh e g h.1 h.2

theorem Triple.forEach {xs : List α} {body : α → Prog Ω Γ ε Unit}
    (hbody : ∀ x ∈ xs, D.Triple i P (body x) (fun _ => P) E) :
    D.Triple i P (Prog.forEach xs body) (fun _ => P) E :=
  fun _ hinv hP => Prog.wp_forEach (fun x hx g h => hbody x hx g h.1 h.2) ⟨hinv, hP⟩

/-- A fact that does not depend on the state may be used for the whole program. -/
theorem Triple.assume {p : Prog Ω Γ ε α} {q : Prop} (h : q → D.Triple i P p Q E) :
    D.Triple i (fun g => q ∧ P g) p Q E :=
  fun g hinv hP => h hP.1 g hinv hP.2

/-! ## durable facts -/

variable (D) in
/-- No thread destroys `F`. -/
def Durable (F : Γ → Prop) : Prop :=
  ∀ ⦃j : Nat⦄ ⦃g g' : Γ⦄, D.Inv g → D.Move j g g' → F g → F g'

theorem Durable.stable {F : Γ → Prop} (hF : D.Durable F) : D.Stable i F :=
  fun _ _ _ _ hinv hmove h => hF hinv hmove h

theorem Durable.rely {F : Γ → Prop} (hF : D.Durable F) {g g' : Γ} (h : D.Rely i g g')
    (hg : F g) : F g' :=
  hF.stable.rely h hg

theorem Durable.and {F F' : Γ → Prop} (hF : D.Durable F) (hF' : D.Durable F') :
    D.Durable fun g => F g ∧ F' g :=
  fun _ _ _ hinv hmove h => ⟨hF hinv hmove h.1, hF' hinv hmove h.2⟩

/-- Frame rule: what no thread destroys holds at the end too. -/
theorem Triple.frame {F : Γ → Prop} {p : Prog Ω Γ ε α} (hF : D.Durable F)
    (h : D.Triple i P p Q E) :
    D.Triple i (fun g => F g ∧ P g) p (fun a g => F g ∧ Q a g) (fun e g => F g ∧ E e g) := by
  have key : ∀ g, D.Inv g → F g →
      p.wp (D.Rely i) (D.Move i) (fun a g => D.Inv g ∧ Q a g) (fun e g => D.Inv g ∧ E e g) g →
      p.wp (D.Rely i) (D.Move i) (fun a g => D.Inv g ∧ F g ∧ Q a g)
        (fun e g => D.Inv g ∧ F g ∧ E e g) g := by
    clear h
    induction p with
    | ret a => exact fun g hinv hf h => ⟨h.1, hf, h.2⟩
    | raise e => exact fun g hinv hf h => ⟨h.1, hf, h.2⟩
    | act f k ih =>
        intro g hinv hf h g₁ hR ω g₂ b hact
        obtain ⟨hmove, hk⟩ := h g₁ hR ω g₂ b hact
        have hinv₁ := Rely.inv hR hinv
        exact ⟨hmove, ih b g₂ (D.preserved hinv₁ hmove) (hF hinv₁ hmove (hF.rely hR hf)) hk⟩
  exact fun g hinv hP => key g hinv hP.1 (h g hinv hP.2)

end Discipline

/-! ## certified systems -/

/-- A system whose entry points keep to a discipline. -/
structure Certified {Ω Γ ε Entry : Type} (sys : System Ω Γ ε Entry) (D : Discipline Γ) where
  /-- What holds of a thread that has not started. -/
  Fresh : Nat → Γ → Prop
  fresh_stable : ∀ i, D.Stable i (Fresh i)
  close_move : ∀ i g, D.Inv g → D.Move i g (sys.close i g)
  entry : ∀ i e, D.Triple i (Fresh i) (sys.program i e) (fun _ _ => True) (fun _ _ => True)

namespace Certified

open Discipline

variable {Ω Γ ε Entry : Type} {sys : System Ω Γ ε Entry} {D : Discipline Γ} (C : Certified sys D)

/-- A configuration every thread of which keeps to the discipline. -/
structure Safe (c : Config Ω Γ ε) : Prop where
  inv : D.Inv c.global
  fresh : ∀ i, c.next ≤ i → C.Fresh i c.global
  started : ∀ i p, c.thread i = some p → i < c.next
  thread : ∀ i p, c.thread i = some p → ∃ g, D.Rely i g c.global ∧
    p.wp (D.Rely i) (D.Move i) (fun _ _ => True) (fun _ _ => True) g

theorem safe_init {g : Γ} (hinv : D.Inv g) (hfresh : ∀ i, C.Fresh i g) :
    C.Safe (System.init g : Config Ω Γ ε) where
  inv := hinv
  fresh i _ := hfresh i
  started i p h := by simp [System.init] at h
  thread i p h := by simp [System.init] at h

/-- A move of thread `i` leaves the other threads safe. -/
theorem Safe.of_move {C : Certified sys D} {c : Config Ω Γ ε} (h : C.Safe c) {i : Nat} {g : Γ}
    {t : Option (Prog Ω Γ ε Unit)} (hi : i < c.next) (hmove : D.Move i c.global g)
    (ht : ∀ p, t = some p → p.wp (D.Rely i) (D.Move i) (fun _ _ => True) (fun _ _ => True) g) :
    C.Safe { c with global := g, thread := Function.update c.thread i t } where
  inv := D.preserved h.inv hmove
  fresh j hj := by
    have hne : i ≠ j := fun e => absurd (e ▸ hi) (Nat.not_lt.mpr hj)
    exact C.fresh_stable j hne h.inv hmove (h.fresh j hj)
  started j p hp := by
    by_cases e : j = i
    · exact e ▸ hi
    · exact h.started j p (by simpa [Function.update, e] using hp)
  thread j p hp := by
    by_cases e : j = i
    · subst e
      simp only [Function.update_self] at hp
      exact ⟨g, .refl, ht p hp⟩
    · obtain ⟨g₀, hR, hw⟩ := h.thread j p (by simpa [Function.update, e] using hp)
      exact ⟨g₀, hR.tail ⟨h.inv, i, Ne.symm e, hmove⟩, hw⟩

/-- One choice of the scheduler: the state stays or moves along the discipline,
and the threads stay safe. -/
theorem step_safe {c c' : Config Ω Γ ε} {l : Label Ω Entry} (h : C.Safe c)
    (hstep : sys.step c l = some c') :
    C.Safe c' ∧ (c'.global = c.global ∨ ∃ i, D.Move i c.global c'.global) := by
  rcases sys.step_cases hstep with ⟨e, -, rfl⟩ | ⟨i, ω, β, f, k, g, b, -, hp, hf, rfl⟩ |
    ⟨i, p, -, hp, rfl⟩
  · refine ⟨⟨h.inv, fun i hi => h.fresh i (by simp at hi; omega), ?_, ?_⟩, .inl rfl⟩
    · intro i p hi
      by_cases e' : i = c.next
      · simp [e']
      · have := h.started i p (by simpa [Function.update, e'] using hi)
        simp only
        omega
    · intro i p hi
      by_cases e' : i = c.next
      · subst e'
        simp only [Function.update_self, Option.some.injEq] at hi
        subst hi
        refine ⟨c.global, .refl, ?_⟩
        exact Prog.wp_mono (C.entry c.next e c.global h.inv (h.fresh c.next (Nat.le_refl _)))
          (fun _ _ _ => trivial) (fun _ _ _ => trivial)
      · exact h.thread i p (by simpa [Function.update, e'] using hi)
  · obtain ⟨g₀, hR, hw⟩ := h.thread i _ hp
    obtain ⟨hmove, hk⟩ := hw c.global hR ω g b hf
    refine ⟨h.of_move (h.started i _ hp) hmove ?_, .inr ⟨i, hmove⟩⟩
    intro p hp'
    obtain rfl := Option.some.inj hp'
    exact hk
  · have hmove := C.close_move i c.global h.inv
    refine ⟨h.of_move (h.started i p hp) hmove ?_, .inr ⟨i, hmove⟩⟩
    intro p hp'
    contradiction

/-- **Parallel composition.** Every configuration a run reaches is safe. -/
theorem run_safe {c c' : Config Ω Γ ε} {ls : List (Label Ω Entry)} (h : C.Safe c)
    (hrun : sys.run c ls = some c') : C.Safe c' := by
  induction ls generalizing c with
  | nil => exact Option.some.inj hrun ▸ h
  | cons l ls ih =>
      simp only [System.run] at hrun
      cases hstep : sys.step c l with
      | none => simp [hstep] at hrun
      | some c₁ =>
          rw [hstep] at hrun
          exact ih (C.step_safe h hstep).1 hrun

/-- A preorder that contains every move relates the states of a run. -/
theorem run_rel {T : Γ → Γ → Prop} (hrefl : ∀ g, T g g)
    (htrans : ∀ g₁ g₂ g₃, T g₁ g₂ → T g₂ g₃ → T g₁ g₃)
    (hmove : ∀ i g g', D.Inv g → D.Move i g g' → T g g')
    {c c' : Config Ω Γ ε} {ls : List (Label Ω Entry)} (h : C.Safe c)
    (hrun : sys.run c ls = some c') : T c.global c'.global := by
  induction ls generalizing c with
  | nil => exact Option.some.inj hrun ▸ hrefl c.global
  | cons l ls ih =>
      simp only [System.run] at hrun
      cases hstep : sys.step c l with
      | none => simp [hstep] at hrun
      | some c₁ =>
          rw [hstep] at hrun
          obtain ⟨hsafe, hstep'⟩ := C.step_safe h hstep
          refine htrans _ _ _ ?_ (ih hsafe hrun)
          rcases hstep' with e | ⟨i, hi⟩
          · exact e ▸ hrefl c.global
          · exact hmove i _ _ h.inv hi

end Certified

end Conc

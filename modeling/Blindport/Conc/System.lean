import Mathlib.Logic.Function.Basic
import Blindport.Conc.Prog

/-!
# Blindport.Conc.System

Any number of threads over one shared state.

A thread is started from an entry point and gets a number of its own.  The
scheduler starts threads, lets one perform its next action with some input, or
stops one at any point: a thread that is done and a process that dies are both
stopped, and `close` is what that does to the shared state.
-/

namespace Conc

/-- The entry points and what stopping a thread does. -/
structure System (Ω Γ ε Entry : Type) where
  program : Nat → Entry → Prog Ω Γ ε Unit
  close : Nat → Γ → Γ

/-- The shared state, the running threads and the next thread number. -/
structure Config (Ω Γ ε : Type) where
  global : Γ
  thread : Nat → Option (Prog Ω Γ ε Unit)
  next : Nat

/-- What the scheduler may choose. -/
inductive Label (Ω Entry : Type) where
  | spawn (e : Entry)
  | act (i : Nat) (ω : Ω)
  | stop (i : Nat)

namespace System

variable {Ω Γ ε Entry : Type} (sys : System Ω Γ ε Entry)

/-- One choice of the scheduler; `none` when it is not possible. -/
def step (c : Config Ω Γ ε) : Label Ω Entry → Option (Config Ω Γ ε)
  | .spawn e =>
      some { c with
        thread := Function.update c.thread c.next (some (sys.program c.next e))
        next := c.next + 1 }
  | .act i ω =>
      match c.thread i with
      | some (.act f k) =>
          match f ω c.global with
          | some (g, b) =>
              some { c with global := g, thread := Function.update c.thread i (some (k b)) }
          | none => none
      | _ => none
  | .stop i =>
      match c.thread i with
      | some _ =>
          some { c with
            global := sys.close i c.global, thread := Function.update c.thread i none }
      | none => none

/-- A run of the scheduler. -/
def run (c : Config Ω Γ ε) : List (Label Ω Entry) → Option (Config Ω Γ ε)
  | [] => some c
  | l :: ls =>
      match sys.step c l with
      | some c' => run c' ls
      | none => none

/-- No thread yet. -/
def init (g : Γ) : Config Ω Γ ε := ⟨g, fun _ => none, 0⟩

theorem run_append (c : Config Ω Γ ε) (ls ms : List (Label Ω Entry)) :
    sys.run c (ls ++ ms) = (sys.run c ls).bind fun c' => sys.run c' ms := by
  induction ls generalizing c with
  | nil => rfl
  | cons l ls ih =>
      simp only [List.cons_append, run]
      cases sys.step c l with
      | none => rfl
      | some c' => exact ih c'

/-- Everything one choice can do. -/
theorem step_cases {c c' : Config Ω Γ ε} {l : Label Ω Entry} (h : sys.step c l = some c') :
    (∃ e, l = .spawn e ∧ c' = { c with
      thread := Function.update c.thread c.next (some (sys.program c.next e))
      next := c.next + 1 }) ∨
    (∃ i ω, ∃ (β : Type) (f : Ω → Γ → Option (Γ × β)) (k : β → Prog Ω Γ ε Unit) (g : Γ) (b : β),
      l = .act i ω ∧ c.thread i = some (.act f k) ∧ f ω c.global = some (g, b) ∧
        c' = { c with global := g, thread := Function.update c.thread i (some (k b)) }) ∨
    (∃ i p, l = .stop i ∧ c.thread i = some p ∧ c' = { c with
      global := sys.close i c.global, thread := Function.update c.thread i none }) := by
  cases l with
  | spawn e => exact .inl ⟨e, rfl, (Option.some.inj h).symm⟩
  | act i ω =>
      refine .inr (.inl ⟨i, ω, ?_⟩)
      simp only [step] at h
      cases hp : c.thread i with
      | none => simp [hp] at h
      | some p =>
          cases p with
          | ret a => simp [hp] at h
          | raise e => simp [hp] at h
          | act f k =>
              simp only [hp] at h
              cases hf : f ω c.global with
              | none => simp [hf] at h
              | some r =>
                  obtain ⟨g, b⟩ := r
                  simp only [hf, Option.some.injEq] at h
                  exact ⟨_, f, k, g, b, rfl, rfl, hf, h.symm⟩
  | stop i =>
      refine .inr (.inr ⟨i, ?_⟩)
      simp only [step] at h
      cases hp : c.thread i with
      | none => simp [hp] at h
      | some p =>
          simp only [hp, Option.some.injEq] at h
          exact ⟨p, rfl, rfl, h.symm⟩

end System

end Conc

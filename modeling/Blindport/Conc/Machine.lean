import Mathlib.Data.List.Basic

/-!
# Blindport.Conc.Machine

A machine given by a partial step function: `step s e` is the state after the
event `e`, and `none` when `e` cannot happen in `s`.  A run is a list of events,
so a statement about every run is one about every interleaving.
-/

namespace Conc

variable {σ ε : Type} (step : σ → ε → Option σ)

/-- The state after a run. -/
def exec : σ → List ε → Option σ
  | s, [] => some s
  | s, e :: es => (step s e).bind fun s' => exec s' es

/-- Every step of the run meets a condition on the event and the state before it. -/
def Meets (P : σ → ε → Prop) : σ → List ε → Prop
  | _, [] => True
  | s, e :: es => P s e ∧ ∀ s' ∈ step s e, Meets P s' es

instance decidableMeets {P : σ → ε → Prop} [∀ s e, Decidable (P s e)] :
    ∀ (s : σ) (es : List ε), Decidable (Meets step P s es)
  | _, [] => isTrue trivial
  | s, e :: es =>
      have : DecidablePred fun s' => Meets step P s' es := fun s' => decidableMeets s' es
      inferInstanceAs (Decidable (P s e ∧ ∀ s' ∈ step s e, Meets step P s' es))

variable {step}

theorem exec_cons {s s' : σ} {e : ε} {es : List ε} (h : exec step s (e :: es) = some s') :
    ∃ s₁, step s e = some s₁ ∧ exec step s₁ es = some s' :=
  Option.bind_eq_some_iff.mp h

theorem exec_cons_of {s s₁ : σ} {e : ε} (h : step s e = some s₁) (es : List ε) :
    exec step s (e :: es) = exec step s₁ es := by
  rw [exec, h, Option.bind_some]

theorem exec_append {s s₁ : σ} {es : List ε} (h : exec step s es = some s₁) (es' : List ε) :
    exec step s (es ++ es') = exec step s₁ es' := by
  induction es generalizing s with
  | nil => rw [Option.some.inj h, List.nil_append]
  | cons e es ih =>
      obtain ⟨s₂, hs, hes⟩ := exec_cons h
      rw [List.cons_append, exec_cons_of hs, ih hes]

/-- The last step of a run. -/
theorem exec_snoc {s s' : σ} {es : List ε} {e : ε} (h : exec step s (es ++ [e]) = some s') :
    ∃ s₁, exec step s es = some s₁ ∧ step s₁ e = some s' := by
  induction es generalizing s with
  | nil =>
      obtain ⟨s₁, hs, hnil⟩ := exec_cons h
      exact ⟨s, rfl, Option.some.inj hnil ▸ hs⟩
  | cons e' es ih =>
      obtain ⟨s₂, hs, hes⟩ := exec_cons h
      obtain ⟨s₁, hrun, hlast⟩ := ih hes
      exact ⟨s₁, (exec_cons_of hs es).trans hrun, hlast⟩

/-- A run all of whose events meet another condition too. -/
theorem Meets.and {P : σ → ε → Prop} {Q : ε → Prop} {s : σ} {es : List ε}
    (hm : Meets step P s es) (hq : ∀ e ∈ es, Q e) :
    Meets step (fun s e => P s e ∧ Q e) s es := by
  induction es generalizing s with
  | nil => trivial
  | cons e es ih =>
      exact ⟨⟨hm.1, hq e (List.mem_cons_self ..)⟩,
        fun s' hs => ih (hm.2 s' hs) fun e' he => hq e' (List.mem_cons_of_mem _ he)⟩

/-- The rule of invariance: what a step that meets the condition keeps holds
after every run that meets it. -/
theorem Meets.invariant {P : σ → ε → Prop} {I : σ → Prop}
    (hstep : ∀ s e s', I s → P s e → step s e = some s' → I s') {s s' : σ} {es : List ε}
    (hm : Meets step P s es) (h : I s) (hrun : exec step s es = some s') : I s' := by
  induction es generalizing s with
  | nil => exact Option.some.inj hrun ▸ h
  | cons e es ih =>
      obtain ⟨s₁, hs, hrun⟩ := exec_cons hrun
      exact ih (hm.2 s₁ hs) (hstep s e s₁ h hm.1 hs) hrun

/-- The rule of invariance for a machine without conditions. -/
theorem exec_invariant {I : σ → Prop}
    (hstep : ∀ s e s', I s → step s e = some s' → I s') {s s' : σ} {es : List ε}
    (h : I s) (hrun : exec step s es = some s') : I s' := by
  induction es generalizing s with
  | nil => exact Option.some.inj hrun ▸ h
  | cons e es ih =>
      obtain ⟨s₁, hs, hrun⟩ := exec_cons hrun
      exact ih (hstep s e s₁ h hs) hrun

/-- The rule of invariance for what relates a state to the events that led to it. -/
theorem exec_history {I : List ε → σ → Prop}
    (hstep : ∀ past s e s', I past s → step s e = some s' → I (past ++ [e]) s') {s s' : σ}
    {past es : List ε} (h : I past s) (hrun : exec step s es = some s') : I (past ++ es) s' := by
  induction es generalizing s past with
  | nil =>
      rw [List.append_nil]
      exact Option.some.inj hrun ▸ h
  | cons e es ih =>
      obtain ⟨s₁, hs, hrun⟩ := exec_cons hrun
      have hrest := ih (hstep past s e s₁ h hs) hrun
      rwa [List.append_assoc] at hrest

end Conc

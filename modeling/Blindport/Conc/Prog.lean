import Mathlib.Logic.Basic

/-!
# Blindport.Conc.Prog

Sequential programs over a shared state, cut at the points where other threads
may run, and their rely-guarantee weakest precondition.

A program is a tree: it has returned, it has raised, or it performs one atomic
action and continues with its result.  An action reads an input `Ω` from
outside (a clock reading, an answer of another system) and either changes the
state `Γ` or is blocked.  Everything between two actions is local.

`wp R G p Q E g` says of the program `p` in state `g`: when the others only
move the state along `R`, every action of `p` moves it along `G`, and `p` ends
in `Q` or, raising, in `E`.
-/

namespace Conc

/-- A program with actions on `Γ`, inputs from `Ω`, errors in `ε`. -/
inductive Prog (Ω Γ ε : Type) (α : Type) : Type 1 where
  | ret (a : α)
  | raise (e : ε)
  | act {β : Type} (f : Ω → Γ → Option (Γ × β)) (k : β → Prog Ω Γ ε α)

namespace Prog

variable {Ω Γ ε α β : Type}

/-- Sequencing. -/
def bind : Prog Ω Γ ε α → (α → Prog Ω Γ ε β) → Prog Ω Γ ε β
  | ret a, k => k a
  | raise e, _ => raise e
  | act f c, k => act f fun b => (c b).bind k

instance : Monad (Prog Ω Γ ε) where
  pure := ret
  bind := bind

/-- Run the handler when the program raises. -/
def tryCatch : Prog Ω Γ ε α → (ε → Prog Ω Γ ε α) → Prog Ω Γ ε α
  | ret a, _ => ret a
  | raise e, h => h e
  | act f c, h => act f fun b => (c b).tryCatch h

/-- One atomic action. -/
def atomic (f : Ω → Γ → Option (Γ × β)) : Prog Ω Γ ε β := act f ret

/-- Run a body for every element, in order. -/
def forEach : List α → (α → Prog Ω Γ ε Unit) → Prog Ω Γ ε Unit
  | [], _ => ret ()
  | x :: xs, body => (body x).bind fun _ => forEach xs body

/-! ## the weakest precondition -/

variable {R G : Γ → Γ → Prop}

/-- The rely-guarantee weakest precondition. -/
def wp (R G : Γ → Γ → Prop) (Q : α → Γ → Prop) (E : ε → Γ → Prop) : Prog Ω Γ ε α → Γ → Prop
  | ret a, g => Q a g
  | raise e, g => E e g
  | act f k, g => ∀ g₁, R g g₁ → ∀ ω g₂ b, f ω g₁ = some (g₂, b) → G g₁ g₂ ∧ (k b).wp R G Q E g₂

theorem wp_mono {Q Q' : α → Γ → Prop} {E E' : ε → Γ → Prop} {p : Prog Ω Γ ε α} {g : Γ}
    (h : p.wp R G Q E g) (hQ : ∀ a g, Q a g → Q' a g) (hE : ∀ e g, E e g → E' e g) :
    p.wp R G Q' E' g := by
  induction p generalizing g with
  | ret a => exact hQ a g h
  | raise e => exact hE e g h
  | act f k ih =>
      intro g₁ hR ω g₂ b hf
      obtain ⟨hG, hk⟩ := h g₁ hR ω g₂ b hf
      exact ⟨hG, ih b hk⟩

/-- Sequencing: the continuation is safe from every end of the first part. -/
theorem wp_bind {Q : β → Γ → Prop} {E : ε → Γ → Prop} (p : Prog Ω Γ ε α)
    (k : α → Prog Ω Γ ε β) (g : Γ) :
    (p >>= k).wp R G Q E g ↔ p.wp R G (fun a g => (k a).wp R G Q E g) E g := by
  change (p.bind k).wp R G Q E g ↔ _
  induction p generalizing g with
  | ret a => exact Iff.rfl
  | raise e => exact Iff.rfl
  | act f c ih =>
      simp only [bind, wp]
      constructor
      · intro h g₁ hR ω g₂ b hf
        obtain ⟨hG, hk⟩ := h g₁ hR ω g₂ b hf
        exact ⟨hG, (ih b g₂).mp hk⟩
      · intro h g₁ hR ω g₂ b hf
        obtain ⟨hG, hk⟩ := h g₁ hR ω g₂ b hf
        exact ⟨hG, (ih b g₂).mpr hk⟩

/-- The step rule for `do` blocks: a specification of the first part and a
proof for every result it can leave. -/
theorem wp_seq {Q' : α → Γ → Prop} {Q : β → Γ → Prop} {E' E : ε → Γ → Prop} {p : Prog Ω Γ ε α}
    {k : α → Prog Ω Γ ε β} {g : Γ} (h : p.wp R G Q' E' g) (hE : ∀ e g, E' e g → E e g)
    (hk : ∀ a g, Q' a g → (k a).wp R G Q E g) : (p >>= k).wp R G Q E g :=
  (wp_bind p k g).mpr (wp_mono h hk hE)

theorem wp_tryCatch {Q : α → Γ → Prop} {E E' : ε → Γ → Prop} {p : Prog Ω Γ ε α}
    {handler : ε → Prog Ω Γ ε α} {g : Γ} (h : p.wp R G Q E' g)
    (hh : ∀ e g, E' e g → (handler e).wp R G Q E g) : (p.tryCatch handler).wp R G Q E g := by
  induction p generalizing g with
  | ret a => exact h
  | raise e => exact hh e g h
  | act f c ih =>
      intro g₁ hR ω g₂ b hf
      obtain ⟨hG, hk⟩ := h g₁ hR ω g₂ b hf
      exact ⟨hG, ih b hk⟩

/-- A loop keeps what its body keeps. -/
theorem wp_forEach {P : Γ → Prop} {E : ε → Γ → Prop} {xs : List α} {body : α → Prog Ω Γ ε Unit}
    (hbody : ∀ x ∈ xs, ∀ g, P g → (body x).wp R G (fun _ g => P g) E g) {g : Γ} (h : P g) :
    (forEach xs body).wp R G (fun _ g => P g) E g := by
  induction xs generalizing g with
  | nil => exact h
  | cons x xs ih =>
      refine wp_seq (hbody x List.mem_cons_self g h) (fun _ _ h => h) fun _ g' h' => ?_
      exact ih (fun y hy => hbody y (List.mem_cons_of_mem x hy)) h'

end Prog

end Conc

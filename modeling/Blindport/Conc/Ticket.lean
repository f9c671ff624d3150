import Mathlib.Data.List.Basic

/-!
# Blindport.Conc.Ticket

Functions that do something once: what `sync.Once` makes of a closure.  Every one that was
handed out is a ticket in a list, with what it closes over; using it a second time does
nothing.

`live p ts` counts the unused tickets with `p`; `live_issue` and `live_use` say how it
changes.
-/

namespace Conc

/-- A closure to be run once: what it closes over, and whether it has run. -/
structure Ticket (κ : Type) where
  key : κ
  used : Bool
deriving DecidableEq

namespace Ticket

variable {κ : Type} (p : κ → Bool)

/-- The unused tickets with `p`. -/
def live (ts : List (Ticket κ)) : Nat := ts.countP fun t => p t.key && !t.used

/-- Hand out a ticket. -/
def issue (ts : List (Ticket κ)) (k : κ) : List (Ticket κ) := ts ++ [⟨k, false⟩]

/-- The first use of the ticket at `i`. -/
def use (ts : List (Ticket κ)) (i : Nat) : List (Ticket κ) :=
  ts.modify i fun t => { t with used := true }

theorem live_issue (ts : List (Ticket κ)) (k : κ) :
    live p (issue ts k) = live p ts + if p k then 1 else 0 := by
  simp [live, issue, List.countP_append, List.countP_singleton]

variable {p}

theorem mem_issue {ts : List (Ticket κ)} {k : κ} {t : Ticket κ} :
    t ∈ issue ts k ↔ t ∈ ts ∨ t = ⟨k, false⟩ := by
  rw [issue, List.mem_append, List.mem_singleton]

theorem getElem?_use (ts : List (Ticket κ)) (i j : Nat) :
    (use ts i)[j]? = (ts[j]?).map fun t => if i = j then { t with used := true } else t := by
  rw [use, List.getElem?_modify, Option.map_eq_map]

/-- A ticket that is unused was so before. -/
theorem mem_of_mem_use {ts : List (Ticket κ)} {i : Nat} {t : Ticket κ} (h : t ∈ use ts i)
    (hunused : t.used = false) : t ∈ ts := by
  obtain ⟨j, hj⟩ := List.mem_iff_getElem?.mp h
  rw [getElem?_use, Option.map_eq_some_iff] at hj
  obtain ⟨t', hget, hj⟩ := hj
  split at hj
  · rw [← hj] at hunused
    contradiction
  · exact hj ▸ List.mem_of_getElem? hget

/-- The first use takes one ticket from the live ones. -/
theorem live_use {ts : List (Ticket κ)} {i : Nat} {t : Ticket κ} (h : ts[i]? = some t)
    (hunused : t.used = false) : live p (use ts i) + (if p t.key then 1 else 0) = live p ts := by
  induction ts generalizing i with
  | nil => contradiction
  | cons t' ts ih =>
      cases i with
      | zero =>
          rw [List.getElem?_cons_zero, Option.some.injEq] at h
          subst h
          simp only [use, List.modify_zero_cons, live, List.countP_cons, hunused]
          cases p t'.key <;> simp
      | succ i =>
          rw [List.getElem?_cons_succ] at h
          have hrest := ih h
          simp only [use, List.modify_succ_cons, live, List.countP_cons] at hrest ⊢
          omega

/-- An unused ticket is live. -/
theorem live_pos {ts : List (Ticket κ)} {t : Ticket κ} (h : t ∈ ts) (hunused : t.used = false)
    (hp : p t.key = true) : 0 < live p ts := by
  rw [live, List.countP_pos_iff]
  exact ⟨t, h, by simp [hunused, hp]⟩

/-- Some unused ticket is behind a live count. -/
theorem exists_of_live_pos {ts : List (Ticket κ)} (h : 0 < live p ts) :
    ∃ t ∈ ts, t.used = false ∧ p t.key = true := by
  rw [live, List.countP_pos_iff] at h
  obtain ⟨t, hmem, ht⟩ := h
  rw [Bool.and_eq_true, Bool.not_eq_true'] at ht
  exact ⟨t, hmem, ht.2, ht.1⟩

end Ticket

end Conc

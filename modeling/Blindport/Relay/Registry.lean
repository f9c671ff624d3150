import Mathlib.Algebra.BigOperators.Fin
import Blindport.Conc.Machine
import Blindport.Protocol.Claim

/-!
# Blindport.Relay.Registry

`main.go` of `blindport-relay`: the registry of tunnels.  Every session registers its
tunnel once and unregisters it when it ends; sessions with the same claim overlap while
a client reconnects.  `Latest` says from the events alone which session a key is routed
to, and the main result is that the three maps and the gauges follow the events in
every run (`registry_run`).
-/

namespace Relay.Registry

open Protocol

/-! ## sessions -/

/-- What a session registers its tunnel with; without a subscription id the tunnel has
none. -/
structure Session where
  key : String
  kind : ClaimKind
  subscriptionID : Option String

/-- `claimKindIndex`. -/
def claimKindIndex : ClaimKind → Fin 3
  | .ip => 0
  | .port => 1
  | .relay => 2
  | .unknown _ => 0

/-! ## what the events say -/

section
variable {C : Type}

/-- What happens next: a session registers its tunnel, in two steps, or unregisters it,
perhaps not for the first time. -/
inductive Event (C : Type)
  | register (t : C)
  | count (t : C)
  | unregister (t : C)
deriving DecidableEq

variable (session : C → Session)

/-- `t` is the last one that was registered with its key, and has not been unregistered. -/
def Latest (past : List (Event C)) (t : C) : Prop :=
  ∃ before after, past = before ++ .register t :: after ∧
    (∀ u, .register u ∈ after → (session u).key ≠ (session t).key) ∧ .unregister t ∉ after

/-- The session of `t` has been registered and not unregistered. -/
def Registered (past : List (Event C)) (t : C) : Prop :=
  .register t ∈ past ∧ .unregister t ∉ past

variable {session} {past : List (Event C)} {e : Event C} {t : C}

/-- What one more event does to who is the latest. -/
theorem latest_snoc : Latest session (past ++ [e]) t ↔ e = .register t ∨
    (Latest session past t ∧ (∀ u, e = .register u → (session u).key ≠ (session t).key) ∧
      e ≠ .unregister t) := by
  constructor
  · rintro ⟨before, after, heq, hlater, hstays⟩
    cases List.eq_nil_or_concat after with
    | inl hnil =>
        rw [hnil] at heq
        have hlast := (List.append_inj' heq rfl).2
        exact Or.inl (List.cons.inj hlast).1
    | inr hlast =>
        obtain ⟨after', e', rfl⟩ := hlast
        rw [List.concat_eq_append] at heq hlater hstays
        rw [← List.cons_append, ← List.append_assoc] at heq
        obtain ⟨hpast, he⟩ := List.append_inj' heq rfl
        obtain rfl := (List.cons.inj he).1
        rw [List.mem_append, not_or, List.mem_singleton] at hstays
        refine Or.inr ⟨⟨before, after', hpast, fun u hu => ?_, hstays.1⟩, fun u hu => ?_,
          fun he => hstays.2 he.symm⟩
        · exact hlater u (List.mem_append_left _ hu)
        · exact hlater u (List.mem_append_right _ (by rw [hu]; simp))
  · intro h
    cases h with
    | inl he =>
        rw [he]
        exact ⟨past, [], rfl, by simp, by simp⟩
    | inr h =>
        obtain ⟨⟨before, after, rfl, hlater, hstays⟩, hkey, hne⟩ := h
        refine ⟨before, after ++ [e], by simp, fun u hu => ?_, ?_⟩
        · cases List.mem_append.mp hu with
          | inl hu => exact hlater u hu
          | inr hu => exact hkey u (List.mem_singleton.mp hu).symm
        · rw [List.mem_append, not_or, List.mem_singleton]
          exact ⟨hstays, fun he => hne he.symm⟩

theorem registered_snoc : Registered (past ++ [e]) t ↔
    (Registered past t ∧ e ≠ .unregister t) ∨ (e = .register t ∧ .unregister t ∉ past) := by
  unfold Registered
  rw [List.mem_append, List.mem_append, List.mem_singleton, List.mem_singleton, not_or]
  constructor
  · rintro ⟨hreg | hreg, hno, hne⟩
    · exact Or.inl ⟨⟨hreg, hno⟩, fun he => hne he.symm⟩
    · exact Or.inr ⟨hreg.symm, hno⟩
  · rintro (⟨⟨hreg, hno⟩, hne⟩ | ⟨rfl, hno⟩)
    · exact ⟨Or.inl hreg, hno, fun he => hne he.symm⟩
    · exact ⟨Or.inr rfl, hno, by simp⟩

end

/-! ## the registry -/

section
variable {C : Type} [DecidableEq C]

/-- The maps of the relay and its gauges; `C` are the tunnels. -/
structure Maps (C : Type) where
  tunnels : String → Option C
  tunnelSubscriptions : C → Option String
  allTunnels : Finset C
  active : Fin 3 → Int
  total : Fin 3 → Nat
  closed : Finset C

/-- A relay without sessions. -/
def Maps.empty : Maps C where
  tunnels := fun _ => none
  tunnelSubscriptions := fun _ => none
  allTunnels := ∅
  active := fun _ => 0
  total := fun _ => 0
  closed := ∅

/-- `registerTunnel` as far as it holds the lock. -/
def Maps.enter (r : Maps C) (session : Session) (t : C) : Maps C :=
  { r with
    tunnels := Function.update r.tunnels session.key (some t)
    tunnelSubscriptions := match session.subscriptionID with
      | some id => Function.update r.tunnelSubscriptions t (some id)
      | none => r.tunnelSubscriptions
    allTunnels := insert t r.allTunnels }

/-- The rest of `registerTunnel`; `old` is the tunnel that was routed before. -/
def Maps.count (r : Maps C) (session : Session) (old : Option C) : Maps C :=
  let index := claimKindIndex session.kind
  { r with
    active := Function.update r.active index (r.active index + 1)
    total := Function.update r.total index (r.total index + 1)
    closed := match old with
      | some old => insert old r.closed
      | none => r.closed }

/-- The tunnel is no longer routed, if it is the one that is. -/
def Maps.unroute (r : Maps C) (key : String) (t : C) : Maps C :=
  if r.tunnels key = some t then { r with tunnels := Function.update r.tunnels key none } else r

/-- `unregisterTunnel`, all of it under the lock. -/
def Maps.unregisterTunnel (r : Maps C) (session : Session) (t : C) : Maps C :=
  let r := r.unroute session.key t
  if t ∈ r.allTunnels then
    let index := claimKindIndex session.kind
    { r with
      allTunnels := r.allTunnels.erase t
      tunnelSubscriptions := Function.update r.tunnelSubscriptions t none
      active := Function.update r.active index (r.active index - 1) }
  else r

section
variable (r : Maps C) (key : String) (session : Session) (t u : C)

theorem unroute_tunnels : (r.unroute key t).tunnels =
    if r.tunnels key = some t then Function.update r.tunnels key none else r.tunnels := by
  unfold Maps.unroute
  split <;> rfl

@[simp] theorem unroute_all : (r.unroute key t).allTunnels = r.allTunnels := by
  unfold Maps.unroute
  split <;> rfl

@[simp] theorem unroute_subscriptions :
    (r.unroute key t).tunnelSubscriptions = r.tunnelSubscriptions := by
  unfold Maps.unroute
  split <;> rfl

@[simp] theorem unroute_active : (r.unroute key t).active = r.active := by
  unfold Maps.unroute
  split <;> rfl

theorem unregisterTunnel_tunnels : (r.unregisterTunnel session t).tunnels =
    if r.tunnels session.key = some t then Function.update r.tunnels session.key none
    else r.tunnels := by
  rw [← unroute_tunnels]
  simp only [Maps.unregisterTunnel]
  split <;> rfl

theorem unregisterTunnel_all :
    (r.unregisterTunnel session t).allTunnels = r.allTunnels.erase t := by
  by_cases hall : t ∈ r.allTunnels
  · simp [Maps.unregisterTunnel, hall]
  · simp [Maps.unregisterTunnel, hall]

theorem unregisterTunnel_subscriptions : (r.unregisterTunnel session t).tunnelSubscriptions u =
    if t ∈ r.allTunnels ∧ u = t then none else r.tunnelSubscriptions u := by
  by_cases hall : t ∈ r.allTunnels
  · simp [Maps.unregisterTunnel, hall, Function.update_apply]
  · simp [Maps.unregisterTunnel, hall]

theorem unregisterTunnel_active : (r.unregisterTunnel session t).active =
    if t ∈ r.allTunnels then Function.update r.active (claimKindIndex session.kind)
      (r.active (claimKindIndex session.kind) - 1)
    else r.active := by
  by_cases hall : t ∈ r.allTunnels
  · simp [Maps.unregisterTunnel, hall]
  · simp [Maps.unregisterTunnel, hall]

end

/-- `getTunnelSubscription`. -/
def Maps.getTunnelSubscription (r : Maps C) (key : String) : Option C × String :=
  (r.tunnels key, ((r.tunnels key).bind r.tunnelSubscriptions).getD "")

/-! ## sessions at work -/

/-- The registry and the sessions: those that called `registerTunnel`, those of them that
are still in it, and what each found routed before it. -/
structure State (C : Type) where
  registry : Maps C
  called : Finset C
  inside : Finset C
  old : C → Option C

/-- The start. -/
def State.init : State C := ⟨.empty, ∅, ∅, fun _ => none⟩

/-- One step.  A tunnel belongs to one session, which registers it once and unregisters
it only after that. -/
def step (session : C → Session) (s : State C) : Event C → Option (State C)
  | .register t =>
      if t ∈ s.called then none
      else some ⟨s.registry.enter (session t) t, insert t s.called, insert t s.inside,
        Function.update s.old t (s.registry.tunnels (session t).key)⟩
  | .count t =>
      if t ∈ s.inside then
        some { s with
          registry := s.registry.count (session t) (s.old t)
          inside := s.inside.erase t }
      else none
  | .unregister t =>
      if t ∈ s.called ∧ t ∉ s.inside then
        some { s with registry := s.registry.unregisterTunnel (session t) t }
      else none

/-- A run. -/
def run (session : C → Session) (s : State C) (es : List (Event C)) : Option (State C) :=
  Conc.exec (step session) s es

variable {session : C → Session} {past : List (Event C)} {e : Event C} {s s' : State C} {t : C}

/-! ## the invariant -/

/-- A gauge moves the sum of the gauges. -/
theorem sum_update_add (f : Fin 3 → Int) (i : Fin 3) (d : Int) :
    ∑ j, Function.update f i (f i + d) j = ∑ j, f j + d := by
  rw [Fin.sum_univ_three, Fin.sum_univ_three]
  match i with
  | 0 => simp; omega
  | 1 => simp; omega
  | 2 => simp; omega

/-- What holds in every state, of the events that led to it. -/
structure Inv (session : C → Session) (past : List (Event C)) (s : State C) : Prop where
  called : ∀ t, t ∈ s.called ↔ .register t ∈ past
  inside : s.inside ⊆ s.called
  unregistered : ∀ t, .unregister t ∈ past → t ∈ s.called
  all : ∀ t, t ∈ s.registry.allTunnels ↔ Registered past t
  routed : ∀ k t, s.registry.tunnels k = some t ↔ (session t).key = k ∧ Latest session past t
  latest : ∀ t, Latest session past t → t ∈ s.registry.allTunnels
  attributed : ∀ t, s.registry.tunnelSubscriptions t =
    if t ∈ s.registry.allTunnels then (session t).subscriptionID else none
  gauges : ∑ i, s.registry.active i + s.inside.card = s.registry.allTunnels.card

theorem inv_init (session : C → Session) : Inv session [] State.init where
  called := by simp [State.init]
  inside := by simp [State.init]
  unregistered := by simp
  all := by simp [State.init, Maps.empty, Registered]
  routed := by simp [State.init, Maps.empty, Latest]
  latest := by simp [Latest]
  attributed := by simp [State.init, Maps.empty]
  gauges := by simp [State.init, Maps.empty]

theorem Inv.not_mem_all (h : Inv session past s) (hnew : t ∉ s.called) :
    t ∉ s.registry.allTunnels := by
  intro hall
  exact hnew ((h.called t).mpr ((h.all t).mp hall).1)

theorem Inv.register (h : Inv session past s) (hnew : t ∉ s.called) :
    Inv session (past ++ [.register t]) ⟨s.registry.enter (session t) t, insert t s.called,
      insert t s.inside, Function.update s.old t (s.registry.tunnels (session t).key)⟩ := by
  have hout := h.not_mem_all hnew
  constructor
  · intro u
    simp [h.called, or_comm, eq_comm]
  · exact Finset.insert_subset_insert t h.inside
  · intro u hu
    simp only [List.mem_append, List.mem_singleton, reduceCtorEq, or_false] at hu
    exact Finset.mem_insert_of_mem (h.unregistered u hu)
  · intro u
    rw [registered_snoc, ← h.all]
    simp only [Maps.enter, Finset.mem_insert, ne_eq, reduceCtorEq, not_false_eq_true, and_true,
      Event.register.injEq]
    constructor
    · rintro (rfl | hu)
      · exact Or.inr ⟨rfl, fun hun => hnew (h.unregistered u hun)⟩
      · exact Or.inl hu
    · rintro (hu | ⟨rfl, -⟩)
      · exact Or.inr hu
      · exact Or.inl rfl
  · intro k u
    rw [latest_snoc]
    simp only [Maps.enter, Event.register.injEq, forall_eq', ne_eq, reduceCtorEq,
      not_false_eq_true, and_true]
    by_cases hk : k = (session t).key
    · rw [hk, Function.update_self]
      constructor
      · intro hu
        obtain rfl := Option.some.inj hu
        exact ⟨rfl, Or.inl rfl⟩
      · rintro ⟨hkey, rfl | ⟨-, hne⟩⟩
        · rfl
        · exact absurd hkey.symm hne
    · rw [Function.update_of_ne hk, h.routed]
      constructor
      · rintro ⟨rfl, hl⟩
        exact ⟨rfl, Or.inr ⟨hl, fun heq => hk heq.symm⟩⟩
      · rintro ⟨rfl, rfl | ⟨hl, -⟩⟩
        · exact absurd rfl hk
        · exact ⟨rfl, hl⟩
  · intro u hu
    cases latest_snoc.mp hu with
    | inl heq => exact (Event.register.inj heq) ▸ Finset.mem_insert_self ..
    | inr hl => exact Finset.mem_insert_of_mem (h.latest u hl.1)
  · intro u
    simp only [Maps.enter, Finset.mem_insert]
    by_cases hu : u = t
    · rw [hu, if_pos (Or.inl rfl)]
      cases hid : (session t).subscriptionID with
      | none =>
          have hnone := h.attributed t
          rw [if_neg hout] at hnone
          exact hnone
      | some id => exact Function.update_self ..
    · have hiff : (u = t ∨ u ∈ s.registry.allTunnels) ↔ u ∈ s.registry.allTunnels := by simp [hu]
      rw [if_congr hiff rfl rfl, ← h.attributed]
      cases (session t).subscriptionID with
      | none => rfl
      | some id => exact Function.update_of_ne hu ..
  · have hinside : t ∉ s.inside := fun ht => hnew (h.inside ht)
    have hg := h.gauges
    simp only [Maps.enter, Finset.card_insert_of_notMem hinside, Finset.card_insert_of_notMem hout]
    omega

theorem Inv.count (h : Inv session past s) (hin : t ∈ s.inside) :
    Inv session (past ++ [.count t]) { s with
      registry := s.registry.count (session t) (s.old t)
      inside := s.inside.erase t } := by
  constructor
  · intro u
    simp [h.called]
  · exact (Finset.erase_subset t s.inside).trans h.inside
  · intro u hu
    simp only [List.mem_append, List.mem_singleton, reduceCtorEq, or_false] at hu
    exact h.unregistered u hu
  · intro u
    rw [registered_snoc]
    simpa [Maps.count] using h.all u
  · intro k u
    rw [latest_snoc]
    simpa [Maps.count] using h.routed k u
  · intro u hu
    rw [latest_snoc] at hu
    exact h.latest u (by simpa using hu)
  · exact h.attributed
  · have hcard := Finset.card_erase_add_one hin
    have hg := h.gauges
    simp only [Maps.count, sum_update_add]
    omega

theorem Inv.unregister (h : Inv session past s) (hc : t ∈ s.called) :
    Inv session (past ++ [.unregister t])
      { s with registry := s.registry.unregisterTunnel (session t) t } := by
  constructor
  · intro u
    simp [h.called]
  · exact h.inside
  · intro u hu
    rw [List.mem_append, List.mem_singleton] at hu
    cases hu with
    | inl hu => exact h.unregistered u hu
    | inr hu => exact (Event.unregister.inj hu) ▸ hc
  · intro u
    rw [registered_snoc, ← h.all, unregisterTunnel_all, Finset.mem_erase]
    simp [and_comm, eq_comm]
  · intro k u
    rw [latest_snoc, unregisterTunnel_tunnels]
    simp only [reduceCtorEq, false_or, IsEmpty.forall_iff, implies_true, true_and, ne_eq,
      Event.unregister.injEq]
    by_cases hrouted : s.registry.tunnels (session t).key = some t
    · rw [if_pos hrouted]
      by_cases hk : k = (session t).key
      · rw [hk, Function.update_self]
        constructor
        · intro hu
          contradiction
        · rintro ⟨hkey, hl, hne⟩
          rw [(h.routed (session t).key u).mpr ⟨hkey, hl⟩, Option.some.injEq] at hrouted
          exact absurd hrouted.symm hne
      · rw [Function.update_of_ne hk, h.routed]
        constructor
        · rintro ⟨rfl, hl⟩
          exact ⟨rfl, hl, fun heq => hk (by rw [heq])⟩
        · rintro ⟨rfl, hl, -⟩
          exact ⟨rfl, hl⟩
    · rw [if_neg hrouted, h.routed]
      constructor
      · rintro ⟨rfl, hl⟩
        refine ⟨rfl, hl, ?_⟩
        rintro rfl
        exact hrouted ((h.routed _ _).mpr ⟨rfl, hl⟩)
      · rintro ⟨rfl, hl, -⟩
        exact ⟨rfl, hl⟩
  · intro u hu
    rw [latest_snoc] at hu
    obtain ⟨hl, -, hne⟩ := hu.resolve_left (by simp)
    rw [unregisterTunnel_all, Finset.mem_erase]
    exact ⟨fun heq => hne (by rw [heq]), h.latest u hl⟩
  · intro u
    simp only [unregisterTunnel_all, unregisterTunnel_subscriptions, Finset.mem_erase, h.attributed]
    by_cases hu : u = t
    · by_cases hall : t ∈ s.registry.allTunnels
      · simp [hu, hall]
      · simp [hu, hall]
    · simp [hu]
  · have hg := h.gauges
    dsimp only
    rw [unregisterTunnel_all, unregisterTunnel_active]
    by_cases hall : t ∈ s.registry.allTunnels
    · have hcard := Finset.card_erase_add_one hall
      rw [if_pos hall, sub_eq_add_neg, sum_update_add]
      omega
    · rw [if_neg hall, Finset.erase_eq_of_notMem hall]
      exact hg

theorem Inv.step (h : Inv session past s) (hs : step session s e = some s') :
    Inv session (past ++ [e]) s' := by
  cases e with
  | register t =>
      simp only [Registry.step] at hs
      split at hs
      · contradiction
      · exact Option.some.inj hs ▸ h.register ‹_›
  | count t =>
      simp only [Registry.step] at hs
      split at hs
      · exact Option.some.inj hs ▸ h.count ‹_›
      · contradiction
  | unregister t =>
      simp only [Registry.step] at hs
      split at hs
      · rename_i hc
        exact Option.some.inj hs ▸ h.unregister hc.1
      · contradiction

/-- **The invariant holds in every run.** -/
theorem run_inv {es : List (Event C)} (hrun : run session State.init es = some s) :
    Inv session es s :=
  Conc.exec_history (fun _ _ _ _ h hs => Inv.step h hs) (inv_init session) hrun

end

/-- **The registry.**  Whatever order sessions register and unregister their tunnels in,
in every state: a routed tunnel is a registered one, under its own key; a session that
was registered and has not unregistered itself is registered, and no other; the last
session registered with a key is routed until it unregisters itself; unregistering a
session takes no other one out; the subscription that comes with a key is the one of
the routed session; and the gauges sum to the number of registered sessions, less the
calls of `registerTunnel` that have not counted theirs yet. -/
theorem registry_run {C : Type} [DecidableEq C] (session : C → Session) (es : List (Event C))
    (s : State C) (hrun : run session State.init es = some s) :
    (∀ k t, s.registry.tunnels k = some t →
      t ∈ s.registry.allTunnels ∧ (session t).key = k) ∧
    (∀ t, t ∈ s.registry.allTunnels ↔ .register t ∈ es ∧ .unregister t ∉ es) ∧
    (∀ before after t, es = before ++ .register t :: after →
      (∀ u, .register u ∈ after → (session u).key ≠ (session t).key) → .unregister t ∉ after →
      s.registry.tunnels (session t).key = some t) ∧
    (∀ t s', step session s (.unregister t) = some s' → ∀ k u, u ≠ t →
      s.registry.tunnels k = some u → s'.registry.tunnels k = some u) ∧
    (∀ k t subscriptionID, s.registry.getTunnelSubscription k = (some t, subscriptionID) →
      subscriptionID = (session t).subscriptionID.getD "") ∧
    ∑ i, s.registry.active i + s.inside.card = s.registry.allTunnels.card ∧
    (s.inside = ∅ → ∑ i, s.registry.active i = s.registry.allTunnels.card) := by
  have h := run_inv hrun
  have hrouted : ∀ k t, s.registry.tunnels k = some t →
      t ∈ s.registry.allTunnels ∧ (session t).key = k := by
    intro k t ht
    obtain ⟨hkey, hl⟩ := (h.routed k t).mp ht
    exact ⟨h.latest t hl, hkey⟩
  refine ⟨hrouted, h.all, ?_, ?_, ?_, h.gauges, ?_⟩
  · intro before after t heq hlater hstays
    exact (h.routed _ t).mpr ⟨rfl, before, after, heq, hlater, hstays⟩
  · intro t s' hs k u hne hu
    have h' := h.step hs
    obtain ⟨hkey, hl⟩ := (h.routed k u).mp hu
    refine (h'.routed k u).mpr ⟨hkey, latest_snoc.mpr (Or.inr ⟨hl, by simp, ?_⟩)⟩
    intro heq
    exact hne (Event.unregister.inj heq).symm
  · intro k t subscriptionID hget
    obtain ⟨ht, hsub⟩ := Prod.mk.inj hget
    rw [← hsub, ht, Option.bind_some, h.attributed, if_pos (hrouted k t ht).1]
  · intro hin
    have hg := h.gauges
    rw [hin, Finset.card_empty] at hg
    omega

/-- Two sessions of one account, the second before the first has gone. -/
def overlapping : Nat → Session := fun _ => ⟨"domain:a.example", .relay, some "s1"⟩

theorem registry_run_overlapping :
    ∃ s, run overlapping State.init [.register 0, .count 0, .register 1, .unregister 0, .count 1,
      .unregister 0] = some s ∧ s.registry.tunnels "domain:a.example" = some 1 := by
  refine ⟨_, rfl, ?_⟩
  exact (registry_run overlapping _ _ rfl).2.2.1 [.register 0, .count 0]
    [.unregister 0, .count 1, .unregister 0] 1 rfl (by simp) (by simp)

end Relay.Registry

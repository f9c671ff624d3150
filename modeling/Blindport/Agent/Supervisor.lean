import Mathlib.Data.List.Nodup
import Blindport.Conc.Machine
import Blindport.Protocol.Claim

/-!
# Blindport.Agent.Supervisor

`worker.go`: `workerSupervisor`, which keeps one worker goroutine for each wanted
mapping.  The events are the statements of the `Reconcile` and `Shutdown` calls and of
the workers, in any order; workers exit when they like.

`reconcileMu` is held by one call at a time, so a state has the statement of its holder
(`Holder`).  A section under `mu` is one event, except for the loop that starts the
workers: they run while it still holds `mu`.

`Inv` is the invariant, and `supervisor_safety` what it says: one worker for a key at a
time, an old one gone before a new one starts, nothing left after `Shutdown`.
-/

namespace Agent.Supervisor

open Protocol

/-! ## plans -/

/-- `workerKey`. -/
structure WorkerKey where
  accountName : String
  subscriptionID : String
  relayAddr : String
deriving DecidableEq

/-- `workerPlan`. -/
structure WorkerPlan where
  accountName : String := ""
  subscriptionID : String
  relayAddr : String
  edgeID : String := ""
  entitlement : String := ""
  upstream : String
  httpChallengeUpstream : String := ""
  tlsMode : String := ""
  proxyProtocol : String := ""
  claim : Option Claim := none
deriving DecidableEq

/-- The key of a plan. -/
def WorkerPlan.key (plan : WorkerPlan) : WorkerKey :=
  ⟨plan.accountName, plan.subscriptionID, plan.relayAddr⟩

/-- `sameWorkerPlan`. -/
def sameWorkerPlan (a b : WorkerPlan) : Bool :=
  if a.accountName ≠ b.accountName ∨ a.subscriptionID ≠ b.subscriptionID ∨
      a.relayAddr ≠ b.relayAddr ∨ a.edgeID ≠ b.edgeID ∨ a.upstream ≠ b.upstream ∨
      a.httpChallengeUpstream ≠ b.httpChallengeUpstream ∨ a.tlsMode ≠ b.tlsMode ∨
      a.proxyProtocol ≠ b.proxyProtocol ∨ a.claim.isNone ≠ b.claim.isNone then false
  else a.claim = none ∨ a.claim = b.claim

/-- `sameWorkerPlan` leaves the entitlement out, and nothing else. -/
theorem sameWorkerPlan_iff {a b : WorkerPlan} :
    sameWorkerPlan a b = true ↔ { a with entitlement := b.entitlement } = b := by
  obtain ⟨a₁, a₂, a₃, a₄, a₅, a₆, a₇, a₈, a₉, claim⟩ := a
  obtain ⟨b₁, b₂, b₃, b₄, b₅, b₆, b₇, b₈, b₉, claim'⟩ := b
  cases claim <;> cases claim' <;> simp [sameWorkerPlan, and_assoc]

/-- The first plan whose key an earlier plan has. -/
def duplicate (seen : List WorkerKey) : List WorkerPlan → Option WorkerPlan
  | [] => none
  | plan :: plans =>
      if plan.key ∈ seen then some plan else duplicate (plan.key :: seen) plans

/-- `desired[key]`. -/
def planFor (plans : List WorkerPlan) (key : WorkerKey) : Option WorkerPlan :=
  plans.find? (·.key = key)

/-! ## states -/

/-- Where the goroutine of a worker is. -/
inductive Phase where
  /-- In `run`. -/
  | running
  /-- Before the section that removes its entry. -/
  | returned
  /-- Before `close(worker.done)`. -/
  | removed
  | done
deriving DecidableEq

/-- `supervisedWorker`. -/
structure Worker where
  plan : WorkerPlan
  cancelled : Bool
  phase : Phase
deriving DecidableEq

/-- The worker can still be found in the map. -/
def Worker.active (x : Worker) : Prop := x.phase = .running ∨ x.phase = .returned

instance (x : Worker) : Decidable x.active := inferInstanceAs (Decidable (_ ∨ _))

/-- A call. -/
inductive Call where
  | reconcile (plans : List WorkerPlan)
  | shutdown
deriving DecidableEq

/-- What the call that holds `reconcileMu` does next. -/
inductive Holder where
  /-- No call holds it. -/
  | free
  /-- `Reconcile`: `entitlements.Replace`. -/
  | replacing (plans : List WorkerPlan)
  /-- The section that cancels the workers that are not wanted. -/
  | stopping (plans : List WorkerPlan)
  /-- The wait for these workers, and then the look at the context. -/
  | waiting (plans desired : List WorkerPlan) (stopping : List Nat)
  /-- The loop that starts workers, under `mu`. -/
  | starting (plans desired : List WorkerPlan)
  | unlocking (plans : List WorkerPlan) (err : Option String)
  /-- `Shutdown`: `s.cancel()`. -/
  | cancelling
  /-- The section that cancels all workers. -/
  | stoppingAll
  | waitingAll (workers : List Nat)
  /-- `entitlements.Replace(nil)`. -/
  | clearing
  | unlockingAll
deriving DecidableEq

/-- `workerSupervisor`.  `started` are the workers in the order in which they were
started, and the map has their indices. -/
structure State where
  ctxDone : Bool
  workers : WorkerKey → Option Nat
  entitlements : WorkerKey → Option String
  started : List Worker
  /-- The calls that want `reconcileMu`. -/
  calls : List Call
  holder : Holder
  /-- The calls that returned, with their error. -/
  returned : List (Call × Option String)
  /-- The plans of the last call, when it was a `Reconcile` that got to `return nil`. -/
  settled : Option (List WorkerPlan)

/-- `newWorkerSupervisor`. -/
def newWorkerSupervisor : State where
  ctxDone := false
  workers _ := none
  entitlements _ := none
  started := []
  calls := []
  holder := .free
  returned := []
  settled := none

/-! ## steps -/

inductive Event where
  /-- A goroutine calls `Reconcile`; two plans with one key are refused at once. -/
  | reconcile (plans : List WorkerPlan)
  | shutdown
  /-- A waiting call gets `reconcileMu`. -/
  | lock (i : Nat)
  /-- The next statement of the call that has it. -/
  | next
  /-- The context the supervisor was made with ends. -/
  | parentDone
  /-- `run` of a worker returns. -/
  | exits (w : Nat)
  /-- The worker removes its own entry. -/
  | removes (w : Nat)
  /-- `close(worker.done)`. -/
  | closes (w : Nat)
deriving DecidableEq

/-- The first statement after `reconcileMu.Lock`. -/
def Call.first : Call → Holder
  | .reconcile plans => .replacing plans
  | .shutdown => .cancelling

/-- The loop that starts workers holds `mu`. -/
def Holder.holdsMu : Holder → Bool
  | .starting _ _ => true
  | _ => false

namespace State

/-- The worker is the one its key has in the map. -/
def registered (s : State) (w : Nat) : Bool :=
  (s.started[w]?).any fun x => s.workers x.plan.key = some w

/-- `keep && sameWorkerPlan(worker.plan, plan)`. -/
def keeps (s : State) (plans : List WorkerPlan) (w : Nat) : Bool :=
  (s.started[w]?).any fun x =>
    (planFor plans x.plan.key).any fun plan => sameWorkerPlan x.plan plan

/-- The registered workers that meet a condition leave the map and are cancelled. -/
def stop (s : State) (p : Nat → Bool) : State × List Nat :=
  let stopping := (List.range s.started.length).filter fun w => s.registered w && p w
  ({ s with
      workers := fun key => (s.workers key).filter fun w => !p w
      started := s.started.mapIdx fun w x =>
        if w ∈ stopping then { x with cancelled := true } else x }, stopping)

/-- One turn of the loop that starts workers. -/
def start (s : State) (plan : WorkerPlan) : State :=
  { s with
    workers := fun key => if key = plan.key then some s.started.length else s.workers key
    started := s.started ++ [{ plan, cancelled := false, phase := .running }] }

/-- The phase of a worker changes. -/
def setPhase (s : State) (w : Nat) (x : Worker) (phase : Phase) : State :=
  { s with started := s.started.set w { x with phase } }

/-- The next statement of the holder of `reconcileMu`. -/
def next (s : State) : Option State :=
  match s.holder with
  | .free => none
  | .replacing plans =>
      some { s with
        entitlements := fun key => (planFor plans key).map (·.entitlement)
        holder := .stopping plans }
  | .stopping plans =>
      let (t, stopping) := s.stop fun w => !s.keeps plans w
      let desired := plans.filter fun plan =>
        !(s.workers plan.key).any fun w => s.keeps plans w
      some { t with holder := .waiting plans desired stopping }
  | .waiting plans desired (w :: ws) =>
      if (s.started[w]?).any (·.phase = .done) then
        some { s with holder := .waiting plans desired ws }
      else none
  | .waiting plans desired [] =>
      if s.ctxDone then some { s with holder := .unlocking plans (some "context canceled") }
      else some { s with holder := .starting plans desired }
  | .starting plans (plan :: desired) =>
      some { s.start plan with holder := .starting plans desired }
  | .starting plans [] =>
      some { s with holder := .unlocking plans none, settled := some plans }
  | .unlocking plans err =>
      some { s with holder := .free, returned := s.returned ++ [(.reconcile plans, err)] }
  | .cancelling => some { s with ctxDone := true, holder := .stoppingAll }
  | .stoppingAll =>
      let (t, workers) := s.stop fun _ => true
      some { t with holder := .waitingAll workers }
  | .waitingAll (w :: ws) =>
      if (s.started[w]?).any (·.phase = .done) then some { s with holder := .waitingAll ws }
      else none
  | .waitingAll [] => some { s with holder := .clearing }
  | .clearing => some { s with entitlements := fun _ => none, holder := .unlockingAll }
  | .unlockingAll =>
      some { s with holder := .free, returned := s.returned ++ [(.shutdown, none)] }

/-- One step; `none` when it cannot happen. -/
def step (s : State) : Event → Option State
  | .reconcile plans =>
      match duplicate [] plans with
      | some plan =>
          some { s with returned := s.returned ++ [(.reconcile plans,
            some ("duplicate worker plan for subscription " ++ plan.subscriptionID ++ " relay " ++
              plan.relayAddr))] }
      | none => some { s with calls := s.calls ++ [.reconcile plans] }
  | .shutdown => some { s with calls := s.calls ++ [.shutdown] }
  | .lock i =>
      match s.calls[i]?, s.holder with
      | some call, .free =>
          some { s with calls := s.calls.eraseIdx i, holder := call.first, settled := none }
      | _, _ => none
  | .next => s.next
  | .parentDone => some { s with ctxDone := true }
  | .exits w =>
      match s.started[w]? with
      | some x => if x.phase = .running then some (s.setPhase w x .returned) else none
      | none => none
  | .removes w =>
      match s.started[w]? with
      | some x =>
          if x.phase = .returned ∧ s.holder.holdsMu = false then
            some { s.setPhase w x .removed with
              workers := fun key =>
                if key = x.plan.key ∧ s.workers key = some w then none else s.workers key }
          else none
      | none => none
  | .closes w =>
      match s.started[w]? with
      | some x => if x.phase = .removed then some (s.setPhase w x .done) else none
      | none => none

/-- A run of events, in any order. -/
def run (es : List Event) : Option State := Conc.exec step newWorkerSupervisor es

end State

/-! ## plans with their own keys -/

theorem nodup_of_duplicate {plans : List WorkerPlan} {seen : List WorkerKey}
    (h : duplicate seen plans = none) :
    (plans.map (·.key)).Nodup ∧ ∀ p ∈ plans, p.key ∉ seen := by
  induction plans generalizing seen with
  | nil => simp
  | cons plan plans ih =>
      rw [duplicate] at h
      split at h
      · contradiction
      · rename_i hnew
        obtain ⟨hnodup, hout⟩ := ih h
        rw [List.map_cons, List.nodup_cons]
        refine ⟨⟨?_, hnodup⟩, ?_⟩
        · intro hmem
          obtain ⟨p, hp, hkey⟩ := List.mem_map.mp hmem
          exact hout p hp (hkey ▸ List.mem_cons_self)
        · intro p hp
          cases List.mem_cons.mp hp with
          | inl hp => exact hp ▸ hnew
          | inr hp => exact fun hseen => hout p hp (List.mem_cons_of_mem _ hseen)

theorem eq_of_key {plans : List WorkerPlan} (h : (plans.map (·.key)).Nodup) {p q : WorkerPlan}
    (hp : p ∈ plans) (hq : q ∈ plans) (hkey : p.key = q.key) : p = q :=
  List.inj_on_of_nodup_map h hp hq hkey

theorem planFor_eq_some {plans : List WorkerPlan} (h : (plans.map (·.key)).Nodup)
    {p : WorkerPlan} {key : WorkerKey} : planFor plans key = some p ↔ p ∈ plans ∧ p.key = key := by
  constructor
  · intro hfind
    exact ⟨List.mem_of_find?_eq_some hfind, by simpa using List.find?_some hfind⟩
  · intro ⟨hp, hkey⟩
    cases hfind : planFor plans key with
    | none =>
        have hnone := List.find?_eq_none.mp hfind p hp
        simp [hkey] at hnone
    | some q =>
        have hq := List.mem_of_find?_eq_some hfind
        have hqkey : q.key = key := by simpa using List.find?_some hfind
        rw [eq_of_key h hp hq (hkey.trans hqkey.symm)]

/-! ## the invariant -/

/-- The workers that the holder of the lock waits for. -/
def Holder.stops : Holder → List Nat
  | .waiting _ _ ws => ws
  | .waitingAll ws => ws
  | _ => []

/-- No call is on its way. -/
def Holder.idle : Holder → Bool
  | .free | .unlocking _ _ => true
  | _ => false

/-- `Shutdown` has cancelled the context. -/
def Holder.cancelledAll : Holder → Bool
  | .stoppingAll | .waitingAll _ | .clearing | .unlockingAll => true
  | _ => false

/-- `Shutdown` has emptied the map. -/
def Holder.emptied : Holder → Bool
  | .waitingAll _ | .clearing | .unlockingAll => true
  | _ => false

/-- `Shutdown` has seen every worker stop. -/
def Holder.quiet : Holder → Bool
  | .clearing | .unlockingAll => true
  | _ => false

namespace State

variable {s s' : State} {plans desired : List WorkerPlan}

/-- A worker for the plan is in the map, or it exited by itself. -/
def Served (s : State) (p : WorkerPlan) : Prop :=
  ∃ (w : Nat) (x : Worker), s.started[w]? = some x ∧ sameWorkerPlan x.plan p = true ∧
    x.cancelled = false ∧ (s.workers p.key = some w ∨ ¬ x.active)

/-- The map has wanted workers only, and the plans without one are those that are still
to be started. -/
structure Pending (s : State) (plans desired : List WorkerPlan) : Prop where
  distinct : (plans.map (·.key)).Nodup
  sublist : desired.Sublist plans
  absent : ∀ p ∈ desired, s.workers p.key = none
  stored : ∀ p ∈ plans, s.entitlements p.key = some p.entitlement
  wanted : ∀ key w, s.workers key = some w → ∃ x p, s.started[w]? = some x ∧ p ∈ plans ∧
    p.key = key ∧ sameWorkerPlan x.plan p = true
  served : ∀ p ∈ plans, p ∈ desired ∨ s.Served p

/-- What holds before the next statement of the holder. -/
def Stage (s : State) : Holder → Prop
  | .replacing plans => (plans.map (·.key)).Nodup
  | .stopping plans =>
      (plans.map (·.key)).Nodup ∧ ∀ p ∈ plans, s.entitlements p.key = some p.entitlement
  | .waiting plans desired _ | .starting plans desired => s.Pending plans desired
  | .unlocking plans err => err = none → s.settled = some plans
  | _ => True

/-- `Shutdown` has returned. -/
def shut (s : State) : Prop := (Call.shutdown, none) ∈ s.returned

structure Inv (s : State) : Prop where
  /-- The map has active workers that nobody has cancelled, under their keys. -/
  keyed : ∀ key w, s.workers key = some w → ∃ x, s.started[w]? = some x ∧ x.plan.key = key ∧
    x.cancelled = false ∧ x.active
  /-- An active worker is in the map, or somebody waits for it. -/
  active : ∀ (w : Nat) (x : Worker), s.started[w]? = some x → x.active →
    s.workers x.plan.key = some w ∨ w ∈ s.holder.stops
  /-- An older worker of the same key is not active. -/
  ordered : ∀ (i j : Nat) (x y : Worker), s.started[i]? = some x → s.started[j]? = some y → i < j →
    x.plan.key = y.plan.key → ¬ x.active
  calls : ∀ plans, Call.reconcile plans ∈ s.calls → (plans.map (·.key)).Nodup
  stage : s.Stage s.holder
  settled : ∀ plans, s.settled = some plans → s.Pending plans [] ∧ s.holder.idle = true
  cancelled : s.shut ∨ s.holder.cancelledAll = true → s.ctxDone = true ∧ s.holder.holdsMu = false
  emptied : s.shut ∨ s.holder.emptied = true → ∀ key, s.workers key = none
  quiet : s.shut ∨ s.holder.quiet = true →
    ∀ (w : Nat) (x : Worker), s.started[w]? = some x → ¬ x.active

theorem newWorkerSupervisor_inv : newWorkerSupervisor.Inv where
  keyed := by simp [newWorkerSupervisor]
  active := by simp [newWorkerSupervisor]
  ordered := by simp [newWorkerSupervisor]
  calls := by simp [newWorkerSupervisor]
  stage := trivial
  settled := by simp [newWorkerSupervisor]
  cancelled := by simp [newWorkerSupervisor, shut, Holder.cancelledAll]
  emptied := by simp [newWorkerSupervisor]
  quiet := by simp [newWorkerSupervisor]

/-! ## workers -/

/-- The worker has gone on, and is still active if it was. -/
def Alike (x y : Worker) : Prop :=
  y.plan = x.plan ∧ y.cancelled = x.cancelled ∧ (y.active ↔ x.active)

theorem Alike.refl (x : Worker) : Alike x x := ⟨rfl, rfl, Iff.rfl⟩

/-- A plan that is served stays so while nobody cancels its worker. -/
theorem Served.congr {p : WorkerPlan} (h : s.Served p) (hworkers : s'.workers = s.workers)
    (hstarted : ∀ (w : Nat) (x : Worker), s.started[w]? = some x →
      ∃ y, s'.started[w]? = some y ∧ Alike x y) :
    s'.Served p := by
  obtain ⟨w, x, hw, hsame, hcancelled, hfound⟩ := h
  obtain ⟨y, hy, hplan, hcancel, hactive⟩ := hstarted w x hw
  refine ⟨w, y, hy, hplan ▸ hsame, hcancel ▸ hcancelled, ?_⟩
  rw [hworkers, hactive]
  exact hfound

theorem Pending.congr (h : s.Pending plans desired) (hworkers : s'.workers = s.workers)
    (hstored : s'.entitlements = s.entitlements)
    (hstarted : ∀ (w : Nat) (x : Worker), s.started[w]? = some x →
      ∃ y, s'.started[w]? = some y ∧ Alike x y) :
    s'.Pending plans desired := by
  refine ⟨h.distinct, h.sublist, ?_, ?_, ?_, ?_⟩
  · rw [hworkers]
    exact h.absent
  · rw [hstored]
    exact h.stored
  · intro key w hw
    rw [hworkers] at hw
    obtain ⟨x, p, hx, hp, hkey, hsame⟩ := h.wanted key w hw
    obtain ⟨y, hy, hplan, -⟩ := hstarted w x hx
    exact ⟨y, p, hy, hp, hkey, hplan ▸ hsame⟩
  · intro p hp
    exact (h.served p hp).imp_right fun hserved => hserved.congr hworkers hstarted

/-- What a worker does while its entry does not change keeps the invariant. -/
theorem Inv.congr (h : s.Inv) (hworkers : s'.workers = s.workers)
    (hstored : s'.entitlements = s.entitlements)
    (hcalls : ∀ plans, Call.reconcile plans ∈ s'.calls → (plans.map (·.key)).Nodup)
    (hholder : s'.holder = s.holder) (hshut : s'.shut → s.shut)
    (hsettled : s'.settled = s.settled) (hctx : s.ctxDone = true → s'.ctxDone = true)
    (hstarted : ∀ (w : Nat) (x : Worker), s.started[w]? = some x →
      ∃ y, s'.started[w]? = some y ∧ Alike x y)
    (hlength : s'.started.length = s.started.length) : s'.Inv := by
  have hback : ∀ (w : Nat) (y : Worker), s'.started[w]? = some y →
      ∃ x, s.started[w]? = some x ∧ Alike x y := by
    intro w y hy
    have hlt := (List.getElem?_eq_some_iff.mp hy).1
    have hx := List.getElem?_eq_getElem (hlength ▸ hlt)
    obtain ⟨y', hy', hlike⟩ := hstarted w _ hx
    rw [hy] at hy'
    exact ⟨_, hx, Option.some.inj hy' ▸ hlike⟩
  constructor
  · intro key w hw
    rw [hworkers] at hw
    obtain ⟨x, hx, hkey, hcancelled, hactive⟩ := h.keyed key w hw
    obtain ⟨y, hy, hplan, hcancel, hiff⟩ := hstarted w x hx
    exact ⟨y, hy, hplan ▸ hkey, hcancel ▸ hcancelled, hiff.mpr hactive⟩
  · intro w y hy hactive
    obtain ⟨x, hx, hplan, -, hiff⟩ := hback w y hy
    rw [hworkers, hholder, hplan]
    exact h.active w x hx (hiff.mp hactive)
  · intro i j y₁ y₂ h₁ h₂ hij hkey hactive
    obtain ⟨x₁, hx₁, hplan₁, -, hiff⟩ := hback i y₁ h₁
    obtain ⟨x₂, hx₂, hplan₂, -, -⟩ := hback j y₂ h₂
    rw [hplan₁, hplan₂] at hkey
    exact h.ordered i j x₁ x₂ hx₁ hx₂ hij hkey (hiff.mp hactive)
  · exact hcalls
  · have hstage := h.stage
    rw [hholder]
    revert hstage
    cases s.holder with
    | stopping plans =>
        intro hstage
        exact ⟨hstage.1, hstored ▸ hstage.2⟩
    | waiting plans desired ws => exact fun hstage => hstage.congr hworkers hstored hstarted
    | starting plans desired => exact fun hstage => hstage.congr hworkers hstored hstarted
    | unlocking plans err => exact fun hstage hnil => hsettled.trans (hstage hnil)
    | _ => exact id
  · intro plans hplans
    rw [hsettled] at hplans
    rw [hholder]
    obtain ⟨hpending, hidle⟩ := h.settled plans hplans
    exact ⟨hpending.congr hworkers hstored hstarted, hidle⟩
  · rw [hholder]
    intro hover
    obtain ⟨hdone, hmu⟩ := h.cancelled (hover.imp_left hshut)
    exact ⟨hctx hdone, hmu⟩
  · rw [hholder, hworkers]
    exact fun hover => h.emptied (hover.imp_left hshut)
  · rw [hholder]
    intro hover w y hy hactive
    obtain ⟨x, hx, -, -, hiff⟩ := hback w y hy
    exact h.quiet (hover.imp_left hshut) w x hx (hiff.mp hactive)

/-- A worker goes on to a phase in which it is active if it was. -/
theorem Inv.setPhase (h : s.Inv) {w : Nat} {x : Worker} (hx : s.started[w]? = some x)
    {phase : Phase} (hphase : ({ x with phase } : Worker).active ↔ x.active) :
    (s.setPhase w x phase).Inv := by
  refine h.congr rfl rfl h.calls rfl id rfl id ?_ (by simp [State.setPhase])
  intro v y hy
  simp only [State.setPhase, List.getElem?_set]
  by_cases hv : w = v
  · subst hv
    rw [hx] at hy
    obtain rfl := Option.some.inj hy
    have hlt := (List.getElem?_eq_some_iff.mp hx).1
    rw [if_pos rfl, if_pos hlt]
    exact ⟨_, rfl, rfl, rfl, hphase⟩
  · rw [if_neg hv]
    exact ⟨y, hy, .refl y⟩

/-- The state after the worker `w` has removed its own entry. -/
def removed (s : State) (w : Nat) (x : Worker) : State :=
  { s.setPhase w x .removed with
    workers := fun key =>
      if key = x.plan.key ∧ s.workers key = some w then none else s.workers key }

theorem removed_started {w : Nat} {x : Worker} (hx : s.started[w]? = some x) {v : Nat} {y : Worker}
    (hy : (s.removed w x).started[v]? = some y) :
    (v = w ∧ y = { x with phase := .removed }) ∨ (v ≠ w ∧ s.started[v]? = some y) := by
  have hlt := (List.getElem?_eq_some_iff.mp hx).1
  simp only [removed, setPhase, List.getElem?_set] at hy
  by_cases hv : w = v
  · rw [if_pos hv, if_pos hlt] at hy
    exact .inl ⟨hv.symm, (Option.some.inj hy).symm⟩
  · rw [if_neg hv] at hy
    exact .inr ⟨fun h => hv h.symm, hy⟩

theorem removed_other {w : Nat} {x : Worker} {v : Nat} {y : Worker} (hv : v ≠ w)
    (hy : s.started[v]? = some y) : (s.removed w x).started[v]? = some y := by
  simp only [removed, setPhase, List.getElem?_set, if_neg (Ne.symm hv)]
  exact hy

theorem removed_self {w : Nat} {x : Worker} (hx : s.started[w]? = some x) :
    (s.removed w x).started[w]? = some { x with phase := .removed } := by
  have hlt := (List.getElem?_eq_some_iff.mp hx).1
  simp only [removed, setPhase, List.getElem?_set, if_true, hlt]

theorem removed_workers {w : Nat} {x : Worker} {key : WorkerKey} {v : Nat}
    (h : (s.removed w x).workers key = some v) : s.workers key = some v := by
  simp only [removed] at h
  split at h
  · contradiction
  · exact h

/-- **A stale exit** leaves the entries of other workers in place. -/
theorem removed_successor {w : Nat} {x : Worker} {key : WorkerKey} {v : Nat}
    (h : s.workers key = some v) (hv : v ≠ w) : (s.removed w x).workers key = some v := by
  simp only [removed]
  rw [if_neg, h]
  intro ⟨_, hw⟩
  rw [h] at hw
  exact hv (Option.some.inj hw)

/-! What a worker can do. -/

theorem step_exits {w : Nat} (hs : s.step (.exits w) = some s') :
    ∃ x, s.started[w]? = some x ∧ x.phase = .running ∧ s' = s.setPhase w x .returned := by
  simp only [step] at hs
  split at hs
  · rename_i x hx
    split at hs
    · rename_i hphase
      exact ⟨x, hx, hphase, (Option.some.inj hs).symm⟩
    · contradiction
  · contradiction

theorem step_removes {w : Nat} (hs : s.step (.removes w) = some s') :
    ∃ x, s.started[w]? = some x ∧ x.phase = .returned ∧ s' = s.removed w x := by
  simp only [step] at hs
  split at hs
  · rename_i x hx
    split at hs
    · rename_i hphase
      exact ⟨x, hx, hphase.1, (Option.some.inj hs).symm⟩
    · contradiction
  · contradiction

theorem step_closes {w : Nat} (hs : s.step (.closes w) = some s') :
    ∃ x, s.started[w]? = some x ∧ x.phase = .removed ∧ s' = s.setPhase w x .done := by
  simp only [step] at hs
  split at hs
  · rename_i x hx
    split at hs
    · rename_i hphase
      exact ⟨x, hx, hphase, (Option.some.inj hs).symm⟩
    · contradiction
  · contradiction

/-- A worker that removes its entry is one that exited. -/
theorem Served.removed {p : WorkerPlan} (h : s.Served p) {w : Nat} {x : Worker}
    (hx : s.started[w]? = some x) : (s.removed w x).Served p := by
  obtain ⟨v, y, hy, hsame, hcancelled, hfound⟩ := h
  by_cases hv : v = w
  · subst hv
    rw [hx] at hy
    obtain rfl := Option.some.inj hy
    exact ⟨v, _, removed_self hx, hsame, hcancelled, .inr (by simp [Worker.active])⟩
  · refine ⟨v, y, removed_other hv hy, hsame, hcancelled, ?_⟩
    exact hfound.imp_left fun hfound => removed_successor hfound hv

theorem Pending.removed (h : s.Pending plans desired) {w : Nat} {x : Worker}
    (hx : s.started[w]? = some x) : (s.removed w x).Pending plans desired := by
  refine ⟨h.distinct, h.sublist, ?_, h.stored, ?_, ?_⟩
  · intro p hp
    cases hw : (s.removed w x).workers p.key with
    | none => rfl
    | some v =>
        have hnone := h.absent p hp
        rw [removed_workers hw] at hnone
        contradiction
  · intro key v hv
    obtain ⟨y, p, hy, hp, hkey, hsame⟩ := h.wanted key v (removed_workers hv)
    by_cases hvw : v = w
    · subst hvw
      rw [hx] at hy
      obtain rfl := Option.some.inj hy
      exact ⟨_, p, removed_self hx, hp, hkey, hsame⟩
    · exact ⟨y, p, removed_other hvw hy, hp, hkey, hsame⟩
  · intro p hp
    exact (h.served p hp).imp_right fun hserved => hserved.removed hx

theorem Inv.removed (h : s.Inv) {w : Nat} {x : Worker} (hx : s.started[w]? = some x)
    (hphase : x.phase = .returned) : (s.removed w x).Inv := by
  have hgone : ¬ ({ x with phase := .removed } : Worker).active := by simp [Worker.active]
  have hactive : x.active := .inr hphase
  constructor
  · intro key v hv
    obtain ⟨y, hy, hkey, hcancelled, hy_active⟩ := h.keyed key v (removed_workers hv)
    by_cases hvw : v = w
    · subst hvw
      rw [hx] at hy
      obtain rfl := Option.some.inj hy
      simp only [State.removed] at hv
      rw [if_pos ⟨hkey.symm, removed_workers hv⟩] at hv
      contradiction
    · exact ⟨y, removed_other hvw hy, hkey, hcancelled, hy_active⟩
  · intro v y hy hy_active
    obtain ⟨-, rfl⟩ | ⟨hvw, hy⟩ := removed_started hx hy
    · exact absurd hy_active hgone
    · exact (h.active v y hy hy_active).imp_left fun hfound => removed_successor hfound hvw
  · intro i j y z hy hz hij hkey hy_active
    obtain ⟨-, rfl⟩ | ⟨-, hi⟩ := removed_started hx hy
    · exact hgone hy_active
    · obtain ⟨rfl, rfl⟩ | ⟨-, hj⟩ := removed_started hx hz
      · exact h.ordered i _ y x hi hx hij hkey hy_active
      · exact h.ordered i j y z hi hj hij hkey hy_active
  · exact h.calls
  · have hstage := h.stage
    show (s.removed w x).Stage s.holder
    revert hstage
    cases s.holder with
    | waiting plans desired ws => exact fun hstage => hstage.removed hx
    | starting plans desired => exact fun hstage => hstage.removed hx
    | _ => exact id
  · intro plans hplans
    obtain ⟨hpending, hidle⟩ := h.settled plans hplans
    exact ⟨hpending.removed hx, hidle⟩
  · exact h.cancelled
  · intro hempty key
    have hnone := h.emptied hempty key
    cases hv : (s.removed w x).workers key with
    | none => rfl
    | some v =>
        rw [removed_workers hv] at hnone
        contradiction
  · intro hquiet
    exact absurd hactive (h.quiet hquiet w x hx)

/-! ## stopping -/

/-- A worker is kept for a plan of its key that it already follows. -/
theorem keeps_eq {w : Nat} {x : Worker} (hx : s.started[w]? = some x)
    (hdistinct : (plans.map (·.key)).Nodup) :
    s.keeps plans w = true ↔ ∃ p ∈ plans, p.key = x.plan.key ∧ sameWorkerPlan x.plan p = true := by
  rw [keeps, hx, Option.any_some, Option.any_eq_true]
  constructor
  · intro ⟨p, hp, hsame⟩
    obtain ⟨hmem, hkey⟩ := (planFor_eq_some hdistinct).mp hp
    exact ⟨p, hmem, hkey, hsame⟩
  · intro ⟨p, hmem, hkey, hsame⟩
    exact ⟨p, (planFor_eq_some hdistinct).mpr ⟨hmem, hkey⟩, hsame⟩

section Stop

variable {p : Nat → Bool}

theorem stop_workers {key : WorkerKey} {w : Nat} :
    (s.stop p).1.workers key = some w ↔ s.workers key = some w ∧ p w = false := by
  simp [stop, Option.filter_eq_some_iff]

theorem mem_stopping {w : Nat} :
    w ∈ (s.stop p).2 ↔ (∃ x, s.started[w]? = some x ∧ s.workers x.plan.key = some w) ∧
      p w = true := by
  simp only [stop, List.mem_filter, List.mem_range, Bool.and_eq_true, registered]
  cases hx : s.started[w]? with
  | none => simp
  | some x =>
      have hlt := (List.getElem?_eq_some_iff.mp hx).1
      simp [hlt]

/-- A stopped worker is as active as before. -/
theorem stop_started (w : Nat) : (s.stop p).1.started[w]? = (s.started[w]?).map fun x =>
    if w ∈ (s.stop p).2 then { x with cancelled := true } else x :=
  List.getElem?_mapIdx

/-- The map after a section that stops workers; the active workers are the registered
ones and those that are waited for. -/
theorem Inv.stop_keyed (h : s.Inv) {key : WorkerKey} {w : Nat}
    (hw : (s.stop p).1.workers key = some w) :
    ∃ x, s.started[w]? = some x ∧ (s.stop p).1.started[w]? = some x ∧ x.plan.key = key ∧
      x.cancelled = false ∧ x.active := by
  obtain ⟨hbefore, hp⟩ := stop_workers.mp hw
  obtain ⟨x, hx, hkey, hcancelled, hactive⟩ := h.keyed key w hbefore
  have hkept : w ∉ (s.stop p).2 := by
    intro hmem
    rw [(mem_stopping.mp hmem).2] at hp
    contradiction
  refine ⟨x, hx, ?_, hkey, hcancelled, hactive⟩
  rw [stop_started, hx, Option.map_some, if_neg hkept]

theorem stop_back {w : Nat} {y : Worker} (h : (s.stop p).1.started[w]? = some y) :
    ∃ x, s.started[w]? = some x ∧ y.plan = x.plan ∧ (y.active ↔ x.active) := by
  rw [stop_started] at h
  obtain ⟨x, hx, rfl⟩ := Option.map_eq_some_iff.mp h
  refine ⟨x, hx, ?_⟩
  split <;> exact ⟨rfl, Iff.rfl⟩

theorem Inv.stop_active (h : s.Inv) (hstops : s.holder.stops = []) {w : Nat} {y : Worker}
    (hy : (s.stop p).1.started[w]? = some y) (hactive : y.active) :
    (s.stop p).1.workers y.plan.key = some w ∨ w ∈ (s.stop p).2 := by
  obtain ⟨x, hx, hplan, hiff⟩ := stop_back hy
  have hregistered : s.workers x.plan.key = some w := by
    have hfound := h.active w x hx (hiff.mp hactive)
    rw [hstops] at hfound
    exact hfound.resolve_right List.not_mem_nil
  rw [hplan]
  cases hp : p w with
  | true => exact .inr (mem_stopping.mpr ⟨⟨x, hx, hregistered⟩, hp⟩)
  | false => exact .inl (stop_workers.mpr ⟨hregistered, hp⟩)

theorem Inv.stop_ordered (h : s.Inv) {i j : Nat} {x y : Worker}
    (hx : (s.stop p).1.started[i]? = some x) (hy : (s.stop p).1.started[j]? = some y) (hij : i < j)
    (hkey : x.plan.key = y.plan.key) : ¬ x.active := by
  obtain ⟨x', hx', hplan, hiff⟩ := stop_back hx
  obtain ⟨y', hy', hplan', -⟩ := stop_back hy
  rw [hplan, hplan'] at hkey
  rw [hiff]
  exact h.ordered i j x' y' hx' hy' hij hkey

end Stop

/-! ## the statements of `Reconcile` -/

theorem Inv.stopping (h : s.Inv) (hholder : s.holder = .stopping plans) (hs : s.next = some s') :
    s'.Inv := by
  have hstage := h.stage
  rw [hholder] at hstage
  obtain ⟨hdistinct, hstored⟩ := hstage
  have hstops : s.holder.stops = [] := by rw [hholder]; rfl
  simp only [next, hholder] at hs
  obtain rfl := Option.some.inj hs
  constructor
  · intro key w hw
    obtain ⟨x, -, hx, hrest⟩ := h.stop_keyed hw
    exact ⟨x, hx, hrest⟩
  · exact fun w x hx hactive => h.stop_active hstops hx hactive
  · exact fun i j x y hx hy hij hkey => h.stop_ordered hx hy hij hkey
  · exact h.calls
  · refine ⟨hdistinct, List.filter_sublist, ?_, hstored, ?_, ?_⟩
    · intro p hp
      cases hw : (s.stop fun w => !s.keeps plans w).1.workers p.key with
      | none => rfl
      | some w =>
          obtain ⟨hbefore, hkept⟩ := stop_workers.mp hw
          have hfree := (List.mem_filter.mp hp).2
          rw [hbefore, Option.any_some, hkept] at hfree
          contradiction
    · intro key w hw
      have hkept : s.keeps plans w = true := by simpa using (stop_workers.mp hw).2
      obtain ⟨x, hbefore, hx, hkey, -⟩ := h.stop_keyed hw
      obtain ⟨p, hp, hpkey, hsame⟩ := (keeps_eq hbefore hdistinct).mp hkept
      exact ⟨x, p, hx, hp, hpkey.trans hkey, hsame⟩
    · intro p hp
      by_cases hfree : (s.workers p.key).any (s.keeps plans) = true
      · right
        obtain ⟨w, hw, hkept⟩ := (Option.any_eq_true _ _).mp hfree
        have hstay : (s.stop fun w => !s.keeps plans w).1.workers p.key = some w :=
          stop_workers.mpr ⟨hw, by simpa using hkept⟩
        obtain ⟨x, hbefore, hx, hkey, hcancelled, -⟩ := h.stop_keyed hstay
        obtain ⟨q, hq, hqkey, hsame⟩ := (keeps_eq hbefore hdistinct).mp hkept
        obtain rfl := eq_of_key hdistinct hq hp (hqkey.trans hkey)
        exact ⟨w, x, hx, hsame, hcancelled, .inl hstay⟩
      · left
        exact List.mem_filter.mpr ⟨hp, by simpa using hfree⟩
  · intro plans' hplans
    have hidle := (h.settled plans' hplans).2
    rw [hholder] at hidle
    contradiction
  · intro hshut
    exact ⟨(h.cancelled (hshut.imp_right fun h => by contradiction)).1, rfl⟩
  · intro hshut key
    have hnone := h.emptied (hshut.imp_right fun h => by contradiction) key
    show (s.stop fun w => !s.keeps plans w).1.workers key = none
    cases hw : (s.stop fun w => !s.keeps plans w).1.workers key with
    | none => rfl
    | some w =>
        rw [(stop_workers.mp hw).1] at hnone
        contradiction
  · intro hshut w y hy
    obtain ⟨x, hx, -, hiff⟩ := stop_back hy
    rw [hiff]
    exact h.quiet (hshut.imp_right fun h => by contradiction) w x hx

/-- A worker that is done is not waited for, and not active. -/
theorem not_active_of_done {w : Nat} {x : Worker}
    (hdone : (s.started[w]?).any (·.phase = .done) = true) (hx : s.started[w]? = some x) :
    ¬ x.active := by
  rw [hx, Option.any_some, decide_eq_true_eq] at hdone
  simp [Worker.active, hdone]

theorem Inv.waiting (h : s.Inv) {ws : List Nat} (hholder : s.holder = .waiting plans desired ws)
    (hs : s.next = some s') : s'.Inv := by
  have hpending : s.Pending plans desired := by
    have hstage := h.stage
    rwa [hholder] at hstage
  have hsettled : ∀ plans', s.settled ≠ some plans' := by
    intro plans' hplans
    have hidle := (h.settled plans' hplans).2
    rw [hholder] at hidle
    contradiction
  have hcancelled : s.shut → s.ctxDone = true := fun hshut => (h.cancelled (.inl hshut)).1
  cases ws with
  | cons w ws =>
      simp only [next, hholder] at hs
      split at hs
      · rename_i hdone
        obtain rfl := Option.some.inj hs
        refine ⟨h.keyed, ?_, h.ordered, h.calls,
          hpending.congr rfl rfl fun w x hx => ⟨x, hx, .refl x⟩,
          fun plans' hplans => absurd hplans (hsettled plans'), ?_, ?_, ?_⟩
        · intro v x hx hactive
          refine (h.active v x hx hactive).imp_right fun hmem => ?_
          rw [hholder] at hmem
          cases List.mem_cons.mp hmem with
          | inl heq => exact absurd hactive (not_active_of_done hdone (heq ▸ hx))
          | inr hmem => exact hmem
        · exact fun hshut => ⟨hcancelled (hshut.resolve_right (by simp [Holder.cancelledAll])), rfl⟩
        · exact fun hshut => h.emptied (hshut.imp_right (by simp [Holder.emptied]))
        · exact fun hshut => h.quiet (hshut.imp_right (by simp [Holder.quiet]))
      · contradiction
  | nil =>
      have hactive : ∀ (w : Nat) (x : Worker), s.started[w]? = some x → x.active →
          s.workers x.plan.key = some w := by
        intro w x hx hactive
        have hfound := h.active w x hx hactive
        rw [hholder] at hfound
        exact hfound.resolve_right List.not_mem_nil
      simp only [next, hholder] at hs
      split at hs
      · obtain rfl := Option.some.inj hs
        refine ⟨h.keyed, fun w x hx hx_active => .inl (hactive w x hx hx_active), h.ordered,
          h.calls, by simp [Stage], fun plans' hplans => absurd hplans (hsettled plans'),
          ?_, ?_, ?_⟩
        · exact fun hshut => ⟨hcancelled (hshut.resolve_right (by simp [Holder.cancelledAll])), rfl⟩
        · exact fun hshut => h.emptied (hshut.imp_right (by simp [Holder.emptied]))
        · exact fun hshut => h.quiet (hshut.imp_right (by simp [Holder.quiet]))
      · rename_i hctx
        obtain rfl := Option.some.inj hs
        refine ⟨h.keyed, fun w x hx hx_active => .inl (hactive w x hx hx_active), h.ordered,
          h.calls, hpending.congr rfl rfl fun w x hx => ⟨x, hx, .refl x⟩,
          fun plans' hplans => absurd hplans (hsettled plans'), ?_, ?_, ?_⟩
        · intro hshut
          exact absurd (hcancelled (hshut.resolve_right (by simp [Holder.cancelledAll]))) hctx
        · exact fun hshut => h.emptied (hshut.imp_right (by simp [Holder.emptied]))
        · exact fun hshut => h.quiet (hshut.imp_right (by simp [Holder.quiet]))

/-- The new worker, and the workers before it. -/
theorem start_started {plan : WorkerPlan} {w : Nat} {x : Worker}
    (h : (s.start plan).started[w]? = some x) :
    s.started[w]? = some x ∨ (w = s.started.length ∧ x = ⟨plan, false, .running⟩) := by
  simp only [start, List.getElem?_append] at h
  split at h
  · exact .inl h
  · rename_i hlt
    have hw : w - s.started.length = 0 := by
      by_contra hne
      rw [List.getElem?_eq_none (by simp; omega)] at h
      contradiction
    rw [hw] at h
    exact .inr ⟨by omega, (Option.some.inj h).symm⟩

theorem start_started_of {plan : WorkerPlan} {w : Nat} {x : Worker} (h : s.started[w]? = some x) :
    (s.start plan).started[w]? = some x := by
  have hlt := (List.getElem?_eq_some_iff.mp h).1
  simp only [start]
  rw [List.getElem?_append_left hlt, h]

theorem start_new {plan : WorkerPlan} :
    (s.start plan).started[s.started.length]? = some ⟨plan, false, .running⟩ := by
  simp [start]

theorem start_workers_self {plan : WorkerPlan} :
    (s.start plan).workers plan.key = some s.started.length := if_pos rfl

theorem start_workers_other {plan : WorkerPlan} {key : WorkerKey} (h : key ≠ plan.key) :
    (s.start plan).workers key = s.workers key := if_neg h

theorem same_self (plan : WorkerPlan) : sameWorkerPlan plan plan = true :=
  sameWorkerPlan_iff.mpr rfl

theorem Pending.start {plan : WorkerPlan} (h : s.Pending plans (plan :: desired)) :
    (s.start plan).Pending plans desired := by
  have hmem : plan ∈ plans := h.sublist.subset List.mem_cons_self
  have hkeys : ((plan :: desired).map (·.key)).Nodup := h.distinct.sublist (h.sublist.map _)
  rw [List.map_cons, List.nodup_cons] at hkeys
  have hserved : (s.start plan).Served plan :=
    ⟨_, _, start_new, same_self plan, rfl, .inl start_workers_self⟩
  refine ⟨h.distinct, List.Sublist.trans (List.sublist_cons_self _ _) h.sublist, ?_, h.stored,
    ?_, ?_⟩
  · intro p hp
    have hne : p.key ≠ plan.key := by
      intro heq
      exact hkeys.1 (heq ▸ List.mem_map_of_mem hp)
    rw [start_workers_other hne]
    exact h.absent p (List.mem_cons_of_mem _ hp)
  · intro key w hw
    by_cases hkey : key = plan.key
    · subst hkey
      rw [start_workers_self] at hw
      obtain rfl := Option.some.inj hw
      exact ⟨_, plan, start_new, hmem, rfl, same_self plan⟩
    · rw [start_workers_other hkey] at hw
      obtain ⟨x, p, hx, hp⟩ := h.wanted key w hw
      exact ⟨x, p, start_started_of hx, hp⟩
  · intro p hp
    by_cases hkey : p.key = plan.key
    · right
      rw [eq_of_key h.distinct hp hmem hkey]
      exact hserved
    · cases h.served p hp with
      | inl hdesired =>
          cases List.mem_cons.mp hdesired with
          | inl heq => exact .inr (heq ▸ hserved)
          | inr hdesired => exact .inl hdesired
      | inr hold =>
          obtain ⟨w, x, hx, hsame, hcancelled, hfound⟩ := hold
          right
          refine ⟨w, x, start_started_of hx, hsame, hcancelled, ?_⟩
          rw [start_workers_other hkey]
          exact hfound

/-- A worker is started when no worker of its key is active. -/
theorem Inv.start (h : s.Inv) {plan : WorkerPlan}
    (hholder : s.holder = .starting plans (plan :: desired)) (hs : s.next = some s') : s'.Inv := by
  have hpending : s.Pending plans (plan :: desired) := by
    have hstage := h.stage
    rwa [hholder] at hstage
  have habsent := hpending.absent plan List.mem_cons_self
  have hregistered : ∀ (w : Nat) (x : Worker), s.started[w]? = some x → x.active →
      s.workers x.plan.key = some w := by
    intro w x hx hactive
    have hfound := h.active w x hx hactive
    rw [hholder] at hfound
    exact hfound.resolve_right List.not_mem_nil
  have hother : ∀ (w : Nat) (x : Worker), s.started[w]? = some x → x.active →
      x.plan.key ≠ plan.key := by
    intro w x hx hactive heq
    have hfound := hregistered w x hx hactive
    rw [heq, habsent] at hfound
    contradiction
  have hopen : ¬ s.shut := by
    intro hshut
    have hmu := (h.cancelled (.inl hshut)).2
    rw [hholder] at hmu
    contradiction
  simp only [next, hholder] at hs
  obtain rfl := Option.some.inj hs
  constructor
  · intro key w hw
    by_cases hkey : key = plan.key
    · subst hkey
      rw [show _ = some _ from start_workers_self] at hw
      obtain rfl := Option.some.inj hw
      exact ⟨_, start_new, rfl, rfl, .inl rfl⟩
    · rw [show _ = s.workers key from start_workers_other hkey] at hw
      obtain ⟨x, hx, hrest⟩ := h.keyed key w hw
      exact ⟨x, start_started_of hx, hrest⟩
  · intro w x hx hactive
    left
    obtain hx | ⟨rfl, rfl⟩ := start_started hx
    · exact (start_workers_other (hother w x hx hactive)).trans (hregistered w x hx hactive)
    · exact start_workers_self
  · intro i j x y hx hy hij hkey hactive
    obtain hx | ⟨rfl, rfl⟩ := start_started hx
    · obtain hy | ⟨rfl, rfl⟩ := start_started hy
      · exact h.ordered i j x y hx hy hij hkey hactive
      · exact hother i x hx hactive hkey
    · obtain hy | ⟨rfl, -⟩ := start_started hy
      · have hlt := (List.getElem?_eq_some_iff.mp hy).1
        omega
      · omega
  · exact h.calls
  · exact hpending.start.congr rfl rfl fun w x hx => ⟨x, hx, .refl x⟩
  · intro plans' hplans
    have hidle := (h.settled plans' hplans).2
    rw [hholder] at hidle
    contradiction
  · intro hshut
    exact absurd (hshut.resolve_right (by simp [Holder.cancelledAll])) hopen
  · intro hshut
    exact absurd (hshut.resolve_right (by simp [Holder.emptied])) hopen
  · intro hshut
    exact absurd (hshut.resolve_right (by simp [Holder.quiet])) hopen

/-- A statement that leaves the workers alone, before which nobody is waited for. -/
theorem Inv.moves (h : s.Inv) (hworkers : s'.workers = s.workers)
    (hstarted : s'.started = s.started) (hstops : s.holder.stops = [])
    (hcalls : ∀ call ∈ s'.calls, call ∈ s.calls) (hstage : s'.Stage s'.holder)
    (hsettled : ∀ plans, s'.settled = some plans → s'.Pending plans [] ∧ s'.holder.idle = true)
    (hcancelled : s'.shut ∨ s'.holder.cancelledAll = true →
      s'.ctxDone = true ∧ s'.holder.holdsMu = false)
    (hemptied : s'.shut ∨ s'.holder.emptied = true → s.shut ∨ s.holder.emptied = true)
    (hquiet : s'.shut ∨ s'.holder.quiet = true →
      s.shut ∨ s.holder.quiet = true ∨ ∀ key, s.workers key = none) : s'.Inv := by
  constructor
  · rw [hworkers, hstarted]
    exact h.keyed
  · intro w x hx hactive
    rw [hstarted] at hx
    have hfound := h.active w x hx hactive
    rw [hstops] at hfound
    rw [hworkers]
    exact .inl (hfound.resolve_right List.not_mem_nil)
  · rw [hstarted]
    exact h.ordered
  · exact fun plans hmem => h.calls plans (hcalls _ hmem)
  · exact hstage
  · exact hsettled
  · exact hcancelled
  · rw [hworkers]
    exact fun hshut => h.emptied (hemptied hshut)
  · intro hshut w x hx hactive
    rw [hstarted] at hx
    obtain hbefore | hbefore | hnone := hquiet hshut
    · exact h.quiet (.inl hbefore) w x hx hactive
    · exact h.quiet (.inr hbefore) w x hx hactive
    · have hfound := h.active w x hx hactive
      rw [hstops, hnone] at hfound
      simp at hfound

theorem Inv.not_settled (h : s.Inv) (hidle : s.holder.idle = false) : s.settled = none := by
  cases hsettled : s.settled with
  | none => rfl
  | some plans =>
      rw [(h.settled plans hsettled).2] at hidle
      contradiction

theorem Inv.replacing (h : s.Inv) (hholder : s.holder = .replacing plans)
    (hs : s.next = some s') : s'.Inv := by
  have hdistinct : (plans.map (·.key)).Nodup := by
    have hstage := h.stage
    rwa [hholder] at hstage
  have hnone := h.not_settled (by rw [hholder]; rfl)
  simp only [next, hholder] at hs
  obtain rfl := Option.some.inj hs
  refine h.moves rfl rfl (by rw [hholder]; rfl) (fun _ => id) ⟨hdistinct, fun p hp => ?_⟩
    ?_ ?_ ?_ ?_
  · show (planFor plans p.key).map (·.entitlement) = some p.entitlement
    rw [(planFor_eq_some hdistinct).mpr ⟨hp, rfl⟩, Option.map_some]
  · intro plans' hplans
    exact absurd (hnone.symm.trans hplans) (by simp)
  · intro hshut
    exact ⟨(h.cancelled (.inl (hshut.resolve_right (by simp [Holder.cancelledAll])))).1, rfl⟩
  · exact fun hshut => .inl (hshut.resolve_right (by simp [Holder.emptied]))
  · exact fun hshut => .inl (hshut.resolve_right (by simp [Holder.quiet]))

/-- `return nil`: nothing is left to be started. -/
theorem Inv.returns (h : s.Inv) (hholder : s.holder = .starting plans [])
    (hs : s.next = some s') : s'.Inv := by
  have hpending : s.Pending plans [] := by
    have hstage := h.stage
    rwa [hholder] at hstage
  simp only [next, hholder] at hs
  obtain rfl := Option.some.inj hs
  refine h.moves rfl rfl (by rw [hholder]; rfl) (fun _ => id) (fun _ => rfl) ?_ ?_ ?_ ?_
  · intro plans' hplans
    obtain rfl := Option.some.inj hplans
    exact ⟨hpending.congr rfl rfl fun w x hx => ⟨x, hx, .refl x⟩, rfl⟩
  · intro hshut
    exact ⟨(h.cancelled (.inl (hshut.resolve_right (by simp [Holder.cancelledAll])))).1, rfl⟩
  · exact fun hshut => .inl (hshut.resolve_right (by simp [Holder.emptied]))
  · exact fun hshut => .inl (hshut.resolve_right (by simp [Holder.quiet]))

theorem Inv.unlocks (h : s.Inv) {err : Option String} (hholder : s.holder = .unlocking plans err)
    (hs : s.next = some s') : s'.Inv := by
  simp only [next, hholder] at hs
  obtain rfl := Option.some.inj hs
  have hshut : ∀ {c : Bool}, c = false →
      (Call.shutdown, none) ∈ s.returned ++ [(Call.reconcile plans, err)] ∨ c = true → s.shut := by
    intro c hc hshut
    rw [hc] at hshut
    simpa [shut] using hshut
  refine h.moves rfl rfl (by rw [hholder]; rfl) (fun _ => id) trivial ?_ ?_ ?_ ?_
  · intro plans' hplans
    exact ⟨(h.settled plans' hplans).1.congr rfl rfl fun w x hx => ⟨x, hx, .refl x⟩, rfl⟩
  · exact fun hs => ⟨(h.cancelled (.inl (hshut rfl hs))).1, rfl⟩
  · exact fun hs => .inl (hshut rfl hs)
  · exact fun hs => .inl (hshut rfl hs)

/-! ## the statements of `Shutdown` -/

theorem Inv.cancelling (h : s.Inv) (hholder : s.holder = .cancelling) (hs : s.next = some s') :
    s'.Inv := by
  have hnone := h.not_settled (by rw [hholder]; rfl)
  simp only [next, hholder] at hs
  obtain rfl := Option.some.inj hs
  refine h.moves rfl rfl (by rw [hholder]; rfl) (fun _ => id) trivial ?_ (fun _ => ⟨rfl, rfl⟩) ?_ ?_
  · intro plans' hplans
    exact absurd (hnone.symm.trans hplans) (by simp)
  · exact fun hshut => .inl (hshut.resolve_right (by simp [Holder.emptied]))
  · exact fun hshut => .inl (hshut.resolve_right (by simp [Holder.quiet]))

theorem Inv.stoppingAll (h : s.Inv) (hholder : s.holder = .stoppingAll) (hs : s.next = some s') :
    s'.Inv := by
  have hnone := h.not_settled (by rw [hholder]; rfl)
  have hctx := (h.cancelled (.inr (by rw [hholder]; rfl))).1
  have hstops : s.holder.stops = [] := by rw [hholder]; rfl
  simp only [next, hholder] at hs
  obtain rfl := Option.some.inj hs
  constructor
  · intro key w hw
    obtain ⟨x, -, hx, hrest⟩ := h.stop_keyed hw
    exact ⟨x, hx, hrest⟩
  · exact fun w x hx hactive => h.stop_active hstops hx hactive
  · exact fun i j x y hx hy hij hkey => h.stop_ordered hx hy hij hkey
  · exact h.calls
  · trivial
  · intro plans' hplans
    exact absurd (hnone.symm.trans hplans) (by simp)
  · exact fun _ => ⟨hctx, rfl⟩
  · intro _ key
    show (s.stop fun _ => true).1.workers key = none
    cases hw : (s.stop fun _ => true).1.workers key with
    | none => rfl
    | some w => exact absurd (stop_workers.mp hw).2 (by simp)
  · intro hshut w y hy
    obtain ⟨x, hx, -, hiff⟩ := stop_back hy
    rw [hiff]
    exact h.quiet (.inl (hshut.resolve_right (by simp [Holder.quiet]))) w x hx

theorem Inv.waitingAll (h : s.Inv) {ws : List Nat} (hholder : s.holder = .waitingAll ws)
    (hs : s.next = some s') : s'.Inv := by
  have hnone := h.not_settled (by rw [hholder]; rfl)
  have hctx := (h.cancelled (.inr (by rw [hholder]; rfl))).1
  have hempty := h.emptied (.inr (by rw [hholder]; rfl))
  cases ws with
  | cons w ws =>
      simp only [next, hholder] at hs
      split at hs
      · rename_i hdone
        obtain rfl := Option.some.inj hs
        refine ⟨h.keyed, ?_, h.ordered, h.calls, trivial, ?_, fun _ => ⟨hctx, rfl⟩,
          fun _ => hempty, ?_⟩
        · intro v x hx hactive
          refine (h.active v x hx hactive).imp_right fun hmem => ?_
          rw [hholder] at hmem
          cases List.mem_cons.mp hmem with
          | inl heq => exact absurd hactive (not_active_of_done hdone (heq ▸ hx))
          | inr hmem => exact hmem
        · intro plans' hplans
          exact absurd (hnone.symm.trans hplans) (by simp)
        · exact fun hshut => h.quiet (.inl (hshut.resolve_right (by simp [Holder.quiet])))
      · contradiction
  | nil =>
      simp only [next, hholder] at hs
      obtain rfl := Option.some.inj hs
      refine h.moves rfl rfl (by rw [hholder]; rfl) (fun _ => id) trivial ?_
        (fun _ => ⟨hctx, rfl⟩) ?_ ?_
      · intro plans' hplans
        exact absurd (hnone.symm.trans hplans) (by simp)
      · exact fun _ => .inr (by rw [hholder]; rfl)
      · exact fun _ => .inr (.inr hempty)

theorem Inv.clearing (h : s.Inv) (hholder : s.holder = .clearing) (hs : s.next = some s') :
    s'.Inv := by
  have hnone := h.not_settled (by rw [hholder]; rfl)
  have hctx := (h.cancelled (.inr (by rw [hholder]; rfl))).1
  simp only [next, hholder] at hs
  obtain rfl := Option.some.inj hs
  refine h.moves rfl rfl (by rw [hholder]; rfl) (fun _ => id) trivial ?_
    (fun _ => ⟨hctx, rfl⟩) ?_ ?_
  · intro plans' hplans
    exact absurd (hnone.symm.trans hplans) (by simp)
  · exact fun _ => .inr (by rw [hholder]; rfl)
  · exact fun _ => .inr (.inl (by rw [hholder]; rfl))

theorem Inv.unlocksAll (h : s.Inv) (hholder : s.holder = .unlockingAll) (hs : s.next = some s') :
    s'.Inv := by
  have hnone := h.not_settled (by rw [hholder]; rfl)
  have hctx := (h.cancelled (.inr (by rw [hholder]; rfl))).1
  simp only [next, hholder] at hs
  obtain rfl := Option.some.inj hs
  refine h.moves rfl rfl (by rw [hholder]; rfl) (fun _ => id) trivial ?_
    (fun _ => ⟨hctx, rfl⟩) ?_ ?_
  · intro plans' hplans
    exact absurd (hnone.symm.trans hplans) (by simp)
  · exact fun _ => .inr (by rw [hholder]; rfl)
  · exact fun _ => .inr (.inl (by rw [hholder]; rfl))

/-! ## runs -/

theorem Inv.next (h : s.Inv) (hs : s.next = some s') : s'.Inv := by
  cases hholder : s.holder with
  | free =>
      simp only [State.next, hholder] at hs
      contradiction
  | replacing plans => exact h.replacing hholder hs
  | stopping plans => exact h.stopping hholder hs
  | waiting plans desired ws => exact h.waiting hholder hs
  | starting plans desired =>
      cases desired with
      | nil => exact h.returns hholder hs
      | cons plan desired => exact h.start hholder hs
  | unlocking plans err => exact h.unlocks hholder hs
  | cancelling => exact h.cancelling hholder hs
  | stoppingAll => exact h.stoppingAll hholder hs
  | waitingAll ws => exact h.waitingAll hholder hs
  | clearing => exact h.clearing hholder hs
  | unlockingAll => exact h.unlocksAll hholder hs

/-- Every step keeps the invariant. -/
theorem Inv.step (h : s.Inv) {e : Event} (hs : s.step e = some s') : s'.Inv := by
  cases e with
  | reconcile plans =>
      simp only [State.step] at hs
      split at hs
      · obtain rfl := Option.some.inj hs
        refine h.congr rfl rfl h.calls rfl ?_ rfl id (fun w x hx => ⟨x, hx, .refl x⟩) rfl
        intro hshut
        simpa [shut] using hshut
      · rename_i hdup
        obtain rfl := Option.some.inj hs
        refine h.congr rfl rfl ?_ rfl id rfl id (fun w x hx => ⟨x, hx, .refl x⟩) rfl
        intro plans' hmem
        cases List.mem_append.mp hmem with
        | inl hmem => exact h.calls plans' hmem
        | inr hmem =>
            obtain rfl := Call.reconcile.inj (List.mem_singleton.mp hmem)
            exact (nodup_of_duplicate hdup).1
  | shutdown =>
      obtain rfl := Option.some.inj hs
      refine h.congr rfl rfl ?_ rfl id rfl id (fun w x hx => ⟨x, hx, .refl x⟩) rfl
      intro plans' hmem
      exact h.calls plans' (by simpa using hmem)
  | lock i =>
      simp only [State.step] at hs
      split at hs
      · rename_i call hcall hfree
        obtain rfl := Option.some.inj hs
        have hmem := List.mem_of_getElem? hcall
        refine h.moves rfl rfl (by rw [hfree]; rfl) (fun c hc => List.mem_of_mem_eraseIdx hc) ?_
          (by simp) ?_ ?_ ?_
        · cases call with
          | reconcile plans => exact h.calls plans hmem
          | shutdown => trivial
        · intro hshut
          have hover : s.shut :=
            hshut.resolve_right (by cases call <;> simp [Call.first, Holder.cancelledAll])
          exact ⟨(h.cancelled (.inl hover)).1, by cases call <;> rfl⟩
        · intro hshut
          exact .inl (hshut.resolve_right (by cases call <;> simp [Call.first, Holder.emptied]))
        · intro hshut
          exact .inl (hshut.resolve_right (by cases call <;> simp [Call.first, Holder.quiet]))
      · contradiction
  | next => exact h.next hs
  | parentDone =>
      obtain rfl := Option.some.inj hs
      exact h.congr rfl rfl h.calls rfl id rfl (fun _ => rfl) (fun w x hx => ⟨x, hx, .refl x⟩) rfl
  | exits w =>
      obtain ⟨x, hx, hphase, rfl⟩ := step_exits hs
      exact h.setPhase hx (by simp [Worker.active, hphase])
  | removes w =>
      obtain ⟨x, hx, hphase, rfl⟩ := step_removes hs
      exact h.removed hx hphase
  | closes w =>
      obtain ⟨x, hx, hphase, rfl⟩ := step_closes hs
      exact h.setPhase hx (by simp [Worker.active, hphase])

theorem run_inv {es : List Event} (hrun : run es = some s) : s.Inv :=
  Conc.exec_invariant (fun _ _ _ h hs => Inv.step h hs) newWorkerSupervisor_inv hrun

/-- The plans that were started do not change when a worker goes on. -/
theorem setPhase_plans {w : Nat} {x : Worker} (hx : s.started[w]? = some x) (phase : Phase) :
    (s.setPhase w x phase).started.map (·.plan) = s.started.map (·.plan) := by
  apply List.ext_getElem?
  intro v
  simp only [setPhase, List.getElem?_map, List.getElem?_set]
  split
  · rename_i hv
    subst hv
    have hlt := (List.getElem?_eq_some_iff.mp hx).1
    rw [if_pos hlt, hx]
    rfl
  · rfl

theorem stop_plans (p : Nat → Bool) :
    (s.stop p).1.started.map (·.plan) = s.started.map (·.plan) := by
  apply List.ext_getElem?
  intro w
  rw [List.getElem?_map, List.getElem?_map, stop_started]
  cases s.started[w]? with
  | none => rfl
  | some x =>
      simp only [Option.map_some]
      split <;> rfl

/-- After `Shutdown` nothing is started. -/
theorem Inv.step_shut (h : s.Inv) (hshut : s.shut) {e : Event} (hs : s.step e = some s') :
    s'.shut ∧ s'.started.map (·.plan) = s.started.map (·.plan) := by
  have hmu := (h.cancelled (.inl hshut)).2
  have hgrows {l : List (Call × Option String)} : (Call.shutdown, none) ∈ s.returned ++ l :=
    List.mem_append_left _ hshut
  cases e with
  | reconcile plans =>
      simp only [State.step] at hs
      split at hs
      · obtain rfl := Option.some.inj hs
        exact ⟨hgrows, rfl⟩
      · obtain rfl := Option.some.inj hs
        exact ⟨hshut, rfl⟩
  | shutdown =>
      obtain rfl := Option.some.inj hs
      exact ⟨hshut, rfl⟩
  | lock i =>
      simp only [State.step] at hs
      split at hs
      · obtain rfl := Option.some.inj hs
        exact ⟨hshut, rfl⟩
      · contradiction
  | next =>
      simp only [State.step, State.next] at hs
      split at hs
      · contradiction
      · obtain rfl := Option.some.inj hs
        exact ⟨hshut, rfl⟩
      · obtain rfl := Option.some.inj hs
        exact ⟨hshut, stop_plans _⟩
      · split at hs
        · obtain rfl := Option.some.inj hs
          exact ⟨hshut, rfl⟩
        · contradiction
      · split at hs
        all_goals
          obtain rfl := Option.some.inj hs
          exact ⟨hshut, rfl⟩
      · rename_i hholder
        rw [hholder] at hmu
        contradiction
      · obtain rfl := Option.some.inj hs
        exact ⟨hshut, rfl⟩
      · obtain rfl := Option.some.inj hs
        exact ⟨hgrows, rfl⟩
      · obtain rfl := Option.some.inj hs
        exact ⟨hshut, rfl⟩
      · obtain rfl := Option.some.inj hs
        exact ⟨hshut, stop_plans _⟩
      · split at hs
        · obtain rfl := Option.some.inj hs
          exact ⟨hshut, rfl⟩
        · contradiction
      · obtain rfl := Option.some.inj hs
        exact ⟨hshut, rfl⟩
      · obtain rfl := Option.some.inj hs
        exact ⟨hshut, rfl⟩
      · obtain rfl := Option.some.inj hs
        exact ⟨hgrows, rfl⟩
  | parentDone =>
      obtain rfl := Option.some.inj hs
      exact ⟨hshut, rfl⟩
  | exits w =>
      obtain ⟨x, hx, -, rfl⟩ := step_exits hs
      exact ⟨hshut, setPhase_plans hx _⟩
  | removes w =>
      obtain ⟨x, hx, -, rfl⟩ := step_removes hs
      exact ⟨hshut, setPhase_plans hx _⟩
  | closes w =>
      obtain ⟨x, hx, -, rfl⟩ := step_closes hs
      exact ⟨hshut, setPhase_plans hx _⟩

/-- What the last `Reconcile` asked for stays in place until another call begins. -/
theorem Inv.step_settled (h : s.Inv) (hsettled : s.settled = some plans) {e : Event}
    (hs : s.step e = some s') (hlock : ∀ i, e ≠ .lock i) : s'.settled = some plans := by
  have hidle := (h.settled plans hsettled).2
  cases e with
  | reconcile plans =>
      simp only [State.step] at hs
      split at hs
      all_goals
        obtain rfl := Option.some.inj hs
        exact hsettled
  | shutdown =>
      obtain rfl := Option.some.inj hs
      exact hsettled
  | lock i => exact absurd rfl (hlock i)
  | next =>
      cases hholder : s.holder with
      | free =>
          simp only [State.step, State.next, hholder] at hs
          contradiction
      | unlocking plans err =>
          simp only [State.step, State.next, hholder] at hs
          obtain rfl := Option.some.inj hs
          exact hsettled
      | _ =>
          rw [hholder] at hidle
          contradiction
  | parentDone =>
      obtain rfl := Option.some.inj hs
      exact hsettled
  | exits w =>
      obtain ⟨x, -, -, rfl⟩ := step_exits hs
      exact hsettled
  | removes w =>
      obtain ⟨x, -, -, rfl⟩ := step_removes hs
      exact hsettled
  | closes w =>
      obtain ⟨x, -, -, rfl⟩ := step_closes hs
      exact hsettled

/-- **The worker supervisor is safe.**  However `Reconcile`, `Shutdown` and the exits of
workers interleave: one worker of a key runs at a time, and an older one has stopped
when a newer one is there; from the `return nil` of a `Reconcile` until another call
begins, the registered workers are wanted with their very plan (the entitlement is the
one in the store) and a wanted worker is registered or exited by itself; after
`Shutdown` nothing is registered or running and nothing is started any more; and a
worker that exits leaves the entries of other workers alone. -/
theorem supervisor_safety (es : List Event) (s : State) (hrun : run es = some s) :
    (∀ (i j : Nat) (x y : Worker), s.started[i]? = some x → s.started[j]? = some y →
      x.plan.key = y.plan.key →
        (i < j → x.phase ≠ .running) ∧ (x.phase = .running → y.phase = .running → i = j)) ∧
    ((∀ plans, s.holder = .unlocking plans none → s.settled = some plans) ∧
      (∀ e s' plans, s.settled = some plans → s.step e = some s' → (∀ i, e ≠ .lock i) →
        s'.settled = some plans) ∧
      ∀ plans, s.settled = some plans →
        (∀ key w, s.workers key = some w → ∃ (x : Worker) (p : WorkerPlan),
          s.started[w]? = some x ∧ p ∈ plans ∧ p.key = key ∧
          s.entitlements key = some p.entitlement ∧
          { x.plan with entitlement := p.entitlement } = p) ∧
        ∀ p ∈ plans, ∃ (w : Nat) (x : Worker), s.started[w]? = some x ∧
          { x.plan with entitlement := p.entitlement } = p ∧ x.cancelled = false ∧
          (s.workers p.key = some w ∨ x.phase = .removed ∨ x.phase = .done)) ∧
    (s.shut → (∀ key, s.workers key = none) ∧
      (∀ (w : Nat) (x : Worker), s.started[w]? = some x → x.phase ≠ .running) ∧
      ∀ es' s', Conc.exec step s es' = some s' →
        s'.started.map (·.plan) = s.started.map (·.plan) ∧
        ∀ (w : Nat) (x : Worker), s'.started[w]? = some x → x.phase ≠ .running) ∧
    ∀ w s', s.step (.removes w) = some s' → ∀ key v, s.workers key = some v → v ≠ w →
      s'.workers key = some v := by
  have h := run_inv hrun
  refine ⟨?_, ⟨?_, ?_, ?_⟩, ?_, ?_⟩
  · intro i j x y hx hy hkey
    refine ⟨fun hij hrunning => h.ordered i j x y hx hy hij hkey (.inl hrunning), ?_⟩
    intro hxrun hyrun
    obtain hij | hij | hij := Nat.lt_trichotomy i j
    · exact absurd (.inl hxrun) (h.ordered i j x y hx hy hij hkey)
    · exact hij
    · exact absurd (.inl hyrun) (h.ordered j i y x hy hx hij hkey.symm)
  · intro plans hholder
    have hstage := h.stage
    rw [hholder] at hstage
    exact hstage rfl
  · exact fun e s' plans hsettled hs hlock => h.step_settled hsettled hs hlock
  · intro plans hsettled
    have hpending := (h.settled plans hsettled).1
    constructor
    · intro key w hw
      obtain ⟨x, p, hx, hp, hkey, hsame⟩ := hpending.wanted key w hw
      exact ⟨x, p, hx, hp, hkey, hkey ▸ hpending.stored p hp, sameWorkerPlan_iff.mp hsame⟩
    · intro p hp
      obtain ⟨w, x, hx, hsame, hcancelled, hfound⟩ :=
        (hpending.served p hp).resolve_left List.not_mem_nil
      refine ⟨w, x, hx, sameWorkerPlan_iff.mp hsame, hcancelled, hfound.imp_right ?_⟩
      intro hgone
      unfold Worker.active at hgone
      cases hphase : x.phase <;> simp_all
  · intro hshut
    refine ⟨h.emptied (.inl hshut),
      fun w x hx hrunning => h.quiet (.inl hshut) w x hx (.inl hrunning), ?_⟩
    intro es' s' hafter
    obtain ⟨h', hshut', hplans⟩ := Conc.exec_invariant
      (I := fun t => t.Inv ∧ t.shut ∧ t.started.map (·.plan) = s.started.map (·.plan))
      (fun t e t' ⟨ht, htshut, htplans⟩ hs =>
        ⟨ht.step hs, (ht.step_shut htshut hs).1, (ht.step_shut htshut hs).2.trans htplans⟩)
      ⟨h, hshut, rfl⟩ hafter
    exact ⟨hplans, fun w x hx hrunning => h'.quiet (.inl hshut') w x hx (.inl hrunning)⟩
  · intro w s' hs key v hv hvw
    obtain ⟨x, -, -, rfl⟩ := step_removes hs
    exact removed_successor hv hvw

/-- A mapping, and the same one with another upstream. -/
def mapping (upstream : String) : WorkerPlan :=
  { subscriptionID := "s1", relayAddr := "edge:5443", upstream }

/-- A worker is replaced, exits by itself, and the supervisor is shut down. -/
def replaceRun : List Event :=
  [.reconcile [mapping "old:443"], .lock 0, .next, .next, .next, .next, .next, .next,
    .reconcile [mapping "new:443"], .shutdown, .lock 0, .next, .next, .exits 0, .removes 0,
    .closes 0, .next, .next, .next, .next, .next, .exits 1, .removes 1, .lock 0, .next, .next,
    .next, .next, .next]

/-- The run has the two workers one after the other, and ends with an empty map. -/
theorem supervisor_safety_replace :
    ∃ s, run replaceRun = some s ∧
      s.started.map (·.plan) = [mapping "old:443", mapping "new:443"] ∧ s.shut ∧
      ∀ key, s.workers key = none := by
  have hrun : (run replaceRun).map (fun s => (s.started.map (·.plan), s.returned)) =
      some ([mapping "old:443", mapping "new:443"],
        [(.reconcile [mapping "old:443"], none), (.reconcile [mapping "new:443"], none),
          (.shutdown, none)]) := by
    decide +kernel
  obtain ⟨s, hs, heq⟩ := Option.map_eq_some_iff.mp hrun
  obtain ⟨hplans, hreturned⟩ := Prod.mk.inj heq
  have hshut : s.shut := by
    rw [shut, hreturned]
    simp
  exact ⟨s, hs, hplans, hshut, ((supervisor_safety replaceRun s hs).2.2.1 hshut).1⟩

end State

end Agent.Supervisor

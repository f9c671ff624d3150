import Blindport.Backend.RateCalls

/-!
# Blindport.Backend.RateWindows

The durable limits hold at any interleaving.

* `Inv` — the calls under way know what `CallOk` says, and have no lock in common;
* `Fair` — a bucket has counted every call that was allowed in its window;
* `durable_rate_limit` — the result.

The windows need that no call outlives its bucket.  `overslept` is a run in which one does.
-/

namespace Backend.RateLimits

open Conc

section Safety

variable (settings : Settings) (hashIdentifier : RateLimitScope → String → String)

/-! ## any number of calls -/

/-- What holds of every reachable state: of the database and the calls under way. -/
structure Inv (db : Database) (calls : AList fun _ : Nat => Call) : Prop where
  database : DbOk settings db
  known : ∀ i c, calls.lookup i = some c → CallOk settings hashIdentifier db c
  lease : ∀ i c j d, calls.lookup i = some c → calls.lookup j = some d →
    c.maintenance.isSome → d.maintenance.isSome → i = j
  apart : ∀ i c j d k, calls.lookup i = some c → calls.lookup j = some d →
    c.Holds settings hashIdentifier k → d.Holds settings hashIdentifier k → i = j

variable {settings hashIdentifier} {db : Database} {others : List Call} {c : Call}
  {calls : AList fun _ : Nat => Call}

theorem mem_others {s : State} {i j : Nat} {d : Call} (hji : j ≠ i)
    (hj : s.calls.lookup j = some d) : d ∈ s.others i := by
  refine List.mem_map.mpr ⟨(j, d), Table.mem_rows.mpr ?_, rfl⟩
  rw [AList.lookup_erase_ne hji]
  exact hj

theorem maintenance_of_leaseLocked {d : Call} (h : leaseLocked others = false) (hd : d ∈ others) :
    d.maintenance = none := by
  rw [leaseLocked, List.any_eq_false] at h
  simpa using h d hd

theorem not_holds_of_bucketLocked {d : Call} {k : BucketKey}
    (h : bucketLocked settings hashIdentifier others k = false) (hd : d ∈ others) :
    ¬d.Holds settings hashIdentifier k := by
  rw [bucketLocked, List.any_eq_false] at h
  simpa using h d hd

theorem lookup_of_erase {i j : Nat} {d : Call} (h : (calls.erase i).lookup j = some d) :
    j ≠ i ∧ calls.lookup j = some d := by
  by_cases hji : j = i
  · rw [hji, AList.lookup_erase] at h
    cases h
  · rw [AList.lookup_erase_ne hji] at h
    exact ⟨hji, h⟩

/-- Fewer calls. -/
theorem Inv.erase (h : Inv settings hashIdentifier db calls) (i : Nat) :
    Inv settings hashIdentifier db (calls.erase i) where
  database := h.database
  known j d hj := h.known j d (lookup_of_erase hj).2
  lease j d j' d' hj hj' := h.lease j d j' d' (lookup_of_erase hj).2 (lookup_of_erase hj').2
  apart j d j' d' k hj hj' := h.apart j d j' d' k (lookup_of_erase hj).2 (lookup_of_erase hj').2

/-- A call is put among the others, whose locks it does not have. -/
theorem Inv.insert (h : Inv settings hashIdentifier db calls) {n : Nat} (hn : db.nextId ≤ n)
    {i : Nat} {c : Call} (hc : CallOk settings hashIdentifier { db with nextId := n } c)
    (hlease : c.maintenance.isSome → ∀ j d, j ≠ i → calls.lookup j = some d →
      d.maintenance = none)
    (hapart : ∀ k, c.Holds settings hashIdentifier k → ∀ j d, j ≠ i → calls.lookup j = some d →
      ¬d.Holds settings hashIdentifier k) :
    Inv settings hashIdentifier { db with nextId := n } (calls.insert i c) := by
  have hcases : ∀ {j d}, (calls.insert i c).lookup j = some d →
      (j = i ∧ d = c) ∨ (j ≠ i ∧ calls.lookup j = some d) := by
    intro j d hj
    by_cases hji : j = i
    · rw [hji, AList.lookup_insert, Option.some.injEq] at hj
      exact Or.inl ⟨hji, hj.symm⟩
    · rw [AList.lookup_insert_ne hji] at hj
      exact Or.inr ⟨hji, hj⟩
  constructor
  case database =>
    exact ⟨h.database.count, h.database.cap, h.database.expires,
      fun k b hb => (h.database.below k b hb).trans_le hn, h.database.unique⟩
  case known =>
    intro j d hj
    rcases hcases hj with ⟨-, rfl⟩ | ⟨-, hj⟩
    · exact hc
    · exact (h.known j d hj).next hn
  case lease =>
    intro j d j' d' hj hj' hd hd'
    rcases hcases hj with ⟨rfl, rfl⟩ | ⟨hji, hold⟩ <;>
      rcases hcases hj' with ⟨rfl, rfl⟩ | ⟨hji', hold'⟩
    · rfl
    · rw [hlease hd j' d' hji' hold'] at hd'
      cases hd'
    · rw [hlease hd' j d hji hold] at hd
      cases hd
    · exact h.lease j d j' d' hold hold' hd hd'
  case apart =>
    intro j d j' d' k hj hj' hd hd'
    rcases hcases hj with ⟨rfl, rfl⟩ | ⟨hji, hold⟩ <;>
      rcases hcases hj' with ⟨rfl, rfl⟩ | ⟨hji', hold'⟩
    · rfl
    · exact absurd hd' (hapart k hd j' d' hji' hold')
    · exact absurd hd (hapart k hd' j d hji hold)
    · exact h.apart j d j' d' k hold hold' hd hd'

/-- A call ends with its commit. -/
theorem Inv.commit (h : Inv settings hashIdentifier db calls) {i : Nat} {c : Call}
    (hi : calls.lookup i = some c) {consumed : Option Nat} (hstage : c.stage = .finish consumed) :
    Inv settings hashIdentifier (c.commit settings hashIdentifier db) (calls.erase i) := by
  have hrest := h.erase i
  refine ⟨(h.known i c hi).commit h.database hstage, fun j d hj => ?_, hrest.lease, hrest.apart⟩
  obtain ⟨hji, hj⟩ := lookup_of_erase hj
  refine (h.known j d hj).frame (h.known i c hi) (fun hd => ?_) fun k hd hc => ?_
  · by_contra hc
    exact hji (h.lease j d i c hj hi hd (Option.isSome_iff_ne_none.mpr hc))
  · exact hji (h.apart j d i c k hj hi hd hc)

/-- A call that has just begun. -/
theorem callOk_new (db : Database) (scope : RateLimitScope) (identifier : String) (now : Nat) :
    CallOk settings hashIdentifier db
      ⟨scope, identifier, now, .insertMaintenance, none, [], none⟩ where
  stage := ⟨rfl, rfl, rfl⟩
  nodup := List.nodup_nil
  stale k hk := absurd hk List.not_mem_nil
  unleased _ := ⟨rfl, Call.fresh_of_none rfl db, rfl⟩
  bucket _ hb := by cases hb
  balance _ hm := by cases hm

/-- Everything one choice can do. -/
theorem step_cases {s s' : State} {e : Event} (h : step settings hashIdentifier s e = some s') :
    (∃ scope identifier now, e = .call scope identifier now ∧ s.clock ≤ now ∧
      (s' = { s with clock := now } ∨ s' = { s with
        calls := s.calls.insert s.next
          ⟨scope, identifier, now, .insertMaintenance, none, [], none⟩
        next := s.next + 1
        clock := now })) ∨
    (∃ i c, e = .perform i ∧ s.calls.lookup i = some c ∧
      ((∃ db' c', perform settings hashIdentifier s.db (s.others i) c = some (.running db' c') ∧
          s' = { s with db := db', calls := s.calls.insert i c' }) ∨
        (∃ db' outcome,
          perform settings hashIdentifier s.db (s.others i) c = some (.ended db' outcome) ∧
          s' = { s with
            db := db'
            calls := s.calls.erase i
            finished := ⟨c.scope, c.identifier, c.now, outcome⟩ :: s.finished }))) ∨
    (∃ i, e = .abort i ∧ s' = { s with calls := s.calls.erase i }) := by
  cases e with
  | call scope identifier now =>
      rw [step] at h
      split at h
      · cases h
      · rename_i hclock
        refine Or.inl ⟨scope, identifier, now, rfl, not_lt.mp hclock, ?_⟩
        split at h
        · exact Or.inl (Option.some.inj h).symm
        · exact Or.inr (Option.some.inj h).symm
  | perform i =>
      rw [step] at h
      split at h
      · cases h
      · rename_i c hc
        refine Or.inr (Or.inl ⟨i, c, rfl, hc, ?_⟩)
        split at h
        · cases h
        · rename_i db' c' hp
          exact Or.inl ⟨db', c', hp, (Option.some.inj h).symm⟩
        · rename_i db' outcome hp
          exact Or.inr ⟨db', outcome, hp, (Option.some.inj h).symm⟩
  | abort i => exact Or.inr (Or.inr ⟨i, rfl, (Option.some.inj h).symm⟩)

/-- **Every step keeps the invariant.** -/
theorem Inv.step {s s' : State} {e : Event} (h : Inv settings hashIdentifier s.db s.calls)
    (hs : step settings hashIdentifier s e = some s') :
    Inv settings hashIdentifier s'.db s'.calls := by
  rcases step_cases hs with ⟨scope, identifier, now, -, -, rfl | rfl⟩ |
    ⟨i, c, -, hi, ⟨db', c', hp, rfl⟩ | ⟨db', outcome, hp, rfl⟩⟩ | ⟨i, -, rfl⟩
  · exact h
  · have hnew : CallOk settings hashIdentifier s.db _ := callOk_new s.db scope identifier now
    refine h.insert (n := s.db.nextId) le_rfl hnew (fun hd => by cases hd) fun k hd => ?_
    simp [Call.Holds] at hd
  · obtain ⟨hkept, n, hn, rfl⟩ := perform_running (h.known i c hi) h.database hp
    refine h.insert hn hkept.ok (fun hd j d hji hj => ?_) fun k hd j d hji hj => ?_
    · cases hkept.moved.lease hd with
      | inl hc =>
          by_contra hnot
          exact hji (h.lease j d i c hj hi (Option.isSome_iff_ne_none.mpr hnot) hc)
      | inr hfree => exact maintenance_of_leaseLocked hfree (mem_others hji hj)
    · cases hkept.moved.holds k hd with
      | inl hc => exact fun hdk => hji (h.apart j d i c k hj hi hdk hc)
      | inr hfree => exact not_holds_of_bucketLocked hfree (mem_others hji hj)
  · rcases perform_ended hp with ⟨rfl, -⟩ | ⟨consumed, hstage, rfl, -⟩
    · exact h.erase i
    · exact h.commit hi hstage
  · exact h.erase i

theorem inv_init : Inv settings hashIdentifier State.init.db State.init.calls := by
  constructor
  case database =>
    constructor
    case count => rfl
    case cap => exact Nat.zero_le _
    all_goals
      intro k b
      intros
      simp_all [State.init]
  all_goals
    intro i c
    intros
    simp_all [State.init]

/-! ## the windows -/

variable (settings hashIdentifier)

/-- The window of a call that has ended. -/
def Finished.key (f : Finished) : BucketKey where
  scope := f.scope
  identifierHash := hashIdentifier f.scope f.identifier
  windowStart := windowStart (specFor settings f.scope) f.now

/-- The calls that were allowed in a window. -/
def allowedIn (finished : List Finished) (k : BucketKey) : Nat :=
  finished.countP fun f => f.key settings hashIdentifier = k ∧ f.outcome = .allowed

/-- What holds as long as no call outlives its bucket: a bucket has counted the calls
allowed in its window, and the window of a bucket that is gone is over for everyone. -/
structure Fair (s : State) : Prop where
  clock : ∀ i c, s.calls.lookup i = some c → c.now ≤ s.clock
  prompt : ∀ i c j d, s.calls.lookup i = some c → s.calls.lookup j = some d →
    c.now < expiresOf settings (d.key settings hashIdentifier)
  bounded : ∀ k, allowedIn settings hashIdentifier s.finished k ≤ settings.requests k.scope
  counted : ∀ k b, s.db.buckets.lookup k = some b →
    allowedIn settings hashIdentifier s.finished k ≤ b.requestCount
  gone : ∀ k, s.db.buckets.lookup k = none →
    0 < allowedIn settings hashIdentifier s.finished k →
      expiresOf settings k ≤ s.clock ∧
        ∀ i c, s.calls.lookup i = some c → c.key settings hashIdentifier ≠ k

variable {settings hashIdentifier}

theorem allowedIn_cons (f : Finished) (finished : List Finished) (k : BucketKey) :
    allowedIn settings hashIdentifier (f :: finished) k =
      allowedIn settings hashIdentifier finished k +
        if f.key settings hashIdentifier = k ∧ f.outcome = .allowed then 1 else 0 := by
  rw [allowedIn, List.countP_cons, ← allowedIn]
  simp

/-- A call that was not allowed does not count. -/
theorem allowedIn_refused {f : Finished} (hf : f.outcome ≠ .allowed) (finished : List Finished)
    (k : BucketKey) :
    allowedIn settings hashIdentifier (f :: finished) k =
      allowedIn settings hashIdentifier finished k := by
  rw [allowedIn_cons, if_neg (fun h => hf h.2), Nat.add_zero]

/-- Fewer calls. -/
theorem Fair.erase {s : State} (h : Fair settings hashIdentifier s) (i : Nat) :
    Fair settings hashIdentifier { s with calls := s.calls.erase i } where
  clock j d hj := h.clock j d (lookup_of_erase hj).2
  prompt j d j' d' hj hj' := h.prompt j d j' d' (lookup_of_erase hj).2 (lookup_of_erase hj').2
  bounded := h.bounded
  counted := h.counted
  gone k hk hpos :=
    have hgone := h.gone k hk hpos
    ⟨hgone.1, fun j d hj => hgone.2 j d (lookup_of_erase hj).2⟩

/-- What the end of a call adds to its window, its bucket has counted. -/
theorem CallOk.counted_finish {finished : List Finished}
    (h : CallOk settings hashIdentifier db c) {consumed : Option Nat}
    (hstage : c.stage = .finish consumed)
    (hcounted : ∀ b, db.buckets.lookup (c.key settings hashIdentifier) = some b →
      allowedIn settings hashIdentifier finished (c.key settings hashIdentifier) ≤ b.requestCount)
    (hgone : db.buckets.lookup (c.key settings hashIdentifier) = none →
      allowedIn settings hashIdentifier finished (c.key settings hashIdentifier) = 0)
    {b : RateLimitBucket} (hb : c.bucket = some b) :
    consumed = some b.requestCount ∧
      allowedIn settings hashIdentifier finished (c.key settings hashIdentifier) + 1 ≤
        b.requestCount := by
  have hst := h.stage
  unfold StageOk at hst
  simp only [hstage, hb, Option.map_some] at hst
  refine ⟨hst.symm, ?_⟩
  have hok := h.bucket b hb
  unfold BucketOk at hok
  cases hlookup : db.buckets.lookup (c.key settings hashIdentifier) with
  | some b₀ =>
      simp only [hlookup] at hok
      have := hcounted b₀ hlookup
      rw [hok]
      simp only
      omega
  | none =>
      simp only [hlookup] at hok
      have := hgone hlookup
      omega

/-- A call that ends with its commit. -/
theorem Fair.commit {s : State} (h : Fair settings hashIdentifier s)
    (hinv : Inv settings hashIdentifier s.db s.calls) {i : Nat} {c : Call}
    (hi : s.calls.lookup i = some c) {consumed : Option Nat} (hstage : c.stage = .finish consumed) :
    Fair settings hashIdentifier { s with
      db := c.commit settings hashIdentifier s.db
      calls := s.calls.erase i
      finished := ⟨c.scope, c.identifier, c.now, c.outcome settings consumed⟩ :: s.finished } := by
  have hc := hinv.known i c hi
  have hrest := h.erase i
  have hfinish : ∀ b, c.bucket = some b → _ := fun b hb => hc.counted_finish
    hstage (fun b₀ hb₀ => h.counted _ b₀ hb₀)
    (fun hnone => Nat.eq_zero_of_not_pos fun hpos => (h.gone _ hnone hpos).2 i c hi rfl) hb
  -- only the window of a call that has a bucket counts it
  have hcount : ∀ k, ¬(c.bucket.isSome ∧ k = c.key settings hashIdentifier) →
      allowedIn settings hashIdentifier
          (⟨c.scope, c.identifier, c.now, c.outcome settings consumed⟩ :: s.finished) k =
        allowedIn settings hashIdentifier s.finished k := by
    intro k hown
    rw [allowedIn_cons, if_neg, Nat.add_zero]
    rintro ⟨rfl, hallowed⟩
    refine hown ⟨?_, rfl⟩
    have hst := hc.stage
    unfold StageOk at hst
    simp only [hstage] at hst
    cases consumed with
    | none => cases hallowed
    | some n =>
        obtain ⟨b, hb, -⟩ := Option.map_eq_some_iff.mp hst
        rw [hb]
        rfl
  constructor
  case clock => exact hrest.clock
  case prompt => exact hrest.prompt
  case bounded =>
    intro k
    by_cases hown : c.bucket.isSome ∧ k = c.key settings hashIdentifier
    · obtain ⟨hsome, rfl⟩ := hown
      obtain ⟨b, hb⟩ := Option.isSome_iff_exists.mp hsome
      obtain ⟨rfl, hless⟩ := hfinish b hb
      have hbefore := h.bounded (c.key settings hashIdentifier)
      simp only
      rw [allowedIn_cons]
      split
      · rename_i hallowed
        have hspec : b.requestCount ≤ (c.spec settings).requests := by
          have := hallowed.2
          simp only [Call.outcome] at this
          split at this
          · cases this
          · rename_i hnot
            exact not_lt.mp hnot
        exact hless.trans hspec
      · exact hbefore
    · simp only
      rw [hcount k hown]
      exact h.bounded k
  case counted =>
    intro k b hb
    rw [lookup_commit] at hb
    simp only
    by_cases hown : c.bucket.isSome ∧ k = c.key settings hashIdentifier
    · rw [Call.find, if_pos hown] at hb
      obtain ⟨-, rfl⟩ := hown
      have := (hfinish b hb).2
      rw [allowedIn_cons]
      split <;> omega
    · rw [hcount k hown]
      rw [Call.find, if_neg hown] at hb
      split at hb
      · cases hb
      · exact h.counted k b hb
  case gone =>
    intro k hk hpos
    rw [lookup_commit] at hk
    have hown : ¬(c.bucket.isSome ∧ k = c.key settings hashIdentifier) := by
      intro hown
      rw [Call.find, if_pos hown] at hk
      rw [hk] at hown
      simp at hown
    simp only at hpos ⊢
    rw [hcount k hown] at hpos
    rw [Call.find, if_neg hown] at hk
    split at hk
    · -- a row that the call has deleted: its window is over for the calls under way
      rename_i hdeleted
      have hexpired := (hc.stale k hdeleted).2
      refine ⟨hexpired.trans (h.clock i c hi), fun j d hj hkey => ?_⟩
      have hlater := h.prompt i c j d hi (lookup_of_erase hj).2
      rw [hkey] at hlater
      omega
    · exact hrest.gone k hk hpos

/-- A call that begins. -/
theorem Fair.enter {s : State} (h : Fair settings hashIdentifier s) {c : Call}
    (hclock : s.clock ≤ c.now)
    (hprompt : ∀ i d, s.calls.lookup i = some d → c.now < d.expiresAt settings) :
    Fair settings hashIdentifier { s with
      calls := s.calls.insert s.next c, next := s.next + 1, clock := c.now } := by
  have hcases : ∀ {j d}, (s.calls.insert s.next c).lookup j = some d →
      d = c ∨ s.calls.lookup j = some d := by
    intro j d hj
    by_cases hji : j = s.next
    · rw [hji, AList.lookup_insert, Option.some.injEq] at hj
      exact Or.inl hj.symm
    · rw [AList.lookup_insert_ne hji] at hj
      exact Or.inr hj
  have hnew := c.now_lt_expires settings hashIdentifier
  constructor
  case clock =>
    intro j d hj
    rcases hcases hj with rfl | hj
    · exact le_rfl
    · exact (h.clock j d hj).trans hclock
  case prompt =>
    intro j d j' d' hj hj'
    rcases hcases hj with rfl | hold <;> rcases hcases hj' with rfl | hold'
    · exact hnew
    · rw [← d'.expiresAt_eq settings hashIdentifier]
      exact hprompt j' d' hold'
    · exact ((h.clock j d hold).trans hclock).trans_lt hnew
    · exact h.prompt j d j' d' hold hold'
  case bounded => exact h.bounded
  case counted => exact h.counted
  case gone =>
    intro k hk hpos
    obtain ⟨hexpired, hothers⟩ := h.gone k hk hpos
    refine ⟨hexpired.trans hclock, fun j d hj => ?_⟩
    rcases hcases hj with rfl | hold
    · rintro rfl
      exact absurd (hexpired.trans hclock) (not_le.mpr hnew)
    · exact hothers j d hold

/-- A call that goes on is still the same call. -/
theorem Moved.key {c' : Call} (h : Moved settings hashIdentifier others c c') :
    c'.key settings hashIdentifier = c.key settings hashIdentifier := by
  simp only [Call.key, Call.spec, h.scope, h.identifier, h.now]

theorem Fair.running {s : State} (h : Fair settings hashIdentifier s) {i : Nat} {c c' : Call}
    (hi : s.calls.lookup i = some c) (hmoved : Moved settings hashIdentifier others c c')
    (n : Nat) : Fair settings hashIdentifier { s with
      db := { s.db with nextId := n }, calls := s.calls.insert i c' } := by
  -- every call is one that was under way, as far as its window goes
  have hcases : ∀ {j d}, (s.calls.insert i c').lookup j = some d →
      ∃ e, s.calls.lookup j = some e ∧ d.now = e.now ∧
        d.key settings hashIdentifier = e.key settings hashIdentifier := by
    intro j d hj
    by_cases hji : j = i
    · rw [hji, AList.lookup_insert, Option.some.injEq] at hj
      subst hji hj
      exact ⟨c, hi, hmoved.now, hmoved.key⟩
    · rw [AList.lookup_insert_ne hji] at hj
      exact ⟨d, hj, rfl, rfl⟩
  constructor
  case clock =>
    intro j d hj
    obtain ⟨e, he, hnow, -⟩ := hcases hj
    rw [hnow]
    exact h.clock j e he
  case prompt =>
    intro j d j' d' hj hj'
    obtain ⟨e, he, hnow, -⟩ := hcases hj
    obtain ⟨e', he', -, hkey⟩ := hcases hj'
    rw [hnow, hkey]
    exact h.prompt j e j' e' he he'
  case bounded => exact h.bounded
  case counted => exact h.counted
  case gone =>
    intro k hk hpos
    obtain ⟨hexpired, hothers⟩ := h.gone k hk hpos
    refine ⟨hexpired, fun j d hj => ?_⟩
    obtain ⟨e, he, -, hkey⟩ := hcases hj
    rw [hkey]
    exact hothers j e he

/-- Time goes on. -/
theorem Fair.tick {s : State} (h : Fair settings hashIdentifier s) {now : Nat}
    (hclock : s.clock ≤ now) : Fair settings hashIdentifier { s with clock := now } where
  clock i c hi := (h.clock i c hi).trans hclock
  prompt := h.prompt
  bounded := h.bounded
  counted := h.counted
  gone k hk hpos :=
    have hgone := h.gone k hk hpos
    ⟨hgone.1.trans hclock, hgone.2⟩

/-- A call that ends without having been allowed. -/
theorem Fair.refuse {s : State} (h : Fair settings hashIdentifier s) (i : Nat) {f : Finished}
    (hf : f.outcome ≠ .allowed) : Fair settings hashIdentifier { s with
      calls := s.calls.erase i, finished := f :: s.finished } := by
  have hrest := h.erase i
  have hsame : ∀ k, allowedIn settings hashIdentifier (f :: s.finished) k =
      allowedIn settings hashIdentifier s.finished k := allowedIn_refused hf s.finished
  refine ⟨hrest.clock, hrest.prompt, fun k => ?_, fun k b hb => ?_, fun k hk hpos => ?_⟩
  · rw [hsame]
    exact h.bounded k
  · rw [hsame]
    exact h.counted k b hb
  · rw [hsame] at hpos
    exact hrest.gone k hk hpos

/-- **Every prompt step keeps the windows.** -/
theorem Fair.step {s s' : State} {e : Event} (h : Fair settings hashIdentifier s)
    (hinv : Inv settings hashIdentifier s.db s.calls) (hprompt : Prompt settings s e)
    (hs : step settings hashIdentifier s e = some s') : Fair settings hashIdentifier s' := by
  rcases step_cases hs with ⟨scope, identifier, now, rfl, hclock, rfl | rfl⟩ |
    ⟨i, c, -, hi, ⟨db', c', hp, rfl⟩ | ⟨db', outcome, hp, rfl⟩⟩ | ⟨i, -, rfl⟩
  · exact h.tick hclock
  · refine h.enter hclock fun i d hi => hprompt d ?_
    exact List.mem_map.mpr ⟨(i, d), Table.mem_rows.mpr hi, rfl⟩
  · obtain ⟨hkept, n, -, rfl⟩ := perform_running (hinv.known i c hi) hinv.database hp
    exact h.running hi hkept.moved n
  · rcases perform_ended hp with ⟨rfl, hrefused⟩ | ⟨consumed, hstage, rfl, rfl⟩
    · exact h.refuse i hrefused
    · exact h.commit hinv hi hstage
  · exact h.erase i

end Safety

end Backend.RateLimits

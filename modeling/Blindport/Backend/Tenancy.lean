import Blindport.Backend.Assertions

/-!
# Blindport.Backend.Tenancy

What a worker that took the NWC lease of a payment knows while it holds the
object it loaded under the lease.

As long as the stored token is the one in the object, nobody has recorded an
attempt since (when every worker reads its own token back), and nobody has
recorded an observation that blocks a retry.  Both are invariants of the worker,
not of the row: the lease may have elapsed and others may have come, but then
the stored token is another one and stays another one.
-/

namespace Backend

open Conc

/-! ## one payment through one move -/

/-- What a move of session `j` does to one payment and to the record. -/
inductive Evolves (j pid : Nat) (g g' : World) : Prop where
  | same (hcell : g'.payments.cell pid = g.payments.cell pid) (l : List Event)
      (hl : g'.history = l ++ g.history) (hskip : ∀ e ∈ l, e.Skips pid)
  | undo (hcell : g'.payments.cell pid = ⟨(g.payments.cell pid).committed, none⟩)
      (hl : g'.history = g.history)
  | lock (row : Payment) (hv : (g.payments.cell pid).view j = some row)
      (hcell : g'.payments.cell pid = ⟨(g.payments.cell pid).committed, some (j, row)⟩)
      (hl : g'.history = g.history)
  | execute (row : Payment) (s : PaymentUpdate) (hv : (g.payments.cell pid).view j = some row)
      (hcell : g'.payments.cell pid = ⟨(g.payments.cell pid).committed, some (j, s.set row)⟩)
      (hl : g'.history = .executed j pid s row :: g.history)
  | publish (r : Payment) (hr : (g.payments.cell pid).pending = some (j, r))
      (hcell : g'.payments.cell pid = ⟨some r, none⟩) (l₁ l₂ : List Event)
      (hl : g'.history =
        l₁ ++ .published j pid (g.payments.cell pid).committed r :: (l₂ ++ g.history))
      (h₁ : ∀ e ∈ l₁, e.Skips pid) (h₂ : ∀ e ∈ l₂, e.Skips pid)

theorem Move.evolves {n j pid : Nat} {g g' : World} (hg : Inv n g) (h : Move n j g g')
    (hex : Exists pid g) : Evolves j pid g g' := by
  cases h with
  | quiet h => exact .same (by rw [h.payments]) [] h.history (by simp)
  | @note e ht he hok => exact .same rfl [e] rfl (by simpa using he pid)
  | @lock q row hv hfree =>
      by_cases e : pid = q
      · subst e
        exact .lock row hv (by simp [Cell.write]) rfl
      · exact .same (by simp [e]) [] rfl (by simp)
  | @execute q row s hv hfree hsel hok =>
      by_cases e : pid = q
      · subst e
        exact .execute row s hv (by simp [World.note, Cell.write]) rfl
      · exact .same (by simp [World.note, e]) [_] rfl (by simp [Event.Skips])
  | insert =>
      have e : pid ≠ g.payments.next := by
        rintro rfl
        obtain ⟨c, hc⟩ := hex
        simp [hg.unused g.payments.next (Nat.le_refl _)] at hc
      exact .same (by simp [Table.insert, e]) [] rfl (by simp)
  | extend => exact .same rfl [_] rfl (by simp [Event.Skips])
  | credit => exact .same rfl [] rfl (by simp)
  | commit hok =>
      by_cases hheld : ∃ r, (g.payments.cell pid).pending = some (j, r)
      · obtain ⟨r, hr⟩ := hheld
        obtain ⟨l₁, l₂, hl, h₁, h₂⟩ := published_split hg hr
        exact .publish r hr (Cell.commit_of_held hr) l₁ l₂ hl h₁ h₂
      · have hnot : ∀ r, (g.payments.cell pid).pending ≠ some (j, r) := fun r hr => hheld ⟨r, hr⟩
        exact .same (Cell.commit_of_not_held hnot) _ rfl
          fun e he => versions_skip (fun _ => hnot) he
  | rollback =>
      by_cases hheld : ∃ r, (g.payments.cell pid).pending = some (j, r)
      · obtain ⟨r, hr⟩ := hheld
        exact .undo (by simp [World.rollback, Table.rollback, Cell.rollback, hr]) rfl
      · refine .same ?_ [] rfl (by simp)
        change (g.payments.cell pid).rollback j = g.payments.cell pid
        unfold Cell.rollback
        split
        · rename_i t r hp
          have hne : t ≠ j := fun e => hheld ⟨r, e ▸ hp⟩
          simp [hne]
        · rfl

/-! ## tokens -/

/-- How often the lease with this token was taken. -/
def claims (t : String) (h : List Event) : Nat := (h.filterMap Event.leaseToken).count t

theorem claims_append (t : String) (l h : List Event) :
    claims t (l ++ h) = claims t l + claims t h := by
  simp [claims, List.filterMap_append, List.count_append]

theorem UniqueTokens.claims_le_one {h : List Event} (hu : UniqueTokens h) (t : String) :
    claims t h ≤ 1 :=
  List.nodup_iff_count.mp hu t

theorem Leased.claims_pos {j pid : Nat} {t : String} {h : List Event} (hl : Leased j pid t h) :
    1 ≤ claims t h := by
  obtain ⟨now, until_, row, hmem⟩ := hl
  exact List.count_pos_iff.mpr (List.mem_filterMap.mpr ⟨_, hmem, rfl⟩)

section suffix

variable {l h : List Event}

theorem ReadsBack.suffix (hr : ReadsBack (l ++ h)) : ReadsBack h :=
  fun i pid t row hmem => hr i pid t row (List.mem_append_right l hmem)

theorem BlocksKept.suffix (hb : BlocksKept (l ++ h)) : BlocksKept h := by
  induction l with
  | nil => exact hb
  | cons e l ih => exact ih hb.tail

theorem RetriesBare.suffix (hr : RetriesBare (l ++ h)) : RetriesBare h := by
  induction l with
  | nil => exact hr
  | cons e l ih => exact ih hr.tail

theorem UniqueTokens.suffix (hu : UniqueTokens (l ++ h)) : UniqueTokens h := by
  induction l with
  | nil => exact hu
  | cons e l ih => exact ih hu.tail

theorem Leased.append {i pid : Nat} {t : String} (hl : Leased i pid t h) :
    Leased i pid t (l ++ h) := by
  induction l with
  | nil => exact hl
  | cons e l ih => exact ih.cons e

theorem Cleared.append {pid : Nat} {t : String} (hc : Cleared pid t h)
    (hl : ∀ e ∈ l, e.isAttempt pid = false) : Cleared pid t (l ++ h) := by
  induction l with
  | nil => exact hc
  | cons e l ih =>
      exact (ih fun e he => hl e (List.mem_cons_of_mem _ he)).cons (hl e List.mem_cons_self)

end suffix

/-! ## tenants -/

/-- Session `i` took the lease of the payment and loaded `p` under it. -/
structure Tenant (i : Nat) (p : Payment) (g : World) : Prop where
  stored : Exists p.id g
  leased : ReadsBack g.history → ∃ t, p.nwcLeaseToken = some t ∧ Leased i p.id t g.history
  count : ReadsBack g.history → UniqueTokens g.history → ∀ c,
    (g.payments.cell p.id).committed = some c → c.nwcLeaseToken = p.nwcLeaseToken →
    c.nwcAttemptCount = p.nwcAttemptCount
  block : BlocksKept g.history → RetriesBare g.history → UniqueTokens g.history → ∀ c,
    (g.payments.cell p.id).committed = some c → p.nwcLeaseToken.isSome →
    c.nwcLeaseToken = p.nwcLeaseToken → c.observedBlock = true → p.observedBlock = true
  claimed : ∀ t, p.nwcLeaseToken = some t → 1 ≤ claims t g.history
  rival : ∀ t j r, p.nwcLeaseToken = some t → (g.payments.cell p.id).pending = some (j, r) →
    r.nwcLeaseToken = some t →
    (∃ c, (g.payments.cell p.id).committed = some c ∧ c.nwcLeaseToken = some t) ∨
      2 ≤ claims t g.history

/-- Since the last recorded attempt the wallet answered that it did not pay, if
the stored token is still the object's. -/
def Refused (p : Payment) (g : World) : Prop :=
  ReadsBack g.history → UniqueTokens g.history → ∀ c t,
    (g.payments.cell p.id).committed = some c → p.nwcLeaseToken = some t →
    c.nwcLeaseToken = some t → Cleared p.id t g.history

section tenant

variable {n i j : Nat} {p : Payment} {g g' : World}

theorem Tenant.of_same (h : Tenant i p g)
    (hcell : g'.payments.cell p.id = g.payments.cell p.id) {l : List Event}
    (hl : g'.history = l ++ g.history) : Tenant i p g' where
  stored := by
    unfold Exists
    rw [hcell]
    exact h.stored
  leased hrb := by
    rw [hl] at hrb ⊢
    obtain ⟨t, ht, hleased⟩ := h.leased hrb.suffix
    exact ⟨t, ht, hleased.append⟩
  count hrb hu c hc := by
    rw [hl] at hrb hu
    exact h.count hrb.suffix hu.suffix c (hcell ▸ hc)
  block hbk hrb hu c hc := by
    rw [hl] at hbk hrb hu
    exact h.block hbk.suffix hrb.suffix hu.suffix c (hcell ▸ hc)
  claimed t ht := by
    rw [hl, claims_append]
    have := h.claimed t ht
    omega
  rival t k r ht hr hrt := by
    rw [hcell] at hr ⊢
    rw [hl, claims_append]
    rcases h.rival t k r ht hr hrt with hc | h2
    · exact .inl hc
    · exact .inr (by omega)

theorem Refused.of_same (h : Refused p g)
    (hcell : g'.payments.cell p.id = g.payments.cell p.id) {l : List Event}
    (hl : g'.history = l ++ g.history) (hskip : ∀ e ∈ l, e.Skips p.id) : Refused p g' := by
  intro hrb hu c t hc ht hct
  rw [hl] at hrb hu ⊢
  rw [hcell] at hc
  exact (h hrb.suffix hu.suffix c t hc ht hct).append fun e he => (hskip e he).isAttempt

/-- While the stored token is the object's, no other session publishes an
attempt. -/
theorem Tenant.publish (h : Tenant i p g) (hg : Inv n g) (hj : j ≠ i) {r : Payment}
    (hr : (g.payments.cell p.id).pending = some (j, r))
    (hrb : ReadsBack g.history) (hu : UniqueTokens g.history)
    (htok : r.nwcLeaseToken = p.nwcLeaseToken) {c : Payment}
    (hc : (g.payments.cell p.id).committed = some c) :
    c.nwcLeaseToken = p.nwcLeaseToken ∧ r.nwcAttemptCount = c.nwcAttemptCount := by
  obtain ⟨t, ht, hleased⟩ := h.leased hrb
  have hother : ∀ q, ¬ Leased j q t g.history := fun q hq => hj (hu.thread_eq hq hleased)
  have hct : c.nwcLeaseToken = some t := by
    rcases (hg.cells p.id).token j r t hr (htok.trans ht) with ⟨c', hc', hct'⟩ | hl
    · rw [hc, Option.some.injEq] at hc'
      exact hc' ▸ hct'
    · exact absurd hl (hother _)
  refine ⟨hct.trans ht.symm, ?_⟩
  by_contra hne
  obtain ⟨t', ht', hl, -⟩ := ((hg.cells p.id).attempt j r c hr hc hne).leased
  rw [hct, Option.some.injEq] at ht'
  exact hother _ (ht' ▸ hl hrb)

/-- What a session sees of a payment: its own version or the committed one. -/
theorem view_cases {c : Cell Payment} {row : Payment} (hv : c.view j = some row) :
    c.pending = some (j, row) ∨ c.committed = some row := by
  unfold Cell.view at hv
  split at hv
  · rename_i t r hp
    split at hv
    · rename_i e
      exact .inl (by rw [hp, e, Option.some.inj hv])
    · exact .inr hv
  · exact .inr hv

/-- A new version with the object's token was claimed with it, or came from one
that had it. -/
theorem Tenant.rival_view (h : Tenant i p g) {row : Payment} {t : String}
    (ht : p.nwcLeaseToken = some t) (hv : (g.payments.cell p.id).view j = some row)
    (hrow : row.nwcLeaseToken = some t) :
    (∃ c, (g.payments.cell p.id).committed = some c ∧ c.nwcLeaseToken = some t) ∨
      2 ≤ claims t g.history := by
  rcases view_cases hv with hp | hc
  · exact h.rival t j row ht hp hrow
  · exact .inl ⟨row, hc, hrow⟩

theorem Tenant.foreign (h : Tenant i p g) (hg : Inv n g) (hj : j ≠ i) (hmove : Move n j g g') :
    Tenant i p g' := by
  obtain ⟨l, hl, -⟩ := Move.history hmove
  have hstored := Exists.durable p.id hg hmove h.stored
  have hleased : ReadsBack g'.history →
      ∃ t, p.nwcLeaseToken = some t ∧ Leased i p.id t g'.history := by
    intro hrb
    rw [hl] at hrb ⊢
    obtain ⟨t, ht, hleased⟩ := h.leased hrb.suffix
    exact ⟨t, ht, hleased.append⟩
  have hclaimed : ∀ t, p.nwcLeaseToken = some t → 1 ≤ claims t g'.history := by
    intro t ht
    rw [hl, claims_append]
    have := h.claimed t ht
    omega
  -- When the committed row stays, only what other sessions hold has to be looked at.
  have stays : (g'.payments.cell p.id).committed = (g.payments.cell p.id).committed →
      (∀ t k r, p.nwcLeaseToken = some t → (g'.payments.cell p.id).pending = some (k, r) →
        r.nwcLeaseToken = some t →
        (∃ c, (g.payments.cell p.id).committed = some c ∧ c.nwcLeaseToken = some t) ∨
          2 ≤ claims t g'.history) → Tenant i p g' := by
    intro hcom hrival
    refine ⟨hstored, hleased, ?_, ?_, hclaimed, ?_⟩
    · intro hrb hu c hc
      rw [hl] at hrb hu
      exact h.count hrb.suffix hu.suffix c (hcom ▸ hc)
    · intro hbk hrb hu c hc
      rw [hl] at hbk hrb hu
      exact h.block hbk.suffix hrb.suffix hu.suffix c (hcom ▸ hc)
    · rw [hcom]
      exact hrival
  have mono : ∀ {t : String}, 2 ≤ claims t g.history → 2 ≤ claims t g'.history := by
    intro t h2
    rw [hl, claims_append]
    omega
  cases hmove.evolves hg h.stored with
  | same hcell l' hl' => exact h.of_same hcell hl'
  | undo hcell => exact stays (by rw [hcell]) (by simp [hcell])
  | lock row hv hcell =>
      refine stays (by rw [hcell]) fun t k r ht hr hrt => ?_
      simp only [hcell, Option.some.injEq, Prod.mk.injEq] at hr
      rcases h.rival_view ht hv (hr.2 ▸ hrt) with hc | h2
      · exact .inl hc
      · exact .inr (mono h2)
  | execute row s hv hcell hl' =>
      refine stays (by rw [hcell]) fun t k r ht hr hrt => ?_
      simp only [hcell, Option.some.injEq, Prod.mk.injEq] at hr
      rw [← hr.2] at hrt
      by_cases hs : ∃ now until_, s = .claimNwc now until_ t
      · obtain ⟨now, until_, rfl⟩ := hs
        have hpos := h.claimed t ht
        right
        rw [hl', ← List.singleton_append, claims_append]
        have : claims t [Event.executed j p.id (.claimNwc now until_ t) row] = 1 := by
          simp [claims, Event.leaseToken]
        omega
      · have hrow := PaymentUpdate.set_token (fun now until_ e => hs ⟨now, until_, e⟩) hrt
        rcases h.rival_view ht hv hrow with hc | h2
        · exact .inl hc
        · exact .inr (mono h2)
  | publish r hr hcell =>
      obtain ⟨c, hc⟩ := h.stored
      have hnew : ∀ c', (g'.payments.cell p.id).committed = some c' → c' = r := by
        intro c' hc'
        rw [hcell] at hc'
        exact (Option.some.inj hc').symm
      refine ⟨hstored, hleased, ?_, ?_, hclaimed, by simp [hcell]⟩
      · intro hrb hu c' hc' htok
        rw [hl] at hrb hu
        obtain rfl := hnew c' hc'
        obtain ⟨hct, hcount⟩ := h.publish hg hj hr hrb.suffix hu.suffix htok hc
        rw [hcount]
        exact h.count hrb.suffix hu.suffix c hc hct
      · intro hbk hrb hu c' hc' hsome htok hb
        rw [hl] at hbk hrb hu
        obtain rfl := hnew c' hc'
        obtain ⟨t, ht⟩ := Option.isSome_iff_exists.mp hsome
        have hcb : c.observedBlock = true := by
          by_contra hno
          have := (hg.cells p.id).unlocked hrb.suffix j c' c hr hc (Bool.eq_false_iff.mpr hno) hb
          rw [htok, ht] at this
          contradiction
        rcases h.rival t j c' ht hr (htok.trans ht) with ⟨c₀, hc₀, hct⟩ | h2
        · rw [hc, Option.some.injEq] at hc₀
          exact h.block hbk.suffix hrb.suffix hu.suffix c hc hsome
            (by rw [hc₀, hct, ht]) hcb
        · have := hu.suffix.claims_le_one t
          omega

theorem Refused.foreign (h : Refused p g) (ht : Tenant i p g) (hg : Inv n g) (hj : j ≠ i)
    (hmove : Move n j g g') : Refused p g' := by
  have carry : (g'.payments.cell p.id).committed = (g.payments.cell p.id).committed →
      ∀ l : List Event, g'.history = l ++ g.history → (∀ e ∈ l, e.Skips p.id) →
        Refused p g' := by
    intro hcom l hl hskip hrb hu c t hc htok hct
    rw [hl] at hrb hu ⊢
    rw [hcom] at hc
    exact (h hrb.suffix hu.suffix c t hc htok hct).append fun e he => (hskip e he).isAttempt
  cases hmove.evolves hg ht.stored with
  | same hcell l hl hskip => exact h.of_same hcell hl hskip
  | undo hcell hl => exact carry (by rw [hcell]) [] hl (by simp)
  | lock row hv hcell hl => exact carry (by rw [hcell]) [] hl (by simp)
  | execute row s hv hcell hl =>
      exact carry (by rw [hcell]) [_] hl (by simp [Event.Skips])
  | publish r hr hcell l₁ l₂ hl h₁ h₂ =>
      intro hrb hu c t hc htok hct
      obtain ⟨c₀, hc₀⟩ := ht.stored
      rw [hcell, Option.some.injEq] at hc
      subst hc
      rw [hl] at hrb hu ⊢
      have hrb' : ReadsBack g.history := hrb.suffix.tail.suffix
      have hu' : UniqueTokens g.history := hu.suffix.tail.suffix
      obtain ⟨hct₀, hcount⟩ := ht.publish hg hj hr hrb' hu' (hct.trans htok.symm) hc₀
      have hold := h hrb' hu' c₀ t hc₀ htok (hct₀.trans htok)
      refine Cleared.append (Cleared.cons (hold.append fun e he => (h₂ e he).isAttempt) ?_)
        fun e he => (h₁ e he).isAttempt
      simp [Event.isAttempt, hc₀, hcount]

theorem Tenant.passive (p : Payment) : Passive n i (Tenant i p) where
  stable := fun _ _ _ hj hg hmove h => h.foreign hg hj hmove
  quiet _ hq h := h.of_same (by rw [hq.payments]) (l := []) hq.history
  silent _ _ h := h.of_same (l := [_]) rfl rfl

/-- A tenant whose wallet has just answered that it did not pay. -/
theorem Refused.passive (p : Payment) : Passive n i fun g => Tenant i p g ∧ Refused p g where
  stable := fun _ _ _ hj hg hmove h => ⟨h.1.foreign hg hj hmove, h.2.foreign h.1 hg hj hmove⟩
  quiet _ hq h := ⟨h.1.of_same (by rw [hq.payments]) (l := []) hq.history,
    h.2.of_same (by rw [hq.payments]) (l := []) hq.history (by simp)⟩
  silent he _ h := ⟨h.1.of_same (l := [_]) rfl rfl,
    h.2.of_same (l := [_]) rfl rfl (by simpa using he.skips p.id)⟩

end tenant

end Backend

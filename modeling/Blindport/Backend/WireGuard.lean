import Mathlib.Data.List.Dedup
import Blindport.Backend.Lifecycle
import Blindport.Relay.Accounting

/-!
# Blindport.Backend.WireGuard

`services/wireguard.py`: the relay snapshot `desired_state_v3` and what the
relay makes of it.

The peers and the prefix bindings of a snapshot come from two separate reads of
the active routed subscriptions, and only the peers are filtered by enrolment.
The relay wants exactly one binding per owned prefix, so
`desiredStateV3_accepted_iff` says when the two lists agree.

The builder runs on one quiescent database; only the clock moves between its
reads.
-/

namespace Backend

open Wgnet Relay

/-! ## the tables -/

/-- The rows a snapshot is built from. -/
structure Tables where
  users : List User
  subscriptions : List Subscription
  peers : List WireGuardPeer
  credentials : List ClientCredential
  leases : List IPLease

/-- `canonical_wireguard_key` accepts the value. -/
def canonicalWireguardKey (value : String) : Prop :=
  ∃ raw : List UInt8, raw.length = 32 ∧ raw.any (· ≠ 0) = true ∧
    String.ofList (Base64.encode raw) = value

namespace Tables

/-- The filter of `_active_routed_subscriptions`, with its join on the account. -/
def routed (t : Tables) (sub : Subscription) : Bool :=
  sub.product = .ip ∧ sub.delivery = .wireguard ∧ sub.status = .active ∧
    t.users.any fun u => u.id = sub.userId ∧ u.isSuspended = false

/-- The peer and the credential of an account name the same instance. -/
def enrolledPeer (t : Tables) (userId : Nat) : Option WireGuardPeer :=
  match t.peers.find? (·.userId = userId), t.credentials.find? (·.userId = userId) with
  | some peer, some credential =>
      if peer.instanceId = credential.instanceId then some peer else none
  | _, _ => none

/-- One turn of `expire_elapsed_subscriptions`: the conditional update of the
row and, for a dedicated address, the quarantine of its lease. -/
def expireRow (cfg : Settings) (now : Datetime) (leaseNow : Nat → Datetime) (t : Tables)
    (sub : Subscription) : Tables :=
  if sub.elapsed now then
    { t with
      subscriptions := t.subscriptions.map fun row =>
        if row.id = sub.id ∧ row.status = .active ∧ row.currentPeriodEnd = sub.currentPeriodEnd then
          expiryValues cfg now sub row
        else row
      leases := t.leases.map fun lease =>
        if sub.product = .ip ∧ lease.subscriptionId = sub.id ∧ lease.releasedAt = none then
          lease.quarantine (leaseNow sub.id) (quarantineUntil cfg now sub)
        else lease }
  else t

/-- `expire_elapsed_subscriptions`; `leaseNow` are the clock readings of the
lease updates. -/
def expireElapsedSubscriptions (cfg : Settings) (now : Datetime) (leaseNow : Nat → Datetime)
    (t : Tables) (rows : List Subscription) : Tables :=
  rows.foldl (expireRow cfg now leaseNow) t

/-- `_active_routed_subscriptions`, with the tables it leaves. -/
def activeRoutedSubscriptions (cfg : Settings) (now : Datetime) (leaseNow : Nat → Datetime)
    (t : Tables) : Tables × List Subscription :=
  let rows := t.subscriptions.filter t.routed
  let t' := t.expireElapsedSubscriptions cfg now leaseNow rows
  (t', (rows.filterMap fun row => t'.subscriptions.find? (·.id = row.id)).filter fun row =>
    row.status = .active ∧ row.assignedIp.isSome)

end Tables

/-! ## the snapshot -/

/-- `f"{row.assigned_ip}/32"`. -/
def routedPrefix (sub : Subscription) : String := sub.assignedIp.getD "None" ++ "/32"

/-- The peers of `desired_state`.  The source groups the rows in a dict, whose
order is lost when the peers are sorted by key. -/
def desiredPeers (t : Tables) (rows : List Subscription) : List Peer :=
  let peers := (rows.map Subscription.userId).dedup.filterMap fun userId =>
    (t.enrolledPeer userId).map fun peer =>
      { publicKey := peer.publicKey
        allowedPrefixes :=
          sortStrings ((rows.filter fun row => row.userId = userId).map routedPrefix) : Peer }
  peers.insertionSort fun x y => x.publicKey ≤ y.publicKey

/-- `managed` in `desired_state`. -/
def managedPrefixes (cfg : Settings) : List String :=
  sortStrings (cfg.wireguardPublicIpsList.map (· ++ "/32"))

/-- The approved leases of `desired_state_v2`. -/
def IPLease.smtpApproved (lease : IPLease) : Bool :=
  lease.delivery = .wireguard ∧ lease.state = .active ∧ lease.releasedAt = none ∧
    lease.smtpEnabled = true ∧ lease.smtpReviewedAt.isSome ∧ lease.smtpRevokedAt = none

/-- `smtp_prefixes` in `desired_state_v2`. -/
def smtpPrefixes (t : Tables) (peers : List Peer) : List String :=
  let active := peers.flatMap Peer.allowedPrefixes
  sortStrings
    (((t.leases.filter IPLease.smtpApproved).map fun lease => lease.address ++ "/32").filter
    fun p => p ∈ active)

/-- `bindings` in `desired_state_v3`. -/
def prefixBindings (rows : List Subscription) : List PrefixBinding :=
  sortBindings (rows.map fun sub => ⟨routedPrefix sub, sub.publicId.text⟩)

/-- The clock readings of one snapshot. -/
structure SnapshotClock where
  first : Datetime
  second : Datetime
  firstLease : Nat → Datetime
  secondLease : Nat → Datetime

/-- `desired_state_v3` as the relay decodes it.  `digest` stands for the hash
of the canonical JSON text. -/
def desiredStateV3 (cfg : Settings)
    (digest : List String → List Peer → List String → List PrefixBinding → String)
    (clock : SnapshotClock) (t : Tables) : WireGuardDesiredState :=
  let first := t.activeRoutedSubscriptions cfg clock.first clock.firstLease
  let peers := desiredPeers first.1 first.2
  let smtp := smtpPrefixes first.1 peers
  let second := first.1.activeRoutedSubscriptions cfg clock.second clock.secondLease
  let bindings := prefixBindings second.2
  { revision := digest (managedPrefixes cfg) peers smtp bindings
    managedPrefixes := managedPrefixes cfg
    peers := peers
    smtpAllowedPrefixes := smtp
    prefixBindings := some bindings }

/-! ## the database constraints -/

/-- A database: the tables with their unique indexes, enrolled keys that passed
`canonical_wireguard_key`, and routed addresses from the managed inventory. -/
structure Database (cfg : Settings) extends Tables where
  subscription_id : (subscriptions.map Subscription.id).Nodup
  public_id : (subscriptions.map Subscription.publicId).Nodup
  dedicated_ip : ∀ x ∈ subscriptions, ∀ y ∈ subscriptions, x.product = .ip → y.product = .ip →
    x.assignedIp ≠ none → x.assignedIp = y.assignedIp → x.id = y.id
  peer_key_unique : (peers.map WireGuardPeer.publicKey).Nodup
  peer_user : (peers.map WireGuardPeer.userId).Nodup
  peer_key : ∀ peer ∈ peers, canonicalWireguardKey peer.publicKey
  lease_address : ((leases.filter fun l => l.releasedAt = none).map IPLease.address).Nodup
  routed_address : ∀ sub ∈ subscriptions, toTables.routed sub →
    ∃ ip ∈ cfg.wireguardPublicIps, sub.assignedIp = some ip.text

/-! ## what the two reads return -/

namespace Tables

/-- The tables after an expiry, row by row. -/
def expired (cfg : Settings) (now : Datetime) (rows : List Subscription) (row : Subscription) :
    Subscription :=
  if row.id ∈ rows.map Subscription.id ∧ row.elapsed now = true then expiryValues cfg now row row
  else row

@[simp] theorem expiryValues_id (cfg : Settings) (now : Datetime) (sub row : Subscription) :
    (expiryValues cfg now sub row).id = row.id := by
  unfold expiryValues
  dsimp only
  split
  · rfl
  · split <;> rfl

@[simp] theorem expiryValues_status (cfg : Settings) (now : Datetime) (sub row : Subscription) :
    (expiryValues cfg now sub row).status = .expired := by
  unfold expiryValues
  dsimp only
  split
  · rfl
  · split <;> rfl

@[simp] theorem expired_id (cfg : Settings) (now : Datetime) (rows : List Subscription)
    (row : Subscription) : (expired cfg now rows row).id = row.id := by
  unfold expired
  split <;> simp

theorem expireRow_subscriptions {t : Tables} (hid : (t.subscriptions.map Subscription.id).Nodup)
    (cfg : Settings) (now : Datetime) (leaseNow : Nat → Datetime) {sub : Subscription}
    (hsub : sub ∈ t.subscriptions) :
    (t.expireRow cfg now leaseNow sub).subscriptions =
      t.subscriptions.map (expired cfg now [sub]) := by
  have hsame : ∀ row ∈ t.subscriptions, row.id = sub.id → row = sub := fun row hrow h =>
    List.inj_on_of_nodup_map hid hrow hsub h
  unfold expireRow
  split
  · rename_i hel
    apply List.map_congr_left
    intro row hrow
    by_cases h : row.id = sub.id
    · obtain rfl := hsame row hrow h
      have hact : row.status = .active := by
        simp only [Subscription.elapsed, decide_eq_true_eq] at hel
        exact hel.1
      simp [expired, hact, hel]
    · simp [expired, h]
  · rename_i hel
    conv_lhs => rw [← List.map_id t.subscriptions]
    apply List.map_congr_left
    intro row hrow
    by_cases h : row.id = sub.id
    · obtain rfl := hsame row hrow h
      simp [expired, hel]
    · simp [expired, h]

theorem expireRow_frame (cfg : Settings) (now : Datetime) (leaseNow : Nat → Datetime) (t : Tables)
    (sub : Subscription) :
    (t.expireRow cfg now leaseNow sub).users = t.users ∧
      (t.expireRow cfg now leaseNow sub).peers = t.peers ∧
        (t.expireRow cfg now leaseNow sub).credentials = t.credentials := by
  unfold expireRow
  split <;> simp

/-- The expiry loop updates each elapsed row of its list and no other. -/
theorem expireElapsed_subscriptions (cfg : Settings) (now : Datetime) (leaseNow : Nat → Datetime)
    (rows : List Subscription) (t : Tables) (hid : (t.subscriptions.map Subscription.id).Nodup)
    (hsub : ∀ row ∈ rows, row ∈ t.subscriptions) (hrows : (rows.map Subscription.id).Nodup) :
    (t.expireElapsedSubscriptions cfg now leaseNow rows).subscriptions =
      t.subscriptions.map (expired cfg now rows) := by
  induction rows generalizing t with
  | nil =>
      have hself : expired cfg now [] = id := funext fun row => by simp [expired]
      simp [expireElapsedSubscriptions, hself]
  | cons sub rows ih =>
      have hmem := hsub sub List.mem_cons_self
      have hnext := t.expireRow_subscriptions hid cfg now leaseNow hmem
      obtain ⟨hnot, hrows⟩ := List.nodup_cons.mp hrows
      have hid' : ((t.expireRow cfg now leaseNow sub).subscriptions.map Subscription.id).Nodup := by
        rw [hnext, List.map_map]
        have hcomp : Subscription.id ∘ expired cfg now [sub] = Subscription.id :=
          funext fun row => by simp
        rw [hcomp]
        exact hid
      have hsub' : ∀ row ∈ rows, row ∈ (t.expireRow cfg now leaseNow sub).subscriptions := by
        intro row hrow
        rw [hnext, List.mem_map]
        refine ⟨row, hsub row (List.mem_cons_of_mem sub hrow), ?_⟩
        have hne : row.id ≠ sub.id := fun h => hnot (h ▸ List.mem_map_of_mem hrow)
        simp [expired, hne]
      have hrest := ih (t.expireRow cfg now leaseNow sub) hid' hsub' hrows
      simp only [expireElapsedSubscriptions, List.foldl_cons] at hrest ⊢
      rw [hrest, hnext, List.map_map]
      apply List.map_congr_left
      intro row hrow
      by_cases h : row.id = sub.id
      · have hout : ∀ x : Subscription, x.id = sub.id → expired cfg now rows x = x := by
          intro x hx
          have : x.id ∉ rows.map Subscription.id := hx ▸ hnot
          simp [expired, this]
        rw [Function.comp_apply, hout _ (by simp [h])]
        simp [expired, h]
      · simp [expired, h]

theorem expireElapsed_frame (cfg : Settings) (now : Datetime) (leaseNow : Nat → Datetime)
    (rows : List Subscription) (t : Tables) :
    (t.expireElapsedSubscriptions cfg now leaseNow rows).users = t.users ∧
      (t.expireElapsedSubscriptions cfg now leaseNow rows).peers = t.peers ∧
        (t.expireElapsedSubscriptions cfg now leaseNow rows).credentials = t.credentials := by
  induction rows generalizing t with
  | nil => exact ⟨rfl, rfl, rfl⟩
  | cons sub rows ih =>
      obtain ⟨hu, hp, hc⟩ := t.expireRow_frame cfg now leaseNow sub
      obtain ⟨hu', hp', hc'⟩ := ih (t.expireRow cfg now leaseNow sub)
      exact ⟨hu'.trans hu, hp'.trans hp, hc'.trans hc⟩

/-- The expiry touches neither the address nor the release of a lease. -/
theorem expireElapsed_leases (cfg : Settings) (now : Datetime) (leaseNow : Nat → Datetime)
    (rows : List Subscription) (t : Tables) :
    ((t.expireElapsedSubscriptions cfg now leaseNow rows).leases.map fun l =>
      (l.address, l.releasedAt)) = t.leases.map fun l => (l.address, l.releasedAt) := by
  induction rows generalizing t with
  | nil => rfl
  | cons sub rows ih =>
      have hstep : ((t.expireRow cfg now leaseNow sub).leases.map fun l =>
          (l.address, l.releasedAt)) = t.leases.map fun l => (l.address, l.releasedAt) := by
        unfold expireRow
        split
        · rw [List.map_map]
          apply List.map_congr_left
          intro lease _
          simp only [Function.comp_apply]
          split <;> rfl
        · rfl
      exact (ih (t.expireRow cfg now leaseNow sub)).trans hstep

/-- The rows one read returns: routed and not elapsed. -/
def live (t : Tables) (now : Datetime) : List Subscription :=
  t.subscriptions.filter fun sub => t.routed sub && !sub.elapsed now

theorem routed_active {t : Tables} {sub : Subscription} (h : t.routed sub = true) :
    sub.status = .active := by
  simp only [routed, decide_eq_true_eq] at h
  exact h.2.2.1

theorem find_expired {t : Tables} (hid : (t.subscriptions.map Subscription.id).Nodup)
    (cfg : Settings) (now : Datetime) (rows : List Subscription) {row : Subscription}
    (hrow : row ∈ t.subscriptions) :
    (t.subscriptions.map (expired cfg now rows)).find? (·.id = row.id) =
      some (expired cfg now rows row) := by
  rw [List.find?_map]
  have hpred : ((fun x : Subscription => decide (x.id = row.id)) ∘ expired cfg now rows) =
      fun x => decide (x.id = row.id) := funext fun x => by simp
  have hfind : t.subscriptions.find? (fun x => decide (x.id = row.id)) = some row := by
    rw [List.find?_eq_some_iff_append]
    obtain ⟨before, after, hsplit⟩ := List.append_of_mem hrow
    refine ⟨by simp, before, after, hsplit, ?_⟩
    intro x hx
    rw [hsplit, List.map_append, List.map_cons] at hid
    have hne : x.id ≠ row.id := fun h =>
      (List.nodup_append.mp hid).2.2 x.id (List.mem_map_of_mem hx) row.id List.mem_cons_self h
    simpa using hne
  rw [hpred, hfind]
  rfl

/-- One read of the active routed subscriptions. -/
theorem activeRouted_rows {t : Tables} (hid : (t.subscriptions.map Subscription.id).Nodup)
    (haddr : ∀ sub ∈ t.subscriptions, t.routed sub = true → sub.assignedIp.isSome = true)
    (cfg : Settings) (now : Datetime) (leaseNow : Nat → Datetime) :
    (t.activeRoutedSubscriptions cfg now leaseNow).2 = t.live now := by
  have hrows : ((t.subscriptions.filter t.routed).map Subscription.id).Nodup :=
    hid.sublist (List.filter_sublist.map _)
  have hsub : ∀ row ∈ t.subscriptions.filter t.routed, row ∈ t.subscriptions := fun row h =>
    (List.mem_filter.mp h).1
  have hmap : ∀ row ∈ t.subscriptions.filter t.routed,
      (t.subscriptions.map (expired cfg now (t.subscriptions.filter t.routed))).find?
        (·.id = row.id) = some (expired cfg now (t.subscriptions.filter t.routed) row) :=
    fun row h => find_expired hid cfg now _ (hsub row h)
  simp only [activeRoutedSubscriptions]
  rw [expireElapsed_subscriptions cfg now leaseNow _ t hid hsub hrows,
    List.filterMap_congr hmap, List.filterMap_eq_map', List.filter_map]
  -- an elapsed row is no longer active, any other is returned as it was
  have hkeep : ∀ row ∈ t.subscriptions.filter t.routed,
      ((fun r : Subscription => decide (r.status = .active ∧ r.assignedIp.isSome = true)) ∘
        expired cfg now (t.subscriptions.filter t.routed)) row = !row.elapsed now := by
    intro row h
    obtain ⟨hmem, hr⟩ := List.mem_filter.mp h
    have hin : row.id ∈ (t.subscriptions.filter t.routed).map Subscription.id :=
      List.mem_map_of_mem h
    cases hel : row.elapsed now with
    | true => simp [expired, hin, hel]
    | false => simp [expired, hel, routed_active hr, haddr row hmem hr]
  rw [List.filter_congr hkeep, List.filter_filter]
  have hid' : ∀ row ∈ t.subscriptions.filter (fun row => !row.elapsed now && t.routed row),
      expired cfg now (t.subscriptions.filter t.routed) row = row := by
    intro row h
    have hel := (List.mem_filter.mp h).2
    simp only [Bool.and_eq_true, Bool.not_eq_true'] at hel
    simp [expired, hel.1]
  rw [List.map_congr_left hid', List.map_id']
  exact List.filter_congr fun row _ => Bool.and_comm _ _

/-- The tables the first read leaves to the second. -/
def afterFirst (cfg : Settings) (clock : SnapshotClock) (t : Tables) : Tables :=
  (t.activeRoutedSubscriptions cfg clock.first clock.firstLease).1

theorem afterFirst_subscriptions {t : Tables}
    (hid : (t.subscriptions.map Subscription.id).Nodup) (cfg : Settings) (clock : SnapshotClock) :
    (t.afterFirst cfg clock).subscriptions =
      t.subscriptions.map (expired cfg clock.first (t.subscriptions.filter t.routed)) :=
  expireElapsed_subscriptions cfg clock.first clock.firstLease _ t hid
    (fun _ h => (List.mem_filter.mp h).1) (hid.sublist (List.filter_sublist.map _))

theorem afterFirst_routed (cfg : Settings) (clock : SnapshotClock) (t : Tables) :
    (t.afterFirst cfg clock).routed = t.routed := by
  funext sub
  have hu : (t.afterFirst cfg clock).users = t.users :=
    (expireElapsed_frame cfg clock.first clock.firstLease _ t).1
  simp [routed, hu]

theorem afterFirst_enrolledPeer (cfg : Settings) (clock : SnapshotClock) (t : Tables) :
    (t.afterFirst cfg clock).enrolledPeer = t.enrolledPeer := by
  funext userId
  obtain ⟨-, hp, hc⟩ := expireElapsed_frame cfg clock.first clock.firstLease
    (t.subscriptions.filter t.routed) t
  have hp' : (t.afterFirst cfg clock).peers = t.peers := hp
  have hc' : (t.afterFirst cfg clock).credentials = t.credentials := hc
  simp [enrolledPeer, hp', hc']

/-- What the first read keeps is what it did not find elapsed. -/
theorem routed_expired {t : Tables} {row : Subscription} (hmem : row ∈ t.subscriptions)
    (cfg : Settings) (now : Datetime) :
    t.routed (expired cfg now (t.subscriptions.filter t.routed) row) =
      (t.routed row && !row.elapsed now) := by
  cases hr : t.routed row with
  | false =>
      by_cases hin : row.id ∈ (t.subscriptions.filter t.routed).map Subscription.id ∧
          row.elapsed now = true
      · simp [expired, hin, routed]
      · rw [expired, if_neg hin, hr]
        rfl
  | true =>
      have hin : row.id ∈ (t.subscriptions.filter t.routed).map Subscription.id :=
        List.mem_map_of_mem (List.mem_filter.mpr ⟨hmem, hr⟩)
      cases hel : row.elapsed now with
      | true => simp [expired, hin, hel, routed]
      | false => simp [expired, hel, hr]

/-- The second read returns what neither reading finds elapsed. -/
theorem live_afterFirst {t : Tables} (hid : (t.subscriptions.map Subscription.id).Nodup)
    (cfg : Settings) (clock : SnapshotClock) :
    (t.afterFirst cfg clock).live clock.second =
      (t.live clock.first).filter fun sub => !sub.elapsed clock.second := by
  have hself : ∀ row ∈ t.subscriptions, (t.routed row && !row.elapsed clock.first) = true →
      expired cfg clock.first (t.subscriptions.filter t.routed) row = row := by
    intro row _ h
    simp only [Bool.and_eq_true, Bool.not_eq_true'] at h
    simp [expired, h.2]
  rw [live, live, afterFirst_subscriptions hid, afterFirst_routed, List.filter_map,
    List.filter_filter]
  have hpred : ∀ row ∈ t.subscriptions,
      ((fun sub => t.routed sub && !sub.elapsed clock.second) ∘
        expired cfg clock.first (t.subscriptions.filter t.routed)) row =
      (!row.elapsed clock.second && (t.routed row && !row.elapsed clock.first)) := by
    intro row hmem
    rw [Function.comp_apply, routed_expired hmem]
    cases h : t.routed row && !row.elapsed clock.first with
    | false => simp
    | true => rw [hself row hmem h]; simp
  rw [List.filter_congr hpred]
  conv_rhs => rw [← List.map_id' (List.filter _ _)]
  apply List.map_congr_left
  intro row h
  obtain ⟨hmem, hkeep⟩ := List.mem_filter.mp h
  rw [Bool.and_eq_true] at hkeep
  exact hself row hmem hkeep.2

end Tables

/-! ## the peers -/

namespace Database

variable {cfg : Settings} (db : Database cfg)

/-- An account with an enrolled key of its current instance. -/
def enrolled (userId : Nat) : Bool := (db.enrolledPeer userId).isSome

theorem mem_live {now : Datetime} {sub : Subscription} :
    sub ∈ db.live now ↔
      sub ∈ db.subscriptions ∧ db.routed sub = true ∧ sub.elapsed now = false := by
  simp [Tables.live]

/-- A routed prefix is the canonical text of an inventory address. -/
theorem routedPrefix_eq {sub : Subscription} (hmem : sub ∈ db.subscriptions)
    (hr : db.routed sub = true) :
    ∃ ip ∈ cfg.wireguardPublicIps,
      sub.assignedIp = some ip.text ∧ routedPrefix sub = prefixText ip := by
  obtain ⟨ip, hip, haddr⟩ := db.routed_address sub hmem hr
  exact ⟨ip, hip, haddr, by simp [routedPrefix, prefixText, haddr]⟩

/-- Routed subscriptions do not share a prefix. -/
theorem routedPrefix_inj {x y : Subscription} (hx : x ∈ db.subscriptions)
    (hy : y ∈ db.subscriptions)
    (hrx : db.routed x = true) (hry : db.routed y = true) (h : routedPrefix x = routedPrefix y) :
    x = y := by
  obtain ⟨ipx, -, hax, hpx⟩ := db.routedPrefix_eq hx hrx
  obtain ⟨ipy, -, hay, hpy⟩ := db.routedPrefix_eq hy hry
  have hip : ipx = ipy := prefixText_injective (hpx ▸ hpy ▸ h)
  have hprod : ∀ z, db.routed z = true → z.product = .ip := by
    intro z hz
    simp only [Tables.routed, decide_eq_true_eq] at hz
    exact hz.1
  have haddr : x.assignedIp = y.assignedIp := by rw [hax, hay, hip]
  have hid : x.id = y.id :=
    db.dedicated_ip x hx y hy (hprod x hrx) (hprod y hry) (by simp [hax]) haddr
  exact List.inj_on_of_nodup_map db.subscription_id hx hy hid

theorem mem_live_routed {now : Datetime} {sub : Subscription} (h : sub ∈ db.live now) :
    sub ∈ db.subscriptions ∧ db.routed sub = true := by
  rw [mem_live] at h
  exact ⟨h.1, h.2.1⟩

theorem live_nodup (now : Datetime) : (db.live now).Nodup :=
  (List.Nodup.of_map _ db.subscription_id).sublist List.filter_sublist

/-- The prefixes of a part of the routed subscriptions are distinct. -/
theorem prefixes_nodup {rows : List Subscription} (hn : rows.Nodup)
    (h : ∀ row ∈ rows, row ∈ db.subscriptions ∧ db.routed row = true) :
    (rows.map routedPrefix).Nodup := by
  apply (List.nodup_map_iff_inj_on hn).mpr
  intro x hx y hy he
  exact db.routedPrefix_inj (h x hx).1 (h y hy).1 (h x hx).2 (h y hy).2 he

theorem enrolledPeer_spec {userId : Nat} {peer : WireGuardPeer}
    (h : db.enrolledPeer userId = some peer) : peer ∈ db.peers ∧ peer.userId = userId := by
  unfold Tables.enrolledPeer at h
  split at h
  · rename_i p c hp hc
    split at h
    · obtain rfl := Option.some.inj h
      exact ⟨List.mem_of_find?_eq_some hp, by simpa using List.find?_some hp⟩
    · contradiction
  · contradiction

/-- The peer of one account in a snapshot built from `rows`. -/
def accountPeer (rows : List Subscription) (userId : Nat) : Option Peer :=
  (db.enrolledPeer userId).map fun peer =>
    { publicKey := peer.publicKey
      allowedPrefixes :=
        sortStrings ((rows.filter fun row => row.userId = userId).map routedPrefix) }

theorem mem_accountPeers {rows : List Subscription} {peer : Peer} :
    peer ∈ (rows.map Subscription.userId).dedup.filterMap (db.accountPeer rows) ↔
      ∃ userId ∈ rows.map Subscription.userId, db.accountPeer rows userId = some peer := by
  simp [List.mem_filterMap, List.mem_dedup]

theorem perm_desiredPeers (clock : SnapshotClock) (rows : List Subscription) :
    (desiredPeers (db.afterFirst cfg clock) rows).Perm
      ((rows.map Subscription.userId).dedup.filterMap (db.accountPeer rows)) := by
  unfold desiredPeers
  simp only [db.toTables.afterFirst_enrolledPeer]
  exact List.perm_insertionSort _ _

/-- The prefixes some peer of the snapshot owns are those of the enrolled rows. -/
theorem mem_owned {rows : List Subscription} {p : String} :
    p ∈ ((rows.map Subscription.userId).dedup.filterMap (db.accountPeer rows)).flatMap
        Peer.allowedPrefixes ↔
      ∃ row ∈ rows, db.enrolled row.userId = true ∧ routedPrefix row = p := by
  simp only [List.mem_flatMap, mem_accountPeers]
  constructor
  · rintro ⟨peer, ⟨userId, -, hpeer⟩, hp⟩
    obtain ⟨stored, hstored, rfl⟩ := Option.map_eq_some_iff.mp hpeer
    simp only [mem_sortStrings, List.mem_map, List.mem_filter, decide_eq_true_eq] at hp
    obtain ⟨row, ⟨hrow, rfl⟩, rfl⟩ := hp
    exact ⟨row, hrow, by simp [enrolled, hstored], rfl⟩
  · rintro ⟨row, hrow, hen, rfl⟩
    obtain ⟨stored, hstored⟩ := Option.isSome_iff_exists.mp hen
    refine ⟨_, ⟨row.userId, List.mem_map_of_mem hrow, by rw [accountPeer, hstored]; rfl⟩, ?_⟩
    simp only [mem_sortStrings, List.mem_map, List.mem_filter, decide_eq_true_eq]
    exact ⟨row, ⟨hrow, rfl⟩, rfl⟩

/-- No prefix is owned twice. -/
theorem owned_nodup {rows : List Subscription} (hn : rows.Nodup)
    (h : ∀ row ∈ rows, row ∈ db.subscriptions ∧ db.routed row = true) :
    (((rows.map Subscription.userId).dedup.filterMap (db.accountPeer rows)).flatMap
      Peer.allowedPrefixes).Nodup := by
  rw [List.nodup_flatMap]
  constructor
  · intro peer hpeer
    obtain ⟨userId, -, hacc⟩ := db.mem_accountPeers.mp hpeer
    obtain ⟨stored, -, rfl⟩ := Option.map_eq_some_iff.mp hacc
    rw [(perm_sortStrings _).nodup_iff]
    exact db.prefixes_nodup (hn.sublist List.filter_sublist) fun row hrow =>
      h row (List.mem_filter.mp hrow).1
  · apply List.Pairwise.filterMap (R := (· ≠ ·)) _ _ (List.nodup_dedup _)
    -- two accounts with a common prefix would share its subscription
    intro u v hne peer hpeer peer' hpeer' p hp hp'
    obtain ⟨stored, -, rfl⟩ := Option.map_eq_some_iff.mp hpeer
    obtain ⟨stored', -, rfl⟩ := Option.map_eq_some_iff.mp hpeer'
    simp only [mem_sortStrings, List.mem_map, List.mem_filter, decide_eq_true_eq] at hp hp'
    obtain ⟨x, ⟨hx, rfl⟩, rfl⟩ := hp
    obtain ⟨y, ⟨hy, rfl⟩, he⟩ := hp'
    have hxy := db.routedPrefix_inj (h y hy).1 (h x hx).1 (h y hy).2 (h x hx).2 he
    exact hne (by rw [hxy])

/-- The owned prefixes are, in some order, those of the enrolled rows. -/
theorem perm_owned {rows : List Subscription} (hn : rows.Nodup)
    (h : ∀ row ∈ rows, row ∈ db.subscriptions ∧ db.routed row = true) :
    (((rows.map Subscription.userId).dedup.filterMap (db.accountPeer rows)).flatMap
      Peer.allowedPrefixes).Perm
        ((rows.filter fun row => db.enrolled row.userId).map routedPrefix) := by
  have hright : ((rows.filter fun row => db.enrolled row.userId).map routedPrefix).Nodup :=
    db.prefixes_nodup (hn.sublist List.filter_sublist) fun row hrow =>
      h row (List.mem_filter.mp hrow).1
  rw [List.perm_ext_iff_of_nodup (db.owned_nodup hn h) hright]
  intro p
  rw [mem_owned]
  simp only [List.mem_map, List.mem_filter]
  constructor
  · rintro ⟨row, hrow, hen, rfl⟩
    exact ⟨row, ⟨hrow, hen⟩, rfl⟩
  · rintro ⟨row, ⟨hrow, hen⟩, rfl⟩
    exact ⟨row, hrow, hen, rfl⟩

theorem accountPeers_key_nodup (rows : List Subscription) :
    (((rows.map Subscription.userId).dedup.filterMap (db.accountPeer rows)).map
      Peer.publicKey).Nodup := by
  rw [List.Nodup, List.pairwise_map]
  apply List.Pairwise.filterMap (R := (· ≠ ·)) _ _ (List.nodup_dedup _)
  intro u v hne peer hpeer peer' hpeer' hkey
  obtain ⟨stored, hstored, rfl⟩ := Option.map_eq_some_iff.mp hpeer
  obtain ⟨stored', hstored', rfl⟩ := Option.map_eq_some_iff.mp hpeer'
  obtain ⟨hm, hu⟩ := db.enrolledPeer_spec hstored
  obtain ⟨hm', hv⟩ := db.enrolledPeer_spec hstored'
  have hsame : stored = stored' := List.inj_on_of_nodup_map db.peer_key_unique hm hm' hkey
  exact hne (by rw [← hu, ← hv, hsame])

theorem validateKey_of_canonical {value : String} (h : canonicalWireguardKey value) :
    validateKey value = .ok () := by
  obtain ⟨raw, hlen, hnz, rfl⟩ := h
  exact validateKey_encode raw hlen hnz

/-! ## what the relay accepts -/

/-- The snapshot, with the two reads resolved. -/
theorem desiredStateV3_eq
    (digest : List String → List Peer → List String → List PrefixBinding → String)
    (clock : SnapshotClock) :
    ∃ revision, desiredStateV3 cfg digest clock db.toTables =
      { revision := revision
        managedPrefixes := managedPrefixes cfg
        peers := desiredPeers (db.afterFirst cfg clock) (db.live clock.first)
        smtpAllowedPrefixes := smtpPrefixes (db.afterFirst cfg clock)
          (desiredPeers (db.afterFirst cfg clock) (db.live clock.first))
        prefixBindings := some (prefixBindings
          ((db.live clock.first).filter fun sub => !sub.elapsed clock.second)) } := by
  have haddr : ∀ sub ∈ db.subscriptions, db.routed sub = true → sub.assignedIp.isSome = true := by
    intro sub hmem hr
    obtain ⟨ip, -, haddr, -⟩ := db.routedPrefix_eq hmem hr
    simp [haddr]
  have hfirst := Tables.activeRouted_rows db.subscription_id haddr cfg clock.first clock.firstLease
  have hsubs := Tables.afterFirst_subscriptions db.subscription_id cfg clock
  have hid' : ((db.afterFirst cfg clock).subscriptions.map Subscription.id).Nodup := by
    rw [hsubs, List.map_map]
    have hcomp : Subscription.id ∘ Tables.expired cfg clock.first
        (db.subscriptions.filter db.routed) = Subscription.id := funext fun row => by simp
    rw [hcomp]
    exact db.subscription_id
  have haddr' : ∀ sub ∈ (db.afterFirst cfg clock).subscriptions,
      (db.afterFirst cfg clock).routed sub = true → sub.assignedIp.isSome = true := by
    intro sub hmem hr
    rw [db.afterFirst_routed] at hr
    rw [hsubs, List.mem_map] at hmem
    obtain ⟨row, hrow, rfl⟩ := hmem
    rw [Tables.routed_expired hrow, Bool.and_eq_true, Bool.not_eq_true'] at hr
    simpa [Tables.expired, hr.2] using haddr row hrow hr.1
  have hsecond := Tables.activeRouted_rows hid' haddr' cfg clock.second clock.secondLease
  rw [Tables.live_afterFirst db.subscription_id] at hsecond
  refine ⟨(desiredStateV3 cfg digest clock db.toTables).revision, ?_⟩
  rw [← hsecond, ← hfirst]
  rfl

theorem smtp_nodup (clock : SnapshotClock) (peers : List Peer) :
    (smtpPrefixes (db.afterFirst cfg clock) peers).Nodup := by
  rw [smtpPrefixes, (perm_sortStrings _).nodup_iff]
  apply List.Nodup.sublist List.filter_sublist
  have hpairs := Tables.expireElapsed_leases cfg clock.first clock.firstLease
    (db.subscriptions.filter db.routed) db.toTables
  -- approved leases are unreleased, and the release column survives the expiry
  have haddr : (((db.afterFirst cfg clock).leases.filter fun l => l.releasedAt = none).map
      IPLease.address).Nodup := by
    have hcol : ∀ ls : List IPLease,
        ((ls.filter fun l => l.releasedAt = none).map IPLease.address) =
        ((ls.map fun l => (l.address, l.releasedAt)).filter fun p => p.2 = none).map Prod.fst := by
      intro ls
      rw [List.filter_map, List.map_map]
      rfl
    have hlease := db.lease_address
    rw [hcol] at hlease ⊢
    rw [← hpairs] at hlease
    exact hlease
  have hsub : (((db.afterFirst cfg clock).leases.filter IPLease.smtpApproved).map
      IPLease.address).Nodup := by
    refine haddr.sublist (List.Sublist.map _ ?_)
    apply List.monotone_filter_right
    intro lease h
    simp only [IPLease.smtpApproved, decide_eq_true_eq] at h ⊢
    exact h.2.2.1
  rw [List.Nodup, List.pairwise_map] at hsub ⊢
  refine hsub.imp ?_
  intro x y hne he
  have := congrArg String.toList he
  simp only [String.toList_append] at this
  exact hne (String.toList_inj.mp (List.append_cancel_right this))

/-- The relay's validation accepts every snapshot. -/
theorem desiredState_valid
    (digest : List String → List Peer → List String → List PrefixBinding → String)
    (clock : SnapshotClock) :
    (desiredStateFromResponse (desiredStateV3 cfg digest clock db.toTables)).Valid := by
  obtain ⟨revision, hstate⟩ := db.desiredStateV3_eq digest clock
  rw [hstate]
  have hrows := fun row (h : row ∈ db.live clock.first) => db.mem_live_routed h
  have hperm := db.perm_desiredPeers clock (db.live clock.first)
  have hown := hperm.flatMap_right Peer.allowedPrefixes
  have hrange : ∀ p ∈ (desiredPeers (db.afterFirst cfg clock) (db.live clock.first)).flatMap
      Peer.allowedPrefixes, ∃ ip ∈ cfg.wireguardPublicIps, p = prefixText ip := by
    intro p hp
    obtain ⟨row, hrow, -, rfl⟩ := db.mem_owned.mp (hown.mem_iff.mp hp)
    obtain ⟨ip, hip, -, he⟩ := db.routedPrefix_eq (hrows row hrow).1 (hrows row hrow).2
    exact ⟨ip, hip, he⟩
  have hsmtp : ∀ p ∈ smtpPrefixes (db.afterFirst cfg clock)
      (desiredPeers (db.afterFirst cfg clock) (db.live clock.first)),
      p ∈ (desiredPeers (db.afterFirst cfg clock) (db.live clock.first)).flatMap
        Peer.allowedPrefixes := by
    intro p hp
    rw [smtpPrefixes, mem_sortStrings, List.mem_filter] at hp
    simpa using hp.2
  have hmanaged : ∀ p, p ∈ managedPrefixes cfg ↔
      ∃ ip ∈ cfg.wireguardPublicIps, p = prefixText ip := by
    intro p
    simp [managedPrefixes, Settings.wireguardPublicIpsList, prefixText, eq_comm]
  refine ⟨?_, ?_, ?_, ?_, ?_, ?_, ?_, ?_, ?_, ?_⟩
  · intro p hp
    obtain ⟨ip, -, rfl⟩ := (hmanaged p).mp hp
    exact ⟨ip, validatePrefix_prefixText ip⟩
  · have hmap : cfg.wireguardPublicIpsList.map (· ++ "/32") =
        cfg.wireguardPublicIps.map prefixText := by
      simp [Settings.wireguardPublicIpsList, prefixText]
    change (managedPrefixes cfg).Nodup
    rw [managedPrefixes, (perm_sortStrings _).nodup_iff, hmap]
    exact cfg.wireguardPublicIps_nodup.map prefixText_injective
  · intro peer hpeer
    obtain ⟨userId, -, hacc⟩ := db.mem_accountPeers.mp (hperm.mem_iff.mp hpeer)
    obtain ⟨stored, hstored, rfl⟩ := Option.map_eq_some_iff.mp hacc
    exact validateKey_of_canonical (db.peer_key stored (db.enrolledPeer_spec hstored).1)
  · change ((desiredPeers (db.afterFirst cfg clock) (db.live clock.first)).map
      Peer.publicKey).Nodup
    rw [(hperm.map Peer.publicKey).nodup_iff]
    exact db.accountPeers_key_nodup _
  · intro peer hpeer hnil
    obtain ⟨userId, huser, hacc⟩ := db.mem_accountPeers.mp (hperm.mem_iff.mp hpeer)
    obtain ⟨stored, -, rfl⟩ := Option.map_eq_some_iff.mp hacc
    obtain ⟨row, hrow, rfl⟩ := List.mem_map.mp huser
    have hmem : routedPrefix row ∈ sortStrings (((db.live clock.first).filter fun r =>
        r.userId = row.userId).map routedPrefix) :=
      mem_sortStrings.mpr (List.mem_map_of_mem (List.mem_filter.mpr ⟨hrow, by simp⟩))
    simp only at hnil
    rw [hnil] at hmem
    exact List.not_mem_nil hmem
  · intro p hp
    exact (hmanaged p).mpr (hrange p hp)
  · change ((desiredPeers (db.afterFirst cfg clock) (db.live clock.first)).flatMap
      Peer.allowedPrefixes).Nodup
    rw [hown.nodup_iff]
    exact db.owned_nodup (db.live_nodup _) hrows
  · intro p hp
    obtain ⟨ip, -, rfl⟩ := hrange p (hsmtp p hp)
    exact ⟨ip, validatePrefix_prefixText ip⟩
  · exact db.smtp_nodup clock _
  · exact hsmtp

/-- The bindings of the second read are well formed, one per subscription. -/
theorem bindings_wellFormed {rows : List Subscription} (hn : rows.Nodup)
    (h : ∀ row ∈ rows, row ∈ db.subscriptions ∧ db.routed row = true) :
    (∀ b ∈ prefixBindings rows, (∃ ip, validatePrefix b.routedPrefix = .ok ip) ∧
      canonicalSubscriptionID b.subscriptionID = true) ∧
    ((prefixBindings rows).map PrefixBinding.routedPrefix).Perm (rows.map routedPrefix) ∧
    ((prefixBindings rows).map PrefixBinding.subscriptionID).Nodup := by
  have hperm : (prefixBindings rows).Perm
      (rows.map fun sub => (⟨routedPrefix sub, sub.publicId.text⟩ : PrefixBinding)) :=
    List.perm_insertionSort _ _
  refine ⟨?_, ?_, ?_⟩
  · intro b hb
    obtain ⟨row, hrow, rfl⟩ := List.mem_map.mp (hperm.mem_iff.mp hb)
    obtain ⟨ip, -, -, he⟩ := db.routedPrefix_eq (h row hrow).1 (h row hrow).2
    exact ⟨⟨ip, by simp [he]⟩, Uuid.canonical_text row.publicId⟩
  · have := hperm.map PrefixBinding.routedPrefix
    rwa [List.map_map] at this
  · rw [(hperm.map PrefixBinding.subscriptionID).nodup_iff, List.map_map]
    apply (List.nodup_map_iff_inj_on hn).mpr
    intro x hx y hy he
    exact List.inj_on_of_nodup_map db.public_id (h x hx).1 (h y hy).1 (Uuid.text_injective he)

/-- **Acceptance of the v3 snapshot.** The relay validates it and gets exactly
one binding per owned prefix, exactly when the two reads agree: of the routed
subscriptions still running at the first reading, those of enrolled accounts
are the ones still running at the second. -/
theorem desiredStateV3_accepted_iff
    (digest : List String → List Peer → List String → List PrefixBinding → String)
    (clock : SnapshotClock) :
    ((desiredStateFromResponse (desiredStateV3 cfg digest clock db.toTables)).validate = .ok () ∧
      ∃ bs, bandwidthBindings (desiredStateV3 cfg digest clock db.toTables) = some bs ∧
        (bs.map PrefixBinding.routedPrefix).Perm
          (desiredStateFromResponse (desiredStateV3 cfg digest clock db.toTables)).owned) ↔
    ∀ sub ∈ db.subscriptions, db.routed sub = true → sub.elapsed clock.first = false →
      (db.enrolled sub.userId = true ↔ sub.elapsed clock.second = false) := by
  have hvalid := (DesiredState.validate_ok_iff _).mpr (db.desiredState_valid digest clock)
  obtain ⟨revision, hstate⟩ := db.desiredStateV3_eq digest clock
  have hrows := fun row (h : row ∈ db.live clock.first) => db.mem_live_routed h
  have hn := db.live_nodup clock.first
  have hsecond : ∀ row ∈ (db.live clock.first).filter fun sub => !sub.elapsed clock.second,
      row ∈ db.subscriptions ∧ db.routed row = true := fun row h =>
    hrows row (List.mem_filter.mp h).1
  obtain ⟨hformed, hperm, hids⟩ := db.bindings_wellFormed (hn.sublist List.filter_sublist) hsecond
  have hranges := db.prefixes_nodup (hn.sublist List.filter_sublist) hsecond
  have howned : (desiredStateFromResponse (desiredStateV3 cfg digest clock db.toTables)).owned.Perm
      (((db.live clock.first).filter fun row => db.enrolled row.userId).map routedPrefix) := by
    rw [hstate]
    exact ((db.perm_desiredPeers clock _).flatMap_right _).trans (db.perm_owned hn hrows)
  constructor
  · -- equal prefixes come from the same subscription, so the two lists agree
    rintro ⟨-, bs, hbs, hbsperm⟩ sub hmem hr hel
    obtain ⟨bindings, hb, -, -, -, rfl⟩ := (bandwidthBindings_eq_some_iff _ bs).mp hbs
    rw [hstate, Option.some.injEq] at hb
    subst hb
    have hboth : ((sortBindings (prefixBindings ((db.live clock.first).filter fun sub =>
        !sub.elapsed clock.second))).map PrefixBinding.routedPrefix).Perm
          (((db.live clock.first).filter fun sub => !sub.elapsed clock.second).map routedPrefix) :=
      ((List.perm_insertionSort _ _).map _).trans hperm
    have heq := (howned.symm.trans (hbsperm.symm.trans hboth)).mem_iff (a := routedPrefix sub)
    have hlive : sub ∈ db.live clock.first := db.mem_live.mpr ⟨hmem, hr, hel⟩
    have hpick : ∀ P : Subscription → Bool,
        routedPrefix sub ∈ ((db.live clock.first).filter P).map routedPrefix ↔ P sub = true := by
      intro P
      constructor
      · intro h
        obtain ⟨row, hrow, he⟩ := List.mem_map.mp h
        obtain ⟨hin, hP⟩ := List.mem_filter.mp hrow
        obtain rfl := db.routedPrefix_inj (hrows row hin).1 hmem (hrows row hin).2 hr he
        exact hP
      · intro hP
        exact List.mem_map_of_mem (List.mem_filter.mpr ⟨hlive, hP⟩)
    rw [hpick, hpick, Bool.not_eq_true'] at heq
    exact heq
  · intro hcond
    have hsame : ((db.live clock.first).filter fun row => db.enrolled row.userId) =
        (db.live clock.first).filter fun sub => !sub.elapsed clock.second := by
      apply List.filter_congr
      intro row hrow
      obtain ⟨hmem, hr, hel⟩ := db.mem_live.mp hrow
      rw [Bool.eq_iff_iff, Bool.not_eq_true']
      exact hcond row hmem hr hel
    rw [hsame] at howned
    refine ⟨hvalid, _,
      (bandwidthBindings_eq_some_iff _ _).mpr ⟨_, by rw [hstate], ?_, ⟨hformed, ?_, hids⟩,
      ?_, rfl⟩, ?_⟩
    · rw [howned.length_eq, ← hperm.length_eq, List.length_map]
    · rw [hperm.nodup_iff]
      exact hranges
    · intro p hp
      rw [hperm.mem_iff]
      exact howned.mem_iff.mp hp
    · exact ((List.perm_insertionSort _ _).map _).trans (hperm.trans howned.symm)

end Database

/-! ## an account that paid and has not enrolled a key yet -/

/-- One routed address. -/
def oneAddress : Settings :=
  Settings.default [.lightning] [⟨198, 51, 100, 7⟩] (by decide)

/-- A paid dedicated address. -/
def paidAddress : Subscription where
  id := 1
  publicId := ⟨List.replicate 32 1, Uuid.length_ones⟩
  userId := 1
  product := .ip
  delivery := .wireguard
  status := .active
  assignedIp := some "198.51.100.7"
  assignedPort := none
  transport := .tcp
  domain := none
  relayHostnameScope := .exact
  relayPoolDomain := none
  domainIsManaged := false
  domainVerificationToken := none
  domainVerifiedAt := none
  domainClaimExpiresAt := none
  domainRenewalGraceExpiresAt := none
  reservationExpiresAt := none
  reservationPaymentId := none
  resourceQuarantinedUntil := none
  billingTerm := .yearly
  monthlyPriceSats := 0
  yearlyPriceSats := 100000
  currentPeriodStart := some 0
  currentPeriodEnd := some (days 365)
  autoRenew := false
  referralAddress := none
  upgradeFromSubscriptionId := none
  upgradeCreditSats := 0
  upgradeSourcePeriodEnd := none
  createdAt := 0
  updatedAt := 0

/-- Its account has no WireGuard peer. -/
def notEnrolled : Database oneAddress where
  users := [⟨1, false, false, 0, false, 0, false, 0⟩]
  subscriptions := [paidAddress]
  peers := []
  credentials := []
  leases := []
  subscription_id := by simp
  public_id := by simp
  dedicated_ip := by simp
  peer_key_unique := by simp
  peer_user := by simp
  peer_key := by simp
  lease_address := by simp
  routed_address := by
    intro sub hsub _
    obtain rfl := List.mem_singleton.mp hsub
    exact ⟨⟨198, 51, 100, 7⟩, List.mem_singleton.mpr rfl, by decide +kernel⟩

/-- Every reading at the same instant. -/
def stopped : SnapshotClock := ⟨0, 0, fun _ => 0, fun _ => 0⟩

/-- The snapshot has a binding for the address and no peer that owns it: the
relay refuses the whole snapshot. -/
theorem desiredStateV3_refused :
    ¬ ((desiredStateFromResponse (desiredStateV3 oneAddress (fun _ _ _ _ => "") stopped
        notEnrolled.toTables)).validate = .ok () ∧
      ∃ bs, bandwidthBindings (desiredStateV3 oneAddress (fun _ _ _ _ => "") stopped
        notEnrolled.toTables) = some bs ∧ (bs.map PrefixBinding.routedPrefix).Perm
          (desiredStateFromResponse (desiredStateV3 oneAddress (fun _ _ _ _ => "") stopped
            notEnrolled.toTables)).owned) := by
  rintro ⟨-, bs, hbs, -⟩
  have hnone : bandwidthBindings (desiredStateV3 oneAddress (fun _ _ _ _ => "") stopped
      notEnrolled.toTables) = none := by decide +kernel
  rw [hnone] at hbs
  contradiction

end Backend

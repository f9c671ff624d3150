import Mathlib.Data.List.Sort
import Mathlib.Data.String.Basic
import Blindport.Text.Base64
import Blindport.Text.IPv6

/-!
# Blindport.Wgnet.State

`internal/wgnet/state.go`, the snapshot half: one complete desired state of the
routed plane and its validation.

`validate` walks the snapshot with the same accumulators as the source (the
managed set, the keys seen, the owners seen); `validate_ok_iff` says what it
accepts in terms of the snapshot alone: `DesiredState.Valid`.
-/

namespace Wgnet

/-- `Peer`: one authorized WireGuard peer and the routed prefixes it owns. -/
structure Peer where
  publicKey : String
  allowedPrefixes : List String
deriving DecidableEq

/-- `DesiredState`: one complete backend snapshot of the routed plane. -/
structure DesiredState where
  revision : String
  managedPrefixes : List String
  peers : List Peer
  smtpAllowedPrefixes : List String
deriving DecidableEq

/-- The errors of `Validate`, one constructor per message of the source. -/
inductive ValidateError where
  | keyNotCanonical (value : String)
  | keyAllZero
  | invalidPrefix (value : String)
  | prefixNotCanonical (value : String)
  | duplicateManaged (value : String)
  | duplicateKey
  | peerWithoutPrefix
  | prefixNotManaged (value : String)
  | prefixOwnedTwice (value : String)
  | smtpPrefix (error : ValidateError)
  | duplicateSmtp (value : String)
  | smtpNotManaged (value : String)
  | smtpNotActive (value : String)
deriving DecidableEq

/-! ## keys and prefixes -/

/-- `ValidateKey` rejects values that are not canonical base64 32-byte keys. -/
def validateKey (value : String) : Except ValidateError Unit :=
  match Base64.decodeString value.toList with
  | some raw =>
      if raw.length ≠ 32 ∨ String.ofList (Base64.encode raw) ≠ value then
        .error (.keyNotCanonical value)
      else if raw.any (· ≠ 0) then .ok ()
      else .error .keyAllZero
  | none => .error (.keyNotCanonical value)

/-- `netip.ParsePrefix`.  With no slash there is no length, with two of them the
address part holds one, and an address with a scope id is refused: all three are
parse errors. -/
def parsePrefix (value : String) : Option (IpAddr × Nat) :=
  match value.toList.splitOn '/' with
  | [addr, bits] => do
      let ip ← IpAddr.parse (fun _ => true) addr
      let n ← Decimal.parse? bits
      match ip with
      | .v4 _ => if n ≤ 32 then some (ip, n) else none
      | .v6 _ zone => if zone = none ∧ n ≤ 128 then some (ip, n) else none
  | _ => none

/-- `ValidatePrefix` requires one canonical routed IPv4 /32 prefix. -/
def validatePrefix (value : String) : Except ValidateError IPv4 :=
  match parsePrefix value with
  | none => .error (.invalidPrefix value)
  | some (.v4 ip, bits) =>
      if bits ≠ 32 ∨ ip.text ++ "/32" ≠ value then .error (.prefixNotCanonical value)
      else .ok ip
  | some (.v6 _ _, _) => .error (.prefixNotCanonical value)

/-- The routed prefix of one address. -/
def prefixText (ip : IPv4) : String := ip.text ++ "/32"

/-- A canonical /32 is accepted with its address. -/
@[simp] theorem validatePrefix_prefixText (ip : IPv4) :
    validatePrefix (prefixText ip) = .ok ip := by
  have hsplit : (prefixText ip).toList.splitOn '/' = [ip.chars, ['3', '2']] := by
    have hchars : (prefixText ip).toList = ['/'].intercalate [ip.chars, ['3', '2']] := by
      simp [prefixText, List.intercalate]
    rw [hchars]
    apply List.splitOn_intercalate
    · intro l hl
      simp only [List.mem_cons, List.not_mem_nil, or_false] at hl
      rcases hl with rfl | rfl
      · exact ip.slash_notMem_chars
      · decide
    · simp
  have hparse : parsePrefix (prefixText ip) = some (.v4 ip, 32) := by
    have hbits : Decimal.parse? ['3', '2'] = some 32 := by decide
    simp [parsePrefix, hsplit, hbits, IpAddr.parse, IpAddr.percent_not_mem_v4]
  unfold validatePrefix
  rw [hparse]
  simp [prefixText]

theorem prefixText_injective : Function.Injective prefixText := by
  intro x y h
  apply IPv4.text_injective
  have := congrArg String.toList h
  simp only [prefixText, String.toList_append] at this
  exact String.toList_inj.mp (List.append_cancel_right this)

/-- A 32-byte key that is not all zero is accepted in its canonical text. -/
theorem validateKey_encode (raw : List UInt8) (hlen : raw.length = 32) (hnz : raw.any (· ≠ 0)) :
    validateKey (String.ofList (Base64.encode raw)) = .ok () := by
  have hdec : Base64.decodeString (String.ofList (Base64.encode raw)).toList = some raw := by
    rw [String.toList_ofList, Base64.decodeString_encode]
  unfold validateKey
  rw [hdec]
  simp only [hlen, ne_eq, not_true_eq_false, or_self, if_false]
  exact if_pos hnz

/-! ## `Validate` -/

/-- The loop over `ManagedPrefixes`; `managed` is the set built so far. -/
def validateManaged : List String → List String → Except ValidateError (List String)
  | [], managed => .ok managed
  | p :: ps, managed =>
      match validatePrefix p with
      | .error e => .error e
      | .ok _ =>
          if p ∈ managed then .error (.duplicateManaged p) else validateManaged ps (p :: managed)

/-- The inner loop over one peer's `AllowedPrefixes`. -/
def validateOwned (managed : List String) : List String → List String →
    Except ValidateError (List String)
  | [], owners => .ok owners
  | p :: ps, owners =>
      if p ∉ managed then .error (.prefixNotManaged p)
      else if p ∈ owners then .error (.prefixOwnedTwice p)
      else validateOwned managed ps (p :: owners)

/-- The loop over `Peers`; `keys` and `owners` are the sets built so far. -/
def validatePeers (managed : List String) : List Peer → List String → List String →
    Except ValidateError (List String)
  | [], _, owners => .ok owners
  | peer :: ps, keys, owners =>
      match validateKey peer.publicKey with
      | .error e => .error e
      | .ok _ =>
          if peer.publicKey ∈ keys then .error .duplicateKey
          else if peer.allowedPrefixes = [] then .error .peerWithoutPrefix
          else match validateOwned managed peer.allowedPrefixes owners with
            | .error e => .error e
            | .ok owners => validatePeers managed ps (peer.publicKey :: keys) owners

/-- The loop over `SMTPAllowedPrefixes`. -/
def validateSmtp (managed owners : List String) : List String → List String →
    Except ValidateError Unit
  | [], _ => .ok ()
  | p :: ps, smtpAllowed =>
      match validatePrefix p with
      | .error e => .error (.smtpPrefix e)
      | .ok _ =>
          if p ∈ smtpAllowed then .error (.duplicateSmtp p)
          else if p ∉ managed then .error (.smtpNotManaged p)
          else if p ∉ owners then .error (.smtpNotActive p)
          else validateSmtp managed owners ps (p :: smtpAllowed)

/-- `Validate` rejects malformed keys, unmanaged prefixes, and ownership
overlap. -/
def DesiredState.validate (s : DesiredState) : Except ValidateError Unit :=
  match validateManaged s.managedPrefixes [] with
  | .error e => .error e
  | .ok managed =>
      match validatePeers managed s.peers [] [] with
      | .error e => .error e
      | .ok owners => validateSmtp managed owners s.smtpAllowedPrefixes []

/-- Every prefix some peer owns, in snapshot order. -/
def DesiredState.owned (s : DesiredState) : List String :=
  s.peers.flatMap Peer.allowedPrefixes

/-- `sort.Strings`. -/
def sortStrings (xs : List String) : List String := xs.insertionSort (· ≤ ·)

@[simp] theorem mem_sortStrings {x : String} {xs : List String} :
    x ∈ sortStrings xs ↔ x ∈ xs :=
  (List.perm_insertionSort (· ≤ ·) xs).mem_iff

theorem perm_sortStrings (xs : List String) : (sortStrings xs).Perm xs :=
  List.perm_insertionSort (· ≤ ·) xs

/-- `ActivePrefixes` returns the sorted prefixes currently owned by any peer. -/
def DesiredState.activePrefixes (s : DesiredState) : List String := sortStrings s.owned

@[simp] theorem DesiredState.mem_activePrefixes {s : DesiredState} {p : String} :
    p ∈ s.activePrefixes ↔ p ∈ s.owned := mem_sortStrings

/-- What an accepted snapshot satisfies. -/
structure DesiredState.Valid (s : DesiredState) : Prop where
  managed_canonical : ∀ p ∈ s.managedPrefixes, ∃ ip, validatePrefix p = .ok ip
  managed_nodup : s.managedPrefixes.Nodup
  key : ∀ peer ∈ s.peers, validateKey peer.publicKey = .ok ()
  key_nodup : (s.peers.map Peer.publicKey).Nodup
  nonempty : ∀ peer ∈ s.peers, peer.allowedPrefixes ≠ []
  owned_managed : ∀ p ∈ s.owned, p ∈ s.managedPrefixes
  owned_nodup : s.owned.Nodup
  smtp_canonical : ∀ p ∈ s.smtpAllowedPrefixes, ∃ ip, validatePrefix p = .ok ip
  smtp_nodup : s.smtpAllowedPrefixes.Nodup
  smtp_owned : ∀ p ∈ s.smtpAllowedPrefixes, p ∈ s.owned

/-! ### what the loops accept -/

/-- One step of a loop that collects the strings it has not seen: `p` is new
and the rest is collected after it. -/
private theorem collect_step (p : String) (ps seen : List String) (hp : p ∉ seen) :
    (ps.Nodup ∧ ∀ q ∈ ps, q ∉ p :: seen) ↔ (p :: ps).Nodup ∧ ∀ q ∈ p :: ps, q ∉ seen := by
  simp only [List.mem_cons, not_or, List.nodup_cons, forall_eq_or_imp]
  constructor
  · rintro ⟨hn, hq⟩
    exact ⟨⟨fun h => (hq p h).1 rfl, hn⟩, hp, fun q h => (hq q h).2⟩
  · rintro ⟨⟨hpp, hn⟩, -, hq⟩
    exact ⟨hn, fun q h => ⟨fun e => hpp (e ▸ h), hq q h⟩⟩

theorem validateManaged_ok_iff (ps managed m : List String) :
    validateManaged ps managed = .ok m ↔
      (∀ p ∈ ps, ∃ ip, validatePrefix p = .ok ip) ∧ (ps.Nodup ∧ ∀ p ∈ ps, p ∉ managed) ∧
        m = ps.reverse ++ managed := by
  induction ps generalizing managed with
  | nil => simp [validateManaged, eq_comm]
  | cons p ps ih =>
      rw [validateManaged]
      cases hp : validatePrefix p with
      | error e => simp [hp]
      | ok ip =>
          by_cases hm : p ∈ managed
          · simp [hm]
          · simp only [hm, if_false]
            rw [ih, collect_step p ps managed hm]
            simp [hp]

theorem validateOwned_ok_iff (managed ps owners o : List String) :
    validateOwned managed ps owners = .ok o ↔
      (∀ p ∈ ps, p ∈ managed) ∧ (ps.Nodup ∧ ∀ p ∈ ps, p ∉ owners) ∧ o = ps.reverse ++ owners := by
  induction ps generalizing owners with
  | nil => simp [validateOwned, eq_comm]
  | cons p ps ih =>
      rw [validateOwned]
      by_cases hm : p ∈ managed
      · by_cases ho : p ∈ owners
        · simp [hm, ho]
        · simp only [hm, ho, not_true_eq_false, if_false]
          rw [ih, collect_step p ps owners ho]
          simp [hm]
      · simp [hm]

/-- The peer loop accepts when every key is good and new, and the prefixes it
walks are managed, new and not repeated; it returns all of them as owners. -/
theorem validatePeers_ok_iff (managed : List String) (ps : List Peer)
    (keys owners o : List String) :
    validatePeers managed ps keys owners = .ok o ↔
      ((∀ peer ∈ ps, validateKey peer.publicKey = .ok ()) ∧
        ((ps.map Peer.publicKey).Nodup ∧ ∀ k ∈ ps.map Peer.publicKey, k ∉ keys) ∧
        (∀ peer ∈ ps, peer.allowedPrefixes ≠ [])) ∧
      (∀ p ∈ ps.flatMap Peer.allowedPrefixes, p ∈ managed) ∧
      ((ps.flatMap Peer.allowedPrefixes).Nodup ∧
        ∀ p ∈ ps.flatMap Peer.allowedPrefixes, p ∉ owners) ∧
      o = (ps.flatMap Peer.allowedPrefixes).reverse ++ owners := by
  induction ps generalizing keys owners with
  | nil => simp [validatePeers, eq_comm]
  | cons peer ps ih =>
      rw [validatePeers, List.map_cons, List.flatMap_cons]
      cases hk : validateKey peer.publicKey with
      | error e => simp [hk]
      | ok u =>
          by_cases hd : peer.publicKey ∈ keys
          · simp [hd]
          by_cases he : peer.allowedPrefixes = []
          · simp [hd, he]
          simp only [hd, he, if_false]
          -- split the prefixes of this peer off the ones of the rest
          have hown := validateOwned_ok_iff managed peer.allowedPrefixes owners
          rw [List.forall_mem_append, List.nodup_append, List.reverse_append, List.append_assoc,
            List.forall_mem_cons (p := fun q : Peer => validateKey q.publicKey = .ok ()),
            List.forall_mem_cons (p := fun q : Peer => q.allowedPrefixes ≠ [])]
          cases ho : validateOwned managed peer.allowedPrefixes owners with
          | error e =>
              simp only [reduceCtorEq, false_iff]
              rintro ⟨-, ⟨hman, -⟩, ⟨⟨hnd, -, -⟩, hnew⟩, -⟩
              have := (hown _).mpr ⟨hman, ⟨hnd, fun p h => hnew p (List.mem_append_left _ h)⟩, rfl⟩
              rw [ho] at this
              contradiction
          | ok o₁ =>
              obtain ⟨hman, ⟨hnd, hnew⟩, rfl⟩ := (hown o₁).mp ho
              simp only
              rw [ih, collect_step peer.publicKey (ps.map Peer.publicKey) keys hd]
              simp only [List.mem_append, List.mem_reverse, not_or]
              constructor
              · rintro ⟨⟨hkeys, hkn, hne⟩, hm, ⟨hn, ho'⟩, rfl⟩
                refine ⟨⟨⟨hk, hkeys⟩, hkn, he, hne⟩, ⟨hman, hm⟩, ⟨⟨hnd, hn, ?_⟩, ?_⟩, rfl⟩
                · rintro p h q hq rfl
                  exact (ho' p hq).1 h
                · rintro p (h | h)
                  · exact hnew p h
                  · exact (ho' p h).2
              · rintro ⟨⟨⟨-, hkeys⟩, hkn, -, hne⟩, ⟨-, hm⟩, ⟨⟨-, hn, hdis⟩, ho'⟩, rfl⟩
                refine ⟨⟨hkeys, hkn, hne⟩, hm, ⟨hn, fun p h => ⟨?_, ho' p (.inr h)⟩⟩, rfl⟩
                exact fun hp => hdis p hp p h rfl

theorem validateSmtp_ok_iff (managed owners ps seen : List String) :
    validateSmtp managed owners ps seen = .ok () ↔
      (∀ p ∈ ps, ∃ ip, validatePrefix p = .ok ip) ∧ (ps.Nodup ∧ ∀ p ∈ ps, p ∉ seen) ∧
        ∀ p ∈ ps, p ∈ managed ∧ p ∈ owners := by
  induction ps generalizing seen with
  | nil => simp [validateSmtp]
  | cons p ps ih =>
      rw [validateSmtp]
      cases hp : validatePrefix p with
      | error e => simp [hp]
      | ok ip =>
          by_cases hs : p ∈ seen
          · simp [hs]
          by_cases hm : p ∈ managed
          · by_cases ho : p ∈ owners
            · simp only [hs, hm, ho, not_true_eq_false, if_false]
              rw [ih, collect_step p ps seen hs]
              simp [hp, hm, ho]
            · simp [hs, hm, ho]
          · simp [hs, hm]

/-- **`Validate` accepts exactly the valid snapshots.** -/
theorem DesiredState.validate_ok_iff (s : DesiredState) : s.validate = .ok () ↔ s.Valid := by
  have hman := validateManaged_ok_iff s.managedPrefixes []
  have hpeers := validatePeers_ok_iff s.managedPrefixes.reverse s.peers [] []
  have hsmtp :=
    validateSmtp_ok_iff s.managedPrefixes.reverse s.owned.reverse s.smtpAllowedPrefixes []
  simp only [List.append_nil, List.not_mem_nil, not_false_eq_true, implies_true, and_true,
    List.mem_reverse] at hman hpeers hsmtp
  rw [validate]
  constructor
  · intro h
    cases hm : validateManaged s.managedPrefixes [] with
    | error e => simp [hm] at h
    | ok m =>
        obtain ⟨hv, hn, rfl⟩ := (hman m).mp hm
        simp only [hm] at h
        cases hp : validatePeers s.managedPrefixes.reverse s.peers [] [] with
        | error e => simp [hp] at h
        | ok o =>
            obtain ⟨⟨hk, hkn, hne⟩, hown, hon, rfl⟩ := (hpeers o).mp hp
            simp only [hp] at h
            obtain ⟨hsv, hsn, hso⟩ := hsmtp.mp h
            exact ⟨hv, hn, hk, hkn, hne, hown, hon, hsv, hsn, fun p hp => (hso p hp).2⟩
  · intro h
    have hm := (hman s.managedPrefixes.reverse).mpr ⟨h.managed_canonical, h.managed_nodup, rfl⟩
    have hp := (hpeers s.owned.reverse).mpr
      ⟨⟨h.key, h.key_nodup, h.nonempty⟩, h.owned_managed, h.owned_nodup, rfl⟩
    have hs := hsmtp.mpr ⟨h.smtp_canonical, h.smtp_nodup, fun p hp =>
      ⟨h.owned_managed p (h.smtp_owned p hp), h.smtp_owned p hp⟩⟩
    simp only [hm, hp, hs]

end Wgnet

import Blindport.Data.Except
import Blindport.Wire.Tlv
import Blindport.Entitlement.Agreement

/-!
# Blindport.Entitlement.Scope

What identifies an authorisation: the bytes `_scope_digest` hashes, and the one integer
`entitlement_generation` packs two counters into.

`scopePreimage_injective` and `entitlementGeneration_lt_iff` say that neither loses
anything, and `verifyTimes_generation` that `verifyTimes` of the relay takes the integer
apart again.
-/

namespace Entitlement

open Backend (ProductType RelayHostnameScope)

/-! ## the hashed bytes -/

/-- Pairs of hexadecimal digits as bytes. -/
def pairBytes : List (Fin 16) → List UInt8
  | high :: low :: rest => UInt8.ofNat (high.val * 16 + low.val) :: pairBytes rest
  | _ => []

/-- `UUID.bytes`. -/
def uuidBytes (u : Uuid) : List UInt8 := pairBytes u.nibbles

/-- `n.to_bytes(w, "big")`. -/
def toBytes (w n : Nat) : Except String (List UInt8) :=
  if n < 256 ^ w then .ok (Tlv.bigEndian w n) else .error "int too big to convert"

/-- `s.encode("ascii")`. -/
def encodeAscii (s : String) : Except String (List UInt8) :=
  if s.toList.all fun c => c.toNat < 128 then .ok (asciiBytes s.toList)
  else .error "ordinal not in range(128)"

/-- The bytes of a text of the source. -/
def literal (s : String) : List UInt8 := asciiBytes s.toList

/-- `_JTI_SCOPE_DOMAIN`. -/
def jtiScopeDomain : List UInt8 := literal "blindport-offline-entitlement-jti-v1"

/-- The fields of `_scope_digest`: the domain, the scope and, for a wildcard, its name.
An edge identifier is ASCII, which is its UTF-8. -/
def scopeFields (py : Python) (claim : EntitlementClaim) (credentialGeneration : Int) :
    Except String (List Tlv.Field) :=
  if claim.clientPk.length ≠ 32 then .error "client public key must be 32 raw bytes"
  else do
    let _ ← entitlementGeneration claim.paidThrough credentialGeneration
    let fields ← canonicalClaimFields py claim
    let generation ← toBytes 4 credentialGeneration.toNat
    let kind ← encodeAscii fields.kind
    let ip ← encodeAscii fields.ip
    let port ← toBytes 2 fields.port
    let transport ← encodeAscii fields.transport
    let domain ← encodeAscii fields.domain
    let paidThrough ← toBytes 8 claim.paidThrough.toNat
    .ok ([(jtiScopeDomain, []),
      (literal "account", uuidBytes claim.account),
      (literal "subscription", uuidBytes claim.subscription),
      (literal "instance", uuidBytes claim.instanceId),
      (literal "credential_generation", generation),
      (literal "client_pk", claim.clientPk),
      (literal "edge", asciiBytes claim.edge.text.toList),
      (literal "kind", kind),
      (literal "ip", ip),
      (literal "port", port),
      (literal "transport", transport),
      (literal "domain", domain),
      (literal "paid_through", paidThrough)] ++
      if fields.scope = .wildcard then [(literal "scope", literal "wildcard")] else [])

/-- The loop of `_scope_digest`: a length that does not fit raises. -/
def extendAll : List Tlv.Field → Except String (List UInt8)
  | [] => .ok []
  | (name, value) :: rest => do
      let nameLength ← toBytes 2 name.length
      let valueLength ← toBytes 4 value.length
      let encoded ← extendAll rest
      .ok (nameLength ++ name ++ valueLength ++ value ++ encoded)

/-- What `_scope_digest` hashes. -/
def scopePreimage (py : Python) (claim : EntitlementClaim) (credentialGeneration : Int) :
    Except String (List UInt8) := do
  let fields ← scopeFields py claim credentialGeneration
  extendAll fields

/-- `deterministic_entitlement_jti`. -/
def deterministicEntitlementJti (sha256 : List UInt8 → List UInt8) (py : Python)
    (claim : EntitlementClaim) (credentialGeneration : Int) : Except String (List UInt8) := do
  let encoded ← scopePreimage py claim credentialGeneration
  .ok ((sha256 encoded).take 16)

/-- Two claims, with the credential they are bound to, stand for one authorisation. -/
structure SameScope (py : Python) (claim claim' : EntitlementClaim) (generation generation' : Int) :
    Prop where
  account : claim.account = claim'.account
  subscription : claim.subscription = claim'.subscription
  instanceId : claim.instanceId = claim'.instanceId
  clientPk : claim.clientPk = claim'.clientPk
  edge : claim.edge = claim'.edge
  kind : claim.kind = claim'.kind
  fields : canonicalClaimFields py claim = canonicalClaimFields py claim'
  paidThrough : claim.paidThrough = claim'.paidThrough
  generation : generation = generation'

/-! ## each field -/

theorem toBytes_ok {w n : Nat} {bs : List UInt8} (h : toBytes w n = .ok bs) :
    n < 256 ^ w ∧ bs = Tlv.bigEndian w n := by
  unfold toBytes at h
  split at h
  · rename_i hlt
    exact ⟨hlt, (Except.ok.inj h).symm⟩
  · contradiction

theorem toBytes_injective {w m n : Nat} {bs : List UInt8} (hm : toBytes w m = .ok bs)
    (hn : toBytes w n = .ok bs) : m = n := by
  obtain ⟨hmlt, rfl⟩ := toBytes_ok hm
  obtain ⟨hnlt, heq⟩ := toBytes_ok hn
  exact Tlv.bigEndian_injective hmlt hnlt heq

theorem pairBytes_injective {xs ys : List (Fin 16)} (hlen : xs.length = ys.length)
    (heven : xs.length % 2 = 0) (h : pairBytes xs = pairBytes ys) : xs = ys := by
  induction xs using pairBytes.induct generalizing ys with
  | case1 high low rest ih =>
      match ys, hlen with
      | high' :: low' :: rest', hlen =>
          rw [pairBytes, pairBytes, List.cons.injEq] at h
          have hbyte := congrArg UInt8.toNat h.1
          rw [UInt8.toNat_ofNat_of_lt' (by simp only [UInt8.size]; omega),
            UInt8.toNat_ofNat_of_lt' (by simp only [UInt8.size]; omega)] at hbyte
          have hhigh : high = high' := Fin.ext (by omega)
          have hlow : low = low' := Fin.ext (by omega)
          simp only [List.length_cons] at hlen heven
          rw [hhigh, hlow, ih (by omega) (by omega) h.2]
  | case2 xs hno =>
      match xs, hno with
      | [], _ => exact (List.length_eq_zero_iff.mp hlen.symm).symm
      | [x], _ => simp at heven
      | high :: low :: rest, hno => exact absurd rfl (hno high low rest)

theorem uuidBytes_injective {u v : Uuid} (h : uuidBytes u = uuidBytes v) : u = v := by
  obtain ⟨xs, hxs⟩ := u
  obtain ⟨ys, hys⟩ := v
  have hnibbles : xs = ys := pairBytes_injective (hxs.trans hys.symm) (by rw [hxs]) h
  simp only [hnibbles]

/-- Texts of characters below 256 are known by their bytes. -/
theorem asciiBytes_injective {xs ys : List Char} (hx : ∀ c ∈ xs, c.toNat < 256)
    (hy : ∀ c ∈ ys, c.toNat < 256) (h : asciiBytes xs = asciiBytes ys) : xs = ys := by
  induction xs generalizing ys with
  | nil => exact (List.map_eq_nil_iff.mp h.symm).symm
  | cons c cs ih =>
      cases ys with
      | nil => simp only [asciiBytes, List.map_cons, List.map_nil, reduceCtorEq] at h
      | cons d ds =>
          simp only [asciiBytes, List.map_cons, List.cons.injEq] at h
          have hbyte := congrArg UInt8.toNat h.1
          rw [UInt8.toNat_ofNat_of_lt' (hx c List.mem_cons_self),
            UInt8.toNat_ofNat_of_lt' (hy d List.mem_cons_self)] at hbyte
          rw [Char.toNat_inj.mp hbyte, ih (fun x hx' => hx x (List.mem_cons_of_mem c hx'))
            (fun y hy' => hy y (List.mem_cons_of_mem d hy')) h.2]

theorem encodeAscii_injective {s t : String} {bs : List UInt8} (hs : encodeAscii s = .ok bs)
    (ht : encodeAscii t = .ok bs) : s = t := by
  have hplain : ∀ {s : String}, encodeAscii s = .ok bs →
      (∀ c ∈ s.toList, c.toNat < 256) ∧ bs = asciiBytes s.toList := by
    intro s h
    unfold encodeAscii at h
    split at h
    · rename_i hall
      rw [List.all_eq_true] at hall
      refine ⟨fun c hc => ?_, (Except.ok.inj h).symm⟩
      have hlt := hall c hc
      rw [decide_eq_true_eq] at hlt
      omega
    · contradiction
  obtain ⟨hsplain, rfl⟩ := hplain hs
  obtain ⟨htplain, heq⟩ := hplain ht
  exact String.toList_inj.mp (asciiBytes_injective hsplain htplain heq)

theorem edge_injective {e f : StableId}
    (h : asciiBytes e.text.toList = asciiBytes f.text.toList) : e = f := by
  have hplain : ∀ g : StableId, ∀ c ∈ g.text.toList, c.toNat < 256 := by
    intro g c hc
    have hascii := ascii_of_plain g.plain c hc
    omega
  have htext := String.toList_inj.mp (asciiBytes_injective (hplain e) (hplain f) h)
  cases e
  cases f
  simp only at htext
  subst htext
  rfl

theorem kindValue_injective {k k' : ProductType} (h : kindValue k = kindValue k') : k = k' := by
  cases k <;> cases k' <;> simp [kindValue] at h ⊢

/-- The kind of the canonical fields is the kind of the claim. -/
theorem kind_of_canonicalClaimFields {py : Python} {claim : EntitlementClaim} {fields : ClaimFields}
    (h : canonicalClaimFields py claim = .ok fields) : fields.kind = kindValue claim.kind := by
  unfold canonicalClaimFields at h
  cases hkind : claim.kind with
  | port =>
      simp only [hkind] at h
      split at h
      · contradiction
      split at h
      · contradiction
      · rw [← Except.ok.inj h]
  | ip =>
      simp only [hkind] at h
      split at h
      · contradiction
      split at h
      · contradiction
      · rw [← Except.ok.inj h]
  | relay =>
      simp only [hkind] at h
      split at h
      · contradiction
      split at h
      · contradiction
      · rw [← Except.ok.inj h]

/-! ## the whole -/

/-- The loop writes the fields, whose lengths fit. -/
theorem extendAll_ok {fs : List Tlv.Field} {bs : List UInt8} (h : extendAll fs = .ok bs) :
    (∀ f ∈ fs, Tlv.Sized f) ∧ bs = Tlv.encode fs := by
  induction fs generalizing bs with
  | nil => exact ⟨by simp, (Except.ok.inj h).symm⟩
  | cons f fs ih =>
      obtain ⟨name, value⟩ := f
      rw [extendAll] at h
      obtain ⟨nameLength, hname, h⟩ := Except.bind_eq_ok h
      obtain ⟨valueLength, hvalue, h⟩ := Except.bind_eq_ok h
      obtain ⟨encoded, hrest, h⟩ := Except.bind_eq_ok h
      obtain ⟨hnamefits, rfl⟩ := toBytes_ok hname
      obtain ⟨hvaluefits, rfl⟩ := toBytes_ok hvalue
      obtain ⟨hsized, rfl⟩ := ih hrest
      refine ⟨fun g hg => ?_, (Except.ok.inj h).symm⟩
      cases List.mem_cons.mp hg with
      | inl heq => exact heq ▸ ⟨hnamefits, hvaluefits⟩
      | inr hg => exact hsized g hg

/-- What `_scope_digest` has checked before it writes. -/
theorem scopeFields_ok {py : Python} {claim : EntitlementClaim} {g : Int} {fs : List Tlv.Field}
    (h : scopeFields py claim g = .ok fs) :
    ∃ (n : Nat) (fields : ClaimFields) (generation kind ip port transport domain paid : List UInt8),
      entitlementGeneration claim.paidThrough g = .ok n ∧
      canonicalClaimFields py claim = .ok fields ∧ toBytes 4 g.toNat = .ok generation ∧
      encodeAscii fields.kind = .ok kind ∧ encodeAscii fields.ip = .ok ip ∧
      toBytes 2 fields.port = .ok port ∧ encodeAscii fields.transport = .ok transport ∧
      encodeAscii fields.domain = .ok domain ∧ toBytes 8 claim.paidThrough.toNat = .ok paid ∧
      fs = [(jtiScopeDomain, []),
        (literal "account", uuidBytes claim.account),
        (literal "subscription", uuidBytes claim.subscription),
        (literal "instance", uuidBytes claim.instanceId),
        (literal "credential_generation", generation),
        (literal "client_pk", claim.clientPk),
        (literal "edge", asciiBytes claim.edge.text.toList),
        (literal "kind", kind),
        (literal "ip", ip),
        (literal "port", port),
        (literal "transport", transport),
        (literal "domain", domain),
        (literal "paid_through", paid)] ++
        if fields.scope = .wildcard then [(literal "scope", literal "wildcard")] else [] := by
  unfold scopeFields at h
  split at h
  · contradiction
  · obtain ⟨n, hn, h⟩ := Except.bind_eq_ok h
    obtain ⟨fields, hfields, h⟩ := Except.bind_eq_ok h
    obtain ⟨generation, hgeneration, h⟩ := Except.bind_eq_ok h
    obtain ⟨kind, hkind, h⟩ := Except.bind_eq_ok h
    obtain ⟨ip, hip, h⟩ := Except.bind_eq_ok h
    obtain ⟨port, hport, h⟩ := Except.bind_eq_ok h
    obtain ⟨transport, htransport, h⟩ := Except.bind_eq_ok h
    obtain ⟨domain, hdomain, h⟩ := Except.bind_eq_ok h
    obtain ⟨paid, hpaid, h⟩ := Except.bind_eq_ok h
    exact ⟨n, fields, generation, kind, ip, port, transport, domain, paid, hn, hfields,
      hgeneration, hkind, hip, hport, htransport, hdomain, hpaid, (Except.ok.inj h).symm⟩

/-- The trailing field is there for a wildcard alone. -/
theorem scope_of_trailing {s t : RelayHostnameScope}
    (h : (if s = .wildcard then [(literal "scope", literal "wildcard")] else []) =
      if t = .wildcard then [(literal "scope", literal "wildcard")] else []) : s = t := by
  cases s <;> cases t <;> simp_all

/-- No two authorisations are hashed from the same bytes. -/
theorem scopePreimage_injective {py : Python} {claim claim' : EntitlementClaim} {g g' : Int}
    {bs : List UInt8} (h : scopePreimage py claim g = .ok bs)
    (h' : scopePreimage py claim' g' = .ok bs) : SameScope py claim claim' g g' := by
  obtain ⟨fs, hfs, hencoded⟩ := Except.bind_eq_ok h
  obtain ⟨fs', hfs', hencoded'⟩ := Except.bind_eq_ok h'
  obtain ⟨hsized, rfl⟩ := extendAll_ok hencoded
  obtain ⟨hsized', hbytes⟩ := extendAll_ok hencoded'
  have hsame : fs = fs' := Tlv.encode_injective hsized hsized' hbytes
  obtain ⟨n, fields, generation, kind, ip, port, transport, domain, paid, hn, hfields,
    hgeneration, hkind, hip, hport, htransport, hdomain, hpaid, rfl⟩ := scopeFields_ok hfs
  obtain ⟨n', fields', generation', kind', ip', port', transport', domain', paid', hn', hfields',
    hgeneration', hkind', hip', hport', htransport', hdomain', hpaid', heq⟩ := scopeFields_ok hfs'
  rw [heq] at hsame
  simp only [List.cons_append, List.nil_append, List.cons.injEq, Prod.mk.injEq, true_and] at hsame
  obtain ⟨haccount, hsubscription, hinstance, rfl, hclient, hedge, rfl, rfl, rfl, rfl, rfl, rfl,
    htrailing⟩ := hsame
  have hkinds := encodeAscii_injective hkind hkind'
  have hips := encodeAscii_injective hip hip'
  have hports := toBytes_injective hport hport'
  have htransports := encodeAscii_injective htransport htransport'
  have hdomains := encodeAscii_injective hdomain hdomain'
  have hscopes := scope_of_trailing htrailing
  have hpaids := toBytes_injective hpaid hpaid'
  have hgenerations := toBytes_injective hgeneration hgeneration'
  obtain ⟨hpos, hgpos, -⟩ := entitlementGeneration_ok hn
  obtain ⟨hpos', hgpos', -⟩ := entitlementGeneration_ok hn'
  exact
    { account := uuidBytes_injective haccount
      subscription := uuidBytes_injective hsubscription
      instanceId := uuidBytes_injective hinstance
      clientPk := hclient
      edge := edge_injective hedge
      kind := by
        rw [kind_of_canonicalClaimFields hfields, kind_of_canonicalClaimFields hfields'] at hkinds
        exact kindValue_injective hkinds
      fields := by
        rw [hfields, hfields']
        cases fields
        cases fields'
        simp only at hkinds hips hports htransports hdomains hscopes
        rw [hkinds, hips, hports, htransports, hdomains, hscopes]
      paidThrough := by omega
      generation := by omega }

/-- An identifier stands for one authorisation, unless two digests begin alike. -/
theorem sameScope_of_jti {sha256 : List UInt8 → List UInt8} {py : Python}
    {claim claim' : EntitlementClaim} {g g' : Int} {jti : List UInt8}
    (h : deterministicEntitlementJti sha256 py claim g = .ok jti)
    (h' : deterministicEntitlementJti sha256 py claim' g' = .ok jti) :
    SameScope py claim claim' g g' ∨
      ∃ bs bs', bs ≠ bs' ∧ (sha256 bs).take 16 = (sha256 bs').take 16 := by
  obtain ⟨bs, hbs, hjti⟩ := Except.bind_eq_ok h
  obtain ⟨bs', hbs', hjti'⟩ := Except.bind_eq_ok h'
  by_cases heq : bs = bs'
  · left
    rw [← heq] at hbs'
    exact scopePreimage_injective hbs hbs'
  · right
    refine ⟨bs, bs', heq, ?_⟩
    rw [Except.ok.inj hjti, Except.ok.inj hjti']

/-! ## the generation -/

/-- The numbers `entitlement_generation` takes. -/
def Admitted (paidThrough credentialGeneration : Int) : Prop :=
  0 ≤ paidThrough ∧ paidThrough ≤ maxUnixSeconds ∧
    1 ≤ credentialGeneration ∧ credentialGeneration ≤ 2 ^ 31 - 1

theorem entitlementGeneration_isOk_iff (p g : Int) :
    (∃ n, entitlementGeneration p g = .ok n) ↔ Admitted p g := by
  unfold entitlementGeneration Admitted
  split
  · rename_i hpaid
    simp only [reduceCtorEq, exists_false, false_iff]
    omega
  · split
    · rename_i hgeneration
      simp only [reduceCtorEq, exists_false, false_iff]
      omega
    · simp only [Except.ok.injEq, exists_eq', true_iff]
      omega

/-- The two numbers stand side by side, and leave the sign bit alone. -/
theorem entitlementGeneration_parts {p g : Int} {n : Nat}
    (h : entitlementGeneration p g = .ok n) :
    (n : Int) = p * 2 ^ 31 + g ∧ 0 ≤ p ∧ p ≤ 2 ^ 32 - 1 ∧ 1 ≤ g ∧ g ≤ 2 ^ 31 - 1 := by
  obtain ⟨hpos, hgpos, hgle, hn⟩ := entitlementGeneration_ok h
  have hple : p ≤ maxUnixSeconds := ((entitlementGeneration_isOk_iff p g).mp ⟨n, h⟩).2.1
  rw [maxUnixSeconds_eq] at hple
  rw [generation_eq (by omega)] at hn
  omega

theorem entitlementGeneration_le {p g : Int} {n : Nat} (h : entitlementGeneration p g = .ok n) :
    n ≤ 2 ^ 63 - 1 := by
  have hparts := entitlementGeneration_parts h
  omega

/-- The generations are ordered as the pairs are, the paid-through time first. -/
theorem entitlementGeneration_lt_iff {p g p' g' : Int} {n n' : Nat}
    (h : entitlementGeneration p g = .ok n) (h' : entitlementGeneration p' g' = .ok n') :
    n < n' ↔ p < p' ∨ p = p' ∧ g < g' := by
  have hparts := entitlementGeneration_parts h
  have hparts' := entitlementGeneration_parts h'
  omega

theorem entitlementGeneration_injective {p g p' g' : Int} {n : Nat}
    (h : entitlementGeneration p g = .ok n) (h' : entitlementGeneration p' g' = .ok n) :
    p = p' ∧ g = g' := by
  have hparts := entitlementGeneration_parts h
  have hparts' := entitlementGeneration_parts h'
  omega

/-- The mask and the shift take the generation apart. -/
theorem entitlementGeneration_recovered {p g : Int} {n : Nat}
    (h : entitlementGeneration p g = .ok n) :
    ((n &&& (2 ^ 31 - 1) : Nat) : Int) = g ∧ ((n >>> 31 : Nat) : Int) = p := by
  have hparts := entitlementGeneration_parts h
  rw [Nat.and_two_pow_sub_one_eq_mod, Nat.shiftRight_eq_div_pow]
  omega

/-- What the checks of the relay say of a generation in range. -/
theorem not_generationInvalid_iff (value : Payload) (hpaid : value.paidThrough ≤ maxUnixSeconds) :
    ¬ generationInvalid value ↔ entitlementGeneration value.paidThrough
      ((value.generation &&& (2 ^ 31 - 1) : Nat) : Int) = .ok value.generation := by
  have hshift : (value.paidThrough <<< 31) % 2 ^ 64 = value.paidThrough <<< 31 := by
    rw [maxUnixSeconds_eq] at hpaid
    rw [Nat.shiftLeft_eq]
    exact Nat.mod_eq_of_lt (by omega)
  have hlow : value.generation &&& (2 ^ 31 - 1) < 2 ^ 31 := by
    rw [Nat.and_two_pow_sub_one_eq_mod]
    exact Nat.mod_lt _ (by decide)
  rw [generationInvalid, hshift]
  constructor
  · intro hvalid
    rw [not_or, not_or, not_not] at hvalid
    unfold entitlementGeneration
    rw [if_neg (by omega), if_neg (by omega), Int.toNat_natCast, Int.toNat_natCast]
    exact congrArg Except.ok hvalid.2.2.symm
  · intro hok
    have hle := entitlementGeneration_le hok
    obtain ⟨-, hpos, -, heq⟩ := entitlementGeneration_ok hok
    rw [Int.toNat_natCast, Int.toNat_natCast] at heq
    rw [not_or, not_or, not_not]
    exact ⟨by omega, by omega, heq⟩

/-- The relay takes a packed generation with the paid-through time it was packed with alone. -/
theorem not_generationInvalid_iff_paidThrough {p g : Int} (value : Payload)
    (h : entitlementGeneration p g = .ok value.generation)
    (hpaid : value.paidThrough ≤ maxUnixSeconds) :
    ¬ generationInvalid value ↔ (value.paidThrough : Int) = p := by
  rw [not_generationInvalid_iff value hpaid]
  have hlow := (entitlementGeneration_recovered h).1
  constructor
  · intro hok
    exact (entitlementGeneration_injective hok h).1
  · intro heq
    rw [hlow, heq]
    exact h

/-- What `verifyTimes` has checked. -/
theorem verifyTimes_generation {value : Payload} {now allowedGrace : Int} {verified : Verified}
    (h : verifyTimes value now allowedGrace = .ok verified) :
    entitlementGeneration value.paidThrough ((value.generation &&& (2 ^ 31 - 1) : Nat) : Int) =
      .ok value.generation ∧ verified.generation = value.generation ∧
      verified.paidThrough = unixTime value.paidThrough := by
  unfold verifyTimes at h
  split at h
  · contradiction
  · rename_i htimes
    split at h
    · contradiction
    · rename_i hgeneration
      split at h
      · contradiction
      · obtain rfl := Except.ok.inj h
        have hpaid : value.paidThrough ≤ maxUnixSeconds := by
          simp only [timesInvalid] at htimes
          omega
        exact ⟨(not_generationInvalid_iff value hpaid).mp hgeneration, rfl, rfl⟩

/-! ## what identifies an authorisation -/

/-- **Different authorisations are hashed from different bytes; the generation orders them
by the paid-through time and then the credential, fits a signed word, and comes apart again
in the relay.** -/
theorem entitlement_identifiers (py : Python) :
    (∀ (claim claim' : EntitlementClaim) (g g' : Int) (bs : List UInt8),
      scopePreimage py claim g = .ok bs → scopePreimage py claim' g' = .ok bs →
        SameScope py claim claim' g g') ∧
    (∀ p g : Int, (∃ n, entitlementGeneration p g = .ok n) ↔ Admitted p g) ∧
    (∀ (p g p' g' : Int) (n n' : Nat), entitlementGeneration p g = .ok n →
      entitlementGeneration p' g' = .ok n' →
        n ≤ 2 ^ 63 - 1 ∧ (n < n' ↔ p < p' ∨ p = p' ∧ g < g') ∧ (n = n' → p = p' ∧ g = g')) ∧
    (∀ (p g : Int) (n : Nat), entitlementGeneration p g = .ok n →
      ((n &&& (2 ^ 31 - 1) : Nat) : Int) = g ∧ ((n >>> 31 : Nat) : Int) = p) ∧
    (∀ (p g : Int) (value : Payload), entitlementGeneration p g = .ok value.generation →
      value.paidThrough ≤ maxUnixSeconds →
        (¬ generationInvalid value ↔ (value.paidThrough : Int) = p)) ∧
    ∀ (value : Payload) (now allowedGrace : Int) (verified : Verified),
      verifyTimes value now allowedGrace = .ok verified →
        entitlementGeneration value.paidThrough ((value.generation &&& (2 ^ 31 - 1) : Nat) : Int) =
          .ok value.generation ∧ verified.generation = value.generation ∧
          verified.paidThrough = unixTime value.paidThrough := by
  refine ⟨fun claim claim' g g' bs => scopePreimage_injective, entitlementGeneration_isOk_iff,
    fun p g p' g' n n' h h' => ⟨entitlementGeneration_le h, entitlementGeneration_lt_iff h h', ?_⟩,
    fun p g n => entitlementGeneration_recovered,
    fun p g value h => not_generationInvalid_iff_paidThrough value h,
    fun value now allowedGrace verified => verifyTimes_generation⟩
  intro heq
  rw [← heq] at h'
  exact entitlementGeneration_injective h h'

/-- The edge of the sample. -/
theorem portEdge_stable : stableID 31 "edge-1".toList = true := by decide

/-- A claim on a port. -/
def portClaim : EntitlementClaim where
  account := Sample.uuid 1
  subscription := Sample.uuid 2
  instanceId := Sample.uuid 3
  clientPk := List.replicate 32 5
  edge := ⟨"edge-1", portEdge_stable⟩
  kind := .port
  ip := "203.0.113.20"
  port := 10000
  transport := "tcp"
  paidThrough := 1759968000

/-- The claim is hashed, and not as its renewal is. -/
theorem entitlement_identifiers_portClaim :
    (scopePreimage Sample.py portClaim 4).toOption.isSome = true ∧
    scopePreimage Sample.py portClaim 4 ≠ scopePreimage Sample.py portClaim 5 := by
  have hsome : (scopePreimage Sample.py portClaim 4).toOption.isSome = true := by decide +kernel
  refine ⟨hsome, fun heq => ?_⟩
  cases hbytes : scopePreimage Sample.py portClaim 4 with
  | error e =>
      rw [hbytes] at hsome
      cases hsome
  | ok bs =>
      have hsame := (entitlement_identifiers Sample.py).1 portClaim portClaim 4 5 bs hbytes
        (heq ▸ hbytes)
      have hgeneration := hsame.generation
      omega

end Entitlement

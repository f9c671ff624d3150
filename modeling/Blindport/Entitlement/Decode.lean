import Blindport.Entitlement.Texts

/-!
# Blindport.Entitlement.Decode

What the relay and the agent read from an artifact the backend wrote.  The payload
Python builds as a dictionary is the one Go writes for the struct
(`payloadFields_eq`); when its texts are plain and its numbers fit, both Go readers
return that struct from the artifact (`parse_artifact`).
-/

namespace Entitlement

open Protocol
open Backend (RelayHostnameScope)

/-! ## the payload in both languages -/

/-- The struct with the content of an issued payload. -/
def issuedPayload (keyId : StableId) (claim : EntitlementClaim) (fields : ClaimFields)
    (issuedAt graceThrough generation : Nat) (jti : List UInt8) : Payload where
  typ := "blindport-offline-entitlement"
  version := if fields.scope = .wildcard then 2 else 1
  keyID := keyId.text
  account := claim.account.text
  subscription := claim.subscription.text
  instanceId := claim.instanceId.text
  clientKey := String.ofList (Base64.encodeRaw claim.clientPk)
  edge := claim.edge.text
  kind := fields.kind
  ip := fields.ip
  port := fields.port
  transport := fields.transport
  domain := fields.domain
  scope := if fields.scope = .wildcard then "wildcard" else ""
  issuedAt := issuedAt
  notBefore := issuedAt
  paidThrough := claim.paidThrough.toNat
  graceThrough := graceThrough
  generation := generation
  tokenID := String.ofList (Base64.encodeRaw jti)

/-- Python's dictionary has the struct's fields in the struct's order. -/
theorem payloadFields_eq (keyId : StableId) (claim : EntitlementClaim) (fields : ClaimFields)
    (issuedAt graceThrough generation : Nat) (jti : List UInt8) :
    payloadFields keyId claim fields issuedAt graceThrough generation jti =
      (issuedPayload keyId claim fields issuedAt graceThrough generation jti).fields := by
  cases hscope : fields.scope <;>
    simp [payloadFields, issuedPayload, Payload.fields, Base64.urlsafeStripped_eq, hscope]

/-- The texts are plain, the numbers fit their types and the whole is short. -/
structure Payload.Fits (p : Payload) : Prop where
  plain : Json.PlainFields p.fields
  version : p.version < 2 ^ 64
  port : p.port < 2 ^ 16
  issuedAt : p.issuedAt < 2 ^ 64
  notBefore : p.notBefore < 2 ^ 64
  paidThrough : p.paidThrough < 2 ^ 64
  graceThrough : p.graceThrough < 2 ^ 64
  generation : p.generation < 2 ^ 64
  size : ∀ escape, (Json.render escape p.fields).length ≤ 1024

/-- The struct is decoded from its own fields. -/
theorem Payload.setFields {p : Payload} (h : p.Fits) :
    p.fields.foldlM Payload.setField {} = some p := by
  obtain ⟨-, hversion, hport, hissued, hbefore, hpaid, hgrace, hgeneration, -⟩ := h
  unfold Payload.fields
  by_cases hs : p.scope = ""
  · simp only [hs, if_true, List.append_nil, List.cons_append, List.nil_append, List.foldlM_cons,
      List.foldlM_nil, Payload.setField, bounded, hversion, hport, hissued, hbefore, hpaid, hgrace,
      hgeneration, Option.bind_eq_bind, Option.bind_some]
    cases p
    simp_all
  · simp only [hs, if_false, List.cons_append, List.nil_append, List.foldlM_cons,
      List.foldlM_nil, Payload.setField, bounded, hversion, hport, hissued, hbefore, hpaid, hgrace,
      hgeneration, Option.bind_eq_bind, Option.bind_some, if_true]
    cases p
    simp_all

theorem read_fields {p : Payload} (h : p.Fits) (escape : Char → List Char) :
    Json.read (Json.render escape p.fields) = some p.fields :=
  Json.read_render h.plain

theorem unmarshal_render {p : Payload} (h : p.Fits) (lib : GoJson) (escape : Char → List Char) :
    lib.unmarshal (Json.render escape p.fields) = some p := by
  rw [GoJson.unmarshal, read_fields h]
  exact Payload.setFields h

/-! ## bytes -/

theorem byte_of_ascii {c : Char} (h : c.toNat < 128) : (UInt8.ofNat c.toNat).toNat = c.toNat := by
  rw [UInt8.toNat_ofNat']
  exact Nat.mod_eq_of_lt (by omega)

theorem asciiChars_asciiBytes {cs : List Char} (h : ∀ c ∈ cs, c.toNat < 128) :
    asciiChars (asciiBytes cs) = cs := by
  rw [asciiChars, asciiBytes, List.map_map]
  conv_rhs => rw [← List.map_id cs]
  apply List.map_congr_left
  intro c hc
  rw [Function.comp_apply, byte_of_ascii (h c hc), Char.ofNat_toNat]
  rfl

theorem isASCII_asciiBytes {cs : List Char} (h : ∀ c ∈ cs, c.toNat < 128) :
    isASCII (asciiBytes cs) = true := by
  rw [isASCII, List.all_eq_true]
  intro b hb
  obtain ⟨c, hc, rfl⟩ := List.mem_map.mp hb
  have := h c hc
  rw [decide_eq_true_eq, byte_of_ascii this]
  omega

/-- The bytes that were signed. -/
def rawPayload (escape : Char → List Char) (p : Payload) : List UInt8 :=
  asciiBytes (Json.render escape p.fields)

theorem rawPayload_ne_nil {escape : Char → List Char} (p : Payload) :
    rawPayload escape p ≠ [] := by
  simp [rawPayload, asciiBytes, Json.render]

theorem length_rawPayload_le {p : Payload} (h : p.Fits) (escape : Char → List Char) :
    (rawPayload escape p).length ≤ 1024 := by
  rw [rawPayload, asciiBytes, List.length_map]
  exact h.size escape

/-- `decodePayload` returns the struct from the bytes Python signed. -/
theorem decodePayload_rawPayload {p : Payload} (h : p.Fits) (lib : GoJson)
    (escape : Char → List Char) : decodePayload lib (rawPayload escape p) = .ok p := by
  have hascii := @Json.ascii_render escape _ h.plain
  have hsame : asciiBytes (Json.render lib.escape p.fields) = rawPayload escape p := by
    rw [rawPayload, @Json.render_congr lib.escape escape _ h.plain]
  rw [decodePayload, rawPayload, isASCII_asciiBytes hascii, asciiChars_asciiBytes hascii,
    unmarshal_render h]
  simp only [Bool.true_eq_false, if_false, hsame]
  rw [rawPayload]
  simp

/-! ## the artifact -/

/-- The artifact of a payload and a signature. -/
def artifactOf (raw signature : List UInt8) : List Char :=
  "v1".toList ++ '.' :: Base64.encodeRaw raw ++ '.' :: Base64.encodeRaw signature

theorem splitOn_artifactOf (raw signature : List UInt8) :
    (artifactOf raw signature).splitOn '.' =
      ["v1".toList, Base64.encodeRaw raw, Base64.encodeRaw signature] := by
  have hraw : '.' ∉ Base64.encodeRaw raw := fun h => (mem_encodeRaw_class h).2.2.1 rfl
  have hsig : '.' ∉ Base64.encodeRaw signature := fun h => (mem_encodeRaw_class h).2.2.1 rfl
  rw [artifactOf, List.append_assoc, List.cons_append,
    List.splitOn_append_cons_self_of_not_mem (by decide),
    List.splitOn_append_cons_self_of_not_mem hraw, List.splitOn_eq_singleton hsig]

theorem ascii_artifactOf (raw signature : List UInt8) :
    ∀ c ∈ artifactOf raw signature, c.toNat < 128 := by
  have hplain : ∀ bs, ∀ c ∈ Base64.encodeRaw bs, c.toNat < 128 := by
    intro bs c hc
    have := (mem_encodeRaw_class hc).2.2.2
    simp only [Json.plain, Bool.and_eq_true, decide_eq_true_eq] at this
    omega
  have hversion : ("v1".toList.all fun c => c.toNat < 128) = true := by decide
  have hdot : ('.' : Char).toNat < 128 := by decide
  intro c hc
  simp only [artifactOf, List.mem_append, List.mem_cons] at hc
  obtain (hc | rfl | hc) | rfl | hc := hc
  · simpa using List.all_eq_true.mp hversion c hc
  · exact hdot
  · exact hplain raw c hc
  · exact hdot
  · exact hplain signature c hc

/-- Neither reader refuses an artifact for its outer form. -/
theorem artifactOf_form {raw signature : List UInt8}
    (hsize : (artifactOf raw signature).length ≤ 2048) :
    ¬ (artifactOf raw signature = [] ∨ 2048 < (artifactOf raw signature).length ∨
      (artifactOf raw signature).any (128 ≤ ·.toNat) = true) := by
  have hascii := ascii_artifactOf raw signature
  simp only [not_or]
  refine ⟨by simp [artifactOf], by omega, ?_⟩
  rw [List.any_eq_true]
  intro h
  obtain ⟨c, hc, hge⟩ := h
  have := hascii c hc
  rw [decide_eq_true_eq] at hge
  omega

/-- The relay finds the payload and the signature. -/
theorem parseArtifact_artifactOf {raw signature : List UInt8} (hne : raw ≠ [])
    (hraw : raw.length ≤ 1024) (hsig : signature.length = 64)
    (hsize : (artifactOf raw signature).length ≤ 2048) :
    parseArtifact (artifactOf raw signature) = .ok (raw, signature) := by
  have hsne : signature ≠ [] := by
    intro h
    simp [h] at hsig
  rw [parseArtifact, if_neg (artifactOf_form hsize), splitOn_artifactOf]
  simp only [ne_eq, not_true_eq_false, if_false]
  rw [decodeRawBase64_encodeRaw hne (by simp), decodeRawBase64_encodeRaw hsne (by simp [hsig])]
  simp only [hne, false_or]
  rw [if_neg (by omega)]

/-! ## the agent -/

/-- The names of the struct's fields. -/
theorem names_fields (p : Payload) :
    p.fields.map Prod.fst =
      ["typ", "v", "kid", "account", "subscription", "instance", "client_pk", "edge", "kind", "ip",
        "port", "transport", "domain"] ++ (if p.scope = "" then [] else ["scope"]) ++
      ["iat", "nbf", "paid_through", "grace_through", "generation", "jti"] := by
  by_cases hs : p.scope = "" <;> simp [Payload.fields, hs]

theorem nodup_names (p : Payload) : (p.fields.map Prod.fst).Nodup := by
  rw [names_fields]
  by_cases hs : p.scope = ""
  · rw [if_pos hs]
    decide
  · rw [if_neg hs]
    decide

/-- The struct has the names `UnmarshalJSON` wants for its version. -/
theorem hasExactJSONFields_fields {p : Payload} (h : p.version = 2 ↔ p.scope ≠ "") :
    hasExactJSONFields (p.fields.map Prod.fst) (metadataNames p.version) = true := by
  rw [names_fields]
  by_cases hs : p.scope = ""
  · have hv : p.version ≠ 2 := fun e => h.mp e hs
    rw [if_pos hs, metadataNames, if_neg hv]
    decide
  · rw [if_neg hs, metadataNames, if_pos (h.mpr hs)]
    decide

/-- The agent reads the struct from the artifact. -/
theorem parseEntitlementMetadata_artifactOf {p : Payload} (h : p.Fits)
    (hversion : p.version = 2 ↔ p.scope ≠ "") (lib : GoJson) (escape : Char → List Char)
    {signature : List UInt8} (hsig : signature.length = 64)
    (hsize : (artifactOf (rawPayload escape p) signature).length ≤ 2048) :
    parseEntitlementMetadata lib (artifactOf (rawPayload escape p) signature) = .ok p := by
  have hascii := @Json.ascii_render escape _ h.plain
  have hlen := length_rawPayload_le h escape
  have hsne : signature ≠ [] := by
    intro hnil
    simp [hnil] at hsig
  have hchars : asciiChars (rawPayload escape p) = Json.render escape p.fields :=
    asciiChars_asciiBytes hascii
  have hsame : asciiBytes (Json.render lib.escape p.fields) = rawPayload escape p := by
    rw [rawPayload, @Json.render_congr lib.escape escape _ h.plain]
  have hkeys : lib.keys (Json.render escape p.fields) = some (p.fields.map Prod.fst) := by
    rw [GoJson.keys, read_fields h]
  rw [parseEntitlementMetadata, if_neg (artifactOf_form hsize), splitOn_artifactOf]
  simp only [ne_eq, not_true_eq_false, if_false]
  rw [decodeCanonicalRawBase64_encodeRaw (rawPayload_ne_nil p) (by simp)]
  simp only [hchars, hkeys, unmarshal_render h,
    decodeCanonicalRawBase64_encodeRaw hsne
      (show ∀ n ∈ some 64, n = signature.length by simp [hsig]),
    hasExactJSONFields_fields hversion, hsame, rawPayload_ne_nil, nodup_names, not_true_eq_false,
    false_or, reduceCtorEq, if_false, Bool.true_eq_false]
  rw [if_neg]
  rw [not_or]
  refine ⟨by omega, ?_⟩
  rw [rawPayload, isASCII_asciiBytes hascii]
  simp

/-! ## the struct fits -/

theorem plain_text_field {name s : String} (hname : Json.PlainText name) (hs : Json.PlainText s) :
    Json.PlainText (name, Json.Value.text s).1 ∧
      ∀ t, (name, Json.Value.text s).2 = .text t → Json.PlainText t := by
  refine ⟨hname, ?_⟩
  intro t ht
  obtain rfl := Json.Value.text.inj ht
  exact hs

theorem plain_number_field {name : String} {n : Nat} (hname : Json.PlainText name) :
    Json.PlainText (name, Json.Value.number n).1 ∧
      ∀ t, (name, Json.Value.number n).2 = .text t → Json.PlainText t := by
  refine ⟨hname, ?_⟩
  intro t ht
  cases ht

/-- The names of the struct's fields are plain. -/
theorem plain_names : ∀ name ∈ ["typ", "v", "kid", "account", "subscription", "instance",
    "client_pk", "edge", "kind", "ip", "port", "transport", "domain", "scope", "iat", "nbf",
    "paid_through", "grace_through", "generation", "jti"], Json.PlainText name := by
  have h : (["typ", "v", "kid", "account", "subscription", "instance", "client_pk", "edge",
      "kind", "ip", "port", "transport", "domain", "scope", "iat", "nbf", "paid_through",
      "grace_through", "generation", "jti"].all fun name => name.toList.all Json.plain) = true := by
    decide
  intro name hname
  exact Json.plainText_of_all (List.all_eq_true.mp h name hname)

theorem Payload.plainFields {p : Payload} (htyp : Json.PlainText p.typ)
    (hkid : Json.PlainText p.keyID) (haccount : Json.PlainText p.account)
    (hsubscription : Json.PlainText p.subscription) (hinstance : Json.PlainText p.instanceId)
    (hclient : Json.PlainText p.clientKey) (hedge : Json.PlainText p.edge)
    (hkind : Json.PlainText p.kind) (hip : Json.PlainText p.ip)
    (htransport : Json.PlainText p.transport) (hdomain : Json.PlainText p.domain)
    (hscope : Json.PlainText p.scope) (hjti : Json.PlainText p.tokenID) :
    Json.PlainFields p.fields := by
  have hfront : Json.PlainFields [("typ", .text p.typ), ("v", .number p.version),
      ("kid", .text p.keyID), ("account", .text p.account), ("subscription", .text p.subscription),
      ("instance", .text p.instanceId), ("client_pk", .text p.clientKey), ("edge", .text p.edge),
      ("kind", .text p.kind), ("ip", .text p.ip), ("port", .number p.port),
      ("transport", .text p.transport), ("domain", .text p.domain)] := by
    unfold Json.PlainFields
    simp only [List.forall_mem_cons]
    exact ⟨plain_text_field (plain_names _ (by simp)) htyp,
      plain_number_field (plain_names _ (by simp)), plain_text_field (plain_names _ (by simp)) hkid,
      plain_text_field (plain_names _ (by simp)) haccount,
      plain_text_field (plain_names _ (by simp)) hsubscription,
      plain_text_field (plain_names _ (by simp)) hinstance,
      plain_text_field (plain_names _ (by simp)) hclient,
      plain_text_field (plain_names _ (by simp)) hedge,
      plain_text_field (plain_names _ (by simp)) hkind,
      plain_text_field (plain_names _ (by simp)) hip, plain_number_field (plain_names _ (by simp)),
      plain_text_field (plain_names _ (by simp)) htransport,
      plain_text_field (plain_names _ (by simp)) hdomain, by simp⟩
  have hback : Json.PlainFields [("iat", .number p.issuedAt), ("nbf", .number p.notBefore),
      ("paid_through", .number p.paidThrough), ("grace_through", .number p.graceThrough),
      ("generation", .number p.generation), ("jti", .text p.tokenID)] := by
    unfold Json.PlainFields
    simp only [List.forall_mem_cons]
    exact ⟨plain_number_field (plain_names _ (by simp)),
      plain_number_field (plain_names _ (by simp)),
      plain_number_field (plain_names _ (by simp)), plain_number_field (plain_names _ (by simp)),
      plain_number_field (plain_names _ (by simp)), plain_text_field (plain_names _ (by simp)) hjti,
      by simp⟩
  intro field hf
  rw [Payload.fields, List.mem_append, List.mem_append] at hf
  obtain (hf | hf) | hf := hf
  · exact hfront field hf
  · split at hf
    · simp at hf
    · rw [List.mem_singleton] at hf
      rw [hf]
      exact plain_text_field (plain_names _ (by simp)) hscope
  · exact hback field hf

private theorem nameLengths :
    "typ".toList.length = 3 ∧ "v".toList.length = 1 ∧ "kid".toList.length = 3 ∧
    "account".toList.length = 7 ∧ "subscription".toList.length = 12 ∧
    "instance".toList.length = 8 ∧ "client_pk".toList.length = 9 ∧ "edge".toList.length = 4 ∧
    "kind".toList.length = 4 ∧ "ip".toList.length = 2 ∧ "port".toList.length = 4 ∧
    "transport".toList.length = 9 ∧ "domain".toList.length = 6 ∧ "scope".toList.length = 5 ∧
    "iat".toList.length = 3 ∧ "nbf".toList.length = 3 ∧ "paid_through".toList.length = 12 ∧
    "grace_through".toList.length = 13 ∧ "generation".toList.length = 10 ∧
    "jti".toList.length = 3 := by
  decide

theorem digits_le {n e : Nat} (h : n < 10 ^ e) (he : 0 < e) : (Nat.toDigits 10 n).length ≤ e :=
  Nat.toDigits_length 10 n e he h

/-- The compact form is short when the parts are. -/
theorem Payload.size_le {p : Payload} (hplain : Json.PlainFields p.fields)
    (htyp : p.typ.toList.length ≤ 29) (hversion : p.version < 10)
    (hkid : p.keyID.toList.length ≤ 32) (haccount : p.account.toList.length ≤ 36)
    (hsubscription : p.subscription.toList.length ≤ 36)
    (hinstance : p.instanceId.toList.length ≤ 36) (hclient : p.clientKey.toList.length ≤ 43)
    (hedge : p.edge.toList.length ≤ 32) (hkind : p.kind.toList.length ≤ 5)
    (hip : p.ip.toList.length ≤ 45) (hport : p.port < 10 ^ 5)
    (htransport : p.transport.toList.length ≤ 3) (hdomain : p.domain.toList.length ≤ 253)
    (hscope : p.scope.toList.length ≤ 8) (hissued : p.issuedAt < 10 ^ 10)
    (hbefore : p.notBefore < 10 ^ 10) (hpaid : p.paidThrough < 10 ^ 10)
    (hgrace : p.graceThrough < 10 ^ 10) (hgeneration : p.generation < 10 ^ 19)
    (hjti : p.tokenID.toList.length ≤ 22) (escape : Char → List Char) :
    (Json.render escape p.fields).length ≤ 1024 := by
  have hlen := @Json.length_render escape _ hplain
  have hv := digits_le (show p.version < 10 ^ 1 by omega) (by omega)
  have hp := digits_le hport (by omega)
  have hi := digits_le hissued (by omega)
  have hb := digits_le hbefore (by omega)
  have hpt := digits_le hpaid (by omega)
  have hg := digits_le hgrace (by omega)
  have hgen := digits_le hgeneration (by omega)
  clear hport hissued hbefore hpaid hgrace hgeneration hversion hplain
  have hfields : (p.fields.map fun field => field.1.toList.length + 4 + field.2.size).sum ≤
      1022 := by
    -- lengths as variables, so that the arithmetic does not look into the texts
    have hsum : p.fields.map (fun field => field.1.toList.length + 4 + field.2.size) =
        [7 + (p.typ.toList.length + 2), 5 + (Nat.toDigits 10 p.version).length,
          7 + (p.keyID.toList.length + 2), 11 + (p.account.toList.length + 2),
          16 + (p.subscription.toList.length + 2), 12 + (p.instanceId.toList.length + 2),
          13 + (p.clientKey.toList.length + 2), 8 + (p.edge.toList.length + 2),
          8 + (p.kind.toList.length + 2), 6 + (p.ip.toList.length + 2),
          8 + (Nat.toDigits 10 p.port).length, 13 + (p.transport.toList.length + 2),
          10 + (p.domain.toList.length + 2)] ++
        (if p.scope = "" then [] else [9 + (p.scope.toList.length + 2)]) ++
        [7 + (Nat.toDigits 10 p.issuedAt).length, 7 + (Nat.toDigits 10 p.notBefore).length,
          16 + (Nat.toDigits 10 p.paidThrough).length,
          17 + (Nat.toDigits 10 p.graceThrough).length,
          14 + (Nat.toDigits 10 p.generation).length, 7 + (p.tokenID.toList.length + 2)] := by
      by_cases hs : p.scope = "" <;>
        simp only [Payload.fields, hs, if_true, if_false, List.append_nil, List.cons_append,
          List.nil_append, List.map_cons, List.map_nil, Json.Value.size, nameLengths]
    have hscopes : (if p.scope = "" then [] else [9 + (p.scope.toList.length + 2)]).sum ≤ 19 := by
      split
      · simp
      · rw [List.sum_singleton]
        omega
    rw [hsum, List.sum_append, List.sum_append]
    simp only [List.sum_cons, List.sum_nil]
    generalize (if p.scope = "" then [] else [9 + (p.scope.toList.length + 2)]).sum = x at *
    generalize p.typ.toList.length = a at *
    generalize p.keyID.toList.length = b at *
    generalize p.account.toList.length = c at *
    generalize p.subscription.toList.length = d at *
    generalize p.instanceId.toList.length = e at *
    generalize p.clientKey.toList.length = f at *
    generalize p.edge.toList.length = g at *
    generalize p.kind.toList.length = h at *
    generalize p.ip.toList.length = i at *
    generalize p.transport.toList.length = j at *
    generalize p.domain.toList.length = k at *
    generalize p.tokenID.toList.length = m at *
    omega
  omega

end Entitlement

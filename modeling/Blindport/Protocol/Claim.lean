import Blindport.Text.Hostname

/-!
# Blindport.Protocol.Claim

`protocol.go`: the claim a client makes on a tunnel, and `ValidateClaim`, which
the relay and the agent both run before they use one.  A validated claim has the
fields of its product and no others (`validateClaim_ok_iff`), and a validated
host name is lowercase and has no colon.
-/

namespace Protocol

open Hostname

/-! ## the library -/

/-- What the claim code calls of Go's `net` and `unicode`: the texts `net.ParseIP`
accepts, and `unicode.ToLower` outside ASCII.  Nothing below depends on what they
do. -/
structure Go where
  parseIP : String → Bool
  lowerRune : Char → Char

/-- `strings.ToLower`. -/
def Go.toLower (go : Go) (s : String) : String :=
  s.map fun c => if c.toNat < 128 then c.toLower else go.lowerRune c

/-! ## claims -/

/-- `ClaimKind`; a text from the wire may be none of the products. -/
inductive ClaimKind
  | ip
  | port
  | relay
  | unknown (text : String)
deriving DecidableEq

/-- `Transport`; the empty text is `unset`. -/
inductive ClaimTransport
  | unset
  | tcp
  | udp
  | unknown (text : String)
deriving DecidableEq

/-- `RelayHostnameScope`; the empty text is `exact`. -/
inductive HostnameScope
  | exact
  | wildcard
  | unknown (text : String)
deriving DecidableEq

/-- `string(ClaimKind)`. -/
def ClaimKind.text : ClaimKind → String
  | .ip => "ip"
  | .port => "port"
  | .relay => "relay"
  | .unknown text => text

/-- `ClaimKind(text)`. -/
def ClaimKind.ofText (text : String) : ClaimKind :=
  if text = "ip" then .ip
  else if text = "port" then .port
  else if text = "relay" then .relay
  else .unknown text

/-- `string(Transport)`. -/
def ClaimTransport.text : ClaimTransport → String
  | .unset => ""
  | .tcp => "tcp"
  | .udp => "udp"
  | .unknown text => text

/-- `Transport(text)`. -/
def ClaimTransport.ofText (text : String) : ClaimTransport :=
  if text = "" then .unset
  else if text = "tcp" then .tcp
  else if text = "udp" then .udp
  else .unknown text

/-- `Claim`, with Go's zero values. -/
structure Claim where
  kind : ClaimKind
  ip : String := ""
  domain : String := ""
  port : UInt16 := 0
  transport : ClaimTransport := .unset
  scope : HostnameScope := .exact
deriving DecidableEq

/-! ## host names -/

/-- `[a-z0-9]`. -/
def alphanumeric (c : Char) : Bool :=
  ('a' ≤ c && c ≤ 'z') || ('0' ≤ c && c ≤ '9')

/-- `[a-z0-9-]`. -/
def labelChar (c : Char) : Bool := alphanumeric c || c == '-'

/-- `hostnameLabel`, the expression `^[a-z0-9](?:[a-z0-9-]{0,61}[a-z0-9])?$`. -/
def hostnameLabel : List Char → Bool
  | [] => false
  | c :: rest =>
      alphanumeric c &&
        match rest.getLast? with
        | none => true
        | some last =>
            rest.dropLast.length ≤ 61 && rest.dropLast.all labelChar && alphanumeric last

/-- `validHostname`. -/
def validHostname (go : Go) (value : String) : Bool :=
  if value = "" ∨ 253 < value.utf8ByteSize ∨ go.parseIP value = true ∨ value ≠ go.toLower value
  then false
  else (labels value).all hostnameLabel

theorem labelChar_of_hostnameLabel {l : List Char} (h : hostnameLabel l = true) :
    ∀ c ∈ l, labelChar c = true := by
  cases l with
  | nil => simp
  | cons c rest =>
      rw [hostnameLabel, Bool.and_eq_true] at h
      obtain ⟨hc, hrest⟩ := h
      intro x hx
      cases List.mem_cons.mp hx with
      | inl e => rw [e, labelChar, hc, Bool.true_or]
      | inr hx =>
          cases hlast : rest.getLast? with
          | none =>
              rw [List.getLast?_eq_none_iff] at hlast
              simp [hlast] at hx
          | some last =>
              rw [hlast] at hrest
              simp only [Bool.and_eq_true, List.all_eq_true] at hrest
              obtain ⟨⟨-, hall⟩, hl⟩ := hrest
              have hsplit : rest.dropLast ++ [last] = rest :=
                List.dropLast_append_getLast? last (by simp [hlast])
              rw [← hsplit] at hx
              cases List.mem_append.mp hx with
              | inl hx => exact hall x hx
              | inr hx => rw [List.mem_singleton.mp hx, labelChar, hl, Bool.true_or]

/-- A validated name is its own lowercase form. -/
theorem toLower_of_validHostname {go : Go} {value : String} (h : validHostname go value = true) :
    go.toLower value = value := by
  unfold validHostname at h
  split at h
  · cases h
  · rename_i hn
    simp only [not_or, ne_eq, not_not] at hn
    exact hn.2.2.2.symm

/-- The colon separates the fields of keys and destinations; no validated name
has one. -/
theorem colon_not_mem_of_validHostname {go : Go} {value : String}
    (h : validHostname go value = true) : ':' ∉ value.toList := by
  intro hmem
  have hall : (labels value).all hostnameLabel = true := by
    unfold validHostname at h
    split at h
    · cases h
    · exact h
  rw [← ofLabels_labels value, ofLabels, String.toList_ofList] at hmem
  cases mem_intercalate hmem with
  | inl hdot => exact absurd hdot (by decide)
  | inr hlabel =>
      obtain ⟨l, hl, hc⟩ := hlabel
      have := labelChar_of_hostnameLabel (List.all_eq_true.mp hall l hl) _ hc
      exact absurd this (by decide)

/-! ## validation -/

/-- `ValidateClaim`. -/
def validateClaim (go : Go) : Option Claim → Except String Unit
  | none => .error "claim is required"
  | some c =>
      let validIP := go.parseIP c.ip
      let transportOK := c.transport = .unset ∨ c.transport = .tcp
      match c.kind with
      | .ip =>
          if validIP = false ∨ c.domain ≠ "" ∨ c.port ≠ 0 ∨ ¬ transportOK ∨ c.scope ≠ .exact then
            .error "ip claim requires only an IP and optional tcp transport"
          else .ok ()
      | .port =>
          if validIP = false ∨ c.domain ≠ "" ∨ c.port = 0 ∨
              (c.transport ≠ .tcp ∧ c.transport ≠ .udp) ∨ c.scope ≠ .exact then
            .error "port claim requires IP, nonzero port, and tcp or udp transport"
          else .ok ()
      | .relay =>
          if validHostname go c.domain = false ∨ c.ip ≠ "" ∨ c.port ≠ 0 ∨ ¬ transportOK ∨
              (c.scope ≠ .exact ∧ c.scope ≠ .wildcard) then
            .error "relay claim requires only a valid hostname and optional tcp transport"
          else .ok ()
      | .unknown text => .error ("unknown claim kind \"" ++ text ++ "\"")

/-- The claims `ValidateClaim` accepts, product by product. -/
inductive Claim.Valid (go : Go) (c : Claim) : Prop
  | ip (kind : c.kind = .ip) (addr : go.parseIP c.ip = true) (domain : c.domain = "")
      (port : c.port = 0) (transport : c.transport = .unset ∨ c.transport = .tcp)
      (scope : c.scope = .exact)
  | port (kind : c.kind = .port) (addr : go.parseIP c.ip = true) (domain : c.domain = "")
      (port : c.port ≠ 0) (transport : c.transport = .tcp ∨ c.transport = .udp)
      (scope : c.scope = .exact)
  | relay (kind : c.kind = .relay) (domain : validHostname go c.domain = true) (ip : c.ip = "")
      (port : c.port = 0) (transport : c.transport = .unset ∨ c.transport = .tcp)
      (scope : c.scope = .exact ∨ c.scope = .wildcard)

theorem validateClaim_ok_iff {go : Go} {c : Claim} :
    validateClaim go (some c) = .ok () ↔ c.Valid go := by
  constructor
  · intro h
    cases hkind : c.kind with
    | ip =>
        simp only [validateClaim, hkind] at h
        split at h
        · cases h
        · rename_i hn
          simp only [not_or, Bool.not_eq_false, ne_eq, not_not, not_and] at hn
          obtain ⟨haddr, hdomain, hport, htransport, hscope⟩ := hn
          exact .ip hkind haddr hdomain hport (or_iff_not_imp_left.mpr htransport) hscope
    | port =>
        simp only [validateClaim, hkind] at h
        split at h
        · cases h
        · rename_i hn
          simp only [not_or, Bool.not_eq_false, ne_eq, not_not, not_and] at hn
          obtain ⟨haddr, hdomain, hport, htransport, hscope⟩ := hn
          exact .port hkind haddr hdomain hport (or_iff_not_imp_left.mpr htransport) hscope
    | relay =>
        simp only [validateClaim, hkind] at h
        split at h
        · cases h
        · rename_i hn
          simp only [not_or, Bool.not_eq_false, ne_eq, not_not, not_and] at hn
          obtain ⟨hdomain, hip, hport, htransport, hscope⟩ := hn
          exact .relay hkind hdomain hip hport (or_iff_not_imp_left.mpr htransport)
            (or_iff_not_imp_left.mpr hscope)
    | unknown text =>
        simp [validateClaim, hkind] at h
  · intro h
    cases h with
    | ip kind addr domain port transport scope =>
        simp [validateClaim, kind, addr, domain, port, transport, scope]
    | port kind addr domain port transport scope =>
        cases transport with
        | inl ht => simp [validateClaim, kind, addr, domain, port, ht, scope]
        | inr ht => simp [validateClaim, kind, addr, domain, port, ht, scope]
    | relay kind domain ip port transport scope =>
        cases scope with
        | inl hs => simp [validateClaim, kind, domain, ip, port, transport, hs]
        | inr hs => simp [validateClaim, kind, domain, ip, port, transport, hs]

/-- The check both ends make on a bare host name. -/
theorem validateClaim_hostname {go : Go} {host : String} :
    validateClaim go (some { kind := .relay, domain := host }) = .ok () ↔
      validHostname go host = true := by
  simp [validateClaim]

end Protocol

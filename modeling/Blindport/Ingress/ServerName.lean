import Blindport.Text.Utf8
import Blindport.Wire.Bytes

/-!
# Blindport.Ingress.ServerName

`sniproxy.go`: `parseSNI`, which takes the host name out of a TLS ClientHello.
`ClientHello` is the message format it implements, as values whose lengths fit their
fields; the main result is that `parseSNI` accepts the encodings of those with one
usable host name, and nothing else (`parseSNI_ok_iff`).
-/

namespace Ingress

open Wire Protocol

/-! ## the parser -/

/-- `ErrNoSNI`. -/
def errNoSNI : String := "no SNI in ClientHello"

/-- The digits of `%x`. -/
def hexText (n : Nat) : String := String.ofList (Nat.toDigits 16 n)

/-- The handshake header: the body behind it. -/
def handshakeBody (body : Bytes) : Result Bytes := do
  if body.length < 4 then .error (.error "body too short") else do
  let msgType ← byteAt body 0
  if msgType ≠ 0x01 then
    .error (.error ("not a ClientHello (type=0x" ++ hexText msgType.toNat ++ ")"))
  else do
  let hsLen := uint24 (← byteAt body 1) (← byteAt body 2) (← byteAt body 3)
  if hsLen + 4 ≠ body.length then .error (.error "bad handshake length")
  else slice body 4 (4 + hsLen)

/-- From the client version to the end of the session id. -/
def skipSessionID (p : Bytes) : Result Bytes := do
  if p.length < 2 + 32 + 1 then .error (.error "client_hello too short") else do
  skipVector8 "bad session_id len" (← sliceFrom p (2 + 32))

/-- The cipher suites. -/
def skipCipherSuites (p : Bytes) : Result Bytes :=
  if p.length < 2 then .error (.error "missing cipher_suites len")
  else skipVector16 "bad cipher_suites len" p

/-- The compression methods. -/
def skipCompMethods (p : Bytes) : Result Bytes :=
  if p.length < 1 then .error (.error "missing comp_methods len")
  else skipVector8 "bad comp_methods len" p

/-- The extension block, which is the rest. -/
def extensionBlock (p : Bytes) : Result Bytes := do
  if p.length < 2 then .error (.error errNoSNI) else do
  let extLen ← bigEndianUint16 (← slice p 0 2)
  let p ← sliceFrom p 2
  if extLen ≠ p.length then .error (.error "bad extensions len") else slice p 0 extLen

/-- The first extension of a block: its type, its data and the block behind it. -/
def nextExtension (ext : Bytes) : Result (Nat × Bytes × Bytes) := do
  let extType ← bigEndianUint16 (← slice ext 0 2)
  let (data, rest) ← takeVector16 "bad extension item" 2 ext
  return (extType, data, rest)

/-- The list in a server_name extension. -/
def serverNameList (data : Bytes) : Result Bytes := do
  if data.length < 2 then .error (.error "bad SNI list len") else do
  let listLen ← bigEndianUint16 (← slice data 0 2)
  if listLen = 0 ∨ listLen + 2 ≠ data.length then .error (.error "bad SNI list len")
  else slice data 2 (2 + listLen)

/-- The first entry of a list: its type, its name and the list behind it. -/
def nextName (list : Bytes) : Result (UInt8 × Bytes × Bytes) := do
  if list.length < 3 then .error (.error "bad SNI name") else do
  let nameType ← byteAt list 0
  let (name, rest) ← takeVector16 "bad SNI name" 1 list
  return (nameType, name, rest)

/-- A host name, when `serverName` was the one before. -/
def hostName (go : Go) (serverName name : Bytes) : Result Bytes :=
  if name.length = 0 then .error (.error "empty SNI host_name")
  else if 0 ∈ name then .error (.error "SNI host_name contains NUL")
  else if serverName ≠ [] then .error (.error "duplicate SNI host_name")
  else .ok (go.toLowerBytes name)

/-- What a list with a first item begins with. -/
theorem eq_take_one {α : Type} {a : α} {l : List α} (h : l[0]? = some a) : l.take 1 = [a] := by
  cases l with
  | nil => simp at h
  | cons b l => simpa using h

/-- An entry is a type and a vector. -/
theorem nextName_decides (list : Bytes) :
    Decides (nextName list) (fun r =>
      r.2.1.length < 2 ^ 16 ∧ list = r.1 :: (vector16 r.2.1 ++ r.2.2)) := by
  refine (Decides.check fun hlen => (Decides.byteAt (by omega)).bind fun nameType _ =>
      (Decides.takeVector16 (by omega)).bind fun nr _ => Decides.pure (nameType, nr)).congr
    fun r => ?_
  obtain ⟨nameType, name, rest⟩ := r
  constructor
  · rintro ⟨hlen, b, hb, ⟨n, q⟩, ⟨hname, heq⟩, hr⟩
    obtain ⟨rfl, rfl, rfl⟩ : nameType = b ∧ name = n ∧ rest = q := by simpa using hr
    rw [eq_take_one hb] at heq
    exact ⟨hname, heq⟩
  · rintro ⟨hname, heq⟩
    dsimp only at hname heq
    have hlen := congrArg List.length heq
    rw [List.length_cons, List.length_append, length_vector16] at hlen
    refine ⟨by omega, nameType, by rw [heq]; rfl, (name, rest), ⟨hname, ?_⟩, rfl⟩
    rw [heq]
    rfl

/-- An extension is a type and a vector. -/
theorem nextExtension_decides {ext : Bytes} (h : 4 ≤ ext.length) :
    Decides (nextExtension ext) (fun r => r.1 < 2 ^ 16 ∧ r.2.1.length < 2 ^ 16 ∧
      ext = putUint16 r.1 ++ (vector16 r.2.1 ++ r.2.2)) := by
  match ext, h with
  | a :: b :: ext, h =>
      have hrun : nextExtension (a :: b :: ext) =
          takeVector16 "bad extension item" 2 (a :: b :: ext) >>= fun r =>
            .ok (uint16 a b, r) := rfl
      rw [hrun]
      refine ((Decides.takeVector16 h).bind fun r _ => Decides.pure _).congr fun r => ?_
      obtain ⟨extType, data, rest⟩ := r
      constructor
      · rintro ⟨⟨d, q⟩, ⟨hdata, heq⟩, hr⟩
        obtain ⟨rfl, rfl, rfl⟩ : extType = uint16 a b ∧ data = d ∧ rest = q := by simpa using hr
        rw [putUint16_uint16]
        exact ⟨uint16_lt a b, hdata, heq⟩
      · rintro ⟨htype, hdata, heq⟩
        dsimp only at htype hdata heq
        refine ⟨(data, rest), ⟨hdata, ?_⟩, ?_⟩
        · rw [heq]
          rfl
        · rw [putUint16, List.cons_append, List.cons_append, List.nil_append, List.cons.injEq,
            List.cons.injEq] at heq
          obtain ⟨rfl, rfl, -⟩ := heq
          rw [uint16_putUint16 htype]

/-- What an entry adds to the host name found so far. -/
def takeName (go : Go) (serverName : Bytes) (nameType : UInt8) (name : Bytes) : Result Bytes :=
  if nameType = 0 then hostName go serverName name else .ok serverName

/-- The loop over a server name list. -/
def parseNames (go : Go) (serverName list : Bytes) : Result Bytes :=
  if list.length = 0 then .ok serverName
  else
    match _h : nextName list with
    | .error fault => .error fault
    | .ok (nameType, name, rest) => do
        let serverName ← takeName go serverName nameType name
        parseNames go serverName rest
termination_by list.length
decreasing_by
  have h := congrArg List.length (((nextName_decides list).ok_iff _).mp _h).2
  simp at h
  omega

/-- What an extension adds to the host name found so far. -/
def takeExtension (go : Go) (serverName : Bytes) (extType : Nat) (data : Bytes) :
    Result Bytes :=
  if extType = 0 then do parseNames go serverName (← serverNameList data) else .ok serverName

/-- The loop over the extensions: the host name and what is left of the block. -/
def parseExtensions (go : Go) (serverName ext : Bytes) : Result (Bytes × Bytes) :=
  if _hlen : ext.length < 4 then .ok (serverName, ext)
  else
    match _h : nextExtension ext with
    | .error fault => .error fault
    | .ok (extType, data, rest) => do
        let serverName ← takeExtension go serverName extType data
        parseExtensions go serverName rest
termination_by ext.length
decreasing_by
  have h := congrArg List.length (((nextExtension_decides (by omega)).ok_iff _).mp _h).2.2
  simp at h
  omega

/-- `parseSNI`. -/
def parseSNI (go : Go) (body : Bytes) : Result Bytes := do
  let p ← handshakeBody body
  let p ← skipSessionID p
  let p ← skipCipherSuites p
  let p ← skipCompMethods p
  let ext ← extensionBlock p
  let (serverName, ext) ← parseExtensions go [] ext
  if ext.length ≠ 0 then .error (.error "bad extension header")
  else if serverName ≠ [] then .ok serverName
  else .error (.error errNoSNI)

/-! ## the format -/

/-- An entry of a server name list. -/
structure NameEntry where
  nameType : UInt8
  name : Bytes
  fits : name.length < 2 ^ 16

/-- A type, and the name behind its length. -/
def NameEntry.encode (e : NameEntry) : Bytes := e.nameType :: vector16 e.name

/-- The bytes of a server name list. -/
def encodeNames (entries : List NameEntry) : Bytes := entries.flatMap NameEntry.encode

/-- The host_name entries of a list. -/
def hostNames (entries : List NameEntry) : List Bytes :=
  (entries.filter (·.nameType = 0)).map NameEntry.name

/-- An extension.  A server_name extension holds one list of at least one entry; the
others are not looked into. -/
inductive Extension
  | serverName (entries : List NameEntry) (nonempty : entries ≠ [])
      (fits : (encodeNames entries).length + 2 < 2 ^ 16)
  | other (extType : Nat) (data : Bytes) (named : extType ≠ 0) (short : extType < 2 ^ 16)
      (fits : data.length < 2 ^ 16)

namespace Extension

/-- A type, and the data behind its length. -/
def encode : Extension → Bytes
  | serverName entries _ _ => putUint16 0 ++ vector16 (vector16 (encodeNames entries))
  | other extType data _ _ _ => putUint16 extType ++ vector16 data

/-- The host_name entries of an extension. -/
def hosts : Extension → List Bytes
  | serverName entries _ _ => hostNames entries
  | other _ _ _ _ _ => []

end Extension

/-- A ClientHello with an extension block. -/
structure ClientHello where
  version : Bytes
  random : Bytes
  sessionID : Bytes
  cipherSuites : Bytes
  compMethods : Bytes
  extensions : List Extension
  version_length : version.length = 2
  random_length : random.length = 32
  sessionID_fits : sessionID.length < 2 ^ 8
  cipherSuites_fits : cipherSuites.length < 2 ^ 16
  compMethods_fits : compMethods.length < 2 ^ 8
  extensions_fit : (extensions.flatMap Extension.encode).length < 2 ^ 16

namespace ClientHello

/-- The message behind the handshake header. -/
def content (h : ClientHello) : Bytes :=
  (h.version ++ h.random) ++ (vector8 h.sessionID ++ (vector16 h.cipherSuites ++
    (vector8 h.compMethods ++ vector16 (h.extensions.flatMap Extension.encode))))

/-- The handshake message. -/
def encode (h : ClientHello) : Bytes := 0x01 :: (putUint24 h.content.length ++ h.content)

/-- The host_name entries over all server_name extensions. -/
def hosts (h : ClientHello) : List Bytes := h.extensions.flatMap Extension.hosts

theorem content_fits (h : ClientHello) : h.content.length < 2 ^ 24 := by
  have h₁ := h.version_length
  have h₂ := h.random_length
  have h₃ := h.sessionID_fits
  have h₄ := h.cipherSuites_fits
  have h₅ := h.compMethods_fits
  have h₆ := h.extensions_fit
  simp only [content, List.length_append, length_vector8, length_vector16]
  omega

end ClientHello

/-! ## the host names -/

/-- What the parser makes of the host names it meets, in order. -/
def Collects (go : Go) : Bytes → List Bytes → Bytes → Prop
  | serverName, [], result => result = serverName
  | serverName, name :: names, result =>
      (name ≠ [] ∧ 0 ∉ name ∧ serverName = []) ∧ Collects go (go.toLowerBytes name) names result

theorem collects_append {go : Go} {names more : List Bytes} {serverName result : Bytes} :
    Collects go serverName (names ++ more) result ↔
      ∃ mid, Collects go serverName names mid ∧ Collects go mid more result := by
  induction names generalizing serverName with
  | nil => simp [Collects]
  | cons name names ih =>
      rw [List.cons_append, Collects, ih]
      simp [Collects, and_assoc]

/-- Exactly one usable host name is found. -/
theorem collects_nil_iff {go : Go} {names : List Bytes} {result : Bytes} :
    Collects go [] names result ∧ result ≠ [] ↔
      ∃ host, names = [host] ∧ host ≠ [] ∧ 0 ∉ host ∧ result = go.toLowerBytes host := by
  match names with
  | [] => simp [Collects]
  | [name] =>
      constructor
      · rintro ⟨⟨⟨hne, hnul, -⟩, rfl⟩, -⟩
        exact ⟨name, rfl, hne, hnul, rfl⟩
      · rintro ⟨host, heq, hne, hnul, rfl⟩
        obtain rfl : name = host := by simpa using heq
        exact ⟨⟨⟨hne, hnul, rfl⟩, rfl⟩, Utf8.toLowerBytes_ne_nil hne⟩
  | name :: name' :: names =>
      constructor
      · rintro ⟨⟨⟨hne, -, -⟩, ⟨-, -, hsecond⟩, -⟩, -⟩
        exact absurd hsecond (Utf8.toLowerBytes_ne_nil hne)
      · rintro ⟨host, heq, -⟩
        simp at heq

theorem hostName_decides (go : Go) (serverName name : Bytes) :
    Decides (hostName go serverName name) (Collects go serverName [name]) := by
  refine (Decides.check fun _ => Decides.check fun _ => Decides.check fun _ =>
    Decides.pure _).congr fun result => ?_
  simp [Collects, and_assoc]

theorem takeName_decides (go : Go) (serverName : Bytes) (nameType : UInt8) (name : Bytes) :
    Decides (takeName go serverName nameType name)
      (Collects go serverName (if nameType = 0 then [name] else [])) := by
  unfold takeName
  by_cases h : nameType = 0
  · rw [if_pos h, if_pos h]
    exact hostName_decides go serverName name
  · rw [if_neg h, if_neg h]
    exact Decides.pure serverName

/-! ## what the steps decide -/

/-- A message of less than four bytes has no handshake header. -/
theorem short_handshake {body : Bytes} (h : body.length < 4) :
    Decides (handshakeBody body) (fun p =>
      p.length < 2 ^ 24 ∧ body = 0x01 :: (putUint24 p.length ++ p)) := by
  rw [handshakeBody, if_pos h]
  refine (Decides.throw "body too short").congr fun p => ?_
  rw [false_iff]
  rintro ⟨-, heq⟩
  rw [heq, List.length_cons, List.length_append, length_putUint24] at h
  omega

theorem handshakeBody_decides (body : Bytes) :
    Decides (handshakeBody body) (fun p =>
      p.length < 2 ^ 24 ∧ body = 0x01 :: (putUint24 p.length ++ p)) := by
  match body with
  | t :: a :: b :: c :: p =>
      have hrun : handshakeBody (t :: a :: b :: c :: p) =
          if t ≠ 0x01 then
            .error (.error ("not a ClientHello (type=0x" ++ hexText t.toNat ++ ")"))
          else if uint24 a b c + 4 ≠ (t :: a :: b :: c :: p).length then
            .error (.error "bad handshake length")
          else slice (t :: a :: b :: c :: p) 4 (4 + uint24 a b c) := rfl
      rw [hrun]
      refine (Decides.check fun _ => Decides.check fun hlen =>
        Decides.slice (by omega) (by omega)).congr fun q => ?_
      have hdrop : (t :: a :: b :: c :: p).drop 4 = p := rfl
      have hlength : (t :: a :: b :: c :: p).length = p.length + 4 := rfl
      rw [hlength, List.drop_take, hdrop, Nat.add_sub_cancel_left, not_not, not_not]
      constructor
      · rintro ⟨rfl, hlen, rfl⟩
        have hn : uint24 a b c = p.length := by omega
        rw [hn, List.take_length, ← hn, putUint24_uint24]
        exact ⟨uint24_lt a b c, rfl⟩
      · rintro ⟨hq, heq⟩
        rw [putUint24, putUint16, List.cons_append, List.cons_append, List.cons_append,
          List.nil_append, List.cons.injEq, List.cons.injEq, List.cons.injEq,
          List.cons.injEq] at heq
        obtain ⟨rfl, rfl, rfl, rfl, rfl⟩ := heq
        rw [uint24_putUint24 hq, List.take_length]
        exact ⟨rfl, rfl, rfl⟩
  | [] => exact short_handshake (by decide)
  | [_] => exact short_handshake (by simp)
  | [_, _] => exact short_handshake (by simp)
  | [_, _, _] => exact short_handshake (by simp)

theorem skipSessionID_decides (p : Bytes) :
    Decides (skipSessionID p) (fun rest => ∃ version random sessionID,
      version.length = 2 ∧ random.length = 32 ∧ sessionID.length < 2 ^ 8 ∧
        p = (version ++ random) ++ (vector8 sessionID ++ rest)) := by
  refine (Decides.check fun hlen => (Decides.sliceFrom (by omega)).bind fun q hq =>
    Decides.skipVector8 fun hnil => ?_).congr fun rest => ?_
  · have := congrArg List.length (hq.symm.trans hnil)
    rw [List.length_drop, List.length_nil] at this
    omega
  · constructor
    · rintro ⟨hlen, q, rfl, sessionID, hsid, hq⟩
      refine ⟨p.take 2, (p.take 34).drop 2, sessionID, ?_, ?_, hsid, ?_⟩
      · rw [List.length_take]
        omega
      · rw [List.length_drop, List.length_take]
        omega
      · have htwo : p.take 2 = (p.take 34).take 2 := by rw [List.take_take]; rfl
        rw [htwo, List.take_append_drop, ← hq, List.take_append_drop]
    · rintro ⟨version, random, sessionID, hv, hr, hsid, rfl⟩
      have hfront : (version ++ random).length = 2 + 32 := by
        rw [List.length_append, hv, hr]
      refine ⟨?_, _, rfl, sessionID, hsid, List.drop_left' hfront⟩
      rw [List.length_append, hfront, List.length_append, length_vector8]
      omega

theorem skipCipherSuites_decides (p : Bytes) :
    Decides (skipCipherSuites p) (fun rest =>
      ∃ cipherSuites, cipherSuites.length < 2 ^ 16 ∧ p = vector16 cipherSuites ++ rest) := by
  refine (Decides.check fun hlen => Decides.skipVector16 (by omega)).congr fun rest => ?_
  rw [and_iff_right_iff_imp]
  rintro ⟨data, -, rfl⟩
  rw [List.length_append, length_vector16]
  omega

theorem skipCompMethods_decides (p : Bytes) :
    Decides (skipCompMethods p) (fun rest =>
      ∃ compMethods, compMethods.length < 2 ^ 8 ∧ p = vector8 compMethods ++ rest) := by
  refine (Decides.check fun hlen => Decides.skipVector8 fun hp => ?_).congr fun rest => ?_
  · rw [hp] at hlen
    exact hlen (by decide)
  · rw [and_iff_right_iff_imp]
    rintro ⟨data, -, rfl⟩
    simp [vector8]

theorem extensionBlock_decides (p : Bytes) :
    Decides (extensionBlock p) (fun ext => ext.length < 2 ^ 16 ∧ p = vector16 ext) := by
  match p with
  | a :: b :: p =>
      have hrun : extensionBlock (a :: b :: p) =
          if uint16 a b ≠ p.length then .error (.error "bad extensions len")
          else slice p 0 (uint16 a b) := rfl
      rw [hrun]
      refine (Decides.check fun hlen => Decides.slice (by omega) (by omega)).congr fun ext => ?_
      rw [List.drop_zero, not_not]
      constructor
      · rintro ⟨hlen, rfl⟩
        rw [hlen, List.take_length, vector16, ← hlen, putUint16_uint16]
        exact ⟨uint16_lt a b, rfl⟩
      · rintro ⟨hext, heq⟩
        obtain ⟨rfl, rfl, rfl⟩ := vector16_eq_cons heq
        rw [uint16_putUint16 hext, List.take_length]
        exact ⟨rfl, rfl⟩
  | [] =>
      refine (Decides.throw errNoSNI).congr fun ext => ?_
      simp [vector16, putUint16]
  | [_] =>
      refine (Decides.throw errNoSNI).congr fun ext => ?_
      simp [vector16, putUint16]

theorem serverNameList_decides (data : Bytes) :
    Decides (serverNameList data) (fun list =>
      list ≠ [] ∧ list.length < 2 ^ 16 ∧ data = vector16 list) := by
  match data with
  | a :: b :: p =>
      have hrun : serverNameList (a :: b :: p) =
          if uint16 a b = 0 ∨ uint16 a b + 2 ≠ (a :: b :: p).length then
            .error (.error "bad SNI list len")
          else slice (a :: b :: p) 2 (2 + uint16 a b) := rfl
      have hlength : (a :: b :: p).length = p.length + 2 := rfl
      rw [hrun]
      refine (Decides.check fun hlen => Decides.slice (by omega) (by omega)).congr fun list => ?_
      rw [hlength, List.drop_take, Nat.add_sub_cancel_left]
      change _ ∧ list = p.take (uint16 a b) ↔ _
      constructor
      · rintro ⟨hlen, rfl⟩
        have hn : uint16 a b = p.length := by omega
        rw [hn, List.take_length, vector16, ← hn, putUint16_uint16]
        refine ⟨?_, uint16_lt a b, rfl⟩
        rintro rfl
        exact hlen (.inl hn)
      · rintro ⟨hne, hext, heq⟩
        obtain ⟨rfl, rfl, rfl⟩ := vector16_eq_cons heq
        have hpos := List.length_pos_iff.mpr hne
        rw [uint16_putUint16 hext, List.take_length]
        exact ⟨by omega, rfl⟩
  | [] =>
      refine (Decides.throw "bad SNI list len").congr fun list => ?_
      simp [vector16, putUint16]
  | [_] =>
      refine (Decides.throw "bad SNI list len").congr fun list => ?_
      simp [vector16, putUint16]

/-! ### the loops -/

theorem parseNames_nil (go : Go) (serverName : Bytes) :
    parseNames go serverName [] = .ok serverName := by
  rw [parseNames, if_pos List.length_nil]

theorem parseNames_of_ne_nil {go : Go} {serverName list : Bytes} (h : list ≠ []) :
    parseNames go serverName list = nextName list >>= fun entry =>
      takeName go serverName entry.1 entry.2.1 >>= fun serverName =>
        parseNames go serverName entry.2.2 := by
  rw [parseNames, if_neg (mt List.length_eq_zero_iff.mp h)]
  split
  · rename_i fault hr
    rw [hr]
    rfl
  · rename_i nameType name rest hr
    rw [hr]
    rfl

theorem encodeNames_ne_nil (e : NameEntry) (entries : List NameEntry) :
    encodeNames (e :: entries) ≠ [] := by simp [encodeNames, NameEntry.encode]

theorem hostNames_cons (e : NameEntry) (entries : List NameEntry) :
    hostNames (e :: entries) = (if e.nameType = 0 then [e.name] else []) ++ hostNames entries := by
  unfold hostNames
  by_cases h : e.nameType = 0
  · simp [h]
  · simp [h]

/-- The loop over a list accepts the lists of entries. -/
theorem parseNames_decides (go : Go) (n : Nat) : ∀ (serverName list : Bytes), list.length = n →
    Decides (parseNames go serverName list) (fun result => ∃ entries : List NameEntry,
      list = encodeNames entries ∧ Collects go serverName (hostNames entries) result) := by
  induction n using Nat.strongRecOn with
  | ind n ih =>
      intro serverName list hn
      by_cases hlist : list = []
      · rw [hlist, parseNames_nil]
        refine (Decides.pure _).congr fun result => ?_
        constructor
        · rintro rfl
          exact ⟨[], rfl, rfl⟩
        · rintro ⟨entries, heq, hc⟩
          cases entries with
          | nil => exact hc
          | cons e entries => exact absurd heq.symm (encodeNames_ne_nil e entries)
      · rw [parseNames_of_ne_nil hlist]
        have hstep : ∀ r : UInt8 × Bytes × Bytes,
            (r.2.1.length < 2 ^ 16 ∧ list = r.1 :: (vector16 r.2.1 ++ r.2.2)) →
            r.2.2.length < n := by
          rintro ⟨t, name, rest⟩ ⟨-, heq⟩
          rw [← hn, heq, List.length_cons, List.length_append]
          omega
        refine ((nextName_decides list).bind fun r hr =>
          (takeName_decides go serverName r.1 r.2.1).bind fun mid _ =>
            ih _ (hstep r hr) mid r.2.2 rfl).congr fun result => ?_
        constructor
        · rintro ⟨⟨t, name, rest⟩, ⟨hname, heq⟩, mid, hmid, entries, hrest, hc⟩
          dsimp only at hname heq hmid hrest
          refine ⟨⟨t, name, hname⟩ :: entries, ?_, ?_⟩
          · rw [heq, hrest]
            rfl
          · rw [hostNames_cons, collects_append]
            exact ⟨mid, hmid, hc⟩
        · rintro ⟨entries, heq, hc⟩
          cases entries with
          | nil => exact absurd heq hlist
          | cons e entries =>
              rw [hostNames_cons, collects_append] at hc
              obtain ⟨mid, hmid, hc⟩ := hc
              exact ⟨(e.nameType, e.name, encodeNames entries), ⟨e.fits, heq⟩, mid, hmid, entries,
                rfl, hc⟩

/-- An item of the block is an extension, and its host names are collected. -/
theorem takeExtension_decides (go : Go) (serverName : Bytes) {extType : Nat} {data : Bytes}
    (htype : extType < 2 ^ 16) (hdata : data.length < 2 ^ 16) :
    Decides (takeExtension go serverName extType data) (fun result => ∃ e : Extension,
      e.encode = putUint16 extType ++ vector16 data ∧ Collects go serverName e.hosts result) := by
  unfold takeExtension
  by_cases h0 : extType = 0
  · rw [if_pos h0]
    refine ((serverNameList_decides data).bind fun list _ =>
      parseNames_decides go _ serverName list rfl).congr fun result => ?_
    constructor
    · rintro ⟨list, ⟨hne, -, rfl⟩, entries, rfl, hc⟩
      rw [length_vector16] at hdata
      refine ⟨.serverName entries (fun hnil => hne (by rw [hnil]; rfl)) hdata, ?_, hc⟩
      rw [Extension.encode, h0]
    · rintro ⟨e, heq, hc⟩
      cases e with
      | serverName entries nonempty fits =>
          obtain ⟨-, rfl⟩ := putUint16_vector16_inj (by decide) htype heq
          obtain ⟨e, entries', rfl⟩ := List.exists_cons_of_ne_nil nonempty
          exact ⟨_, ⟨encodeNames_ne_nil e entries', by omega, rfl⟩, _, rfl, hc⟩
      | other extType' data' named short fits =>
          exact absurd ((putUint16_vector16_inj short htype heq).1.trans h0) named
  · rw [if_neg h0]
    refine (Decides.pure _).congr fun result => ?_
    constructor
    · rintro rfl
      exact ⟨.other extType data h0 htype hdata, rfl, rfl⟩
    · rintro ⟨e, heq, hc⟩
      cases e with
      | serverName entries nonempty fits =>
          exact absurd (putUint16_vector16_inj (by decide) htype heq).1.symm h0
      | other extType' data' named short fits => exact hc

theorem parseExtensions_short {go : Go} {serverName ext : Bytes} (h : ext.length < 4) :
    parseExtensions go serverName ext = .ok (serverName, ext) := by
  rw [parseExtensions, dif_pos h]

theorem parseExtensions_long {go : Go} {serverName ext : Bytes} (h : ¬ext.length < 4) :
    parseExtensions go serverName ext = nextExtension ext >>= fun item =>
      takeExtension go serverName item.1 item.2.1 >>= fun serverName =>
        parseExtensions go serverName item.2.2 := by
  rw [parseExtensions, dif_neg h]
  split
  · rename_i fault hr
    rw [hr]
    rfl
  · rename_i extType data rest hr
    rw [hr]
    rfl

theorem Extension.length_encode_ge (e : Extension) : 4 ≤ e.encode.length := by
  cases e with
  | serverName entries nonempty fits =>
      simp only [Extension.encode, List.length_append, length_vector16, length_putUint16]
      omega
  | other extType data named short fits =>
      simp only [Extension.encode, List.length_append, length_vector16, length_putUint16]
      omega

/-- The bytes of an extension are a type and a vector. -/
theorem Extension.encode_eq (e : Extension) : ∃ extType data, extType < 2 ^ 16 ∧
    data.length < 2 ^ 16 ∧ e.encode = putUint16 extType ++ vector16 data := by
  cases e with
  | serverName entries nonempty fits =>
      exact ⟨0, _, by decide, by rw [length_vector16]; exact fits, rfl⟩
  | other extType data named short fits => exact ⟨extType, data, short, fits, rfl⟩

/-- The loop over a block accepts extensions, up to less than the header of one. -/
theorem parseExtensions_decides (go : Go) (n : Nat) : ∀ (serverName ext : Bytes), ext.length = n →
    Decides (parseExtensions go serverName ext) (fun r => ∃ extensions : List Extension,
      ext = extensions.flatMap Extension.encode ++ r.2 ∧ r.2.length < 4 ∧
        Collects go serverName (extensions.flatMap Extension.hosts) r.1) := by
  induction n using Nat.strongRecOn with
  | ind n ih =>
      intro serverName ext hn
      by_cases hext : ext.length < 4
      · rw [parseExtensions_short hext]
        refine (Decides.pure _).congr fun r => ?_
        constructor
        · rintro rfl
          exact ⟨[], rfl, hext, rfl⟩
        · rintro ⟨extensions, heq, -, hc⟩
          cases extensions with
          | nil => exact Prod.ext hc heq.symm
          | cons e extensions =>
              have hlen := congrArg List.length heq
              have hge := e.length_encode_ge
              rw [List.flatMap_cons, List.length_append, List.length_append] at hlen
              omega
      · rw [parseExtensions_long hext]
        have hstep : ∀ r : Nat × Bytes × Bytes, (r.1 < 2 ^ 16 ∧ r.2.1.length < 2 ^ 16 ∧
            ext = putUint16 r.1 ++ (vector16 r.2.1 ++ r.2.2)) → r.2.2.length < n := by
          rintro ⟨t, data, rest⟩ ⟨-, -, heq⟩
          rw [← hn, heq, List.length_append, List.length_append, length_putUint16]
          omega
        refine ((nextExtension_decides (Nat.le_of_not_lt hext)).bind fun r hr =>
          (takeExtension_decides go serverName hr.1 hr.2.1).bind fun mid _ =>
            ih _ (hstep r hr) mid r.2.2 rfl).congr fun result => ?_
        constructor
        · rintro ⟨⟨t, data, rest⟩, ⟨-, -, heq⟩, mid, ⟨e, he, hmid⟩, extensions, hrest, hlast, hc⟩
          dsimp only at heq he hrest
          refine ⟨e :: extensions, ?_, hlast, ?_⟩
          · rw [List.flatMap_cons, he, List.append_assoc, List.append_assoc, ← hrest, heq]
          · rw [List.flatMap_cons, collects_append]
            exact ⟨mid, hmid, hc⟩
        · rintro ⟨extensions, heq, hlast, hc⟩
          cases extensions with
          | nil =>
              rw [heq] at hext
              exact absurd hlast hext
          | cons e extensions =>
              rw [List.flatMap_cons, collects_append] at hc
              obtain ⟨mid, hmid, hc⟩ := hc
              obtain ⟨t, data, ht, hdata, he⟩ := e.encode_eq
              rw [List.flatMap_cons, he, List.append_assoc, List.append_assoc] at heq
              exact ⟨(t, data, _), ⟨ht, hdata, heq⟩, mid, ⟨e, he, hmid⟩, extensions, rfl, hlast,
                hc⟩

/-! ## the main result -/

/-- What `parseSNI` decides. -/
theorem parseSNI_decides (go : Go) (body : Bytes) :
    Decides (parseSNI go body) (fun name => ∃ (hello : ClientHello) (host : Bytes),
      body = hello.encode ∧ hello.hosts = [host] ∧ host ≠ [] ∧ 0 ∉ host ∧
        name = go.toLowerBytes host) := by
  refine ((handshakeBody_decides body).bind fun p₁ _ => (skipSessionID_decides p₁).bind
    fun p₂ _ => (skipCipherSuites_decides p₂).bind fun p₃ _ => (skipCompMethods_decides p₃).bind
    fun p₄ _ => (extensionBlock_decides p₄).bind fun ext _ =>
    (parseExtensions_decides go _ [] ext rfl).bind fun r _ => Decides.check fun _ =>
      Decides.ite (fun _ => Decides.pure r.1) fun _ => Decides.throw errNoSNI).congr
    fun name => ?_
  constructor
  · rintro ⟨p₁, ⟨hp₁, rfl⟩, p₂, ⟨version, random, sessionID, hv, hr, hs, rfl⟩, p₃,
      ⟨cipherSuites, hcs, rfl⟩, p₄, ⟨compMethods, hcm, rfl⟩, ext, ⟨hext, rfl⟩, ⟨found, left⟩,
      ⟨extensions, rfl, -, hc⟩, hleft, hname⟩
    obtain rfl : left = [] := by simpa using hleft
    rw [List.append_nil] at hext
    have hfound : found ≠ [] ∧ name = found := by
      by_cases hnil : found = []
      · simp [hnil] at hname
      · simpa [hnil] using hname
    obtain ⟨host, hhosts, hne, hnul, hlower⟩ := collects_nil_iff.mp ⟨hc, hfound.1⟩
    refine ⟨⟨version, random, sessionID, cipherSuites, compMethods, extensions, hv, hr, hs, hcs,
      hcm, hext⟩, host, ?_, hhosts, hne, hnul, hfound.2.trans hlower⟩
    simp only [ClientHello.encode, ClientHello.content, List.append_nil]
  · rintro ⟨hello, host, rfl, hhosts, hne, hnul, rfl⟩
    have hc : Collects go [] hello.hosts (go.toLowerBytes host) ∧ go.toLowerBytes host ≠ [] :=
      collects_nil_iff.mpr ⟨host, hhosts, hne, hnul, rfl⟩
    refine ⟨hello.content, ⟨hello.content_fits, rfl⟩, _, ⟨_, _, _, hello.version_length,
      hello.random_length, hello.sessionID_fits, rfl⟩, _, ⟨_, hello.cipherSuites_fits, rfl⟩, _,
      ⟨_, hello.compMethods_fits, rfl⟩, _, ⟨hello.extensions_fit, rfl⟩,
      (go.toLowerBytes host, []),
      ⟨hello.extensions, (List.append_nil _).symm, Nat.zero_lt_succ 3, hc.1⟩,
      fun hlen => hlen rfl, ?_⟩
    rw [if_pos hc.2]

/-- **`parseSNI` implements its format.**  It returns a name exactly for the messages
that are a ClientHello with one host_name entry over all server_name extensions, that
entry neither empty nor with a NUL: its name in lower case, which for ASCII is the one
byte by byte.  For every other byte string it returns an error, and it never reads
outside its input. -/
theorem parseSNI_ok_iff (go : Go) (body : Bytes) :
    (∀ name, parseSNI go body = .ok name ↔ ∃ (hello : ClientHello) (host : Bytes),
      body = hello.encode ∧ hello.hosts = [host] ∧ host ≠ [] ∧ 0 ∉ host ∧
        name = go.toLowerBytes host ∧ (Utf8.ascii host = true → name = host.map Utf8.lowerByte)) ∧
    ((∀ name, parseSNI go body ≠ .ok name) →
      ∃ text, parseSNI go body = .error (.error text)) ∧
    parseSNI go body ≠ .error .panic := by
  have h := parseSNI_decides go body
  refine ⟨fun name => (h.ok_iff name).trans ?_, fun hno => ?_, h.no_panic⟩
  · constructor
    · rintro ⟨hello, host, hbody, hhosts, hne, hnul, rfl⟩
      exact ⟨hello, host, hbody, hhosts, hne, hnul, rfl, Utf8.toLowerBytes_ascii⟩
    · rintro ⟨hello, host, hbody, hhosts, hne, hnul, hname, -⟩
      exact ⟨hello, host, hbody, hhosts, hne, hnul, hname⟩
  · cases h.ok_or_error with
    | inl hok =>
        obtain ⟨name, hname, -⟩ := hok
        exact absurd hname (hno name)
    | inr herr => exact herr.2

end Ingress

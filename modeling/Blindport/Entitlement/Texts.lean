import Mathlib.Data.Nat.Digits.Defs
import Blindport.Entitlement.Metadata

/-!
# Blindport.Entitlement.Texts

The texts of an issued payload: each is plain, so both languages write it alike,
and each passes the check the relay and the agent make on its field.  Identifiers,
UUIDs and base64 texts pass by their types; a host name passes `ValidateClaim`
because `canonicalize_hostname` made the same checks, and an address because the
printers of both languages agree.
-/

namespace Entitlement

open Protocol Hostname

/-! ## alphabets -/

theorem utf8ByteSize_of_ascii {s : String} (h : ∀ c ∈ s.toList, c.toNat < 128) :
    s.utf8ByteSize = s.toList.length := by
  have hlist : ∀ l : List Char, (∀ c ∈ l, c.toNat < 128) →
      (String.ofList l).utf8ByteSize = l.length := by
    intro l hl
    induction l with
    | nil => rfl
    | cons c l ih =>
        have hc : c.utf8Size = 1 := by
          have := hl c List.mem_cons_self
          rw [Char.utf8Size_eq_one_iff, UInt32.le_iff_toNat_le]
          exact Nat.lt_succ_iff.mp this
        have htail := ih fun d hd => hl d (List.mem_cons_of_mem c hd)
        rw [String.ofList_cons, String.utf8ByteSize_append, String.utf8ByteSize_singleton, hc,
          htail, List.length_cons]
        omega
  have := hlist s.toList h
  rwa [String.ofList_toList] at this

theorem ascii_of_plain {s : String} (h : Json.PlainText s) : ∀ c ∈ s.toList, c.toNat < 128 := by
  intro c hc
  have := h c hc
  simp only [Json.plain, Bool.and_eq_true, decide_eq_true_eq] at this
  omega

theorem alphanumeric_range {c : Char} (h : alphanumeric c = true) :
    (97 ≤ c.toNat ∧ c.toNat ≤ 122) ∨ (48 ≤ c.toNat ∧ c.toNat ≤ 57) := by
  simp only [alphanumeric, Bool.or_eq_true, Bool.and_eq_true, decide_eq_true_eq, Char.le_def,
    UInt32.le_iff_toNat_le] at h
  exact h

theorem plain_of_alphanumeric {c : Char} (h : alphanumeric c = true) : Json.plain c = true := by
  have := alphanumeric_range h
  simp only [Json.plain, Bool.and_eq_true, decide_eq_true_eq]
  omega

/-! ## identifiers -/

theorem mem_stableID {n : Nat} {cs : List Char} (h : stableID n cs = true) {c : Char}
    (hc : c ∈ cs) : alphanumeric c = true ∨ c = '.' ∨ c = '_' ∨ c = '-' := by
  cases cs with
  | nil => simp at hc
  | cons d rest =>
      simp only [stableID, Bool.and_eq_true, List.all_eq_true, Bool.or_eq_true,
        beq_iff_eq] at h
      obtain ⟨⟨hd, -⟩, hrest⟩ := h
      cases List.mem_cons.mp hc with
      | inl e => exact Or.inl (e ▸ hd)
      | inr hc =>
          obtain ((h | h) | h) | h := hrest c hc
          · exact Or.inl h
          · exact Or.inr (Or.inl h)
          · exact Or.inr (Or.inr (Or.inl h))
          · exact Or.inr (Or.inr (Or.inr h))

theorem StableId.plain (id : StableId) : Json.PlainText id.text := by
  intro c hc
  obtain h | h | h | h := mem_stableID id.stable hc
  · exact plain_of_alphanumeric h
  · rw [h]; decide
  · rw [h]; decide
  · rw [h]; decide

theorem StableId.length_le (id : StableId) : id.text.toList.length ≤ 32 := by
  have h := id.stable
  cases htext : id.text.toList with
  | nil => simp
  | cons c rest =>
      rw [htext] at h
      simp only [stableID, Bool.and_eq_true, decide_eq_true_eq] at h
      rw [List.length_cons]
      omega

/-- The relay's check of an identifier. -/
theorem StableId.validStableID (id : StableId) : validStableID id.text = true := by
  have hsize := utf8ByteSize_of_ascii (ascii_of_plain id.plain)
  have hlen := id.length_le
  simp only [Entitlement.validStableID, Bool.and_eq_true, decide_eq_true_eq]
  exact ⟨by omega, id.stable⟩

/-- The agent's check allows longer ones. -/
theorem StableId.stable_agent (id : StableId) : stableID 63 id.text.toList = true := by
  have h := id.stable
  cases htext : id.text.toList with
  | nil => rw [htext] at h; cases h
  | cons c rest =>
      rw [htext] at h
      simp only [stableID, Bool.and_eq_true, decide_eq_true_eq] at h ⊢
      exact ⟨⟨h.1.1, by omega⟩, h.2⟩

/-! ## base64 -/

private theorem urlDigit_class : ∀ i : Fin 64,
    base64URLChar (Base64.urlDigit i) = true ∧ Base64.urlDigit i ≠ '=' ∧
      Base64.urlDigit i ≠ '.' ∧ Json.plain (Base64.urlDigit i) = true := by
  decide

theorem mem_encodeRaw_class {bs : List UInt8} {c : Char} (h : c ∈ Base64.encodeRaw bs) :
    base64URLChar c = true ∧ c ≠ '=' ∧ c ≠ '.' ∧ Json.plain c = true := by
  obtain ⟨i, hi, rfl⟩ := Base64.mem_encodeRaw h
  exact urlDigit_class ⟨i, hi⟩

theorem plain_encodeRaw (bs : List UInt8) :
    Json.PlainText (String.ofList (Base64.encodeRaw bs)) := by
  intro c hc
  rw [String.toList_ofList] at hc
  exact (mem_encodeRaw_class hc).2.2.2

theorem encodeRaw_ne_nil {bs : List UInt8} (h : bs ≠ []) : Base64.encodeRaw bs ≠ [] := by
  intro hnil
  have hlen := Base64.length_encodeRaw bs
  rw [hnil, List.length_nil] at hlen
  have := List.length_pos_iff.mpr h
  omega

/-- The relay decodes what was encoded. -/
theorem decodeRawBase64_encodeRaw {bs : List UInt8} (hne : bs ≠ []) {length : Option Nat}
    (hlen : ∀ n ∈ length, n = bs.length) :
    decodeRawBase64 (Base64.encodeRaw bs) length = some bs := by
  have hpad : '=' ∉ Base64.encodeRaw bs := fun h => (mem_encodeRaw_class h).2.1 rfl
  have hall : (Base64.encodeRaw bs).all base64URLChar = true := by
    rw [List.all_eq_true]
    exact fun c hc => (mem_encodeRaw_class hc).1
  rw [decodeRawBase64, if_neg (by simp [encodeRaw_ne_nil hne, hpad, hall])]
  cases length with
  | none => simp
  | some n => simp [hlen n rfl]

/-- And so does the agent. -/
theorem decodeCanonicalRawBase64_encodeRaw {bs : List UInt8} (hne : bs ≠ []) {length : Option Nat}
    (hlen : ∀ n ∈ length, n = bs.length) :
    decodeCanonicalRawBase64 (Base64.encodeRaw bs) length = some bs := by
  have hall : (Base64.encodeRaw bs).all base64URLChar = true := by
    rw [List.all_eq_true]
    exact fun c hc => (mem_encodeRaw_class hc).1
  rw [decodeCanonicalRawBase64, if_neg (by simp [encodeRaw_ne_nil hne, hall])]
  cases length with
  | none => simp
  | some n => simp [hlen n rfl]

/-! ## UUIDs -/

private theorem hexDigit_class : ∀ n : Fin 16,
    Uuid.isLowerHex (Uuid.hexDigit n) = true ∧ Uuid.hexDigit n ≠ '-' ∧
      Json.plain (Uuid.hexDigit n) = true ∧ (Hextet.value? (Uuid.hexDigit n)).isSome = true ∧
      (Uuid.hexDigit n).toLower = Uuid.hexDigit n := by
  decide

theorem mem_hex_class {u : Uuid} {c : Char} (h : c ∈ u.hex) :
    Uuid.isLowerHex c = true ∧ c ≠ '-' ∧ Json.plain c = true ∧
      (Hextet.value? c).isSome = true ∧ c.toLower = c := by
  obtain ⟨n, -, rfl⟩ := List.mem_map.mp h
  exact hexDigit_class n

/-- The characters of a UUID with its dashes in place. -/
theorem chars_explicit (u : Uuid) :
    ∃ a b c d e : List Char, u.chars = a ++ '-' :: (b ++ '-' :: (c ++ '-' :: (d ++ '-' :: e))) ∧
      a.length = 8 ∧ b.length = 4 ∧ c.length = 4 ∧ d.length = 4 ∧ e.length = 12 ∧
      ∀ x ∈ a ++ b ++ c ++ d ++ e, x ∈ u.hex := by
  refine ⟨u.hex.take 8, (u.hex.drop 8).take 4, (u.hex.drop 12).take 4, (u.hex.drop 16).take 4,
    u.hex.drop 20, rfl, by simp, by simp, by simp, by simp, by simp, ?_⟩
  intro x hx
  simp only [List.mem_append] at hx
  obtain (((h | h) | h) | h) | h := hx
  · exact List.mem_of_mem_take h
  · exact List.mem_of_mem_drop (List.mem_of_mem_take h)
  · exact List.mem_of_mem_drop (List.mem_of_mem_take h)
  · exact List.mem_of_mem_drop (List.mem_of_mem_take h)
  · exact List.mem_of_mem_drop h

theorem plain_uuid (u : Uuid) : Json.PlainText u.text := by
  intro x hx
  rw [Uuid.toList_text] at hx
  obtain ⟨a, b, c, d, e, hchars, -, -, -, -, -, hhex⟩ := chars_explicit u
  rw [hchars] at hx
  have hplain : ∀ y ∈ a ++ b ++ c ++ d ++ e, Json.plain y = true :=
    fun y hy => (mem_hex_class (hhex y hy)).2.2.1
  simp only [List.mem_append, List.mem_cons] at hx hplain
  have hdash : Json.plain '-' = true := by decide
  grind

theorem length_uuid (u : Uuid) : u.text.toList.length = 36 := by
  rw [Uuid.toList_text]
  obtain ⟨a, b, c, d, e, hchars, ha, hb, hc, hd, he, -⟩ := chars_explicit u
  rw [hchars]
  simp [ha, hb, hc, hd, he]

/-- A character before, at or after a dash. -/
theorem getElem?_dash {xs ys : List Char} {i : Nat} {x : Char}
    (h : (xs ++ '-' :: ys)[i]? = some x) :
    (i < xs.length ∧ x ∈ xs) ∨ (i = xs.length ∧ x = '-') ∨
      (xs.length < i ∧ ys[i - xs.length - 1]? = some x) := by
  rw [List.getElem?_append] at h
  split at h
  · rename_i hlt
    exact Or.inl ⟨hlt, List.mem_of_getElem? h⟩
  · rename_i hge
    rw [List.getElem?_cons] at h
    split at h
    · rename_i hzero
      exact Or.inr (Or.inl ⟨by omega, (Option.some_inj.mp h).symm⟩)
    · rename_i hpos
      exact Or.inr (Or.inr ⟨by omega, h⟩)

/-- The relay's check of a UUID. -/
theorem validUUID_text (u : Uuid) : validUUID u.text = true := by
  have hlen := length_uuid u
  rw [Uuid.toList_text] at hlen
  obtain ⟨a, b, c, d, e, hchars, ha, hb, hc, hd, he, hhex⟩ := chars_explicit u
  have hlower : ∀ y ∈ a ++ b ++ c ++ d ++ e, Uuid.isLowerHex y = true :=
    fun y hy => (mem_hex_class (hhex y hy)).1
  simp only [List.mem_append] at hlower
  simp only [validUUID, Bool.and_eq_true, decide_eq_true_eq, Uuid.toList_text, hlen, true_and]
  rw [List.all_eq_true]
  rintro ⟨x, i⟩ hx
  have hget := List.mem_zipIdx_iff_getElem?.mp hx
  rw [hchars] at hget
  -- where the character stands says whether it is a digit or a dash
  have hplace : (Uuid.isLowerHex x = true ∧ ¬ (i = 8 ∨ i = 13 ∨ i = 18 ∨ i = 23)) ∨
      (x = '-' ∧ (i = 8 ∨ i = 13 ∨ i = 18 ∨ i = 23)) := by
    obtain ⟨hi, hmem⟩ | ⟨hi, rfl⟩ | ⟨hi, hget⟩ := getElem?_dash hget
    · exact Or.inl ⟨hlower x (by simp [hmem]), by omega⟩
    · exact Or.inr ⟨rfl, by omega⟩
    obtain ⟨hj, hmem⟩ | ⟨hj, rfl⟩ | ⟨hj, hget⟩ := getElem?_dash hget
    · exact Or.inl ⟨hlower x (by simp [hmem]), by omega⟩
    · exact Or.inr ⟨rfl, by omega⟩
    obtain ⟨hk, hmem⟩ | ⟨hk, rfl⟩ | ⟨hk, hget⟩ := getElem?_dash hget
    · exact Or.inl ⟨hlower x (by simp [hmem]), by omega⟩
    · exact Or.inr ⟨rfl, by omega⟩
    obtain ⟨hl, hmem⟩ | ⟨hl, rfl⟩ | ⟨hl, hget⟩ := getElem?_dash hget
    · exact Or.inl ⟨hlower x (by simp [hmem]), by omega⟩
    · exact Or.inr ⟨rfl, by omega⟩
    · exact Or.inl ⟨hlower x (by simp [List.mem_of_getElem? hget]), by omega⟩
  obtain ⟨hx, hi⟩ | ⟨rfl, hi⟩ := hplace
  · simp only [if_neg hi, hx]
  · simp [if_pos hi]

/-- The agent's check of a UUID. -/
theorem isCanonicalInstanceID_text (lib : GoJson) (u : Uuid) :
    isCanonicalInstanceID lib u.text = true := by
  have hlen := length_uuid u
  have hplain := plain_uuid u
  obtain ⟨a, b, c, d, e, hchars, ha, hb, hc, hd, he, hhex⟩ := chars_explicit u
  have hclass : ∀ y ∈ a ++ b ++ c ++ d ++ e, y ≠ '-' ∧ (Hextet.value? y).isSome = true ∧
      y.toLower = y := by
    intro y hy
    obtain ⟨-, h1, -, h2, h3⟩ := mem_hex_class (hhex y hy)
    exact ⟨h1, h2, h3⟩
  have hkeep : ∀ l : List Char, (∀ y ∈ l, y ≠ '-') → l.filter (· ≠ '-') = l := by
    intro l hl
    rw [List.filter_eq_self]
    simpa using hl
  have hfilter : u.text.toList.filter (· ≠ '-') = a ++ b ++ c ++ d ++ e := by
    have hparts : ∀ y ∈ a ++ b ++ c ++ d ++ e, y ≠ '-' := fun y hy => (hclass y hy).1
    simp only [List.mem_append] at hparts
    rw [Uuid.toList_text, hchars]
    simp only [List.filter_append, List.filter_cons_of_neg, ne_eq, not_true_eq_false, decide_false,
      Bool.false_eq_true, not_false_eq_true]
    rw [hkeep a fun y hy => hparts y (by simp [hy]), hkeep b fun y hy => hparts y (by simp [hy]),
      hkeep c fun y hy => hparts y (by simp [hy]), hkeep d fun y hy => hparts y (by simp [hy]),
      hkeep e fun y hy => hparts y (by simp [hy])]
    simp
  have hlower : lib.go.toLower u.text = u.text := by
    rw [← String.toList_inj, Go.toLower, String.toList_map]
    have hid : ∀ y ∈ u.text.toList,
        (if y.toNat < 128 then y.toLower else lib.go.lowerRune y) = y := by
      intro y hy
      rw [if_pos (ascii_of_plain hplain y hy)]
      rw [Uuid.toList_text, hchars] at hy
      simp only [List.mem_append, List.mem_cons] at hy hclass
      by_cases hdash : y = '-'
      · rw [hdash]
        decide
      · simp only [hdash, false_or] at hy
        refine (hclass y ?_).2.2
        simpa [or_assoc] using hy
    conv_rhs => rw [← List.map_id u.text.toList]
    exact List.map_congr_left hid
  have hdash : ∀ i ∈ [8, 13, 18, 23], u.text.toList[i]? = some '-' := by
    intro i hi
    rw [Uuid.toList_text, hchars]
    simp only [List.mem_cons, List.not_mem_nil, or_false] at hi
    obtain rfl | rfl | rfl | rfl := hi
    · simp [ha]
    · simp [List.getElem?_append, ha, hb]
    · simp [List.getElem?_append, ha, hb, hc]
    · simp [List.getElem?_append, ha, hb, hc, hd]
  have hall : (a ++ b ++ c ++ d ++ e).all (fun y => (Hextet.value? y).isSome) = true := by
    rw [List.all_eq_true]
    exact fun y hy => (hclass y hy).2.1
  simp only [isCanonicalInstanceID, hlen, hfilter, hlower, hall,
    hdash 8 (by simp), hdash 13 (by simp), hdash 18 (by simp), hdash 23 (by simp)]
  simp [ha, hb, hc, hd, he]

/-! ## host names -/

theorem plain_of_labels {hostname : String}
    (h : (labels hostname).all hostnameLabel = true) : Json.PlainText hostname := by
  intro c hc
  rw [← ofLabels_labels hostname, ofLabels, String.toList_ofList] at hc
  cases mem_intercalate hc with
  | inl hdot => rw [hdot]; decide
  | inr hlabel =>
      obtain ⟨l, hl, hc⟩ := hlabel
      have := labelChar_of_hostnameLabel (List.all_eq_true.mp h l hl) c hc
      rw [labelChar, Bool.or_eq_true, beq_iff_eq] at this
      cases this with
      | inl h => exact plain_of_alphanumeric h
      | inr h => rw [h]; decide

theorem toLower_of_labels {go : Go} {hostname : String}
    (h : (labels hostname).all hostnameLabel = true) : go.toLower hostname = hostname := by
  have hplain := plain_of_labels h
  rw [← String.toList_inj, Go.toLower, String.toList_map]
  have hid : ∀ c ∈ hostname.toList,
      (if c.toNat < 128 then c.toLower else go.lowerRune c) = c := by
    intro c hc
    rw [if_pos (ascii_of_plain hplain c hc)]
    rw [← ofLabels_labels hostname, ofLabels, String.toList_ofList] at hc
    cases mem_intercalate hc with
    | inl hdot => rw [hdot]; decide
    | inr hlabel =>
        obtain ⟨l, hl, hc⟩ := hlabel
        have := labelChar_of_hostnameLabel (List.all_eq_true.mp h l hl) c hc
        rw [labelChar, Bool.or_eq_true, beq_iff_eq] at this
        cases this with
        | inl h =>
            have hrange := alphanumeric_range h
            refine dif_neg fun hupper => ?_
            have hge : 'A'.toNat ≤ c.toNat := UInt32.le_iff_toNat_le.mp hupper.1
            have hle : c.toNat ≤ 'Z'.toNat := UInt32.le_iff_toNat_le.mp hupper.2
            simp only [show 'A'.toNat = 65 from rfl, show 'Z'.toNat = 90 from rfl] at hge hle
            omega
        | inr h => rw [h]; decide
  conv_rhs => rw [← List.map_id hostname.toList]
  exact List.map_congr_left hid

/-- A text without scope id is an address for both languages or for none. -/
theorem parse_eq_of_percent {zoneOk zoneOk' : List Char → Bool} {cs : List Char}
    (h : '%' ∉ cs) : IpAddr.parse zoneOk cs = IpAddr.parse zoneOk' cs := by
  rw [IpAddr.parse, IpAddr.parse, if_neg h, if_neg h]

/-- A host name the backend canonicalizes is one the relay and the agent accept. -/
theorem canonicalizeHostname_spec {py : Python} {value hostname : String}
    (h : canonicalizeHostname py value = .ok hostname) (lib : GoJson) :
    validHostname lib.go hostname = true ∧ Json.PlainText hostname ∧
      hostname.toList.length ≤ 253 := by
  unfold canonicalizeHostname at h
  split at h
  · cases h
  · rename_i encoded _
    dsimp only at h
    generalize String.ofList (if (encoded.toList.map Char.toLower).getLast? = some '.' then
      (encoded.toList.map Char.toLower).dropLast else encoded.toList.map Char.toLower) = name at h
    split at h
    · cases h
    split at h
    · cases h
    split at h
    · cases h
    split at h
    · cases h
    split at h
    · cases h
    rename_i hempty hlen hip hlabels _
    obtain rfl := Except.ok.inj h
    have hall : (labels name).all hostnameLabel = true := by
      rw [Bool.not_eq_true, List.any_eq_false] at hlabels
      rw [List.all_eq_true]
      intro l hl
      have := hlabels l hl
      simp only [Bool.or_eq_true, Bool.not_eq_true', not_or, Bool.not_eq_false] at this
      exact this.2
    have hplain := plain_of_labels hall
    have hsize := utf8ByteSize_of_ascii (ascii_of_plain hplain)
    have hpercent : '%' ∉ name.toList := by
      intro hmem
      rw [← ofLabels_labels name, ofLabels, String.toList_ofList] at hmem
      cases mem_intercalate hmem with
      | inl hdot => exact absurd hdot (by decide)
      | inr hlabel =>
          obtain ⟨l, hl, hc⟩ := hlabel
          have := labelChar_of_hostnameLabel (List.all_eq_true.mp hall l hl) _ hc
          exact absurd this (by decide)
    have hparse : IpAddr.parseIP name = false := by
      have hnone : ipAddress name = none := by simpa using hip
      rw [ipAddress, @parse_eq_of_percent pyZone (fun _ => true) _ hpercent] at hnone
      rw [IpAddr.parseIP, hnone]
    refine ⟨?_, hplain, by omega⟩
    rw [validHostname, if_neg, hall]
    simp only [not_or, ne_eq, not_not]
    exact ⟨hempty, by omega, by simp [hparse], (toLower_of_labels hall).symm⟩

/-! ## addresses -/

theorem plain_v4 {ip : IPv4} {c : Char} (h : c ∈ ip.chars) : Json.plain c = true := by
  cases mem_intercalate h with
  | inl hdot => rw [hdot]; decide
  | inr h =>
      obtain ⟨l, hl, hc⟩ := h
      obtain ⟨o, -, rfl⟩ := List.mem_map.mp hl
      have hdigit := Nat.isDigit_of_mem_toDigits (by decide) (by decide) hc
      simp only [Char.isDigit, Bool.and_eq_true, decide_eq_true_eq, ge_iff_le,
        UInt32.le_iff_toNat_le] at hdigit
      have h48 : 48 ≤ c.toNat := hdigit.1
      have h57 : c.toNat ≤ 57 := hdigit.2
      simp only [Json.plain, Bool.and_eq_true, decide_eq_true_eq]
      omega

theorem length_v4_le (ip : IPv4) : ip.chars.length ≤ 16 := by
  have hoctet : ∀ t ∈ ip.octets.map IPv4.octetText, t.length ≤ 3 := by
    intro t ht
    obtain ⟨o, -, rfl⟩ := List.mem_map.mp ht
    exact Nat.toDigits_length 10 o.val 3 (by decide) (by have := o.isLt; omega)
  have := @length_intercalate_le _ '.' _ _ hoctet
  rw [List.length_map, show ip.octets.length = 4 from rfl] at this
  exact this

private theorem hexDigit_plain_text : ∀ n : Fin 16, Json.plain (Uuid.hexDigit n) = true := by
  decide

/-- What an address without scope id that is not IPv4-mapped looks like to both
verifiers. -/
theorem strIp_spec {py : Python} {addr : IpAddr} (hmapped : addr.is4In6 = false)
    (hzone : addr.zone = none) :
    Json.PlainText (py.strIp addr) ∧ (py.strIp addr).toList.length ≤ 45 ∧
      IpAddr.parseIP (py.strIp addr) = true ∧
      IpAddr.parse (fun _ => true) (py.strIp addr).toList = some addr ∧
      addr.canonicalIP = (py.strIp addr).toList ∧ addr.netipChars = (py.strIp addr).toList ∧
      ipAddress (py.strIp addr) = some addr := by
  obtain ⟨hparse, hcanonical, hnetip⟩ :=
    @IpAddr.canonical_spec py.mappedText addr hmapped hzone (fun _ => true)
  obtain ⟨hpy, -, -⟩ := @IpAddr.canonical_spec py.mappedText addr hmapped hzone pyZone
  have htext : (py.strIp addr).toList = addr.pyChars py.mappedText := by
    rw [Python.strIp, String.toList_ofList]
  refine ⟨?_, ?_, ?_, ?_, ?_, ?_, ?_⟩
  · intro c hc
    rw [htext] at hc
    cases addr with
    | v4 ip => exact plain_v4 hc
    | v6 ip zone =>
        simp only [IpAddr.is4In6, IpAddr.zone] at hmapped hzone
        simp only [IpAddr.pyChars, hmapped, hzone, Bool.false_eq_true, if_false, Option.map_none,
          Option.getD_none, List.append_nil] at hc
        obtain rfl | ⟨n, rfl⟩ := IPv6.mem_pyChars hc
        · decide
        · exact hexDigit_plain_text n
  · rw [htext]
    cases addr with
    | v4 ip =>
        have := length_v4_le ip
        simp only [IpAddr.pyChars]
        omega
    | v6 ip zone =>
        simp only [IpAddr.is4In6, IpAddr.zone] at hmapped hzone
        have := ip.length_pyChars_le
        simp only [IpAddr.pyChars, hmapped, hzone, Bool.false_eq_true, if_false, Option.map_none,
          Option.getD_none, List.append_nil]
        omega
  · rw [IpAddr.parseIP, htext, hparse]
    simp [hzone]
  · rw [htext, hparse]
  · rw [htext, hcanonical]
  · rw [htext, hnetip]
  · rw [ipAddress, htext, hpy]

/-- An address has a scope id when its text has a percent sign. -/
theorem zone_of_ipAddress {s : String} {addr : IpAddr} (h : ipAddress s = some addr) :
    addr.zone ≠ none ↔ '%' ∈ s.toList := by
  rw [ipAddress, IpAddr.parse] at h
  constructor
  · intro hzone
    by_contra hpercent
    rw [if_neg hpercent] at h
    split at h
    · obtain rfl := Option.some_inj.mp h
      exact hzone rfl
    · obtain ⟨ip, -, rfl⟩ := Option.map_eq_some_iff.mp h
      exact hzone rfl
  · intro hpercent
    rw [if_pos hpercent] at h
    dsimp only at h
    split at h
    · cases h
    · obtain ⟨ip, -, rfl⟩ := Option.map_eq_some_iff.mp h
      simp [IpAddr.zone]

/-- A scope id is printed after a percent sign. -/
theorem percent_mem_strIp {py : Python} {addr : IpAddr} (h : addr.zone ≠ none) :
    '%' ∈ (py.strIp addr).toList := by
  rw [Python.strIp, String.toList_ofList]
  cases addr with
  | v4 ip => exact absurd rfl h
  | v6 ip zone =>
      cases zone with
      | none => exact absurd rfl h
      | some z => simp [IpAddr.pyChars]

end Entitlement

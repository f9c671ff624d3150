import Mathlib.Data.List.Basic
import Mathlib.Data.List.Forall2
import Blindport.Data.Bits

/-!
# Blindport.Text.Crockford

`core/crockford.py` and the helpers of `core/tokens.py` over ASCII text: the account
tokens, which their owners type as they like.

`Variant s t` says that `t` is a way to write `s`: in other letter case, with spaces and
hyphens anywhere, and with the letters that look like `0` and `1`.  `token_codec` says
that none of this matters.
-/

namespace Crockford

/-! ## the codec -/

/-- `ALPHABET`. -/
def alphabet : List Char := "0123456789ABCDEFGHJKMNPQRSTVWXYZ".toList

/-- `ALPHABET[i]`. -/
def digit (i : Nat) : Char := alphabet.getD i '0'

/-- `DECODE_MAP`. -/
def decodeMap (c : Char) : Option Nat :=
  if c = 'I' ∨ c = 'i' ∨ c = 'L' ∨ c = 'l' then some 1
  else if c = 'O' ∨ c = 'o' then some 0
  else alphabet.findIdx? fun a => c = a ∨ c = a.toLower

/-- The inner loop of `encode`: the digits of the full groups, and how many bits are
left. -/
def drain (value : Nat) : Nat → List Char × Nat
  | bits + 5 =>
      let (out, rest) := drain value bits
      (digit ((value >>> bits) &&& 31) :: out, rest)
  | bits => ([], bits)

/-- The loop of `encode`. -/
def encodeFrom (value bits : Nat) : List UInt8 → List Char
  | [] => if 0 < bits then [digit ((value <<< (5 - bits)) &&& 31)] else []
  | byte :: data =>
      let value := value <<< 8 ||| byte.toNat
      let (out, bits) := drain value (bits + 8)
      out ++ encodeFrom value bits data

/-- `encode`. -/
def encode (data : List UInt8) : List Char := encodeFrom 0 0 data

/-- The loop of `decode`; the error is the character it cannot read. -/
def decodeFrom (value bits : Nat) : List Char → Except Char (List UInt8)
  | [] => .ok []
  | c :: cs =>
      match decodeMap c with
      | none => .error c
      | some d =>
          let value := value <<< 5 ||| d
          if 8 ≤ bits + 5 then
            match decodeFrom value (bits - 3) cs with
            | .ok out => .ok (UInt8.ofNat ((value >>> (bits - 3)) &&& 255) :: out)
            | .error c => .error c
          else decodeFrom value (bits + 5) cs

/-- A hyphen or a space. -/
def isSeparator (c : Char) : Bool := c = '-' ∨ c = ' '

/-- `s.replace("-", "").replace(" ", "")`. -/
def clean (s : List Char) : List Char := (s.filter (· ≠ '-')).filter (· ≠ ' ')

/-- `decode`. -/
def decode (s : List Char) : Except Char (List UInt8) := decodeFrom 0 0 (clean s)

/-- `s.replace(old, new)` of single characters. -/
def replace (old new : Char) (s : List Char) : List Char :=
  s.map fun c => if c = old then new else c

/-- `normalize`. -/
def normalize (token : List Char) : List Char :=
  replace 'O' '0' (replace 'L' '1' (replace 'I' '1' ((clean token).map Char.toUpper)))

/-- `format_grouped`. -/
def formatGrouped (token : List Char) (groupSize : Int) (sep : List Char) : List Char :=
  if groupSize ≤ 0 then token
  else
    let size := groupSize.toNat
    sep.intercalate ((List.range' 0 ((token.length + size - 1) / size) size).map fun i =>
      (token.drop i).take size)

/-! ## account tokens -/

/-- `generate_token`: the token as it is shown, and as it is hashed. -/
def generateToken (raw : List UInt8) (groupSize : Int) : List Char × List Char :=
  (formatGrouped (encode raw) groupSize ['-'], normalize (encode raw))

/-- `verify_token`; `hashToken` is the keyed hash. -/
def verifyToken (hashToken : List Char → String) (provided : List Char) (storedHash : String) :
    Bool :=
  hashToken (normalize provided) = storedHash

/-! ## variants -/

/-- The letters that are read as a digit. -/
def lookAlikes : Char → List Char
  | '0' => ['O', 'o']
  | '1' => ['I', 'i', 'L', 'l']
  | _ => []

/-- The ways to write one character of a token. -/
def writings (c : Char) : List Char := c :: c.toLower :: lookAlikes c

/-- A way to write a token. -/
inductive Variant : List Char → List Char → Prop where
  | nil : Variant [] []
  | separator {s t : List Char} {c : Char} (hsep : isSeparator c = true) (h : Variant s t) :
      Variant s (c :: t)
  | writing {s t : List Char} {c c' : Char} (hc : c' ∈ writings c) (h : Variant s t) :
      Variant (c :: s) (c' :: t)

theorem Variant.refl (s : List Char) : Variant s s := by
  induction s with
  | nil => exact .nil
  | cons c s ih => exact .writing List.mem_cons_self ih

theorem Variant.separators {s t sep : List Char} (hsep : ∀ c ∈ sep, isSeparator c = true)
    (h : Variant s t) : Variant s (sep ++ t) := by
  induction sep with
  | nil => exact h
  | cons c sep ih =>
      have hrest := ih fun x hx => hsep x (List.mem_cons_of_mem c hx)
      exact .separator (hsep c List.mem_cons_self) hrest

theorem Variant.append {s s' t t' : List Char} (h : Variant s t) (h' : Variant s' t') :
    Variant (s ++ s') (t ++ t') := by
  induction h with
  | nil => exact h'
  | separator hsep _ ih => exact .separator hsep ih
  | writing hc _ ih => exact .writing hc ih

/-- Pieces joined by separators. -/
theorem Variant.intercalate {sep : List Char} (hsep : ∀ c ∈ sep, isSeparator c = true)
    (pieces : List (List Char)) : Variant pieces.flatten (sep.intercalate pieces) := by
  induction pieces with
  | nil => exact .nil
  | cons p ps ih =>
      cases ps with
      | nil =>
          rw [List.intercalate_singleton, List.flatten_cons, List.flatten_nil, List.append_nil]
          exact .refl p
      | cons q qs =>
          rw [List.intercalate_cons_cons, List.flatten_cons, List.append_assoc]
          exact (Variant.refl p).append (ih.separators hsep)

/-- Slices of one size put together again. -/
theorem flatten_slices (token : List Char) (size start count : Nat) :
    ((List.range' start count size).map fun i => (token.drop i).take size).flatten =
      (token.drop start).take (count * size) := by
  induction count generalizing start with
  | zero => simp
  | succ count ih =>
      rw [List.range'_succ, List.map_cons, List.flatten_cons, ih, ← List.drop_drop,
        Nat.succ_mul, Nat.add_comm (count * size), List.take_add]

/-- A grouped token is a variant of it, whatever the size of the groups. -/
theorem variant_formatGrouped (token : List Char) (groupSize : Int) {sep : List Char}
    (hsep : ∀ c ∈ sep, isSeparator c = true) :
    Variant token (formatGrouped token groupSize sep) := by
  unfold formatGrouped
  split
  · exact .refl token
  · rename_i hsize
    have hpos : 0 < groupSize.toNat := by omega
    have hjoin := Variant.intercalate hsep ((List.range' 0
      ((token.length + groupSize.toNat - 1) / groupSize.toNat) groupSize.toNat).map fun i =>
        (token.drop i).take groupSize.toNat)
    rw [flatten_slices, List.drop_zero] at hjoin
    -- the slices cover the whole token
    have hall : token.length ≤
        (token.length + groupSize.toNat - 1) / groupSize.toNat * groupSize.toNat := by
      have hdiv := Nat.div_add_mod (token.length + groupSize.toNat - 1) groupSize.toNat
      have hmod := Nat.mod_lt (token.length + groupSize.toNat - 1) hpos
      rw [Nat.mul_comm] at hdiv
      omega
    rw [List.take_of_length_le hall] at hjoin
    exact hjoin

/-! ## the alphabet -/

/-- The folding of one character by `normalize`. -/
def fold (c : Char) : Char :=
  let c := c.toUpper
  let c := if c = 'I' then '1' else c
  let c := if c = 'L' then '1' else c
  if c = 'O' then '0' else c

theorem normalize_eq (token : List Char) : normalize token = (clean token).map fold := by
  simp only [normalize, replace, List.map_map]
  rfl

theorem clean_eq (s : List Char) : clean s = s.filter fun c => !isSeparator c := by
  rw [clean, List.filter_filter]
  congr 1
  funext c
  simp [isSeparator, Bool.and_comm]

private theorem writings_all : ∀ d : Fin 32, (writings (digit d)).all fun c =>
    decodeMap c = some d.val ∧ fold c = digit d ∧ isSeparator c = false := by
  decide

private theorem writings_spec (d : Fin 32) {c : Char} (hc : c ∈ writings (digit d)) :
    decodeMap c = some d.val ∧ fold c = digit d ∧ isSeparator c = false := by
  have h := List.all_eq_true.mp (writings_all d) c hc
  rwa [decide_eq_true_eq] at h

/-- However a digit is written, it is read as that digit. -/
theorem decodeMap_writing {d : Nat} (hd : d < 32) {c : Char} (hc : c ∈ writings (digit d)) :
    decodeMap c = some d := (writings_spec ⟨d, hd⟩ hc).1

theorem fold_writing {d : Nat} (hd : d < 32) {c : Char} (hc : c ∈ writings (digit d)) :
    fold c = digit d := (writings_spec ⟨d, hd⟩ hc).2.1

theorem isSeparator_writing {d : Nat} (hd : d < 32) {c : Char} (hc : c ∈ writings (digit d)) :
    isSeparator c = false := (writings_spec ⟨d, hd⟩ hc).2.2

/-- A text over the alphabet. -/
def OfDigits (ds : List Nat) (s : List Char) : Prop := s = ds.map digit ∧ ∀ d ∈ ds, d < 32

/-- What is left of a variant without its separators. -/
theorem Variant.clean {s t : List Char} (h : Variant s t) {ds : List Nat} (hs : OfDigits ds s) :
    List.Forall₂ (fun d c => c ∈ writings (digit d)) ds (clean t) := by
  rw [clean_eq]
  induction h generalizing ds with
  | nil =>
      rw [List.map_eq_nil_iff.mp hs.1.symm]
      exact .nil
  | separator hsep h ih =>
      rw [List.filter_cons_of_neg (by simp [hsep])]
      exact ih hs
  | @writing s t c c' hc h ih =>
      obtain ⟨heq, hlt⟩ := hs
      cases ds with
      | nil => contradiction
      | cons d ds =>
          rw [List.map_cons, List.cons.injEq] at heq
          obtain ⟨rfl, heq⟩ := heq
          have hd := hlt d List.mem_cons_self
          rw [List.filter_cons_of_pos (by simp [isSeparator_writing hd hc])]
          exact .cons hc (ih ⟨heq, fun x hx => hlt x (List.mem_cons_of_mem d hx)⟩)

/-- Every variant has the normal form of the text. -/
theorem Variant.normalize {s t : List Char} (h : Variant s t) {ds : List Nat}
    (hs : OfDigits ds s) : normalize t = s := by
  have hclean := h.clean hs
  rw [normalize_eq, hs.1]
  have hlt := hs.2
  clear hs h
  generalize Crockford.clean t = cs at hclean
  induction hclean with
  | nil => rfl
  | cons hc _ ih =>
      rw [List.map_cons, List.map_cons, fold_writing (hlt _ List.mem_cons_self) hc,
        ih fun x hx => hlt x (List.mem_cons_of_mem _ hx)]

/-! ## the bits -/

theorem drain_spec (value bits : Nat) : ∃ ds : List Nat, ∃ rest,
    drain value bits = (ds.map digit, rest) ∧ rest < 5 ∧ (∀ d ∈ ds, d < 32) ∧
      Bits.groups 5 ds ++ Bits.ofNat rest value = Bits.ofNat bits value := by
  induction bits using Nat.strong_induction_on with
  | _ bits ih =>
      by_cases hfull : 5 ≤ bits
      · obtain ⟨low, rfl⟩ := Nat.exists_eq_add_of_le' hfull
        obtain ⟨ds, rest, heq, hrest, hlt, hbits⟩ := ih low (by omega)
        refine ⟨((value >>> low) &&& 31) :: ds, rest, ?_, hrest, ?_, ?_⟩
        · rw [drain, heq]
          rfl
        · intro d hd
          cases List.mem_cons.mp hd with
          | inl hd => rw [hd]; exact Nat.lt_of_le_of_lt Nat.and_le_right (by decide)
          | inr hd => exact hlt d hd
        · have hmask := Bits.ofNat_mask 5 (value >>> low)
          rw [Bits.groups_cons, List.append_assoc, hbits, Nat.add_comm low, Bits.ofNat_add]
          rw [show (31 : Nat) = 2 ^ 5 - 1 from rfl, hmask]
      · have hlt : bits < 5 := Nat.lt_of_not_le hfull
        refine ⟨[], bits, ?_, hlt, by simp, rfl⟩
        match bits, hlt with
        | 0, _ | 1, _ | 2, _ | 3, _ | 4, _ => rfl

/-- The digits of `encode` are the bits of the bytes, in groups of five, with less than
five zeros behind them. -/
theorem encodeFrom_spec (data : List UInt8) (value bits : Nat) (hbits : bits < 5) :
    ∃ ds pad, OfDigits ds (encodeFrom value bits data) ∧ pad.length < 5 ∧
      Bits.groups 5 ds =
        Bits.ofNat bits value ++ Bits.groups 8 (data.map UInt8.toNat) ++ pad := by
  induction data generalizing value bits with
  | nil =>
      rw [encodeFrom, List.map_nil, Bits.groups_nil, List.append_nil]
      split
      · refine ⟨[(value <<< (5 - bits)) &&& 31], List.replicate (5 - bits) false, ⟨rfl, ?_⟩, ?_, ?_⟩
        · intro d hd
          rw [List.mem_singleton.mp hd]
          exact Nat.lt_of_le_of_lt Nat.and_le_right (by decide)
        · rw [List.length_replicate]
          omega
        · have hmask := Bits.ofNat_mask 5 (value <<< (5 - bits))
          have hpad := Bits.ofNat_shiftLeft bits (5 - bits) value
          rw [show bits + (5 - bits) = 5 by omega] at hpad
          rw [Bits.groups_cons, Bits.groups_nil, List.append_nil,
            show (31 : Nat) = 2 ^ 5 - 1 from rfl, hmask, hpad]
      · rename_i hzero
        obtain rfl : bits = 0 := by omega
        exact ⟨[], [], ⟨rfl, by simp⟩, by decide, rfl⟩
  | cons byte data ih =>
      obtain ⟨ds, rest, hdrain, hrest, hlt, hhead⟩ :=
        drain_spec (value <<< 8 ||| byte.toNat) (bits + 8)
      obtain ⟨es, pad, hes, hpad, htail⟩ := ih (value <<< 8 ||| byte.toNat) rest hrest
      refine ⟨ds ++ es, pad, ⟨?_, ?_⟩, hpad, ?_⟩
      · rw [encodeFrom, hdrain, List.map_append, ← hes.1]
      · intro d hd
        cases List.mem_append.mp hd with
        | inl hd => exact hlt d hd
        | inr hd => exact hes.2 d hd
      · rw [Bits.groups_append, htail, ← List.append_assoc, ← List.append_assoc, hhead,
          Bits.ofNat_shiftIn byte.toNat_lt, List.map_cons, Bits.groups_cons]
        simp only [List.append_assoc]

/-- The bytes of `decode` are the bits of the digits, in groups of eight, as far as they
go. -/
theorem decodeFrom_spec {ds : List Nat} {cs : List Char} (hlt : ∀ d ∈ ds, d < 32)
    (h : List.Forall₂ (fun d c => c ∈ writings (digit d)) ds cs) (value bits : Nat)
    (hbits : bits < 8) :
    ∃ out rest, decodeFrom value bits cs = .ok out ∧ rest.length < 8 ∧
      Bits.groups 8 (out.map UInt8.toNat) ++ rest = Bits.ofNat bits value ++ Bits.groups 5 ds := by
  induction h generalizing value bits with
  | nil =>
      refine ⟨[], Bits.ofNat bits value, rfl, ?_, ?_⟩
      · rw [Bits.length_ofNat]
        exact hbits
      · rw [Bits.groups_nil, List.append_nil]
        rfl
  | @cons d c ds cs hc _ ih =>
      have hd := hlt d List.mem_cons_self
      have hstep := Bits.ofNat_shiftIn (w := bits) (k := 5) (n := value) hd
      rw [decodeFrom, decodeMap_writing hd hc]
      simp only
      split
      · rename_i hfull
        obtain ⟨out, rest, hout, hrest, hgroups⟩ :=
          ih (fun x hx => hlt x (List.mem_cons_of_mem d hx)) (value <<< 5 ||| d) (bits - 3)
            (by omega)
        rw [hout]
        refine ⟨_, rest, rfl, hrest, ?_⟩
        have hsplit := Bits.ofNat_add 8 (bits - 3) (value <<< 5 ||| d)
        rw [show 8 + (bits - 3) = bits + 5 by omega, hstep] at hsplit
        have hbyte : (UInt8.ofNat (((value <<< 5 ||| d) >>> (bits - 3)) &&& 255)).toNat =
            ((value <<< 5 ||| d) >>> (bits - 3)) &&& (2 ^ 8 - 1) :=
          UInt8.toNat_ofNat_of_lt' (Nat.lt_of_le_of_lt Nat.and_le_right (by decide))
        rw [List.map_cons, Bits.groups_cons, hbyte, Bits.ofNat_mask, List.append_assoc, hgroups,
          ← List.append_assoc, ← hsplit, Bits.groups_cons, List.append_assoc]
      · obtain ⟨out, rest, hout, hrest, hgroups⟩ :=
          ih (fun x hx => hlt x (List.mem_cons_of_mem d hx)) (value <<< 5 ||| d) (bits + 5)
            (by omega)
        refine ⟨out, rest, hout, hrest, ?_⟩
        rw [hgroups, hstep, Bits.groups_cons, List.append_assoc]

/-- The text of bytes is over the alphabet. -/
theorem encode_ofDigits (data : List UInt8) : ∃ ds, OfDigits ds (encode data) := by
  obtain ⟨ds, -, hds, -, -⟩ := encodeFrom_spec data 0 0 (by decide)
  exact ⟨ds, hds⟩

/-- Every variant of the text of bytes is read as the bytes. -/
theorem decode_variant {data : List UInt8} {t : List Char} (h : Variant (encode data) t) :
    decode t = .ok data := by
  obtain ⟨ds, pad, hds, hpad, hgroups⟩ := encodeFrom_spec data 0 0 (by decide)
  obtain ⟨out, rest, hout, hrest, hbytes⟩ := decodeFrom_spec hds.2 (h.clean hds) 0 0 (by decide)
  rw [hgroups, ← List.append_assoc] at hbytes
  rw [decode, hout]
  have hbyte : ∀ bs : List UInt8, ∀ d ∈ bs.map UInt8.toNat, d < 2 ^ 8 := by
    intro bs d hd
    obtain ⟨b, -, rfl⟩ := List.mem_map.mp hd
    exact b.toNat_lt
  have hsame := Bits.regrouped (hbyte out) (hbyte data) hrest (Nat.lt_trans hpad (by decide)) hbytes
  rw [List.map_injective_iff.mpr (fun a b hab => UInt8.toNat_inj.mp hab) hsame]

theorem normalize_variant {data : List UInt8} {t : List Char} (h : Variant (encode data) t) :
    normalize t = encode data := by
  obtain ⟨ds, hds⟩ := encode_ofDigits data
  exact h.normalize hds

/-! ## normal forms -/

private theorem fold_spec : ∀ n : Fin 128,
    fold (fold (Char.ofNat n)) = fold (Char.ofNat n) ∧
      (isSeparator (Char.ofNat n) = false → isSeparator (fold (Char.ofNat n)) = false) := by
  decide +kernel

/-- A text of ASCII characters. -/
def Ascii (s : List Char) : Prop := ∀ c ∈ s, c.toNat < 128

theorem fold_ascii {c : Char} (hc : c.toNat < 128) :
    fold (fold c) = fold c ∧ (isSeparator c = false → isSeparator (fold c) = false) := by
  have h := fold_spec ⟨c.toNat, hc⟩
  rwa [Char.ofNat_toNat] at h

theorem normalize_idem {s : List Char} (hs : Ascii s) : normalize (normalize s) = normalize s := by
  have hkeep : ∀ c ∈ clean s, c.toNat < 128 ∧ isSeparator c = false := by
    intro c hc
    rw [clean_eq, List.mem_filter, Bool.not_eq_true'] at hc
    exact ⟨hs c hc.1, hc.2⟩
  have hclean : clean ((clean s).map fold) = (clean s).map fold := by
    rw [clean_eq ((clean s).map fold), List.filter_eq_self]
    intro c hc
    obtain ⟨x, hx, rfl⟩ := List.mem_map.mp hc
    obtain ⟨hascii, hsep⟩ := hkeep x hx
    rw [(fold_ascii hascii).2 hsep, Bool.not_false]
  have hfold : ((clean s).map fold).map fold = (clean s).map fold := by
    rw [List.map_map]
    apply List.map_congr_left
    intro c hc
    rw [Function.comp_apply, (fold_ascii (hkeep c hc).1).1]
  rw [normalize_eq (normalize s), normalize_eq s, hclean, hfold]

/-- **Account tokens.**  The bytes of a token come back from its text, however it is
written: grouped in any way, in any letter case, with spaces and hyphens, and with the
letters that look like digits.  All its variants have one normal form, which no other
bytes share. -/
theorem token_codec (data : List UInt8) :
    decode (encode data) = .ok data ∧
    (∀ t, Variant (encode data) t → decode t = .ok data ∧ normalize t = encode data) ∧
    (∀ groupSize sep, (∀ c ∈ sep, isSeparator c = true) →
      Variant (encode data) (formatGrouped (encode data) groupSize sep)) ∧
    (∀ t, Ascii t → normalize (normalize t) = normalize t) ∧
    (∀ data' t t', data' ≠ data → Variant (encode data) t → Variant (encode data') t' →
      normalize t' ≠ normalize t) ∧
    (∀ hashToken groupSize, Variant (encode data) (generateToken data groupSize).1 ∧
      ∀ t, Variant (encode data) t →
        verifyToken hashToken t (hashToken (generateToken data groupSize).2) = true) := by
  have hself := Variant.refl (encode data)
  refine ⟨decode_variant hself, fun t ht => ⟨decode_variant ht, normalize_variant ht⟩, ?_, ?_, ?_,
    ?_⟩
  · intro groupSize sep hsep
    exact variant_formatGrouped (encode data) groupSize hsep
  · intro t ht
    exact normalize_idem ht
  · intro data' t t' hne ht ht' hsame
    rw [normalize_variant ht, normalize_variant ht'] at hsame
    -- equal texts are read as the same bytes
    have hread : decode (encode data) = .ok data' := decode_variant (hsame ▸ Variant.refl _)
    rw [decode_variant hself] at hread
    exact hne (Except.ok.inj hread).symm
  · intro hashToken groupSize
    constructor
    · apply variant_formatGrouped
      intro c hc
      rw [List.mem_singleton.mp hc]
      rfl
    · intro t ht
      rw [verifyToken, decide_eq_true_eq, normalize_variant ht]
      exact congrArg hashToken (normalize_variant hself).symm

/-- Five bytes in groups of four, with letters for the two digits that have some. -/
theorem token_codec_sample :
    encode [0, 68, 50, 20, 199] = "01234567".toList ∧
    formatGrouped "01234567".toList 4 ['-'] = "0123-4567".toList ∧
    decode "oI23 4567".toList = .ok [0, 68, 50, 20, 199] := by
  have hvariant : Variant (encode [0, 68, 50, 20, 199]) "oI23 4567".toList :=
    .writing (by decide) (.writing (by decide) (.writing (by decide) (.writing (by decide)
      (.separator rfl (.writing (by decide) (.writing (by decide) (.writing (by decide)
        (.writing (by decide) .nil))))))))
  exact ⟨by decide, by decide, ((token_codec [0, 68, 50, 20, 199]).2.1 _ hvariant).1⟩

end Crockford

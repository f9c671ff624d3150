import Mathlib.Data.List.Induction
import Mathlib.Data.List.TakeWhile
import Blindport.Text.IPv6
import Blindport.Wire.Bytes

/-!
# Blindport.Text.HostPort

`net.SplitHostPort`, the decimal ports behind it, and `netip.Addr` as bytes.  What
is joined is split again (`splitHostPort_plain`, `splitHostPort_bracketed`), and an
address is read back from its bytes (`addrFromSlice_asSlice`).
-/

/-! ## the last colon -/

namespace HostPort

/-- What is before and after the last `c`. -/
def cutLast (c : Char) : List Char → Option (List Char × List Char)
  | [] => none
  | x :: xs =>
      match cutLast c xs with
      | some (before, after) => some (x :: before, after)
      | none => if x = c then some ([], xs) else none

theorem cutLast_eq_none {c : Char} {cs : List Char} (h : c ∉ cs) : cutLast c cs = none := by
  induction cs with
  | nil => rfl
  | cons x xs ih =>
      rw [List.mem_cons, not_or] at h
      rw [cutLast, ih h.2]
      exact if_neg (Ne.symm h.1)

theorem cutLast_append {c : Char} (before : List Char) {after : List Char} (h : c ∉ after) :
    cutLast c (before ++ c :: after) = some (before, after) := by
  induction before with
  | nil => rw [List.nil_append, cutLast, cutLast_eq_none h]; exact if_pos rfl
  | cons x xs ih => rw [List.cons_append, cutLast, ih]

/-- What is before the last colon, and after it. -/
theorem split_colon {a b c d : List Char} (hb : ':' ∉ b) (hd : ':' ∉ d)
    (h : a ++ ':' :: b = c ++ ':' :: d) : a = c ∧ b = d := by
  have hcut := congrArg (cutLast ':') h
  rw [cutLast_append a hb, cutLast_append c hd] at hcut
  exact Prod.mk.inj (Option.some.inj hcut)

theorem colon_not_mem_repr (n : Nat) : ':' ∉ (Nat.repr n).toList := by
  intro h
  rw [Nat.toList_repr] at h
  have := Nat.isDigit_of_mem_toDigits (by decide) (by decide) h
  exact absurd this (by decide)

/-- A number is known by its digits. -/
theorem repr_injective {m n : Nat} (h : (Nat.repr m).toList = (Nat.repr n).toList) : m = n := by
  rw [Nat.toList_repr, Nat.toList_repr] at h
  have hvalue := congrArg (Nat.ofDigitChars 10 · 0) h
  simp only [Nat.ofDigitChars_toDigits (Nat.lt_of_sub_eq_succ rfl) (Nat.le_refl 10)] at hvalue
  exact hvalue

/-! ## splitting -/

/-- `net.SplitHostPort`. -/
def splitHostPort (hostport : List Char) : Except String (List Char × List Char) :=
  match cutLast ':' hostport with
  | none => .error "missing port in address"
  | some (before, port) =>
      if hostport.head? = some '[' then
        if ']' ∉ hostport then .error "missing ']' in address"
        else
          -- `hostport[:end]` and `hostport[end+1:]` of the first bracket
          let upTo := hostport.takeWhile (· ≠ ']')
          let behind := hostport.drop (upTo.length + 1)
          if upTo.length + 1 = hostport.length then .error "missing port in address"
          else if upTo.length + 1 = before.length then
            if '[' ∈ hostport.drop 1 then .error "unexpected '[' in address"
            else if ']' ∈ behind then .error "unexpected ']' in address"
            else .ok (upTo.drop 1, port)
          else if behind.head? = some ':' then .error "too many colons in address"
          else .error "missing port in address"
      else if ':' ∈ before then .error "too many colons in address"
      else if '[' ∈ hostport then .error "unexpected '[' in address"
      else if ']' ∈ hostport then .error "unexpected ']' in address"
      else .ok (before, port)

/-- A text without the characters that `SplitHostPort` looks for. -/
def Plain (cs : List Char) : Prop := ':' ∉ cs ∧ '[' ∉ cs ∧ ']' ∉ cs

/-- A host without colons is split off as it is. -/
theorem splitHostPort_plain {host port : List Char} (hhost : Plain host) (hport : Plain port) :
    splitHostPort (host ++ ':' :: port) = .ok (host, port) := by
  obtain ⟨hcolon, hopen, hclose⟩ := hhost
  obtain ⟨hcolon', hopen', hclose'⟩ := hport
  have hhead : (host ++ ':' :: port).head? ≠ some '[' := by
    cases host with
    | nil => simp
    | cons x xs =>
        rw [List.mem_cons, not_or] at hopen
        simpa using Ne.symm hopen.1
  rw [splitHostPort, cutLast_append host hcolon']
  simp only [if_neg hhead, if_neg hcolon]
  rw [if_neg (by simp [hopen, hopen']), if_neg (by simp [hclose, hclose'])]

/-- A host in brackets is split off without them. -/
theorem splitHostPort_bracketed {host port : List Char} (hopen : '[' ∉ host) (hclose : ']' ∉ host)
    (hport : Plain port) :
    splitHostPort ('[' :: host ++ ']' :: ':' :: port) = .ok (host, port) := by
  obtain ⟨hcolon', hopen', hclose'⟩ := hport
  have hcut : cutLast ':' ('[' :: host ++ ']' :: ':' :: port) =
      some ('[' :: host ++ [']'], port) := by
    have happ : '[' :: host ++ ']' :: ':' :: port = ('[' :: host ++ [']']) ++ ':' :: port := by simp
    rw [happ, cutLast_append _ hcolon']
  have htake : ('[' :: host ++ ']' :: ':' :: port).takeWhile (fun c => decide (c ≠ ']')) =
      '[' :: host := by
    rw [List.takeWhile_append_of_pos]
    · simp
    · intro c hc
      rw [List.mem_cons] at hc
      rw [decide_eq_true_eq]
      rintro rfl
      cases hc with
      | inl hc => exact absurd hc (by decide)
      | inr hc => exact hclose hc
  have hdrop : ('[' :: host ++ ']' :: ':' :: port).drop (('[' :: host).length + 1) =
      ':' :: port := by
    have happ : '[' :: host ++ ']' :: ':' :: port = ('[' :: host ++ [']']) ++ ':' :: port := by simp
    rw [happ]
    exact List.drop_left' (by simp)
  rw [splitHostPort, hcut]
  simp only [htake, hdrop]
  rw [if_pos (by rfl), if_neg (by simp), if_neg (by simp), if_pos (by simp), if_neg
    (by simp [hopen, hopen']), if_neg (by simp [hclose']), List.drop_one, List.tail_cons]

/-! ## ports -/

/-- `strconv.ParseUint(value, 10, 16)`. -/
def parseUint16 (cs : List Char) : Option Nat :=
  if cs = [] ∨ cs.all Char.isDigit = false then none
  else
    let n := Nat.ofDigitChars 10 cs 0
    if n < 2 ^ 16 then some n else none

theorem parseUint16_lt {cs : List Char} {n : Nat} (h : parseUint16 cs = some n) : n < 2 ^ 16 := by
  simp only [parseUint16] at h
  split at h
  · contradiction
  · split at h
    · rename_i hlt
      rw [← Option.some.inj h]
      exact hlt
    · contradiction

/-- What `strconv.FormatUint` prints is read back. -/
theorem parseUint16_toDigits {n : Nat} (h : n < 2 ^ 16) :
    parseUint16 (Nat.toDigits 10 n) = some n := by
  have hvalue : Nat.ofDigitChars 10 (Nat.toDigits 10 n) 0 = n :=
    Nat.ofDigitChars_toDigits (by decide) (by decide)
  have hdigits : ¬(Nat.toDigits 10 n = [] ∨ (Nat.toDigits 10 n).all Char.isDigit = false) := by
    rintro (hnil | hall)
    · exact Nat.toDigits_ne_nil hnil
    · rw [List.all_eq_false] at hall
      obtain ⟨c, hc, hnot⟩ := hall
      exact hnot (Nat.isDigit_of_mem_toDigits (by decide) (by decide) hc)
  simp only [parseUint16, if_neg hdigits, hvalue, if_pos h]

theorem digitChar_of_isDigit {c : Char} (h : c.isDigit = true) :
    c.toNat - '0'.toNat < 10 ∧ Nat.digitChar (c.toNat - '0'.toNat) = c := by
  have hrange : 48 ≤ c.toNat ∧ c.toNat ≤ 57 := by
    simpa [Char.isDigit, UInt32.le_iff_toNat_le] using h
  have hall : ∀ k : Fin 10, Nat.digitChar k = Char.ofNat (48 + k) := by decide
  have hlt : c.toNat - '0'.toNat < 10 := by
    have hzero : '0'.toNat = 48 := rfl
    omega
  refine ⟨hlt, ?_⟩
  rw [hall ⟨c.toNat - '0'.toNat, hlt⟩]
  have hsum : 48 + (c.toNat - '0'.toNat) = c.toNat := by
    have hzero : '0'.toNat = 48 := rfl
    omega
  simp only [hsum, Char.ofNat_toNat]

/-- A decimal without a leading zero is what its value prints as. -/
theorem toDigits_ofDigitChars {cs : List Char} (hne : cs ≠ [])
    (hdigit : ∀ c ∈ cs, c.isDigit = true) (hlead : cs.head? = some '0' → cs.length = 1) :
    Nat.toDigits 10 (Nat.ofDigitChars 10 cs 0) = cs := by
  induction cs using List.reverseRecOn with
  | nil => contradiction
  | append_singleton cs c ih =>
      obtain ⟨hlt, hchar⟩ := digitChar_of_isDigit (hdigit c (by simp))
      rw [Nat.ofDigitChars_append, Nat.ofDigitChars_cons, Nat.ofDigitChars_nil]
      by_cases hnil : cs = []
      · subst hnil
        rw [Nat.ofDigitChars_nil, Nat.mul_zero, Nat.zero_add, Nat.toDigits_of_lt_base hlt, hchar,
          List.nil_append]
      · have hhead : (cs ++ [c]).head? = cs.head? := by
          cases cs with
          | nil => contradiction
          | cons d cs => rfl
        have hnonzero : cs.head? ≠ some '0' := by
          intro hzero
          have hone := hlead (hhead.trans hzero)
          rw [List.length_append, List.length_singleton] at hone
          exact hnil (List.length_eq_zero_iff.mp (by omega))
        have hinit := ih hnil (fun d hd => hdigit d (List.mem_append_left _ hd))
          fun hzero => absurd hzero hnonzero
        have hpos : 0 < Nat.ofDigitChars 10 cs 0 := by
          by_contra hzero
          rw [Nat.le_zero.mp (Nat.le_of_not_lt hzero), Nat.toDigits_zero] at hinit
          exact hnonzero (by rw [← hinit]; rfl)
        rw [← Nat.toDigits_append_toDigits (by decide) hpos hlt, hinit,
          Nat.toDigits_of_lt_base hlt, hchar]

/-- What `strconv.ParseUint` reads is what is printed, unless it has a leading zero. -/
theorem eq_toDigits_of_parseUint16 {cs : List Char} {n : Nat} (h : parseUint16 cs = some n)
    (hlead : cs.head? = some '0' → cs.length = 1) : cs = Nat.toDigits 10 n := by
  simp only [parseUint16] at h
  split at h
  · contradiction
  · rename_i hdigits
    rw [not_or, Bool.not_eq_false, List.all_eq_true] at hdigits
    split at h
    · rw [← Option.some.inj h, toDigits_ofDigitChars hdigits.1 hdigits.2 hlead]
    · contradiction

theorem plain_toDigits (n : Nat) : Plain (Nat.toDigits 10 n) := by
  have hdigit : ∀ c ∈ Nat.toDigits 10 n, c.isDigit = true := fun c hc =>
    Nat.isDigit_of_mem_toDigits (by decide) (by decide) hc
  refine ⟨fun h => ?_, fun h => ?_, fun h => ?_⟩
  · exact absurd (hdigit _ h) (by decide)
  · exact absurd (hdigit _ h) (by decide)
  · exact absurd (hdigit _ h) (by decide)

/-! ## joining -/

/-- `net.JoinHostPort`. -/
def joinHostPort (host : List Char) (port : Nat) : List Char :=
  if ':' ∈ host then '[' :: host ++ ']' :: ':' :: Nat.toDigits 10 port
  else host ++ ':' :: Nat.toDigits 10 port

theorem splitHostPort_join {host : List Char} (hopen : '[' ∉ host) (hclose : ']' ∉ host)
    (port : Nat) : splitHostPort (joinHostPort host port) = .ok (host, Nat.toDigits 10 port) := by
  unfold joinHostPort
  split
  · exact splitHostPort_bracketed hopen hclose (plain_toDigits port)
  · rename_i hcolon
    exact splitHostPort_plain ⟨hcolon, hopen, hclose⟩ (plain_toDigits port)

end HostPort

/-! ## texts of mapped addresses -/

namespace IPv4

/-- The characters of a dotted quad are digits and dots. -/
theorem mem_chars {ip : IPv4} {c : Char} (h : c ∈ ip.chars) : c = '.' ∨ c.isDigit = true := by
  cases mem_intercalate h with
  | inl h => exact Or.inl h
  | inr h =>
      obtain ⟨l, hl, hc⟩ := h
      obtain ⟨o, -, rfl⟩ := List.mem_map.mp hl
      exact Or.inr (Nat.isDigit_of_mem_toDigits (by decide) (by decide) hc)

theorem not_mem_chars {c : Char} (hdot : c ≠ '.') (hdigit : c.isDigit = false) (ip : IPv4) :
    c ∉ ip.chars := by
  intro h
  cases mem_chars h with
  | inl h => exact hdot h
  | inr h =>
      rw [hdigit] at h
      contradiction

/-- No colon is read as a part of a decimal. -/
theorem parseOctet_colon {cs : List Char} (h : ':' ∈ cs) : parseOctet cs = none := by
  have hnone : ∀ cs : List Char, cs.foldl (fun acc c => acc.bind fun n =>
      (Decimal.digit? c).map (10 * n + ·)) (none : Option Nat) = none := by
    intro cs
    induction cs with
    | nil => rfl
    | cons c cs ih => exact ih
  have hfold : ∀ (cs : List Char) (acc : Option Nat), ':' ∈ cs → cs.foldl (fun acc c =>
      acc.bind fun n => (Decimal.digit? c).map (10 * n + ·)) acc = none := by
    intro cs
    induction cs with
    | nil => simp
    | cons c cs ih =>
        intro acc hmem
        rw [List.foldl_cons]
        cases List.mem_cons.mp hmem with
        | inl hc =>
            have hcolon : Decimal.digit? ':' = none := by decide
            rw [← hc, hcolon]
            cases acc <;> exact hnone cs
        | inr hc => exact ih _ hc
  rw [parseOctet, Decimal.parse?, hfold cs _ h]
  split <;> rfl

/-- The text of a mapped address is no dotted quad. -/
theorem parse_mapped (ip : IPv4) : parse ("::ffff:".toList ++ ip.chars) = none := by
  have htext : "::ffff:".toList ++ ip.chars =
      ['.'].intercalate ["::ffff:".toList ++ octetText ip.a, octetText ip.b,
        octetText ip.c, octetText ip.d] := by
    simp [IPv4.chars, octets, List.intercalate, List.intersperse]
  have hdigits : ∀ o : Fin 256, '.' ∉ octetText o := by
    intro o h
    have hdigit := Nat.isDigit_of_mem_toDigits (by decide) (by decide) h
    exact absurd hdigit (by decide)
  have hfirst : '.' ∉ "::ffff:".toList ++ octetText ip.a := by
    rw [List.mem_append, not_or]
    exact ⟨by decide, hdigits _⟩
  have hdots : ∀ l ∈ ["::ffff:".toList ++ octetText ip.a, octetText ip.b,
      octetText ip.c, octetText ip.d], '.' ∉ l := by
    simp only [List.mem_cons, List.not_mem_nil, or_false, forall_eq_or_imp, forall_eq]
    exact ⟨hfirst, hdigits _, hdigits _, hdigits _⟩
  have hsplit := List.splitOn_intercalate '.' hdots (by simp)
  rw [← htext] at hsplit
  rw [parse, hsplit]
  have hoctet : parseOctet ("::ffff:".toList ++ octetText ip.a) = none :=
    parseOctet_colon (by simp)
  simp only [hoctet]
  rfl

end IPv4

namespace IPv6

/-- The groups of a mapped address. -/
theorem groups_of_is4In6 {ip : IPv6} (h : ip.is4In6 = true) :
    ∃ g h, ip.groups = [0, 0, 0, 0, 0, 0xffff, g, h] := by
  have htake : ip.groups.take 6 = [0, 0, 0, 0, 0, 0xffff] := by simpa [IPv6.is4In6] using h
  have hdrop : (ip.groups.drop 6).length = 2 := by
    rw [List.length_drop, ip.length_eq]
  obtain ⟨g, h, hgh⟩ := List.length_eq_two.mp hdrop
  refine ⟨g, h, ?_⟩
  rw [← List.take_append_drop 6 ip.groups, htake, hgh]
  rfl

end IPv6

/-! ## addresses as bytes -/

namespace IpAddr

open Wire

/-- `Is4`. -/
def is4 : IpAddr → Bool
  | .v4 _ => true
  | .v6 .. => false

/-- `netip.IPv4Unspecified`. -/
def ipv4Unspecified : IpAddr := .v4 ⟨0, 0, 0, 0⟩

/-- `netip.IPv6Unspecified`. -/
def ipv6Unspecified : IpAddr := .v6 ⟨List.replicate 8 0, rfl⟩ none

/-- `IsUnspecified`. -/
def isUnspecified (addr : IpAddr) : Bool := addr = ipv4Unspecified ∨ addr = ipv6Unspecified

/-- The IPv4 address in the last two groups. -/
def lastGroups (ip : IPv6) : IPv4 :=
  let g := ip.groups.getD 6 0
  let h := ip.groups.getD 7 0
  ⟨Fin.ofNat 256 (g.val / 256), Fin.ofNat 256 g.val, Fin.ofNat 256 (h.val / 256),
    Fin.ofNat 256 h.val⟩

/-- `Unmap`. -/
def unmap : IpAddr → IpAddr
  | .v4 ip => .v4 ip
  | .v6 ip zone => if ip.is4In6 then .v4 (lastGroups ip) else .v6 ip zone

/-- `AsSlice`. -/
def asSlice : IpAddr → Bytes
  | .v4 ip => ip.octets.map fun o => UInt8.ofNat o.val
  | .v6 ip _ => ip.groups.flatMap fun g => putUint16 g.val

/-- The groups of a byte string, two bytes each. -/
def groupsOf : Bytes → List (Fin 65536)
  | high :: low :: rest => ⟨uint16 high low, uint16_lt high low⟩ :: groupsOf rest
  | _ => []

theorem length_groupsOf : ∀ bs : Bytes, (groupsOf bs).length = bs.length / 2
  | [] => rfl
  | [_] => by simp [groupsOf]
  | _ :: _ :: rest => by
      rw [groupsOf, List.length_cons, length_groupsOf rest, List.length_cons, List.length_cons]
      omega

/-- `netip.AddrFromSlice`; the zero `Addr` of another length is `none`. -/
def addrFromSlice (bs : Bytes) : Option IpAddr :=
  match bs with
  | [a, b, c, d] => some (.v4 ⟨a.toFin, b.toFin, c.toFin, d.toFin⟩)
  | bs =>
      if h : bs.length = 16 then
        some (.v6 ⟨groupsOf bs, by rw [length_groupsOf, h]⟩ none)
      else none

theorem groupsOf_flatMap (gs : List (Fin 65536)) :
    groupsOf (gs.flatMap fun g => putUint16 g.val) = gs := by
  induction gs with
  | nil => rfl
  | cons g gs ih =>
      have hg : uint16 (UInt8.ofNat (g.val / 256)) (UInt8.ofNat g.val) = g.val :=
        uint16_putUint16 g.isLt
      rw [List.flatMap_cons, putUint16, List.cons_append, List.cons_append, List.nil_append,
        groupsOf, ih]
      simp only [hg]

theorem length_asSlice (addr : IpAddr) :
    addr.asSlice.length = if addr.is4 then 4 else 16 := by
  cases addr with
  | v4 ip => rfl
  | v6 ip zone =>
      have hlen : ∀ gs : List (Fin 65536),
          (gs.flatMap fun g => putUint16 g.val).length = 2 * gs.length := by
        intro gs
        induction gs with
        | nil => rfl
        | cons g gs ih =>
            rw [List.flatMap_cons, List.length_append, ih, length_putUint16, List.length_cons]
            omega
      rw [asSlice, hlen, ip.length_eq]
      rfl

/-- An address without zone is read back from its bytes. -/
theorem addrFromSlice_asSlice {addr : IpAddr} (hzone : addr.zone = none) :
    addrFromSlice addr.asSlice = some addr := by
  have hlen := length_asSlice addr
  cases addr with
  | v4 ip =>
      have hbyte : ∀ o : Fin 256, (UInt8.ofNat o.val).toFin = o := fun o =>
        Fin.ext (Wire.toNat_ofNat o.isLt)
      obtain ⟨a, b, c, d⟩ := ip
      simp only [asSlice, IPv4.octets, List.map_cons, List.map_nil, addrFromSlice, hbyte]
  | v6 ip zone =>
      simp only [is4, Bool.false_eq_true, if_false] at hlen
      rw [addrFromSlice]
      · rw [dif_pos hlen]
        simp only [IpAddr.zone] at hzone
        simp only [asSlice, groupsOf_flatMap, hzone]
      · intro a b c d heq
        rw [heq] at hlen
        simp at hlen

/-! ## reading what is printed -/

/-- A dotted tail is read as the last two groups. -/
theorem parse_mapped {ip : IPv6} (h : ip.is4In6 = true) :
    IPv6.parse ("::ffff:".toList ++ (lastGroups ip).chars) = some ip := by
  have hcolon : ∀ l ∈ [[], [], ['f', 'f', 'f', 'f'], (lastGroups ip).chars],
      ':' ∉ l := by
    have hnot := IPv4.not_mem_chars (c := ':') (by decide) (by decide) (lastGroups ip)
    simpa using hnot
  have htext : "::ffff:".toList ++ (lastGroups ip).chars =
      [':'].intercalate [[], [], ['f', 'f', 'f', 'f'], (lastGroups ip).chars] := by
    simp [List.intercalate, List.intersperse]
  have hfields : ("::ffff:".toList ++ (lastGroups ip).chars).splitOn ':' =
      [[], [], ['f', 'f', 'f', 'f'], (lastGroups ip).chars] := by
    rw [htext]
    exact List.splitOn_intercalate ':' hcolon (by simp)
  have hdot : '.' ∈ (lastGroups ip).chars := by
    simp [IPv4.chars, IPv4.octets, List.intercalate, List.intersperse]
  have hffff : Hextet.parse ['f', 'f', 'f', 'f'] = some 0xffff := by decide
  obtain ⟨g, h, hgroups⟩ := IPv6.groups_of_is4In6 h
  have hjoin : ∀ g : Fin 65536, Fin.ofNat 65536 ((Fin.ofNat 256 (g.val / 256)).val * 256 +
      (Fin.ofNat 256 g.val).val) = g := by
    intro g
    have hg := g.isLt
    apply Fin.ext
    simp only [Fin.val_ofNat]
    omega
  have hhigh : Fin.ofNat 65536 ((lastGroups ip).a.val * 256 +
      (lastGroups ip).b.val) = g := by
    rw [lastGroups, hgroups]
    exact hjoin g
  have hlow : Fin.ofNat 65536 ((lastGroups ip).c.val * 256 +
      (lastGroups ip).d.val) = h := by
    rw [lastGroups, hgroups]
    exact hjoin h
  have hlast : IPv6.expandTail [[], [], ['f', 'f', 'f', 'f'], (lastGroups ip).chars] =
      some [[], [], ['f', 'f', 'f', 'f'], Hextet.chars g, Hextet.chars h] := by
    simp only [IPv6.expandTail, List.getLast?_cons_cons, List.getLast?_singleton, if_pos hdot,
      IPv4.parse_chars, Option.map_some, hhigh, hlow]
    rfl
  obtain ⟨groups, hlen⟩ := ip
  simp only at hgroups
  subst hgroups
  rw [IPv6.parse, hfields, hlast]
  simp [IPv6.parseFields, hffff, IPv6.fill]

/-- `WithZone("")`. -/
def withoutZone : IpAddr → IpAddr
  | .v4 ip => .v4 ip
  | .v6 ip _ => .v6 ip none

/-- What `netip.Addr.String` prints before the zone is read as the address. -/
theorem parse_netipChars (addr : IpAddr) :
    ∃ host, addr.netipChars = host ++ (addr.zone.map ('%' :: ·)).getD [] ∧ '%' ∉ host ∧
      '[' ∉ host ∧ ']' ∉ host ∧
      parse (fun _ => true) host = some (withoutZone addr) := by
  cases addr with
  | v4 ip =>
      refine ⟨ip.chars, by simp [netipChars, IpAddr.zone], ?_, ?_, ?_, ?_⟩
      · exact IPv4.not_mem_chars (by decide) (by decide) ip
      · exact IPv4.not_mem_chars (by decide) (by decide) ip
      · exact IPv4.not_mem_chars (by decide) (by decide) ip
      · simp [parse, percent_not_mem_v4, withoutZone]
  | v6 ip zone =>
      by_cases hmapped : ip.is4In6 = true
      · have hip := parse_mapped hmapped
        obtain ⟨g, h, hgroups⟩ := IPv6.groups_of_is4In6 hmapped
        have hnot : ∀ c, c ∉ "::ffff:".toList → c ≠ '.' → c.isDigit = false →
            c ∉ "::ffff:".toList ++ (lastGroups ip).chars := by
          intro c hc hdot hdigit
          rw [List.mem_append, not_or]
          exact ⟨hc, IPv4.not_mem_chars hdot hdigit _⟩
        have hpercent := hnot '%' (by decide) (by decide) (by decide)
        refine ⟨"::ffff:".toList ++ (lastGroups ip).chars, ?_, hpercent,
          hnot '[' (by decide) (by decide) (by decide),
          hnot ']' (by decide) (by decide) (by decide), ?_⟩
        · rw [netipChars, if_pos hmapped, lastGroups, hgroups]
          rfl
        · rw [parse, if_neg hpercent, IPv4.parse_mapped, hip]
          rfl
      · have hspec := @canonical_spec IPv6.pyChars (.v6 ip none)
          (by simpa [is4In6] using hmapped) rfl fun _ => true
        have hchars : ∀ c, c ≠ ':' → (∀ n : Fin 16, c ≠ Uuid.hexDigit n) → c ∉ ip.pyChars := by
          intro c hc hdigit hmem
          cases IPv6.mem_pyChars hmem with
          | inl h => exact hc h
          | inr h => exact hdigit _ h.choose_spec
        refine ⟨ip.pyChars, ?_, hchars '%' (by decide) (by decide),
          hchars '[' (by decide) (by decide), hchars ']' (by decide) (by decide), ?_⟩
        · rw [netipChars, if_neg hmapped, IPv6.netipChars_eq_pyChars, IpAddr.zone]
        · have hparse := hspec.1
          simp only [pyChars, if_neg hmapped, Option.map_none, Option.getD_none,
            List.append_nil] at hparse
          exact hparse

end IpAddr

import Blindport.Entitlement.Metadata

/-!
# Blindport.Entitlement.CanonicalText

The one text of an address: what `canonicalIP` of the entitlement verifier writes, and what
`canonicalIP` of the agent takes.

`Hextet.Canonical` and `IPv6.Written` say what the text of an IPv6 address has to look
like, without any of the loops that print it.  `canonicalText_iff` says for which
addresses the two sides agree.
-/

namespace Hextet

/-- A group in lowercase hexadecimal without leading zeros. -/
structure Canonical (g : Fin 65536) (text : List Char) : Prop where
  length : 1 ≤ text.length ∧ text.length ≤ 4
  lower : ∀ c ∈ text, Uuid.isLowerHex c = true
  leading : text.head? = some '0' → text = ['0']
  value : parse text = some g

private theorem lower_hexDigit : ∀ n : Fin 16, Uuid.isLowerHex (Uuid.hexDigit n) = true := by
  decide

private theorem hexDigit_zero : ∀ n : Fin 16, Uuid.hexDigit n = '0' → n.val = 0 := by decide

theorem canonical_chars (g : Fin 65536) : Canonical g (chars g) where
  length := ⟨List.length_pos_iff.mpr (chars_ne_nil g), length_chars_le g⟩
  lower c hc := by
    obtain ⟨n, rfl⟩ := mem_chars hc
    exact lower_hexDigit n
  leading := by
    have hg := g.isLt
    intro h
    unfold chars at h ⊢
    split at h
    · rename_i hlt
      have hzero : g.val % 16 = 0 := hexDigit_zero _ (Option.some.inj h)
      rw [if_pos hlt]
      have hdigit : (⟨g.val % 16, Nat.mod_lt _ (by decide)⟩ : Fin 16) = 0 := Fin.ext hzero
      simp only [hdigit]
      rfl
    · exfalso
      split at h
      · have hzero : g.val / 16 % 16 = 0 := hexDigit_zero _ (Option.some.inj h)
        omega
      · split at h
        · have hzero : g.val / 256 % 16 = 0 := hexDigit_zero _ (Option.some.inj h)
          omega
        · have hzero : g.val / 4096 % 16 = 0 := hexDigit_zero _ (Option.some.inj h)
          omega
  value := parse_chars g

end Hextet

namespace IPv6

/-! ## the text of an IPv6 address -/

/-- `len` zero groups from `start` on. -/
def ZeroRun (zeros : List Bool) (start len : Nat) : Prop :=
  start + len ≤ zeros.length ∧ ((zeros.drop start).take len).all id = true

instance (zeros : List Bool) (start len : Nat) : Decidable (ZeroRun zeros start len) :=
  inferInstanceAs (Decidable (_ ∧ _))

/-- The leftmost of the longest runs of at least two zero groups. -/
def LeftmostLongest (zeros : List Bool) (start len : Nat) : Prop :=
  2 ≤ len ∧ ZeroRun zeros start len ∧
    ∀ start' len', ZeroRun zeros start' len' → len' ≤ len ∧ (len' = len → start ≤ start')

/-- There is no run of two zero groups. -/
def NoRun (zeros : List Bool) : Prop := ∀ start len, ZeroRun zeros start len → len < 2

/-- The canonical text of an address: its groups, with the leftmost of the longest runs of
zeros left out. -/
def Written (ip : IPv6) (text : List Char) : Prop :=
  ∃ texts : List (List Char), List.Forall₂ Hextet.Canonical ip.groups texts ∧
    ((∃ start len, LeftmostLongest ip.mask start len ∧ text = joined texts (some (start, len))) ∨
      (NoRun ip.mask ∧ text = joined texts none))

/-- Every run of zero groups among eight passes a check. -/
private def allRuns (zeros : List Bool) (check : Nat → Nat → Bool) : Bool :=
  (List.range 9).all fun start => (List.range (9 - start)).all fun len =>
    !((zeros.drop start).take len).all id || check start len

private theorem allRuns_spec {zeros : List Bool} (hlen : zeros.length = 8)
    {check : Nat → Nat → Bool} (h : allRuns zeros check = true) {start len : Nat}
    (hrun : ZeroRun zeros start len) : check start len = true := by
  have hle := hrun.1
  simp only [allRuns, List.all_eq_true, List.mem_range] at h
  simpa only [hrun.2, Bool.not_true, Bool.false_or] using h start (by omega) len (by omega)

/-- What `pyRun` has to say of eight groups. -/
private def runChecked (zeros : List Bool) : Bool :=
  match pyRun zeros with
  | some (start, len) => decide (2 ≤ len ∧ ZeroRun zeros start len) &&
      allRuns zeros fun start' len' =>
        Nat.blt len' len || (Nat.beq len' len && Nat.ble start start')
  | none => allRuns zeros fun _ len' => Nat.blt len' 2

-- which groups are zero decides the run, so the eight booleans are all there is
private theorem run_checked : ∀ a b c d e f g h : Bool,
    runChecked [a, b, c, d, e, f, g, h] = true := by
  decide +kernel

private theorem run_checked_of_length {zeros : List Bool} (h : zeros.length = 8) :
    runChecked zeros = true := by
  match zeros, h with
  | [a, b, c, d, e, f, g, h], _ => exact run_checked a b c d e f g h

theorem leftmostLongest_of_pyRun {zeros : List Bool} (hlen : zeros.length = 8) {start len : Nat}
    (h : pyRun zeros = some (start, len)) : LeftmostLongest zeros start len := by
  have hchecked := run_checked_of_length hlen
  rw [runChecked, h] at hchecked
  simp only [Bool.and_eq_true, decide_eq_true_eq] at hchecked
  obtain ⟨⟨htwo, hrun⟩, hall⟩ := hchecked
  refine ⟨htwo, hrun, fun start' len' hrun' => ?_⟩
  have hpair := allRuns_spec hlen hall hrun'
  simp only [Bool.or_eq_true, Nat.blt_eq, Bool.and_eq_true, Nat.beq_eq, Nat.ble_eq] at hpair
  omega

theorem noRun_of_pyRun {zeros : List Bool} (hlen : zeros.length = 8) (h : pyRun zeros = none) :
    NoRun zeros := by
  have hchecked := run_checked_of_length hlen
  rw [runChecked, h] at hchecked
  intro start' len' hrun'
  exact Nat.blt_eq.mp (allRuns_spec hlen hchecked hrun')

/-- **`canonicalIP` writes the canonical text.** -/
theorem written_canonicalIP (ip : IPv6) : Written ip ip.canonicalIP := by
  refine ⟨ip.hextets, ?_, ?_⟩
  · rw [hextets]
    induction ip.groups with
    | nil => exact .nil
    | cons g gs ih => exact .cons (Hextet.canonical_chars g) ih
  · rw [canonicalIP_eq_pyChars, pyChars_eq]
    cases hrun : pyRun ip.mask with
    | none => exact .inr ⟨noRun_of_pyRun ip.length_mask hrun, rfl⟩
    | some run =>
        obtain ⟨start, len⟩ := run
        exact .inl ⟨start, len, leftmostLongest_of_pyRun ip.length_mask hrun, rfl⟩

end IPv6

namespace IpAddr

/-! ## the two sides -/

/-- What `canonicalIP` of the verifier writes is read back, IPv4-mapped or not. -/
theorem parse_canonicalIP {addr : IpAddr} (hzone : addr.zone = none)
    (zoneOk : List Char → Bool) : parse zoneOk addr.canonicalIP = some addr := by
  cases addr with
  | v4 ip => simp [parse, canonicalIP, percent_not_mem_v4]
  | v6 ip zone =>
      simp only [IpAddr.zone] at hzone
      have hpercent := ip.not_mem_pyChars.2
      simp [parse, canonicalIP, hzone, hpercent, parse_v4_pyChars, IPv6.canonicalIP_eq_pyChars]

/-- The text the verifier writes for an IPv4-mapped address is not the one the agent
prints. -/
theorem netipChars_ne_of_mapped {addr : IpAddr} (h : addr.is4In6 = true) :
    addr.netipChars ≠ addr.canonicalIP := by
  cases addr with
  | v4 ip => contradiction
  | v6 ip zone =>
      simp only [is4In6] at h
      intro heq
      obtain ⟨g, g', hgroups⟩ : ∃ g g', ip.groups.drop 6 = [g, g'] := by
        have hlen : (ip.groups.drop 6).length = 2 := by rw [List.length_drop, ip.length_eq]
        exact List.length_eq_two.mp hlen
      -- only the dotted quad has dots
      have hdot : '.' ∈ netipChars (.v6 ip zone) := by
        simp only [netipChars, h, if_true, hgroups, List.mem_append]
        refine .inl (.inr ?_)
        simp [IPv4.chars, IPv4.octets, List.intercalate_cons_cons]
      rw [heq, canonicalIP, IPv6.canonicalIP_eq_pyChars] at hdot
      exact ip.not_mem_pyChars.1 hdot

end IpAddr

namespace Entitlement

/-- What is asked of the canonical text of an address: it is read back, an IPv6 address is
written the canonical way, and the agent takes it for the address, and no other text. -/
structure CanonicalText (addr : IpAddr) : Prop where
  readsBack : ∀ zoneOk, IpAddr.parse zoneOk addr.canonicalIP = some addr
  written : ∀ ip, addr = .v6 ip none → ip.Written addr.canonicalIP
  agent : ∀ value : String, agentCanonicalIP value = true ∧
    IpAddr.parse (fun _ => true) value.toList = some addr ↔ value.toList = addr.canonicalIP

theorem agentCanonicalIP_of_parse {value : String} {addr : IpAddr}
    (h : IpAddr.parse (fun _ => true) value.toList = some addr) :
    agentCanonicalIP value = true ↔ addr.netipChars = value.toList := by
  rw [agentCanonicalIP, h]
  exact beq_iff_eq

/-- **The two sides agree on the text of an address** without scope id exactly when the
address is not IPv4-mapped. -/
theorem canonicalText_iff {addr : IpAddr} (hzone : addr.zone = none) :
    CanonicalText addr ↔ addr.is4In6 = false := by
  have hback := IpAddr.parse_canonicalIP hzone
  constructor
  · intro h
    by_contra hmapped
    rw [Bool.not_eq_false] at hmapped
    have hvalue : (String.ofList addr.canonicalIP).toList = addr.canonicalIP := String.toList_ofList
    obtain ⟨haccepted, hparse⟩ := (h.agent (String.ofList addr.canonicalIP)).mpr hvalue
    rw [agentCanonicalIP_of_parse hparse, hvalue] at haccepted
    exact IpAddr.netipChars_ne_of_mapped hmapped haccepted
  · intro hmapped
    have hsame : addr.netipChars = addr.canonicalIP := by
      obtain ⟨-, hcanonical, hnetip⟩ : IpAddr.parse (fun _ => true) (addr.pyChars IPv6.pyChars) =
          some addr ∧ addr.canonicalIP = addr.pyChars IPv6.pyChars ∧
            addr.netipChars = addr.pyChars IPv6.pyChars :=
        IpAddr.canonical_spec hmapped hzone fun _ => true
      rw [hnetip, hcanonical]
    refine ⟨hback, ?_, fun value => ?_⟩
    · rintro ip rfl
      exact ip.written_canonicalIP
    · constructor
      · rintro ⟨haccepted, hparse⟩
        rw [agentCanonicalIP_of_parse hparse, hsame] at haccepted
        exact haccepted.symm
      · intro hvalue
        have hparse : IpAddr.parse (fun _ => true) value.toList = some addr := by
          rw [hvalue]
          exact hback _
        rw [agentCanonicalIP_of_parse hparse, hsame]
        exact ⟨hvalue.symm, hparse⟩

/-- An address from the documentation range. -/
def documentation : IpAddr := .v6 ⟨[0x2001, 0xdb8, 0, 0, 0, 0, 0, 1], rfl⟩ none

/-- The same address mapped from IPv4. -/
def mapped : IpAddr := .v6 ⟨[0, 0, 0, 0, 0, 0xffff, 0xc633, 0x641e], rfl⟩ none

theorem canonicalText_documentation :
    documentation.canonicalIP = "2001:db8::1".toList ∧ CanonicalText documentation :=
  ⟨by decide, (canonicalText_iff rfl).mpr (by decide)⟩

/-- The verifier writes `::ffff:c633:641e`, and the agent takes `::ffff:198.51.100.30` only. -/
theorem canonicalText_mapped :
    mapped.canonicalIP = "::ffff:c633:641e".toList ∧
    mapped.netipChars = "::ffff:198.51.100.30".toList ∧
    agentCanonicalIP "::ffff:c633:641e" = false ∧ agentCanonicalIP "::ffff:198.51.100.30" = true ∧
    ¬ CanonicalText mapped := by
  refine ⟨by decide, by decide, by decide +kernel, by decide +kernel, fun h => ?_⟩
  have hvalue : ("::ffff:c633:641e" : String).toList = mapped.canonicalIP := by decide
  have haccepted := ((h.agent "::ffff:c633:641e").mpr hvalue).1
  revert haccepted
  decide +kernel

end Entitlement

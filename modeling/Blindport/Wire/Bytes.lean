import Mathlib.Algebra.Group.Nat.Defs
import Mathlib.Data.List.Basic

/-!
# Blindport.Wire.Bytes

Byte strings as wire formats use them: big-endian numbers, length-prefixed
vectors, and reads of a byte string that check their bounds.

A parser returns a `Result`: a value, an error with its text, or `panic` where it
reads outside its input.  `Decides r P` says that a parser accepts exactly the
values with `P` and never panics; its rules follow the parser's own shape, so the
relation a parser decides is put together the way the parser is.
-/

namespace Wire

/-- A byte string. -/
abbrev Bytes := List UInt8

/-! ## big-endian numbers -/

/-- The number two bytes stand for, the high byte first. -/
def uint16 (high low : UInt8) : Nat := high.toNat * 256 + low.toNat

/-- A number below 2^16 in two bytes. -/
def putUint16 (n : Nat) : Bytes := [UInt8.ofNat (n / 256), UInt8.ofNat n]

theorem toNat_ofNat {n : Nat} (h : n < 256) : (UInt8.ofNat n).toNat = n := by
  rw [UInt8.toNat_ofNat']
  omega

theorem uint16_lt (high low : UInt8) : uint16 high low < 2 ^ 16 := by
  have hh := high.toNat_lt
  have hl := low.toNat_lt
  unfold uint16
  omega

theorem putUint16_uint16 (high low : UInt8) : putUint16 (uint16 high low) = [high, low] := by
  have hh := high.toNat_lt
  have hl := low.toNat_lt
  have hdiv : uint16 high low / 256 = high.toNat := by unfold uint16; omega
  have hlow : UInt8.ofNat (uint16 high low) = low := by
    apply UInt8.toNat_inj.mp
    rw [UInt8.toNat_ofNat']
    unfold uint16
    omega
  rw [putUint16, hdiv, hlow, UInt8.ofNat_toNat]

theorem uint16_putUint16 {n : Nat} (h : n < 2 ^ 16) :
    uint16 (UInt8.ofNat (n / 256)) (UInt8.ofNat n) = n := by
  unfold uint16
  rw [UInt8.toNat_ofNat', UInt8.toNat_ofNat']
  omega

@[simp] theorem length_putUint16 (n : Nat) : (putUint16 n).length = 2 := rfl

/-- The number three bytes stand for. -/
def uint24 (high mid low : UInt8) : Nat := high.toNat * 65536 + uint16 mid low

/-- A number below 2^24 in three bytes. -/
def putUint24 (n : Nat) : Bytes := UInt8.ofNat (n / 65536) :: putUint16 n

theorem uint24_lt (high mid low : UInt8) : uint24 high mid low < 2 ^ 24 := by
  have hh := high.toNat_lt
  have hlow := uint16_lt mid low
  unfold uint24
  omega

theorem putUint24_uint24 (high mid low : UInt8) :
    putUint24 (uint24 high mid low) = [high, mid, low] := by
  have hm := mid.toNat_lt
  have hl := low.toNat_lt
  have hh := high.toNat_lt
  have hdiv : uint24 high mid low / 65536 = high.toNat := by unfold uint24 uint16; omega
  have hmid : UInt8.ofNat (uint24 high mid low / 256) = mid := by
    apply UInt8.toNat_inj.mp
    rw [UInt8.toNat_ofNat']
    unfold uint24 uint16
    omega
  have hlow : UInt8.ofNat (uint24 high mid low) = low := by
    apply UInt8.toNat_inj.mp
    rw [UInt8.toNat_ofNat']
    unfold uint24 uint16
    omega
  rw [putUint24, putUint16, hdiv, hmid, hlow, UInt8.ofNat_toNat]

theorem uint24_putUint24 {n : Nat} (h : n < 2 ^ 24) :
    uint24 (UInt8.ofNat (n / 65536)) (UInt8.ofNat (n / 256)) (UInt8.ofNat n) = n := by
  unfold uint24 uint16
  rw [UInt8.toNat_ofNat', UInt8.toNat_ofNat', UInt8.toNat_ofNat']
  omega

@[simp] theorem length_putUint24 (n : Nat) : (putUint24 n).length = 3 := rfl

/-- The number four bytes stand for. -/
def uint32 (a b c d : UInt8) : Nat := a.toNat * 16777216 + uint24 b c d

/-- A number below 2^32 in four bytes. -/
def putUint32 (n : Nat) : Bytes := UInt8.ofNat (n / 16777216) :: putUint24 n

theorem uint32_putUint32 {n : Nat} (h : n < 2 ^ 32) :
    uint32 (UInt8.ofNat (n / 16777216)) (UInt8.ofNat (n / 65536)) (UInt8.ofNat (n / 256))
      (UInt8.ofNat n) = n := by
  unfold uint32 uint24 uint16
  rw [UInt8.toNat_ofNat', UInt8.toNat_ofNat', UInt8.toNat_ofNat', UInt8.toNat_ofNat']
  omega

@[simp] theorem length_putUint32 (n : Nat) : (putUint32 n).length = 4 := rfl

/-! ## length-prefixed vectors -/

/-- A vector behind one byte of length. -/
def vector8 (data : Bytes) : Bytes := UInt8.ofNat data.length :: data

/-- A vector behind two bytes of length. -/
def vector16 (data : Bytes) : Bytes := putUint16 data.length ++ data

@[simp] theorem length_vector8 (data : Bytes) : (vector8 data).length = data.length + 1 := rfl

@[simp] theorem length_vector16 (data : Bytes) : (vector16 data).length = data.length + 2 := by
  simp [vector16, Nat.add_comm]

theorem vector16_eq_cons {data p : Bytes} {a b : UInt8} (h : a :: b :: p = vector16 data) :
    a = UInt8.ofNat (data.length / 256) ∧ b = UInt8.ofNat data.length ∧ p = data := by
  rw [vector16, putUint16, List.cons_append, List.cons_append, List.nil_append, List.cons.injEq,
    List.cons.injEq] at h
  exact h

/-- A number and a vector are read back from the bytes they make. -/
theorem putUint16_vector16_inj {a b : Nat} {x y : Bytes} (ha : a < 2 ^ 16) (hb : b < 2 ^ 16)
    (h : putUint16 a ++ vector16 x = putUint16 b ++ vector16 y) : a = b ∧ x = y := by
  obtain ⟨hput, hvec⟩ := List.append_inj h rfl
  constructor
  · rw [putUint16, putUint16, List.cons.injEq, List.cons.injEq] at hput
    rw [← uint16_putUint16 ha, ← uint16_putUint16 hb, hput.1, hput.2.1]
  · exact (List.append_inj' hvec (by
      have hlen := congrArg List.length hvec
      rw [length_vector16, length_vector16] at hlen
      omega)).2

/-- A byte string that holds what its first byte announces starts with a vector. -/
theorem eq_vector8_append {b : UInt8} {p : Bytes} (h : b.toNat ≤ p.length) :
    b :: p = vector8 (p.take b.toNat) ++ p.drop b.toNat := by
  rw [vector8, List.length_take, Nat.min_eq_left h, UInt8.ofNat_toNat, List.cons_append,
    List.take_append_drop]

/-- A byte string that holds what its first two bytes announce starts with a vector. -/
theorem eq_vector16_append {high low : UInt8} {p : Bytes} (h : uint16 high low ≤ p.length) :
    high :: low :: p = vector16 (p.take (uint16 high low)) ++ p.drop (uint16 high low) := by
  rw [vector16, List.length_take, Nat.min_eq_left h, putUint16_uint16, List.append_assoc,
    List.take_append_drop]
  rfl

/-! ## checked reads -/

/-- How a parser stops without a value. -/
inductive Fault
  | panic
  | error (text : String)
deriving DecidableEq

/-- What a parser returns. -/
abbrev Result := Except Fault

/-- `p[i]`. -/
def byteAt (p : Bytes) (i : Nat) : Result UInt8 :=
  match p[i]? with
  | some b => .ok b
  | none => .error .panic

/-- `p[from:]`. -/
def sliceFrom (p : Bytes) (start : Nat) : Result Bytes :=
  if start ≤ p.length then .ok (p.drop start) else .error .panic

/-- `p[start:stop]`. -/
def slice (p : Bytes) (start stop : Nat) : Result Bytes :=
  if start ≤ stop ∧ stop ≤ p.length then .ok ((p.take stop).drop start) else .error .panic

/-- `binary.BigEndian.Uint16(p)`. -/
def bigEndianUint16 (p : Bytes) : Result Nat :=
  match p with
  | high :: low :: _ => .ok (uint16 high low)
  | _ => .error .panic

/-- Skip a vector behind one byte of length. -/
def skipVector8 (text : String) (p : Bytes) : Result Bytes := do
  let n ← byteAt p 0
  if 1 + n.toNat > p.length then .error (.error text) else sliceFrom p (1 + n.toNat)

/-- Skip a vector behind two bytes of length. -/
def skipVector16 (text : String) (p : Bytes) : Result Bytes := do
  let n ← bigEndianUint16 (← slice p 0 2)
  if 2 + n > p.length then .error (.error text) else sliceFrom p (2 + n)

/-- The vector behind `start` bytes and two bytes of length, and what follows it. -/
def takeVector16 (text : String) (start : Nat) (p : Bytes) : Result (Bytes × Bytes) := do
  let n ← bigEndianUint16 (← slice p start (start + 2))
  if start + 2 + n > p.length then .error (.error text)
  else do
    let data ← slice p (start + 2) (start + 2 + n)
    let rest ← sliceFrom p (start + 2 + n)
    return (data, rest)

theorem sliceFrom_ok {p : Bytes} {start : Nat} (h : start ≤ p.length) :
    sliceFrom p start = .ok (p.drop start) := if_pos h

theorem slice_ok {p : Bytes} {start stop : Nat} (h : start ≤ stop) (h' : stop ≤ p.length) :
    slice p start stop = .ok ((p.take stop).drop start) := if_pos ⟨h, h'⟩

/-! ## what a parser decides -/

/-- A parser accepts exactly the values with `P`, and does not panic. -/
structure Decides {α : Type} (r : Result α) (P : α → Prop) : Prop where
  ok_iff : ∀ a, r = .ok a ↔ P a
  no_panic : r ≠ .error .panic

namespace Decides

variable {α β : Type} {r : Result α} {P Q : α → Prop}

theorem congr (h : Decides r P) (hPQ : ∀ a, P a ↔ Q a) : Decides r Q :=
  ⟨fun a => (h.ok_iff a).trans (hPQ a), h.no_panic⟩

theorem pure (a : α) : Decides (.ok a : Result α) (fun b => b = a) :=
  ⟨fun b => by rw [Except.ok.injEq, eq_comm], by simp⟩

theorem throw (text : String) : Decides (.error (.error text) : Result α) (fun _ => False) :=
  ⟨by simp, by simp⟩

theorem bind {f : α → Result β} {R : α → β → Prop} (h : Decides r P)
    (hf : ∀ a, P a → Decides (f a) (R a)) :
    Decides (r >>= f) (fun b => ∃ a, P a ∧ R a b) := by
  have hok := h.ok_iff
  have hno := h.no_panic
  cases r with
  | error fault =>
      constructor
      · intro b
        constructor
        · intro hb
          contradiction
        · rintro ⟨a, ha, -⟩
          exact absurd ((hok a).mpr ha) (by simp)
      · intro hb
        exact hno (congrArg Except.error (Except.error.inj hb))
  | ok a =>
      have hP : ∀ a', P a' → a' = a := fun a' ha' => by
        simpa [eq_comm] using (hok a').mpr ha'
      have hfa := hf a ((hok a).mp rfl)
      constructor
      · intro b
        constructor
        · intro hb
          exact ⟨a, (hok a).mp rfl, (hfa.ok_iff b).mp hb⟩
        · rintro ⟨a', ha', hR⟩
          rw [hP a' ha'] at hR
          exact (hfa.ok_iff b).mpr hR
      · exact hfa.no_panic

/-- A check with an error. -/
theorem check {c : Prop} [Decidable c] {text : String} (h : ¬c → Decides r P) :
    Decides (if c then .error (.error text) else r) (fun a => ¬c ∧ P a) := by
  by_cases hc : c
  · rw [if_pos hc]
    exact (throw text).congr fun a => by simp [hc]
  · rw [if_neg hc]
    exact (h hc).congr fun a => by simp [hc]

/-- A choice between two parsers. -/
theorem ite {c : Prop} [Decidable c] {r' : Result α} (h : c → Decides r P)
    (h' : ¬c → Decides r' Q) :
    Decides (if c then r else r') (fun a => if c then P a else Q a) := by
  by_cases hc : c
  · rw [if_pos hc]
    exact (h hc).congr fun a => by rw [if_pos hc]
  · rw [if_neg hc]
    exact (h' hc).congr fun a => by rw [if_neg hc]

/-- What is decided is a value or an error with a text. -/
theorem ok_or_error (h : Decides r P) : (∃ a, r = .ok a ∧ P a) ∨
    ((∀ a, ¬P a) ∧ ∃ text, r = .error (.error text)) := by
  have hno := h.no_panic
  cases hr : r with
  | ok a => exact .inl ⟨a, rfl, (h.ok_iff a).mp hr⟩
  | error fault =>
      refine .inr ⟨fun a ha => ?_, ?_⟩
      · rw [(h.ok_iff a).mpr ha] at hr
        contradiction
      · cases fault with
        | panic => exact absurd hr hno
        | error text => exact ⟨text, rfl⟩

/-! ### reads within bounds -/

theorem byteAt {p : Bytes} {i : Nat} (h : i < p.length) :
    Decides (Wire.byteAt p i) (fun b => p[i]? = some b) := by
  unfold Wire.byteAt
  rw [List.getElem?_eq_getElem h]
  exact (pure _).congr fun b => by rw [Option.some.injEq, eq_comm]

theorem sliceFrom {p : Bytes} {start : Nat} (h : start ≤ p.length) :
    Decides (Wire.sliceFrom p start) (fun q => q = p.drop start) := by
  rw [sliceFrom_ok h]
  exact pure _

theorem slice {p : Bytes} {start stop : Nat} (h : start ≤ stop) (h' : stop ≤ p.length) :
    Decides (Wire.slice p start stop) (fun q => q = (p.take stop).drop start) := by
  rw [slice_ok h h']
  exact pure _

theorem skipVector8 {text : String} {p : Bytes} (h : p ≠ []) :
    Decides (Wire.skipVector8 text p)
      (fun rest => ∃ data, data.length < 2 ^ 8 ∧ p = vector8 data ++ rest) := by
  cases p with
  | nil => exact absurd rfl h
  | cons b p =>
      have hrun : Wire.skipVector8 text (b :: p) =
          if 1 + b.toNat > (b :: p).length then .error (.error text)
          else Wire.sliceFrom (b :: p) (1 + b.toNat) := rfl
      rw [hrun]
      refine (check fun hle => sliceFrom (Nat.le_of_not_gt hle)).congr fun rest => ?_
      rw [List.length_cons, Nat.add_comm 1, List.drop_succ_cons]
      constructor
      · rintro ⟨hle, rfl⟩
        have hb : b.toNat ≤ p.length := by omega
        refine ⟨p.take b.toNat, ?_, eq_vector8_append hb⟩
        rw [List.length_take, Nat.min_eq_left hb]
        exact b.toNat_lt
      · rintro ⟨data, hdata, heq⟩
        rw [vector8, List.cons_append, List.cons.injEq] at heq
        obtain ⟨rfl, rfl⟩ := heq
        rw [toNat_ofNat hdata, List.length_append, List.drop_left]
        exact ⟨by omega, rfl⟩

theorem skipVector16 {text : String} {p : Bytes} (h : 2 ≤ p.length) :
    Decides (Wire.skipVector16 text p)
      (fun rest => ∃ data, data.length < 2 ^ 16 ∧ p = vector16 data ++ rest) := by
  match p, h with
  | a :: b :: p, _ =>
      have hrun : Wire.skipVector16 text (a :: b :: p) =
          if 2 + uint16 a b > (a :: b :: p).length then .error (.error text)
          else Wire.sliceFrom (a :: b :: p) (2 + uint16 a b) := rfl
      rw [hrun]
      refine (check fun hle => sliceFrom (Nat.le_of_not_gt hle)).congr fun rest => ?_
      rw [List.length_cons, List.length_cons, Nat.add_comm 2, List.drop_succ_cons,
        List.drop_succ_cons]
      constructor
      · rintro ⟨hle, rfl⟩
        have hn : uint16 a b ≤ p.length := by omega
        refine ⟨p.take (uint16 a b), ?_, eq_vector16_append hn⟩
        rw [List.length_take, Nat.min_eq_left hn]
        exact uint16_lt a b
      · rintro ⟨data, hdata, heq⟩
        rw [vector16, putUint16, List.append_assoc, List.cons_append, List.cons_append,
          List.nil_append, List.cons.injEq, List.cons.injEq] at heq
        obtain ⟨rfl, rfl, rfl⟩ := heq
        rw [uint16_putUint16 hdata, List.length_append, List.drop_left]
        exact ⟨by omega, rfl⟩

theorem takeVector16 {text : String} {start : Nat} {p : Bytes} (h : start + 2 ≤ p.length) :
    Decides (Wire.takeVector16 text start p) (fun r =>
      r.1.length < 2 ^ 16 ∧ p = p.take start ++ (vector16 r.1 ++ r.2)) := by
  obtain ⟨a, b, q, hdrop⟩ : ∃ a b q, p.drop start = a :: b :: q := by
    have hlen := List.length_drop (i := start) (l := p)
    match hd : p.drop start with
    | a :: b :: q => exact ⟨a, b, q, rfl⟩
    | [] => rw [hd, List.length_nil] at hlen; omega
    | [a] => rw [hd, List.length_singleton] at hlen; omega
  have hq : p.drop (start + 2) = q := by rw [← List.drop_drop, hdrop]; rfl
  have hlen : p.length = start + 2 + q.length := by
    rw [← hq, List.length_drop]
    omega
  have hn : Wire.slice p start (start + 2) = .ok [a, b] := by
    rw [slice_ok (by omega) h, List.drop_take, hdrop, Nat.add_sub_cancel_left]
    rfl
  have hrun : Wire.takeVector16 text start p =
      if start + 2 + uint16 a b > p.length then .error (.error text)
      else Wire.slice p (start + 2) (start + 2 + uint16 a b) >>= fun data =>
        Wire.sliceFrom p (start + 2 + uint16 a b) >>= fun rest => .ok (data, rest) := by
    rw [Wire.takeVector16, hn]
    rfl
  rw [hrun]
  refine (check fun hle => (slice (by omega) (by omega)).bind fun data _ =>
    (sliceFrom (by omega)).bind fun rest _ => pure _).congr fun r => ?_
  obtain ⟨data, rest⟩ := r
  constructor
  · rintro ⟨hle, _, rfl, _, rfl, heq⟩
    rw [Prod.mk.injEq] at heq
    obtain ⟨rfl, rfl⟩ := heq
    have hb : uint16 a b ≤ q.length := by omega
    have hdata : (p.take (start + 2 + uint16 a b)).drop (start + 2) = q.take (uint16 a b) := by
      rw [List.drop_take, hq, Nat.add_sub_cancel_left]
    have hrest : p.drop (start + 2 + uint16 a b) = q.drop (uint16 a b) := by
      rw [← List.drop_drop, hq]
    rw [hdata, hrest, ← eq_vector16_append hb, ← hdrop, List.take_append_drop,
      List.length_take, Nat.min_eq_left hb]
    exact ⟨uint16_lt a b, rfl⟩
  · rintro ⟨hdata, heq⟩
    dsimp only at hdata heq
    have hvec : a :: b :: q = vector16 data ++ rest := by
      rw [← hdrop]
      conv_lhs => rw [heq]
      rw [List.drop_left' (by rw [List.length_take]; omega)]
    rw [vector16, putUint16, List.append_assoc, List.cons_append, List.cons_append,
      List.nil_append, List.cons.injEq, List.cons.injEq] at hvec
    obtain ⟨rfl, rfl, rfl⟩ := hvec
    rw [uint16_putUint16 hdata]
    rw [List.length_append] at hlen
    refine ⟨by omega, data, ?_, rest, ?_, rfl⟩
    · rw [List.drop_take, hq, Nat.add_sub_cancel_left, List.take_left]
    · rw [← List.drop_drop, hq, List.drop_left]

end Decides

end Wire

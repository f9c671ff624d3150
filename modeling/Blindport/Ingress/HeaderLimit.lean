import Blindport.Wire.Reader
import Blindport.Wire.Search

/-!
# Blindport.Ingress.HeaderLimit

`http_challenge.go`: `headerLimitReader`, which bounds what an HTTP parser reads
before the empty line that ends the headers and records it.  The reader keeps only
three bytes between two reads; `Reading.Ok` says what they are, whatever pieces the
stream came in.
-/

namespace Ingress

open Wire

/-- CR LF CR LF. -/
def terminator : Bytes := [13, 10, 13, 10]

/-- What a `Read` fails with. -/
inductive HeaderError
  | headerTooLarge
  | reader (e : ReadError)
deriving DecidableEq

/-- `headerLimitReader`, without the reader under it. -/
structure HeaderLimitReader where
  remaining : Nat
  done : Bool
  tail : Bytes
  header : Bytes

/-- `newHeaderLimitReader`. -/
def newHeaderLimitReader (limit : Nat) : HeaderLimitReader where
  remaining := limit
  done := false
  tail := []
  header := []

namespace HeaderLimitReader

/-- What the reader keeps of `n` bytes that a limited read returned. -/
def record (r : HeaderLimitReader) (p : Bytes) : HeaderLimitReader :=
  let combined := r.tail ++ p
  let r := { r with remaining := r.remaining - p.length, header := r.header ++ p }
  if terminator <:+: combined then { r with done := true }
  else if combined.length > 3 then { r with tail := combined.drop (combined.length - 3) }
  else { r with tail := combined }

/-- The part of a buffer of `size` bytes that a limited read fills. -/
def asked (r : HeaderLimitReader) (size : Nat) : Nat :=
  if size > r.remaining then r.remaining else size

/-- `Read` into a buffer of `size` bytes: the bytes and the error it returns, and the
two readers after it. -/
def read {σ : Type} (R : Reader σ) (r : HeaderLimitReader) (s : σ) (size : Nat) :
    Bytes × Option HeaderError × HeaderLimitReader × σ :=
  if r.done then
    let answer := R.read s size
    (answer.1, answer.2.1.map .reader, r, answer.2.2)
  else if r.remaining = 0 then ([], some .headerTooLarge, r, s)
  else
    let answer := R.read s (r.asked size)
    let after := r.record answer.1
    if answer.1.length = 0 ∧ answer.2.1 = none ∧ after.remaining = 0 then
      ([], some .headerTooLarge, after, answer.2.2)
    else (answer.1, answer.2.1.map .reader, after, answer.2.2)

theorem record_remaining (r : HeaderLimitReader) (p : Bytes) :
    (r.record p).remaining = r.remaining - p.length := by
  simp only [record]
  split
  · rfl
  · split <;> rfl

theorem record_header (r : HeaderLimitReader) (p : Bytes) :
    (r.record p).header = r.header ++ p := by
  simp only [record]
  split
  · rfl
  · split <;> rfl

/-- The terminator is looked for in the tail and the new bytes. -/
theorem record_done {r : HeaderLimitReader} (h : r.done = false) (p : Bytes) :
    (r.record p).done = true ↔ terminator <:+: r.tail ++ p := by
  unfold record
  by_cases hin : terminator <:+: r.tail ++ p
  · simp [hin]
  · simp only [if_neg hin]
    split <;> simp [h, hin]

/-- Without one, the last three bytes are kept. -/
theorem record_tail {r : HeaderLimitReader} {p : Bytes} (h : ¬terminator <:+: r.tail ++ p) :
    (r.record p).tail = lastN 3 (r.tail ++ p) := by
  unfold record
  simp only [if_neg h]
  split
  · rfl
  · rename_i hlen
    rw [lastN_of_length_le (Nat.le_of_not_gt hlen)]

end HeaderLimitReader

/-! ## a run of reads -/

/-- A reader in use; `handed` are the bytes its callers got so far. -/
structure Reading (σ : Type) where
  limited : HeaderLimitReader
  source : σ
  handed : Bytes

namespace Reading

variable {σ : Type} {R : Reader σ} {limit : Nat} {s : σ} {x : Reading σ} {size : Nat}

/-- What a caller gets from one `Read`. -/
def answer (R : Reader σ) (x : Reading σ) (size : Nat) : Bytes × Option HeaderError :=
  let result := x.limited.read R x.source size
  (result.1, result.2.1)

/-- One `Read`. -/
def step (R : Reader σ) (x : Reading σ) (size : Nat) : Reading σ :=
  let result := x.limited.read R x.source size
  ⟨result.2.2.1, result.2.2.2, x.handed ++ result.1⟩

/-- A new reader. -/
def start (limit : Nat) (s : σ) : Reading σ := ⟨newHeaderLimitReader limit, s, []⟩

/-- Reads into buffers of the given sizes, one after the other. -/
def run (R : Reader σ) (x : Reading σ) (sizes : List Nat) : Reading σ := sizes.foldl (step R) x

/-- A reader that has not seen the end of the headers. -/
structure Limited (limit : Nat) (x : Reading σ) : Prop where
  budget : x.limited.remaining + x.handed.length = limit
  tail : x.limited.tail = lastN 3 x.handed
  header : x.limited.header = x.handed

/-- What holds between two reads. -/
structure Ok (R : Reader σ) (limit : Nat) (s : σ) (x : Reading σ) : Prop where
  stream : R.unread s = x.handed ++ R.unread x.source
  found : x.limited.done = true ↔ terminator <:+: x.handed
  limited : x.limited.done = false → Limited limit x

theorem start_ok (R : Reader σ) (limit : Nat) (s : σ) : Ok R limit s (start limit s) :=
  ⟨rfl, by simp [start, newHeaderLimitReader, terminator], fun _ => ⟨rfl, rfl, rfl⟩⟩

/-! ### one read -/

/-- The bytes the source returns to a limited read. -/
def piece (R : Reader σ) (x : Reading σ) (size : Nat) : Bytes :=
  (R.read x.source (x.limited.asked size)).1

theorem length_piece_le (R : Reader σ) (x : Reading σ) (size : Nat) :
    (piece R x size).length ≤ x.limited.remaining := by
  have hle := R.length_read x.source (x.limited.asked size)
  have hasked : x.limited.asked size ≤ x.limited.remaining := by
    unfold HeaderLimitReader.asked
    split <;> omega
  exact hle.trans hasked

/-- Behind the headers a read goes through. -/
theorem step_done (h : x.limited.done = true) :
    step R x size = ⟨x.limited, (R.read x.source size).2.2,
      x.handed ++ (R.read x.source size).1⟩ ∧
    answer R x size = ((R.read x.source size).1, (R.read x.source size).2.1.map .reader) := by
  unfold step answer HeaderLimitReader.read
  rw [if_pos h]
  exact ⟨rfl, rfl⟩

/-- At the limit nothing is read. -/
theorem step_full (h : x.limited.done = false) (h0 : x.limited.remaining = 0) :
    step R x size = x ∧ answer R x size = ([], some .headerTooLarge) := by
  unfold step answer HeaderLimitReader.read
  have hnot : ¬x.limited.done = true := by simp [h]
  simp only [if_neg hnot, if_pos h0, List.append_nil]
  exact ⟨trivial, trivial⟩

/-- Below it the bytes of the source are recorded and returned. -/
theorem step_limited (h : x.limited.done = false) (h0 : x.limited.remaining ≠ 0) :
    step R x size = ⟨x.limited.record (piece R x size),
      (R.read x.source (x.limited.asked size)).2.2, x.handed ++ piece R x size⟩ ∧
    answer R x size = (piece R x size,
      (R.read x.source (x.limited.asked size)).2.1.map .reader) := by
  -- an empty read leaves the budget as it was, so the last check of `Read` never holds
  have hcheck : ¬((R.read x.source (x.limited.asked size)).1.length = 0 ∧
      (R.read x.source (x.limited.asked size)).2.1 = none ∧
      (x.limited.record (R.read x.source (x.limited.asked size)).1).remaining = 0) := by
    rintro ⟨hlen, -, hzero⟩
    rw [HeaderLimitReader.record_remaining, hlen] at hzero
    exact h0 hzero
  have hnot : ¬x.limited.done = true := by simp [h]
  unfold step answer HeaderLimitReader.read
  simp only [if_neg hnot, if_neg h0, if_neg hcheck]
  exact ⟨rfl, rfl⟩

/-- **A read keeps `Ok`.** -/
theorem step_ok (hx : Ok R limit s x) (size : Nat) : Ok R limit s (step R x size) := by
  cases hdone : x.limited.done with
  | true =>
      rw [(step_done hdone).1]
      have hterm := hx.found.mp hdone
      constructor
      · rw [hx.stream, R.unread_eq x.source size, List.append_assoc]
      · have hin : terminator <:+: x.handed ++ (R.read x.source size).1 :=
          hterm.trans (List.prefix_append _ _).isInfix
        simp [hdone, hin]
      · simp [hdone]
  | false =>
      have hlim := hx.limited hdone
      by_cases h0 : x.limited.remaining = 0
      · rw [(step_full hdone h0).1]
        exact hx
      · rw [(step_limited hdone h0).1]
        have hnot : ¬terminator <:+: x.handed := by
          rw [← hx.found, hdone]
          decide
        have hsearch : terminator <:+: x.handed ++ piece R x size ↔
            terminator <:+: x.limited.tail ++ piece R x size := by
          rw [infix_append_iff hnot, hlim.tail]
          rfl
        have hfound := HeaderLimitReader.record_done hdone (piece R x size)
        constructor
        · rw [hx.stream, R.unread_eq x.source (x.limited.asked size), List.append_assoc]
          rfl
        · exact hfound.trans hsearch.symm
        · intro hstill
          have hno : ¬terminator <:+: x.limited.tail ++ piece R x size := by
            rw [← hfound, hstill]
            decide
          have hbudget := hlim.budget
          have hpiece := length_piece_le R x size
          constructor
          · rw [HeaderLimitReader.record_remaining, List.length_append]
            omega
          · rw [HeaderLimitReader.record_tail hno, hlim.tail, lastN_append]
          · rw [HeaderLimitReader.record_header, hlim.header]

/-- **Every run keeps `Ok`.** -/
theorem run_ok (hx : Ok R limit s x) (sizes : List Nat) : Ok R limit s (run R x sizes) := by
  induction sizes generalizing x with
  | nil => exact hx
  | cons size sizes ih => exact ih (step_ok hx size)

theorem run_append (R : Reader σ) (x : Reading σ) (sizes more : List Nat) :
    run R x (sizes ++ more) = run R (run R x sizes) more := List.foldl_append

/-- Behind the headers nothing is recorded any more. -/
theorem run_limited_of_done (h : x.limited.done = true) (sizes : List Nat) :
    (run R x sizes).limited = x.limited := by
  induction sizes generalizing x with
  | nil => rfl
  | cons size sizes ih =>
      have hstep : (step R x size).limited = x.limited := by rw [(step_done h).1]
      exact (ih (by rw [hstep]; exact h)).trans hstep

/-! ### what a read returns -/

/-- `errHeaderTooLarge` is returned exactly at the limit. -/
theorem answer_tooLarge_iff (hx : Ok R limit s x) (size : Nat) :
    (answer R x size).2 = some .headerTooLarge ↔
      x.limited.done = false ∧ x.handed.length = limit := by
  cases hdone : x.limited.done with
  | true =>
      rw [(step_done hdone).2]
      simp
  | false =>
      have hbudget := (hx.limited hdone).budget
      by_cases h0 : x.limited.remaining = 0
      · rw [(step_full hdone h0).2]
        simp only [true_and, true_iff]
        omega
      · rw [(step_limited hdone h0).2]
        simp only [true_and, Option.map_eq_some_iff, reduceCtorEq, and_false, exists_false,
          false_iff]
        omega

end Reading

open Reading in
/-- **The header limit.**  Whatever pieces the stream comes in, and whatever buffers
the callers bring: what they get is the stream, in order; the reader stops limiting
with the read that hands on the end of the first terminator, and with no other; until
then it has recorded every byte and handed on at most `limit`, and fails once it has
handed on so many; what it has recorded at the end is every byte up to that read. -/
theorem header_limit {σ : Type} (R : Reader σ) (s : σ) (limit : Nat) (sizes : List Nat) :
    let x := run R (start limit s) sizes
    R.unread s = x.handed ++ R.unread x.source ∧
    (x.limited.done = true ↔ terminator <:+: x.handed) ∧
    (x.limited.done = false → x.handed.length ≤ limit ∧ x.limited.header = x.handed) ∧
    (∀ size, (Reading.answer R x size).2 = some .headerTooLarge ↔
      x.limited.done = false ∧ x.handed.length = limit) ∧
    (∀ size, x.limited.done = false → x.handed.length = limit →
      step R x size = x ∧ (Reading.answer R x size).1 = []) ∧
    (∀ size, x.limited.done = true → Reading.answer R x size =
      ((R.read x.source size).1, (R.read x.source size).2.1.map .reader)) ∧
    (∀ size, x.limited.done = false → (step R x size).limited.done = true →
      (step R x size).handed.length ≤ limit ∧
      ∀ more, (run R (start limit s) (sizes ++ size :: more)).limited.header =
        (step R x size).handed) := by
  intro x
  have hx : Ok R limit s x := run_ok (start_ok R limit s) sizes
  refine ⟨hx.stream, hx.found, ?_, answer_tooLarge_iff hx, ?_, ?_, ?_⟩
  · intro hdone
    have hlim := hx.limited hdone
    exact ⟨by have := hlim.budget; omega, hlim.header⟩
  · intro size hdone hfull
    have hbudget := (hx.limited hdone).budget
    have hstep : step R x size = x ∧ Reading.answer R x size = ([], some .headerTooLarge) :=
      step_full hdone (by omega)
    exact ⟨hstep.1, by rw [hstep.2]⟩
  · intro size hdone
    exact (step_done hdone).2
  · intro size hdone hnow
    have hlim := hx.limited hdone
    have h0 : x.limited.remaining ≠ 0 := by
      intro h0
      rw [(step_full hdone h0).1, hdone] at hnow
      contradiction
    have hbudget := hlim.budget
    have hpiece := length_piece_le R x size
    constructor
    · rw [(step_limited hdone h0).1, List.length_append]
      omega
    · intro more
      rw [run_append]
      have hrest := run_limited_of_done (R := R) hnow more
      have hrun : run R (run R (start limit s) sizes) (size :: more) = run R (step R x size) more :=
        rfl
      rw [hrun, hrest, (step_limited hdone h0).1, HeaderLimitReader.record_header, hlim.header]

end Ingress

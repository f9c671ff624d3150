import Blindport.Wire.Bytes

/-!
# Blindport.Wire.Reader

Byte streams behind a `Read` method.  A `Reader` hands its stream on in whatever
pieces it likes; a `Source` also reports an error only once nothing is left, and
never returns nothing without one.  `readFull` is `io.ReadFull`, and its result
depends only on the stream (`readFull_ok`, `readFull_short`), not on the pieces.
A `Writer` takes bytes, all of them unless it fails.

`replay` reads bytes that were taken from a stream once more, before the rest of it:
`io.MultiReader(bytes.NewReader(..), source)`.
-/

namespace Wire

/-- What a `Read` returns next to its bytes when it fails. -/
inductive ReadError
  | eof
  | unexpectedEOF
  | failed (cause : String)
deriving DecidableEq

/-- A stream with a `Read` method.  `unread` is what the stream still has to give. -/
structure Reader (σ : Type) where
  read : σ → Nat → Bytes × Option ReadError × σ
  unread : σ → Bytes
  length_read : ∀ s n, (read s n).1.length ≤ n
  unread_eq : ∀ s n, unread s = (read s n).1 ++ unread (read s n).2.2

/-- A reader that waits for bytes, and fails only at the end of its stream. -/
structure Source (σ : Type) extends Reader σ where
  progress : ∀ s n, 0 < n → (read s n).2.1 = none → (read s n).1 ≠ []
  error_last : ∀ s n, (read s n).2.1 ≠ none → unread (read s n).2.2 = []

/-! ## reading all of a buffer -/

namespace Source

variable {σ : Type} (R : Source σ)

/-- The error of a `ReadFull` that got some bytes. -/
def partialError (e : ReadError) (got : Bytes) : ReadError :=
  if e = .eof ∧ got ≠ [] then .unexpectedEOF else e

/-- The loop of `io.ReadFull` with `n` bytes to go. -/
def readFullLoop (s : σ) (n : Nat) (got : Bytes) : Except ReadError Bytes × σ :=
  if n = 0 then (.ok got, s)
  else
    let step := R.read s n
    if step.1.length = n then (.ok (got ++ step.1), step.2.2)
    else
      match _herr : step.2.1 with
      | some e => (.error (partialError e (got ++ step.1)), step.2.2)
      | none => readFullLoop step.2.2 (n - step.1.length) (got ++ step.1)
termination_by n
decreasing_by
  have hpos := List.length_pos_iff.mpr (R.progress s n (by omega) _herr)
  omega

/-- `io.ReadFull` into a buffer of `n` bytes. -/
def readFull (s : σ) (n : Nat) : Except ReadError Bytes × σ := R.readFullLoop s n []

variable {R} {s s' : σ} {n : Nat} {got : Bytes}

theorem readFullLoop_full (hn : n ≠ 0) (hfull : (R.read s n).1.length = n) :
    R.readFullLoop s n got = (.ok (got ++ (R.read s n).1), (R.read s n).2.2) := by
  rw [readFullLoop, if_neg hn]
  exact if_pos hfull

theorem readFullLoop_fails {e : ReadError} (hn : n ≠ 0) (hshort : (R.read s n).1.length ≠ n)
    (herr : (R.read s n).2.1 = some e) :
    R.readFullLoop s n got =
      (.error (partialError e (got ++ (R.read s n).1)), (R.read s n).2.2) := by
  rw [readFullLoop, if_neg hn]
  simp only [if_neg hshort]
  split
  · rename_i e' he'
    rw [Option.some.inj (he'.symm.trans herr)]
  · rename_i hnone
    rw [hnone] at herr
    contradiction

theorem readFullLoop_more (hn : n ≠ 0) (hshort : (R.read s n).1.length ≠ n)
    (hnone : (R.read s n).2.1 = none) :
    R.readFullLoop s n got = R.readFullLoop (R.read s n).2.2 (n - (R.read s n).1.length)
      (got ++ (R.read s n).1) := by
  rw [readFullLoop, if_neg hn]
  simp only [if_neg hshort]
  split
  · rename_i e herr
    rw [hnone] at herr
    contradiction
  · rfl

/-- Enough bytes are there, and they are taken from the front; or all are taken and
there is an error. -/
theorem readFullLoop_spec (n : Nat) : ∀ (s : σ) (got : Bytes),
    (n ≤ (R.unread s).length →
      (R.readFullLoop s n got).1 = .ok (got ++ (R.unread s).take n) ∧
        R.unread (R.readFullLoop s n got).2 = (R.unread s).drop n) ∧
    ((R.unread s).length < n →
      (∃ e, (R.readFullLoop s n got).1 = .error e) ∧
        R.unread (R.readFullLoop s n got).2 = []) := by
  induction n using Nat.strongRecOn with
  | ind n ih =>
      intro s got
      have hle := R.length_read s n
      have heq := R.unread_eq s n
      have hlen := congrArg List.length heq
      rw [List.length_append] at hlen
      by_cases hn : n = 0
      · rw [readFullLoop, if_pos hn, hn]
        simp
      · by_cases hfull : (R.read s n).1.length = n
        · rw [readFullLoop_full hn hfull]
          constructor
          · intro _
            rw [heq, List.take_left' hfull, List.drop_left' hfull]
            exact ⟨rfl, rfl⟩
          · omega
        · cases herr : (R.read s n).2.1 with
          | some e =>
              -- a short read with an error: nothing is left behind it
              have hlast := R.error_last s n (by rw [herr]; simp)
              rw [readFullLoop_fails hn hfull herr]
              rw [hlast, List.length_nil] at hlen
              constructor
              · omega
              · exact fun _ => ⟨⟨_, rfl⟩, hlast⟩
          | none =>
              have hpos := List.length_pos_iff.mpr (R.progress s n (by omega) herr)
              have hrest := ih (n - (R.read s n).1.length) (by omega) (R.read s n).2.2
                (got ++ (R.read s n).1)
              have htake : (R.unread s).take n = (R.read s n).1 ++
                  (R.unread (R.read s n).2.2).take (n - (R.read s n).1.length) := by
                conv_lhs => rw [heq]
                rw [List.take_append, List.take_of_length_le hle]
              have hdrop : (R.unread s).drop n =
                  (R.unread (R.read s n).2.2).drop (n - (R.read s n).1.length) := by
                conv_lhs => rw [heq]
                rw [List.drop_append, List.drop_of_length_le hle, List.nil_append]
              rw [readFullLoop_more hn hfull herr, htake, hdrop, ← List.append_assoc]
              exact ⟨fun h => hrest.1 (by omega), fun h => hrest.2 (by omega)⟩

/-- `ReadFull` of a stream that holds enough. -/
theorem readFull_ok (h : n ≤ (R.unread s).length) :
    (R.readFull s n).1 = .ok ((R.unread s).take n) ∧
      R.unread (R.readFull s n).2 = (R.unread s).drop n :=
  (readFullLoop_spec n s []).1 h

/-- `ReadFull` of a stream whose front has the length of the buffer. -/
theorem readFull_append {front rest : Bytes} (h : R.unread s = front ++ rest)
    (hn : front.length = n) : ∃ s', R.readFull s n = (.ok front, s') ∧ R.unread s' = rest := by
  have hok := readFull_ok (R := R) (s := s) (n := n) (by rw [h, List.length_append]; omega)
  rw [h, List.take_left' hn, List.drop_left' hn] at hok
  exact ⟨_, Prod.ext hok.1 rfl, hok.2⟩

/-- `ReadFull` of a stream that ends before. -/
theorem readFull_short (h : (R.unread s).length < n) :
    (∃ e, (R.readFull s n).1 = .error e) ∧ R.unread (R.readFull s n).2 = [] :=
  (readFullLoop_spec n s []).2 h

/-- What a successful `ReadFull` returns is the front of the stream. -/
theorem unread_of_readFull {bs : Bytes} (h : R.readFull s n = (.ok bs, s')) :
    bs.length = n ∧ R.unread s = bs ++ R.unread s' := by
  by_cases hlen : n ≤ (R.unread s).length
  · obtain ⟨hok, hdrop⟩ := readFull_ok hlen
    rw [h] at hok hdrop
    rw [Except.ok.inj hok, hdrop, List.take_append_drop, List.length_take]
    exact ⟨by omega, rfl⟩
  · obtain ⟨⟨e, he⟩, -⟩ := readFull_short (Nat.lt_of_not_le hlen)
    rw [h] at he
    contradiction

/-- `ReadFull` takes bytes from the front, and at most as many as its buffer has. -/
theorem readFull_consumes (R : Source σ) (s : σ) (n : Nat) :
    ∃ taken, taken.length ≤ n ∧ R.unread s = taken ++ R.unread (R.readFull s n).2 := by
  by_cases hlen : n ≤ (R.unread s).length
  · obtain ⟨-, hdrop⟩ := readFull_ok hlen
    rw [hdrop]
    exact ⟨_, List.length_take_le n _, (List.take_append_drop n _).symm⟩
  · obtain ⟨-, hnil⟩ := readFull_short (Nat.lt_of_not_le hlen)
    rw [hnil]
    exact ⟨R.unread s, by omega, by simp⟩

end Source

/-! ## writing -/

/-- A stream with a `Write` method.  `written` is what it has taken. -/
structure Writer (σ : Type) where
  write : σ → Bytes → Option String × σ
  written : σ → Bytes
  written_eq : ∀ s bs, (write s bs).1 = none → written (write s bs).2 = written s ++ bs

/-- A buffer takes everything. -/
def Writer.buffer : Writer Bytes where
  write := fun s bs => (none, s ++ bs)
  written := fun s => s
  written_eq := fun _ _ _ => rfl

/-! ## reading once more -/

/-- `io.MultiReader(bytes.NewReader(replayed), source)`. -/
def Source.replay {σ : Type} (R : Source σ) : Source (Bytes × σ) where
  read := fun s n =>
    if s.1 ≠ [] then (s.1.take n, none, (s.1.drop n, s.2))
    else ((R.read s.2 n).1, (R.read s.2 n).2.1, ([], (R.read s.2 n).2.2))
  unread := fun s => s.1 ++ R.unread s.2
  length_read := by
    intro s n
    split
    · exact List.length_take_le n _
    · exact R.length_read s.2 n
  unread_eq := by
    intro s n
    split
    · simp [← List.append_assoc]
    · have hs : s.1 = [] := by simpa using ‹¬s.1 ≠ []›
      simpa [hs] using R.unread_eq s.2 n
  progress := by
    intro s n hn
    split
    · rename_i hs
      intro _ htake
      cases hbytes : s.1 with
      | nil => exact hs hbytes
      | cons b bs =>
          obtain ⟨m, rfl⟩ := Nat.exists_eq_add_of_lt hn
          simp [hbytes] at htake
    · exact R.progress s.2 n hn
  error_last := by
    intro s n
    split
    · simp
    · simpa using R.error_last s.2 n

/-! ## a stream in pieces -/

/-- A connection that hands its pieces on one after the other. -/
def pieces : Source (List Bytes) where
  read := fun s n =>
    match s.filter (· ≠ []) with
    | [] => ([], some .eof, [])
    | p :: rest => (p.take n, none, p.drop n :: rest)
  unread := List.flatten
  length_read := by
    intro s n
    split
    · exact Nat.zero_le n
    · exact List.length_take_le n _
  unread_eq := by
    intro s n
    have hflat : s.flatten = (s.filter (· ≠ [])).flatten := by
      induction s with
      | nil => rfl
      | cons p s ih =>
          by_cases hp : p = []
          · simp [hp, ih]
          · simp [hp, ih]
    split
    · rename_i hs
      rw [hflat, hs]
      rfl
    · rename_i p rest hs
      rw [hflat, hs]
      simp [← List.append_assoc]
  progress := by
    intro s n hn
    split
    · simp
    · rename_i p rest hs
      have hp : p ≠ [] := by
        have hmem : p ∈ s.filter (· ≠ []) := by rw [hs]; simp
        simpa using (List.mem_filter.mp hmem).2
      intro _ htake
      cases p with
      | nil => exact hp rfl
      | cons b bs =>
          obtain ⟨m, rfl⟩ := Nat.exists_eq_add_of_lt hn
          simp at htake
  error_last := by
    intro s n
    split <;> simp

end Wire

import Mathlib.Data.List.Infix
import Blindport.Wire.Bytes

/-!
# Blindport.Wire.Search

Searching a stream that comes in pieces: a pattern of `k` bytes that is not in the
bytes before is in the bytes with one more piece exactly when it is in the last
`k - 1` bytes before and the piece (`infix_append_iff`).
-/

namespace Wire

variable {α : Type}

/-- The last `k` items of a list, or all of it. -/
def lastN (k : Nat) (l : List α) : List α := l.drop (l.length - k)

theorem lastN_of_length_le {k : Nat} {l : List α} (h : l.length ≤ k) : lastN k l = l := by
  rw [lastN, Nat.sub_eq_zero_of_le h, List.drop_zero]

theorem lastN_append (k : Nat) (l : List α) (piece : List α) :
    lastN k (lastN k l ++ piece) = lastN k (l ++ piece) := by
  have hdrop : lastN k l ++ piece = (l ++ piece).drop (l.length - k) := by
    rw [lastN, List.drop_append_of_le_length (Nat.sub_le l.length k)]
  rw [hdrop, lastN, List.drop_drop, lastN, List.length_drop, List.length_append]
  congr 1
  omega

/-- **A pattern that starts before the last bytes would have been there before.** -/
theorem infix_append_iff {pattern before piece : List α} (h : ¬pattern <:+: before) :
    pattern <:+: before ++ piece ↔
      pattern <:+: lastN (pattern.length - 1) before ++ piece := by
  constructor
  · rintro ⟨front, back, heq⟩
    have hlate : before.length < front.length + pattern.length := by
      by_contra hle
      have hprefix : front ++ pattern <+: before := by
        have hwhole : front ++ pattern <+: before ++ piece := ⟨back, heq⟩
        apply List.prefix_of_prefix_length_le hwhole (List.prefix_append before piece)
        rw [List.length_append]
        omega
      exact h ((List.suffix_append front pattern).isInfix.trans hprefix.isInfix)
    have hskip : before.length - (pattern.length - 1) ≤ front.length := by omega
    refine ⟨front.drop (before.length - (pattern.length - 1)), back, ?_⟩
    rw [lastN, ← List.drop_append_of_le_length (Nat.sub_le _ _), ← heq, List.append_assoc,
      List.append_assoc, List.drop_append_of_le_length hskip]
  · intro hin
    have hsuffix : lastN (pattern.length - 1) before ++ piece <:+ before ++ piece := by
      rw [lastN, ← List.drop_append_of_le_length (Nat.sub_le _ _)]
      exact List.drop_suffix _ _
    exact hin.trans hsuffix.isInfix

end Wire

import Blindport.Data.Tally
import Blindport.Tunnel.Conn
import Mathlib.Data.Finset.Max

/-!
# Blindport.Tunnel.Eviction

`internal/tunnel/tunnel.go`, `insertStream` and `evictionVictimLocked` with their
passes over Go maps, whose orders are arbitrary.  The activity times are those at
the moment the streams are locked.

* `insertStream_policy` — which stream leaves, and when the new one is refused;
* `admits_congr` — the orders decide between equal candidates only;
* `length_le` — the limit holds in every run;
* `swaps_bounded` — a run of fair-share swaps ends;
* `evictionVictimLocked_iff` — `Conn.evictionVictim` allows the streams that some
  order chooses, and no other.
-/

namespace Tunnel

open Tally

/-- `EvictionReason`. -/
inductive EvictionReason where
  | idle
  | fairShare
deriving DecidableEq, Repr

/-- The orders in which the three loops of `evictionVictimLocked` see their maps. -/
structure Ranges where
  candidates : MapOrder Stream
  groups : MapOrder (String × Nat)
  members : MapOrder Stream

/-- The first loop: the streams of each source group, and the least recently active
stream without activity since `cutoff`. -/
def surveyStreams (cutoff : Int) (streams : List Stream) : List (String × Nat) × Option Stream :=
  streams.foldl
    (fun acc candidate =>
      (bump acc.1 candidate.sourceGroup,
        keepLeast (·.lastActivity ≤ cutoff) (·.lastActivity) acc.2 candidate))
    ([], none)

/-- `evictionVictimLocked`. -/
def evictionVictimLocked (r : Ranges) (evictIdle now : Int) (streams : List Stream)
    (requester : String) : Option (Stream × EvictionReason) :=
  let cutoff := now - evictIdle
  let (counts, idle) := surveyStreams cutoff (r.candidates.range streams)
  match idle with
  | some idle => some (idle, .idle)
  | none =>
      let (heaviest, heaviestCount) := top "" (r.groups.range counts)
      if heaviest = requester ∨ heaviestCount < countOf counts requester + 2 then none
      else
        (least (·.sourceGroup = heaviest) (·.lastActivity) (r.members.range streams)).map
          (·, .fairShare)

/-! ## the map of open streams -/

/-- `Conn.streams`: at most one stream under an ID. -/
structure Streams where
  all : List Stream
  ids_nodup : (all.map (·.id)).Nodup

namespace Streams

/-- `newConn` starts without streams. -/
def empty : Streams := ⟨[], List.nodup_nil⟩

/-- The source group of each open stream. -/
def groups (m : Streams) : List String := m.all.map (·.sourceGroup)

/-- `delete(c.streams, id)`. -/
def delete (m : Streams) (id : Nat) : Streams where
  all := m.all.filter (·.id ≠ id)
  ids_nodup := m.ids_nodup.sublist (List.filter_sublist.map _)

/-- `c.streams[s.ID] = s`. -/
def put (m : Streams) (s : Stream) : Streams where
  all := s :: (m.delete s.id).all
  ids_nodup := by
    rw [List.map_cons, List.nodup_cons]
    refine ⟨?_, (m.delete s.id).ids_nodup⟩
    simp [delete]

/-- `lastActivity.Store` on the stream with an ID. -/
def touch (m : Streams) (id : Nat) (now : Int) : Streams where
  all := m.all.map fun s => if s.id = id then { s with lastActivity := now } else s
  ids_nodup := by
    have hids : (fun s : Stream => (if s.id = id then { s with lastActivity := now } else s).id) =
        (·.id) := by
      funext s
      split <;> rfl
    rw [List.map_map, Function.comp_def, hids]
    exact m.ids_nodup

/-- The errors of `insertStream`. -/
inductive InsertError where
  | zeroStreamID
  | duplicateStreamID
  | streamLimit
deriving DecidableEq, Repr

/-- `insertStream`, with the map it leaves. -/
def insertStream (r : Ranges) (maxStreams : Nat) (evictIdle now : Int) (m : Streams) (s : Stream)
    (evict : Bool) : Except InsertError (Option (Stream × EvictionReason) × Streams) :=
  if s.id = 0 then .error .zeroStreamID
  else if m.all.any (·.id = s.id) then .error .duplicateStreamID
  else if m.all.length ≥ maxStreams then
    match if evict then evictionVictimLocked r evictIdle now m.all s.sourceGroup else none with
    | none => .error .streamLimit
    | some (victim, reason) => .ok (some (victim, reason), (m.delete victim.id).put s)
  else .ok (none, m.put s)

end Streams

/-! ## the policy -/

/-- The stream has been without activity for at least `evictIdle`. -/
def Idle (evictIdle now : Int) (s : Stream) : Prop := s.lastActivity ≤ now - evictIdle

instance (evictIdle now : Int) (s : Stream) : Decidable (Idle evictIdle now s) :=
  inferInstanceAs (Decidable (s.lastActivity ≤ now - evictIdle))

/-- The group holds a stream, and no group holds more. -/
def Heaviest (groups : List String) (group : String) : Prop :=
  group ∈ groups ∧ ∀ g, groups.count g ≤ groups.count group

/-- The stream is one of a set and no other of the set was active before it. -/
def LeastActive (P : Stream → Prop) (streams : List Stream) (s : Stream) : Prop :=
  (s ∈ streams ∧ P s) ∧ ∀ t ∈ streams, P t → s.lastActivity ≤ t.lastActivity

section Policy

variable (r : Ranges) (evictIdle now : Int) (streams : List Stream) (requester : String)

/-- The first loop does its two jobs independently. -/
theorem surveyStreams_eq (cutoff : Int) (l : List Stream) :
    surveyStreams cutoff l =
      (tally (l.map (·.sourceGroup)), least (·.lastActivity ≤ cutoff) (·.lastActivity) l) := by
  have hfold : ∀ acc : List (String × Nat) × Option Stream,
      l.foldl (fun acc candidate =>
        (bump acc.1 candidate.sourceGroup,
          keepLeast (·.lastActivity ≤ cutoff) (·.lastActivity) acc.2 candidate)) acc =
        ((l.map (·.sourceGroup)).foldl bump acc.1,
          l.foldl (keepLeast (·.lastActivity ≤ cutoff) (·.lastActivity)) acc.2) := by
    induction l with
    | nil => exact fun _ => rfl
    | cons s l ih =>
        intro acc
        rw [List.foldl_cons, ih, List.map_cons, List.foldl_cons, List.foldl_cons]
  exact hfold ([], none)

/-- The idle stream the first loop finds is a least recently active one. -/
theorem evictionVictimLocked_idle (h : ∃ t ∈ streams, Idle evictIdle now t) :
    ∃ v, evictionVictimLocked r evictIdle now streams requester = some (v, .idle) ∧
      LeastActive (Idle evictIdle now) streams v := by
  rw [evictionVictimLocked, surveyStreams_eq]
  dsimp only
  cases hleast : least (fun s : Stream => decide (s.lastActivity ≤ now - evictIdle))
      (·.lastActivity) (r.candidates.range streams) with
  | none =>
      obtain ⟨t, ht, hidle⟩ := h
      rw [least_eq_none_iff] at hleast
      have hnot := hleast t ((r.candidates.mem_range).mpr ht)
      rw [decide_eq_false_iff_not] at hnot
      exact absurd hidle hnot
  | some v =>
      obtain ⟨hmem, hidle, hmin⟩ := least_eq_some hleast
      rw [MapOrder.mem_range] at hmem
      have hidle : Idle evictIdle now v := of_decide_eq_true hidle
      refine ⟨v, rfl, ⟨hmem, hidle⟩, fun t ht hidle => ?_⟩
      exact hmin t ((r.candidates.mem_range).mpr ht) (decide_eq_true hidle)

/-- Without an idle stream the second and the third loop decide. -/
theorem evictionVictimLocked_busy (h : ¬∃ t ∈ streams, Idle evictIdle now t) :
    evictionVictimLocked r evictIdle now streams requester =
      let counts := tally ((r.candidates.range streams).map (·.sourceGroup))
      if (top "" (r.groups.range counts)).1 = requester ∨
          (top "" (r.groups.range counts)).2 < countOf counts requester + 2 then none
      else
        (least (fun s : Stream => decide (s.sourceGroup = (top "" (r.groups.range counts)).1))
          (·.lastActivity) (r.members.range streams)).map (·, .fairShare) := by
  have hnone : least (fun s : Stream => decide (s.lastActivity ≤ now - evictIdle))
      (·.lastActivity) (r.candidates.range streams) = none := by
    rw [least_eq_none_iff]
    intro t ht
    rw [decide_eq_false_iff_not]
    exact fun hidle => h ⟨t, (r.candidates.mem_range).mp ht, hidle⟩
  rw [evictionVictimLocked, surveyStreams_eq]
  simp only [hnone]

variable {streams}

/-- The second loop finds a heaviest group. -/
theorem top_heaviest (hne : streams ≠ []) :
    let best := top ""
      (r.groups.range (tally ((r.candidates.range streams).map (·.sourceGroup))))
    Heaviest (streams.map (·.sourceGroup)) best.1 ∧
      best.2 = (streams.map (·.sourceGroup)).count best.1 := by
  intro best
  have hperm : ((r.candidates.range streams).map (·.sourceGroup)).Perm
      (streams.map (·.sourceGroup)) := (r.candidates.range_perm streams).map _
  have hentry : ∀ g ∈ streams.map (·.sourceGroup),
      (streams.map (·.sourceGroup)).count g ≤ best.2 := by
    intro g hg
    have hmem : (g, (streams.map (·.sourceGroup)).count g) ∈
        r.groups.range (tally ((r.candidates.range streams).map (·.sourceGroup))) := by
      rw [MapOrder.mem_range, mem_tally, hperm.mem_iff, hperm.count_eq]
      exact ⟨hg, rfl⟩
    exact le_top "" hmem
  obtain ⟨s, hs⟩ := List.exists_mem_of_ne_nil _ hne
  have hgroup : s.sourceGroup ∈ streams.map (·.sourceGroup) := List.mem_map_of_mem hs
  have hpos : 0 < best.2 := by
    have hcount := List.count_pos_iff.mpr hgroup
    have hle := hentry _ hgroup
    omega
  have hbest := top_mem "" hpos
  rw [MapOrder.mem_range] at hbest
  obtain ⟨hmem, hcount⟩ := mem_tally.mp hbest
  rw [hperm.count_eq] at hcount
  rw [hperm.mem_iff] at hmem
  refine ⟨⟨hmem, fun g => ?_⟩, hcount⟩
  by_cases hg : g ∈ streams.map (·.sourceGroup)
  · exact hcount ▸ hentry g hg
  · rw [List.count_eq_zero_of_not_mem hg]
    exact Nat.zero_le _

/-- Heaviest groups hold the same number of streams. -/
theorem Heaviest.count_eq {groups : List String} {g g' : String} (h : Heaviest groups g)
    (h' : Heaviest groups g') : groups.count g = groups.count g' :=
  Nat.le_antisymm (h'.2 g) (h.2 g')

/-- Without an idle stream, a heaviest group with at least two streams more than the
requester's loses its least recently active one. -/
theorem evictionVictimLocked_fairShare (h : ¬∃ t ∈ streams, Idle evictIdle now t) {group : String}
    (hgroup : Heaviest (streams.map (·.sourceGroup)) group)
    (hmore : (streams.map (·.sourceGroup)).count requester + 2 ≤
      (streams.map (·.sourceGroup)).count group) :
    ∃ v, evictionVictimLocked r evictIdle now streams requester = some (v, .fairShare) ∧
      Heaviest (streams.map (·.sourceGroup)) v.sourceGroup ∧
      LeastActive (·.sourceGroup = v.sourceGroup) streams v := by
  have hne : streams ≠ [] := by
    rintro rfl
    exact absurd hgroup.1 (by simp)
  obtain ⟨hheaviest, hcount⟩ := top_heaviest r hne
  have hsame := hgroup.count_eq hheaviest
  have hrequester := (((r.candidates.range_perm streams).map (·.sourceGroup)).count_eq requester)
  rw [evictionVictimLocked_busy r evictIdle now streams requester h]
  simp only [countOf_tally, hrequester, hcount]
  have hkeep : ¬((top "" (r.groups.range
      (tally ((r.candidates.range streams).map (·.sourceGroup))))).1 = requester ∨
      (streams.map (·.sourceGroup)).count (top "" (r.groups.range
        (tally ((r.candidates.range streams).map (·.sourceGroup))))).1 <
        (streams.map (·.sourceGroup)).count requester + 2) := by
    rintro (heq | hlt)
    · rw [← heq] at hmore
      omega
    · omega
  rw [if_neg hkeep]
  generalize (top "" (r.groups.range
    (tally ((r.candidates.range streams).map (·.sourceGroup))))).1 = heaviest at *
  cases hleast : least (fun s : Stream => decide (s.sourceGroup = heaviest)) (·.lastActivity)
      (r.members.range streams) with
  | none =>
      rw [least_eq_none_iff] at hleast
      obtain ⟨s, hs, heq⟩ := List.mem_map.mp hheaviest.1
      have hnot := hleast s ((r.members.mem_range).mpr hs)
      rw [decide_eq_false_iff_not] at hnot
      exact absurd heq hnot
  | some v =>
      obtain ⟨hmem, hv, hmin⟩ := least_eq_some hleast
      rw [MapOrder.mem_range] at hmem
      have hv := of_decide_eq_true hv
      refine ⟨v, rfl, hv ▸ hheaviest, ⟨hmem, rfl⟩, fun t ht hsame => ?_⟩
      exact hmin t ((r.members.mem_range).mpr ht) (decide_eq_true (hsame.trans hv))

/-- Without an idle stream and without such a group there is no victim. -/
theorem evictionVictimLocked_none (h : ¬∃ t ∈ streams, Idle evictIdle now t)
    (hless : ∀ group, Heaviest (streams.map (·.sourceGroup)) group →
      (streams.map (·.sourceGroup)).count group <
        (streams.map (·.sourceGroup)).count requester + 2) :
    evictionVictimLocked r evictIdle now streams requester = none := by
  rw [evictionVictimLocked_busy r evictIdle now streams requester h]
  by_cases hne : streams = []
  · subst hne
    have hrange : r.candidates.range [] = [] := List.perm_nil.mp (r.candidates.range_perm [])
    have hgroups : r.groups.range [] = [] := List.perm_nil.mp (r.groups.range_perm [])
    simp [hrange, hgroups, tally, top, countOf]
  · obtain ⟨hheaviest, hcount⟩ := top_heaviest r hne
    have hlt := hless _ hheaviest
    have hrequester := (((r.candidates.range_perm streams).map (·.sourceGroup)).count_eq requester)
    simp only [countOf_tally, hrequester, hcount]
    rw [if_pos (Or.inr hlt)]

end Policy

/-! ## the insertion -/

namespace Streams

variable (r : Ranges) {maxStreams : Nat} {evictIdle now : Int} {m : Streams} {s : Stream}

theorem all_put (hnew : ∀ t ∈ m.all, t.id ≠ s.id) : (m.put s).all = s :: m.all := by
  have hall : m.all.filter (fun t => decide (t.id ≠ s.id)) = m.all := by
    rw [List.filter_eq_self]
    exact fun t ht => decide_eq_true (hnew t ht)
  calc
    (m.put s).all = s :: m.all.filter (fun t => decide (t.id ≠ s.id)) := rfl
    _ = s :: m.all := by rw [hall]

/-- Deleting a stream of the map takes that stream out and no other. -/
theorem all_delete {v : Stream} (hv : v ∈ m.all) : m.all.Perm (v :: (m.delete v.id).all) := by
  have hfilter : m.all.filter (fun t => decide (t.id ≠ v.id)) = m.all.erase v := by
    rw [(List.Nodup.of_map _ m.ids_nodup).erase_eq_filter]
    apply List.filter_congr
    intro t ht
    by_cases heq : t = v
    · simp [heq]
    · have hid : t.id ≠ v.id := fun hid => heq (List.inj_on_of_nodup_map m.ids_nodup ht hv hid)
      simp [heq, hid]
  calc
    m.all.Perm (v :: m.all.erase v) := List.perm_cons_erase hv
    _ = v :: (m.delete v.id).all := by rw [← hfilter]; rfl

/-- The map after a victim has made room for `s`. -/
theorem all_replace {v : Stream} (hnew : ∀ t ∈ m.all, t.id ≠ s.id) :
    ((m.delete v.id).put s).all = s :: (m.delete v.id).all :=
  all_put fun t ht => hnew t (List.mem_of_mem_filter ht)

/-- What `insertStream` does at the limit is decided by `evictionVictimLocked`. -/
theorem insertStream_full (hid : s.id ≠ 0) (hnew : ∀ t ∈ m.all, t.id ≠ s.id)
    (hfull : maxStreams ≤ m.all.length) :
    insertStream r maxStreams evictIdle now m s true =
      match evictionVictimLocked r evictIdle now m.all s.sourceGroup with
      | none => .error .streamLimit
      | some (victim, reason) => .ok (some (victim, reason), (m.delete victim.id).put s) := by
  have hdup : m.all.any (fun t => decide (t.id = s.id)) = false := by
    rw [List.any_eq_false]
    exact fun t ht => by simpa using hnew t ht
  rw [insertStream, if_neg hid, if_neg (by simp [hdup]), if_pos hfull, if_pos rfl]

/-- The policy, at one insertion. -/
theorem insertStream_policy (hid : s.id ≠ 0) (hnew : ∀ t ∈ m.all, t.id ≠ s.id)
    (hfull : maxStreams ≤ m.all.length) :
    ((∃ t ∈ m.all, Idle evictIdle now t) →
      ∃ v, insertStream r maxStreams evictIdle now m s true =
          .ok (some (v, .idle), (m.delete v.id).put s) ∧
        LeastActive (Idle evictIdle now) m.all v) ∧
    ((¬∃ t ∈ m.all, Idle evictIdle now t) →
      (∀ group, Heaviest m.groups group →
        m.groups.count s.sourceGroup + 2 ≤ m.groups.count group →
        ∃ v, insertStream r maxStreams evictIdle now m s true =
            .ok (some (v, .fairShare), (m.delete v.id).put s) ∧
          Heaviest m.groups v.sourceGroup ∧
          LeastActive (·.sourceGroup = v.sourceGroup) m.all v) ∧
      ((∀ group, Heaviest m.groups group →
          m.groups.count group < m.groups.count s.sourceGroup + 2) →
        insertStream r maxStreams evictIdle now m s true = .error .streamLimit)) := by
  rw [insertStream_full r hid hnew hfull]
  refine ⟨fun hidle => ?_, fun hbusy => ⟨fun group hgroup hmore => ?_, fun hless => ?_⟩⟩
  · obtain ⟨v, hv, hleast⟩ := evictionVictimLocked_idle r evictIdle now m.all s.sourceGroup hidle
    exact ⟨v, by rw [hv], hleast⟩
  · obtain ⟨v, hv, hheaviest, hleast⟩ :=
      evictionVictimLocked_fairShare r evictIdle now s.sourceGroup hbusy hgroup hmore
    exact ⟨v, by rw [hv], hheaviest, hleast⟩
  · rw [evictionVictimLocked_none r evictIdle now s.sourceGroup hbusy hless]

/-- What an insertion has done when it returns. -/
theorem insertStream_ok {evict : Bool} {victim : Option (Stream × EvictionReason)} {m' : Streams}
    (h : insertStream r maxStreams evictIdle now m s evict = .ok (victim, m')) :
    (s.id ≠ 0 ∧ ∀ t ∈ m.all, t.id ≠ s.id) ∧
      ((m.all.length < maxStreams ∧ victim = none ∧ m' = m.put s) ∨
        ∃ v reason, maxStreams ≤ m.all.length ∧ evict = true ∧ victim = some (v, reason) ∧
          evictionVictimLocked r evictIdle now m.all s.sourceGroup = some (v, reason) ∧
          m' = (m.delete v.id).put s) := by
  simp only [insertStream] at h
  split at h
  · contradiction
  · rename_i hid
    split at h
    · contradiction
    · rename_i hdup
      refine ⟨⟨hid, by simpa using hdup⟩, ?_⟩
      split at h
      · rename_i hfull
        cases evict with
        | false => simp at h
        | true =>
            cases hv : evictionVictimLocked r evictIdle now m.all s.sourceGroup with
            | none => simp [hv] at h
            | some victim =>
                obtain ⟨v, reason⟩ := victim
                simp only [hv, if_true, Except.ok.injEq, Prod.mk.injEq] at h
                exact Or.inr ⟨v, reason, hfull, rfl, h.1.symm, rfl, h.2.symm⟩
      · rename_i hfull
        simp only [Except.ok.injEq, Prod.mk.injEq] at h
        exact Or.inl ⟨Nat.lt_of_not_le hfull, h.1.symm, h.2.symm⟩

end Streams

/-- The victim, where there is one, and why it is the victim. -/
theorem evictionVictimLocked_cases (r : Ranges) (evictIdle now : Int) (streams : List Stream)
    (requester : String) :
    (∃ v, evictionVictimLocked r evictIdle now streams requester = some (v, .idle) ∧
        LeastActive (Idle evictIdle now) streams v) ∨
      (¬∃ t ∈ streams, Idle evictIdle now t) ∧
        ((∃ v, evictionVictimLocked r evictIdle now streams requester = some (v, .fairShare) ∧
            Heaviest (streams.map (·.sourceGroup)) v.sourceGroup ∧
            (streams.map (·.sourceGroup)).count requester + 2 ≤
              (streams.map (·.sourceGroup)).count v.sourceGroup ∧
            LeastActive (·.sourceGroup = v.sourceGroup) streams v) ∨
          evictionVictimLocked r evictIdle now streams requester = none ∧
            ∀ group, Heaviest (streams.map (·.sourceGroup)) group →
              (streams.map (·.sourceGroup)).count group <
                (streams.map (·.sourceGroup)).count requester + 2) := by
  by_cases hidle : ∃ t ∈ streams, Idle evictIdle now t
  · exact Or.inl (evictionVictimLocked_idle r evictIdle now streams requester hidle)
  · refine Or.inr ⟨hidle, ?_⟩
    by_cases hmore : ∃ group, Heaviest (streams.map (·.sourceGroup)) group ∧
        (streams.map (·.sourceGroup)).count requester + 2 ≤
          (streams.map (·.sourceGroup)).count group
    · obtain ⟨group, hgroup, hmore⟩ := hmore
      obtain ⟨v, hv, hheaviest, hleast⟩ :=
        evictionVictimLocked_fairShare r evictIdle now requester hidle hgroup hmore
      rw [hgroup.count_eq hheaviest] at hmore
      exact Or.inl ⟨v, hv, hheaviest, hmore, hleast⟩
    · have hless : ∀ group, Heaviest (streams.map (·.sourceGroup)) group →
          (streams.map (·.sourceGroup)).count group <
            (streams.map (·.sourceGroup)).count requester + 2 := by
        intro group hgroup
        exact Nat.lt_of_not_le fun hle => hmore ⟨group, hgroup, hle⟩
      exact Or.inr ⟨evictionVictimLocked_none r evictIdle now requester hidle hless, hless⟩

/-- Whether there is a victim does not depend on the orders. -/
theorem evictionVictimLocked_isSome (r r' : Ranges) (evictIdle now : Int) (streams : List Stream)
    (requester : String) :
    (evictionVictimLocked r evictIdle now streams requester).isSome =
      (evictionVictimLocked r' evictIdle now streams requester).isSome := by
  rcases evictionVictimLocked_cases r evictIdle now streams requester with
    ⟨v, hv, hleast⟩ | ⟨hbusy, ⟨v, hv, hheaviest, hmore, -⟩ | ⟨hv, hless⟩⟩
  · obtain ⟨v', hv', -⟩ :=
      evictionVictimLocked_idle r' evictIdle now streams requester ⟨v, hleast.1⟩
    rw [hv, hv']
    rfl
  · obtain ⟨v', hv', -⟩ :=
      evictionVictimLocked_fairShare r' evictIdle now requester hbusy hheaviest hmore
    rw [hv, hv']
    rfl
  · rw [hv, evictionVictimLocked_none r' evictIdle now requester hbusy hless]

namespace Streams

variable {maxStreams : Nat} {evictIdle now : Int} {m m' : Streams} {s v : Stream}

/-- Whether `insertStream` admits does not depend on the orders. -/
theorem admits_congr (r r' : Ranges) (maxStreams : Nat) (evictIdle now : Int) (m : Streams)
    (s : Stream) (evict : Bool) :
    (insertStream r maxStreams evictIdle now m s evict).isOk =
      (insertStream r' maxStreams evictIdle now m s evict).isOk := by
  have hsome := evictionVictimLocked_isSome r r' evictIdle now m.all s.sourceGroup
  simp only [insertStream]
  split
  · rfl
  · split
    · rfl
    · split
      · cases evict with
        | false => rfl
        | true =>
            simp only [if_true]
            cases h : evictionVictimLocked r evictIdle now m.all s.sourceGroup <;>
              cases h' : evictionVictimLocked r' evictIdle now m.all s.sourceGroup <;>
              simp_all [Except.isOk, Except.toBool]
      · rfl

/-- The groups after a swap. -/
theorem groups_replace (hnew : ∀ t ∈ m.all, t.id ≠ s.id) (hv : v ∈ m.all) :
    ((m.delete v.id).put s).groups = s.sourceGroup :: (m.delete v.id).groups ∧
      m.groups.Perm (v.sourceGroup :: (m.delete v.id).groups) := by
  constructor
  · rw [groups, all_replace hnew]
    rfl
  · exact (all_delete hv).map (·.sourceGroup)

/-- A fair-share swap makes the groups more equal: that of the victim does not
become the lighter one, and the sum of the squared sizes falls. -/
theorem fairShare_fairer {r : Ranges} {evict : Bool}
    (h : insertStream r maxStreams evictIdle now m s evict = .ok (some (v, .fairShare), m')) :
    m'.groups.count s.sourceGroup ≤ m'.groups.count v.sourceGroup ∧
      sumSquares m'.groups < sumSquares m.groups ∧
      sumSquares m'.groups < sumSquares (m.put s).groups := by
  obtain ⟨⟨-, hnew⟩, ⟨-, hnone, -⟩ | ⟨v', reason, -, -, heq, hvictim, rfl⟩⟩ := insertStream_ok r h
  · contradiction
  · obtain ⟨rfl, rfl⟩ := Prod.mk.inj (Option.some.inj heq)
    rcases evictionVictimLocked_cases r evictIdle now m.all s.sourceGroup with
      ⟨w, hw, -⟩ | ⟨-, ⟨w, hw, -, hmore, hleast⟩ | ⟨hw, -⟩⟩
    · rw [hw] at hvictim
      simp at hvictim
    · rw [hw] at hvictim
      obtain ⟨rfl, -⟩ := Prod.mk.inj (Option.some.inj hvictim)
      rw [← groups] at hmore
      obtain ⟨hgroups, hperm⟩ := groups_replace hnew hleast.1.1
      have hlt := sumSquares_swap hperm hmore
      have hput : (m.put s).groups = s.sourceGroup :: m.groups := by
        rw [groups, all_put hnew]
        rfl
      have hne : w.sourceGroup ≠ s.sourceGroup := by
        intro heq
        rw [heq] at hmore
        omega
      rw [hperm.count_eq, hperm.count_eq, List.count_cons_self, List.count_cons_of_ne hne] at hmore
      refine ⟨?_, ?_, ?_⟩
      · rw [hgroups, List.count_cons_self, List.count_cons_of_ne hne.symm]
        omega
      · rwa [hgroups]
      · rw [hgroups, hput, sumSquares_cons _ m.groups]
        omega
    · rw [hw] at hvictim
      contradiction

/-- An insertion keeps the limit. -/
theorem insertStream_length {r : Ranges} {evict : Bool} {victim : Option (Stream × EvictionReason)}
    (h : insertStream r maxStreams evictIdle now m s evict = .ok (victim, m'))
    (hle : m.all.length ≤ maxStreams) : m'.all.length ≤ maxStreams := by
  obtain ⟨⟨-, hnew⟩, ⟨hlt, -, rfl⟩ | ⟨v, reason, -, -, -, hvictim, rfl⟩⟩ := insertStream_ok r h
  · rw [all_put hnew, List.length_cons]
    exact hlt
  · have hv : v ∈ m.all := by
      rcases evictionVictimLocked_cases r evictIdle now m.all s.sourceGroup with
        ⟨w, hw, hleast⟩ | ⟨-, ⟨w, hw, -, -, hleast⟩ | ⟨hw, -⟩⟩ <;> rw [hw] at hvictim
      · obtain ⟨rfl, -⟩ := Prod.mk.inj (Option.some.inj hvictim)
        exact hleast.1.1
      · obtain ⟨rfl, -⟩ := Prod.mk.inj (Option.some.inj hvictim)
        exact hleast.1.1
      · contradiction
    have hlength := (all_delete hv).length_eq
    rw [List.length_cons] at hlength
    rw [all_replace hnew, List.length_cons]
    omega

/-! ## runs -/

/-- What changes the map. -/
inductive Event where
  | insert (r : Ranges) (now : Int) (s : Stream) (evict : Bool)
  | remove (id : Nat)
  | touch (id : Nat) (now : Int)
  | closeStreams

/-- One step; a refused insertion changes nothing. -/
def step (maxStreams : Nat) (evictIdle : Int) (m : Streams) : Event → Option Streams
  | .insert r now s evict =>
      match insertStream r maxStreams evictIdle now m s evict with
      | .ok (_, m') => some m'
      | .error _ => some m
  | .remove id => some (m.delete id)
  | .touch id now => some (m.touch id now)
  | .closeStreams => some empty

/-- The limit holds in every run. -/
theorem length_le {es : List Event} (h : Conc.exec (step maxStreams evictIdle) empty es = some m) :
    m.all.length ≤ maxStreams := by
  refine Conc.exec_invariant (I := fun m => m.all.length ≤ maxStreams) ?_ (Nat.zero_le _) h
  intro m e m' hle hstep
  cases e with
  | insert r now s evict =>
      rw [step] at hstep
      split at hstep
      · rename_i victim m₁ hins
        cases hstep
        exact insertStream_length hins hle
      · cases hstep
        exact hle
  | remove id =>
      cases hstep
      exact (List.length_filter_le _ _).trans hle
  | touch id now =>
      cases hstep
      rw [touch, List.length_map]
      exact hle
  | closeStreams =>
      cases hstep
      exact Nat.zero_le _

/-- The event is a fair-share swap. -/
def IsSwap (maxStreams : Nat) (evictIdle : Int) (m : Streams) (e : Event) : Prop :=
  ∃ r now s evict v m', e = .insert r now s evict ∧
    insertStream r maxStreams evictIdle now m s evict = .ok (some (v, .fairShare), m')

/-- The event is an insertion. -/
def Event.isInsert : Event → Bool
  | .insert .. => true
  | _ => false

/-- Activity does not change the groups. -/
theorem groups_touch (id : Nat) : (m.touch id now).groups = m.groups := by
  have hgroup : (fun s : Stream => (if s.id = id then { s with lastActivity := now } else
      s).sourceGroup) = (·.sourceGroup) := by
    funext s
    split <;> rfl
  rw [groups, groups, touch, List.map_map, Function.comp_def, hgroup]

/-- A run of fair-share swaps, whatever happens to the activity times, makes at most
as many swaps as the squared sizes of the groups add up to. -/
theorem swaps_bounded {es : List Event}
    (hm : Conc.Meets (step maxStreams evictIdle)
      (fun m e => IsSwap maxStreams evictIdle m e ∨ ∃ id now, e = .touch id now) m es)
    (h : Conc.exec (step maxStreams evictIdle) m es = some m') :
    sumSquares m'.groups + es.countP (·.isInsert) ≤ sumSquares m.groups := by
  induction es generalizing m with
  | nil =>
      cases h
      exact Nat.le_refl _
  | cons e es ih =>
      obtain ⟨m₁, hstep, hrun⟩ := Conc.exec_cons h
      have hrest := ih (hm.2 m₁ hstep) hrun
      rcases hm.1 with ⟨r, now, s, evict, v, m₂, rfl, hins⟩ | ⟨id, now, rfl⟩
      · rw [step, hins] at hstep
        cases hstep
        obtain ⟨-, hlt, -⟩ := fairShare_fairer hins
        rw [List.countP_cons_of_pos (by rfl)]
        omega
      · cases hstep
        rw [groups_touch] at hrest
        rw [List.countP_cons_of_neg (by simp [Event.isInsert])]
        exact hrest

/-- Fair-share swaps never lead back to the same distribution over the groups. -/
theorem swaps_acyclic {es : List Event}
    (hm : Conc.Meets (step maxStreams evictIdle)
      (fun m e => IsSwap maxStreams evictIdle m e ∨ ∃ id now, e = .touch id now) m es)
    (h : Conc.exec (step maxStreams evictIdle) m es = some m')
    (hswap : ∃ e ∈ es, e.isInsert = true) : ¬m'.groups.Perm m.groups := by
  intro hperm
  have hle := swaps_bounded hm h
  rw [sumSquares_perm hperm] at hle
  have hpos : 0 < es.countP (·.isInsert) := List.countP_pos_iff.mpr hswap
  omega

/-- **The eviction policy.**  At the limit a new stream takes the place of the least
recently active idle one, if there is an idle one.  Otherwise it takes the place of
the least recently active stream of a heaviest group when that group holds at least
two streams more than the new stream's, and is refused when it does not.  The orders
of the maps never decide whether a stream is admitted, and the limit holds in every
run.  A fair-share swap leaves the victim's group with as many streams as the other
at least and makes the squared sizes add up to less, so a run of such swaps ends
and does not come back to a distribution it has left. -/
theorem eviction_policy (maxStreams : Nat) (evictIdle : Int) :
    (∀ (r : Ranges) (now : Int) (m : Streams) (s : Stream), s.id ≠ 0 →
      (∀ t ∈ m.all, t.id ≠ s.id) → m.all.length = maxStreams →
      ((∃ t ∈ m.all, Idle evictIdle now t) →
        ∃ v, insertStream r maxStreams evictIdle now m s true =
            .ok (some (v, .idle), (m.delete v.id).put s) ∧
          LeastActive (Idle evictIdle now) m.all v) ∧
      ((¬∃ t ∈ m.all, Idle evictIdle now t) →
        (∀ group, Heaviest m.groups group →
          m.groups.count s.sourceGroup + 2 ≤ m.groups.count group →
          ∃ v, insertStream r maxStreams evictIdle now m s true =
              .ok (some (v, .fairShare), (m.delete v.id).put s) ∧
            Heaviest m.groups v.sourceGroup ∧
            LeastActive (·.sourceGroup = v.sourceGroup) m.all v) ∧
        ((∀ group, Heaviest m.groups group →
            m.groups.count group < m.groups.count s.sourceGroup + 2) →
          insertStream r maxStreams evictIdle now m s true = .error .streamLimit))) ∧
    (∀ (r r' : Ranges) (now : Int) (m : Streams) (s : Stream) (evict : Bool),
      (insertStream r maxStreams evictIdle now m s evict).isOk =
        (insertStream r' maxStreams evictIdle now m s evict).isOk) ∧
    (∀ (es : List Event) (m : Streams),
      Conc.exec (step maxStreams evictIdle) empty es = some m → m.all.length ≤ maxStreams) ∧
    (∀ (r : Ranges) (now : Int) (m m' : Streams) (s v : Stream) (evict : Bool),
      insertStream r maxStreams evictIdle now m s evict = .ok (some (v, .fairShare), m') →
      m'.groups.count s.sourceGroup ≤ m'.groups.count v.sourceGroup ∧
        sumSquares m'.groups < sumSquares m.groups ∧
        sumSquares m'.groups < sumSquares (m.put s).groups) ∧
    (∀ (es : List Event) (m m' : Streams),
      Conc.Meets (step maxStreams evictIdle)
        (fun m e => IsSwap maxStreams evictIdle m e ∨ ∃ id now, e = .touch id now) m es →
      Conc.exec (step maxStreams evictIdle) m es = some m' →
      es.countP (·.isInsert) ≤ sumSquares m.groups ∧
        ((∃ e ∈ es, e.isInsert = true) → ¬m'.groups.Perm m.groups)) := by
  refine ⟨fun r now m s hid hnew hfull => insertStream_policy r hid hnew hfull.ge,
    fun r r' now m s evict => admits_congr r r' maxStreams evictIdle now m s evict,
    fun es m h => length_le h,
    fun r now m m' s v evict h => fairShare_fairer h, fun es m m' hm h => ?_⟩
  have hle := swaps_bounded hm h
  exact ⟨by omega, swaps_acyclic hm h⟩

/-- Two streams of one source make room for a third source at a limit of two. -/
theorem eviction_policy_sample :
    let stream := fun id group => newStream (relayConfig 2 10) id .tcp group 100 .opened 0
    let m : Streams := ⟨[stream 1 "192.0.2.1", stream 2 "192.0.2.1"], by decide⟩
    ∃ v, insertStream ⟨.id, .id, .id⟩ 2 10 105 m (stream 3 "192.0.2.9") true =
        .ok (some (v, .fairShare), (m.delete v.id).put (stream 3 "192.0.2.9")) ∧
      Heaviest m.groups v.sourceGroup ∧
      LeastActive (·.sourceGroup = v.sourceGroup) m.all v := by
  intro stream m
  have hbusy : ¬∃ t ∈ m.all, Idle 10 105 t := by decide
  have hpolicy := (eviction_policy 2 10).1 ⟨.id, .id, .id⟩ 105 m (stream 3 "192.0.2.9")
    (by decide) (by decide) rfl
  refine (hpolicy.2 hbusy).1 "192.0.2.1" ⟨by decide, fun g => ?_⟩ (by decide)
  exact List.count_le_length

end Streams

/-! ## the policy of `Conn` -/

theorem count_registered (c : Conn) (group : String) :
    (c.registered.map (·.sourceGroup)).count group = c.groupCount group := by
  rw [Conn.groupCount, List.count_eq_length_filter, List.filter_map, List.length_map]
  congr 1

/-- **The victims of `Conn.evictionVictim`** are the streams that
`evictionVictimLocked` returns for some orders of the maps. -/
theorem evictionVictimLocked_iff (cfg : Config) (c : Conn) (requester : String) (now : Int)
    (v : Stream) :
    (∃ r reason, evictionVictimLocked r cfg.evictIdle now c.registered requester =
        some (v, reason)) ↔
      v ∈ c.registered ∧ c.evictionVictim cfg requester now v = true := by
  have hany : c.registered.any (Conn.idleAt cfg now) = true ↔
      ∃ t ∈ c.registered, Idle cfg.evictIdle now t := by
    simp [Conn.idleAt, Idle]
  constructor
  · rintro ⟨r, reason, h⟩
    rcases evictionVictimLocked_cases r cfg.evictIdle now c.registered requester with
      ⟨w, hw, hleast⟩ | ⟨hbusy, ⟨w, hw, hheaviest, hmore, hleast⟩ | ⟨hw, -⟩⟩
    · rw [hw] at h
      obtain ⟨rfl, -⟩ := Prod.mk.inj (Option.some.inj h)
      have hidle := hany.mpr ⟨w, hleast.1⟩
      refine ⟨hleast.1.1, ?_⟩
      rw [Conn.evictionVictim, if_pos hidle]
      simpa [Conn.idleAt, Idle] using And.intro hleast.1.2 hleast.2
    · rw [hw] at h
      obtain ⟨rfl, -⟩ := Prod.mk.inj (Option.some.inj h)
      have hidle := fun hidle => hbusy (hany.mp hidle)
      simp only [count_registered] at hmore
      have hne : w.sourceGroup ≠ requester := by
        intro heq
        rw [heq] at hmore
        omega
      have hcount : ∀ t ∈ c.registered,
          c.groupCount t.sourceGroup ≤ c.groupCount w.sourceGroup := by
        intro t _
        rw [← count_registered, ← count_registered]
        exact hheaviest.2 t.sourceGroup
      refine ⟨hleast.1.1, ?_⟩
      rw [Conn.evictionVictim, if_neg hidle]
      exact decide_eq_true ⟨hcount, hne, hmore, hleast.2⟩
    · rw [hw] at h
      contradiction
  · rintro ⟨hmem, hv⟩
    rw [Conn.evictionVictim] at hv
    -- The orders in which the victim and its group come first.
    let r : Ranges :=
      ⟨.front v, .front (v.sourceGroup, c.groupCount v.sourceGroup), .front v⟩
    obtain ⟨rest, hfront, hrest⟩ := MapOrder.range_front hmem
    split at hv
    · obtain ⟨hidle, hmin⟩ := of_decide_eq_true hv
      have hleast : least (fun s : Stream => decide (s.lastActivity ≤ now - cfg.evictIdle))
          (·.lastActivity) (r.candidates.range c.registered) = some v := by
        rw [hfront]
        exact least_cons hidle fun t ht hidle => hmin t (hrest t ht) hidle
      refine ⟨r, .idle, ?_⟩
      rw [evictionVictimLocked, surveyStreams_eq]
      simp only [hleast]
    · rename_i hbusy
      obtain ⟨hheaviest, hne, hmore, hmin⟩ := of_decide_eq_true hv
      have hperm := (r.candidates.range_perm c.registered).map (·.sourceGroup)
      have hentry : (v.sourceGroup, c.groupCount v.sourceGroup) ∈
          tally ((r.candidates.range c.registered).map (·.sourceGroup)) := by
        rw [mem_tally, hperm.mem_iff, hperm.count_eq, count_registered]
        exact ⟨List.mem_map_of_mem hmem, rfl⟩
      have htop : top "" (r.groups.range
          (tally ((r.candidates.range c.registered).map (·.sourceGroup)))) =
          (v.sourceGroup, c.groupCount v.sourceGroup) := by
        obtain ⟨others, hrange, hothers⟩ := MapOrder.range_front hentry
        rw [hrange]
        refine top_cons "" (by omega) fun e he => ?_
        obtain ⟨hgroup, hcount⟩ := mem_tally.mp (hothers e he)
        rw [hperm.mem_iff] at hgroup
        rw [hperm.count_eq, count_registered] at hcount
        obtain ⟨t, ht, heq⟩ := List.mem_map.mp hgroup
        rw [hcount, ← heq]
        exact hheaviest t ht
      have hleast : least (fun s : Stream => decide (s.sourceGroup = v.sourceGroup))
          (·.lastActivity) (r.members.range c.registered) = some v := by
        rw [hfront]
        exact least_cons (decide_eq_true rfl) fun t ht hsame =>
          hmin t (hrest t ht) (of_decide_eq_true hsame)
      refine ⟨r, .fairShare, ?_⟩
      rw [evictionVictimLocked_busy r cfg.evictIdle now c.registered requester
        fun hidle => hbusy (hany.mpr hidle)]
      simp only [htop, hleast, countOf_tally, hperm.count_eq, count_registered]
      have hkeep : ¬(v.sourceGroup = requester ∨
          c.groupCount v.sourceGroup < c.groupCount requester + 2) := by
        rintro (heq | hlt)
        · exact hne heq
        · omega
      rw [if_neg hkeep, Option.map_some]

end Tunnel

import Blindport.Conc.Journal

/-!
# Blindport.Conc.Transaction

The statements of a session on a `Journal`, and their specifications.

`At i es hs` is all a session knows for certain: it has recorded `es`, newest
first, and has locked the rows `hs`.  Each statement has one rule over it; what
a statement records has to be allowed by the rules of the journal.
-/

namespace Conc

namespace Journal

variable {κ R E Ω ε α : Type}

/-- Read the store. -/
def query (q : Journal κ R E → α) : Prog Ω (Journal κ R E) ε α :=
  .atomic fun _ g => some (g, q g)

/-- An answer from outside. -/
def input (f : Ω → α) : Prog Ω (Journal κ R E) ε α :=
  .atomic fun ω g => some (g, f ω)

/-- Put an event on record. -/
def record (i : Nat) (e : E) : Prog Ω (Journal κ R E) ε Unit :=
  .atomic fun _ g => some (g.note i e, ())

/-- `SELECT` by key; what was read is put on record. -/
def load (i : Nat) (k : κ) (e : Option R → E) : Prog Ω (Journal κ R E) ε (Option R) :=
  .atomic fun _ g => some (g.note i (e (g.get i k)), g.get i k)

/-- What became of a write: there was no such row, another row stood in its way, or it
was done. -/
inductive Written where
  | missed
  | taken
  | done
  deriving DecidableEq

variable [DecidableEq κ]

/-- `UPDATE … WHERE key = k AND p`.  It waits for the row it has found, and for rows that
may or may not stand in its way. -/
def updateRow (rival : R → R → Bool) (i : Nat) (k : κ) (p : R → Bool) (f : R → R) :
    Prog Ω (Journal κ R E) ε Written :=
  .atomic fun _ g =>
    match g.get i k with
    | none => some (g, .missed)
    | some r =>
        if p r then
          if (g.cell k).lockedByOther i then none
          else (g.clash i k (rival (f r))).map fun taken =>
            if taken then (g, .taken) else (g.write i k (f r), .done)
        else some (g, .missed)

/-- `SELECT … WHERE key = k AND p FOR UPDATE`. -/
def lockRow (i : Nat) (k : κ) (p : R → Bool) : Prog Ω (Journal κ R E) ε (Option R) :=
  .atomic fun _ g =>
    match g.get i k with
    | none => some (g, none)
    | some r =>
        if p r then
          if (g.cell k).lockedByOther i then none else some (g.write i k r, some r)
        else some (g, none)

/-- `INSERT` under a key of its own choice. -/
def insertRow (rival : R → R → Bool) (i : Nat) (k : κ) (r : R) :
    Prog Ω (Journal κ R E) ε Written :=
  .atomic fun _ g =>
    if (g.cell k).lockedByOther i then none
    else if (g.get i k).isSome then some (g, .taken)
    else (g.clash i k (rival r)).map fun taken =>
      if taken then (g, .taken) else (g.write i k r, .done)

/-- `session.commit()`. -/
def commitAll (published : List (κ × R) → E) (i : Nat) : Prog Ω (Journal κ R E) ε Unit :=
  .atomic fun _ g => some (g.commit published i, ())

/-- `session.rollback()`. -/
def rollbackAll (i : Nat) : Prog Ω (Journal κ R E) ε Unit :=
  .atomic fun _ g => some (g.rollback i, ())

/-- What a session knows: its own record and what it has locked. -/
def At (i : Nat) (es : List E) (hs : κ → Option (Option R × R)) (g : Journal κ R E) : Prop :=
  own i g.history = es ∧ g.held i = hs

/-- Nothing is locked. -/
def free : κ → Option (Option R × R) := fun _ => none

/-- One row is locked. -/
def only (k : κ) (old : Option R) (new : R) : κ → Option (Option R × R) :=
  Function.update free k (some (old, new))

omit [DecidableEq κ] in
theorem held_eq_none {g : Journal κ R E} {i : Nat} {k : κ} :
    g.held i k = none ↔ ∀ r, (g.cell k).pending ≠ some (i, r) := by
  unfold held
  rw [Option.map_eq_none_iff, Option.eq_none_iff_forall_ne_some]
  simp only [ne_eq, Cell.pendingOf_eq_some]

omit [DecidableEq κ] in
theorem get_of_held_none {g : Journal κ R E} {i : Nat} {k : κ} (h : g.held i k = none) :
    g.get i k = (g.cell k).committed :=
  Cell.view_of_not_held (held_eq_none.mp h)

theorem held_write (g : Journal κ R E) (i : Nat) (k : κ) (r : R) :
    (g.write i k r).held i =
      Function.update (g.held i) k (some ((g.cell k).committed, r)) := by
  funext k'
  by_cases hk : k' = k
  · subst hk
    simp [held, write_cell_self, Cell.pendingOf]
  · simp [held, write_cell_of_ne g i hk, hk]

omit [DecidableEq κ] in
theorem held_commit (published : List (κ × R) → E) (g : Journal κ R E) (i : Nat) :
    (g.commit published i).held i = free := by
  funext k
  apply held_eq_none.mpr
  intro r hr
  exact ((Cell.commit_pending (g.cell k) i).mp hr).2 rfl

omit [DecidableEq κ] in
theorem held_rollback (g : Journal κ R E) (i : Nat) : (g.rollback i).held i = free := by
  funext k
  apply held_eq_none.mpr
  intro r hr
  exact ((Cell.rollback_pending (g.cell k) i).mp hr).2 rfl

omit [DecidableEq κ] in
theorem held_eq_some {g : Journal κ R E} {i : Nat} {k : κ} {old : Option R} {new : R} :
    g.held i k = some (old, new) ↔
      (g.cell k).pending = some (i, new) ∧ (g.cell k).committed = old := by
  unfold held
  rw [Option.map_eq_some_iff]
  constructor
  · rintro ⟨r, hr, heq⟩
    obtain ⟨hold, rfl⟩ := Prod.mk.inj heq
    exact ⟨Cell.pendingOf_eq_some.mp hr, hold⟩
  · rintro ⟨hp, hold⟩
    exact ⟨new, Cell.pendingOf_eq_some.mpr hp, by rw [hold]⟩

omit [DecidableEq κ] in
theorem owned_of_free {g : Journal κ R E} {i : Nat} (h : g.held i = free) : g.owned i = [] := by
  rw [List.eq_nil_iff_forall_not_mem]
  rintro ⟨k, r⟩ hmem
  exact held_eq_none.mp (congrFun h k) r (mem_owned.mp hmem).2

end Journal

namespace Rules

open Journal

variable {κ R E Ω ε α : Type} [DecidableEq κ] {rules : Rules κ R E}

/-- A session that has locked one row publishes it alone. -/
theorem Inv.owned_only {g : Journal κ R E} (h : rules.Inv g) {i : Nat} {k : κ} {old : Option R}
    {new : R} (hheld : g.held i = only k old new) :
    g.owned i = [(k, new)] ∧ (g.cell k).committed = old := by
  have hk : g.held i k = some (old, new) := by simp [hheld, only]
  obtain ⟨hpending, hold⟩ := held_eq_some.mp hk
  have hr := Cell.pendingOf_eq_some.mpr hpending
  have hmem : k ∈ g.keys := h.listed_pending (by simp [hpending])
  refine ⟨?_, hold⟩
  -- of all keys only `k` is left by the filter
  obtain ⟨l₁, l₂, hkeys⟩ := List.append_of_mem hmem
  have hnodup := h.nodup
  rw [hkeys] at hnodup
  have hnone : ∀ l : List κ, k ∉ l →
      l.filterMap (fun k => ((g.cell k).pendingOf i).map fun r => (k, r)) = [] := by
    intro l hl
    rw [List.filterMap_eq_nil_iff]
    intro k' hk'
    have hne : k' ≠ k := fun e => hl (e ▸ hk')
    have hfree : g.held i k' = none := by simp [hheld, only, hne, free]
    rw [Option.map_eq_none_iff]
    exact Option.map_eq_none_iff.mp hfree
  have hsplit := List.nodup_append.mp hnodup
  have h₁ : k ∉ l₁ := fun hmem₁ => hsplit.2.2 k hmem₁ k List.mem_cons_self rfl
  have h₂ : k ∉ l₂ := (List.nodup_cons.mp hsplit.2.1).1
  unfold owned
  rw [hkeys, List.filterMap_append, hnone l₁ h₁, List.filterMap_cons, hr, hnone l₂ h₂]
  rfl

section Triples

variable {i : Nat} {es : List E} {hs : κ → Option (Option R × R)}
  {X : ε → Journal κ R E → Prop}

theorem stable_at : rules.discipline.Stable i (At i es hs) :=
  stable_local fun tr held => tr = es ∧ held = hs

/-- A precondition that holds of some value. -/
theorem triple_exists {ι : Type} {P : ι → Journal κ R E → Prop} {p : Prog Ω (Journal κ R E) ε α}
    {Q : α → Journal κ R E → Prop} (h : ∀ x, rules.discipline.Triple i (P x) p Q X) :
    rules.discipline.Triple i (fun g => ∃ x, P x g) p Q X := by
  intro g hinv hP
  obtain ⟨x, hx⟩ := hP
  exact h x g hinv hx

/-- What is read holds of the state it is read from. -/
theorem triple_query {q : Journal κ R E → α} {F : α → Prop}
    (hF : ∀ g, rules.Inv g → At i es hs g → F (q g)) :
    rules.discipline.Triple i (At i es hs) (query q : Prog Ω (Journal κ R E) ε α)
      (fun a g => F a ∧ At i es hs g) X := by
  refine Discipline.Triple.atomic stable_at fun ω g g' b hinv hat hact => ?_
  obtain ⟨rfl, rfl⟩ := Prod.mk.inj (Option.some.inj hact)
  exact ⟨.refl, hF g hinv hat, hat⟩

theorem triple_input {f : Ω → α} :
    rules.discipline.Triple i (At i es hs) (input f : Prog Ω (Journal κ R E) ε α)
      (fun _ => At i es hs) X := by
  refine Discipline.Triple.atomic stable_at fun ω g g' b hinv hat hact => ?_
  obtain ⟨rfl, rfl⟩ := Prod.mk.inj (Option.some.inj hact)
  exact ⟨.refl, hat⟩

omit [DecidableEq κ] in
theorem at_note {g : Journal κ R E} {e : E} (h : At i es hs g) : At i (e :: es) hs (g.note i e) :=
  ⟨by rw [note, own_cons_self, h.1], h.2⟩

theorem triple_record {e : E} (hkind : rules.publication e = none)
    (hallowed : ∀ g, rules.Inv g → At i es hs g → rules.Allowed g.history i e) :
    rules.discipline.Triple i (At i es hs) (record i e : Prog Ω (Journal κ R E) ε Unit)
      (fun _ => At i (e :: es) hs) X := by
  refine Discipline.Triple.atomic stable_at fun ω g g' b hinv hat hact => ?_
  obtain ⟨rfl, -⟩ := Prod.mk.inj (Option.some.inj hact)
  exact ⟨.single (.note hkind (hallowed g hinv hat)), at_note hat⟩

theorem triple_load {k : κ} {e : Option R → E} {F : Option R → Prop}
    (hkind : ∀ r, rules.publication (e r) = none)
    (hallowed : ∀ g, rules.Inv g → At i es hs g →
      rules.Allowed g.history i (e (g.get i k)) ∧ F (g.get i k)) :
    rules.discipline.Triple i (At i es hs) (load i k e : Prog Ω (Journal κ R E) ε (Option R))
      (fun r g => F r ∧ At i (e r :: es) hs g) X := by
  refine Discipline.Triple.atomic stable_at fun ω g g' b hinv hat hact => ?_
  obtain ⟨rfl, rfl⟩ := Prod.mk.inj (Option.some.inj hact)
  obtain ⟨hallowed, hF⟩ := hallowed g hinv hat
  exact ⟨.single (.note (hkind _) hallowed), hF, at_note hat⟩

theorem at_write {g : Journal κ R E} {k : κ} {r : R} {old : Option R} (h : At i es hs g)
    (hold : (g.cell k).committed = old) :
    At i es (Function.update hs k (some (old, r))) (g.write i k r) :=
  ⟨h.1, by rw [held_write, h.2, hold]⟩

/-- A write that clashes with nothing has no rivals. -/
theorem Inv.no_rivals {g : Journal κ R E} (h : rules.Inv g) {k : κ} {r : R}
    (hclash : g.clash i k (rules.rival r) = some false) :
    ∀ k' r', k' ≠ k → g.Has k' r' → rules.rival r r' = false :=
  fun k' r' hne hr => clash_eq_false hclash (h.listed k' r' hr) hne hr

theorem triple_update {k : κ} {p : R → Bool} {f : R → R} (hfree : hs k = none) :
    rules.discipline.Triple i (At i es hs)
      (updateRow rules.rival i k p f : Prog Ω (Journal κ R E) ε Written)
      (fun w g => match w with
        | .done => ∃ r, p r = true ∧ At i es (Function.update hs k (some (some r, f r))) g
        | .taken => (∃ r r', rules.rival (f r) r' = true) ∧ At i es hs g
        | .missed => At i es hs g) X := by
  refine Discipline.Triple.atomic stable_at fun ω g g' b hinv hat hact => ?_
  have hget := get_of_held_none ((congrFun hat.2 k).trans hfree)
  split at hact
  · obtain ⟨rfl, rfl⟩ := Prod.mk.inj (Option.some.inj hact)
    exact ⟨.refl, hat⟩
  rename_i r hr
  split at hact
  · rename_i hp
    split at hact
    · cases hact
    rename_i hlocked
    obtain ⟨taken, hclash, hact⟩ := Option.map_eq_some_iff.mp hact
    cases taken with
    | true =>
        obtain ⟨rfl, rfl⟩ := Prod.mk.inj hact
        exact ⟨.refl, ⟨r, clash_eq_true hclash⟩, hat⟩
    | false =>
        obtain ⟨rfl, rfl⟩ := Prod.mk.inj hact
        refine ⟨.single (.write (Bool.eq_false_iff.mpr hlocked) (hinv.no_rivals hclash)), r, hp, ?_⟩
        exact at_write hat (hget ▸ hr)
  · obtain ⟨rfl, rfl⟩ := Prod.mk.inj (Option.some.inj hact)
    exact ⟨.refl, hat⟩

/-- An update of a row that is locked already. -/
theorem triple_update_held {k : κ} {p : R → Bool} {f : R → R} {old : Option R} {new : R}
    (hheld : hs k = some (old, new)) :
    rules.discipline.Triple i (At i es hs)
      (updateRow rules.rival i k p f : Prog Ω (Journal κ R E) ε Written)
      (fun w g => match w with
        | .done => p new = true ∧ At i es (Function.update hs k (some (old, f new))) g
        | .taken => (∃ r', rules.rival (f new) r' = true) ∧ At i es hs g
        | .missed => p new = false ∧ At i es hs g) X := by
  refine Discipline.Triple.atomic stable_at fun ω g g' b hinv hat hact => ?_
  obtain ⟨hpending, hold⟩ := held_eq_some.mp ((congrFun hat.2 k).trans hheld)
  have hget : g.get i k = some new := Cell.view_of_held hpending
  have hfree : (g.cell k).lockedByOther i = false :=
    Cell.lockedByOther_eq_false.mpr (.inr ⟨new, hpending⟩)
  rw [hget] at hact
  simp only [hfree, Bool.false_eq_true, if_false] at hact
  split at hact
  · rename_i hp
    obtain ⟨taken, hclash, hact⟩ := Option.map_eq_some_iff.mp hact
    cases taken with
    | true =>
        obtain ⟨rfl, rfl⟩ := Prod.mk.inj hact
        exact ⟨.refl, clash_eq_true hclash, hat⟩
    | false =>
        obtain ⟨rfl, rfl⟩ := Prod.mk.inj hact
        exact ⟨.single (.write hfree (hinv.no_rivals hclash)), hp, at_write hat hold⟩
  · rename_i hp
    obtain ⟨rfl, rfl⟩ := Prod.mk.inj (Option.some.inj hact)
    exact ⟨.refl, Bool.eq_false_iff.mpr hp, hat⟩

theorem triple_lock {k : κ} {p : R → Bool} (hfree : hs k = none) :
    rules.discipline.Triple i (At i es hs)
      (lockRow i k p : Prog Ω (Journal κ R E) ε (Option R))
      (fun o g => match o with
        | none => At i es hs g
        | some r => p r = true ∧ At i es (Function.update hs k (some (some r, r))) g) X := by
  refine Discipline.Triple.atomic stable_at fun ω g g' b hinv hat hact => ?_
  have hget := get_of_held_none ((congrFun hat.2 k).trans hfree)
  split at hact
  · obtain ⟨rfl, rfl⟩ := Prod.mk.inj (Option.some.inj hact)
    exact ⟨.refl, hat⟩
  rename_i r hr
  split at hact
  · rename_i hp
    split at hact
    · cases hact
    rename_i hlocked
    obtain ⟨rfl, rfl⟩ := Prod.mk.inj (Option.some.inj hact)
    have hcommitted : (g.cell k).committed = some r := hget ▸ hr
    refine ⟨.single (.write (Bool.eq_false_iff.mpr hlocked) fun k' r' hne hr' => ?_), hp,
      at_write hat hcommitted⟩
    exact hinv.unique k k' r r' (Ne.symm hne) (.inl hcommitted) hr'
  · obtain ⟨rfl, rfl⟩ := Prod.mk.inj (Option.some.inj hact)
    exact ⟨.refl, hat⟩

theorem triple_insert {k : κ} {r : R} (hfree : hs k = none) :
    rules.discipline.Triple i (At i es hs)
      (insertRow rules.rival i k r : Prog Ω (Journal κ R E) ε Written)
      (fun w g => match w with
        | .done => At i es (Function.update hs k (some (none, r))) g
        | _ => At i es hs g) X := by
  refine Discipline.Triple.atomic stable_at fun ω g g' b hinv hat hact => ?_
  have hget := get_of_held_none ((congrFun hat.2 k).trans hfree)
  split at hact
  · cases hact
  rename_i hlocked
  split at hact
  · obtain ⟨rfl, rfl⟩ := Prod.mk.inj (Option.some.inj hact)
    exact ⟨.refl, hat⟩
  rename_i hnone
  obtain ⟨taken, hclash, hact⟩ := Option.map_eq_some_iff.mp hact
  cases taken with
  | true =>
      obtain ⟨rfl, rfl⟩ := Prod.mk.inj hact
      exact ⟨.refl, hat⟩
  | false =>
      obtain ⟨rfl, rfl⟩ := Prod.mk.inj hact
      refine ⟨.single (.write (Bool.eq_false_iff.mpr hlocked) (hinv.no_rivals hclash)), ?_⟩
      rw [hget, Bool.not_eq_true, Option.isSome_eq_false_iff, Option.isNone_iff_eq_none] at hnone
      exact at_write hat hnone

/-- The commit of a session that has locked one row. -/
theorem triple_commit_only {k : κ} {old : Option R} {new : R} {published : List (κ × R) → E}
    (hkind : rules.publication (published [(k, new)]) = some [(k, new)])
    (hallowed : ∀ g, rules.Inv g → own i g.history = es →
      rules.committedAt g.history k = old → rules.Allowed g.history i (published [(k, new)])) :
    rules.discipline.Triple i (At i es (only k old new))
      (commitAll published i : Prog Ω (Journal κ R E) ε Unit)
      (fun _ => At i (published [(k, new)] :: es) free) X := by
  refine Discipline.Triple.atomic stable_at fun ω g g' b hinv hat hact => ?_
  obtain ⟨rfl, -⟩ := Prod.mk.inj (Option.some.inj hact)
  obtain ⟨howned, hold⟩ := hinv.owned_only hat.2
  have hpublish : rules.Allowed g.history i (published (g.owned i)) := by
    rw [howned]
    exact hallowed g hinv hat.1 ((hinv.committed k).symm.trans hold)
  refine ⟨.single (.commit (howned ▸ hkind) fun _ => hpublish), ?_, held_commit _ g i⟩
  simp only [Journal.commit, howned, List.isEmpty_cons, Bool.false_eq_true, if_false]
  rw [own_cons_self, hat.1]

/-- The commit of a session that has locked nothing. -/
theorem triple_commit_free {published : List (κ × R) → E}
    (hkind : ∀ rows, rules.publication (published rows) = some rows) :
    rules.discipline.Triple i (At i es free)
      (commitAll published i : Prog Ω (Journal κ R E) ε Unit)
      (fun _ => At i es free) X := by
  refine Discipline.Triple.atomic stable_at fun ω g g' b hinv hat hact => ?_
  obtain ⟨rfl, -⟩ := Prod.mk.inj (Option.some.inj hact)
  have howned := owned_of_free hat.2
  refine ⟨.single (.commit (hkind _) fun h => absurd howned h), ?_, held_commit _ g i⟩
  simp only [Journal.commit, howned, List.isEmpty_nil, if_true]
  exact hat.1

/-- The commit of a session that has locked any rows. -/
theorem triple_commit {published : List (κ × R) → E}
    (hkind : ∀ rows, rules.publication (published rows) = some rows)
    (hallowed : ∀ g rows, rules.Inv g → own i g.history = es → rows ≠ [] →
      (∀ k r, (k, r) ∈ rows ↔ ∃ old, hs k = some (old, r) ∧
        rules.committedAt g.history k = old) → rules.Allowed g.history i (published rows)) :
    rules.discipline.Triple i (At i es hs)
      (commitAll published i : Prog Ω (Journal κ R E) ε Unit)
      (fun _ g => ∃ rows, (∀ k r, (k, r) ∈ rows ↔ ∃ old, hs k = some (old, r)) ∧
        At i (if rows.isEmpty then es else published rows :: es) free g) X := by
  refine Discipline.Triple.atomic stable_at fun ω g g' b hinv hat hact => ?_
  obtain ⟨rfl, -⟩ := Prod.mk.inj (Option.some.inj hact)
  have hrow : ∀ k r, (k, r) ∈ g.owned i ↔ ∃ old, hs k = some (old, r) ∧
      rules.committedAt g.history k = old := by
    intro k r
    rw [mem_owned, ← hat.2]
    constructor
    · rintro ⟨-, hp⟩
      exact ⟨_, held_eq_some.mpr ⟨hp, rfl⟩, (hinv.committed k).symm⟩
    · rintro ⟨old, hheld, -⟩
      obtain ⟨hp, -⟩ := held_eq_some.mp hheld
      exact ⟨hinv.listed_pending (by simp [hp]), hp⟩
  refine ⟨.single (.commit (hkind _) fun hne => hallowed g _ hinv hat.1 hne hrow),
    g.owned i, fun k r => ?_, ?_, held_commit _ g i⟩
  · rw [mem_owned, ← hat.2]
    constructor
    · rintro ⟨-, hp⟩
      exact ⟨_, held_eq_some.mpr ⟨hp, rfl⟩⟩
    · rintro ⟨old, hheld⟩
      obtain ⟨hp, -⟩ := held_eq_some.mp hheld
      exact ⟨hinv.listed_pending (by simp [hp]), hp⟩
  · simp only [Journal.commit]
    split
    · exact hat.1
    · rw [own_cons_self, hat.1]

theorem triple_rollback :
    rules.discipline.Triple i (At i es hs) (rollbackAll i : Prog Ω (Journal κ R E) ε Unit)
      (fun _ => At i es free) X := by
  refine Discipline.Triple.atomic stable_at fun ω g g' b hinv hat hact => ?_
  obtain ⟨rfl, -⟩ := Prod.mk.inj (Option.some.inj hact)
  exact ⟨.single .rollback, hat.1, held_rollback g i⟩

end Triples

/-- **Every state of a run keeps the rules.** -/
theorem run_inv {Entry : Type} {sys : System Ω (Journal κ R E) ε Entry}
    (C : Certified sys rules.discipline) {g : Journal κ R E} (hinv : rules.Inv g)
    (hfresh : ∀ i, C.Fresh i g) {ls : List (Label Ω Entry)} {c : Config Ω (Journal κ R E) ε}
    (hrun : sys.run (System.init g) ls = some c) : rules.Inv c.global :=
  (C.run_safe (C.safe_init hinv hfresh) hrun).inv

end Rules

end Conc

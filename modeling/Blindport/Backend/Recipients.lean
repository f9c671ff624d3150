import Blindport.Backend.Expansion
import Blindport.Text.HostPort

/-!
# Blindport.Backend.Recipients

Every recipient of an announcement gets one delivery.

* `DbOk` — the deliveries of an announcement are those of its recipients up to the
  cursor, whatever was committed last;
* `CycleOk` — what a replica knows while it has the row of the announcement;
  `CycleOk.commit` is the step from one cursor to the next;
* `expansion_exact` — the result.
-/

namespace Backend.Announcements

open Conc

/-! ## keys -/

theorem announcementKey_split (a user : Nat) :
    "announcement:".toList.isPrefixOf (announcementKey a user).toList = true := by
  rw [List.isPrefixOf_iff_prefix]
  unfold announcementKey
  simp only [String.toList_append, List.append_assoc]
  exact List.prefix_append _ _

/-- A key tells whom it is for. -/
theorem announcementKey_injective {a a' user user' : Nat}
    (h : announcementKey a user = announcementKey a' user') : a = a' ∧ user = user' := by
  have htext := congrArg String.toList h
  unfold announcementKey at htext
  simp only [String.toList_append] at htext
  -- the two texts are cut at their last colon
  have hcut : ("announcement:".toList ++ (Nat.repr a).toList ++ ":user".toList) ++
        ':' :: (Nat.repr user).toList =
      ("announcement:".toList ++ (Nat.repr a').toList ++ ":user".toList) ++
        ':' :: (Nat.repr user').toList := by
    simpa using htext
  obtain ⟨hfront, hback⟩ := HostPort.split_colon (HostPort.colon_not_mem_repr user)
    (HostPort.colon_not_mem_repr user') hcut
  exact ⟨HostPort.repr_injective (List.append_cancel_left (List.append_cancel_right hfront)),
    HostPort.repr_injective hback⟩

/-! ## the committed rows -/

/-- What holds whenever a transaction has committed. -/
structure DbOk (db : Database) : Prop where
  user : ∀ u user, db.users.lookup u = some user → 1 ≤ u
  nextUser : 1 ≤ db.nextUser
  announcement : ∀ a row, db.announcements.lookup a = some row → a < db.nextAnnouncement
  positive : ∀ a u g, db.snapshots.lookup (a, u) = some g → 1 ≤ u
  queued : ∀ a u g, db.snapshots.lookup (a, u) = some g →
    ∃ row, db.announcements.lookup a = some row ∧ row.state ≠ .draft
  sound : ∀ key d a, db.deliveries.lookup key = some d → d.announcementId = some a →
    key = announcementKey a d.userId ∧
      db.snapshots.lookup (a, d.userId) = some d.recipientGeneration ∧
      ∃ row, db.announcements.lookup a = some row ∧ d.userId ≤ row.recipientCursor
  covered : ∀ a row u g, db.announcements.lookup a = some row →
    db.snapshots.lookup (a, u) = some g → u ≤ row.recipientCursor →
      ∃ d, db.deliveries.lookup (announcementKey a u) = some d ∧ d.announcementId = some a ∧
        d.userId = u
  plain : ∀ key d, db.deliveries.lookup key = some d → d.announcementId = none →
    "announcement:".toList.isPrefixOf key.toList = false
  complete : ∀ a row u g, db.announcements.lookup a = some row → row.expansionComplete →
    db.snapshots.lookup (a, u) = some g → u ≤ row.recipientCursor

theorem mem_recipients {db : Database} {a : Nat} {r : Recipient} :
    r ∈ db.recipients a ↔ db.snapshots.lookup (a, r.userId) = some r.recipientGeneration := by
  rw [Database.recipients, List.mem_map]
  constructor
  · rintro ⟨⟨⟨a', u⟩, g⟩, hmem, rfl⟩
    obtain ⟨hrow, ha⟩ := List.mem_filter.mp hmem
    rw [decide_eq_true_eq] at ha
    subst ha
    exact Table.mem_rows.mp hrow
  · intro h
    exact ⟨((a, r.userId), r.recipientGeneration),
      List.mem_filter.mpr ⟨Table.mem_rows.mpr h, by simp⟩, rfl⟩

/-- There is one row for each user: the primary key. -/
theorem nodup_recipients (db : Database) (a : Nat) :
    ((db.recipients a).map Recipient.userId).Nodup := by
  rw [Database.recipients, List.map_map]
  refine Table.nodup_rows_map fun r _ r' _ hp hp' heq => ?_
  rw [decide_eq_true_eq] at hp hp'
  exact Prod.ext (hp.trans hp'.symm) heq

/-- A delivery for a recipient after the cursor does not exist yet. -/
theorem DbOk.lookup_eq_none {db : Database} (h : DbOk db) {a u : Nat} {row : Announcement}
    (hrow : db.announcements.lookup a = some row) (hu : row.recipientCursor < u) :
    db.deliveries.lookup (announcementKey a u) = none := by
  rw [Option.eq_none_iff_forall_ne_some]
  intro d hd
  cases ha : d.announcementId with
  | none =>
      have hplain := h.plain _ d hd ha
      rw [announcementKey_split] at hplain
      cases hplain
  | some a' =>
      obtain ⟨hkey, -, row', hrow', hle⟩ := h.sound _ d a' hd ha
      obtain ⟨rfl, rfl⟩ := announcementKey_injective hkey
      rw [hrow, Option.some.injEq] at hrow'
      subst hrow'
      omega

/-! ## a cycle -/

section Cycles

variable {db : Database} {c : Cycle}

/-- What the cycle knows of its page: the next recipients after the cursor, with none
between them. -/
structure PageOk (db : Database) (c : Cycle) : Prop where
  member : ∀ r ∈ c.recipients, db.snapshots.lookup (c.id, r.userId) = some r.recipientGeneration ∧
    c.announcement.recipientCursor < r.userId
  nodup : (c.recipients.map Recipient.userId).Nodup
  last : ∀ last, c.recipients.getLast? = some last → ∀ u g,
    db.snapshots.lookup (c.id, u) = some g →
      (u ≤ last.userId ↔ u ≤ c.announcement.recipientCursor ∨ ⟨u, g⟩ ∈ c.recipients)
  short : c.recipients.length < c.batchSize → ∀ u g, db.snapshots.lookup (c.id, u) = some g →
    u ≤ c.announcement.recipientCursor ∨ ⟨u, g⟩ ∈ c.recipients

/-- The deliveries of the cycle are those of some recipients. -/
def Written (c : Cycle) (done : List Recipient) : Prop :=
  ∀ key d, c.written.lookup key = some d ↔
    ∃ r ∈ done, key = announcementKey c.id r.userId ∧ d = announcementDelivery c.id r

/-- What the cycle has done at each stage. -/
def StageOk (db : Database) (c : Cycle) : Prop :=
  match c.stage with
  | .page => Written c []
  | .look left => PageOk db c ∧ ∃ done, c.recipients = done ++ left ∧ Written c done
  | .insert left => PageOk db c ∧ ∃ done, c.recipients = done ++ left ∧ Written c done
  | .finish => PageOk db c ∧ Written c c.recipients

/-- What a cycle knows. -/
structure CycleOk (db : Database) (c : Cycle) : Prop where
  row : db.announcements.lookup c.id = some c.announcement
  undone : c.announcement.expansionComplete = false
  queued : c.announcement.state ≠ .draft
  size : 1 ≤ c.batchSize
  stage : StageOk db c

/-- The page that is selected is a page. -/
theorem pageOk_page (db : Database) (c : Cycle) (st : Stage) :
    PageOk db { c with recipients := c.page db, stage := st } := by
  have hnodup := nodup_recipients db c.id
  constructor
  case member =>
    intro r hr
    obtain ⟨hmem, hcursor⟩ := Paging.mem_of_mem_page hr
    exact ⟨mem_recipients.mp hmem, hcursor⟩
  case nodup => exact Paging.nodup_page hnodup
  case last =>
    intro last hlast u g hg
    exact Paging.le_last_iff (r := ⟨u, g⟩) hnodup hlast (mem_recipients.mpr hg)
  case short =>
    intro hshort u g hg
    exact Paging.covered_of_short (r := ⟨u, g⟩) hshort (mem_recipients.mpr hg)

/-- Where the loop goes on from, the page is done or a recipient is left. -/
theorem stageOk_loop {left done : List Recipient} (hpage : PageOk db c)
    (hrecipients : c.recipients = done ++ left) (hwritten : Written c done) :
    StageOk db { c with stage := Cycle.loop left } := by
  cases left with
  | nil =>
      rw [List.append_nil] at hrecipients
      exact ⟨⟨hpage.member, hpage.nodup, hpage.last, hpage.short⟩, hrecipients ▸ hwritten⟩
  | cons r left =>
      exact ⟨⟨hpage.member, hpage.nodup, hpage.last, hpage.short⟩, done, hrecipients, hwritten⟩

/-- The cycle sees no delivery for a recipient that is left. -/
theorem CycleOk.find_eq_none (h : CycleOk db c) (hdb : DbOk db) (hpage : PageOk db c)
    {r : Recipient} {left done : List Recipient} (hrecipients : c.recipients = done ++ r :: left)
    (hwritten : Written c done) : c.find db (announcementKey c.id r.userId) = none := by
  have hmem : r ∈ c.recipients := by
    rw [hrecipients]
    exact List.mem_append_right _ List.mem_cons_self
  have hcommitted := hdb.lookup_eq_none h.row (hpage.member r hmem).2
  have hown : c.written.lookup (announcementKey c.id r.userId) = none := by
    rw [Option.eq_none_iff_forall_ne_some]
    intro d hd
    obtain ⟨r', hr', hkey, -⟩ := (hwritten _ d).mp hd
    have hsame := (announcementKey_injective hkey).2
    -- the user would be on the page twice
    have hnodup := hpage.nodup
    rw [hrecipients, List.map_append, List.nodup_append] at hnodup
    exact hnodup.2.2 _ (List.mem_map_of_mem hr') _ (List.mem_map_of_mem List.mem_cons_self)
      hsame.symm
  rw [Cycle.find, hown, hcommitted]
  rfl

/-- One more delivery. -/
theorem Written.cons {done : List Recipient} (h : Written c done) (r : Recipient)
    (hnew : c.written.lookup (announcementKey c.id r.userId) = none) (st : Stage) :
    Written { c with
      written := c.written.insert (announcementKey c.id r.userId) (announcementDelivery c.id r)
      stage := st } (done ++ [r]) := by
  intro key d
  change (c.written.insert _ _).lookup key = some d ↔ _
  by_cases hkey : key = announcementKey c.id r.userId
  · subst hkey
    rw [AList.lookup_insert, Option.some.injEq]
    constructor
    · rintro rfl
      exact ⟨r, by simp, rfl, rfl⟩
    · rintro ⟨r', hr', hkey, rfl⟩
      rcases List.mem_append.mp hr' with hr' | hr'
      · -- it would have been written before
        have hold := (h _ _).mpr ⟨r', hr', hkey, rfl⟩
        rw [hnew] at hold
        cases hold
      · rw [List.mem_singleton.mp hr']
  · rw [AList.lookup_insert_ne hkey, h key d]
    constructor
    · rintro ⟨r', hr', hr⟩
      exact ⟨r', List.mem_append_left _ hr', hr⟩
    · rintro ⟨r', hr', hk, hd⟩
      rcases List.mem_append.mp hr' with hr' | hr'
      · exact ⟨r', hr', hk, hd⟩
      · rw [List.mem_singleton.mp hr'] at hk
        exact absurd hk hkey

/-- **A statement keeps what its cycle knows.**  It goes on with the announcement it has,
or commits at the end. -/
theorem perform_cases {others : List Cycle} {next : Next} (h : CycleOk db c) (hdb : DbOk db)
    (hp : perform db others c = some next) :
    (∃ c', next = .running c' ∧ c'.id = c.id ∧ CycleOk db c') ∨
      (next = .committed (c.commit db) ∧ PageOk db c ∧ Written c c.recipients) ∨
      next = .raised := by
  have hst := h.stage
  unfold perform at hp
  unfold StageOk at hst
  split at hp
  case h_1 hstage =>
    simp only [hstage] at hst
    cases hp
    refine Or.inl ⟨_, rfl, rfl, h.row, h.undone, h.queued, h.size, ?_⟩
    have hnothing : Written { c with recipients := c.page db } [] := hst
    exact stageOk_loop (pageOk_page db c c.stage) (List.nil_append _).symm hnothing
  case h_2 hstage =>
    simp only [hstage] at hst
    cases hp
    obtain ⟨hpage, done, hrecipients, hwritten⟩ := hst
    exact Or.inl ⟨_, rfl, rfl, h.row, h.undone, h.queued, h.size,
      stageOk_loop hpage hrecipients hwritten⟩
  case h_3 recipient left hstage =>
    simp only [hstage] at hst
    obtain ⟨hpage, done, hrecipients, hwritten⟩ := hst
    have hnone := h.find_eq_none hdb hpage hrecipients hwritten
    simp only [hnone] at hp
    split at hp
    · cases hp
      exact Or.inl ⟨_, rfl, rfl, h.row, h.undone, h.queued, h.size,
        ⟨hpage.member, hpage.nodup, hpage.last, hpage.short⟩, done, hrecipients, hwritten⟩
    · cases hp
      exact Or.inr (Or.inr rfl)
  case h_4 hstage =>
    simp only [hstage] at hst
    cases hp
    obtain ⟨hpage, done, hrecipients, hwritten⟩ := hst
    exact Or.inl ⟨_, rfl, rfl, h.row, h.undone, h.queued, h.size,
      stageOk_loop hpage hrecipients hwritten⟩
  case h_5 recipient left hstage =>
    simp only [hstage] at hst
    obtain ⟨hpage, done, hrecipients, hwritten⟩ := hst
    have hnone := h.find_eq_none hdb hpage hrecipients hwritten
    simp only [hnone] at hp
    split at hp
    · cases hp
    · cases hp
      have hnew : c.written.lookup (announcementKey c.id recipient.userId) = none :=
        (Option.or_eq_none_iff.mp hnone).1
      refine Or.inl ⟨_, rfl, rfl, h.row, h.undone, h.queued, h.size, ?_⟩
      refine stageOk_loop (c := { c with written := _, stage := _ })
        ⟨hpage.member, hpage.nodup, hpage.last, hpage.short⟩ ?_ (hwritten.cons recipient hnew .page)
      rw [hrecipients, List.append_assoc]
      rfl
  case h_6 hstage =>
    simp only [hstage] at hst
    cases hp
    exact Or.inr (Or.inl ⟨rfl, hst⟩)

/-! ## the commit of a cycle -/

/-- The new cursor covers the old one and the page, and nothing else. -/
theorem le_cursor_finished (hpage : PageOk db c) {u : Nat} {g : Int}
    (hg : db.snapshots.lookup (c.id, u) = some g) :
    u ≤ c.finished.recipientCursor ↔
      u ≤ c.announcement.recipientCursor ∨ ⟨u, g⟩ ∈ c.recipients := by
  cases hlast : c.recipients.getLast? with
  | none =>
      rw [Cycle.finished, hlast, List.getLast?_eq_none_iff.mp hlast]
      simp
  | some last =>
      rw [Cycle.finished, hlast]
      exact hpage.last last hlast u g hg

/-- When the expansion is complete, no recipient is left. -/
theorem covered_finished (h : CycleOk db c) (hpage : PageOk db c)
    (hcomplete : c.finished.expansionComplete = true) {u : Nat} {g : Int}
    (hg : db.snapshots.lookup (c.id, u) = some g) : u ≤ c.finished.recipientCursor := by
  rw [le_cursor_finished hpage hg]
  refine hpage.short ?_ u g hg
  cases hlast : c.recipients.getLast? with
  | none =>
      rw [List.getLast?_eq_none_iff.mp hlast]
      exact h.size
  | some last =>
      rw [Cycle.finished, hlast] at hcomplete
      simpa [h.undone] using hcomplete

theorem lookup_commit (c : Cycle) (db : Database) (key : String) :
    (c.commit db).deliveries.lookup key =
      (c.written.lookup key).or (db.deliveries.lookup key) :=
  Table.lookup_insertAll_rows c.written db.deliveries key

theorem announcement_commit (c : Cycle) (db : Database) (a : Nat) :
    (c.commit db).announcements.lookup a =
      if a = c.id then some c.finished else db.announcements.lookup a := by
  change (db.announcements.insert c.id c.finished).lookup a = _
  split
  · rename_i heq
    rw [heq, AList.lookup_insert]
  · rename_i hne
    rw [AList.lookup_insert_ne hne]

/-- **A commit moves the cursor of its announcement**, and adds the deliveries of the
recipients that it passes. -/
theorem CycleOk.commit (h : CycleOk db c) (hdb : DbOk db) (hpage : PageOk db c)
    (hwritten : Written c c.recipients) : DbOk (c.commit db) := by
  have hstate : c.finished.state = c.announcement.state := by
    unfold Cycle.finished
    split <;> rfl
  -- the cursor does not go back
  have hcursor : ∀ {u g}, db.snapshots.lookup (c.id, u) = some g →
      u ≤ c.announcement.recipientCursor → u ≤ c.finished.recipientCursor := fun hg hle =>
    (le_cursor_finished hpage hg).mpr (Or.inl hle)
  constructor
  case user => exact hdb.user
  case nextUser => exact hdb.nextUser
  case positive => exact hdb.positive
  case announcement =>
    intro a row hrow
    rw [announcement_commit] at hrow
    split at hrow
    · rename_i heq
      rw [heq]
      exact hdb.announcement _ _ h.row
    · exact hdb.announcement a row hrow
  case queued =>
    intro a u g hg
    rw [announcement_commit]
    split
    · exact ⟨c.finished, rfl, hstate ▸ h.queued⟩
    · exact hdb.queued a u g hg
  case sound =>
    intro key d a hd ha
    rw [lookup_commit] at hd
    rcases Option.or_eq_some_iff.mp hd with hown | ⟨-, hold⟩
    · obtain ⟨r, hr, rfl, rfl⟩ := (hwritten key d).mp hown
      cases ha
      have hmember := (hpage.member r hr).1
      refine ⟨rfl, hmember, c.finished, ?_, ?_⟩
      · rw [announcement_commit, if_pos rfl]
      · exact (le_cursor_finished hpage hmember).mpr (Or.inr hr)
    · obtain ⟨hkey, hsnapshot, row, hrow, hle⟩ := hdb.sound key d a hold ha
      refine ⟨hkey, hsnapshot, ?_⟩
      rw [announcement_commit]
      split
      · rename_i heq
        subst heq
        rw [h.row, Option.some.injEq] at hrow
        subst hrow
        exact ⟨c.finished, rfl, hcursor hsnapshot hle⟩
      · exact ⟨row, hrow, hle⟩
  case covered =>
    intro a row u g hrow hg hle
    -- a delivery that is there stays
    have hkept : ∀ {d}, db.deliveries.lookup (announcementKey a u) = some d →
        d.announcementId = some a → d.userId = u →
          ∃ d', (c.commit db).deliveries.lookup (announcementKey a u) = some d' ∧
            d'.announcementId = some a ∧ d'.userId = u := by
      intro d hd ha hu
      rw [lookup_commit]
      cases hown : c.written.lookup (announcementKey a u) with
      | none => exact ⟨d, by rw [Option.none_or, hd], ha, hu⟩
      | some d' =>
          obtain ⟨r, -, hkey, rfl⟩ := (hwritten _ d').mp hown
          obtain ⟨rfl, rfl⟩ := announcementKey_injective hkey
          exact ⟨_, rfl, rfl, rfl⟩
    rw [announcement_commit] at hrow
    split at hrow
    · rename_i heq
      subst heq
      rw [Option.some.injEq] at hrow
      subst hrow
      rcases (le_cursor_finished hpage hg).mp hle with hold | hnew
      · obtain ⟨d, hd, ha, hu⟩ := hdb.covered c.id _ u g h.row hg hold
        exact hkept hd ha hu
      · refine ⟨announcementDelivery c.id ⟨u, g⟩, ?_, rfl, rfl⟩
        rw [lookup_commit, (hwritten _ _).mpr ⟨⟨u, g⟩, hnew, rfl, rfl⟩]
        rfl
    · obtain ⟨d, hd, ha, hu⟩ := hdb.covered a row u g hrow hg hle
      exact hkept hd ha hu
  case plain =>
    intro key d hd hnone
    rw [lookup_commit] at hd
    rcases Option.or_eq_some_iff.mp hd with hown | ⟨-, hold⟩
    · obtain ⟨r, -, -, rfl⟩ := (hwritten key d).mp hown
      cases hnone
    · exact hdb.plain key d hold hnone
  case complete =>
    intro a row u g hrow hcomplete hg
    rw [announcement_commit] at hrow
    split at hrow
    · rename_i heq
      subst heq
      rw [Option.some.injEq] at hrow
      subst hrow
      exact covered_finished h hpage hcomplete hg
    · exact hdb.complete a row u g hrow hcomplete hg

/-- A cycle looks at one announcement only. -/
theorem CycleOk.frame {db' : Database} (h : CycleOk db c)
    (hrow : db'.announcements.lookup c.id = db.announcements.lookup c.id)
    (hsnapshots : ∀ u, db'.snapshots.lookup (c.id, u) = db.snapshots.lookup (c.id, u)) :
    CycleOk db' c := by
  have hpage : PageOk db c → PageOk db' c := by
    intro hpage
    refine ⟨fun r hr => ?_, hpage.nodup, fun last hlast u g hg => ?_, fun hshort u g hg => ?_⟩
    · rw [hsnapshots]
      exact hpage.member r hr
    · rw [hsnapshots] at hg
      exact hpage.last last hlast u g hg
    · rw [hsnapshots] at hg
      exact hpage.short hshort u g hg
  refine ⟨hrow.trans h.row, h.undone, h.queued, h.size, ?_⟩
  have hst := h.stage
  unfold StageOk at hst ⊢
  split
  all_goals
    rename_i hstage
    simp only [hstage] at hst
  case h_1 => exact hst
  case h_2 => exact ⟨hpage hst.1, hst.2⟩
  case h_3 => exact ⟨hpage hst.1, hst.2⟩
  case h_4 => exact ⟨hpage hst.1, hst.2⟩

end Cycles

/-! ## the other transactions -/

section Others

variable {db : Database} {a : Nat} {row : Announcement}

/-- A draft has no recipient. -/
theorem DbOk.lookup_draft (h : DbOk db) (hrow : db.announcements.lookup a = some row)
    (hdraft : row.state = .draft) (u : Nat) : db.snapshots.lookup (a, u) = none := by
  rw [Option.eq_none_iff_forall_ne_some]
  intro g hg
  obtain ⟨row', hrow', hstate⟩ := h.queued a u g hg
  rw [hrow, Option.some.injEq] at hrow'
  exact hstate (hrow' ▸ hdraft)

/-- The recipients are the eligible users. -/
theorem lookup_queueAnnouncement (db : Database) (row : Announcement) (a' u : Nat) (g : Int) :
    (queueAnnouncement db a row).snapshots.lookup (a', u) = some g ↔
      ((a', u), g) ∈ eligibleRecipients db a ∨
        (∀ g', ((a', u), g') ∉ eligibleRecipients db a) ∧
          db.snapshots.lookup (a', u) = some g := by
  refine Table.lookup_insertAll (fun k v v' hv hv' => ?_) db.snapshots (a', u) g
  obtain ⟨r, hr, hk⟩ := List.mem_map.mp hv
  obtain ⟨r', hr', hk'⟩ := List.mem_map.mp hv'
  obtain ⟨rfl, rfl⟩ := Prod.mk.inj hk
  obtain ⟨huser, rfl⟩ := Prod.mk.inj hk'
  have hfirst : (r.1, r.2) ∈ Table.rows db.users := List.mem_of_mem_filter hr
  have hsecond : (r.1, r'.2) ∈ Table.rows db.users :=
    (Prod.mk.inj huser).2 ▸ List.mem_of_mem_filter hr'
  rw [Table.eq_of_mem_rows hfirst hsecond]

theorem mem_eligibleRecipients {a' u : Nat} {g : Int}
    (h : ((a', u), g) ∈ eligibleRecipients db a) :
    a' = a ∧ ∃ user, db.users.lookup u = some user := by
  obtain ⟨⟨u', user⟩, hmem, heq⟩ := List.mem_map.mp h
  cases heq
  exact ⟨rfl, user, Table.mem_rows.mp (List.mem_of_mem_filter hmem)⟩

theorem lookup_queueAnnouncement_of_ne (db : Database) (row : Announcement) {a' : Nat}
    (hne : a' ≠ a) (u : Nat) :
    (queueAnnouncement db a row).snapshots.lookup (a', u) = db.snapshots.lookup (a', u) := by
  apply Option.ext
  intro g
  rw [lookup_queueAnnouncement]
  constructor
  · rintro (hmem | ⟨-, hg⟩)
    · exact absurd (mem_eligibleRecipients hmem).1 hne
    · exact hg
  · intro hg
    exact Or.inr ⟨fun g' hmem => hne (mem_eligibleRecipients hmem).1, hg⟩

theorem announcement_queueAnnouncement (db : Database) (row : Announcement) {a' : Nat}
    {row' : Announcement} (h : (queueAnnouncement db a row).announcements.lookup a' = some row') :
    (a' = a ∧ row'.state ≠ .draft ∧ row'.recipientCursor = 0 ∧
      (row'.expansionComplete = true →
        (queueAnnouncement db a row).recipients a = [])) ∨
    (a' ≠ a ∧ db.announcements.lookup a' = some row') := by
  by_cases ha : a' = a
  · subst ha
    change (db.announcements.insert a' _).lookup a' = some row' at h
    rw [AList.lookup_insert, Option.some.injEq] at h
    subst h
    refine Or.inl ⟨rfl, ?_, rfl, fun hcomplete => ?_⟩
    · dsimp only
      split <;> decide
    · exact List.length_eq_zero_iff.mp (of_decide_eq_true hcomplete)
  · change (db.announcements.insert a _).lookup a' = some row' at h
    rw [AList.lookup_insert_ne ha] at h
    exact Or.inr ⟨ha, h⟩

/-- `queue_announcement` takes the recipients down before any delivery. -/
theorem DbOk.queue (h : DbOk db) (hrow : db.announcements.lookup a = some row)
    (hdraft : row.state = .draft) : DbOk (queueAnnouncement db a row) := by
  have hbefore := h.lookup_draft hrow hdraft
  constructor
  case user => exact h.user
  case nextUser => exact h.nextUser
  case announcement =>
    intro a' row' hrow'
    rcases announcement_queueAnnouncement db row hrow' with ⟨rfl, -⟩ | ⟨-, hold⟩
    · exact h.announcement a' row hrow
    · exact h.announcement a' row' hold
  case positive =>
    intro a' u g hg
    rcases (lookup_queueAnnouncement db row a' u g).mp hg with hmem | ⟨-, hold⟩
    · obtain ⟨-, user, huser⟩ := mem_eligibleRecipients hmem
      exact h.user u user huser
    · exact h.positive a' u g hold
  case queued =>
    intro a' u g hg
    by_cases ha : a' = a
    · subst ha
      obtain ⟨row', hrow'⟩ : ∃ row',
          (queueAnnouncement db a' row).announcements.lookup a' = some row' :=
        ⟨_, AList.lookup_insert _⟩
      rcases announcement_queueAnnouncement db row hrow' with ⟨-, hstate, -⟩ | ⟨hne, -⟩
      · exact ⟨row', hrow', hstate⟩
      · exact absurd rfl hne
    · rw [lookup_queueAnnouncement_of_ne db row ha] at hg
      obtain ⟨row', hrow', hstate⟩ := h.queued a' u g hg
      refine ⟨row', ?_, hstate⟩
      change (db.announcements.insert a _).lookup a' = some row'
      rw [AList.lookup_insert_ne ha, hrow']
  case sound =>
    intro key d a' hd ha'
    obtain ⟨hkey, hsnapshot, row', hrow', hle⟩ := h.sound key d a' hd ha'
    have hne : a' ≠ a := by
      rintro rfl
      rw [hbefore] at hsnapshot
      cases hsnapshot
    refine ⟨hkey, ?_, row', ?_, hle⟩
    · rw [lookup_queueAnnouncement_of_ne db row hne, hsnapshot]
    · change (db.announcements.insert a _).lookup a' = some row'
      rw [AList.lookup_insert_ne hne, hrow']
  case covered =>
    intro a' row' u g hrow' hg hle
    rcases announcement_queueAnnouncement db row hrow' with ⟨rfl, -, hcursor, -⟩ | ⟨hne, hold⟩
    · -- nobody has a delivery yet
      have hpositive : 1 ≤ u := by
        rcases (lookup_queueAnnouncement db row a' u g).mp hg with hmem | ⟨-, hold⟩
        · obtain ⟨-, user, huser⟩ := mem_eligibleRecipients hmem
          exact h.user u user huser
        · exact h.positive a' u g hold
      omega
    · rw [lookup_queueAnnouncement_of_ne db row hne] at hg
      exact h.covered a' row' u g hold hg hle
  case plain => exact h.plain
  case complete =>
    intro a' row' u g hrow' hcomplete hg
    rcases announcement_queueAnnouncement db row hrow' with ⟨rfl, -, -, hnil⟩ | ⟨hne, hold⟩
    · have hmem : ⟨u, g⟩ ∈ (queueAnnouncement db a' row).recipients a' := mem_recipients.mpr hg
      rw [hnil hcomplete] at hmem
      exact absurd hmem List.not_mem_nil
    · rw [lookup_queueAnnouncement_of_ne db row hne] at hg
      exact h.complete a' row' u g hold hcomplete hg

/-- The cursor and the completion of an announcement stay when only its state changes. -/
theorem DbOk.setState (h : DbOk db) (hrow : db.announcements.lookup a = some row)
    {state : AnnouncementState} (hstate : state ≠ .draft) :
    DbOk { db with
      announcements := db.announcements.insert a { row with state := state } } := by
  have hlookup : ∀ a', (db.announcements.insert a { row with state := state }).lookup a' =
      if a' = a then some { row with state := state } else db.announcements.lookup a' := by
    intro a'
    split
    · rename_i heq
      rw [heq, AList.lookup_insert]
    · rename_i hne
      rw [AList.lookup_insert_ne hne]
  -- every row is one of before, as far as the cursor goes
  have hold : ∀ {a' row'},
      (db.announcements.insert a { row with state := state }).lookup a' = some row' →
        ∃ row'', db.announcements.lookup a' = some row'' ∧
          row'.recipientCursor = row''.recipientCursor ∧
          row'.expansionComplete = row''.expansionComplete := by
    intro a' row' hrow'
    rw [hlookup] at hrow'
    split at hrow'
    · rename_i heq
      cases hrow'
      exact ⟨row, heq ▸ hrow, rfl, rfl⟩
    · exact ⟨row', hrow', rfl, rfl⟩
  have hnew : ∀ {a' row''}, db.announcements.lookup a' = some row'' →
      ∃ row', (db.announcements.insert a { row with state := state }).lookup a' = some row' ∧
        row'.recipientCursor = row''.recipientCursor ∧
        (row''.state ≠ .draft → row'.state ≠ .draft) := by
    intro a' row'' hrow''
    rw [hlookup]
    split
    · rename_i heq
      rw [heq, hrow, Option.some.injEq] at hrow''
      subst hrow''
      exact ⟨_, rfl, rfl, fun _ => hstate⟩
    · exact ⟨row'', hrow'', rfl, id⟩
  constructor
  case user => exact h.user
  case nextUser => exact h.nextUser
  case positive => exact h.positive
  case plain => exact h.plain
  case announcement =>
    intro a' row' hrow'
    obtain ⟨row'', hrow'', -⟩ := hold hrow'
    exact h.announcement a' row'' hrow''
  case queued =>
    intro a' u g hg
    obtain ⟨row'', hrow'', hne⟩ := h.queued a' u g hg
    obtain ⟨row', hrow', -, hkeep⟩ := hnew hrow''
    exact ⟨row', hrow', hkeep hne⟩
  case sound =>
    intro key d a' hd ha'
    obtain ⟨hkey, hsnapshot, row'', hrow'', hle⟩ := h.sound key d a' hd ha'
    obtain ⟨row', hrow', hcursor, -⟩ := hnew hrow''
    exact ⟨hkey, hsnapshot, row', hrow', hcursor ▸ hle⟩
  case covered =>
    intro a' row' u g hrow' hg hle
    obtain ⟨row'', hrow'', hcursor, -⟩ := hold hrow'
    exact h.covered a' row'' u g hrow'' hg (hcursor ▸ hle)
  case complete =>
    intro a' row' u g hrow' hcomplete hg
    obtain ⟨row'', hrow'', hcursor, hsame⟩ := hold hrow'
    rw [hcursor]
    exact h.complete a' row'' u g hrow'' (hsame ▸ hcomplete) hg

/-- A new announcement is a draft without recipients. -/
theorem DbOk.create (h : DbOk db) (hdraft : row.expansionComplete = false) :
    DbOk { db with
      announcements := db.announcements.insert db.nextAnnouncement row
      nextAnnouncement := db.nextAnnouncement + 1 } := by
  have hkept : ∀ {a' row'}, db.announcements.lookup a' = some row' →
      (db.announcements.insert db.nextAnnouncement row).lookup a' = some row' := by
    intro a' row' hrow'
    have hne : a' ≠ db.nextAnnouncement := (h.announcement a' row' hrow').ne
    rw [AList.lookup_insert_ne hne, hrow']
  have hold : ∀ {a' row'},
      (db.announcements.insert db.nextAnnouncement row).lookup a' = some row' →
        (a' = db.nextAnnouncement ∧ row' = row) ∨ db.announcements.lookup a' = some row' := by
    intro a' row' hrow'
    by_cases ha : a' = db.nextAnnouncement
    · rw [ha, AList.lookup_insert, Option.some.injEq] at hrow'
      exact Or.inl ⟨ha, hrow'.symm⟩
    · rw [AList.lookup_insert_ne ha] at hrow'
      exact Or.inr hrow'
  constructor
  case user => exact h.user
  case nextUser => exact h.nextUser
  case positive => exact h.positive
  case plain => exact h.plain
  case announcement =>
    intro a' row' hrow'
    rcases hold hrow' with ⟨rfl, -⟩ | hrow'
    · exact Nat.lt_succ_self _
    · exact (h.announcement a' row' hrow').trans (Nat.lt_succ_self _)
  case queued =>
    intro a' u g hg
    obtain ⟨row', hrow', hne⟩ := h.queued a' u g hg
    exact ⟨row', hkept hrow', hne⟩
  case sound =>
    intro key d a' hd ha'
    obtain ⟨hkey, hsnapshot, row', hrow', hle⟩ := h.sound key d a' hd ha'
    exact ⟨hkey, hsnapshot, row', hkept hrow', hle⟩
  case covered =>
    intro a' row' u g hrow' hg hle
    rcases hold hrow' with ⟨rfl, -⟩ | hrow'
    · obtain ⟨row'', hrow'', -⟩ := h.queued _ u g hg
      exact absurd (h.announcement _ row'' hrow'') (lt_irrefl _)
    · exact h.covered a' row' u g hrow' hg hle
  case complete =>
    intro a' row' u g hrow' hcomplete hg
    rcases hold hrow' with ⟨-, rfl⟩ | hrow'
    · rw [hdraft] at hcomplete
      cases hcomplete
    · exact h.complete a' row' u g hrow' hcomplete hg

/-- Deliveries that are not for an announcement, and changes of state. -/
theorem DbOk.deliver (h : DbOk db) {key : String} {d : NotificationDelivery}
    (hd : (d.announcementId = none ∧ "announcement:".toList.isPrefixOf key.toList = false) ∨
      ∃ old, db.deliveries.lookup key = some old ∧ d.announcementId = old.announcementId ∧
        d.userId = old.userId ∧ d.recipientGeneration = old.recipientGeneration) :
    DbOk { db with deliveries := db.deliveries.insert key d } := by
  have hlookup : ∀ key', (db.deliveries.insert key d).lookup key' =
      if key' = key then some d else db.deliveries.lookup key' := by
    intro key'
    split
    · rename_i heq
      rw [heq, AList.lookup_insert]
    · rename_i hne
      rw [AList.lookup_insert_ne hne]
  constructor
  case user => exact h.user
  case nextUser => exact h.nextUser
  case announcement => exact h.announcement
  case positive => exact h.positive
  case queued => exact h.queued
  case complete => exact h.complete
  case sound =>
    intro key' d' a' hd' ha'
    change (db.deliveries.insert key d).lookup key' = some d' at hd'
    rw [hlookup] at hd'
    split at hd'
    · rename_i heq
      cases hd'
      rcases hd with ⟨hnone, -⟩ | ⟨old, hold, ha, hu, hg⟩
      · rw [hnone] at ha'
        cases ha'
      · rw [heq, hu, hg]
        exact h.sound key old a' hold (ha ▸ ha')
    · exact h.sound key' d' a' hd' ha'
  case covered =>
    intro a' row' u g hrow' hg hle
    change ∃ d', (db.deliveries.insert key d).lookup _ = some d' ∧ _
    obtain ⟨d', hd', ha', hu'⟩ := h.covered a' row' u g hrow' hg hle
    rw [hlookup]
    split
    · rename_i heq
      rcases hd with ⟨-, hplain⟩ | ⟨old, hold, ha, hu, -⟩
      · rw [← heq, announcementKey_split] at hplain
        cases hplain
      · rw [← heq, hd', Option.some.injEq] at hold
        subst hold
        exact ⟨d, rfl, ha.trans ha', hu.trans hu'⟩
    · exact ⟨d', hd', ha', hu'⟩
  case plain =>
    intro key' d' hd' hnone
    change (db.deliveries.insert key d).lookup key' = some d' at hd'
    rw [hlookup] at hd'
    split at hd'
    · rename_i heq
      cases hd'
      rcases hd with ⟨-, hplain⟩ | ⟨old, hold, ha, -, -⟩
      · rw [heq, hplain]
      · rw [heq]
        exact h.plain key old hold (ha ▸ hnone)
    · exact h.plain key' d' hd' hnone

end Others

/-! ## any number of replicas -/

/-- What holds of every reachable state. -/
structure Inv (s : State) : Prop where
  database : DbOk s.db
  known : ∀ i c, s.cycles.lookup i = some c → CycleOk s.db c
  alone : ∀ i c j d, s.cycles.lookup i = some c → s.cycles.lookup j = some d → c.id = d.id → i = j

theorem lookup_of_erase {cycles : AList fun _ : Nat => Cycle} {i j : Nat} {c : Cycle}
    (h : (cycles.erase i).lookup j = some c) : j ≠ i ∧ cycles.lookup j = some c := by
  by_cases hji : j = i
  · rw [hji, AList.lookup_erase] at h
    cases h
  · rw [AList.lookup_erase_ne hji] at h
    exact ⟨hji, h⟩

theorem id_ne_of_locked {s : State} {a : Nat} (h : s.locked a = false) {i : Nat} {c : Cycle}
    (hi : s.cycles.lookup i = some c) : c.id ≠ a := by
  rw [State.locked, List.any_eq_false] at h
  simpa using h (i, c) (Table.mem_rows.mpr hi)

/-- Another transaction commits: the cycles under way do not see it. -/
theorem Inv.commitOther {s : State} (h : Inv s) {db : Database} (hdb : DbOk db)
    (hframe : ∀ i c, s.cycles.lookup i = some c →
      db.announcements.lookup c.id = s.db.announcements.lookup c.id ∧
        ∀ u, db.snapshots.lookup (c.id, u) = s.db.snapshots.lookup (c.id, u)) :
    Inv { s with db := db } :=
  ⟨hdb, fun i c hi => (h.known i c hi).frame (hframe i c hi).1 (hframe i c hi).2, h.alone⟩

/-- A replica stops. -/
theorem Inv.erase {s : State} (h : Inv s) (i : Nat) :
    Inv { s with cycles := s.cycles.erase i } :=
  ⟨h.database, fun j c hj => h.known j c (lookup_of_erase hj).2,
    fun j c j' d hj hj' => h.alone j c j' d (lookup_of_erase hj).2 (lookup_of_erase hj').2⟩

/-- A replica has an announcement that no other one has. -/
theorem Inv.insert {s : State} (h : Inv s) {i : Nat} {c : Cycle} (hc : CycleOk s.db c)
    (halone : ∀ j d, j ≠ i → s.cycles.lookup j = some d → d.id ≠ c.id) :
    Inv { s with cycles := s.cycles.insert i c } := by
  have hcases : ∀ {j d}, (s.cycles.insert i c).lookup j = some d →
      (j = i ∧ d = c) ∨ (j ≠ i ∧ s.cycles.lookup j = some d) := by
    intro j d hj
    by_cases hji : j = i
    · rw [hji, AList.lookup_insert, Option.some.injEq] at hj
      exact Or.inl ⟨hji, hj.symm⟩
    · rw [AList.lookup_insert_ne hji] at hj
      exact Or.inr ⟨hji, hj⟩
  refine ⟨h.database, fun j d hj => ?_, fun j d j' d' hj hj' hid => ?_⟩
  · rcases hcases hj with ⟨-, rfl⟩ | ⟨-, hold⟩
    · exact hc
    · exact h.known j d hold
  · rcases hcases hj with ⟨rfl, rfl⟩ | ⟨hji, hold⟩ <;>
      rcases hcases hj' with ⟨rfl, rfl⟩ | ⟨hji', hold'⟩
    · rfl
    · exact absurd hid.symm (halone j' d' hji' hold')
    · exact absurd hid (halone j d hji hold)
    · exact h.alone j d j' d' hold hold' hid

theorem update_eq_some {s s' : State} {a : Nat} {f : Announcement → Option Database}
    (h : s.update a f = some s') :
    s.locked a = false ∧ ∃ row db, s.db.announcements.lookup a = some row ∧ f row = some db ∧
      s' = { s with db := db } := by
  unfold State.update at h
  split at h
  · cases h
  · rename_i hlocked
    obtain ⟨row, hrow, hmap⟩ := Option.bind_eq_some_iff.mp h
    obtain ⟨db, hdb, heq⟩ := Option.map_eq_some_iff.mp hmap
    exact ⟨Bool.eq_false_iff.mpr hlocked, row, db, hrow, hdb, heq.symm⟩

/-- The row of an announcement that no replica has is written. -/
theorem Inv.setState {s : State} (h : Inv s) {a : Nat} (hlocked : s.locked a = false)
    {row : Announcement} (hrow : s.db.announcements.lookup a = some row)
    {state : AnnouncementState} (hstate : state ≠ .draft) :
    Inv { s with db := { s.db with
      announcements := s.db.announcements.insert a { row with state := state } } } :=
  h.commitOther (h.database.setState hrow hstate) fun _ _ hi =>
    ⟨AList.lookup_insert_ne (id_ne_of_locked hlocked hi), fun _ => rfl⟩

/-- **Every step keeps the invariant.** -/
theorem Inv.step {s s' : State} {e : Event} (h : Inv s) (hs : step s e = some s') : Inv s' := by
  have hsame : ∀ i c, s.cycles.lookup i = some c →
      s.db.announcements.lookup c.id = s.db.announcements.lookup c.id ∧
        ∀ u, s.db.snapshots.lookup (c.id, u) = s.db.snapshots.lookup (c.id, u) :=
    fun _ _ _ => ⟨rfl, fun _ => rfl⟩
  cases e with
  | signUp user =>
      cases hs
      refine h.commitOther ⟨fun u user' hu => ?_, by simp, h.database.announcement,
        h.database.positive, h.database.queued, h.database.sound, h.database.covered,
        h.database.plain, h.database.complete⟩ hsame
      by_cases hnew : u = s.db.nextUser
      · exact hnew ▸ h.database.nextUser
      · rw [AList.lookup_insert_ne hnew] at hu
        exact h.database.user u user' hu
  | change id user =>
      simp only [Announcements.step] at hs
      split at hs
      · rename_i hid
        cases hs
        refine h.commitOther ⟨fun u user' hu => ?_, h.database.nextUser, h.database.announcement,
          h.database.positive, h.database.queued, h.database.sound, h.database.covered,
          h.database.plain, h.database.complete⟩ hsame
        by_cases hold : u = id
        · obtain ⟨user'', huser''⟩ := Option.isSome_iff_exists.mp hid
          exact hold ▸ h.database.user id user'' huser''
        · rw [AList.lookup_insert_ne hold] at hu
          exact h.database.user u user' hu
      · cases hs
  | create =>
      cases hs
      refine h.commitOther (h.database.create rfl) fun i c hi => ⟨?_, fun u => rfl⟩
      exact AList.lookup_insert_ne (h.database.announcement _ _ (h.known i c hi).row).ne
  | queue a =>
      obtain ⟨hlocked, row, db, hrow, hf, rfl⟩ := update_eq_some hs
      split at hf
      · rename_i hdraft
        cases hf
        refine h.commitOther (h.database.queue hrow hdraft) fun i c hi => ?_
        have hne := id_ne_of_locked hlocked hi
        exact ⟨AList.lookup_insert_ne hne, lookup_queueAnnouncement_of_ne s.db row hne⟩
      · cases hf
  | cancel a =>
      obtain ⟨hlocked, row, db, hrow, hf, rfl⟩ := update_eq_some hs
      split at hf
      · cases hf
      · cases hf
        exact h.setState hlocked hrow (by decide)
  | complete a =>
      obtain ⟨hlocked, row, db, hrow, hf, rfl⟩ := update_eq_some hs
      split at hf
      · cases hf
        exact h.setState hlocked hrow (by decide)
      · cases hf
  | notify key delivery =>
      simp only [Announcements.step] at hs
      split at hs
      · cases hs
      · rename_i hplain
        cases hs
        rw [not_or] at hplain
        exact h.commitOther (h.database.deliver (Or.inl
          ⟨Option.not_isSome_iff_eq_none.mp hplain.2, Bool.eq_false_iff.mpr hplain.1⟩)) hsame
  | progress key state =>
      obtain ⟨d, hd, rfl⟩ := Option.map_eq_some_iff.mp hs
      exact h.commitOther (h.database.deliver (Or.inr ⟨d, hd, rfl, rfl, rfl⟩)) hsame
  | expand i batchSize a =>
      simp only [Announcements.step] at hs
      split at hs
      · rename_i hstart
        obtain ⟨row, hrow, hopen⟩ := Option.bind_eq_some_iff.mp hs
        split at hopen
        · rename_i hqueued
          cases hopen
          have hlocked := Bool.eq_false_iff.mpr hstart.2.2.2
          refine h.insert ⟨hrow, Bool.eq_false_iff.mpr hqueued.2, ?_, hstart.1, ?_⟩
            fun j d _ hj => id_ne_of_locked hlocked hj
          · simp only
            rw [hqueued.1]
            decide
          · exact fun key d => by simp
        · cases hopen
      · cases hs
  | perform i =>
      obtain ⟨c, hi, hmap⟩ := Option.bind_eq_some_iff.mp hs
      obtain ⟨next, hnext, rfl⟩ := Option.map_eq_some_iff.mp hmap
      have hc := h.known i c hi
      rcases perform_cases hc h.database hnext with ⟨c', rfl, hid, hc'⟩ |
        ⟨rfl, hpage, hwritten⟩ | rfl
      · refine h.insert hc' fun j d hji hj heq => ?_
        exact hji (h.alone j d i c hj hi (heq.trans hid))
      · have hrest := h.erase i
        refine hrest.commitOther (hc.commit h.database hpage hwritten) fun j d hj => ?_
        obtain ⟨hji, hold⟩ := lookup_of_erase hj
        have hne : d.id ≠ c.id := fun heq => hji (h.alone j d i c hold hi heq)
        exact ⟨AList.lookup_insert_ne hne, fun u => rfl⟩
      · exact h.erase i
  | crash i =>
      cases hs
      exact h.erase i

theorem inv_init : Inv State.init := by
  constructor
  case database =>
    constructor
    case nextUser => exact le_rfl
    all_goals
      intros
      simp_all [State.init]
  all_goals
    intros
    simp_all [State.init]

/-! ## the result -/

theorem mem_deliveriesOf {db : Database} (h : DbOk db) {a : Nat} {row : Announcement}
    (hrow : db.announcements.lookup a = some row) {r : Recipient} :
    r ∈ db.deliveriesOf a ↔ r ∈ db.recipients a ∧ r.userId ≤ row.recipientCursor := by
  rw [mem_recipients, Database.deliveriesOf, List.mem_map]
  constructor
  · rintro ⟨⟨key, d⟩, hmem, rfl⟩
    obtain ⟨hlookup, ha⟩ := List.mem_filter.mp hmem
    rw [decide_eq_true_eq] at ha
    obtain ⟨-, hsnapshot, row', hrow', hle⟩ := h.sound key d a (Table.mem_rows.mp hlookup) ha
    rw [hrow, Option.some.injEq] at hrow'
    exact ⟨hsnapshot, hrow' ▸ hle⟩
  · rintro ⟨hsnapshot, hle⟩
    obtain ⟨d, hd, ha, hu⟩ := h.covered a row r.userId _ hrow hsnapshot hle
    refine ⟨(announcementKey a r.userId, d),
      List.mem_filter.mpr ⟨Table.mem_rows.mpr hd, by simpa using ha⟩, ?_⟩
    obtain ⟨-, hsame, -⟩ := h.sound _ d a hd ha
    rw [hu, hsnapshot, Option.some.injEq] at hsame
    rw [hu, ← hsame]

/-- A user has one delivery for an announcement at most. -/
theorem nodup_deliveriesOf {db : Database} (h : DbOk db) (a : Nat) : (db.deliveriesOf a).Nodup := by
  refine Table.nodup_rows_map fun r hr r' hr' hp hp' heq => ?_
  rw [decide_eq_true_eq] at hp hp'
  rw [(h.sound r.1 r.2 a (Table.mem_rows.mp hr) hp).1,
    (h.sound r'.1 r'.2 a (Table.mem_rows.mp hr') hp').1, (Recipient.mk.inj heq).1]

/-- **The expansion of an announcement.**  Whatever the replicas did, and wherever they
stopped, the deliveries of an announcement are those of its recipients up to the cursor,
one for each, with the generation of the snapshot.  When the expansion is complete these
are all of its recipients. -/
theorem expansion_exact {es : List Event} {s : State} (h : exec step State.init es = some s)
    {a : Nat} {row : Announcement} (hrow : s.db.announcements.lookup a = some row) :
    (s.db.deliveriesOf a).Perm
        ((s.db.recipients a).filter fun r => r.userId ≤ row.recipientCursor) ∧
      (row.expansionComplete = true → (s.db.deliveriesOf a).Perm (s.db.recipients a)) ∧
      ((s.db.recipients a).map Recipient.userId).Nodup := by
  have hdb := (exec_invariant (fun _ _ _ hI hs => hI.step hs) inv_init h : Inv s).database
  have hnodup := nodup_deliveriesOf hdb a
  have hkeys := nodup_recipients s.db a
  have hrecipients := hkeys.of_map
  refine ⟨?_, fun hcomplete => ?_, hkeys⟩
  · refine (List.perm_ext_iff_of_nodup hnodup (hrecipients.filter _)).mpr fun r => ?_
    rw [mem_deliveriesOf hdb hrow, List.mem_filter, decide_eq_true_eq]
  · refine (List.perm_ext_iff_of_nodup hnodup hrecipients).mpr fun r => ?_
    rw [mem_deliveriesOf hdb hrow]
    exact and_iff_left_of_imp fun hr =>
      hdb.complete a row r.userId _ hrow hcomplete (mem_recipients.mp hr)

/-- Three users; a replica stops in the middle of the first page, another one takes over,
and the batch size changes from cycle to cycle. -/
def takeover : List Event :=
  List.replicate 3 (Event.signUp ⟨true, 1, false, false⟩) ++
    [Event.create, Event.queue 1, Event.expand 0 2 1] ++ List.replicate 3 (Event.perform 0) ++
    [Event.crash 0, Event.expand 1 2 1] ++ List.replicate 6 (Event.perform 1) ++
    [Event.expand 0 1 1] ++ List.replicate 4 (Event.perform 0) ++ [Event.expand 1 3 1] ++
    List.replicate 2 (Event.perform 1)

theorem expansion_exact_takeover :
    ∃ s row, exec step State.init takeover = some s ∧
      s.db.announcements.lookup 1 = some row ∧ row.expansionComplete = true ∧
      (s.db.deliveriesOf 1).Perm (s.db.recipients 1) := by
  obtain ⟨s, hs⟩ : ∃ s, exec step State.init takeover = some s :=
    Option.isSome_iff_exists.mp (by decide +kernel)
  have hcomplete : ((exec step State.init takeover).bind fun s =>
      (s.db.announcements.lookup 1).map fun row => row.expansionComplete) = some true := by
    decide +kernel
  rw [hs, Option.bind_some] at hcomplete
  obtain ⟨row, hrow, hdone⟩ := Option.map_eq_some_iff.mp hcomplete
  exact ⟨s, row, hs, hrow, hdone, (expansion_exact hs hrow).2.1 hdone⟩

end Backend.Announcements

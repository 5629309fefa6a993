import Discode.Commits
import Discode.Transitions

/-!
# Superseded sessions

A session that was taken over by name is marked with its successor and cannot be taken over
again.  The mark is justified while the successor is being created or once it ran; whoever
ends the creation otherwise has to release the mark.
-/

set_option autoImplicit false

namespace Discode

open ProcessPool (Machine)

/-- An archived session that resume-by-name passes over because of `heir`. -/
def Marked (db : Database) (sid heir : SessionId) : Prop :=
  ∃ r, db.session? sid = some r ∧ r.status = .archived ∧
    r.statusReason = some (.superseded heir)

def SessionRow.hasStarted (r : SessionRow) : Prop := r.status = .creating ∨ r.runningAt.isSome

/-- The session is being created, or it ran at least once. -/
def HeirStarted (db : Database) (heir : SessionId) : Prop :=
  ∃ r, db.session? heir = some r ∧ r.hasStarted

def MarksJustified (db : Database) : Prop := ∀ sid heir, Marked db sid heir → HeirStarted db heir

variable {f : SessionUpdate} {es : List Envelope} {db db' : Database}

theorem Updates.marksJustified (h : Updates f es db db')
    (hmark : ∀ sid r heir, db.session? sid = some r → (f sid r).status = .archived →
      (f sid r).statusReason = some (.superseded heir) → HeirStarted db heir)
    (hkeep : ∀ sid r, db.session? sid = some r → r.hasStarted →
      (f sid r).hasStarted ∨ ∀ s, ¬ Marked db' s sid) : MarksJustified db' := by
  intro sid heir hmarked
  obtain ⟨r', hr', hs', hreason'⟩ := hmarked
  have hmarked : Marked db' sid heir := ⟨r', hr', hs', hreason'⟩
  rw [h.rows, Option.map_eq_some_iff] at hr'
  obtain ⟨r, hr, rfl⟩ := hr'
  obtain ⟨q, hq, hjust⟩ := hmark sid r heir hr hs' hreason'
  rcases hkeep heir q hq hjust with hq' | hnone
  · exact ⟨f heir q, h.get hq, hq'⟩
  · exact absurd hmarked (hnone sid)

/-- A row that is not archived by the update, and whose mark it does not set. -/
structure SessionRow.KeepsMark (r r' : SessionRow) : Prop where
  mark : r'.status = .archived → StatusReason.isSuperseded r'.statusReason = true →
    r.status = .archived ∧ r'.statusReason = r.statusReason
  hasStarted : r.hasStarted → r'.hasStarted

theorem SessionRow.KeepsMark.refl (r : SessionRow) : r.KeepsMark r :=
  ⟨fun hs _ ↦ ⟨hs, rfl⟩, id⟩

/-- A row that is not being created and is not archived afterwards. -/
theorem SessionRow.KeepsMark.of_status {r r' : SessionRow} (hr : r.status ≠ .creating)
    (hr' : r'.status ≠ .archived) (hran : r'.runningAt = r.runningAt) : r.KeepsMark r' :=
  ⟨fun hs _ ↦ absurd hs hr', fun hj ↦ .inr (hran ▸ hj.resolve_left hr)⟩

theorem Updates.marksJustified_of_keepsMark (h : Updates f es db db') (hok : MarksJustified db)
    (hf : ∀ sid r, db.session? sid = some r → r.KeepsMark (f sid r)) : MarksJustified db' := by
  refine h.marksJustified (fun sid r heir hr hs hreason ↦ ?_) fun sid r hr hj ↦
    .inl ((hf sid r hr).hasStarted hj)
  obtain ⟨hs₀, heq⟩ := (hf sid r hr).mark hs (by rw [hreason]; rfl)
  exact hok sid heir ⟨r, hr, hs₀, heq ▸ hreason⟩

theorem Updates.marksJustified_of_only {sid : SessionId} {g : SessionRow → SessionRow}
    (h : Updates (.only sid g) es db db') (hok : MarksJustified db)
    (hg : ∀ r, db.session? sid = some r → r.KeepsMark (g r)) : MarksJustified db' := by
  refine h.marksJustified_of_keepsMark hok fun s r hr ↦ ?_
  unfold SessionUpdate.only
  split
  · rename_i hs
    exact hg r (hs ▸ hr)
  · exact .refl r

theorem Updates.marksJustified_of_whenDue {snapshot : Database}
    {p : SessionId → SessionRow → Bool} {g : SessionRow → SessionRow}
    (h : Updates (.whenDue snapshot p g) es db db') (hok : MarksJustified db)
    (hg : ∀ sid r, p sid r = true → r.KeepsMark (g r)) : MarksJustified db' := by
  refine h.marksJustified_of_keepsMark hok fun s r _ ↦ ?_
  unfold SessionUpdate.whenDue
  split
  · rename_i hdue
    exact hg s r (Bool.and_eq_true_iff.mp hdue).1
  · exact .refl r

/-! ## Released marks -/

/-- `release_superseded` matches the rows that carry the mark when it begins. -/
theorem mem_supersededRows {failed s : SessionId} :
    s ∈ db.supersededRows failed ↔ Marked db s failed := by
  simp [Database.supersededRows, KeyedTable.mem_select_iff, Marked, Database.session?]

theorem SessionRow.released_not_marked (failed : SessionId) {rows : List SessionId}
    {s : SessionId} (hs : s ∈ rows) (r : SessionRow) :
    ¬ ((r.released failed rows s).status = .archived ∧
      (r.released failed rows s).statusReason = some (.superseded failed)) := by
  unfold SessionRow.released
  split
  · rintro ⟨-, hreason⟩
    cases hreason
  · rename_i hnot
    exact fun h ↦ hnot ⟨hs, h⟩

theorem SessionRow.released_mark {failed heir : SessionId} {rows : List SessionId}
    {s : SessionId} {r : SessionRow}
    (h : (r.released failed rows s).statusReason = some (.superseded heir)) :
    r.statusReason = some (.superseded heir) := by
  unfold SessionRow.released at h
  split at h
  · cases h
  · exact h

theorem SessionRow.released_hasStarted {failed : SessionId} {rows : List SessionId}
    {s : SessionId} {r : SessionRow} (h : r.hasStarted) :
    (r.released failed rows s).hasStarted := by
  unfold SessionRow.released
  split
  · exact h
  · exact h

variable {released : SessionId → List SessionId} {failed : List (SessionId × SessionRow)}

theorem SessionRow.releasedAll_mark {heir s : SessionId} {r : SessionRow}
    (h : (r.releasedAll released failed s).statusReason = some (.superseded heir)) :
    r.statusReason = some (.superseded heir) := by
  rw [SessionRow.releasedAll_eq] at h
  split at h
  · cases h
  · exact h

theorem SessionRow.releasedAll_not_marked {e : SessionId × SessionRow} (he : e ∈ failed)
    {s : SessionId} (hs : s ∈ released e.1) (r : SessionRow) :
    ¬ ((r.releasedAll released failed s).status = .archived ∧
      (r.releasedAll released failed s).statusReason = some (.superseded e.1)) := by
  rw [SessionRow.releasedAll_eq]
  split
  · rintro ⟨-, hreason⟩
    cases hreason
  · rename_i hnot
    exact fun h ↦ hnot ⟨e, he, hs, h⟩

theorem SessionRow.releasedAll_hasStarted {s : SessionId} {r : SessionRow} (h : r.hasStarted) :
    (r.releasedAll released failed s).hasStarted := by
  rw [SessionRow.releasedAll_eq]
  split
  · exact h
  · exact h

/-! ## The steps -/

/-- The ways to leave a mark behind are not taken: nobody stops a session that is being
created while it is the heir of an archived one, nobody archives a session that still carries
the mark of an heir that never ran, and when the failure of a creation commits, every archived
session with the mark was among those that `release_superseded` matched. -/
def LeavesNoMark (σ : SystemState) : SystemAction → Prop
  | .env (.stop sid _ _) => ∀ r, σ.shared.db.session? sid = some r → r.status = .creating →
      ∀ s, ¬ Marked σ.shared.db s sid
  | .env (.archive sid _) => ∀ r heir, σ.shared.db.session? sid = some r →
      r.statusReason = some (.superseded heir) → HeirStarted σ.shared.db heir
  | .exec pid (.createJob .fail) => ∀ j reason rows r, σ.procs pid = some (.createJob j) →
      j.stage = .released reason rows → σ.shared.db.session? j.payload.sessionId = some r →
      r.status = .creating → ∀ s, Marked σ.shared.db s j.payload.sessionId → s ∈ rows
  | .exec pid .sweep => ∀ p, σ.procs pid = some (.sweep p) →
      (∀ heir ∈ p.failing σ.shared.db, ∀ s, Marked σ.shared.db s heir → s ∈ p.released heir) ∧
      (p.kind = .archiveTimeout → ∀ sid r heir, σ.shared.db.session? sid = some r →
        p.snapshot.due (archiveDue p.settings p.snapshot) sid r = true →
        r.statusReason = some (.superseded heir) → HeirStarted σ.shared.db heir)
  | _ => True

theorem Creates.marksJustified {req : CreateRequest} {predecessor : Option SessionId}
    (h : Creates req predecessor db db') (hok : MarksJustified db) : MarksJustified db' := by
  have hstarted : ∀ heir, HeirStarted db heir → HeirStarted db' heir := by
    rintro heir ⟨q, hq, hj⟩
    have hne : heir ≠ req.sessionId := by
      rintro rfl
      rw [h.fresh] at hq
      cases hq
    have hget := h.rows heir
    rw [if_neg hne, hq, Option.map_some] at hget
    refine ⟨_, hget, ?_⟩
    split
    · exact hj
    · exact hj
  rintro sid heir ⟨r', hr', hs', hreason'⟩
  rw [h.rows] at hr'
  split at hr'
  · cases hr'
    cases hs'
  · obtain ⟨r, hr, rfl⟩ := Option.map_eq_some_iff.mp hr'
    split at hreason'
    · cases hreason'
      exact ⟨.create req db.now, (h.rows _).trans (if_pos rfl), .inl rfl⟩
    · rename_i hne
      rw [if_neg hne] at hs'
      exact hstarted heir (hok sid heir ⟨r, hr, hs', hreason'⟩)

theorem sweepCreatingWatchdog_marksJustified (settings : Settings) (snapshot : Database)
    (hreleased : ∀ e ∈ snapshot.dueRows (stuckCreating settings snapshot) db,
      ∀ s, Marked db s e.1 → s ∈ released e.1) (hok : MarksJustified db) :
    MarksJustified (sweepCreatingWatchdog settings snapshot released db) := by
  have hupd := sweepCreatingWatchdog_updates settings snapshot released db
  refine hupd.marksJustified (fun sid r heir hr hs hreason ↦ ?_) fun sid r hr hj ↦ ?_
  · rw [SessionRow.releasedAll_status] at hs
    have hreason := SessionRow.releasedAll_mark hreason
    unfold SessionUpdate.whenDue at hs hreason
    split at hs
    · cases hs
    · rename_i hdue
      rw [if_neg hdue] at hreason
      exact hok sid heir ⟨r, hr, hs, hreason⟩
  · by_cases hdue : snapshot.due (stuckCreating settings snapshot) sid r = true
    · right
      rintro s ⟨q', hq', hs', hreason'⟩
      rw [hupd.rows, Option.map_eq_some_iff] at hq'
      obtain ⟨q, hq, rfl⟩ := hq'
      have hmem : (sid, r) ∈ snapshot.dueRows (stuckCreating settings snapshot) db :=
        KeyedTable.mem_select_iff.mpr ⟨hr, hdue⟩
      refine SessionRow.releasedAll_not_marked hmem (hreleased _ hmem s ⟨q, hq, ?_⟩) _
        ⟨hs', hreason'⟩
      rw [SessionRow.releasedAll_status] at hs'
      have hmark := SessionRow.releasedAll_mark hreason'
      unfold SessionUpdate.whenDue at hs' hmark
      split at hs'
      · cases hs'
      · rename_i hnot
        rw [if_neg hnot] at hmark
        exact ⟨hs', hmark⟩
    · left
      rw [SessionUpdate.whenDue, if_neg hdue]
      exact SessionRow.releasedAll_hasStarted hj

theorem sweep_marksJustified {σ : SystemState} {pid : ℕ} {p : Sweep}
    (hp : σ.procs pid = some (.sweep p)) (hleaves : LeavesNoMark σ (.exec pid .sweep))
    (hok : MarksJustified σ.shared.db) :
    MarksJustified (runSweep p.settings p.snapshot p.released σ.shared.db p.kind) := by
  obtain ⟨hreleased, harchive⟩ := hleaves p hp
  have hsame : ∀ db', Updates (fun _ r ↦ r) [] σ.shared.db db' → MarksJustified db' :=
    fun db' h ↦ h.marksJustified_of_keepsMark hok fun _ r _ ↦ .refl r
  cases hk : p.kind with
  | creatingWatchdog =>
      refine sweepCreatingWatchdog_marksJustified _ _ (fun e he ↦ hreleased e.1 ?_) hok
      rw [Sweep.failing, hk]
      exact List.mem_map_of_mem he
  | resumingWatchdog =>
      obtain ⟨q, hq, hupd⟩ := sweepResumingWatchdog_updates p.settings p.snapshot σ.shared.db
      refine hupd.marksJustified_of_whenDue hok fun sid r hr ↦ .of_status ?_ ?_ rfl
      · rw [hq sid r hr]
        exact fun h ↦ nomatch h
      · exact fun h ↦ nomatch h
  | stoppingWatchdog =>
      obtain ⟨q, hq, hupd⟩ := sweepStoppingWatchdog_updates p.settings p.snapshot σ.shared.db
      refine hupd.marksJustified_of_whenDue hok fun sid r hr ↦ .of_status ?_ ?_ rfl
      · rw [hq sid r hr]
        exact fun h ↦ nomatch h
      · exact fun h ↦ nomatch h
  | idleTimeout =>
      have hupd := sweepIdleTimeout_updates p.settings p.snapshot σ.shared.db
      refine hupd.marksJustified_of_whenDue hok fun sid r hr ↦ .of_status ?_ ?_ rfl
      · rw [(of_decide_eq_true hr).1]
        exact fun h ↦ nomatch h
      · exact fun h ↦ nomatch h
  | archiveTimeout =>
      obtain ⟨es, -, hupd⟩ := sweepArchiveTimeout_updates p.settings p.snapshot σ.shared.db
      refine hupd.marksJustified (fun sid r heir hr hs hreason ↦ ?_) fun sid r hr hj ↦ .inl ?_
      · unfold SessionUpdate.whenDue at hs hreason
        split at hs
        · rename_i hdue
          rw [if_pos hdue] at hreason
          exact harchive hk sid r heir hr hdue hreason
        · rename_i hdue
          rw [if_neg hdue] at hreason
          exact hok sid heir ⟨r, hr, hs, hreason⟩
      · unfold SessionUpdate.whenDue
        split
        · rename_i hdue
          have hidle := (of_decide_eq_true (Bool.and_eq_true_iff.mp hdue).1).1
          exact .inr (hj.resolve_left fun hc ↦ by rw [hc] at hidle; cases hidle)
        · exact hj
  | stopTimeout =>
      obtain ⟨es, -, hupd⟩ := sweepStopTimeout_updates p.settings p.snapshot σ.shared.db
      refine hupd.marksJustified_of_whenDue hok fun sid r hr ↦ .of_status ?_ ?_ rfl
      · have hs := (of_decide_eq_true hr).1
        intro hc
        rw [hc] at hs
        simp at hs
      · dsimp only
        split <;> exact fun h ↦ nomatch h
  | heartbeatOrphans =>
      obtain ⟨q, hq, hupd⟩ :=
        sweepRunnerHeartbeatOrphans_updates p.settings p.snapshot σ.shared.db
      refine hupd.marksJustified_of_whenDue hok fun sid r hr ↦ .of_status ?_ ?_ rfl
      · intro hc
        have hs := hq sid r hr
        rw [hc] at hs
        simp at hs
      · exact fun h ↦ nomatch h
  | events count => exact hsame _ (.elsewhere rfl rfl)
  | outbox batch => exact hsame _ (.elsewhere rfl rfl)
  | turnResults batch => exact hsame _ (.elsewhere rfl rfl)

/-- A session that was created already gets a status other than archived. -/
theorem Updates.marksJustified_of_move {sid : SessionId} {g : SessionRow → SessionRow}
    {row : SessionRow} (h : Updates (.only sid g) es db db') (hok : MarksJustified db)
    (hrow : db.session? sid = some row) (hs : row.status ≠ .creating)
    (hg : ∀ r, (g r).status ≠ .archived ∧ (g r).runningAt = r.runningAt) : MarksJustified db' := by
  refine h.marksJustified_of_only hok fun r hr ↦ .of_status ?_ (hg r).1 (hg r).2
  cases hrow.symm.trans hr
  exact hs

/-- A session is stopped that is not the heir of an archived one. -/
theorem Updates.marksJustified_of_stop {sid : SessionId} {g : SessionRow → SessionRow}
    (h : Updates (.only sid g) es db db') (hok : MarksJustified db)
    (hg : ∀ r, (g r).status ≠ .archived ∧ (g r).runningAt = r.runningAt)
    (hheir : ∀ r, db.session? sid = some r → r.status = .creating → ∀ s, ¬ Marked db s sid) :
    MarksJustified db' := by
  refine h.marksJustified (fun s r heir hr harch hreason ↦ ?_) fun s r hr hj ↦ ?_
  · unfold SessionUpdate.only at harch hreason
    split at harch
    · exact absurd harch (hg r).1
    · rename_i hne
      rw [if_neg hne] at hreason
      exact hok s heir ⟨r, hr, harch, hreason⟩
  · unfold SessionUpdate.only
    split
    · rename_i hsid
      subst hsid
      rcases hj with hcreating | hran
      · right
        rintro s' ⟨q', hq', hs', hreason'⟩
        rw [h.rows, Option.map_eq_some_iff] at hq'
        obtain ⟨q, hq, rfl⟩ := hq'
        unfold SessionUpdate.only at hs' hreason'
        split at hs'
        · exact (hg q).1 hs'
        · rename_i hne
          rw [if_neg hne] at hreason'
          exact hheir r hr hcreating s' ⟨q, hq, hs', hreason'⟩
      · exact .inl (.inr ((hg r).2 ▸ hran))
    · exact .inl hj

/-- A session is archived whose mark, if it carries one, is justified. -/
theorem Updates.marksJustified_of_archive {sid : SessionId} {g : SessionRow → SessionRow}
    {row : SessionRow} (h : Updates (.only sid g) es db db') (hok : MarksJustified db)
    (hrow : db.session? sid = some row) (hs : row.status ≠ .creating)
    (hg : ∀ r, (g r).statusReason = r.statusReason ∧ (g r).runningAt = r.runningAt)
    (hheir : ∀ r heir, db.session? sid = some r → r.statusReason = some (.superseded heir) →
      HeirStarted db heir) : MarksJustified db' := by
  refine h.marksJustified (fun s r heir hr harch hreason ↦ ?_) fun s r hr hj ↦ .inl ?_
  · unfold SessionUpdate.only at harch hreason
    split at harch
    · rename_i hsid
      subst hsid
      rw [if_pos rfl, (hg r).1] at hreason
      exact hheir r heir hr hreason
    · rename_i hne
      rw [if_neg hne] at hreason
      exact hok s heir ⟨r, hr, harch, hreason⟩
  · unfold SessionUpdate.only
    split
    · rename_i hsid
      subst hsid
      cases hrow.symm.trans hr
      exact .inr ((congrArg Option.isSome (hg _).2).trans (hj.resolve_left hs))
    · exact hj

/-- A creation fails, and the release matched every predecessor that carries its mark now. -/
theorem Updates.marksJustified_of_failCreation {sid : SessionId} {reason : StatusReason}
    {rows : List SessionId} (h : Updates (fun s r ↦ (SessionUpdate.only sid (fun r ↦
      { r with status := .failed, statusReason := some reason }) s r).released sid rows s) es db db')
    (hok : MarksJustified db) (hreleased : ∀ s, Marked db s sid → s ∈ rows) :
    MarksJustified db' := by
  refine h.marksJustified (fun s r heir hr harch hreason ↦ ?_) fun s r hr hj ↦ ?_
  · rw [SessionRow.released_status] at harch
    have hreason := SessionRow.released_mark hreason
    unfold SessionUpdate.only at harch hreason
    split at harch
    · cases harch
    · rename_i hne
      rw [if_neg hne] at hreason
      exact hok s heir ⟨r, hr, harch, hreason⟩
  · by_cases hsid : s = sid
    · right
      subst hsid
      rintro s' ⟨q', hq', hs', hreason'⟩
      rw [h.rows, Option.map_eq_some_iff] at hq'
      obtain ⟨q, hq, rfl⟩ := hq'
      refine SessionRow.released_not_marked s (hreleased s' ⟨q, hq, ?_⟩) _ ⟨hs', hreason'⟩
      rw [SessionRow.released_status] at hs'
      have hmark := SessionRow.released_mark hreason'
      unfold SessionUpdate.only at hs' hmark
      split at hs'
      · cases hs'
      · rename_i hne
        rw [if_neg hne] at hmark
        exact ⟨hs', hmark⟩
    · left
      rw [SessionUpdate.only, if_neg hsid]
      exact SessionRow.released_hasStarted hj

theorem commit_marksJustified {σ : SystemState} {db' : Database} {a : SystemAction}
    (h : Commit σ db' a) (hleaves : LeavesNoMark σ a) (hok : MarksJustified σ.shared.db) :
    MarksJustified db' := by
  cases h with
  | elsewhere _ h => exact h.marksJustified_of_keepsMark hok fun _ r _ ↦ .refl r
  | touch _ hrow hlive _ h =>
      refine h.marksJustified_of_move hok hrow (fun hc ↦ ?_) fun _ ↦ ⟨fun h ↦ (nomatch h), rfl⟩
      rw [hc] at hlive
      cases hlive
  | record _ h =>
      refine h.marksJustified_of_only hok fun r _ ↦ ?_
      split
      · exact ⟨fun hs _ ↦ ⟨hs, rfl⟩, id⟩
      · exact .refl r
  | bind _ _ _ h =>
      exact h.marksJustified_of_only hok fun r _ ↦ ⟨fun hs _ ↦ ⟨hs, rfl⟩, id⟩
  | repair _ hf _ h =>
      refine h.marksJustified_of_only hok fun r _ ↦ ?_
      obtain ⟨reason, attempts, heq, hreason⟩ := hf r
      rw [heq]
      refine ⟨fun hs hmark ↦ ⟨hs, ?_⟩, id⟩
      rcases hreason with heq | hnot
      · exact heq
      · rw [hnot] at hmark
        cases hmark
  | stop hsaga =>
      obtain ⟨sess, hsess, hs, h⟩ := runStopSaga_updates hsaga
      exact h.marksJustified_of_stop hok (fun _ ↦ ⟨fun h ↦ (nomatch h), rfl⟩) hleaves
  | archive hsaga =>
      obtain ⟨sess, es, hsess, hs, -, h⟩ := runArchiveSaga_updates hsaga
      refine h.marksJustified_of_archive hok hsess (fun hc ↦ ?_) (fun _ ↦ ⟨rfl, rfl⟩) hleaves
      rw [hc] at hs
      simp at hs
  | resume hsaga =>
      obtain ⟨sess, hsess, hs, h⟩ := runResumeSaga_updates hsaga
      refine h.marksJustified_of_move hok hsess ?_ fun _ ↦ ⟨fun h ↦ (nomatch h), rfl⟩
      rw [hs]
      exact fun h ↦ nomatch h
  | restart hsaga =>
      obtain ⟨sess, hsess, hs, h⟩ := runRestartSaga_updates hsaga
      refine h.marksJustified_of_move hok hsess (fun hc ↦ ?_) fun _ ↦ ⟨fun h ↦ (nomatch h), rfl⟩
      rw [hc] at hs
      simp at hs
  | confirmStop _ hrow hs h =>
      refine h.marksJustified_of_move hok hrow ?_ fun _ ↦ ⟨fun h ↦ (nomatch h), rfl⟩
      rw [hs]
      exact fun h ↦ nomatch h
  | create _ h => exact h.marksJustified hok
  | failCreation hp hstage hrow hs h =>
      exact h.marksJustified_of_failCreation hok (hleaves _ _ _ _ hp hstage hrow hs)
  | markRunning _ hrow hs h =>
      exact h.marksJustified_of_only hok fun r _ ↦ ⟨fun hs ↦ (nomatch hs), fun _ ↦ .inr rfl⟩
  | refuse _ _ hr _ h =>
      obtain ⟨hget, -, hs⟩ := resumingRow?_eq_some.mp hr
      refine h.marksJustified_of_move hok hget ?_ fun _ ↦ ⟨fun h ↦ (nomatch h), rfl⟩
      rw [hs]
      exact fun h ↦ nomatch h
  | resumed _ hr h =>
      obtain ⟨hget, -, hs⟩ := resumingRow?_eq_some.mp hr
      refine h.marksJustified_of_move hok hget ?_ fun _ ↦ ⟨fun h ↦ (nomatch h), rfl⟩
      rw [hs]
      exact fun h ↦ nomatch h
  | orphan _ _ hr h =>
      obtain ⟨hget, -, hs⟩ := resumingRow?_eq_some.mp hr
      refine h.marksJustified_of_move hok hget ?_ fun _ ↦ ⟨fun h ↦ (nomatch h), rfl⟩
      rw [hs]
      exact fun h ↦ nomatch h
  | spurious _ _ _ h => exact h.marksJustified_of_keepsMark hok fun _ r _ ↦ .refl r
  | recover _ _ hstatus _ h =>
      refine h.marksJustified_of_only hok fun r _ ↦ ?_
      split
      · rename_i hguard
        refine .of_status ?_ ?_ rfl
        · intro hc
          have hs := hguard.2
          rw [hc] at hs
          simp at hs
        · rcases hstatus with rfl | rfl <;> exact fun h ↦ nomatch h
      · exact .refl r
  | sweep hp _ hdb =>
      subst hdb
      exact sweep_marksJustified hp hleaves hok

/-- In every run that leaves no mark behind, every superseded session has a successor that is
being created or ran. -/
theorem superseded_only_by_started {σ : SystemState}
    (h : system.ReachableWhen LeavesNoMark FreshWorld σ) : MarksJustified σ.shared.db := by
  refine h.invariant (I := fun σ ↦ MarksJustified σ.shared.db) ?_ ?_
  · rintro w ⟨settings, redactor, rfl⟩ sid heir ⟨r, hr, -⟩
    cases hr
  · intro σ a τ _ hok hleaves hs
    exact commit_marksJustified (step_commit hs) hleaves hok

/-- The owner starts session 2 under the name of the archived session 1. -/
def takeoverRun : List SystemAction :=
  [.spawn (.createSaga ⟨2, 1, 1, 1, pyStr "demo", 1, 5, some 8, none⟩),
    .exec 3 (.createSaga .acquire), .exec 3 (.createSaga .count),
    .exec 3 (.createSaga .beginSelect), .exec 3 (.createSaga (.commit (some 1)))]

def takenOverState : SystemState :=
  (system.run archivedState takeoverRun).get (by decide +kernel)

/-- The owner stops the session before it ran. -/
def givenUpState : SystemState :=
  (system.step takenOverState (.env (.stop 2 1 none))).get (by decide +kernel)

theorem mark_outlives_stopped_heir :
    ¬ ∀ σ : SystemState, SystemReachable σ → MarksJustified σ.shared.db := by
  intro hclaim
  have htaken : SystemReachable takenOverState :=
    (openedState_reachable.step trivial archivedState_step).reaches
      (Machine.reaches_of_run (Option.some_get _).symm)
  have hstep : system.step takenOverState (.env (.stop 2 1 none)) = some givenUpState :=
    (Option.some_get _).symm
  obtain ⟨r, hr⟩ : ∃ r, givenUpState.shared.db.session? 1 = some r :=
    Option.isSome_iff_exists.mp (by decide +kernel)
  have hmark : (givenUpState.shared.db.session? 1).map (fun r ↦ (r.status, r.statusReason)) =
      some (.archived, some (.superseded 2)) := by decide +kernel
  have hheir : (givenUpState.shared.db.session? 2).map (fun r ↦ (r.status, r.runningAt)) =
      some (.stopping, none) := by decide +kernel
  rw [hr] at hmark
  obtain ⟨hs, hreason⟩ := Prod.mk.inj (Option.some.inj hmark)
  obtain ⟨q, hq, hstarted⟩ := hclaim _ (htaken.step trivial hstep) 1 2 ⟨r, hr, hs, hreason⟩
  rw [hq] at hheir
  obtain ⟨hstopping, hnever⟩ := Prod.mk.inj (Option.some.inj hheir)
  rcases hstarted with hcreating | hran
  · rw [hstopping] at hcreating
    cases hcreating
  · rw [hnever] at hran
    cases hran

/-- The creation times out, and the watchdog ran `release_superseded` for session 2. -/
def releasedState : SystemState :=
  (system.run takenOverState [.env (.tick 61000), .spawn (.sweep .creatingWatchdog),
    .exec 4 (.release 2)]).get (by decide +kernel)

def timedOutState : SystemState :=
  (system.step releasedState (.exec 4 .sweep)).get (by decide +kernel)

/-- What the watchdog is about to release is all that is marked. -/
theorem releasedState_leavesNoMark : LeavesNoMark releasedState (.exec 4 .sweep) := by
  have hsweep : (releasedState.procs 4 >>= Process.sweep?).any (fun p ↦
      p.kind = .creatingWatchdog ∧ p.failing releasedState.shared.db = [2] ∧
        p.released 2 = [1]) = true := by decide +kernel
  have hmarked : releasedState.shared.db.supersededRows 2 = [1] := by decide +kernel
  intro p hp
  rw [hp] at hsweep
  obtain ⟨hkind, hfailing, hreleased⟩ := of_decide_eq_true hsweep
  refine ⟨fun heir hheir s hs ↦ ?_, fun harchive ↦ ?_⟩
  · rw [hfailing] at hheir
    obtain rfl := List.mem_singleton.mp hheir
    rw [hreleased, ← hmarked]
    exact mem_supersededRows.mpr hs
  · rw [hkind] at harchive
    cases harchive

theorem superseded_only_by_started_taken_over :
    HeirStarted takenOverState.shared.db 2 ∧ ¬ Marked timedOutState.shared.db 1 2 := by
  have hopened : system.ReachableWhen LeavesNoMark FreshWorld openedState := by
    have hrun : system.run (.start deployment) openedRun = some openedState :=
      (Option.some_get _).symm
    refine ⟨_, deployment_fresh, .of_run ?_ hrun⟩
    simp [openedRun, openRun, relayRun, LeavesNoMark]
  have harchive : LeavesNoMark openedState (.env (.archive 1 1)) := by
    intro r heir hr hreason
    have hnone : (openedState.shared.db.session? 1).map SessionRow.statusReason = some none := by
      decide +kernel
    rw [hr, Option.map_some, hreason] at hnone
    cases hnone
  have htaken : system.ReachableWhen LeavesNoMark FreshWorld takenOverState := by
    have hrun : system.run archivedState takeoverRun = some takenOverState :=
      (Option.some_get _).symm
    refine (hopened.step harchive archivedState_step).reaches (.of_run ?_ hrun)
    simp [takeoverRun, LeavesNoMark]
  have htimedOut : system.ReachableWhen LeavesNoMark FreshWorld timedOutState := by
    have hrun : system.run takenOverState [.env (.tick 61000), .spawn (.sweep .creatingWatchdog),
        .exec 4 (.release 2)] = some releasedState := (Option.some_get _).symm
    refine (htaken.reaches (.of_run ?_ hrun)).step releasedState_leavesNoMark
      (Option.some_get _).symm
    simp [LeavesNoMark]
  constructor
  · obtain ⟨r, hr⟩ : ∃ r, takenOverState.shared.db.session? 1 = some r :=
      Option.isSome_iff_exists.mp (by decide +kernel)
    have hmark : (takenOverState.shared.db.session? 1).map
        (fun r ↦ (r.status, r.statusReason)) = some (.archived, some (.superseded 2)) := by
      decide +kernel
    rw [hr] at hmark
    obtain ⟨hs, hreason⟩ := Prod.mk.inj (Option.some.inj hmark)
    exact superseded_only_by_started htaken 1 2 ⟨r, hr, hs, hreason⟩
  · -- Session 2 failed without having run, so nothing may be marked with it.
    intro hmarked
    obtain ⟨r, hr, hstarted⟩ := superseded_only_by_started htimedOut 1 2 hmarked
    have hfailed : (timedOutState.shared.db.session? 2).map (fun r ↦ (r.status, r.runningAt)) =
        some (.failed, none) := by decide +kernel
    rw [hr] at hfailed
    obtain ⟨hs, hnever⟩ := Prod.mk.inj (Option.some.inj hfailed)
    rcases hstarted with hcreating | hran
    · rw [hs] at hcreating
      cases hcreating
    · rw [hnever] at hran
      cases hran

/-- The owner resumes session 1 by its id while session 2 is being created, and archives it
again when the watchdog has released the predecessors of session 2. -/
def missedRun : List SystemAction :=
  .env (.resume 1 1 none) :: relayRun 4 .bot 4 ++
    [.env (.readNew (.runnerJobs (some 5)) 10), .spawn (.runnerJob 5 4),
      .exec 5 (.resumeJob .read), .exec 5 (.resumeJob (.revalidate false)),
      .exec 5 (.resumeJob (.mint none)), .exec 5 (.resumeJob .commit), .env (.tick 61000),
      .spawn (.sweep .creatingWatchdog), .exec 6 (.release 2), .env (.archive 1 1),
      .exec 6 .sweep]

-- The other way to leave a mark behind: the release came too early for session 1.
example : (system.run takenOverState missedRun).map (fun σ ↦
    ((σ.shared.db.session? 1).map fun r ↦ (r.status, r.statusReason),
      (σ.shared.db.session? 2).map fun r ↦ (r.status, r.runningAt))) =
    some (some (.archived, some (.superseded 2)), some (.failed, none)) := by decide +kernel

end Discode

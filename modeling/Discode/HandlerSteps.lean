import Discode.Handler

/-!
# The steps of the input handler

What the transactions of a handler do to the ledger, and that every step of it leads from
the assertion of its program point to the assertion of the next one.
-/

set_option autoImplicit false

namespace Discode

theorem InputTurn.Advances.of_not_settled {t t' : InputTurn} (hsame : t.SameTurn t')
    (h : t.status.isSettled = false) : t.Advances t' := by
  refine ⟨hsame, fun hterm ↦ ?_, fun hs ↦ ?_⟩
  · simp [TurnStatus.isSettled, hterm] at h
  · rw [h] at hs
    cases hs

/-! ## Moves of the turn -/

namespace MoveTurn

variable {key : Key} {t t' : InputTurn} {w w' : World}

/-- A transaction on the turn and on sessions. -/
theorem of_outbox (hcore : ∀ sid, CoreStep (fun _ ↦ True) (w.db.core? sid) (w'.db.core? sid))
    (hsource : w.db.turn? key = some t)
    (hturn : ∀ k, w'.db.turn? k = if k = key then some t' else w.db.turn? k)
    (hadv : t.Advances t') (hseq : w'.db.nextSequence = w.db.nextSequence)
    (hlog : ∀ k, k ≠ key → turnLog k w'.log = turnLog k w.log)
    (houtbox : w'.db.outbox = w.db.outbox) (hstreams : w'.streams = w.streams) :
    MoveTurn key t t' w w' :=
  ⟨hcore, hsource, hturn, hadv, hseq, hlog, fun p hp ↦ by
    simpa only [World.Carries, houtbox, hstreams] using hp⟩

theorem updateTurn {f : InputTurn → InputTurn} (hsource : w.db.turn? key = some t)
    (hf : f t = t') (hadv : t.Advances t') :
    MoveTurn key t t' w (w.setDb (w.db.updateTurn key f)) :=
  .of_outbox (fun _ ↦ .same _) hsource (fun k ↦ by
    rw [World.db_setDb, Database.turn?_updateTurn]
    split
    · rename_i hk
      rw [hk, hsource, Option.map_some, hf]
    · rfl) hadv rfl (fun _ _ ↦ rfl) rfl rfl

/-- The history gains an event about the turn. -/
theorem emit (h : MoveTurn key t t' w w') {e : Event} (he : ∀ k, k ≠ key → e.onTurn k = false) :
    MoveTurn key t t' w (w'.emit e) :=
  ⟨h.core, h.source, h.turn, h.same, h.sequence, fun k hk ↦ by
    rw [World.log_emit, turnLog_cons, he k hk]
    exact h.log k hk, h.carried⟩

theorem refl (hsource : w.db.turn? key = some t) : MoveTurn key t t w w :=
  .of_outbox (fun _ ↦ .same _) hsource (fun k ↦ by
    split
    · rename_i hk
      rw [hk, hsource]
    · rfl) (.refl t) rfl (fun _ _ ↦ rfl) rfl rfl

end MoveTurn

/-! ## What the queries tell -/

/-- A session that no longer runs turns of version `v` never will. -/
theorem Settled.of_not_live {w : World} {p : InputJobPayload} {v : ℕ} (hinv : TurnInv w)
    (hjob : AcceptedJob w.db p v) (h : ∀ c, w.db.core? p.sessionId = some c → ¬ c.LiveAt v) :
    Settled w.db p v := by
  obtain ⟨t, ht, hsid, hv⟩ := hjob.turn
  obtain ⟨c, hc, hlink⟩ := hinv.linked _ t ht
  rw [hsid] at hc
  rw [hv] at hlink
  exact .inr ⟨c, hc, hlink.resolve_left (h c hc)⟩

theorem AcceptedJob.not_live_of_refused {db : Database} {p : InputJobPayload} {v : ℕ}
    (hjob : AcceptedJob db p v) (h : (db.session? p.sessionId).filter p.accepts = none)
    (c : SessionCore) (hc : db.core? p.sessionId = some c) : ¬ c.LiveAt v := by
  rintro ⟨hversion, hlive⟩
  obtain ⟨row, hrow, rfl⟩ := Option.map_eq_some_iff.mp hc
  obtain ⟨c', hc', hguild, hhost, -⟩ := hjob.session
  cases hc.symm.trans hc'
  have haccepts : p.accepts row = true := by
    have hrowv : row.lifecycleVersion = v := hversion
    have hstatus : row.status.isLive = true := hlive
    have hg : row.guildId = p.guildId := hguild
    have hh : row.hostId = some p.hostId := hhost
    simp [InputJobPayload.accepts, hstatus, hg, hh, hjob.version, hrowv]
  rw [hrow, Option.filter_some, haccepts] at h
  cases h

theorem AcceptedJob.version_of_accepts {db : Database} {p : InputJobPayload} {v : ℕ}
    (hjob : AcceptedJob db p v) {row : SessionRow} (h : p.accepts row = true) :
    row.lifecycleVersion = v := by
  have hversion := (of_decide_eq_true h).2.2.2
  rw [hjob.version] at hversion
  rcases hversion with hnone | hsome
  · cases hnone
  · exact (Option.some.inj hsome).symm

theorem mem_unfinishedTurns {db : Database} {sid : SessionId} {v : ℕ} {key : Key} {t : InputTurn} :
    (key, t) ∈ db.unfinishedTurns sid v ↔ db.turn? key = some t ∧ t.sessionId = sid ∧
      t.lifecycleVersion = v ∧ t.status.isUnfinished = true := by
  rw [Database.unfinishedTurns, KeyedTable.mem_select_iff, Database.turn?]
  simp

theorem TurnStatus.isTerminal_of_not_isUnfinished {s : TurnStatus} (h : s.isUnfinished = false) :
    s.isTerminal = true := by
  cases s <;> first | rfl | cases h

/-- A job whose turn is unfinished and not overtaken finds every earlier turn terminal. -/
theorem earlierDone_of_earliest {db : Database} {key : Key} {t : InputTurn}
    (ht : db.turn? key = some t) (hs : t.status.isUnfinished = true)
    (h : (db.earliestUnfinished t.sessionId t.lifecycleVersion).any (· ≠ key) = false) :
    EarlierDone db t := by
  intro key' t' ht' hsid hv hlt
  cases hterm : t'.status.isUnfinished with
  | false => exact TurnStatus.isTerminal_of_not_isUnfinished hterm
  | true =>
      exfalso
      have hown : (key, t) ∈ db.unfinishedTurns t.sessionId t.lifecycleVersion :=
        mem_unfinishedTurns.mpr ⟨ht, rfl, rfl, hs⟩
      have hother : (key', t') ∈ db.unfinishedTurns t.sessionId t.lifecycleVersion :=
        mem_unfinishedTurns.mpr ⟨ht', hsid, hv, hterm⟩
      unfold Database.earliestUnfinished at h
      cases hmin : (db.unfinishedTurns t.sessionId t.lifecycleVersion).argmin
          fun e ↦ e.2.sequence with
      | none =>
          rw [List.argmin_eq_none] at hmin
          rw [hmin] at hown
          cases hown
      | some e =>
          obtain ⟨k, u⟩ := e
          have hle := List.le_of_mem_argmin hother hmin
          have hmem := List.argmin_mem hmin
          rw [hmin] at h
          simp only [Option.map_some, Option.any_some, ne_eq, decide_not, Bool.not_eq_false',
            decide_eq_true_eq] at h
          subst h
          cases ht.symm.trans (mem_unfinishedTurns.mp hmem).1
          simp only at hle
          omega

/-- The third transaction of a handler leads to a stage whose assertion holds. -/
theorem resolve_ok {pid v : ℕ} {p : InputJobPayload} {w : World} {row : SessionRow}
    {turn : Option InputTurn} (hinv : TurnInv w) (hjob : AcceptedJob w.db p v)
    (h : StageOk pid v p w (.turnRead row turn)) :
    StageOk pid v p w (p.resolve row turn
      (w.db.earliestUnfinished p.sessionId row.lifecycleVersion)) := by
  obtain ⟨hrow, t₀, t, rfl, ht, hexp⟩ := h
  obtain ⟨t₁, ht₁, hsid, hv⟩ := hjob.turn
  cases ht.symm.trans ht₁
  unfold InputJobPayload.resolve
  split
  · exact fun ho ↦ absurd rfl ho
  · rename_i hearliest
    rw [Bool.not_eq_true] at hearliest
    have hid : ¬ (t₀.sessionId ≠ p.sessionId ∨ t₀.lifecycleVersion ≠ row.lifecycleVersion) := by
      rw [← hexp.sessionId, ← hexp.lifecycleVersion, hsid, hv, hrow]
      simp
    simp only [if_neg hid]
    have hstatus := hexp.status
    cases hs : t₀.status with
    | queued =>
        rw [hs] at hstatus
        refine ⟨hrow, t, ht, hstatus, earlierDone_of_earliest ht (by rw [hstatus]; rfl) ?_⟩
        rw [hsid, hv, ← hrow]
        exact hearliest
    | delivered =>
        rw [hs] at hstatus
        exact fun _ ↦ .inl ⟨t, ht, by rw [hstatus]; rfl⟩
    | deliveryFailed =>
        rw [hs] at hstatus
        exact fun _ ↦ .inl ⟨t, ht, by rw [hstatus]; rfl⟩
    | aborted =>
        rw [hs] at hstatus
        exact fun _ ↦ .inl ⟨t, ht, by rw [hstatus]; rfl⟩
    | executing => exact ⟨hrow, t, ht, .inl (hstatus.trans hs)⟩
    | uncertain => exact ⟨hrow, t, ht, .inr (hstatus.trans hs)⟩
    | completed =>
        rw [hs] at hstatus
        have hhist := hinv.history _ t ht
        unfold History at hhist
        rw [hstatus] at hhist
        obtain ⟨text, htext, -⟩ := hhist
        refine ⟨hrow, t, text, ht, hstatus, htext, ?_⟩
        rcases hexp.result with hr | hterm
        · exact hr.symm.trans htext
        · rw [hs] at hterm
          cases hterm

/-! ## The history of a turn grows -/

theorem Answered.of_executed {pid : ℕ} {sid : SessionId} {v : ℕ} {key : Key} {text : PyStr}
    {l : List Event} (h : Executed pid sid v key l) :
    Answered sid v key text (.recorded pid sid key text :: l) :=
  ⟨pid, [], l, h, rfl, fun _ he ↦ nomatch he⟩

theorem Answered.reply {sid : SessionId} {v : ℕ} {key : Key} {text : PyStr} {l : List Event}
    (h : Answered sid v key text l) (pid v' : ℕ) :
    Answered sid v key text (.replied pid sid v' (.turn key) (some text) :: l) := by
  obtain ⟨q, replies, run, hrun, rfl, hreplies⟩ := h
  refine ⟨q, _ :: replies, run, hrun, rfl, fun e he ↦ ?_⟩
  rcases List.mem_cons.mp he with rfl | he
  · exact ⟨pid, v', rfl⟩
  · exact hreplies e he

/-! ## One step -/

/-- What a step of a handler guarantees. -/
structure HandlerStep (pid v : ℕ) (p : InputHandler) (w w' : World) (q : Option InputHandler) :
    Prop where
  inv : TurnInv w'
  next : ∀ r, q = some r → r.OkAt pid v w'
  advance : Advance w w'
  absent : ∀ key, w.db.turn? key = none → w'.db.turn? key = none
  rely : ∀ sid, sid ≠ p.session ∨ p.stage.isLocked = false → Rely sid w w'
  locks : ∀ sid other, other ≠ pid → w.locks sid = some other → w'.locks sid = some other

namespace HandlerStep

variable {pid v : ℕ} {p : InputHandler} {w w' : World} {q : Option InputHandler}

theorem of_quiet (hinv : TurnInv w) (hq : Quiet Ordinary w w')
    (hlocks : ∀ sid other, other ≠ pid → w.locks sid = some other → w'.locks sid = some other)
    (hnext : ∀ r, q = some r → r.OkAt pid v w') : HandlerStep pid v p w w' q :=
  ⟨hinv.quiet hq, hnext, hq.advance, fun key hnone ↦ (hq.turn? key).trans hnone,
    fun sid _ ↦ hq.rely sid, hlocks⟩

/-- A read, or a result from outside: only the program point changes. -/
theorem stay (hinv : TurnInv w) (h : p.OkAt pid v w) (hp : p.stage.isLocked = true)
    {stage : InputStage} (hstage : StageOk pid v p.payload w stage) :
    HandlerStep pid v p w w (some (p.at_ stage)) :=
  of_quiet hinv (.refl w) (fun _ _ _ hl ↦ hl) fun r hr ↦ by
    cases hr
    exact ⟨h.job, fun _ ↦ h.lock hp, hstage⟩

/-- A write to the handler's own turn, under the lock. -/
theorem move (hinv : TurnInv w) (h : p.OkAt pid v w) (hp : p.stage.isLocked = true)
    {t t' : InputTurn} (hm : MoveTurn p.key t t' w w') (hlocks : w'.locks = w.locks)
    (horder : t.status = .queued → t'.status ≠ .queued → EarlierDone w.db t)
    (hhist : History p.key t' (turnLog p.key w'.log)) {stage : InputStage}
    (hstage : StageOk pid v p.payload w' stage) :
    HandlerStep pid v p w w' (some (p.at_ stage)) := by
  refine ⟨hm.turnInv hinv horder hhist, fun r hr ↦ ?_, hm.advance, hm.absent,
    fun sid hsid ↦ ?_, fun sid other _ hl ↦ hlocks ▸ hl⟩
  · cases hr
    exact ⟨h.job.advance hm.advance, fun _ ↦ hlocks ▸ h.lock hp, hstage⟩
  · obtain ⟨t₀, ht₀, hown, -⟩ := h.job.turn
    cases hm.source.symm.trans ht₀
    rcases hsid with hne | hfree
    · exact hm.rely (hown ▸ hne.symm)
    · rw [hp] at hfree
      cases hfree

end HandlerStep

namespace InputHandler

variable {pid v : ℕ} {p : InputHandler} {w w' : World} {q : Option InputHandler}

theorem lock_step (hinv : TurnInv w) (h : p.OkAt pid v w) {collision : Bool}
    (hs : p.step pid w (.lock collision) = some (w', q)) : HandlerStep pid v p w w' q := by
  simp only [step] at hs
  split at hs
  · split at hs
    · cases hs
      refine .of_quiet hinv (.refl w) (fun _ _ _ hl ↦ hl) fun r hr ↦ ?_
      cases hr
      refine ⟨h.job, fun hl ↦ ?_, fun ho ↦ absurd rfl ho⟩
      cases hl
    · rename_i hfree
      cases hs
      have hquiet : Quiet Ordinary w (w.lock p.session pid) :=
        .of_streams rfl (fun _ _ h ↦ h) fun _ ↦ rfl
      refine .of_quiet hinv hquiet (fun sid other _ hl ↦ ?_) fun r hr ↦ ?_
      · rw [World.locks_lock]
        split
        · rename_i hsid
          rw [hsid] at hl
          simp [hl] at hfree
        · exact hl
      · cases hr
        exact ⟨h.job.advance hquiet.advance, fun _ ↦ by simp [at_], trivial⟩
  · cases hs

theorem readSession_step (hinv : TurnInv w) (h : p.OkAt pid v w)
    (hs : p.step pid w .readSession = some (w', q)) : HandlerStep pid v p w w' q := by
  simp only [step] at hs
  split at hs
  · rename_i hstage
    have hlocked : p.stage.isLocked = true := by rw [hstage]; rfl
    split at hs
    · rename_i hnone
      cases hs
      exact .stay hinv h hlocked fun _ ↦
        .of_not_live hinv h.job (h.job.not_live_of_refused hnone)
    · rename_i row hrow
      cases hs
      exact .stay hinv h hlocked
        (h.job.version_of_accepts (Option.filter_eq_some_iff.mp hrow).2)
  · cases hs

theorem readTurn_step (hinv : TurnInv w) (h : p.OkAt pid v w)
    (hs : p.step pid w .readTurn = some (w', q)) : HandlerStep pid v p w w' q := by
  simp only [step] at hs
  split at hs
  · rename_i row hstage
    have hok := h.stage
    rw [hstage] at hok
    cases hs
    obtain ⟨t, ht, -⟩ := h.job.turn
    exact .stay hinv h (by rw [hstage]; rfl) ⟨hok, t, t, ht, ht, .refl t⟩
  · cases hs

theorem readEarliest_step (hinv : TurnInv w) (h : p.OkAt pid v w)
    (hs : p.step pid w .readEarliest = some (w', q)) : HandlerStep pid v p w w' q := by
  simp only [step] at hs
  split at hs
  · rename_i row turn hstage
    have hok := h.stage
    rw [hstage] at hok
    cases hs
    exact .stay hinv h (by rw [hstage]; rfl) (resolve_ok hinv h.job hok)
  · cases hs

theorem markUncertain_step (hinv : TurnInv w) (h : p.OkAt pid v w)
    (hs : p.step pid w .markUncertain = some (w', q)) : HandlerStep pid v p w w' q := by
  simp only [step] at hs
  split at hs
  · rename_i version hstage
    have hok := h.stage
    rw [hstage] at hok
    obtain ⟨-, t, ht, hstatus⟩ := hok
    cases hs
    have hadv : t.Advances { t with status := .uncertain, updatedAt := w.db.now } := by
      refine ⟨⟨rfl, rfl, rfl⟩, fun hterm ↦ ?_, fun _ ↦ rfl⟩
      rcases hstatus with hs | hs <;> rw [hs] at hterm <;> cases hterm
    have hm : MoveTurn p.key t _ w (w.setDb (markUncertain p.key w.db)) := .updateTurn ht rfl hadv
    refine .move hinv h (by rw [hstage]; rfl) hm rfl (fun hq ↦ ?_) ?_ ⟨_, hm.target, rfl⟩
    · rcases hstatus with hs | hs <;> rw [hs] at hq <;> cases hq
    · have hhist := hinv.history _ t ht
      unfold History at hhist ⊢
      rcases hstatus with hs | hs <;> rw [hs] at hhist <;> exact hhist
  · cases hs

theorem revalidate_step (hinv : TurnInv w) (h : p.OkAt pid v w) {denied : Bool}
    (hs : p.step pid w (.revalidate denied) = some (w', q)) : HandlerStep pid v p w w' q := by
  simp only [step] at hs
  split at hs
  · rename_i row hstage
    have hok := h.stage
    rw [hstage] at hok
    cases hs
    refine .stay hinv h (by rw [hstage]; rfl) ?_
    cases denied <;> exact hok
  · cases hs

theorem markAborted_step (hinv : TurnInv w) (h : p.OkAt pid v w)
    (hs : p.step pid w .markAborted = some (w', q)) : HandlerStep pid v p w w' q := by
  simp only [step] at hs
  split at hs
  · rename_i version hstage
    have hok := h.stage
    rw [hstage] at hok
    obtain ⟨-, t, ht, hstatus, hdone⟩ := hok
    cases hs
    have hf : (if (some TurnStatus.queued).all (· = t.status) then
        { t with status := .aborted, updatedAt := w.db.now } else t) =
        { t with status := .aborted, updatedAt := w.db.now } := by
      simp [hstatus]
    have hm : MoveTurn p.key t _ w (w.setDb (markTurn p.key .aborted (some .queued) w.db)) :=
      .updateTurn ht hf (.of_not_settled ⟨rfl, rfl, rfl⟩ (by rw [hstatus]; rfl))
    refine .move hinv h (by rw [hstage]; rfl) hm rfl (fun _ _ ↦ hdone) ?_ ⟨_, hm.target, rfl⟩
    have hhist := hinv.history _ t ht
    unfold History at hhist ⊢
    rw [hstatus] at hhist
    exact hhist
  · cases hs

end InputHandler

/-- What the intent transaction does to a turn that exists. -/
theorem admitTurn_eq_some {p : InputJobPayload} {v : ℕ} {db db' : Database} {t : InputTurn}
    (h : admitTurn p v db = some db') (ht : db.turn? p.idempotencyKey = some t) :
    ∃ r, db.session? p.sessionId = some r ∧ r.core.LiveAt v ∧
      db' = (db.updateSession p.sessionId fun r ↦
        { r with lastActivityAt := db.now, status := .running }).updateTurn p.idempotencyKey
          fun t ↦ if t.status = .queued ∧ t.sessionId = p.sessionId ∧ t.lifecycleVersion = v then
            { t with status := .executing, updatedAt := db.now } else t := by
  unfold admitTurn at h
  split at h
  · cases h
  · rename_i r hr
    split at h
    · cases h
    · rename_i hguard
      rw [not_or] at hguard
      dsimp only at h
      rw [Database.turn?_updateSession, ht] at h
      cases h
      refine ⟨r, hr, ⟨not_not.mp hguard.1, ?_⟩, rfl⟩
      have hlive := hguard.2
      rw [Bool.not_eq_true, Bool.not_eq_false'] at hlive
      exact hlive

theorem admitTurn_eq_none {p : InputJobPayload} {v : ℕ} {db : Database} {t : InputTurn}
    (h : admitTurn p v db = none) (ht : db.turn? p.idempotencyKey = some t) (c : SessionCore)
    (hc : db.core? p.sessionId = some c) : ¬ c.LiveAt v := by
  rintro ⟨hversion, hlive⟩
  obtain ⟨r, hr, rfl⟩ := Option.map_eq_some_iff.mp hc
  have hversion' : r.lifecycleVersion = v := hversion
  have hlive' : r.status.isLive = true := hlive
  unfold admitTurn at h
  rw [hr] at h
  simp only [hversion', ne_eq, not_true_eq_false, hlive', Bool.not_true, Bool.false_eq_true,
    or_self, if_false, Database.turn?_updateSession, ht] at h
  cases h

namespace InputHandler

variable {pid v : ℕ} {p : InputHandler} {w w' : World} {q : Option InputHandler}

theorem persistIntent_step (hinv : TurnInv w) (h : p.OkAt pid v w)
    (hs : p.step pid w .persistIntent = some (w', q)) : HandlerStep pid v p w w' q := by
  simp only [step] at hs
  split at hs
  · rename_i row hstage
    have hok := h.stage
    rw [hstage] at hok
    obtain ⟨hrow, t, ht, hstatus, hdone⟩ := hok
    have hlocked : p.stage.isLocked = true := by rw [hstage]; rfl
    split at hs
    · rename_i hnone
      cases hs
      rw [hrow] at hnone
      exact .stay hinv h hlocked fun _ ↦
        .of_not_live hinv h.job (admitTurn_eq_none hnone ht)
    · rename_i db hdb
      cases hs
      rw [hrow] at hdb
      obtain ⟨t₀, ht₀, hsid, hv⟩ := h.job.turn
      cases ht.symm.trans ht₀
      obtain ⟨r, hr, hlive, rfl⟩ := admitTurn_eq_some hdb ht
      have hcore : ∀ sid, CoreStep (fun _ ↦ True) (w.db.core? sid)
          ((w.db.updateSession p.payload.sessionId fun r ↦
            { r with lastActivityAt := w.db.now, status := .running }).core? sid) :=
        (LifecycleTx.updateSession _ _ fun r' hr' ↦ by
          cases hr.symm.trans hr'
          refine .move .touch _ trivial ?_
          simpa [Writer.sources, Status.isLive] using hlive.2).core
      -- The update under `ON CONFLICT` finds the turn as the handler left it.
      have hf : (if t.status = .queued ∧ t.sessionId = p.payload.sessionId ∧
          t.lifecycleVersion = v then
            { t with status := .executing, updatedAt := w.db.now } else t) =
          { t with status := .executing, updatedAt := w.db.now } :=
        if_pos ⟨hstatus, hsid, hv⟩
      have hm : MoveTurn p.key t { t with status := .executing, updatedAt := w.db.now } w
          (w.setDb ((w.db.updateSession p.payload.sessionId fun r ↦
            { r with lastActivityAt := w.db.now, status := .running }).updateTurn p.key fun t ↦
              if t.status = .queued ∧ t.sessionId = p.payload.sessionId ∧
                t.lifecycleVersion = v then
                { t with status := .executing, updatedAt := w.db.now } else t)) :=
        .of_outbox hcore ht (fun k ↦ by
          rw [World.db_setDb, Database.turn?_updateTurn, Database.turn?_updateSession]
          split
          · rename_i hk
            rw [hk, ht, Option.map_some, hf]
          · rfl) (.of_not_settled ⟨rfl, rfl, rfl⟩ (by rw [hstatus]; rfl)) rfl (fun _ _ ↦ rfl)
          rfl rfl
      have hempty : turnLog p.key w.log = [] := by
        have hhist := hinv.history _ t ht
        unfold History at hhist
        rw [hstatus] at hhist
        exact hhist
      have hm' := hm.emit (e := .admitted pid p.session row.lifecycleVersion p.key)
        fun k hk ↦ decide_eq_false (Ne.symm hk)
      have hlog : turnLog p.key (Event.admitted pid p.session row.lifecycleVersion p.key :: w.log) =
          [.admitted pid p.session v p.key] := by
        rw [turnLog_cons, if_pos (by simp [Event.onTurn]), hempty, hrow]
      refine .move hinv h hlocked hm' rfl (fun _ _ ↦ hdone) ⟨pid, ?_⟩
        ⟨hrow, _, hm'.target, rfl, hlog⟩
      simp only [hsid, hv]
      exact hlog ▸ .admitted
  · cases hs

/-- Stages at which the handler itself executes the turn. -/
theorem note_step (hinv : TurnInv w) (h : p.OkAt pid v w) (hp : p.stage.isLocked = true)
    {t : InputTurn} (ht : w.db.turn? p.key = some t) {e : Event}
    (he : ∀ k, k ≠ p.key → e.onTurn k = false)
    (hhist : History p.key t (turnLog p.key (e :: w.log))) {stage : InputStage}
    (hstage : StageOk pid v p.payload (w.emit e) stage) :
    HandlerStep pid v p w (w.emit e) (some (p.at_ stage)) :=
  .move hinv h hp ((MoveTurn.refl ht).emit he) rfl (fun hq hn ↦ absurd hq hn) hhist hstage

theorem start_step (hinv : TurnInv w) (h : p.OkAt pid v w)
    (hs : p.step pid w .start = some (w', q)) : HandlerStep pid v p w w' q := by
  simp only [step] at hs
  split at hs
  · rename_i row hstage
    have hok := h.stage
    rw [hstage] at hok
    obtain ⟨hrow, t, ht, hstatus, hlog⟩ := hok
    obtain ⟨t₀, ht₀, hsid, hv⟩ := h.job.turn
    cases ht.symm.trans ht₀
    cases hs
    have hlog' : turnLog p.key (Event.started pid p.session row.lifecycleVersion p.key
        row.toolResumeToken :: w.log) = [.started pid p.session v p.key row.toolResumeToken,
          .admitted pid p.session v p.key] := by
      rw [turnLog_cons, if_pos (by simp [Event.onTurn]), hlog, hrow]
    refine note_step hinv h (by rw [hstage]; rfl) ht (fun k hk ↦ ?_) ?_
      ⟨hrow, t, ht, hstatus, hlog'⟩
    · exact decide_eq_false (Ne.symm hk)
    · unfold History
      rw [hstatus, hsid, hv, hlog']
      exact ⟨pid, .started row.toolResumeToken⟩
  · cases hs

theorem failToStart_step (hinv : TurnInv w) (h : p.OkAt pid v w) {reply : PyStr}
    (hs : p.step pid w (.failToStart reply) = some (w', q)) : HandlerStep pid v p w w' q := by
  simp only [step] at hs
  split at hs
  · rename_i row hstage
    have hok := h.stage
    rw [hstage] at hok
    obtain ⟨hrow, t, ht, hstatus, hlog⟩ := hok
    cases hs
    exact .stay hinv h (by rw [hstage]; rfl) ⟨hrow, t, ht, hstatus, hlog ▸ .admitted⟩
  · cases hs

theorem finish_step (hinv : TurnInv w) (h : p.OkAt pid v w) {reply : PyStr}
    {token : Option PyStr} (hs : p.step pid w (.finish reply token) = some (w', q)) :
    HandlerStep pid v p w w' q := by
  simp only [step] at hs
  split at hs
  · rename_i row hstage
    have hok := h.stage
    rw [hstage] at hok
    obtain ⟨hrow, t, ht, hstatus, hlog⟩ := hok
    obtain ⟨t₀, ht₀, hsid, hv⟩ := h.job.turn
    cases ht.symm.trans ht₀
    cases hs
    have hexec : ∀ parsed : Option Token, Executed pid p.session v p.key (turnLog p.key
        (Event.finished pid p.session row.lifecycleVersion p.key parsed :: w.log)) := by
      intro parsed
      rw [turnLog_cons, if_pos (by simp [Event.onTurn]), hlog, hrow]
      exact .finished _ _
    refine note_step hinv h (by rw [hstage]; rfl) ht (fun k hk ↦ ?_) ?_
      ⟨hrow, t, ht, hstatus, hexec _⟩
    · exact decide_eq_false (Ne.symm hk)
    · unfold History
      rw [hstatus, hsid, hv]
      exact ⟨pid, hexec _⟩
  · cases hs

/-- The session part of the result transaction. -/
theorem recordResult_core (p : InputJobPayload) (v : ℕ) (reply : PyStr) (token : Option Token)
    (db : Database) (sid : SessionId) :
    CoreStep (fun w ↦ ∃ t, token = some t ∧ w = .storeToken t) (db.core? sid)
      ((recordResult p v reply token db).core? sid) := by
  refine (LifecycleTx.updateSession p.sessionId _ fun r _ ↦ ?_).core sid
  split
  · rename_i hlive
    cases token with
    | none => exact .same _
    | some t =>
        refine .move (.storeToken t) _ ⟨t, rfl, rfl⟩ ?_
        simpa [Writer.sources, Status.isLive, SessionRow.core] using hlive.2
  · exact .same _

theorem record_step (hinv : TurnInv w) (h : p.OkAt pid v w)
    (hs : p.step pid w .record = some (w', q)) : HandlerStep pid v p w w' q := by
  simp only [step] at hs
  split at hs
  · rename_i version reply token hstage
    have hok := h.stage
    rw [hstage] at hok
    obtain ⟨hversion, t, ht, hstatus, hexec⟩ := hok
    obtain ⟨t₀, ht₀, hsid, hv⟩ := h.job.turn
    cases ht.symm.trans ht₀
    cases hs
    have hm : MoveTurn p.key t
        { t with
          status := .completed, resultText := some reply, resumeToken := token
          updatedAt := w.db.now } w
        (w.setDb (recordResult p.payload version reply token w.db)) := by
      refine .of_outbox (fun sid ↦ (recordResult_core _ _ _ _ _ sid).mono fun _ _ ↦ trivial) ht
        (fun k ↦ ?_) (.of_not_settled ⟨rfl, rfl, rfl⟩ (by rw [hstatus]; rfl)) rfl
        (fun _ _ ↦ rfl) rfl rfl
      rw [World.db_setDb, recordResult, Database.turn?_updateSession, Database.turn?_updateTurn]
      split
      · rename_i hk
        rw [hk, ht]
        rfl
      · rfl
    have hm' := hm.emit (e := .recorded pid p.session p.key reply)
      fun k hk ↦ decide_eq_false (Ne.symm hk)
    refine .move hinv h (by rw [hstage]; rfl) hm' rfl
      (fun hq _ ↦ by rw [hstatus] at hq; cases hq) ⟨reply, rfl, ?_⟩
      ⟨hversion, _, reply, hm'.target, rfl, rfl, rfl⟩
    rw [World.log_emit, turnLog_cons, if_pos (by simp [Event.onTurn]), World.log_setDb]
    simp only [hsid, hv]
    exact .of_executed hexec
  · cases hs

theorem post_step (hinv : TurnInv w) (h : p.OkAt pid v w)
    (hs : p.step pid w .post = some (w', q)) : HandlerStep pid v p w w' q := by
  obtain ⟨⟨version, replyKey, text, stage⟩, hposting, he⟩ := Option.map_eq_some_iff.mp hs
  cases he
  have hok := h.stage
  unfold posting at hposting
  split at hposting
  · rename_i version' hstage
    cases hposting
    rw [hstage] at hok
    exact .of_quiet hinv (.of_streams rfl (fun _ _ h ↦ h) fun _ ↦ rfl) (fun _ _ _ hl ↦ hl)
      fun r hr ↦ by
        cases hr
        exact ⟨h.job, fun _ ↦ h.lock (by rw [hstage]; rfl), hok⟩
  · rename_i version' hstage
    cases hposting
    rw [hstage] at hok
    exact .of_quiet hinv (.of_streams rfl (fun _ _ h ↦ h) fun _ ↦ rfl) (fun _ _ _ hl ↦ hl)
      fun r hr ↦ by
        cases hr
        exact ⟨h.job, fun _ ↦ h.lock (by rw [hstage]; rfl), hok⟩
  · rename_i version' reply hstage
    cases hposting
    rw [hstage] at hok
    obtain ⟨hversion, t, text, ht, hstatus, htext, rfl⟩ := hok
    refine note_step hinv h (by rw [hstage]; rfl) ht (fun k hk ↦ ?_) ?_ ⟨t, ht, hstatus⟩
    · exact decide_eq_false fun he ↦ hk (ReplyKey.turn.inj he).symm
    have hhist := hinv.history _ t ht
    obtain ⟨t₀, ht₀, hsid, hv⟩ := h.job.turn
    cases ht.symm.trans ht₀
    unfold History at hhist ⊢
    rw [hstatus] at hhist ⊢
    obtain ⟨text', htext', hanswered⟩ := hhist
    cases htext.symm.trans htext'
    refine ⟨text, htext, ?_⟩
    rw [turnLog_cons, if_pos (by simp [Event.onTurn])]
    rw [hsid] at hanswered ⊢
    exact hanswered.reply pid version
  · cases hposting

theorem respond_step (hinv : TurnInv w) (h : p.OkAt pid v w) {response : Response}
    (hs : p.step pid w (.respond response) = some (w', q)) : HandlerStep pid v p w w' q := by
  obtain ⟨stage, hstage', he⟩ := Option.map_eq_some_iff.mp hs
  cases he
  have hok := h.stage
  have hdeferred : StageOk pid v p.payload w (.leaving .deferred) := fun ho ↦ absurd rfl ho
  unfold onRespond at hstage'
  split at hstage'
  · rename_i hstage
    cases hstage'
    rw [hstage] at hok
    obtain ⟨t, ht, hstatus⟩ := hok
    exact .stay hinv h (by rw [hstage]; rfl) fun _ ↦ .inl ⟨t, ht, by rw [hstatus]; rfl⟩
  · rename_i status hstage
    cases hstage'
    rw [hstage] at hok
    obtain ⟨t, ht, hstatus⟩ := hok
    exact .stay hinv h (by rw [hstage]; rfl) fun _ ↦ .inl ⟨t, ht, by rw [hstatus]; rfl⟩
  · rename_i hstage
    cases hstage'
    exact .stay hinv h (by rw [hstage]; rfl) hdeferred
  · rename_i hstage
    cases hstage'
    rw [hstage] at hok
    obtain ⟨t, ht, hstatus⟩ := hok
    exact .stay hinv h (by rw [hstage]; rfl) fun _ ↦ .inl ⟨t, ht, by rw [hstatus]; rfl⟩
  · rename_i hstage
    cases hstage'
    rw [hstage] at hok
    exact .stay hinv h (by rw [hstage]; rfl) ⟨.inl rfl, by decide, hok⟩
  · rename_i status hstage
    rw [hstage] at hok
    split at hstage' <;> cases hstage'
    · exact .stay hinv h (by rw [hstage]; rfl) ⟨.inr rfl, by decide, hok⟩
    · exact .stay hinv h (by rw [hstage]; rfl) hdeferred
  · rename_i hstage
    cases hstage'
    exact .stay hinv h (by rw [hstage]; rfl) hdeferred
  · cases hstage'

theorem mark_step (hinv : TurnInv w) (h : p.OkAt pid v w)
    (hs : p.step pid w .mark = some (w', q)) : HandlerStep pid v p w w' q := by
  simp only [step] at hs
  split at hs
  · rename_i status outcome hstage
    have hok := h.stage
    rw [hstage] at hok
    obtain ⟨hnew, -, t, ht, hstatus⟩ := hok
    cases hs
    have hm : MoveTurn p.key t { t with status := status, updatedAt := w.db.now } w
        (w.setDb (markTurn p.key status none w.db)) :=
      .updateTurn ht rfl (.of_not_settled ⟨rfl, rfl, rfl⟩ (by rw [hstatus]; rfl))
    refine .move hinv h (by rw [hstage]; rfl) hm rfl
      (fun hq _ ↦ by rw [hstatus] at hq; cases hq) ?_ fun _ ↦ .inl ⟨_, hm.target, ?_⟩
    · have hhist := hinv.history _ t ht
      unfold History at hhist ⊢
      rw [hstatus] at hhist
      obtain ⟨text, -, hanswered⟩ := hhist
      rcases hnew with rfl | rfl <;> exact ⟨text, hanswered⟩
    · rcases hnew with rfl | rfl <;> rfl
  · cases hs

theorem locks_release_of_ne {w : World} {pid other : ℕ} (hne : other ≠ pid) {sid : SessionId}
    (hl : w.locks sid = some other) : (w.release pid).locks sid = some other := by
  rw [World.locks_release, hl, if_neg fun he ↦ hne (Option.some.inj he)]

theorem leave_step (hinv : TurnInv w) (h : p.OkAt pid v w)
    (hs : p.step pid w .leave = some (w', q)) : HandlerStep pid v p w w' q := by
  simp only [step] at hs
  split at hs
  · rename_i outcome hstage
    have hok := h.stage
    rw [hstage] at hok
    cases hs
    have hquiet : Quiet Ordinary w (w.release pid) := release_quiet w pid
    refine .of_quiet hinv hquiet (fun _ _ hne hl ↦ locks_release_of_ne hne hl) fun r hr ↦ ?_
    cases hr
    refine ⟨h.job.advance hquiet.advance, fun hl ↦ ?_, fun ho ↦ (hok ho).advance hquiet.advance⟩
    cases hl
  · cases hs

theorem acknowledge_step (hinv : TurnInv w)
    (hs : p.step pid w .acknowledge = some (w', q)) : HandlerStep pid v p w w' q := by
  simp only [step] at hs
  split at hs
  · rename_i outcome hstage
    cases hs
    refine .of_quiet hinv ?_ (fun _ _ _ hl ↦ ?_) fun r hr ↦ by cases hr
    · split
      · exact .refl w
      · exact ack_quiet w _ _
    · split
      · exact hl
      · exact hl
  · cases hs

/-- Every step of a handler keeps the ledger in order. -/
theorem step_ok (hinv : TurnInv w) (h : p.OkAt pid v w) {a : InputAction}
    (hs : p.step pid w a = some (w', q)) : HandlerStep pid v p w w' q := by
  cases a with
  | lock collision => exact lock_step hinv h hs
  | readSession => exact readSession_step hinv h hs
  | readTurn => exact readTurn_step hinv h hs
  | readEarliest => exact readEarliest_step hinv h hs
  | markUncertain => exact markUncertain_step hinv h hs
  | revalidate denied => exact revalidate_step hinv h hs
  | markAborted => exact markAborted_step hinv h hs
  | persistIntent => exact persistIntent_step hinv h hs
  | start => exact start_step hinv h hs
  | failToStart reply => exact failToStart_step hinv h hs
  | finish reply token => exact finish_step hinv h hs
  | record => exact record_step hinv h hs
  | post => exact post_step hinv h hs
  | respond response => exact respond_step hinv h hs
  | mark => exact mark_step hinv h hs
  | leave => exact leave_step hinv h hs
  | acknowledge => exact acknowledge_step hinv hs

end InputHandler

end Discode

import Discode.Fence

/-!
# The chain of resume tokens

Which token a subprocess gets: the last one parsed from a turn of the same session and
version, or else the one the session came to life with.  A restart cuts the chain.
-/

set_option autoImplicit false

namespace Discode

/-! ## The chain -/

/-- The token parsed from a turn of the session that was executed at version `v`. -/
def Event.parsedAt (sid : SessionId) (v : ℕ) : Event → Option Token
  | finished _ s v' _ token => if s = sid ∧ v' = v then token else none
  | _ => none

/-- The token the session held when it became running at version `v`. -/
def Event.tokenAt (sid : SessionId) (v : ℕ) : Event → Option (Option Token)
  | becameRunning s v' token => if s = sid ∧ v' = v then some token else none
  | _ => none

/-- The last token parsed, the newest event being the first. -/
def lastParsed (sid : SessionId) (v : ℕ) (log : List Event) : Option Token :=
  log.findSome? (Event.parsedAt sid v)

def tokenAtStart (sid : SessionId) (v : ℕ) (log : List Event) : Option Token :=
  (log.findSome? (Event.tokenAt sid v)).join

def chainToken (sid : SessionId) (v : ℕ) (log : List Event) : Option Token :=
  lastParsed sid v log <|> tokenAtStart sid v log

/-- The chain of a session and version has a start. -/
def ChainStarted (sid : SessionId) (v : ℕ) (log : List Event) : Prop :=
  ∃ token, .becameRunning sid v token ∈ log

/-- The events that the chain of a session and version consists of. -/
def Event.feedsChain (sid : SessionId) (v : ℕ) : Event → Bool
  | finished _ s v' _ _ | becameRunning s v' _ => s = sid ∧ v' = v
  | _ => false

theorem chainToken_cons_of_not {sid : SessionId} {v : ℕ} {e : Event} {log : List Event}
    (h : e.feedsChain sid v = false) : chainToken sid v (e :: log) = chainToken sid v log := by
  have hparsed : e.parsedAt sid v = none := by
    cases e with
    | finished pid s v' key token => exact if_neg (of_decide_eq_false h)
    | _ => rfl
  have htoken : e.tokenAt sid v = none := by
    cases e with
    | becameRunning s v' token => exact if_neg (of_decide_eq_false h)
    | _ => rfl
  rw [chainToken, lastParsed, tokenAtStart, List.findSome?_cons_of_isNone (by rw [hparsed]; rfl),
    List.findSome?_cons_of_isNone (by rw [htoken]; rfl)]
  rfl

theorem chainToken_append {sid : SessionId} {v : ℕ} {new log : List Event}
    (h : ∀ e ∈ new, e.feedsChain sid v = false) :
    chainToken sid v (new ++ log) = chainToken sid v log := by
  induction new with
  | nil => rfl
  | cons e new ih =>
      rw [List.cons_append, chainToken_cons_of_not (h e List.mem_cons_self)]
      exact ih fun e' he' ↦ h e' (List.mem_cons_of_mem _ he')

theorem chainToken_finished (pid : ℕ) (sid : SessionId) (v : ℕ) (key : Key)
    (token : Option Token) (log : List Event) :
    chainToken sid v (.finished pid sid v key token :: log) =
      (token <|> chainToken sid v log) := by
  have hstart : tokenAtStart sid v (.finished pid sid v key token :: log) =
      tokenAtStart sid v log := rfl
  have hparsed : lastParsed sid v (.finished pid sid v key token :: log) =
      (token <|> lastParsed sid v log) := by
    simp only [lastParsed, List.findSome?_cons, Event.parsedAt, and_self, if_true]
    cases token <;> rfl
  rw [chainToken, hstart, hparsed, chainToken]
  cases token <;> rfl

/-- A session that comes to life starts a chain. -/
theorem chainToken_becameRunning {sid : SessionId} {v : ℕ} {token : Option Token}
    {log : List Event} (h : ∀ e ∈ log, e.feedsChain sid v = false) :
    chainToken sid v (.becameRunning sid v token :: log) = token := by
  have hnone : lastParsed sid v log = none := by
    refine List.findSome?_eq_none_iff.mpr fun e he ↦ ?_
    have hnot := h e he
    cases e with
    | finished pid s v' key t => exact if_neg (of_decide_eq_false hnot)
    | _ => rfl
  have hparsed : lastParsed sid v (.becameRunning sid v token :: log) = lastParsed sid v log := rfl
  rw [chainToken, hparsed, hnone]
  simp [tokenAtStart, Event.tokenAt]

theorem ChainStarted.append {sid : SessionId} {v : ℕ} {log : List Event}
    (h : ChainStarted sid v log) (new : List Event) : ChainStarted sid v (new ++ log) := by
  obtain ⟨token, he⟩ := h
  exact ⟨token, List.mem_append_right _ he⟩

/-- Where no token was parsed, the chain still ends in the token it started with. -/
theorem ChainStarted.mem {sid : SessionId} {v : ℕ} {log : List Event}
    (h : ChainStarted sid v log) (hnone : lastParsed sid v log = none) :
    .becameRunning sid v (chainToken sid v log) ∈ log := by
  obtain ⟨token, he⟩ := h
  have hsome : (Event.becameRunning sid v token).tokenAt sid v = some token :=
    if_pos ⟨rfl, rfl⟩
  cases hfind : log.findSome? (Event.tokenAt sid v) with
  | none =>
      rw [List.findSome?_eq_none_iff.mp hfind _ he] at hsome
      cases hsome
  | some start =>
      obtain ⟨e, hmem, hstart⟩ := List.exists_of_findSome?_eq_some hfind
      have hchain : chainToken sid v log = start := by
        rw [chainToken, hnone, tokenAtStart, hfind]
        cases start <;> rfl
      rw [hchain]
      cases e with
      | becameRunning s v' token' =>
          simp only [Event.tokenAt] at hstart
          split at hstart
          · rename_i heq
            obtain ⟨rfl, rfl⟩ := heq
            cases hstart
            exact hmem
          · cases hstart
      | _ => cases hstart

/-! ## Tokens after a restart -/

/-- Minted for the session, or parsed from one of its turns of version `r` or later. -/
def Token.isSince (t : Token) (sid : SessionId) (r : ℕ) : Prop :=
  match t.origin with
  | .parsed s _ v => s = sid ∧ r ≤ v
  | .minted s => s = sid
  | .given => False

/-- Where a restart happened before the handler's intent transaction, its token is newer. -/
def Fenced (log : List Event) (pid : ℕ) (sid : SessionId) (v : ℕ) (key : Key)
    (token : Option Token) : Prop :=
  ∀ newer older r t, log = newer ++ .restarted sid r :: older → token = some t →
    .admitted pid sid v key ∈ older ∨ t.isSince sid r

theorem Fenced.append {log new : List Event} {pid : ℕ} {sid : SessionId} {v : ℕ} {key : Key}
    {token : Option Token} (h : Fenced log pid sid v key token)
    (hadmitted : .admitted pid sid v key ∈ log) : Fenced (new ++ log) pid sid v key token := by
  intro newer older r t hsplit ht
  rcases List.append_eq_append_iff.mp hsplit with ⟨mid, rfl, hlog⟩ | ⟨mid, rfl, hlog⟩
  · exact h mid older r t hlog ht
  · -- The restart is one of the new events.
    cases mid with
    | nil =>
        exact h [] older r t hlog.symm ht
    | cons e mid =>
        obtain ⟨-, rfl⟩ := List.cons_eq_cons.mp hlog
        exact .inl (List.mem_append_right _ hadmitted)

/-! ## What a step does to the sessions -/

theorem insertTurn?_sessions {db db' : Database} {key : Key} {sid : SessionId} {v : ℕ}
    {status : TurnStatus} (h : db.insertTurn? key sid v status = some db') :
    db'.sessions = db.sessions := by
  obtain ⟨turns, -, rfl⟩ := Option.map_eq_some_iff.mp h
  rfl

theorem admitTurn_core {p : InputJobPayload} {v : ℕ} {db db' : Database}
    (h : admitTurn p v db = some db') (sid : SessionId) :
    CoreStep (· = .touch) (db.core? sid) (db'.core? sid) ∧
      (sid ≠ p.sessionId → db'.core? sid = db.core? sid) := by
  unfold admitTurn at h
  split at h
  · cases h
  · rename_i r hr
    split at h
    · cases h
    · rename_i hguard
      obtain ⟨-, hlive⟩ := not_or.mp hguard
      rw [Bool.not_eq_true, Bool.not_eq_false'] at hlive
      have hsessions : db'.sessions = (db.updateSession p.sessionId fun r ↦
          { r with lastActivityAt := db.now, status := .running }).sessions := by
        dsimp only at h
        split at h
        · exact insertTurn?_sessions h
        · cases h
          rfl
      have hcore : ∀ s, db'.core? s = (db.updateSession p.sessionId fun r ↦
          { r with lastActivityAt := db.now, status := .running }).core? s := fun s ↦ by
        rw [Database.core?, Database.core?, Database.session?, Database.session?, hsessions]
      rw [hcore]
      refine ⟨(LifecycleTx.updateSession _ _ fun r' hr' ↦ ?_).core sid, fun hne ↦ ?_⟩
      · cases hr.symm.trans hr'
        refine .move .touch _ rfl ?_
        simpa [Writer.sources, Status.isLive, SessionRow.core] using hlive
      · rw [Database.core?, Database.session?_updateSession, if_neg hne, Database.core?]

/-- A handler touches its own session only; before it records its result it does so without
touching the token. -/
theorem InputHandler.step_core {pid : ℕ} {w w' : World} {p : InputHandler}
    {q : Option InputHandler} {a : InputAction} (h : p.step pid w a = some (w', q))
    (sid : SessionId) : (sid ≠ p.session → w'.db.core? sid = w.db.core? sid) ∧
      (a ≠ .record → CoreStep Ordinary (w.db.core? sid) (w'.db.core? sid)) := by
  cases step_effect h with
  | persistIntent hstage hdb =>
      obtain ⟨hcore, hother⟩ := admitTurn_core hdb sid
      exact ⟨hother, fun _ ↦ hcore.mono (by simp)⟩
  | record hstage =>
      refine ⟨fun hne ↦ ?_, fun hr ↦ absurd rfl hr⟩
      rw [World.db_emit, World.db_setDb, recordResult, Database.core?,
        Database.session?_updateSession, if_neg hne, Database.session?_updateTurn,
        Database.core?]
  | _ => exact ⟨fun _ ↦ rfl, fun _ ↦ .same _⟩

/-- A session comes to life, and the history says with which token. -/
structure Revives (sid : SessionId) (c c' : SessionCore) (w w' : World) : Prop where
  before : w.db.core? sid = some c
  status : c.status = .creating ∨ c.status = .resuming
  after : w'.db.core? sid = some c'
  live : c'.LiveAt c.version
  others : ∀ s, s ≠ sid → w'.db.core? s = w.db.core? s
  log : w'.log = .becameRunning sid c.version c'.token :: w.log

theorem CreateJob.step_revives {w w' : World} {p : CreateJob} {q : Option CreateJob}
    {a : CreateJobAction} (h : p.step w a = some (w', q)) :
    ((∀ sid, CoreStep Ordinary (w.db.core? sid) (w'.db.core? sid)) ∧ w'.log = w.log) ∨
      ∃ c c' token, Revives p.payload.sessionId c c' w w' ∧ c.status = .creating ∧
        p.stage = .ready token ∧ c'.token = (token <|> c.token) := by
  cases a with
  | commit =>
      simp only [CreateJob.step] at h
      split at h
      · rename_i token hstage
        split at h
        · rename_i row db hrow hdb
          cases h
          obtain ⟨row', hrow', hs⟩ := markRunning_eq_some hdb
          cases hrow.symm.trans hrow'
          unfold markRunning at hdb
          rw [hrow] at hdb
          dsimp only at hdb
          rw [if_neg (not_not.mpr hs)] at hdb
          cases hdb
          refine .inr ⟨row.core, ⟨row.guildId, some p.hostId, .running, row.lifecycleVersion,
            token <|> row.toolResumeToken⟩, token, ⟨?_, .inl hs, ?_, ⟨rfl, rfl⟩, fun s hne ↦ ?_,
            rfl⟩, hs, hstage, rfl⟩
          · rw [Database.core?, hrow]
            rfl
          · rw [World.db_emit, World.db_setDb, Database.core?, Database.session?_writeOutbox,
              Database.session?_updateSession, if_pos rfl, hrow]
            rfl
          · rw [World.db_emit, World.db_setDb, Database.core?, Database.session?_writeOutbox,
              Database.session?_updateSession, if_neg hne, Database.core?]
        · cases h
          exact .inl ⟨fun _ ↦ .same _, rfl⟩
      · cases h
  | lockRow denied =>
      simp only [CreateJob.step] at h
      split at h
      · split at h
        · cases h
          exact .inl ⟨fun _ ↦ .same _, rfl⟩
        · split at h <;> cases h <;> exact .inl ⟨fun _ ↦ .same _, rfl⟩
      · cases h
  | getAdapter unknown minted =>
      simp only [CreateJob.step] at h
      split at h <;> cases h
      exact .inl ⟨fun _ ↦ .same _, rfl⟩
  | release =>
      rw [(CreateJob.release_cases h).1]
      exact .inl ⟨fun _ ↦ .same _, rfl⟩
  | fail =>
      simp only [CreateJob.step] at h
      split at h <;> cases h
      exact .inl ⟨fun sid ↦ ((failAndNotify_tx _ _ _ w.db).core sid).mono (by simp), rfl⟩
  | register =>
      simp only [CreateJob.step] at h
      split at h <;> cases h
      exact .inl ⟨fun _ ↦ .same _, rfl⟩

theorem World.resumed_revives (w : World) (p : LifecyclePayload) (row : SessionRow)
    (token : Option Token) :
    w.resumed p row token = w ∨ ∃ c c', Revives p.sessionId c c' w (w.resumed p row token) ∧
      c.status = .resuming ∧ c.version = row.lifecycleVersion ∧ c'.token = token ∧
      c'.version = c.version := by
  unfold World.resumed
  split
  · exact .inl rfl
  · rename_i db hdb
    obtain ⟨r, hr, rfl⟩ := Option.map_eq_some_iff.mp hdb
    obtain ⟨hget, hversion, hs⟩ := resumingRow?_eq_some.mp hr
    refine .inr ⟨r.core, ⟨r.guildId, r.hostId, .running, r.lifecycleVersion, token⟩,
      ⟨?_, .inr hs, ?_, ⟨rfl, rfl⟩, fun s hne ↦ ?_, ?_⟩, hs, hversion, rfl, rfl⟩
    · rw [Database.core?, hget]
      rfl
    · rw [World.db_emit, World.db_setDb, Database.core?, Database.session?_updateSession,
        if_pos rfl, hget]
      rfl
    · rw [World.db_emit, World.db_setDb, Database.core?, Database.session?_updateSession,
        if_neg hne, Database.core?]
    · rw [World.log_emit, World.log_setDb, ← hversion]
      rfl

theorem ResumeJob.step_revives {pid : ℕ} {w w' : World} {p : ResumeJob} {q : Option ResumeJob}
    {a : ResumeJobAction} (h : p.step pid w a = some (w', q)) :
    ((∀ sid, CoreStep Ordinary (w.db.core? sid) (w'.db.core? sid)) ∧ w'.log = w.log) ∨
      ∃ c c' row, Revives p.payload.sessionId c c' w w' ∧ p.stage = .commit row c'.token ∧
        c.status = .resuming ∧ c.version = row.lifecycleVersion ∧ c'.version = c.version := by
  cases a with
  | check =>
      simp only [ResumeJob.step] at h
      split at h
      · split at h
        · cases h
          exact .inl ⟨fun _ ↦ .same _, rfl⟩
        · split at h <;> cases h <;> exact .inl ⟨fun _ ↦ .same _, rfl⟩
      · cases h
  | lock collision =>
      simp only [ResumeJob.step] at h
      split at h
      · split at h <;> cases h <;> exact .inl ⟨fun _ ↦ .same _, rfl⟩
      · cases h
  | read =>
      simp only [ResumeJob.step] at h
      split at h
      · split at h
        · cases h
          exact .inl ⟨fun _ ↦ .same _, rfl⟩
        · split at h <;> cases h <;> exact .inl ⟨fun _ ↦ .same _, rfl⟩
      · cases h
  | refuse =>
      simp only [ResumeJob.step] at h
      split at h <;> cases h
      exact .inl ⟨fun sid ↦ ((refuseResume_tx _ _ w.db).core sid).mono (by simp), rfl⟩
  | orphan =>
      simp only [ResumeJob.step] at h
      split at h <;> cases h
      exact .inl ⟨fun sid ↦ ((orphanResume_tx _ _ w.db).core sid).mono (by simp), rfl⟩
  | commit =>
      simp only [ResumeJob.step] at h
      split at h <;> cases h
      rename_i row token hstage
      rcases w.resumed_revives p.payload row token with he | ⟨c, c', hrev, hs, hv, rfl, hv'⟩
      · rw [he]
        exact .inl ⟨fun _ ↦ .same _, rfl⟩
      · exact .inr ⟨c, c', row, ⟨hrev.before, hrev.status, hrev.after, hrev.live, hrev.others,
          hrev.log⟩, hstage, hs, hv, hv'⟩
  | commitFails applied =>
      simp only [ResumeJob.step] at h
      split at h <;> cases h
      rename_i row token hstage
      split
      · rcases w.resumed_revives p.payload row token with he | ⟨c, c', hrev, hs, hv, rfl, hv'⟩
        · rw [he]
          exact .inl ⟨fun _ ↦ .same _, rfl⟩
        · exact .inr ⟨c, c', row, hrev, hstage, hs, hv, hv'⟩
      · exact .inl ⟨fun _ ↦ .same _, rfl⟩
  | _ =>
      simp only [ResumeJob.step] at h
      split at h <;> cases h
      exact .inl ⟨fun _ ↦ .same _, rfl⟩

/-! ## The invariant -/

structure TokenInv (w : World) : Prop where
  /-- A live session holds the token of its chain, unless a turn is being executed. -/
  settled : ∀ sid c v, w.db.core? sid = some c → c.LiveAt v →
    c.token = chainToken sid v w.log ∨ ∃ key t, w.db.turn? key = some t ∧ t.sessionId = sid ∧
      t.lifecycleVersion = v ∧ (t.status = .executing ∨ t.status = .uncertain)
  born : ∀ sid c v, w.db.core? sid = some c → c.LiveAt v → ChainStarted sid v w.log
  fed : ∀ e ∈ w.log, ∀ sid v, e.feedsChain sid v = true →
    ∃ c, w.db.core? sid = some c ∧ (c.LiveAt v ∨ c.LeftAt v)
  chained : ∀ newer older pid sid v key token,
    w.log = newer ++ .started pid sid v key token :: older →
    ChainStarted sid v older ∧ token = chainToken sid v older
  restarted : ∀ sid r, .restarted sid r ∈ w.log → ∃ c, w.db.core? sid = some c ∧
    r ≤ c.version ∧ c.status ≠ .creating ∧ ∀ t, c.token = some t → t.isSince sid r
  fenced : ∀ newer older pid sid v key token,
    w.log = newer ++ .started pid sid v key token :: older → Fenced older pid sid v key token

/-- The session still holds the token of the row that was read, if it is live at its version. -/
def HoldsToken (w : World) (sid : SessionId) (row : SessionRow) : Prop :=
  ∀ c, w.db.core? sid = some c → c.LiveAt row.lifecycleVersion → c.token = row.toolResumeToken

def InputHandler.TokenOk (pid : ℕ) (p : InputHandler) (w : World) : Prop :=
  match p.stage with
  | .sessionRead row | .turnRead row _ | .revalidate row | .persistIntent row =>
      HoldsToken w p.session row
  | .admitted row => HoldsToken w p.session row ∧
      ChainStarted p.session row.lifecycleVersion w.log ∧
      row.toolResumeToken = chainToken p.session row.lifecycleVersion w.log ∧
      Fenced w.log pid p.session row.lifecycleVersion p.key row.toolResumeToken
  | .executing row => HoldsToken w p.session row ∧
      row.toolResumeToken = chainToken p.session row.lifecycleVersion w.log
  | .executed version _ token =>
      (∀ c, w.db.core? p.session = some c → c.LiveAt version →
        (token <|> c.token) = chainToken p.session version w.log) ∧
      ∀ t, token = some t → t.origin = .parsed p.session p.key version
  | _ => True

/-- The session holds the token of the row that was read while it resumes at its version. -/
def HoldsResuming (w : World) (sid : SessionId) (row : SessionRow) : Prop :=
  ∃ c, w.db.core? sid = some c ∧ row.lifecycleVersion ≤ c.version ∧
    (c.version = row.lifecycleVersion → c.status = .resuming → c.token = row.toolResumeToken)

def ResumeJob.TokenOk (p : ResumeJob) (w : World) : Prop :=
  match p.stage with
  | .found row | .refused row | .mint row => HoldsResuming w p.payload.sessionId row
  | .commit row token => HoldsResuming w p.payload.sessionId row ∧
      (token = row.toolResumeToken ∨
        ∀ t, token = some t → t.origin = .minted p.payload.sessionId)
  | _ => True

def Process.TokenOk (pid : ℕ) (p : Process) (w : World) : Prop :=
  match p with
  | .input p => p.TokenOk pid w
  | .resumeJob p => p.TokenOk w
  | _ => True

/-! ## Interference -/

/-- A step that leaves the tokens of session `sid` to the holder of its lock. -/
structure TokenFrame (sid : SessionId) (w w' : World) : Prop where
  core : CoreStep KeepsTokens (w.db.core? sid) (w'.db.core? sid)
  log : ∃ new, w'.log = new ++ w.log ∧ ∀ v, (∃ c, w.db.core? sid = some c ∧
    (c.LiveAt v ∨ c.LeftAt v)) → ∀ e ∈ new, e.feedsChain sid v = false

namespace TokenFrame

variable {sid : SessionId} {w w' : World}

theorem chain (h : TokenFrame sid w w') {v : ℕ}
    (hlinked : ∃ c, w.db.core? sid = some c ∧ (c.LiveAt v ∨ c.LeftAt v)) :
    chainToken sid v w'.log = chainToken sid v w.log := by
  obtain ⟨new, hnew, hfeeds⟩ := h.log
  rw [hnew]
  exact chainToken_append (hfeeds v hlinked)

theorem live (h : TokenFrame sid w w') {v : ℕ}
    (hlinked : ∃ c, w.db.core? sid = some c ∧ (c.LiveAt v ∨ c.LeftAt v)) {c' : SessionCore}
    (hc' : w'.db.core? sid = some c') (hlive : c'.LiveAt v) :
    ∃ c, w.db.core? sid = some c ∧ c.LiveAt v ∧ c'.token = c.token := by
  obtain ⟨c, hc, hl⟩ := hlinked
  have hstep := h.core
  rw [hc, hc'] at hstep
  obtain ⟨hlive', htoken⟩ := hstep.token_of_live (fun _ hx ↦ hx) hl hlive
  exact ⟨c, hc, hlive', htoken⟩

theorem holdsToken (h : TokenFrame sid w w') {row : SessionRow}
    (hlinked : ∃ c, w.db.core? sid = some c ∧
      (c.LiveAt row.lifecycleVersion ∨ c.LeftAt row.lifecycleVersion))
    (hrow : HoldsToken w sid row) : HoldsToken w' sid row := by
  intro c' hc' hlive
  obtain ⟨c, hc, hl, htoken⟩ := h.live hlinked hc' hlive
  exact htoken.trans (hrow c hc hl)

end TokenFrame

theorem HoldsResuming.step {W : Writer → Prop} {w w' : World} {sid : SessionId}
    {row : SessionRow} (h : HoldsResuming w sid row)
    (hcore : CoreStep W (w.db.core? sid) (w'.db.core? sid)) : HoldsResuming w' sid row := by
  obtain ⟨c, hc, hle, htoken⟩ := h
  rw [hc] at hcore
  obtain ⟨c', hc'⟩ := hcore.exists_of_some
  rw [hc'] at hcore
  refine ⟨c', hc', hle.trans hcore.version_le, fun hv hs ↦ ?_⟩
  have hversion : c'.version = c.version := by
    have := hcore.version_le
    omega
  obtain rfl := hcore.eq_of_resuming hversion hs
  exact htoken hv hs

/-- A handler's job is for a version its session has reached. -/
theorem AcceptedJob.linked {w : World} {p : InputJobPayload} {v : ℕ} (hinv : TurnInv w)
    (h : AcceptedJob w.db p v) :
    ∃ c, w.db.core? p.sessionId = some c ∧ (c.LiveAt v ∨ c.LeftAt v) := by
  obtain ⟨t, ht, hsid, hv⟩ := h.turn
  obtain ⟨c, hc, hl⟩ := hinv.linked _ t ht
  exact ⟨c, hsid ▸ hc, hv ▸ hl⟩

/-- Nobody else touches what a handler knows about its token. -/
theorem InputHandler.TokenOk.frame {pid v : ℕ} {p : InputHandler} {w w' : World}
    (h : p.TokenOk pid w) (hok : p.OkAt pid v w) (hinv : TurnInv w)
    (hframe : p.stage.isLocked = true → TokenFrame p.session w w') : p.TokenOk pid w' := by
  have hlinked := hok.job.linked hinv
  have hst := hok.stage
  unfold InputHandler.TokenOk at h ⊢
  cases hs : p.stage with
  | sessionRead row =>
      rw [hs] at h hst hframe
      exact (hframe rfl).holdsToken (hst ▸ hlinked) h
  | turnRead row turn =>
      rw [hs] at h hst hframe
      exact (hframe rfl).holdsToken (hst.1 ▸ hlinked) h
  | revalidate row =>
      rw [hs] at h hst hframe
      exact (hframe rfl).holdsToken (hst.1 ▸ hlinked) h
  | persistIntent row =>
      rw [hs] at h hst hframe
      exact (hframe rfl).holdsToken (hst.1 ▸ hlinked) h
  | admitted row =>
      rw [hs] at h hst hframe
      obtain ⟨hrow, t, -, -, hlog⟩ := hst
      obtain ⟨hholds, hstarted, hchain, hfenced⟩ := h
      have hframe := hframe rfl
      refine ⟨hframe.holdsToken (hrow ▸ hlinked) hholds, ?_, ?_, ?_⟩
      · obtain ⟨new, hnew, -⟩ := hframe.log
        exact hnew ▸ hstarted.append new
      · rw [hframe.chain (hrow ▸ hlinked)]
        exact hchain
      · obtain ⟨new, hnew, -⟩ := hframe.log
        rw [hnew]
        refine hfenced.append ?_
        have hmem : .admitted pid p.session v p.key ∈ turnLog p.key w.log := by
          rw [hlog]
          exact List.mem_singleton_self _
        exact hrow ▸ (mem_turnLog.mp hmem).1
  | executing row =>
      rw [hs] at h hst hframe
      have hframe := hframe rfl
      exact ⟨hframe.holdsToken (hst.1 ▸ hlinked) h.1,
        h.2.trans (hframe.chain (hst.1 ▸ hlinked)).symm⟩
  | executed version reply token =>
      rw [hs] at h hst hframe
      have hframe := hframe rfl
      refine ⟨fun c' hc' hlive ↦ ?_, h.2⟩
      obtain ⟨c, hc, hl, htoken⟩ := hframe.live (hst.1 ▸ hlinked) hc' hlive
      rw [htoken, hframe.chain (hst.1 ▸ hlinked)]
      exact h.1 c hc hl
  | _ => trivial

theorem ResumeJob.TokenOk.step {W : Writer → Prop} {p : ResumeJob} {w w' : World}
    (h : p.TokenOk w) (hcore : ∀ sid, CoreStep W (w.db.core? sid) (w'.db.core? sid)) :
    p.TokenOk w' := by
  unfold ResumeJob.TokenOk at h ⊢
  cases hs : p.stage with
  | found row => rw [hs] at h; exact h.step (hcore _)
  | refused row => rw [hs] at h; exact h.step (hcore _)
  | mint row => rw [hs] at h; exact h.step (hcore _)
  | commit row token => rw [hs] at h; exact ⟨h.1.step (hcore _), h.2⟩
  | _ => trivial

theorem Process.TokenOk.frame {pid : ℕ} {p : Process} {w w' : World} (h : p.TokenOk pid w)
    (hok : p.Ok pid w) (hinv : TurnInv w) (hadv : Advance w w')
    (hframe : ∀ sid, p.Holds sid → TokenFrame sid w w') : p.TokenOk pid w' := by
  cases p with
  | input p =>
      obtain ⟨v, hok⟩ := hok
      exact InputHandler.TokenOk.frame h hok hinv fun hl ↦ hframe p.session ⟨rfl, hl⟩
  | resumeJob p => exact ResumeJob.TokenOk.step h hadv.core
  | _ => trivial

/-! ## Frames -/

theorem SessionCore.not_linked_of_starting {c : SessionCore}
    (h : c.status = .creating ∨ c.status = .resuming) :
    ¬ (c.LiveAt c.version ∨ c.LeftAt c.version) := by
  rintro (⟨-, hl⟩ | hlt | ⟨-, hs⟩)
  · rcases h with h | h <;> rw [h] at hl <;> cases hl
  · exact lt_irrefl _ hlt
  · rcases h with h | h <;> rw [h] at hs <;> rcases hs with hs | hs <;> cases hs

/-- Only the holder of a session's lock parses tokens for it, and a session that comes to
life was not alive at its version before. -/
theorem Event.EmittedBy.not_feeds {pid : ℕ} {p : Process} {w : World} {e : Event}
    {sid : SessionId} {v : ℕ} (he : e.EmittedBy pid p w) (hsid : ¬ p.Holds sid)
    (hlinked : ∃ c, w.db.core? sid = some c ∧ (c.LiveAt v ∨ c.LeftAt v)) :
    e.feedsChain sid v = false := by
  cases e with
  | finished q s v' key token =>
      obtain ⟨-, h, row, rfl, hstage, rfl, -, -⟩ := he
      refine decide_eq_false fun hs ↦ hsid ⟨hs.1, ?_⟩
      rw [hstage]
      rfl
  | becameRunning s v' token =>
      refine decide_eq_false ?_
      rintro ⟨rfl, rfl⟩
      obtain ⟨c, hc, hl⟩ := hlinked
      rcases he with ⟨j, minted, row, -, -, rfl, hrow, hs, rfl, -⟩ |
        ⟨j, row, r, -, -, rfl, hr, hs, rfl, -⟩
      · rw [Database.core?, hrow] at hc
        cases hc
        exact SessionCore.not_linked_of_starting (.inl hs) hl
      · rw [Database.core?, hr] at hc
        cases hc
        exact SessionCore.not_linked_of_starting (.inr hs) hl
  | _ => rfl

theorem Quiet.keepsTokens {w w' : World} (h : Quiet Ordinary w w') (sid : SessionId) :
    CoreStep KeepsTokens (w.db.core? sid) (w'.db.core? sid) :=
  (h.core sid).mono fun _ ↦ Writer.storesToken_of_isOrdinary

theorem execStep_keepsTokens {pid : ℕ} {w w' : World} {p : Process} {a : ExecAction}
    {q : Option Process} (hok : p.Ok pid w) (h : execStep pid w p a = some (w', q))
    {sid : SessionId} (hsid : ¬ p.Holds sid) :
    CoreStep KeepsTokens (w.db.core? sid) (w'.db.core? sid) := by
  cases execStep_cases h with
  | crash p => exact .same _
  | createSaga hstep => exact (CreateSaga.step_tx hstep).quiet.keepsTokens sid
  | createJob hstep => exact (CreateJob.step_tx hstep).quiet.core sid
  | resumeJob hstep => exact (ResumeJob.step_tx hstep).quiet.core sid
  | @input p a _ q hstep =>
      obtain ⟨hother, hcore⟩ := InputHandler.step_core hstep sid
      by_cases hs : sid = p.session
      · -- Without the lock a handler records nothing.
        have ha : a ≠ .record := by
          rintro rfl
          simp only [InputHandler.step] at hstep
          split at hstep
          · rename_i version reply token hstage
            exact hsid ⟨hs.symm, by rw [hstage]; rfl⟩
          · cases hstep
        exact (hcore ha).mono fun _ ↦ Writer.storesToken_of_isOrdinary
      · rw [hother hs]
        exact .same _
  | recovery hstep => exact (Recovery.step_tx hstep).quiet.keepsTokens sid
  | release => exact .same _
  | sweep p =>
      cases hk : p.kind with
      | turnResults batch =>
          unfold Sweep.step
          rw [hk]
          exact .same _
      | _ => exact (p.step_quiet w fun batch ↦ by simp [hk]).keepsTokens sid
  | drift hstep => exact (DriftSweep.step_tx hstep).quiet.keepsTokens sid
  | relay hstep => exact (RelayBatch.step_quiet hok hstep).keepsTokens sid
  | trim hstep => exact (TrimCall.step_quiet hstep).keepsTokens sid
  | reply hstep => exact (replyStep_tx hstep).quiet.keepsTokens sid

theorem execStep_tokenFrame {pid : ℕ} {w w' : World} {p : Process} {a : ExecAction}
    {q : Option Process} (hok : p.Ok pid w) (h : execStep pid w p a = some (w', q))
    {sid : SessionId} (hsid : ¬ p.Holds sid) : TokenFrame sid w w' := by
  obtain ⟨new, hnew, -, hemit⟩ := execStep_emits h
  exact ⟨execStep_keepsTokens hok h hsid, new, hnew,
    fun v hlinked e he ↦ (hemit e he).not_feeds hsid hlinked⟩

/-- A step of the environment moves sessions by ordinary writers. -/
theorem envStep_core {w w' : World} {e : EnvAction} (h : envStep w e = some w')
    (sid : SessionId) : CoreStep Ordinary (w.db.core? sid) (w'.db.core? sid) := by
  by_cases hin : ∀ key sid guildId text, e ≠ .input key sid guildId text
  · exact (envStep_quiet h hin).core sid
  · simp only [not_forall, not_not] at hin
    obtain ⟨key, s, guildId, text, rfl⟩ := hin
    obtain ⟨row, job, db', rfl, hrow, hlive, hacc, -, -, -⟩ := inputSaga_accepted h
    exact (hacc.core hrow hlive sid).mono (by simp)

theorem envStep_tokenFrame {w w' : World} {e : EnvAction} (h : envStep w e = some w')
    (sid : SessionId) : TokenFrame sid w w' := by
  refine ⟨(envStep_core h sid).mono fun _ ↦ Writer.storesToken_of_isOrdinary, ?_⟩
  rcases envStep_log h with hlog | ⟨s, guildId, row, db, rfl, -, -, rfl⟩
  · exact ⟨[], hlog, fun _ _ _ he ↦ nomatch he⟩
  · refine ⟨[_], rfl, fun v _ e he ↦ ?_⟩
    rw [List.mem_singleton.mp he]
    rfl

/-! ## Ordinary steps -/

theorem split_of_append {l log newer older : List Event} {e : Event}
    (h : l ++ log = newer ++ e :: older) (he : e ∉ l) :
    ∃ newer', log = newer' ++ e :: older := by
  rcases List.append_eq_append_iff.mp h with ⟨mid, -, hlog⟩ | ⟨mid, rfl, hlog⟩
  · exact ⟨mid, hlog⟩
  · cases mid with
    | nil => exact ⟨[], hlog.symm⟩
    | cons e' mid =>
        obtain ⟨rfl, -⟩ := List.cons_eq_cons.mp hlog
        exact absurd (List.mem_append_right _ List.mem_cons_self) he

/-- The events that matter for tokens. -/
def Event.concernsTokens : Event → Bool
  | becameRunning _ _ _ | started _ _ _ _ _ | finished _ _ _ _ _ | restarted _ _ => true
  | _ => false

/-- A turn that is being executed or is uncertain stays so. -/
def KeepsExecuting (w w' : World) : Prop :=
  ∀ key t, w.db.turn? key = some t → t.status = .executing ∨ t.status = .uncertain →
    ∃ t', w'.db.turn? key = some t' ∧ t.SameTurn t' ∧
      (t'.status = .executing ∨ t'.status = .uncertain)

namespace TokenInv

variable {w w' : World}

theorem fed_advance (h : TokenInv w) (hadv : Advance w w') {e : Event} (he : e ∈ w.log)
    {sid : SessionId} {v : ℕ} (hfeeds : e.feedsChain sid v = true) :
    ∃ c, w'.db.core? sid = some c ∧ (c.LiveAt v ∨ c.LeftAt v) :=
  linked_advance hadv (h.fed e he sid v hfeeds)

/-- The restarts of the history bind what ordinary writers leave. -/
theorem restarted_step (h : TokenInv w) {sid : SessionId} {r : ℕ}
    (hcore : CoreStep Ordinary (w.db.core? sid) (w'.db.core? sid))
    (he : .restarted sid r ∈ w.log) : ∃ c, w'.db.core? sid = some c ∧
      r ≤ c.version ∧ c.status ≠ .creating ∧ ∀ t, c.token = some t → t.isSince sid r := by
  obtain ⟨c, hc, hr, hs, htoken⟩ := h.restarted sid r he
  rw [hc] at hcore
  obtain ⟨c', hc'⟩ := hcore.exists_of_some
  rw [hc'] at hcore
  refine ⟨c', hc', hr.trans hcore.version_le, hcore.not_creating hs, fun t ht ↦ htoken t ?_⟩
  rcases hcore.some_left with he | ⟨x, hx, -, he⟩
  · rw [Option.some.inj he] at ht
    exact ht
  · rw [Option.some.inj he] at ht
    rcases x.token_of_isOrdinary hx c with hsame | hnone
    · rwa [hsame] at ht
    · rw [hnone] at ht
      cases ht

theorem settled_ordinary (h : TokenInv w) (hturns : KeepsExecuting w w') {sid : SessionId}
    {c : SessionCore} {v : ℕ} (hc : w.db.core? sid = some c) (hlive : c.LiveAt v)
    (hchain : chainToken sid v w'.log = chainToken sid v w.log) :
    c.token = chainToken sid v w'.log ∨ ∃ key t, w'.db.turn? key = some t ∧ t.sessionId = sid ∧
      t.lifecycleVersion = v ∧ (t.status = .executing ∨ t.status = .uncertain) := by
  rcases h.settled sid c v hc hlive with htoken | ⟨key, t, ht, hsid, hv, hs⟩
  · exact .inl (htoken.trans hchain.symm)
  · obtain ⟨t', ht', hsame, hs'⟩ := hturns key t ht hs
    exact .inr ⟨key, t', ht', hsame.sessionId.trans hsid, hsame.lifecycleVersion.trans hv, hs'⟩

/-- Ordinary writers and events about other things; a restart may be reported. -/
theorem ordinary (h : TokenInv w) (hadv : Advance w w')
    (hcore : ∀ sid, CoreStep Ordinary (w.db.core? sid) (w'.db.core? sid))
    (hturns : KeepsExecuting w w') {l : List Event} (hnew : w'.log = l ++ w.log)
    (hevents : ∀ e ∈ l, e.concernsTokens = false ∨ ∃ sid r c, e = .restarted sid r ∧
      w'.db.core? sid = some c ∧ r ≤ c.version ∧ c.status ≠ .creating ∧ c.token = none) :
    TokenInv w' := by
  have hstarted : ∀ pid sid v key token, .started pid sid v key token ∉ l := by
    intro pid sid v key token he
    rcases hevents _ he with hno | ⟨_, _, _, he, -⟩
    · cases hno
    · cases he
  have hfeeds : ∀ e ∈ l, ∀ sid v, e.feedsChain sid v = false := by
    intro e he sid v
    rcases hevents e he with hno | ⟨_, _, _, rfl, -⟩
    · cases e <;> first | rfl | cases hno
    · rfl
  have hchain : ∀ sid v, chainToken sid v w'.log = chainToken sid v w.log := fun sid v ↦ by
    rw [hnew]
    exact chainToken_append fun e he ↦ hfeeds e he sid v
  have hback : ∀ sid c' v, w'.db.core? sid = some c' → c'.LiveAt v →
      ∃ c, w.db.core? sid = some c ∧ c.LiveAt v ∧ c'.token = c.token := by
    intro sid c' v hc' hlive
    have hstep := hcore sid
    rw [hc'] at hstep
    exact hstep.live_of_ordinary (fun _ hx ↦ hx) hlive
  refine ⟨fun sid c' v hc' hlive ↦ ?_, fun sid c' v hc' hlive ↦ ?_, fun e he sid v hf ↦ ?_,
    fun newer older pid sid v key token hsplit ↦ ?_, fun sid r he ↦ ?_,
    fun newer older pid sid v key token hsplit ↦ ?_⟩
  · obtain ⟨c, hc, hl, htoken⟩ := hback sid c' v hc' hlive
    rw [htoken]
    exact h.settled_ordinary hturns hc hl (hchain sid v)
  · obtain ⟨c, hc, hl, -⟩ := hback sid c' v hc' hlive
    exact hnew ▸ (h.born sid c v hc hl).append l
  · rw [hnew, List.mem_append] at he
    rcases he with he | he
    · rw [hfeeds e he sid v] at hf
      cases hf
    · exact h.fed_advance hadv he hf
  · rw [hnew] at hsplit
    obtain ⟨newer', hlog⟩ := split_of_append hsplit (hstarted pid sid v key token)
    exact h.chained newer' older pid sid v key token hlog
  · rw [hnew, List.mem_append] at he
    rcases he with he | he
    · rcases hevents _ he with hno | ⟨s, r', c, he, hc, hr, hs, hnone⟩
      · cases hno
      · cases he
        exact ⟨c, hc, hr, hs, fun t ht ↦ by rw [hnone] at ht; cases ht⟩
    · exact h.restarted_step (hcore sid) he
  · rw [hnew] at hsplit
    obtain ⟨newer', hlog⟩ := split_of_append hsplit (hstarted pid sid v key token)
    exact h.fenced newer' older pid sid v key token hlog

end TokenInv

end Discode

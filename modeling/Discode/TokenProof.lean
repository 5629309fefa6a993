import Discode.ResumeTokens

/-!
# Every reachable state keeps the chain

The steps that parse, store or hand over a token one by one; everything else is ordinary.
-/

set_option autoImplicit false

namespace Discode

/-! ## Turns that are being executed -/

theorem KeepsExecuting.of_turn? {w w' : World} (h : ∀ key, w'.db.turn? key = w.db.turn? key) :
    KeepsExecuting w w' :=
  fun key t ht hs ↦ ⟨t, (h key).trans ht, .refl t, hs⟩

theorem KeepsExecuting.of_rely {w w' : World} (h : ∀ sid, Rely sid w w') :
    KeepsExecuting w w' := by
  intro key t ht hs
  obtain ⟨t', ht', he⟩ := (h t.sessionId).expires key t ht rfl
  exact ⟨t', ht', he.toSameTurn, he.status ▸ hs⟩

theorem KeepsExecuting.updateTurn {w : World} {key : Key} {f : InputTurn → InputTurn}
    (h : ∀ t, w.db.turn? key = some t → t.status = .executing ∨ t.status = .uncertain →
      t.SameTurn (f t) ∧ ((f t).status = .executing ∨ (f t).status = .uncertain)) :
    KeepsExecuting w (w.setDb (w.db.updateTurn key f)) := by
  intro k t ht hs
  rw [World.db_setDb, Database.turn?_updateTurn]
  split
  · rename_i hk
    subst hk
    obtain ⟨hsame, hs'⟩ := h t ht hs
    exact ⟨f t, by rw [ht]; rfl, hsame, hs'⟩
  · exact ⟨t, ht, .refl t, hs⟩

/-- The intent transaction leaves a turn alone that is not queued. -/
theorem admitTurn_keepsExecuting {p : InputJobPayload} {v : ℕ} {db : Database} {w : World}
    (h : admitTurn p v w.db = some db) : KeepsExecuting w (w.setDb db) := by
  intro k t ht hs
  by_cases hown : ∃ u, w.db.turn? p.idempotencyKey = some u
  · obtain ⟨u, hu⟩ := hown
    obtain ⟨r, -, -, rfl⟩ := admitTurn_eq_some h hu
    rw [World.db_setDb, Database.turn?_updateTurn, Database.turn?_updateSession]
    split
    · rename_i hk
      subst hk
      have hqueued : ¬ (t.status = .queued ∧ t.sessionId = p.sessionId ∧
          t.lifecycleVersion = v) := fun hq ↦ by
        rcases hs with hs | hs <;> rw [hs] at hq <;> cases hq.1
      exact ⟨t, by rw [ht, Option.map_some, if_neg hqueued], .refl t, hs⟩
    · exact ⟨t, ht, .refl t, hs⟩
  · have hnone : w.db.turn? p.idempotencyKey = none :=
      Option.eq_none_iff_forall_ne_some.mpr fun u hu ↦ hown ⟨u, hu⟩
    have hne : k ≠ p.idempotencyKey := by
      rintro rfl
      rw [hnone] at ht
      cases ht
    refine ⟨t, ?_, .refl t, hs⟩
    unfold admitTurn at h
    split at h
    · cases h
    · split at h
      · cases h
      · dsimp only at h
        rw [Database.turn?_updateSession, hnone] at h
        obtain ⟨turns, hturns, rfl⟩ := Option.map_eq_some_iff.mp h
        exact (KeyedTable.get?_insert? hturns k).trans ((if_neg hne).trans ht)

/-- Only the result transaction of a handler ends an execution. -/
theorem InputHandler.step_keepsExecuting {pid v : ℕ} {w w' : World} {p : InputHandler}
    {q : Option InputHandler} {a : InputAction} (hok : p.OkAt pid v w)
    (h : p.step pid w a = some (w', q)) (ha : a ≠ .record) : KeepsExecuting w w' := by
  cases step_effect h with
  | markUncertain => exact .updateTurn fun t _ _ ↦ ⟨⟨rfl, rfl, rfl⟩, .inr rfl⟩
  | markAborted =>
      refine .updateTurn fun t _ hs ↦ ?_
      have hne : ¬ (some TurnStatus.queued).all (· = t.status) = true := by
        rcases hs with hs | hs <;> simp [hs]
      rw [if_neg hne]
      exact ⟨.refl t, hs⟩
  | mark hstage =>
      have hst := hok.stage
      rw [hstage] at hst
      obtain ⟨-, -, t, ht, hcompleted⟩ := hst
      refine .updateTurn fun u hu hs ↦ ?_
      cases ht.symm.trans hu
      rcases hs with hs | hs <;> rw [hcompleted] at hs <;> cases hs
  | persistIntent hstage hdb => exact admitTurn_keepsExecuting hdb
  | record hstage => exact absurd rfl ha
  | _ => exact .of_turn? fun _ ↦ rfl

/-! ## The steps that concern tokens -/

namespace TokenInv

variable {w w' : World}

/-- A subprocess starts or ends. -/
theorem note (h : TokenInv w) {e : Event} (hrestart : ∀ sid r, e ≠ .restarted sid r)
    (hfed : ∀ sid v, e.feedsChain sid v = true →
      (∃ c, w.db.core? sid = some c ∧ (c.LiveAt v ∨ c.LeftAt v)) ∧
      ∃ key t, w.db.turn? key = some t ∧ t.sessionId = sid ∧ t.lifecycleVersion = v ∧
        t.status = .executing)
    (hstarted : ∀ pid sid v key token, e = .started pid sid v key token →
      (ChainStarted sid v w.log ∧ token = chainToken sid v w.log) ∧
        Fenced w.log pid sid v key token) : TokenInv (w.emit e) := by
  refine ⟨fun sid c v hc hlive ↦ ?_, fun sid c v hc hlive ↦
      (h.born sid c v hc hlive).append [e], fun e' he' sid v hf ↦ ?_,
    fun newer older pid sid v key token hsplit ↦ ?_, fun sid r he' ↦ ?_,
    fun newer older pid sid v key token hsplit ↦ ?_⟩
  · cases hf : e.feedsChain sid v with
    | true =>
        obtain ⟨-, key, t, ht, hsid, hv, hs⟩ := hfed sid v hf
        exact .inr ⟨key, t, ht, hsid, hv, .inl hs⟩
    | false =>
        rw [World.log_emit, chainToken_cons_of_not hf]
        exact h.settled sid c v hc hlive
  · rcases List.mem_cons.mp he' with rfl | he'
    · exact (hfed sid v hf).1
    · exact h.fed e' he' sid v hf
  · rcases List.cons_eq_append_iff.mp hsplit with ⟨-, he⟩ | ⟨newer', -, hlog⟩
    · obtain ⟨rfl, rfl⟩ := List.cons_eq_cons.mp he
      exact (hstarted pid sid v key token rfl).1
    · exact h.chained newer' older pid sid v key token hlog
  · rcases List.mem_cons.mp he' with he' | he'
    · exact absurd he'.symm (hrestart sid r)
    · exact h.restarted sid r he'
  · rcases List.cons_eq_append_iff.mp hsplit with ⟨-, he⟩ | ⟨newer', -, hlog⟩
    · obtain ⟨rfl, rfl⟩ := List.cons_eq_cons.mp he
      exact (hstarted pid sid v key token rfl).2
    · exact h.fenced newer' older pid sid v key token hlog

/-- A session comes to life with a token that no restart forbids. -/
theorem revives (h : TokenInv w) (hadv : Advance w w') (hturns : KeepsExecuting w w')
    {sid : SessionId} {c c' : SessionCore} (hrev : Revives sid c c' w w')
    (htoken : ∀ r, .restarted sid r ∈ w.log → ∀ t, c'.token = some t → t.isSince sid r) :
    TokenInv w' := by
  have hquiet : ∀ e ∈ w.log, e.feedsChain sid c.version = false := by
    intro e he
    rw [Bool.eq_false_iff]
    intro hf
    obtain ⟨d, hd, hl⟩ := h.fed e he sid c.version hf
    cases hrev.before.symm.trans hd
    exact SessionCore.not_linked_of_starting hrev.status hl
  have hother : ∀ s v, s ≠ sid ∨ v ≠ c.version →
      (Event.becameRunning sid c.version c'.token).feedsChain s v = false := by
    intro s v hne
    refine decide_eq_false ?_
    rintro ⟨rfl, rfl⟩
    rcases hne with hne | hne <;> exact hne rfl
  have hsplit' : ∀ {newer older : List Event} {pid sid' v key token},
      w'.log = newer ++ .started pid sid' v key token :: older →
        ∃ newer', w.log = newer' ++ .started pid sid' v key token :: older := by
    intro newer older pid sid' v key token hsplit
    rw [hrev.log] at hsplit
    refine split_of_append (l := [_]) hsplit fun he ↦ ?_
    cases List.mem_singleton.mp he
  refine ⟨fun s d v hd hlive ↦ ?_, fun s d v hd hlive ↦ ?_, fun e he s v hf ↦ ?_,
    fun newer older pid s v key token hsplit ↦ ?_, fun s r he ↦ ?_,
    fun newer older pid s v key token hsplit ↦ ?_⟩
  · by_cases hs : s = sid
    · subst hs
      cases hrev.after.symm.trans hd
      obtain rfl := hrev.live.1.symm.trans hlive.1
      left
      rw [hrev.log, chainToken_becameRunning hquiet]
    · rw [hrev.others s hs] at hd
      refine h.settled_ordinary hturns hd hlive ?_
      rw [hrev.log, chainToken_cons_of_not (hother s v (.inl hs))]
  · rw [hrev.log]
    by_cases hs : s = sid
    · subst hs
      cases hrev.after.symm.trans hd
      obtain rfl := hrev.live.1.symm.trans hlive.1
      exact ⟨c'.token, List.mem_cons_self⟩
    · rw [hrev.others s hs] at hd
      exact (h.born s d v hd hlive).append [_]
  · rw [hrev.log, List.mem_cons] at he
    rcases he with rfl | he
    · obtain ⟨rfl, rfl⟩ := of_decide_eq_true hf
      exact ⟨c', hrev.after, .inl hrev.live⟩
    · exact h.fed_advance hadv he hf
  · obtain ⟨newer', hlog⟩ := hsplit' hsplit
    exact h.chained newer' older pid s v key token hlog
  · rw [hrev.log, List.mem_cons] at he
    rcases he with he | he
    · cases he
    · by_cases hs : s = sid
      · subst hs
        obtain ⟨d, hd, hr, -, -⟩ := h.restarted s r he
        cases hrev.before.symm.trans hd
        refine ⟨c', hrev.after, hr.trans hrev.live.1.ge, fun hcreating ↦ ?_, htoken r he⟩
        have hlive := hrev.live.2
        rw [hcreating] at hlive
        cases hlive
      · rw [hrev.others s hs]
        exact h.restarted s r he
  · obtain ⟨newer', hlog⟩ := hsplit' hsplit
    exact h.fenced newer' older pid s v key token hlog

end TokenInv

/-- What the result transaction does to the sessions. -/
theorem recordResult_core? (p : InputJobPayload) (v : ℕ) (reply : PyStr) (token : Option Token)
    (db : Database) (sid : SessionId) : (recordResult p v reply token db).core? sid =
      (db.core? sid).map fun c ↦ if sid = p.sessionId ∧ c.LiveAt v then
        { c with token := token <|> c.token } else c := by
  rw [recordResult, Database.core?, Database.session?_updateSession, Database.session?_updateTurn,
    Database.core?]
  cases hr : db.session? sid with
  | none => split <;> rfl
  | some r =>
      by_cases hs : sid = p.sessionId
      · rw [if_pos hs]
        by_cases hlive : r.lifecycleVersion = v ∧ r.status.isLive = true
        · have hcore : r.core.LiveAt v := hlive
          simp only [Option.map_some, if_pos hlive, hs, hcore, true_and, if_true]
          rfl
        · have hcore : ¬ r.core.LiveAt v := hlive
          simp only [Option.map_some, if_neg hlive, hcore, and_false, if_false]
      · rw [if_neg hs]
        simp only [Option.map_some, hs, false_and, if_false]

/-- The result transaction stores the token of the chain. -/
theorem TokenInv.recordResult {pid v : ℕ} {w : World} {p : InputHandler} {reply : PyStr}
    {token : Option Token} (h : TokenInv w) (hok : p.OkAt pid v w) (htok : p.TokenOk pid w)
    (hstage : p.stage = .executed v reply token) :
    TokenInv (w.setDb (Discode.recordResult p.payload v reply token w.db)) := by
  unfold InputHandler.TokenOk at htok
  rw [hstage] at htok
  obtain ⟨hchain, horigin⟩ := htok
  obtain ⟨t₀, ht₀, hsid₀, hv₀⟩ := hok.job.turn
  refine ⟨fun sid c' v' hc' hlive ↦ ?_, fun sid c' v' hc' hlive ↦ ?_, fun e he sid v' hf ↦ ?_,
    h.chained, fun sid r he ↦ ?_, h.fenced⟩
  · rw [World.db_setDb, recordResult_core?] at hc'
    obtain ⟨c, hc, he⟩ := Option.map_eq_some_iff.mp hc'
    split at he
    · rename_i hown
      obtain ⟨rfl, hl⟩ := hown
      subst he
      obtain rfl : v = v' := hl.1.symm.trans hlive.1
      exact .inl (hchain c hc hl)
    · rename_i hnot
      subst he
      rcases h.settled sid c v' hc hlive with htoken | ⟨key, t, ht, hsid, hv, hs⟩
      · exact .inl htoken
      · -- The turn that is being executed is not the handler's.
        have hne : key ≠ p.payload.idempotencyKey := by
          rintro rfl
          cases ht₀.symm.trans ht
          obtain rfl : v = v' := hv₀.symm.trans hv
          exact hnot ⟨hsid.symm.trans hsid₀, hlive⟩
        refine .inr ⟨key, t, ?_, hsid, hv, hs⟩
        rw [World.db_setDb, Discode.recordResult, Database.turn?_updateSession,
          Database.turn?_updateTurn, if_neg hne, ht]
  · rw [World.db_setDb, recordResult_core?] at hc'
    obtain ⟨c, hc, rfl⟩ := Option.map_eq_some_iff.mp hc'
    refine h.born sid c v' hc ?_
    split at hlive <;> exact hlive
  · obtain ⟨c, hc, hl⟩ := h.fed e he sid v' hf
    rw [World.db_setDb, recordResult_core?, hc]
    refine ⟨_, rfl, ?_⟩
    dsimp only
    split <;> exact hl
  · obtain ⟨c, hc, hr, hs, htoken⟩ := h.restarted sid r he
    rw [World.db_setDb, recordResult_core?, hc]
    refine ⟨_, rfl, ?_⟩
    dsimp only
    split
    · rename_i hown
      refine ⟨hr, hs, fun t ht ↦ ?_⟩
      cases token with
      | none => exact htoken t ht
      | some t' =>
          obtain rfl : t' = t := Option.some.inj ht
          unfold Token.isSince
          rw [horigin t' rfl]
          exact ⟨hown.1.symm, hr.trans hown.2.1.le⟩
    · exact ⟨hr, hs, htoken⟩

/-! ## The next assertion of a handler -/

/-- A turn that is queued and next in line finds no other one being executed. -/
theorem not_executing_of_queued {w : World} (hinv : TurnInv w) {key key' : Key}
    {t t' : InputTurn} (ht : w.db.turn? key = some t) (hq : t.status = .queued)
    (hdone : EarlierDone w.db t) (ht' : w.db.turn? key' = some t')
    (hsid : t'.sessionId = t.sessionId) (hv : t'.lifecycleVersion = t.lifecycleVersion) :
    ¬ (t'.status = .executing ∨ t'.status = .uncertain) := by
  intro hs
  rcases Nat.lt_trichotomy t'.sequence t.sequence with hlt | heq | hgt
  · have hterm := hdone key' t' ht' hsid hv hlt
    rcases hs with hs | hs <;> rw [hs] at hterm <;> cases hterm
  · obtain rfl := hinv.unique _ _ _ _ ht' ht heq
    cases ht.symm.trans ht'
    rcases hs with hs | hs <;> rw [hq] at hs <;> cases hs
  · have hterm := hinv.ordered key t key' t' ht ht' hsid.symm hv.symm hgt fun hq' ↦ by
      rcases hs with hs | hs <;> rw [hq'] at hs <;> cases hs
    rw [hq] at hterm
    cases hterm

/-- The stages a handler may go on with once it knows its turn. -/
theorem resolve_cases (p : InputJobPayload) (row : SessionRow) (turn : Option InputTurn)
    (earliest : Option Key) : p.resolve row turn earliest = .revalidate row ∨
      (∃ outcome, p.resolve row turn earliest = .leaving outcome) ∨
      (∃ version, p.resolve row turn earliest = .interrupted version) ∨
      ∃ version reply, p.resolve row turn earliest = .deliver version reply := by
  unfold InputJobPayload.resolve
  split
  · exact .inr (.inl ⟨_, rfl⟩)
  · cases turn with
    | none => exact .inl rfl
    | some t =>
        dsimp only
        split
        · exact .inr (.inl ⟨_, rfl⟩)
        · cases t.status with
          | queued => exact .inl rfl
          | executing => exact .inr (.inr (.inl ⟨_, rfl⟩))
          | uncertain => exact .inr (.inr (.inl ⟨_, rfl⟩))
          | completed => exact .inr (.inr (.inr ⟨_, _, rfl⟩))
          | _ => exact .inr (.inl ⟨_, rfl⟩)

/-- The token a handler read is the chain's when its intent transaction commits. -/
theorem InputHandler.persistIntent_tokenOk {pid v : ℕ} {w : World} {p : InputHandler}
    {row : SessionRow} {db : Database} (hinv : TurnInv w) (h : TokenInv w) (hok : p.OkAt pid v w)
    (htok : p.TokenOk pid w) (hstage : p.stage = .persistIntent row)
    (hdb : admitTurn p.payload row.lifecycleVersion w.db = some db) :
    (p.at_ (.admitted row)).TokenOk pid ((w.setDb db).emit
      (.admitted pid p.session row.lifecycleVersion p.key)) := by
  unfold TokenOk at htok ⊢
  rw [hstage] at htok
  have hst := hok.stage
  rw [hstage] at hst
  obtain ⟨rfl, t, ht, hq, hdone⟩ := hst
  obtain ⟨t₀, ht₀, hsid, hv⟩ := hok.job.turn
  cases ht.symm.trans ht₀
  obtain ⟨c, hc, hlive⟩ := admitTurn_live hdb
  have hrow : c.token = row.toolResumeToken := htok c hc hlive
  have hchain : c.token = chainToken p.session row.lifecycleVersion w.log := by
    rcases h.settled _ c _ hc hlive with hchain | ⟨key, u, hu, husid, huv, hus⟩
    · exact hchain
    · exact absurd hus (not_executing_of_queued hinv ht hq hdone hu (husid.trans hsid.symm)
        (huv.trans hv.symm))
  refine ⟨fun c' hc' hlive' ↦ ?_, (h.born _ c _ hc hlive).append [_], hrow.symm.trans hchain,
    fun newer older r t' hsplit ht' ↦ ?_⟩
  · have hstep := (admitTurn_core hdb p.session).1
    rw [show db.core? p.session = some c' from hc'] at hstep
    obtain ⟨d, hd, -, htoken⟩ := hstep.live_of_ordinary (fun w hw ↦ by rw [hw]; rfl) hlive'
    cases hc.symm.trans hd
    exact htoken.trans hrow
  · rcases List.cons_eq_append_iff.mp hsplit with ⟨-, he⟩ | ⟨newer', -, hlog⟩
    · cases (List.cons_eq_cons.mp he).1
    · obtain ⟨d, hd, -, -, hsince⟩ := h.restarted p.session r (by
        rw [show w.log = newer' ++ _ from hlog]
        exact List.mem_append_right _ List.mem_cons_self)
      cases hc.symm.trans hd
      exact .inr (hsince t' (hrow.trans ht'))

namespace InputHandler

section Steps

variable {pid : ℕ} {w w' : World} {p r : InputHandler}

/-- The token that is read is that of the row. -/
theorem readSession_tokenOk (hs : p.step pid w .readSession = some (w', some r)) :
    r.TokenOk pid w' := by
  simp only [step] at hs
  split at hs
  · split at hs
    · cases hs
      trivial
    · rename_i row hrow
      cases hs
      intro c hc _
      have hread : w.db.core? p.session = some row.core := by
        rw [Database.core?, (Option.filter_eq_some_iff.mp hrow).1]
        rfl
      cases hread.symm.trans hc
      rfl
  · cases hs

theorem readEarliest_tokenOk (htok : p.TokenOk pid w)
    (hs : p.step pid w .readEarliest = some (w', some r)) : r.TokenOk pid w' := by
  simp only [step] at hs
  split at hs <;> cases hs
  rename_i row turn hstage
  unfold TokenOk at htok
  rw [hstage] at htok
  unfold TokenOk at_
  rcases resolve_cases p.payload row turn (w.db.earliestUnfinished p.session
    row.lifecycleVersion) with he | ⟨_, he⟩ | ⟨_, he⟩ | ⟨_, _, he⟩ <;> rw [he]
  · exact htok
  all_goals trivial

theorem revalidate_tokenOk {denied : Bool} (htok : p.TokenOk pid w)
    (hs : p.step pid w (.revalidate denied) = some (w', some r)) : r.TokenOk pid w' := by
  simp only [step] at hs
  split at hs <;> cases hs
  rename_i row hstage
  unfold TokenOk at htok
  rw [hstage] at htok
  cases denied with
  | true => trivial
  | false => exact htok

/-- The subprocess starts with the token of the chain, and leaves the chain as it is. -/
theorem start_tokenOk (htok : p.TokenOk pid w) (hs : p.step pid w .start = some (w', some r)) :
    r.TokenOk pid w' := by
  simp only [step] at hs
  split at hs <;> cases hs
  rename_i row hstage
  unfold TokenOk at htok
  rw [hstage] at htok
  refine ⟨htok.1, ?_⟩
  rw [World.log_emit, chainToken_cons_of_not rfl]
  exact htok.2.2.1

theorem failToStart_tokenOk {reply : PyStr} (htok : p.TokenOk pid w)
    (hs : p.step pid w (.failToStart reply) = some (w', some r)) : r.TokenOk pid w' := by
  simp only [step] at hs
  split at hs <;> cases hs
  rename_i row hstage
  unfold TokenOk at htok
  rw [hstage] at htok
  exact ⟨fun c hc hlive ↦ (htok.1 c hc hlive).trans htok.2.2.1, fun t ht ↦ (by cases ht)⟩

/-- The token that the tool printed is the next one of the chain. -/
theorem finish_tokenOk {reply : PyStr} {token : Option PyStr} (htok : p.TokenOk pid w)
    (hs : p.step pid w (.finish reply token) = some (w', some r)) : r.TokenOk pid w' := by
  simp only [step] at hs
  split at hs <;> cases hs
  rename_i row hstage
  unfold TokenOk at htok
  rw [hstage] at htok
  refine ⟨fun c hc hlive ↦ ?_, fun t ht ↦ ?_⟩
  · rw [htok.1 c hc hlive, htok.2]
    exact (chainToken_finished ..).symm
  · obtain ⟨value, -, rfl⟩ := Option.map_eq_some_iff.mp ht
    rfl

end Steps

/-- Each step of a handler leads from what it knows about its token to what it knows next. -/
theorem step_tokenOk {pid v : ℕ} {w w' : World} {p r : InputHandler} {a : InputAction}
    (hinv : TurnInv w) (h : TokenInv w) (hok : p.OkAt pid v w) (htok : p.TokenOk pid w)
    (hs : p.step pid w a = some (w', some r)) : r.TokenOk pid w' := by
  cases a with
  | lock collision =>
      simp only [step] at hs
      split at hs
      · split at hs <;> cases hs <;> trivial
      · cases hs
  | readSession => exact readSession_tokenOk hs
  | readTurn =>
      simp only [step] at hs
      split at hs <;> cases hs
      rename_i row hstage
      unfold TokenOk at htok
      rw [hstage] at htok
      exact htok
  | readEarliest => exact readEarliest_tokenOk htok hs
  | revalidate denied => exact revalidate_tokenOk htok hs
  | persistIntent =>
      simp only [step] at hs
      split at hs
      · rename_i row hstage
        split at hs
        · cases hs
          trivial
        · rename_i db hdb
          cases hs
          exact persistIntent_tokenOk hinv h hok htok hstage hdb
      · cases hs
  | start => exact start_tokenOk htok hs
  | failToStart reply => exact failToStart_tokenOk htok hs
  | finish reply token => exact finish_tokenOk htok hs
  | post =>
      obtain ⟨⟨version, replyKey, text, stage⟩, hposting, he⟩ := Option.map_eq_some_iff.mp hs
      cases he
      unfold posting at hposting
      split at hposting <;> cases hposting <;> trivial
  | respond response =>
      obtain ⟨stage, hstage, he⟩ := Option.map_eq_some_iff.mp hs
      cases he
      unfold onRespond at hstage
      split at hstage <;> (try split at hstage) <;> cases hstage <;> trivial
  | acknowledge =>
      simp only [step] at hs
      split at hs <;> cases hs
  | _ =>
      simp only [step] at hs
      split at hs <;> cases hs
      trivial

end InputHandler

/-! ## The next assertion of a resume job -/

theorem ResumeJob.step_tokenOk {pid : ℕ} {w w' : World} {p r : ResumeJob}
    {a : ResumeJobAction} (htok : p.TokenOk w) (hs : p.step pid w a = some (w', some r)) :
    r.TokenOk w' := by
  unfold TokenOk at htok
  cases a with
  | check =>
      simp only [step] at hs
      split at hs
      · split at hs
        · cases hs
        · split at hs <;> cases hs
          trivial
      · cases hs
  | lock collision =>
      simp only [step] at hs
      split at hs
      · split at hs <;> cases hs
        trivial
      · cases hs
  | read =>
      simp only [step] at hs
      split at hs
      · split at hs
        · cases hs
        · rename_i row hrow
          split at hs <;> cases hs
          exact ⟨row.core, by rw [Database.core?, hrow]; rfl, le_rfl, fun _ _ ↦ rfl⟩
      · cases hs
  | revalidate denied =>
      simp only [step] at hs
      split at hs <;> cases hs
      rename_i row hstage
      rw [hstage] at htok
      unfold TokenOk
      cases denied with
      | true => exact htok
      | false =>
          simp only [Bool.false_eq_true, if_false]
          cases htoken : row.toolResumeToken with
          | none => exact htok
          | some t => exact ⟨htok, .inl htoken.symm⟩
  | mint minted =>
      simp only [step] at hs
      split at hs <;> cases hs
      rename_i row hstage
      rw [hstage] at htok
      refine ⟨htok, .inr fun t ht ↦ ?_⟩
      obtain ⟨value, -, rfl⟩ := Option.map_eq_some_iff.mp ht
      rfl
  | commitFails applied =>
      simp only [step] at hs
      split at hs <;> cases hs
      trivial
  | _ =>
      simp only [step] at hs
      split at hs <;> cases hs

/-! ## The proof of the system -/

theorem Event.EmittedBy.concernsTokens {pid : ℕ} {p : Process} {w : World} {e : Event}
    (he : e.EmittedBy pid p w) (hinput : ∀ h, p ≠ .input h) (hcreate : ∀ j, p ≠ .createJob j)
    (hresume : ∀ j, p ≠ .resumeJob j) : e.concernsTokens = false := by
  cases e with
  | becameRunning sid v token =>
      rcases he with ⟨j, _, _, rfl, -⟩ | ⟨j, _, _, rfl, -⟩
      · exact absurd rfl (hcreate j)
      · exact absurd rfl (hresume j)
  | started q sid v key token =>
      obtain ⟨-, h, _, rfl, -⟩ := he
      exact absurd rfl (hinput h)
  | finished q sid v key token =>
      obtain ⟨-, h, _, rfl, -⟩ := he
      exact absurd rfl (hinput h)
  | restarted sid r => exact he.elim
  | _ => rfl

/-- The steps of a handler that neither start nor end a subprocess. -/
theorem InputHandler.step_log {pid : ℕ} {w w' : World} {p : InputHandler}
    {q : Option InputHandler} {a : InputAction} (h : p.step pid w a = some (w', q))
    (hstart : a ≠ .start) (hfinish : ∀ reply token, a ≠ .finish reply token) :
    ∃ new, w'.log = new ++ w.log ∧ ∀ e ∈ new, e.concernsTokens = false := by
  have hone : ∀ e, e.concernsTokens = false → ∃ new,
      e :: w.log = new ++ w.log ∧ ∀ e ∈ new, e.concernsTokens = false := fun e he ↦
    ⟨[e], rfl, fun e' he' ↦ by rw [List.mem_singleton.mp he', he]⟩
  cases step_effect h with
  | start => exact absurd rfl hstart
  | finish _ reply token => exact absurd rfl (hfinish reply token)
  | persistIntent => exact hone _ rfl
  | record => exact hone _ rfl
  | post => exact hone _ rfl
  | _ => exact ⟨[], rfl, fun _ he ↦ nomatch he⟩

theorem InputHandler.step_tokenInv {pid v : ℕ} {w w' : World} {p : InputHandler}
    {q : Option InputHandler} {a : InputAction} (hinv : TurnInv w) (h : TokenInv w)
    (hok : p.OkAt pid v w) (htok : p.TokenOk pid w) (hs : p.step pid w a = some (w', q)) :
    TokenInv w' := by
  have hst := hok.stage
  cases a with
  | start =>
      simp only [step] at hs
      split at hs <;> cases hs
      rename_i row hstage
      unfold TokenOk at htok
      rw [hstage] at htok
      refine h.note (fun _ _ he ↦ by cases he) (fun _ _ hf ↦ by cases hf) fun _ _ _ _ _ he ↦ ?_
      cases he
      exact ⟨⟨htok.2.1, htok.2.2.1⟩, htok.2.2.2⟩
  | finish reply token =>
      simp only [step] at hs
      split at hs <;> cases hs
      rename_i row hstage
      rw [hstage] at hst
      obtain ⟨rfl, t, ht, hexecuting, -⟩ := hst
      obtain ⟨t₀, ht₀, hsid, hv⟩ := hok.job.turn
      cases ht.symm.trans ht₀
      refine h.note (fun _ _ he ↦ by cases he) (fun sid v hf ↦ ?_) fun _ _ _ _ _ he ↦ by cases he
      obtain ⟨rfl, rfl⟩ := of_decide_eq_true hf
      exact ⟨hok.job.linked hinv, p.key, t, ht, hsid, hv, hexecuting⟩
  | record =>
      simp only [step] at hs
      split at hs
      · rename_i version reply token hstage
        cases hs
        rw [hstage] at hst
        obtain rfl := hst.1
        exact (h.recordResult hok htok hstage).note (fun _ _ he ↦ by cases he)
          (fun _ _ hf ↦ by cases hf) fun _ _ _ _ _ he ↦ by cases he
      · cases hs
  | _ =>
      obtain ⟨new, hnew, hevents⟩ := step_log hs (fun he ↦ by cases he) fun _ _ he ↦ by cases he
      exact h.ordinary (step_ok hinv hok hs).advance
        (fun sid ↦ (step_core hs sid).2 fun he ↦ by cases he)
        (step_keepsExecuting hok hs fun he ↦ by cases he) hnew fun e he ↦ .inl (hevents e he)

/-- A resume job brings its session to life with the token it holds or with a new one. -/
theorem ResumeJob.revives_token {w w' : World} {p : ResumeJob} {c c' : SessionCore}
    {row : SessionRow} (htok : p.TokenOk w) (hrev : Revives p.payload.sessionId c c' w w')
    (hstage : p.stage = .commit row c'.token) (hs : c.status = .resuming)
    (hv : c.version = row.lifecycleVersion) :
    c'.token = c.token ∨ ∀ t, c'.token = some t → t.origin = .minted p.payload.sessionId := by
  unfold TokenOk at htok
  rw [hstage] at htok
  obtain ⟨⟨d, hd, -, htoken⟩, hown⟩ := htok
  cases hrev.before.symm.trans hd
  rcases hown with hown | hminted
  · exact .inl (hown.trans (htoken hv hs).symm)
  · exact .inr hminted

theorem ResumeJob.revives_isSince {w w' : World} {p : ResumeJob} {c c' : SessionCore}
    {row : SessionRow} (h : TokenInv w) (htok : p.TokenOk w)
    (hrev : Revives p.payload.sessionId c c' w w') (hstage : p.stage = .commit row c'.token)
    (hs : c.status = .resuming) (hv : c.version = row.lifecycleVersion) (r : ℕ)
    (he : .restarted p.payload.sessionId r ∈ w.log) (t : Token) (ht : c'.token = some t) :
    t.isSince p.payload.sessionId r := by
  rcases ResumeJob.revives_token htok hrev hstage hs hv with hown | hminted
  · obtain ⟨d, hd, -, -, hsince⟩ := h.restarted _ r he
    cases hrev.before.symm.trans hd
    exact hsince t (hown.symm.trans ht)
  · unfold Token.isSince
    rw [hminted t ht]

theorem execStep_tokenInv {pid : ℕ} {w w' : World} {p : Process} {a : ExecAction}
    {q : Option Process} (hinv : TurnInv w) (h : TokenInv w) (hok : p.Ok pid w)
    (htok : p.TokenOk pid w) (hs : execStep pid w p a = some (w', q)) : TokenInv w' := by
  have hstep := execStep_ok hinv hok hs
  have hquiet : (∀ g, p ≠ .input g) → (∀ j, p ≠ .createJob j) → (∀ j, p ≠ .resumeJob j) →
      (∀ sid, CoreStep Ordinary (w.db.core? sid) (w'.db.core? sid)) → TokenInv w' := by
    intro hinput hcreate hresume hcore
    obtain ⟨new, hnew, -, hemit⟩ := execStep_emits hs
    refine h.ordinary hstep.advance hcore (.of_rely fun sid ↦ hstep.rely sid ?_) hnew
      fun e he ↦ .inl ((hemit e he).concernsTokens hinput hcreate hresume)
    cases p with
    | input g => exact absurd rfl (hinput g)
    | _ => exact id
  cases execStep_cases hs with
  | crash p =>
      exact h.ordinary hstep.advance (fun _ ↦ .same _) (.of_turn? fun _ ↦ rfl) (l := []) rfl
        fun _ he ↦ nomatch he
  | createJob hjob =>
      have hturns : KeepsExecuting w w' := .of_rely fun sid ↦ hstep.rely sid id
      rcases CreateJob.step_revives hjob with ⟨hcore, hlog⟩ | ⟨c, c', token, hrev, hcreating, -⟩
      · exact h.ordinary hstep.advance hcore hturns (l := []) hlog fun _ he ↦ nomatch he
      · refine h.revives hstep.advance hturns hrev fun r he ↦ ?_
        obtain ⟨d, hd, -, hnot, -⟩ := h.restarted _ r he
        cases hrev.before.symm.trans hd
        exact absurd hcreating hnot
  | resumeJob hjob =>
      have hturns : KeepsExecuting w w' := .of_rely fun sid ↦ hstep.rely sid id
      rcases ResumeJob.step_revives hjob with
        ⟨hcore, hlog⟩ | ⟨c, c', row, hrev, hstage, hresuming, hv, -⟩
      · exact h.ordinary hstep.advance hcore hturns (l := []) hlog fun _ he ↦ nomatch he
      · exact h.revives hstep.advance hturns hrev
          (ResumeJob.revives_isSince h htok hrev hstage hresuming hv)
  | input hinput =>
      obtain ⟨v, hok⟩ := hok
      exact InputHandler.step_tokenInv hinv h hok htok hinput
  | createSaga hsaga =>
      exact hquiet (fun _ he ↦ nomatch he) (fun _ he ↦ nomatch he) (fun _ he ↦ nomatch he)
        (CreateSaga.step_tx hsaga).quiet.core
  | recovery hrec =>
      exact hquiet (fun _ he ↦ nomatch he) (fun _ he ↦ nomatch he) (fun _ he ↦ nomatch he)
        (Recovery.step_tx hrec).quiet.core
  | release =>
      exact hquiet (fun _ he ↦ nomatch he) (fun _ he ↦ nomatch he) (fun _ he ↦ nomatch he)
        fun _ ↦ .same _
  | sweep p =>
      refine hquiet (fun _ he ↦ nomatch he) (fun _ he ↦ nomatch he) (fun _ he ↦ nomatch he) ?_
      cases hk : p.kind with
      | turnResults batch =>
          unfold Sweep.step
          rw [hk]
          exact fun _ ↦ .same _
      | _ => exact (p.step_quiet w fun batch ↦ by simp [hk]).core
  | drift hdrift =>
      exact hquiet (fun _ he ↦ nomatch he) (fun _ he ↦ nomatch he) (fun _ he ↦ nomatch he)
        (DriftSweep.step_tx hdrift).quiet.core
  | relay hrelay =>
      exact hquiet (fun _ he ↦ nomatch he) (fun _ he ↦ nomatch he) (fun _ he ↦ nomatch he)
        (RelayBatch.step_quiet hok hrelay).core
  | trim htrim =>
      exact hquiet (fun _ he ↦ nomatch he) (fun _ he ↦ nomatch he) (fun _ he ↦ nomatch he)
        (TrimCall.step_quiet htrim).core
  | reply hreply =>
      exact hquiet (fun _ he ↦ nomatch he) (fun _ he ↦ nomatch he) (fun _ he ↦ nomatch he)
        (replyStep_tx hreply).quiet.core

theorem execStep_tokenOk {pid : ℕ} {w w' : World} {p r : Process} {a : ExecAction}
    (hinv : TurnInv w) (h : TokenInv w) (hok : p.Ok pid w) (htok : p.TokenOk pid w)
    (hs : execStep pid w p a = some (w', some r)) : r.TokenOk pid w' := by
  generalize hq : some r = q at hs
  cases execStep_cases hs with
  | crash | sweep => cases hq
  | release =>
      cases hq
      trivial
  | resumeJob hjob =>
      obtain ⟨r', rfl, rfl⟩ := Option.map_eq_some_iff.mp hq.symm
      exact ResumeJob.step_tokenOk htok hjob
  | input hinput =>
      obtain ⟨r', rfl, rfl⟩ := Option.map_eq_some_iff.mp hq.symm
      obtain ⟨v, hok⟩ := hok
      exact InputHandler.step_tokenOk hinv h hok htok hinput
  | reply hreply =>
      obtain ⟨⟨s, next⟩, -, he⟩ := Option.map_eq_some_iff.mp hreply
      cases he
      cases hq
      trivial
  | _ =>
      obtain ⟨r', -, rfl⟩ := Option.map_eq_some_iff.mp hq.symm
      trivial

/-- A restart reports the version it moved the session to. -/
theorem runRestartSaga_core {sid : SessionId} {guildId : GuildId} {db db' : Database}
    (h : runRestartSaga sid guildId db = .ok db') {row : SessionRow}
    (hrow : db.session? sid = some row) : ∃ c, db'.core? sid = some c ∧
      row.lifecycleVersion + 1 ≤ c.version ∧ c.status ≠ .creating ∧ c.token = none := by
  unfold runRestartSaga at h
  rw [hrow] at h
  dsimp only at h
  split at h
  · cases h
  · split at h <;> cases h
    rw [Database.core?, Database.session?_writeOutbox, Database.session?_updateSession,
      if_pos rfl, hrow]
    exact ⟨_, rfl, le_rfl, (fun hs ↦ by cases hs), rfl⟩

theorem envStep_tokenInv {w w' : World} {e : EnvAction} (h : TokenInv w)
    (hadv : Advance w w') (hs : envStep w e = some w') : TokenInv w' := by
  refine (envStep_log hs).elim (fun hlog ↦ ?_) ?_
  · exact h.ordinary hadv (envStep_core hs) (.of_rely (envStep_rely hs)) (l := []) hlog
      fun _ he ↦ nomatch he
  · rintro ⟨sid, guildId, row, db, rfl, hrow, hdb, rfl⟩
    refine h.ordinary hadv (envStep_core hs) (.of_rely (envStep_rely hs)) (l := [_]) rfl
      fun e he ↦ .inr ?_
    obtain ⟨c, hc, hv, hstatus, htoken⟩ := runRestartSaga_core hdb hrow
    exact ⟨sid, row.lifecycleVersion + 1, c, List.mem_singleton.mp he, hc, hv, hstatus, htoken⟩

theorem spawnStep_tokenOk {pid : ℕ} {w w' : World} {n : SpawnAction} {p : Process}
    (h : spawnStep pid w n = some (w', p)) : p.TokenOk pid w := by
  cases (spawnStep_cases h).2 <;> trivial

theorem token_proof : system.Proof (fun _ _ ↦ True) (fun w ↦ TurnInv w ∧ TokenInv w)
    (fun pid p w ↦ p.Ok pid w ∧ p.TokenOk pid w) := by
  refine system_proof.and (fun σ e s h htoken _ hs ↦ ?_) (fun σ n s p h htoken _ hs ↦ ?_)
    (fun σ pid p a s p' h htoken _ hp hok htok hs ↦ ?_)
  · have hadv := (envStep_rely hs 0).toAdvance
    exact ⟨envStep_tokenInv htoken hadv hs, fun pid p hok htok ↦
      htok.frame hok h.inv hadv fun sid _ ↦ envStep_tokenFrame hs sid⟩
  · obtain rfl := system_spawn hs
    exact ⟨htoken, spawnStep_tokenOk hs, fun _ _ _ _ hr ↦ hr⟩
  · have hstep := execStep_ok h.inv hok hs
    refine ⟨execStep_tokenInv h.inv htoken hok htok hs, fun r hr ↦ ?_, fun q r hq hokr hr ↦ ?_⟩
    · subst hr
      exact execStep_tokenOk h.inv htoken hok htok hs
    · refine hr.frame hokr h.inv hstep.advance fun sid hsid ↦
        execStep_tokenFrame hok hs fun hown ↦ hq ?_
      exact Process.Ok.holder_unique hokr hsid hok hown

theorem FreshWorld.tokenInv {w : World} (h : FreshWorld w) : TokenInv w := by
  obtain ⟨settings, redactor, rfl⟩ := h
  refine ⟨(fun sid c v hc ↦ nomatch hc), (fun sid c v hc ↦ nomatch hc), (fun e he ↦ nomatch he),
    ?_, (fun sid r he ↦ nomatch he), ?_⟩
  · intro newer older pid sid v key token hsplit
    cases newer <;> cases hsplit
  · intro newer older pid sid v key token hsplit
    cases newer <;> cases hsplit

theorem tokenInv {σ : SystemState} (h : SystemReachable σ) : TokenInv σ.shared :=
  (token_proof.annotated (fun _ hw ↦ ⟨hw.turnInv, hw.tokenInv⟩) h).inv.2

/-! ## The chain -/

/-- A subprocess gets the last token parsed from a turn of its session and version, or else the
token the session held when it came to life at that version.  After a restart to version `r` the
session never holds a token parsed from a turn before `r`, and no turn whose intent transaction
commits after the restart gets one. -/
theorem resume_token_chain {σ : SystemState} (h : SystemReachable σ) :
    (∀ newer older pid sid v key token,
      σ.shared.log = newer ++ .started pid sid v key token :: older →
        (∀ t, lastParsed sid v older = some t → token = some t) ∧
        (lastParsed sid v older = none → .becameRunning sid v token ∈ older) ∧
        ∀ newer' older' r t, older = newer' ++ .restarted sid r :: older' → token = some t →
          .admitted pid sid v key ∈ older' ∨ t.isSince sid r) ∧
    ∀ sid r, .restarted sid r ∈ σ.shared.log → ∃ row, σ.shared.db.session? sid = some row ∧
      r ≤ row.lifecycleVersion ∧ ∀ t, row.toolResumeToken = some t → t.isSince sid r := by
  have hinv := tokenInv h
  refine ⟨fun newer older pid sid v key token hlog ↦ ?_, fun sid r he ↦ ?_⟩
  · obtain ⟨hstarted, rfl⟩ := hinv.chained newer older pid sid v key token hlog
    refine ⟨fun t ht ↦ ?_, hstarted.mem, hinv.fenced newer older pid sid v key _ hlog⟩
    rw [chainToken, ht]
    rfl
  · obtain ⟨c, hc, hr, -, hsince⟩ := hinv.restarted sid r he
    obtain ⟨row, hrow, rfl⟩ := Option.map_eq_some_iff.mp hc
    exact ⟨row, hrow, hr, hsince⟩

/-- The token that the first turn of session 1 printed. -/
def firstToken : Token := ⟨pyStr "t-1", .parsed 1 100 0⟩

/-- A turn that printed a token, and a second one that was admitted when the session was
restarted and starts its subprocess afterwards. -/
def overtakenRun : List SystemAction :=
  openRun 0 1 7 (pyStr "demo") 1 none none ++ inputRun 3 100 1 1 ++ admitRun 4 ++
    answerRun 4 (pyStr "done") (some (pyStr "t-1")) ++ inputRun 5 200 1 2 ++ admitRun 6 ++
    [.env (.restart 1 1), .exec 6 (.input .start)]

def overtakenState : SystemState :=
  (system.run (.start deployment) overtakenRun).get (by decide +kernel)

theorem overtakenState_reachable : SystemReachable overtakenState :=
  ProcessPool.Machine.reachable_of_run deployment_fresh (Option.some_get _).symm

theorem overtakenState_log : ∃ older, overtakenState.shared.log =
    .started 6 1 0 200 (some firstToken) :: .restarted 1 1 :: older ∧
      lastParsed 1 0 (.restarted 1 1 :: older) = some firstToken :=
  ⟨overtakenState.shared.log.tail.tail, by decide +kernel, by decide +kernel⟩

theorem resume_token_chain_overtaken : ∃ older token, overtakenState.shared.log =
    .started 6 1 0 200 token :: older ∧ lastParsed 1 0 older = some firstToken ∧
      token = some firstToken ∧ ∃ row, overtakenState.shared.db.session? 1 = some row ∧
        1 ≤ row.lifecycleVersion ∧ ∀ t, row.toolResumeToken = some t → t.isSince 1 1 := by
  obtain ⟨older, hlog, hparsed⟩ := overtakenState_log
  obtain ⟨hchain, hrestarted⟩ := resume_token_chain overtakenState_reachable
  exact ⟨_, _, hlog, hparsed, (hchain [] _ 6 1 0 200 _ hlog).1 firstToken hparsed,
    hrestarted 1 1 (by simp [hlog])⟩

/-- The subprocess of a turn that was in flight when its session was restarted may still get a
token parsed before. -/
theorem restart_overtakes_start :
    ¬ ∀ (σ : SystemState) (newer older : List Event) (pid : ℕ) (sid : SessionId) (v r : ℕ)
      (key : Key) (t : Token), SystemReachable σ →
      σ.shared.log = newer ++ .started pid sid v key (some t) :: older →
      .restarted sid r ∈ older → ∀ key' v', t.origin = .parsed sid key' v' → r ≤ v' := by
  intro hclaim
  obtain ⟨older, hlog, -⟩ := overtakenState_log
  have hle := hclaim overtakenState [] _ 6 1 0 1 200 firstToken overtakenState_reachable hlog
    List.mem_cons_self 100 0 rfl
  omega

end Discode

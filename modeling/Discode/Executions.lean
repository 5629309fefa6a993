import Discode.History

/-!
# Executions of turns

Over all runs: a turn is executed at most once and every reply to it carries the recorded
result; turns of one session and version are executed and answered in the order of their
acceptance; and no two subprocesses of one session overlap.
-/

set_option autoImplicit false

namespace Discode

/-! ## At most one execution -/

def Event.isStartOf (key : Key) : Event → Bool
  | started _ _ _ k _ => k = key
  | _ => false

def Event.isStartBy (pid : ℕ) : Event → Bool
  | started q _ _ _ _ => q = pid
  | _ => false

/-- How often the subprocess of a turn was started. -/
def startsOf (key : Key) (log : List Event) : ℕ := log.countP (Event.isStartOf key)

def startsBy (pid : ℕ) (log : List Event) : ℕ := log.countP (Event.isStartBy pid)

/-- Process `pid` executed the turn alone and recorded `text` as its result. -/
structure ResultOf (log : List Event) (key : Key) (pid : ℕ) (sid : SessionId) (text : PyStr) :
    Prop where
  recorded : .recorded pid sid key text ∈ log
  unique : ∀ q sid' text', .recorded q sid' key text' ∈ log → q = pid ∧ sid' = sid ∧ text' = text
  started : ∀ q sid' v token, .started q sid' v key token ∈ log → q = pid

theorem startsOf_turnLog (key : Key) (log : List Event) :
    startsOf key (turnLog key log) = startsOf key log := by
  rw [startsOf, startsOf, turnLog, List.countP_filter]
  congr 1
  funext e
  cases e <;> simp [Event.isStartOf, Event.onTurn]

theorem mem_turnLog {key : Key} {log : List Event} {e : Event} :
    e ∈ turnLog key log ↔ e ∈ log ∧ e.onTurn key = true :=
  List.mem_filter

theorem Executed.startsOf_le {pid : ℕ} {sid : SessionId} {v : ℕ} {key : Key} {l : List Event}
    (h : Executed pid sid v key l) : startsOf key l ≤ 1 := by
  cases h <;> simp [startsOf, Event.isStartOf]

theorem Executed.mem {pid : ℕ} {sid : SessionId} {v : ℕ} {key : Key} {l : List Event}
    (h : Executed pid sid v key l) {e : Event} (he : e ∈ l) :
    e = .admitted pid sid v key ∨ (∃ token, e = .started pid sid v key token) ∨
      ∃ token, e = .finished pid sid v key token := by
  cases h with
  | admitted => exact .inl (List.mem_singleton.mp he)
  | started token =>
      rcases List.mem_pair.mp he with rfl | rfl
      · exact .inr (.inl ⟨token, rfl⟩)
      · exact .inl rfl
  | finished token parsed =>
      rcases List.mem_cons.mp he with rfl | he
      · exact .inr (.inr ⟨parsed, rfl⟩)
      · rcases List.mem_pair.mp he with rfl | rfl
        · exact .inr (.inl ⟨token, rfl⟩)
        · exact .inl rfl

theorem Answered.startsOf_le {sid : SessionId} {v : ℕ} {key : Key} {text : PyStr} {l : List Event}
    (h : Answered sid v key text l) : startsOf key l ≤ 1 := by
  obtain ⟨pid, replies, run, hrun, rfl, hreplies⟩ := h
  have hnone : replies.countP (Event.isStartOf key) = 0 := by
    refine List.countP_eq_zero.mpr fun e he ↦ ?_
    obtain ⟨q, v', rfl⟩ := hreplies e he
    exact Bool.false_ne_true
  have hle := hrun.startsOf_le
  simp only [startsOf] at hle
  simp only [startsOf, List.countP_append, hnone, List.countP_cons, Event.isStartOf]
  simpa using hle

theorem Answered.resultOf {sid : SessionId} {v : ℕ} {key : Key} {text : PyStr}
    {log : List Event} (h : Answered sid v key text (turnLog key log)) :
    ∃ pid, ResultOf log key pid sid text := by
  obtain ⟨pid, replies, run, hrun, hsplit, hreplies⟩ := h
  have hmem : ∀ e ∈ log, e.onTurn key = true →
      e ∈ replies ∨ e = .recorded pid sid key text ∨ e ∈ run := by
    intro e he hon
    have hin := mem_turnLog.mpr ⟨he, hon⟩
    rw [hsplit, List.mem_append, List.mem_cons] at hin
    exact hin
  refine ⟨pid, ?_, fun q sid' text' hrec ↦ ?_, fun q sid' v' token hst ↦ ?_⟩
  · have hin : Event.recorded pid sid key text ∈ turnLog key log := by
      rw [hsplit]
      exact List.mem_append_right _ List.mem_cons_self
    exact (mem_turnLog.mp hin).1
  · rcases hmem _ hrec (decide_eq_true rfl) with hr | he | hr
    · obtain ⟨_, _, he⟩ := hreplies _ hr
      cases he
    · cases he
      exact ⟨rfl, rfl, rfl⟩
    · rcases hrun.mem hr with he | ⟨_, he⟩ | ⟨_, he⟩ <;> cases he
  · rcases hmem _ hst (decide_eq_true rfl) with hr | he | hr
    · obtain ⟨_, _, he⟩ := hreplies _ hr
      cases he
    · cases he
    · rcases hrun.mem hr with he | ⟨_, he⟩ | ⟨_, he⟩ <;> cases he
      rfl

/-- Replies are only posted once the result is recorded, and carry it. -/
theorem TurnInv.replied {w : World} (h : TurnInv w) {key : Key} {pid v : ℕ} {sid : SessionId}
    {text : Option PyStr} (he : .replied pid sid v (.turn key) text ∈ w.log) :
    ∃ q result, text = some result ∧ ResultOf w.log key q sid result := by
  have hin : Event.replied pid sid v (.turn key) text ∈ turnLog key w.log :=
    mem_turnLog.mpr ⟨he, decide_eq_true rfl⟩
  have hanswered : ∀ {sid' v' result}, Answered sid' v' key result (turnLog key w.log) →
      ∃ q result, text = some result ∧ ResultOf w.log key q sid result := by
    intro sid' v' result hans
    obtain ⟨q, hres⟩ := hans.resultOf
    obtain ⟨q', replies, run, hrun, hsplit, hreplies⟩ := hans
    rw [hsplit, List.mem_append, List.mem_cons] at hin
    rcases hin with hr | he | hr
    · obtain ⟨_, _, he⟩ := hreplies _ hr
      cases he
      exact ⟨q, result, rfl, hres⟩
    · cases he
    · rcases hrun.mem hr with he | ⟨_, he⟩ | ⟨_, he⟩ <;> cases he
  cases ht : w.db.turn? key with
  | none =>
      rw [h.silent key ht] at hin
      cases hin
  | some t =>
      have hhist := h.history key t ht
      unfold History at hhist
      cases hs : t.status with
      | queued => rw [hs] at hhist; rw [hhist] at hin; cases hin
      | aborted => rw [hs] at hhist; rw [hhist] at hin; cases hin
      | executing =>
          rw [hs] at hhist
          obtain ⟨q, hrun⟩ := hhist
          rcases hrun.mem hin with he | ⟨_, he⟩ | ⟨_, he⟩ <;> cases he
      | uncertain =>
          rw [hs] at hhist
          obtain ⟨q, hrun⟩ := hhist
          rcases hrun.mem hin with he | ⟨_, he⟩ | ⟨_, he⟩ <;> cases he
      | completed =>
          rw [hs] at hhist
          obtain ⟨result, -, hans⟩ := hhist
          exact hanswered hans
      | delivered =>
          rw [hs] at hhist
          obtain ⟨result, hans⟩ := hhist
          exact hanswered hans
      | deliveryFailed =>
          rw [hs] at hhist
          obtain ⟨result, hans⟩ := hhist
          exact hanswered hans

theorem TurnInv.startsOf_le {w : World} (h : TurnInv w) (key : Key) : startsOf key w.log ≤ 1 := by
  rw [← startsOf_turnLog]
  cases ht : w.db.turn? key with
  | none =>
      rw [h.silent key ht]
      exact Nat.zero_le 1
  | some t =>
      have hhist := h.history key t ht
      unfold History at hhist
      split at hhist
      · rw [hhist]
        exact Nat.zero_le 1
      · rw [hhist]
        exact Nat.zero_le 1
      · obtain ⟨pid, hrun⟩ := hhist
        exact hrun.startsOf_le
      · obtain ⟨pid, hrun⟩ := hhist
        exact hrun.startsOf_le
      · obtain ⟨result, -, hans⟩ := hhist
        exact hans.startsOf_le
      · obtain ⟨result, hans⟩ := hhist
        exact hans.startsOf_le
      · obtain ⟨result, hans⟩ := hhist
        exact hans.startsOf_le

/-! ## Handlers of interrupted turns -/

/-- Where a handler stands that found its turn started by another one. -/
def InputStage.isInert : InputStage → Bool
  | turnRead _ (some t) => t.status = .executing ∨ t.status = .uncertain
  | interrupted _ | uncertainNotice _ | uncertainPosted | leaving _ | returned _ => true
  | _ => false

theorem resolve_isInert (p : InputJobPayload) (row : SessionRow) (turn : Option InputTurn)
    (earliest : Option Key) (h : (InputStage.turnRead row turn).isInert = true) :
    (p.resolve row turn earliest).isInert = true := by
  cases turn with
  | none => cases h
  | some t =>
      unfold InputJobPayload.resolve
      split
      · rfl
      · dsimp only
        split
        · rfl
        · rcases of_decide_eq_true h with hs | hs <;> rw [hs] <;> rfl

theorem onRespond_isInert {stage stage' : InputStage} {response : Response}
    (h : stage.isInert = true) (hr : InputHandler.onRespond stage response = some stage') :
    stage'.isInert = true := by
  cases stage with
  | uncertainPosted => cases response <;> cases hr <;> rfl
  | deniedPosted => cases h
  | posted => cases h
  | _ => cases hr

/-- An inert handler stays inert and gives its turn no status but `uncertain`. -/
theorem InputHandler.inert_step {pid : ℕ} {w w' : World} {p : InputHandler}
    {q : Option InputHandler} {a : InputAction} (h : p.stage.isInert = true)
    (hs : p.step pid w a = some (w', q)) :
    (∀ r, q = some r → r.stage.isInert = true ∧ r.key = p.key) ∧
      ∀ t, w.db.turn? p.key = some t → ∃ t', w'.db.turn? p.key = some t' ∧
        (t'.status = t.status ∨ t'.status = .uncertain) := by
  cases a with
  | readEarliest =>
      simp only [step] at hs
      split at hs <;> cases hs
      rename_i row turn hstage
      rw [hstage] at h
      refine ⟨fun r hr ↦ ?_, fun t ht ↦ ⟨t, ht, .inl rfl⟩⟩
      cases hr
      exact ⟨resolve_isInert _ _ _ _ h, rfl⟩
  | markUncertain =>
      simp only [step] at hs
      split at hs <;> cases hs
      refine ⟨fun r hr ↦ ?_, fun t ht ↦ ?_⟩
      · cases hr
        exact ⟨rfl, rfl⟩
      · refine ⟨{ t with status := .uncertain, updatedAt := w.db.now }, ?_, .inr rfl⟩
        rw [World.db_setDb, markUncertain, Database.turn?_updateTurn, if_pos rfl, ht]
        rfl
  | post =>
      obtain ⟨⟨version, replyKey, text, stage⟩, hposting, he⟩ := Option.map_eq_some_iff.mp hs
      cases he
      refine ⟨fun r hr ↦ ?_, fun t ht ↦ ⟨t, ht, .inl rfl⟩⟩
      cases hr
      unfold posting at hposting
      split at hposting
      · cases hposting
        exact ⟨rfl, rfl⟩
      · rename_i hstage
        rw [hstage] at h
        cases h
      · rename_i hstage
        rw [hstage] at h
        cases h
      · cases hposting
  | respond response =>
      obtain ⟨stage, hstage', he⟩ := Option.map_eq_some_iff.mp hs
      cases he
      refine ⟨fun r hr ↦ ?_, fun t ht ↦ ⟨t, ht, .inl rfl⟩⟩
      cases hr
      exact ⟨onRespond_isInert h hstage', rfl⟩
  | leave =>
      simp only [step] at hs
      split at hs <;> cases hs
      refine ⟨fun r hr ↦ ?_, fun t ht ↦ ⟨t, ht, .inl rfl⟩⟩
      cases hr
      exact ⟨rfl, rfl⟩
  | acknowledge =>
      simp only [step] at hs
      split at hs <;> cases hs
      refine ⟨fun r hr ↦ (by cases hr), fun t ht ↦ ⟨t, ?_, .inl rfl⟩⟩
      split <;> exact ht
  | _ =>
      simp only [step] at hs
      split at hs
      · rename_i hstage
        rw [hstage] at h
        cases h
      · cases hs

/-- From here on process `pid` is such a handler of the turn `key`, or it has ended. -/
structure InertFor (key : Key) (pid : ℕ) (σ : SystemState) : Prop where
  used : pid < σ.next
  inert : ∀ p, σ.procs pid = some p → ∃ h, p = .input h ∧ h.key = key ∧ h.stage.isInert = true

theorem InertFor.step {key : Key} {pid : ℕ} {σ τ : SystemState} {a : SystemAction}
    (h : InertFor key pid σ) (hs : system.step σ a = some τ) :
    InertFor key pid τ ∧ startsBy pid τ.shared.log = startsBy pid σ.shared.log := by
  constructor
  · refine ⟨h.used.trans_le (ProcessPool.Machine.next_le hs), fun r hr ↦ ?_⟩
    rcases ProcessPool.Machine.step_procs hs hr with hold | ⟨n, -, hpid, -⟩ | ⟨b, p, -, hp, hb⟩
    · exact h.inert r hold
    · exact absurd hpid h.used.ne
    · obtain ⟨g, rfl, hkey, hinert⟩ := h.inert p hp
      generalize hq : some r = q, τ.shared = s at hb
      cases execStep_cases hb with
      | crash => cases hq
      | input hstep =>
          obtain ⟨g', hg', rfl⟩ := Option.map_eq_some_iff.mp hq.symm
          obtain ⟨hinert', hkey'⟩ := (InputHandler.inert_step hinert hstep).1 g' hg'
          exact ⟨g', rfl, hkey'.trans hkey, hinert'⟩
  · obtain ⟨new, hnew, -, hemit⟩ := step_emits hs
    have hnone : new.countP (Event.isStartBy pid) = 0 := by
      refine List.countP_eq_zero.mpr fun e he hstart ↦ ?_
      rcases hemit e he with ⟨sid, version, rfl⟩ | ⟨q, b, p, -, hp, hby⟩
      · cases hstart
      · cases e with
        | started q' sid v k token =>
            obtain ⟨rfl, g, row, rfl, hstage, -⟩ := hby
            have hq : q' = pid := of_decide_eq_true hstart
            subst hq
            obtain ⟨g', he, -, hinert⟩ := h.inert _ hp
            cases he
            rw [hstage] at hinert
            cases hinert
        | _ => cases hstart
    rw [startsBy, hnew, List.countP_append, hnone, Nat.zero_add, startsBy]

theorem InertFor.run {key : Key} {pid : ℕ} {σ τ : SystemState} (h : InertFor key pid σ)
    (hr : system.Reaches σ τ) :
    InertFor key pid τ ∧ startsBy pid τ.shared.log = startsBy pid σ.shared.log := by
  induction hr with
  | refl => exact ⟨h, rfl⟩
  | tail _ hst ih =>
      obtain ⟨a, -, hs⟩ := hst
      obtain ⟨hinert, hstarts⟩ := ih.1.step hs
      exact ⟨hinert, hstarts.trans ih.2⟩

/-- A step of such a handler leaves its turn as it is or notes that it is uncertain. -/
theorem InertFor.own_step {key : Key} {pid : ℕ} {σ τ : SystemState} {a : ExecAction}
    (h : InertFor key pid σ) (hs : system.step σ (.exec pid a) = some τ) (t : InputTurn)
    (ht : σ.shared.db.turn? key = some t) :
    ∃ t', τ.shared.db.turn? key = some t' ∧ (t'.status = t.status ∨ t'.status = .uncertain) := by
  obtain ⟨p, r, hp, hb, -⟩ := ProcessPool.Machine.step_exec hs
  obtain ⟨g, rfl, hkey, hinert⟩ := h.inert p hp
  generalize τ.shared = s at hb ⊢
  cases execStep_cases hb with
  | crash => exact ⟨t, ht, .inl rfl⟩
  | input hstep =>
      subst hkey
      exact (InputHandler.inert_step hinert hstep).2 t ht

/-- At-most-once execution of a turn, over every run of the system. -/
theorem turn_executed_at_most_once {σ : SystemState} (h : SystemReachable σ) (key : Key) :
    startsOf key σ.shared.log ≤ 1 ∧
    (∀ pid sid v text, .replied pid sid v (.turn key) text ∈ σ.shared.log →
      ∃ q result, text = some result ∧ ResultOf σ.shared.log key q sid result) ∧
    (∀ t, σ.shared.db.turn? key = some t → t.status = .completed →
      ∃ q result, t.resultText = some result ∧ ResultOf σ.shared.log key q t.sessionId result) ∧
    ∀ pid p row t, σ.procs pid = some (.input p) → p.key = key →
      p.stage = .turnRead row (some t) → t.status = .executing ∨ t.status = .uncertain →
      ∀ τ, system.Reaches σ τ → startsBy pid τ.shared.log = startsBy pid σ.shared.log ∧
        ∀ a ρ u, system.step τ (.exec pid a) = some ρ → τ.shared.db.turn? key = some u →
          ∃ u', ρ.shared.db.turn? key = some u' ∧ (u'.status = u.status ∨ u'.status = .uncertain) := by
  have hσ := system_annotated h
  refine ⟨hσ.inv.startsOf_le key, fun pid sid v text he ↦ hσ.inv.replied he,
    fun t ht hs ↦ ?_, fun pid p row t hp hkey hstage hstatus τ hr ↦ ?_⟩
  · have hhist := hσ.inv.history key t ht
    unfold History at hhist
    rw [hs] at hhist
    obtain ⟨result, hresult, hans⟩ := hhist
    obtain ⟨q, hq⟩ := hans.resultOf
    exact ⟨q, result, hresult, hq⟩
  · have hinert : InertFor key pid σ := by
      refine ⟨hσ.lt_next hp, fun p' hp' ↦ ?_⟩
      cases hp.symm.trans hp'
      refine ⟨p, rfl, hkey, ?_⟩
      rw [hstage]
      exact decide_eq_true hstatus
    obtain ⟨hlater, hstarts⟩ := hinert.run hr
    exact ⟨hstarts, fun a ρ u hs hu ↦ hlater.own_step hs u hu⟩

/-- One turn from its acceptance to its acknowledgement. -/
def answeredRun : List SystemAction :=
  openRun 0 1 7 (pyStr "demo") 1 none none ++ inputRun 3 100 1 1 ++ admitRun 4 ++
    answerRun 4 (pyStr "done") none

def answeredState : SystemState :=
  (system.run (.start deployment) answeredRun).get (by decide +kernel)

theorem answeredState_reachable : SystemReachable answeredState :=
  ProcessPool.Machine.reachable_of_run deployment_fresh (Option.some_get _).symm

theorem turn_executed_at_most_once_answered :
    startsOf 100 answeredState.shared.log = 1 ∧ startsOf 100 answeredState.shared.log ≤ 1 ∧
      ∃ q result, some (pyStr "done") = some result ∧
        ResultOf answeredState.shared.log 100 q 1 result := by
  have hclaim := turn_executed_at_most_once answeredState_reachable 100
  refine ⟨by decide +kernel, hclaim.1, hclaim.2.1 4 1 0 (some (pyStr "done")) ?_⟩
  decide +kernel

/-! ## Order -/

/-- The subprocess of the turn starts, or a reply to it is posted. -/
def Event.servesTurn (key : Key) : Event → Bool
  | started _ _ _ k _ => k = key
  | replied _ _ _ replyKey _ =>
      replyKey = .turn key ∨ replyKey = .uncertain key ∨ replyKey = .cwdDenied key
  | _ => false

/-- A handler that serves its turn has found it no longer queued. -/
theorem Event.EmittedBy.not_queued {pid : ℕ} {p : Process} {w : World} {e : Event} {key : Key}
    (hok : p.Ok pid w) (he : e.EmittedBy pid p w) (hkey : e.servesTurn key = true) :
    ∃ t, w.db.turn? key = some t ∧ t.status ≠ .queued := by
  cases e with
  | started q sid v k token =>
      obtain ⟨-, h, row, rfl, hstage, -, rfl, -, -⟩ := he
      obtain ⟨v', hok⟩ := hok
      have hst := hok.stage
      rw [hstage] at hst
      obtain ⟨-, t, ht, hs, -⟩ := hst
      have hk : h.key = key := of_decide_eq_true hkey
      exact ⟨t, hk ▸ ht, by simp [hs]⟩
  | replied q sid v replyKey text =>
      obtain ⟨-, h, stage, rfl, -, hposting⟩ := he
      obtain ⟨v', hok⟩ := hok
      have hst := hok.stage
      have hk := of_decide_eq_true hkey
      unfold InputHandler.posting at hposting
      split at hposting
      · rename_i version hstage
        cases hposting
        rw [hstage] at hst
        obtain ⟨t, ht, hs⟩ := hst
        have hk : h.key = key := by simpa using hk
        exact ⟨t, hk ▸ ht, by simp [hs]⟩
      · rename_i version hstage
        cases hposting
        rw [hstage] at hst
        obtain ⟨t, ht, hs⟩ := hst
        have hk : h.key = key := by simpa using hk
        exact ⟨t, hk ▸ ht, by simp [hs]⟩
      · rename_i version reply hstage
        cases hposting
        rw [hstage] at hst
        obtain ⟨-, t, text', ht, hs, -, -⟩ := hst
        have hk : h.key = key := by simpa using hk
        exact ⟨t, hk ▸ ht, by simp [hs]⟩
      · cases hposting
  | _ => cases hkey

/-- Turn order and mutual exclusion: a later turn of the same session and version is served
only in states where the earlier one is terminal, and no two subprocesses of a session run. -/
theorem turns_in_order {σ τ : SystemState} {a : SystemAction} (h : SystemReachable σ)
    (hs : system.step σ a = some τ) :
    (∃ new, τ.shared.log = new ++ σ.shared.log ∧ ∀ ρ, system.Reaches τ ρ →
      ∀ key₁ t₁ key₂ t₂, ρ.shared.db.turn? key₁ = some t₁ → ρ.shared.db.turn? key₂ = some t₂ →
        t₁.sessionId = t₂.sessionId → t₁.lifecycleVersion = t₂.lifecycleVersion →
        t₁.sequence < t₂.sequence → ∀ e ∈ new, e.servesTurn key₂ = true →
          ∃ t, σ.shared.db.turn? key₁ = some t ∧ t.status.isTerminal = true) ∧
    ∀ pid p row pid' p' row', σ.procs pid = some (.input p) → p.stage = .executing row →
      σ.procs pid' = some (.input p') → p'.stage = .executing row' → p.session = p'.session →
        pid = pid' := by
  have hσ := system_annotated h
  constructor
  · obtain ⟨new, hnew, -, hemit⟩ := step_emits hs
    refine ⟨new, hnew, fun ρ hr key₁ t₁ key₂ t₂ ht₁ ht₂ hsid hv hlt e he hserves ↦ ?_⟩
    rcases hemit e he with ⟨sid, version, rfl⟩ | ⟨pid, b, p, -, hp, hby⟩
    · cases hserves
    obtain ⟨u₂, hu₂, hq⟩ := hby.not_queued (hσ.assert pid p hp) hserves
    -- Both turns are rows of the state in which the event happens.
    have hlater := (reaches_later h (.head ⟨a, trivial, hs⟩ hr))
    obtain ⟨u₂', hu₂', hadv₂⟩ := hlater.turn key₂ u₂ hu₂
    cases ht₂.symm.trans hu₂'
    cases hu₁ : σ.shared.db.turn? key₁ with
    | none =>
        have hge := hlater.fresh key₁ t₁ ht₁ hu₁
        have hbound := hσ.inv.bounded key₂ u₂ hu₂
        have hseq := hadv₂.sequence
        omega
    | some u₁ =>
        obtain ⟨u₁', hu₁', hadv₁⟩ := hlater.turn key₁ u₁ hu₁
        cases ht₁.symm.trans hu₁'
        refine ⟨u₁, rfl, hσ.inv.ordered key₁ u₁ key₂ u₂ hu₁ hu₂ ?_ ?_ ?_ hq⟩
        · rw [← hadv₁.sessionId, ← hadv₂.sessionId, hsid]
        · rw [← hadv₁.lifecycleVersion, ← hadv₂.lifecycleVersion, hv]
        · rw [← hadv₁.sequence, ← hadv₂.sequence]
          exact hlt
  · intro pid p row pid' p' row' hp hstage hp' hstage' hsid
    have hholds : Process.Holds p.session (.input p) := ⟨rfl, by rw [hstage]; rfl⟩
    have hholds' : Process.Holds p.session (.input p') := ⟨hsid.symm, by rw [hstage']; rfl⟩
    exact (hσ.assert pid _ hp).holder_unique hholds (hσ.assert pid' _ hp') hholds'

/-- A second turn, up to the start of its subprocess. -/
def secondRun : List SystemAction := answeredRun ++ inputRun 5 200 1 2 ++ admitRun 6

def secondState : SystemState :=
  (system.run (.start deployment) secondRun).get (by decide +kernel)

def secondStarted : SystemState :=
  (system.step secondState (.exec 6 (.input .start))).get (by decide +kernel)

theorem turns_in_order_second :
    ∃ t, secondState.shared.db.turn? 100 = some t ∧ t.status.isTerminal = true := by
  have hreach : SystemReachable secondState :=
    ProcessPool.Machine.reachable_of_run deployment_fresh (Option.some_get _).symm
  obtain ⟨⟨new, hnew, horder⟩, -⟩ := turns_in_order hreach
    (show system.step secondState (.exec 6 (.input .start)) = some secondStarted from
      (Option.some_get _).symm)
  have hlog : secondStarted.shared.log =
      [.started 6 1 0 200 none] ++ secondState.shared.log := by decide +kernel
  have hnew' : new = [.started 6 1 0 200 none] := List.append_cancel_right (hnew.symm.trans hlog)
  obtain ⟨t₁, ht₁⟩ : ∃ t, secondStarted.shared.db.turn? 100 = some t :=
    Option.isSome_iff_exists.mp (by decide +kernel)
  obtain ⟨t₂, ht₂⟩ : ∃ t, secondStarted.shared.db.turn? 200 = some t :=
    Option.isSome_iff_exists.mp (by decide +kernel)
  have hrows : (secondStarted.shared.db.turn? 100).map
      (fun t ↦ (t.sessionId, t.lifecycleVersion, t.sequence)) = some (1, 0, 1) ∧
      (secondStarted.shared.db.turn? 200).map
        (fun t ↦ (t.sessionId, t.lifecycleVersion, t.sequence)) = some (1, 0, 2) := by
    decide +kernel
  rw [ht₁, ht₂] at hrows
  simp only [Option.map_some, Option.some.injEq, Prod.mk.injEq] at hrows
  obtain ⟨⟨hs₁, hv₁, hq₁⟩, hs₂, hv₂, hq₂⟩ := hrows
  exact horder secondStarted .refl 100 t₁ 200 t₂ ht₁ ht₂ (hs₁.trans hs₂.symm)
    (hv₁.trans hv₂.symm) (by omega) (.started 6 1 0 200 none) (by simp [hnew'])
    (by simp [Event.servesTurn])

end Discode

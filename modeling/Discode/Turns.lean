import Discode.InputJob
import Discode.Lifecycle

/-!
# The ledger of turns

What holds of the rows of `input_turns`, of the history and of the jobs in transit, and
which changes keep it: changes elsewhere, the acceptance of a turn, the expiry of a result
and the moves of a single turn.
-/

set_option autoImplicit false

namespace Discode

/-! ## The history of a turn -/

/-- The events about the turn `key`, replies under its own key included. -/
def Event.onTurn (key : Key) : Event → Bool
  | admitted _ _ _ k | started _ _ _ k _ | finished _ _ _ k _ | recorded _ _ k _ => k = key
  | replied _ _ _ replyKey _ => replyKey = .turn key
  | _ => false

def turnLog (key : Key) (log : List Event) : List Event := log.filter (Event.onTurn key)

@[simp] theorem turnLog_append (key : Key) (l l' : List Event) :
    turnLog key (l ++ l') = turnLog key l ++ turnLog key l' :=
  List.filter_append ..

theorem turnLog_cons (key : Key) (e : Event) (l : List Event) :
    turnLog key (e :: l) = if e.onTurn key then e :: turnLog key l else turnLog key l := by
  simp [turnLog, List.filter_cons]

/-- One execution of a turn by one handler, as far as it has come; newest event first. -/
inductive Executed (pid : ℕ) (sid : SessionId) (v : ℕ) (key : Key) : List Event → Prop where
  | admitted : Executed pid sid v key [.admitted pid sid v key]
  | started (token : Option Token) :
      Executed pid sid v key [.started pid sid v key token, .admitted pid sid v key]
  | finished (token parsed : Option Token) :
      Executed pid sid v key [.finished pid sid v key parsed, .started pid sid v key token,
        .admitted pid sid v key]

/-- One execution, its recorded result, and replies that carry it. -/
structure Answered (sid : SessionId) (v : ℕ) (key : Key) (text : PyStr) (l : List Event) :
    Prop where
  split : ∃ pid replies run, Executed pid sid v key run ∧
    l = replies ++ .recorded pid sid key text :: run ∧
    ∀ e ∈ replies, ∃ q v', e = .replied q sid v' (.turn key) (some text)

/-- The history that goes with the status of a turn. -/
def History (key : Key) (t : InputTurn) (l : List Event) : Prop :=
  match t.status with
  | .queued | .aborted => l = []
  | .executing | .uncertain => ∃ pid, Executed pid t.sessionId t.lifecycleVersion key l
  | .completed => ∃ text, t.resultText = some text ∧
      Answered t.sessionId t.lifecycleVersion key text l
  | .delivered | .deliveryFailed => ∃ text, Answered t.sessionId t.lifecycleVersion key text l

/-! ## Changes of a turn -/

structure InputTurn.SameTurn (t t' : InputTurn) : Prop where
  sequence : t'.sequence = t.sequence
  sessionId : t'.sessionId = t.sessionId
  lifecycleVersion : t'.lifecycleVersion = t.lifecycleVersion

/-- At most the result of a terminal turn was dropped. -/
structure InputTurn.Expires (t t' : InputTurn) : Prop extends InputTurn.SameTurn t t' where
  status : t'.status = t.status
  result : t'.resultText = t.resultText ∨ t.status.isTerminal = true

/-- What any step does to a turn: it never leaves a terminal or uncertain status. -/
structure InputTurn.Advances (t t' : InputTurn) : Prop extends InputTurn.SameTurn t t' where
  terminal : t.status.isTerminal = true → t'.status = t.status
  settled : t.status.isSettled = true → t'.status.isSettled = true

theorem InputTurn.SameTurn.refl (t : InputTurn) : t.SameTurn t := ⟨rfl, rfl, rfl⟩

theorem InputTurn.Expires.refl (t : InputTurn) : t.Expires t := ⟨.refl t, rfl, .inl rfl⟩

theorem InputTurn.Advances.refl (t : InputTurn) : t.Advances t := ⟨.refl t, fun _ ↦ rfl, id⟩

theorem InputTurn.Expires.advances {t t' : InputTurn} (h : t.Expires t') : t.Advances t' :=
  ⟨h.toSameTurn, fun _ ↦ h.status, fun hs ↦ h.status ▸ hs⟩

theorem InputTurn.SameTurn.trans {t t' t'' : InputTurn} (h : t.SameTurn t')
    (h' : t'.SameTurn t'') : t.SameTurn t'' :=
  ⟨h'.sequence.trans h.sequence, h'.sessionId.trans h.sessionId,
    h'.lifecycleVersion.trans h.lifecycleVersion⟩

theorem InputTurn.Expires.trans {t t' t'' : InputTurn} (h : t.Expires t') (h' : t'.Expires t'') :
    t.Expires t'' := by
  refine ⟨h.toSameTurn.trans h'.toSameTurn, h'.status.trans h.status, ?_⟩
  rcases h'.result with hr' | ht
  · rcases h.result with hr | ht
    · exact .inl (hr'.trans hr)
    · exact .inr ht
  · exact .inr (h.status ▸ ht)

theorem History.expires {key : Key} {t t' : InputTurn} {l : List Event} (h : History key t l)
    (he : t.Expires t') : History key t' l := by
  obtain ⟨hsame, hstatus, hresult⟩ := he
  unfold History at h ⊢
  rw [hstatus, hsame.sessionId, hsame.lifecycleVersion]
  rcases hresult with hr | ht
  · rwa [hr]
  · -- The history of a terminal turn does not mention its row's result.
    cases hs : t.status with
    | completed => rw [hs] at ht; cases ht
    | _ => rwa [hs] at h

/-! ## Jobs in transit -/

/-- A job that `run_input_saga` made for a turn accepted at version `v`. -/
structure AcceptedJob (db : Database) (p : InputJobPayload) (v : ℕ) : Prop where
  version : p.lifecycleVersion = some v
  turn : ∃ t, db.turn? p.idempotencyKey = some t ∧ t.sessionId = p.sessionId ∧
    t.lifecycleVersion = v
  session : ∃ c, db.core? p.sessionId = some c ∧ c.guildId = p.guildId ∧
    c.hostId = some p.hostId ∧ c.status ≠ .creating

/-- The job is in the outbox or in a stream. -/
def World.Carries (w : World) (p : InputJobPayload) : Prop :=
  (∃ id row, w.db.outbox.get? id = some row ∧ row.envelope = .sendInput p) ∨
    ∃ key id, (id, Envelope.sendInput p) ∈ (w.streams key).entries

/-! ## Steps -/

/-- What every step does: sessions move, turns stay who they are, and a new turn comes after
all others. -/
structure Advance (w w' : World) : Prop where
  core : ∀ sid, CoreStep (fun _ ↦ True) (w.db.core? sid) (w'.db.core? sid)
  turn : ∀ key t, w.db.turn? key = some t → ∃ t', w'.db.turn? key = some t' ∧ t.Advances t'
  fresh : ∀ key t', w'.db.turn? key = some t' → w.db.turn? key = none →
    w.db.nextSequence ≤ t'.sequence
  sequence : w.db.nextSequence ≤ w'.db.nextSequence

/-- What a process that holds the lock of `sid` can rely on: the steps of all others leave
the turns of the session to it. -/
structure Rely (sid : SessionId) (w w' : World) : Prop extends Advance w w' where
  expires : ∀ key t, w.db.turn? key = some t → t.sessionId = sid →
    ∃ t', w'.db.turn? key = some t' ∧ t.Expires t'
  log : ∀ key t, w.db.turn? key = some t → t.sessionId = sid →
    turnLog key w'.log = turnLog key w.log

/-- A step that moves sessions by the writers `W` and does not concern the ledger. -/
structure Quiet (W : Writer → Prop) (w w' : World) : Prop where
  core : ∀ sid, CoreStep W (w.db.core? sid) (w'.db.core? sid)
  turns : w'.db.inputTurns = w.db.inputTurns
  sequence : w'.db.nextSequence = w.db.nextSequence
  log : ∀ key, turnLog key w'.log = turnLog key w.log
  carried : ∀ p, w'.Carries p → w.Carries p ∨ ∃ v, AcceptedJob w.db p v

theorem AcceptedJob.advance {w w' : World} {p : InputJobPayload} {v : ℕ}
    (h : AcceptedJob w.db p v) (hw : Advance w w') : AcceptedJob w'.db p v := by
  obtain ⟨t, ht, hsid, hv⟩ := h.turn
  obtain ⟨t', ht', hsame⟩ := hw.turn _ t ht
  obtain ⟨c, hc, hguild, hhost, hcreating⟩ := h.session
  refine ⟨h.version, ⟨t', ht', hsame.sessionId.trans hsid, hsame.lifecycleVersion.trans hv⟩, ?_⟩
  rcases (hc ▸ hw.core p.sessionId).some_left with he | ⟨x, -, hx, he⟩
  · exact ⟨c, he, hguild, hhost, hcreating⟩
  · exact ⟨x.assign c, he, (x.assign_guildId c).trans hguild,
      (x.assign_hostId hx hcreating).trans hhost, x.assign_not_creating hx⟩

namespace Quiet

variable {W : Writer → Prop} {w w' : World}

theorem turn? (h : Quiet W w w') (key : Key) : w'.db.turn? key = w.db.turn? key := by
  rw [Database.turn?, h.turns, Database.turn?]

theorem advance (h : Quiet W w w') : Advance w w' where
  core sid := (h.core sid).mono fun _ _ ↦ trivial
  turn key t ht := ⟨t, (h.turn? key).trans ht, .refl t⟩
  fresh key t' ht' hnone := by
    rw [h.turn? key, hnone] at ht'
    cases ht'
  sequence := h.sequence.ge

theorem rely (h : Quiet W w w') (sid : SessionId) : Rely sid w w' where
  toAdvance := h.advance
  expires key t ht _ := ⟨t, (h.turn? key).trans ht, .refl t⟩
  log key _ _ _ := h.log key

end Quiet

/-! ## The invariant -/

structure TurnInv (w : World) : Prop where
  linked : ∀ key t, w.db.turn? key = some t → ∃ c, w.db.core? t.sessionId = some c ∧
    (c.LiveAt t.lifecycleVersion ∨ c.LeftAt t.lifecycleVersion)
  bounded : ∀ key t, w.db.turn? key = some t → t.sequence < w.db.nextSequence
  unique : ∀ key t key' t', w.db.turn? key = some t → w.db.turn? key' = some t' →
    t.sequence = t'.sequence → key = key'
  ordered : ∀ key t key' t', w.db.turn? key = some t → w.db.turn? key' = some t' →
    t.sessionId = t'.sessionId → t.lifecycleVersion = t'.lifecycleVersion →
    t.sequence < t'.sequence → t'.status ≠ .queued → t.status.isTerminal = true
  history : ∀ key t, w.db.turn? key = some t → History key t (turnLog key w.log)
  silent : ∀ key, w.db.turn? key = none → turnLog key w.log = []
  jobs : ∀ p, w.Carries p → ∃ v, AcceptedJob w.db p v

/-- All turns of `t`'s session and version before it are terminal. -/
def EarlierDone (db : Database) (t : InputTurn) : Prop :=
  ∀ key' t', db.turn? key' = some t' → t'.sessionId = t.sessionId →
    t'.lifecycleVersion = t.lifecycleVersion → t'.sequence < t.sequence →
    t'.status.isTerminal = true

theorem linked_advance {w w' : World} (hw : Advance w w') {sid : SessionId} {v : ℕ}
    (h : ∃ c, w.db.core? sid = some c ∧ (c.LiveAt v ∨ c.LeftAt v)) :
    ∃ c, w'.db.core? sid = some c ∧ (c.LiveAt v ∨ c.LeftAt v) := by
  obtain ⟨c, hc, hv⟩ := h
  have hstep := hc ▸ hw.core sid
  obtain ⟨c', hc'⟩ := hstep.exists_of_some
  rw [hc'] at hstep
  refine ⟨c', hc', ?_⟩
  rcases hv with hlive | hleft
  · exact hstep.liveAt hlive
  · exact .inr (hstep.leftAt hleft)

namespace TurnInv

variable {w w' : World}

theorem quiet {W : Writer → Prop} (h : TurnInv w) (hq : Quiet W w w') : TurnInv w' where
  linked key t ht := linked_advance hq.advance (h.linked key t (hq.turn? key ▸ ht))
  bounded key t ht := hq.sequence ▸ h.bounded key t (hq.turn? key ▸ ht)
  unique key t key' t' ht ht' := h.unique key t key' t' (hq.turn? key ▸ ht) (hq.turn? key' ▸ ht')
  ordered key t key' t' ht ht' :=
    h.ordered key t key' t' (hq.turn? key ▸ ht) (hq.turn? key' ▸ ht')
  history key t ht := hq.log key ▸ h.history key t (hq.turn? key ▸ ht)
  silent key ht := (hq.log key).trans (h.silent key (hq.turn? key ▸ ht))
  jobs p hp := by
    rcases hq.carried p hp with hc | ⟨v, hv⟩
    · obtain ⟨v, hv⟩ := h.jobs p hc
      exact ⟨v, hv.advance hq.advance⟩
    · exact ⟨v, hv.advance hq.advance⟩

/-- A step that only drops results of terminal turns. -/
theorem expire (h : TurnInv w) (hadv : Advance w w')
    (hturn : ∀ key, w.db.turn? key = none → w'.db.turn? key = none)
    (hexp : ∀ key t, w.db.turn? key = some t → ∃ t', w'.db.turn? key = some t' ∧ t.Expires t')
    (hseq : w'.db.nextSequence = w.db.nextSequence)
    (hlog : w'.log = w.log) (hcar : ∀ p, w'.Carries p → w.Carries p) : TurnInv w' := by
  have hback : ∀ key t', w'.db.turn? key = some t' →
      ∃ t, w.db.turn? key = some t ∧ t.Expires t' := by
    intro key t' ht'
    cases ht : w.db.turn? key with
    | none => rw [hturn key ht] at ht'; cases ht'
    | some t =>
        obtain ⟨t'', ht'', he⟩ := hexp key t ht
        cases ht'.symm.trans ht''
        exact ⟨t, rfl, he⟩
  refine ⟨?_, ?_, ?_, ?_, ?_, ?_, ?_⟩
  · intro key t' ht'
    obtain ⟨t, ht, he⟩ := hback key t' ht'
    rw [he.sessionId, he.lifecycleVersion]
    exact linked_advance hadv (h.linked key t ht)
  · intro key t' ht'
    obtain ⟨t, ht, he⟩ := hback key t' ht'
    rw [he.sequence, hseq]
    exact h.bounded key t ht
  · intro key t' key₁ t₁' ht' ht₁' hs
    obtain ⟨t, ht, he⟩ := hback key t' ht'
    obtain ⟨t₁, ht₁, he₁⟩ := hback key₁ t₁' ht₁'
    rw [he.sequence, he₁.sequence] at hs
    exact h.unique key t key₁ t₁ ht ht₁ hs
  · intro key t' key₁ t₁' ht' ht₁' hsid hv hlt hq
    obtain ⟨t, ht, he⟩ := hback key t' ht'
    obtain ⟨t₁, ht₁, he₁⟩ := hback key₁ t₁' ht₁'
    rw [he.sequence, he₁.sequence] at hlt
    rw [he.sessionId, he₁.sessionId] at hsid
    rw [he.lifecycleVersion, he₁.lifecycleVersion] at hv
    rw [he₁.status] at hq
    rw [he.status]
    exact h.ordered key t key₁ t₁ ht ht₁ hsid hv hlt hq
  · intro key t' ht'
    obtain ⟨t, ht, he⟩ := hback key t' ht'
    rw [hlog]
    exact (h.history key t ht).expires he
  · intro key ht'
    rw [hlog]
    cases ht : w.db.turn? key with
    | none => exact h.silent key ht
    | some t =>
        obtain ⟨t', ht'', -⟩ := hexp key t ht
        rw [ht''] at ht'
        cases ht'
  · intro p hp
    obtain ⟨v, hv⟩ := h.jobs p (hcar p hp)
    exact ⟨v, hv.advance hadv⟩

/-- The acceptance of a turn. -/
theorem accept (h : TurnInv w) (hadv : Advance w w') {key : Key} {t : InputTurn}
    (hnone : w.db.turn? key = none)
    (hturn : ∀ k, w'.db.turn? k = if k = key then some t else w.db.turn? k)
    (hstatus : t.status = .queued) (hsequence : t.sequence = w.db.nextSequence)
    (hnext : w'.db.nextSequence = w.db.nextSequence + 1)
    (hlive : ∃ c, w'.db.core? t.sessionId = some c ∧ c.LiveAt t.lifecycleVersion)
    (hlog : w'.log = w.log)
    (hcar : ∀ p, w'.Carries p → w.Carries p ∨ ∃ v, AcceptedJob w'.db p v) : TurnInv w' := by
  have hcases : ∀ k u, w'.db.turn? k = some u → k = key ∧ u = t ∨ w.db.turn? k = some u := by
    intro k u hu
    rw [hturn k] at hu
    split at hu
    · rename_i hk
      exact .inl ⟨hk, (Option.some.inj hu).symm⟩
    · exact .inr hu
  refine ⟨?_, ?_, ?_, ?_, ?_, ?_, ?_⟩
  · intro k u hu
    rcases hcases k u hu with ⟨rfl, rfl⟩ | hu
    · obtain ⟨c, hc, hl⟩ := hlive
      exact ⟨c, hc, .inl hl⟩
    · exact linked_advance hadv (h.linked k u hu)
  · intro k u hu
    rw [hnext]
    rcases hcases k u hu with ⟨rfl, rfl⟩ | hu
    · omega
    · exact (h.bounded k u hu).trans (Nat.lt_succ_self _)
  · intro k u k₁ u₁ hu hu₁ hs
    rcases hcases k u hu with ⟨rfl, rfl⟩ | hu <;> rcases hcases k₁ u₁ hu₁ with ⟨rfl, rfl⟩ | hu₁
    · rfl
    · have := h.bounded k₁ u₁ hu₁
      omega
    · have := h.bounded k u hu
      omega
    · exact h.unique k u k₁ u₁ hu hu₁ hs
  · intro k u k₁ u₁ hu hu₁ hsid hv hlt hq
    rcases hcases k₁ u₁ hu₁ with ⟨rfl, rfl⟩ | hu₁
    · exact absurd hstatus hq
    · rcases hcases k u hu with ⟨rfl, rfl⟩ | hu
      · have := h.bounded k₁ u₁ hu₁
        omega
      · exact h.ordered k u k₁ u₁ hu hu₁ hsid hv hlt hq
  · intro k u hu
    rw [hlog]
    rcases hcases k u hu with ⟨rfl, rfl⟩ | hu
    · unfold History
      rw [hstatus]
      exact h.silent k hnone
    · exact h.history k u hu
  · intro k hk
    rw [hlog]
    rw [hturn k] at hk
    split at hk
    · cases hk
    · exact h.silent k hk
  · intro p hp
    rcases hcar p hp with hc | hv
    · obtain ⟨v, hv⟩ := h.jobs p hc
      exact ⟨v, hv.advance hadv⟩
    · exact hv

end TurnInv

/-! ## Moves of one turn -/

/-- The turn `key` goes from `t` to `t'`, and nothing else happens to the ledger. -/
structure MoveTurn (key : Key) (t t' : InputTurn) (w w' : World) : Prop where
  core : ∀ sid, CoreStep (fun _ ↦ True) (w.db.core? sid) (w'.db.core? sid)
  source : w.db.turn? key = some t
  turn : ∀ k, w'.db.turn? k = if k = key then some t' else w.db.turn? k
  same : t.Advances t'
  sequence : w'.db.nextSequence = w.db.nextSequence
  log : ∀ k, k ≠ key → turnLog k w'.log = turnLog k w.log
  carried : ∀ p, w'.Carries p → w.Carries p

namespace MoveTurn

variable {key : Key} {t t' : InputTurn} {w w' : World}

theorem target (h : MoveTurn key t t' w w') : w'.db.turn? key = some t' := by
  rw [h.turn key, if_pos rfl]

theorem advance (h : MoveTurn key t t' w w') : Advance w w' := by
  refine ⟨h.core, fun k u hu ↦ ?_, fun k u hu hnone ↦ ?_, h.sequence.ge⟩
  · by_cases hk : k = key
    · subst hk
      cases h.source.symm.trans hu
      exact ⟨t', h.target, h.same⟩
    · exact ⟨u, by rw [h.turn k, if_neg hk, hu], .refl u⟩
  · rw [h.turn k] at hu
    split at hu
    · rename_i hk
      rw [hk, h.source] at hnone
      cases hnone
    · rw [hnone] at hu
      cases hu

theorem absent (h : MoveTurn key t t' w w') (k : Key) (hk : w.db.turn? k = none) :
    w'.db.turn? k = none := by
  have hne : k ≠ key := by
    rintro rfl
    rw [h.source] at hk
    cases hk
  rw [h.turn k, if_neg hne, hk]

/-- Other sessions rely on it. -/
theorem rely (h : MoveTurn key t t' w w') {sid : SessionId} (hsid : t.sessionId ≠ sid) :
    Rely sid w w' := by
  have hne : ∀ k u, w.db.turn? k = some u → u.sessionId = sid → k ≠ key := by
    rintro k u hu rfl rfl
    cases h.source.symm.trans hu
    exact hsid rfl
  exact ⟨h.advance, fun k u hu hs ↦ ⟨u, by rw [h.turn k, if_neg (hne k u hu hs), hu], .refl u⟩,
    fun k u hu hs ↦ h.log k (hne k u hu hs)⟩

theorem turnInv (hm : MoveTurn key t t' w w') (h : TurnInv w)
    (horder : t.status = .queued → t'.status ≠ .queued → EarlierDone w.db t)
    (hhist : History key t' (turnLog key w'.log)) : TurnInv w' := by
  have hcases : ∀ k u, w'.db.turn? k = some u →
      k = key ∧ u = t' ∨ k ≠ key ∧ w.db.turn? k = some u := by
    intro k u hu
    rw [hm.turn k] at hu
    split at hu
    · rename_i hk
      exact .inl ⟨hk, (Option.some.inj hu).symm⟩
    · rename_i hk
      exact .inr ⟨hk, hu⟩
  -- Every turn of the new state is one of the old state up to its status and result.
  have hback : ∀ k u, w'.db.turn? k = some u → ∃ u₀, w.db.turn? k = some u₀ ∧ u₀.SameTurn u := by
    intro k u hu
    rcases hcases k u hu with ⟨rfl, rfl⟩ | ⟨-, hu⟩
    · exact ⟨t, hm.source, hm.same.toSameTurn⟩
    · exact ⟨u, hu, .refl u⟩
  refine ⟨?_, ?_, ?_, ?_, ?_, ?_, ?_⟩
  · intro k u hu
    obtain ⟨u₀, hu₀, hs⟩ := hback k u hu
    rw [hs.sessionId, hs.lifecycleVersion]
    exact linked_advance hm.advance (h.linked k u₀ hu₀)
  · intro k u hu
    obtain ⟨u₀, hu₀, hs⟩ := hback k u hu
    rw [hs.sequence, hm.sequence]
    exact h.bounded k u₀ hu₀
  · intro k u k₁ u₁ hu hu₁ hseq
    obtain ⟨u₀, hu₀, hs⟩ := hback k u hu
    obtain ⟨v₀, hv₀, hs₁⟩ := hback k₁ u₁ hu₁
    rw [hs.sequence, hs₁.sequence] at hseq
    exact h.unique k u₀ k₁ v₀ hu₀ hv₀ hseq
  · intro k u k₁ u₁ hu hu₁ hsid hv hlt hq
    rcases hcases k u hu with ⟨rfl, rfl⟩ | ⟨hk, hu⟩ <;>
      rcases hcases k₁ u₁ hu₁ with ⟨rfl, rfl⟩ | ⟨hk₁, hu₁⟩
    · omega
    · rw [hm.same.sessionId] at hsid
      rw [hm.same.lifecycleVersion] at hv
      rw [hm.same.sequence] at hlt
      have hterm := h.ordered k t k₁ u₁ hm.source hu₁ hsid hv hlt hq
      rwa [hm.same.terminal hterm]
    · rw [hm.same.sessionId] at hsid
      rw [hm.same.lifecycleVersion] at hv
      rw [hm.same.sequence] at hlt
      by_cases hqueued : t.status = .queued
      · exact horder hqueued hq k u hu hsid hv hlt
      · exact h.ordered k u k₁ t hu hm.source hsid hv hlt hqueued
    · exact h.ordered k u k₁ u₁ hu hu₁ hsid hv hlt hq
  · intro k u hu
    rcases hcases k u hu with ⟨rfl, rfl⟩ | ⟨hk, hu⟩
    · exact hhist
    · rw [hm.log k hk]
      exact h.history k u hu
  · intro k hk
    rw [hm.turn k] at hk
    split at hk
    · cases hk
    · rename_i hne
      rw [hm.log k hne]
      exact h.silent k hk
  · intro p hp
    obtain ⟨v, hv⟩ := h.jobs p (hm.carried p hp)
    exact ⟨v, hv.advance hm.advance⟩

end MoveTurn

end Discode

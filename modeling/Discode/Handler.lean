import Discode.QuietSteps

/-!
# The input handler

The assertion of every program point of `run_input_job`, and the proof that each step of a
handler keeps the ledger in order, establishes the next assertion and leaves the turns of
other sessions alone.
-/

set_option autoImplicit false

namespace Discode

/-! ## Assertions -/

/-- The stages between taking the advisory lock and giving it back. -/
def InputStage.isLocked : InputStage → Bool
  | start | returned _ => false
  | _ => true

/-- No handler will work on the job's turn again. -/
def Settled (db : Database) (p : InputJobPayload) (v : ℕ) : Prop :=
  (∃ t, db.turn? p.idempotencyKey = some t ∧ t.status.isSettled = true) ∨
    ∃ c, db.core? p.sessionId = some c ∧ c.LeftAt v

/-- What a handler of a job accepted at version `v` knows at each stage. -/
def StageOk (pid v : ℕ) (p : InputJobPayload) (w : World) : InputStage → Prop
  | .start | .locked => True
  | .sessionRead row => row.lifecycleVersion = v
  | .turnRead row turn => row.lifecycleVersion = v ∧
      ∃ t₀ t, turn = some t₀ ∧ w.db.turn? p.idempotencyKey = some t ∧ t₀.Expires t
  | .interrupted version => version = v ∧ ∃ t, w.db.turn? p.idempotencyKey = some t ∧
      (t.status = .executing ∨ t.status = .uncertain)
  | .uncertainNotice _ | .uncertainPosted =>
      ∃ t, w.db.turn? p.idempotencyKey = some t ∧ t.status = .uncertain
  | .revalidate row | .persistIntent row => row.lifecycleVersion = v ∧
      ∃ t, w.db.turn? p.idempotencyKey = some t ∧ t.status = .queued ∧ EarlierDone w.db t
  | .denied version => version = v ∧
      ∃ t, w.db.turn? p.idempotencyKey = some t ∧ t.status = .queued ∧ EarlierDone w.db t
  | .deniedNotice _ | .deniedPosted =>
      ∃ t, w.db.turn? p.idempotencyKey = some t ∧ t.status = .aborted
  | .admitted row => row.lifecycleVersion = v ∧
      ∃ t, w.db.turn? p.idempotencyKey = some t ∧ t.status = .executing ∧
        turnLog p.idempotencyKey w.log = [.admitted pid p.sessionId v p.idempotencyKey]
  | .executing row => row.lifecycleVersion = v ∧
      ∃ t, w.db.turn? p.idempotencyKey = some t ∧ t.status = .executing ∧
        turnLog p.idempotencyKey w.log =
          [.started pid p.sessionId v p.idempotencyKey row.toolResumeToken,
            .admitted pid p.sessionId v p.idempotencyKey]
  | .executed version _ _ => version = v ∧
      ∃ t, w.db.turn? p.idempotencyKey = some t ∧ t.status = .executing ∧
        Executed pid p.sessionId v p.idempotencyKey (turnLog p.idempotencyKey w.log)
  | .deliver version reply => version = v ∧
      ∃ t text, w.db.turn? p.idempotencyKey = some t ∧ t.status = .completed ∧
        t.resultText = some text ∧ reply = some text
  | .posted => ∃ t, w.db.turn? p.idempotencyKey = some t ∧ t.status = .completed
  | .mark status outcome => (status = .delivered ∨ status = .deliveryFailed) ∧
      outcome ≠ .deferred ∧ ∃ t, w.db.turn? p.idempotencyKey = some t ∧ t.status = .completed
  | .leaving outcome | .returned outcome => outcome ≠ .deferred → Settled w.db p v

structure InputHandler.OkAt (pid v : ℕ) (p : InputHandler) (w : World) : Prop where
  job : AcceptedJob w.db p.payload v
  lock : p.stage.isLocked = true → w.locks p.session = some pid
  stage : StageOk pid v p.payload w p.stage

def InputHandler.Ok (pid : ℕ) (p : InputHandler) (w : World) : Prop := ∃ v, p.OkAt pid v w

/-! ## Stability -/

theorem Settled.advance {w w' : World} {p : InputJobPayload} {v : ℕ} (h : Settled w.db p v)
    (hw : Advance w w') : Settled w'.db p v := by
  rcases h with ⟨t, ht, hs⟩ | ⟨c, hc, hleft⟩
  · obtain ⟨t', ht', hadv⟩ := hw.turn _ t ht
    exact .inl ⟨t', ht', hadv.settled hs⟩
  · have hstep := hc ▸ hw.core p.sessionId
    obtain ⟨c', hc'⟩ := hstep.exists_of_some
    rw [hc'] at hstep
    exact .inr ⟨c', hc', hstep.leftAt hleft⟩

theorem EarlierDone.rely {w w' : World} (hinv : TurnInv w) {key : Key} {t t' : InputTurn}
    (ht : w.db.turn? key = some t) (h : EarlierDone w.db t) (hw : Rely t.sessionId w w')
    (he : t.Expires t') : EarlierDone w'.db t' := by
  intro k u' hu' hsid hv hlt
  rw [he.sessionId] at hsid
  rw [he.lifecycleVersion] at hv
  rw [he.sequence] at hlt
  cases hu : w.db.turn? k with
  | none =>
      have hge := hw.fresh k u' hu' hu
      have hbound := hinv.bounded key t ht
      omega
  | some u =>
      obtain ⟨u'', hu'', hadv⟩ := hw.turn k u hu
      cases hu'.symm.trans hu''
      rw [hadv.sessionId] at hsid
      rw [hadv.lifecycleVersion] at hv
      rw [hadv.sequence] at hlt
      have hterm := h k u hu hsid hv hlt
      rwa [hadv.terminal hterm]

/-- Nobody else falsifies what the holder of the lock knows. -/
theorem StageOk.rely {pid v : ℕ} {p : InputJobPayload} {w w' : World} {s : InputStage}
    (h : StageOk pid v p w s) (hjob : AcceptedJob w.db p v) (hinv : TurnInv w)
    (hw : Rely p.sessionId w w') : StageOk pid v p w' s := by
  obtain ⟨t₀, ht₀, hsid, hv⟩ := hjob.turn
  obtain ⟨t', ht', he⟩ := hw.expires _ t₀ ht₀ hsid
  have hlog := hw.log _ t₀ ht₀ hsid
  have hkey : ∀ t, w.db.turn? p.idempotencyKey = some t → t = t₀ := fun t ht ↦
    Option.some.inj (ht.symm.trans ht₀)
  cases s with
  | start => trivial
  | locked => trivial
  | sessionRead row => exact h
  | turnRead row turn =>
      obtain ⟨hrow, u, t, rfl, ht, hexp⟩ := h
      cases hkey t ht
      exact ⟨hrow, u, t', rfl, ht', hexp.trans he⟩
  | interrupted version =>
      obtain ⟨hversion, t, ht, hs⟩ := h
      cases hkey t ht
      exact ⟨hversion, t', ht', he.status ▸ hs⟩
  | uncertainNotice version =>
      obtain ⟨t, ht, hs⟩ := h
      cases hkey t ht
      exact ⟨t', ht', he.status.trans hs⟩
  | uncertainPosted =>
      obtain ⟨t, ht, hs⟩ := h
      cases hkey t ht
      exact ⟨t', ht', he.status.trans hs⟩
  | revalidate row =>
      obtain ⟨hrow, t, ht, hs, hdone⟩ := h
      cases hkey t ht
      exact ⟨hrow, t', ht', he.status.trans hs, hdone.rely hinv ht₀ (hsid ▸ hw) he⟩
  | denied version =>
      obtain ⟨hrow, t, ht, hs, hdone⟩ := h
      cases hkey t ht
      exact ⟨hrow, t', ht', he.status.trans hs, hdone.rely hinv ht₀ (hsid ▸ hw) he⟩
  | deniedNotice version =>
      obtain ⟨t, ht, hs⟩ := h
      cases hkey t ht
      exact ⟨t', ht', he.status.trans hs⟩
  | deniedPosted =>
      obtain ⟨t, ht, hs⟩ := h
      cases hkey t ht
      exact ⟨t', ht', he.status.trans hs⟩
  | persistIntent row =>
      obtain ⟨hrow, t, ht, hs, hdone⟩ := h
      cases hkey t ht
      exact ⟨hrow, t', ht', he.status.trans hs, hdone.rely hinv ht₀ (hsid ▸ hw) he⟩
  | admitted row =>
      obtain ⟨hrow, t, ht, hs, hl⟩ := h
      cases hkey t ht
      exact ⟨hrow, t', ht', he.status.trans hs, hlog.trans hl⟩
  | executing row =>
      obtain ⟨hrow, t, ht, hs, hl⟩ := h
      cases hkey t ht
      exact ⟨hrow, t', ht', he.status.trans hs, hlog.trans hl⟩
  | executed version reply token =>
      obtain ⟨hversion, t, ht, hs, hl⟩ := h
      cases hkey t ht
      exact ⟨hversion, t', ht', he.status.trans hs, hlog ▸ hl⟩
  | deliver version reply =>
      obtain ⟨hversion, t, text, ht, hs, hr, hreply⟩ := h
      cases hkey t ht
      refine ⟨hversion, t', text, ht', he.status.trans hs, ?_, hreply⟩
      rcases he.result with hres | hterm
      · exact hres.trans hr
      · rw [hs] at hterm
        cases hterm
  | posted =>
      obtain ⟨t, ht, hs⟩ := h
      cases hkey t ht
      exact ⟨t', ht', he.status.trans hs⟩
  | mark status outcome =>
      obtain ⟨hstatus, houtcome, t, ht, hs⟩ := h
      cases hkey t ht
      exact ⟨hstatus, houtcome, t', ht', he.status.trans hs⟩
  | leaving outcome => exact fun ho ↦ (h ho).advance hw.toAdvance
  | returned outcome => exact fun ho ↦ (h ho).advance hw.toAdvance

theorem InputHandler.OkAt.rely {pid v : ℕ} {p : InputHandler} {w w' : World}
    (h : p.OkAt pid v w) (hinv : TurnInv w) (hw : Rely p.session w w')
    (hlock : w.locks p.session = some pid → w'.locks p.session = some pid) :
    p.OkAt pid v w' :=
  ⟨h.job.advance hw.toAdvance, fun hl ↦ hlock (h.lock hl), h.stage.rely h.job hinv hw⟩

/-- Before it has the lock and after it gave it back, a handler knows only what no step of
the system can undo. -/
theorem InputHandler.OkAt.advance {pid v : ℕ} {p : InputHandler} {w w' : World}
    (h : p.OkAt pid v w) (hp : p.stage.isLocked = false) (hw : Advance w w') :
    p.OkAt pid v w' := by
  refine ⟨h.job.advance hw, fun hl ↦ absurd hl (by simp [hp]), ?_⟩
  have hstage := h.stage
  cases hs : p.stage with
  | start => trivial
  | returned outcome =>
      rw [hs] at hstage
      exact fun ho ↦ (hstage ho).advance hw
  | _ =>
      rw [hs] at hp
      cases hp

end Discode

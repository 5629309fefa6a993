import Discode.CommandAuthority
import Discode.Origins

/-!
# What stems from commands

The bot runs the system: its handlers take the steps that users ask for, and only after they
have seen that the user may ask.  So every session was vetted by the `/start` it stems from, and
every input that reaches a tool was sent by somebody entitled to it.
-/

set_option autoImplicit false

namespace Discode.Commands

open ProcessPool (Machine)

variable {texts : Texts}

theorem Saw.next {r : BotRun texts} {τ : BotState}
    {a : ProcessPool.Action BotEnv Interaction HandlerAction} {pid : ℕ} {h : Handler} {f : Fact}
    (hsaw : Saw r pid h f) (hstep : (bot texts).step r.last a = some τ) :
    Saw (r.next hstep) pid h f :=
  Machine.Run.Earlier.next hsaw hstep

/-! ## The steps of the system -/

/-- The step of the system that a handler takes, with what it has seen before. -/
inductive Asked (r : BotRun texts) (pid : ℕ) (h : Handler) : SystemAction → Prop where
  | session {ref : Option PyStr} {op : SessionOp} {target : SessionId × SessionRow}
      {e : EnvAction} (hc : h.interaction.command = .session ref op)
      (he : op.request h.interaction.guildId target = some e)
      (hdenotes : Saw r pid h (.denotes target))
      (hentitled : Saw r pid h (.entitled target.1)) : Asked r pid h (.env e)
  | message {key : Key} {text : PyStr} {target : SessionId × SessionRow}
      (hc : h.interaction.command = .message key text)
      (hdenotes : Saw r pid h (.denotes target))
      (hentitled : Saw r pid h (.entitled target.1)) :
      Asked r pid h (.env (.input key target.1 h.interaction.guildId text))
  | start {request : StartRequest} {host : HostId} {thread : ThreadId} {sid : SessionId}
      {path : Path} (hc : h.interaction.command = .start request)
      (hoperates : Saw r pid h .operates) (hmapped : Saw r pid h .mapped)
      (hvalidated : Saw r pid h (.validated host (texts.pathText path)))
      (husable : Saw r pid h .usable) :
      Asked r pid h (.spawn (.createSaga (request.saga h.interaction sid host path thread)))

theorem perform_system (w : BotWorld) (a : SystemAction) :
    (w.perform a).system = w.system ∨ system.step w.system a = some (w.perform a).system := by
  unfold BotWorld.perform
  split
  · rename_i σ hσ
    exact .inr hσ
  · exact .inl rfl

theorem invite_system (w : BotWorld) (i : Interaction) (sid : SessionId) (invitee : UserId) :
    (invite w i sid invitee).system = w.system := by
  unfold invite
  split <;> rfl

theorem actGuild_system (w : BotWorld) (i : Interaction) (op : GuildOp) :
    (actGuild w i op).system = w.system := by
  cases op with
  | rootAdd path | aliasSet name path =>
      simp only [actGuild]
      split_ifs <;> rfl
  | _ => rfl

/-- A step of the bot leaves the system alone, is a step of the system that needs no command, or
one that a handler takes. -/
theorem step_system (r : BotRun texts) {τ : BotState}
    {a : ProcessPool.Action BotEnv Interaction HandlerAction}
    (hstep : (bot texts).step r.last a = some τ) :
    τ.shared.system = r.last.shared.system ∨
    ∃ b, system.step r.last.shared.system b = some τ.shared.system ∧
      (IsUserAction b = false ∨ ∃ pid h, Saw r pid h .served ∧ Asked r pid h b) := by
  rcases commands_are_authorized r hstep with huntouched | ⟨pid, b, h, -, -, hserved, hact⟩
  · rcases huntouched.system with hsame | ⟨b, huser, hb⟩
    · exact .inl hsame
    · exact .inr ⟨b, hb, .inl huser⟩
  · cases hact with
    | @session ref op target hc hw hdenotes hentitled =>
        rw [hw]
        cases op with
        | invite invitee => exact .inl (invite_system _ _ _ _)
        | _ =>
            refine (perform_system _ _).imp_right fun hb ↦ ⟨_, hb, .inr ⟨pid, h, hserved, ?_⟩⟩
            exact .session hc rfl hdenotes hentitled
    | message hc hw hdenotes hentitled =>
        rw [hw]
        refine (perform_system _ _).imp_right fun hb ↦ ⟨_, hb, .inr ⟨pid, h, hserved, ?_⟩⟩
        exact .message hc hdenotes hentitled
    | guild hc hw =>
        rw [hw]
        exact .inl (actGuild_system _ _ _)
    | start hc hpath hw hoperates hmapped hvalidated husable =>
        rw [hw]
        subst hpath
        refine (perform_system _ _).imp_right fun hb ↦ ⟨_, hb, .inr ⟨pid, h, hserved, ?_⟩⟩
        exact .start hc hoperates hmapped hvalidated husable

/-- The system under the bot is in one of its own states. -/
theorem bot_runs_system {σ : BotState} (h : BotReachable texts σ) :
    SystemReachable σ.shared.system := by
  obtain ⟨r, rfl⟩ := Machine.Run.of_reachable h
  clear h
  induction r using Machine.Run.induction with
  | hempty w hw =>
      obtain ⟨world, hfresh, hsystem⟩ := hw.system
      change SystemReachable w.system
      rw [hsystem]
      exact ⟨world, hfresh, .refl⟩
  | hnext r a τ hstep ih =>
      change SystemReachable τ.shared.system
      rcases step_system r hstep with hsame | ⟨b, hb, -⟩
      · rw [hsame]
        exact ih
      · exact ih.step trivial hb

/-! ## Sessions -/

/-- The request is that of a `/start` whose handler has seen all that it asks for. -/
def Vetted (r : BotRun texts) (req : CreateRequest) : Prop :=
  ∃ pid h request thread, h.interaction.command = .start request ∧
    req = request.saga h.interaction req.sessionId req.runnerHostId req.cwdRealpath thread ∧
    Saw r pid h .served ∧ Saw r pid h .operates ∧ Saw r pid h .mapped ∧
    Saw r pid h (.validated req.runnerHostId (texts.pathText req.cwdRealpath)) ∧
    Saw r pid h .usable

theorem Vetted.next {r : BotRun texts} {τ : BotState}
    {a : ProcessPool.Action BotEnv Interaction HandlerAction} {req : CreateRequest}
    (h : Vetted r req) (hstep : (bot texts).step r.last a = some τ) :
    Vetted (r.next hstep) req := by
  obtain ⟨pid, p, request, thread, hc, hreq, hserved, hoperates, hmapped, hvalid, husable⟩ := h
  exact ⟨pid, p, request, thread, hc, hreq, hserved.next hstep, hoperates.next hstep,
    hmapped.next hstep, hvalid.next hstep, husable.next hstep⟩

theorem sessionsFrom_vetted (r : BotRun texts) :
    SessionsFrom (Vetted r) r.last.shared.system := by
  induction r using Machine.Run.induction with
  | hempty w hw =>
      obtain ⟨world, hfresh, hsystem⟩ := hw.system
      change SessionsFrom _ w.system
      rw [hsystem]
      exact hfresh.sessionsFrom _
  | hnext r a τ hstep ih =>
      change SessionsFrom _ τ.shared.system
      have hlater : SessionsFrom (Vetted (r.next hstep)) r.last.shared.system :=
        ih.mono fun req hreq ↦ hreq.next hstep
      rcases step_system r hstep with hsame | ⟨b, hb, hasked⟩
      · rw [hsame]
        exact hlater
      · refine hlater.step hb fun req heq ↦ ?_
        subst heq
        rcases hasked with huser | ⟨pid, p, hserved, hasked⟩
        · cases huser
        · cases hasked with
          | start hc hoperates hmapped hvalidated husable =>
              exact Vetted.next ⟨pid, p, _, _, hc, rfl, hserved, hoperates, hmapped, hvalidated,
                husable⟩ hstep

/-- Every session stems from a `/start` in its guild by its owner, who could operate sessions
there: with a mapped channel, a tool that was enabled, fewer active sessions than allowed and a
directory that was accepted for the guild, the owner and the host. -/
theorem sessions_are_vetted (r : BotRun texts) (sid : SessionId) (row : SessionRow)
    (hrow : r.last.shared.db.session? sid = some row) : ∃ req, Vetted r req ∧ req.Makes sid row :=
  (sessionsFrom_vetted r).sessions sid row hrow

/-! ## Inputs -/

/-- The text that a command sends to its session. -/
inductive Sends : Command → Key → PyStr → Prop where
  | send (ref : Option PyStr) (key : Key) (text : PyStr) :
      Sends (.session ref (.send key text)) key (strip text)
  | message (key : Key) (text : PyStr) : Sends (.message key text) key text

/-- The input was sent by a command whose handler has seen that it is for the session, and that
the user may send to it. -/
def Entered (r : BotRun texts) (job : InputJobPayload) : Prop :=
  ∃ pid h row, Sends h.interaction.command job.idempotencyKey job.text ∧
    job.guildId = h.interaction.guildId ∧ Saw r pid h .served ∧
    Saw r pid h (.denotes (job.sessionId, row)) ∧
    Saw r pid h (.entitled job.sessionId)

theorem Entered.next {r : BotRun texts} {τ : BotState}
    {a : ProcessPool.Action BotEnv Interaction HandlerAction} {job : InputJobPayload}
    (h : Entered r job) (hstep : (bot texts).step r.last a = some τ) :
    Entered (r.next hstep) job := by
  obtain ⟨pid, p, row, hsends, hguild, hserved, hdenotes, hentitled⟩ := h
  exact ⟨pid, p, row, hsends, hguild, hserved.next hstep, hdenotes.next hstep,
    hentitled.next hstep⟩

theorem Asked.entered {r : BotRun texts} {pid : ℕ} {h : Handler} {key : Key} {sid : SessionId}
    {guildId : GuildId} {text : PyStr} (hserved : Saw r pid h .served)
    (hasked : Asked r pid h (.env (.input key sid guildId text))) {row : SessionRow}
    (hguild : row.guildId = guildId) (threadId : ThreadId) (hostId : HostId) :
    Entered r (acceptedJob key sid row threadId hostId text) := by
  generalize hb : (.env (.input key sid guildId text) : SystemAction) = b at hasked
  cases hasked with
  | @session ref op target e hc he hdenotes hentitled =>
      cases hb
      cases op with
      | send key' text' =>
          cases he
          refine ⟨pid, h, target.2, ?_, hguild, hserved, hdenotes, hentitled⟩
          rw [hc]
          exact .send ref _ _
      | _ => cases he
  | @message key' text' target hc hdenotes hentitled =>
      cases hb
      refine ⟨pid, h, target.2, ?_, hguild, hserved, hdenotes, hentitled⟩
      rw [hc]
      exact .message _ _
  | start => cases hb

/-- The session of `startedRun` is created and begun, its owner sends it a message, and the tool is
started with it. -/
def answeredRun : List (ProcessPool.Action BotEnv Interaction HandlerAction) :=
  startedRun ++ [.exec 3 (.runSaga 1 0)] ++
  (openRun 0 1 7 (pyStr "demo") 1 none none).tail.map (fun a ↦ .env (.system a)) ++
  [.spawn ⟨sampleAdmin, 1, 7, .session none (.send 100 (pyStr " hello"))⟩,
    .exec 4 (.resolve 1), .exec 4 .checkSession, .exec 4 .act] ++
  ((inputRun 3 100 1 1).tail ++ admitRun 4 ++ [.exec 4 (.input .start)] :
    List SystemAction).map (fun a ↦ .env (.system a))

def answeredState : BotState :=
  ((bot sampleTexts).run (.start sampleBot) answeredRun).get (by decide +kernel)

def answeredBotRun : BotRun sampleTexts :=
  ⟨sampleBot, sampleBot_fresh, answeredRun, answeredState, (Option.some_get _).symm⟩

theorem sessions_are_vetted_answered : ∃ row, answeredState.shared.db.session? 1 = some row ∧
    ∃ req, Vetted answeredBotRun req ∧ req.Makes 1 row := by
  obtain ⟨row, hrow⟩ : ∃ row, answeredState.shared.db.session? 1 = some row :=
    Option.isSome_iff_exists.mp (by decide +kernel)
  exact ⟨row, hrow, sessions_are_vetted answeredBotRun 1 row hrow⟩

end Discode.Commands

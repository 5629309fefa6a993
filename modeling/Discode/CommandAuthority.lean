import Discode.BotCommands
import Discode.Library.EarlierFacts

/-!
# Who acts on what

Whatever a command changes, its handler has seen earlier that the actor may do so.
-/

set_option autoImplicit false

namespace Discode.Commands

open AdminAuth (HoldsAdminRole canOperateSessions isGuildAllowed)
open ProcessPool (Machine)
open WorkspacePaths (canonicalizePath validateWorkspace)

/-! ## Facts -/

/-- The actor holds the admin role of the guild. -/
def Admin (w : BotWorld) (i : Interaction) : Prop :=
  HoldsAdminRole i.actor.roles (w.policies i.guildId)

/-- The actor is the owner of the session. -/
def Owner (w : BotWorld) (i : Interaction) (sid : SessionId) : Prop :=
  ∃ row, w.db.session? sid = some row ∧ row.ownerId = i.actor.userId

/-- The actor is the owner or a member of the session. -/
def Member (w : BotWorld) (i : Interaction) (sid : SessionId) : Prop :=
  ∃ row, w.db.session? sid = some row ∧
    (row.ownerId = i.actor.userId ∨ (sid, i.actor.userId) ∈ w.members)

/-- The actor may operate sessions of the guild. -/
def Operator (w : BotWorld) (i : Interaction) : Prop :=
  i.actor.userId ∈ w.auth.platformAdminUserIds ∨ Admin w i

/-- The actor may do so with the session. -/
def Entitled (w : BotWorld) (i : Interaction) (sid : SessionId) : Prop :=
  match i.command with
  | .session _ (.send _ _) => Member w i sid ∨ Admin w i
  | .session _ _ => Owner w i sid ∨ Admin w i
  | .message _ _ => Member w i sid
  | _ => False

/-- The actor may do so in the guild. -/
def Manages (w : BotWorld) (i : Interaction) : Prop :=
  match i.command with
  | .guild .setupInit | .guild (.adminRoleSet _ _) => i.actor.manageGuild = true ∨ Admin w i
  | .guild (.rootAdd _) => Operator w i
  | .guild _ => Admin w i
  | _ => False

/-- What a handler sees before it acts. -/
inductive Fact where
  | served
  | denotes (target : SessionId × SessionRow)
  | entitled (sid : SessionId)
  | manages
  | operates
  | mapped
  | validated (host : HostId) (real : PyStr)
  | usable

/-- The session of a command, or the live one of the thread of a message. -/
def Names (texts : Texts) (w : BotWorld) (i : Interaction) (target : SessionId × SessionRow) :
    Prop :=
  match i.command with
  | .session ref _ => Denotes texts w i ref target
  | .message _ _ => resolveSessionForThread w.db i.channelId i.guildId = some target ∧
      target.2.status.isLive = true
  | _ => False

def StartRequest.Usable (request : StartRequest) (w : BotWorld) (i : Interaction) : Prop :=
  ∃ tool, w.tools request.tool = some tool ∧ tool.enabled = true ∧ tool.sentinel = false ∧
    w.db.activeSessionCount i.guildId i.actor.userId <
      w.system.shared.settings.maxActiveSessionsPerUser

def Fact.Holds (texts : Texts) (w : BotWorld) (i : Interaction) : Fact → Prop
  | .served => isGuildAllowed w.auth (some i.guildId) = true
  | .denotes target => Names texts w i target ∧
      w.db.session? target.1 = some target.2
  | .entitled sid => Entitled w i sid
  | .manages => Manages w i
  | .operates => Operator w i
  | .mapped => ∃ request, i.command = .start request ∧
      (w.channels i.guildId request.tool).isSome = true
  | .validated host real => ∃ cwd,
      validateWorkspace (.answer (canonicalizePath w.fs cwd)) (w.db.runnerHosts.get? host) w.roots
        i.guildId i.actor.userId host = .ok real
  | .usable => ∃ request, i.command = .start request ∧
      request.Usable w i

def StartStage.facts : StartStage → List Fact
  | .host | .channel _ => []
  | .cwd _ | .workspace _ _ => [.mapped]
  | .tool hostId real => [.mapped, .validated hostId real]
  | .thread hostId real | .saga hostId real _ => [.mapped, .validated hostId real, .usable]

/-- What a handler has seen by now. -/
def Stage.facts : Stage → List Fact
  | .begun => [.served]
  | .resolved target | .stranger target => [.served, .denotes target]
  | .granted target => [.served, .denotes target, .entitled target.1]
  | .permitted => [.served, .manages]
  | .start stage => .served :: .operates :: stage.facts

variable {texts : Texts} {w : BotWorld} {i : Interaction}

theorem isAdmin_iff : isAdmin w i = true ↔ Admin w i := AdminAuth.isGuildAdminAuthorized_iff

theorem operator_iff : canOperateSessions w.auth (w.policies i.guildId) i.actor.userId
    i.actor.roles = true ↔ Operator w i := by
  rw [canOperateSessions, Bool.or_eq_true, List.contains_iff_mem]
  exact or_congr_right isAdmin_iff

theorem member_of_isOwn {sid : SessionId} {row : SessionRow} (hrow : w.db.session? sid = some row)
    (h : isOwn w i sid row = true) : Member w i sid :=
  ⟨row, hrow, of_decide_eq_true h⟩

theorem manages_of_check {op : GuildOp} (hc : i.command = .guild op)
    (h : checkGuild w i op = true) : Manages w i := by
  unfold Manages
  rw [hc]
  cases op with
  | setupInit => exact ((Bool.or_eq_true _ _).mp h).imp_right isAdmin_iff.mp
  | adminRoleSet roleId roleName => exact ((Bool.or_eq_true _ _).mp h).imp_right isAdmin_iff.mp
  | rootAdd path => exact operator_iff.mp h
  | mapSet tool channel => exact isAdmin_iff.mp h
  | mapRemove tool => exact isAdmin_iff.mp h
  | aliasSet name path => exact isAdmin_iff.mp h
  | aliasRemove name => exact isAdmin_iff.mp h

/-- A granted check is one of the owner, or for `/send` of a member. -/
theorem entitled_of_granted {ref : Option PyStr} {op : SessionOp} {sid : SessionId}
    (hc : i.command = .session ref op) (h : checkSession w i sid op = .granted) :
    Entitled w i sid := by
  unfold Entitled
  rw [hc]
  cases op with
  | send key text =>
      simp only [checkSession] at h
      split at h
      · rename_i row hrow
        split_ifs at h with hown
        exact .inl (member_of_isOwn hrow hown)
      · cases h
  | invite invitee =>
      simp only [checkSession] at h
      split at h
      · rename_i row hrow
        split_ifs at h with howner
        exact .inl ⟨row, hrow, howner⟩
      · cases h
  | stop | archive | resume | restart =>
      simp only [checkSession] at h
      split at h
      · rename_i row hrow
        split_ifs at h with hguild howner
        exact .inl ⟨row, hrow, howner⟩
      · cases h

theorem entitled_of_admin {ref : Option PyStr} {op : SessionOp} {sid : SessionId}
    (hc : i.command = .session ref op) (h : Admin w i) : Entitled w i sid := by
  unfold Entitled
  rw [hc]
  cases op <;> exact .inr h

/-! ## What a handler can do -/

/-- One step of a handler, with the world and the handler afterwards. -/
inductive HandlerStep (texts : Texts) (w : BotWorld) :
    Handler → HandlerAction → BotWorld → Option Handler → Prop where
  | leave (h : Handler) : HandlerStep texts w h .leave w none
  | resolve {i : Interaction} {ref : Option PyStr} {op : SessionOp} {sid : SessionId}
      {row : SessionRow} (hc : i.command = .session ref op)
      (hrow : w.db.session? sid = some row) (hdenotes : Denotes texts w i ref (sid, row)) :
      HandlerStep texts w ⟨i, .begun⟩ (.resolve sid) w (some ⟨i, .resolved (sid, row)⟩)
  | message {i : Interaction} {key : Key} {text : PyStr} {sid : SessionId} {row : SessionRow}
      (hc : i.command = .message key text) (hrow : w.db.session? sid = some row)
      (hthread : resolveSessionForThread w.db i.channelId i.guildId = some (sid, row))
      (hlive : row.status.isLive = true) (hown : isOwn w i sid row = true) :
      HandlerStep texts w ⟨i, .begun⟩ (.resolve sid) w (some ⟨i, .granted (sid, row)⟩)
  | permit {i : Interaction} {op : GuildOp} (hc : i.command = .guild op)
      (hcheck : checkGuild w i op = true) :
      HandlerStep texts w ⟨i, .begun⟩ .checkAdmin w (some ⟨i, .permitted⟩)
  | operate {i : Interaction} {request : StartRequest} (hc : i.command = .start request)
      (hcheck : Operator w i) :
      HandlerStep texts w ⟨i, .begun⟩ .checkAdmin w (some ⟨i, .start .host⟩)
  | own {i : Interaction} {ref : Option PyStr} {op : SessionOp}
      {target : SessionId × SessionRow} (hc : i.command = .session ref op)
      (hcheck : checkSession w i target.1 op = .granted) :
      HandlerStep texts w ⟨i, .resolved target⟩ .checkSession w (some ⟨i, .granted target⟩)
  | ask {i : Interaction} {ref : Option PyStr} {op : SessionOp}
      {target : SessionId × SessionRow} (hc : i.command = .session ref op) :
      HandlerStep texts w ⟨i, .resolved target⟩ .checkSession w (some ⟨i, .stranger target⟩)
  | admin {i : Interaction} {ref : Option PyStr} {op : SessionOp}
      {target : SessionId × SessionRow} (hc : i.command = .session ref op)
      (hcheck : Admin w i) :
      HandlerStep texts w ⟨i, .stranger target⟩ .checkAdmin w (some ⟨i, .granted target⟩)
  | actSession {i : Interaction} {ref : Option PyStr} {op : SessionOp}
      {target : SessionId × SessionRow} (hc : i.command = .session ref op) :
      HandlerStep texts w ⟨i, .granted target⟩ .act (actSession w i op target) none
  | actMessage {i : Interaction} {key : Key} {text : PyStr}
      {target : SessionId × SessionRow} (hc : i.command = .message key text) :
      HandlerStep texts w ⟨i, .granted target⟩ .act
        (w.perform (.env (.input key target.1 i.guildId text))) none
  | actGuild {i : Interaction} {op : GuildOp} (hc : i.command = .guild op) :
      HandlerStep texts w ⟨i, .permitted⟩ .act (actGuild w i op) none
  | runSaga {i : Interaction} {request : StartRequest} {host : HostId} {real : PyStr}
      {thread : ThreadId} {sid : SessionId} {path : Path} (hc : i.command = .start request)
      (hpath : texts.pathText path = real) :
      HandlerStep texts w ⟨i, .start (.saga host real thread)⟩ (.runSaga sid path)
        (w.perform (.spawn (.createSaga (request.saga i sid host path thread)))) none
  | start {i : Interaction} {request : StartRequest} {stage stage' : StartStage}
      {a : HandlerAction} (hc : i.command = .start request)
      (hstep : stepStart texts w i request stage a = some stage') :
      HandlerStep texts w ⟨i, .start stage⟩ a w (some ⟨i, .start stage'⟩)

theorem step_cases {h : Handler} {a : HandlerAction} {w' : BotWorld} {h' : Option Handler}
    (hstep : h.step texts w a = some (w', h')) : HandlerStep texts w h a w' h' := by
  obtain ⟨i, stage⟩ := h
  unfold Handler.step at hstep
  dsimp only at hstep
  split at hstep
  · cases hstep
    exact .leave _
  · rename_i sid
    obtain ⟨next, hnext, heq⟩ := Option.map_eq_some_iff.mp hstep
    cases heq
    unfold stepResolve at hnext
    split at hnext
    · rename_i hc hrow
      split_ifs at hnext with hdenotes
      cases hnext
      exact .resolve hc hrow hdenotes
    · rename_i hc hrow
      split_ifs at hnext with hchecks
      cases hnext
      exact .message hc hrow hchecks.1 hchecks.2.1 hchecks.2.2
    · cases hnext
  · split at hstep
    · rename_i op hc
      obtain ⟨next, hnext, heq⟩ := Option.map_eq_some_iff.mp hstep
      cases heq
      split_ifs at hnext with hcheck
      cases hnext
      exact .permit hc hcheck
    · rename_i request hc
      obtain ⟨next, hnext, heq⟩ := Option.map_eq_some_iff.mp hstep
      cases heq
      split_ifs at hnext with hcheck
      cases hnext
      exact .operate hc (operator_iff.mp hcheck)
    · cases hstep
  · split at hstep
    · rename_i ref op hc
      split at hstep
      · rename_i hcheck
        cases hstep
        exact .own hc hcheck
      · cases hstep
        exact .ask hc
      · cases hstep
    · cases hstep
  · split at hstep
    · rename_i ref op hc
      obtain ⟨next, hnext, heq⟩ := Option.map_eq_some_iff.mp hstep
      cases heq
      split_ifs at hnext with hcheck
      cases hnext
      exact .admin hc (isAdmin_iff.mp hcheck)
    · cases hstep
  · split at hstep
    · rename_i ref op hc
      cases hstep
      exact .actSession hc
    · rename_i key text hc
      cases hstep
      exact .actMessage hc
    · cases hstep
  · split at hstep
    · rename_i op hc
      cases hstep
      exact .actGuild hc
    · cases hstep
  · split at hstep
    · rename_i request hc
      split_ifs at hstep with hpath
      cases hstep
      exact .runSaga hc hpath
    · cases hstep
  · split at hstep
    · rename_i request hc
      obtain ⟨next, hnext, heq⟩ := Option.map_eq_some_iff.mp hstep
      cases heq
      obtain ⟨stage', hstage, rfl⟩ := Option.map_eq_some_iff.mp hnext
      exact .start hc hstage
    · cases hstep
  · cases hstep

/-! ## What a handler has seen -/

/-- A step of `_start_handler` sees what it adds. -/
theorem facts_of_stepStart {request : StartRequest} {stage stage' : StartStage}
    {a : HandlerAction} (hc : i.command = .start request)
    (h : stepStart texts w i request stage a = some stage') :
    ∀ f ∈ stage'.facts, f.Holds texts w i ∨ f ∈ stage.facts := by
  unfold stepStart at h
  split at h
  · split at h
    · split_ifs at h
      cases h
      simp [StartStage.facts]
    · split_ifs at h
      cases h
      simp [StartStage.facts]
  · split_ifs at h with hmapped
    cases h
    intro f hf
    rw [StartStage.facts, List.mem_singleton] at hf
    subst hf
    exact .inl ⟨request, hc, hmapped⟩
  · split_ifs at h
    obtain ⟨cwd, -, rfl⟩ := Option.map_eq_some_iff.mp h
    exact fun f hf ↦ .inr hf
  · rename_i host cwd
    split at h
    · rename_i real hok
      cases h
      intro f hf
      rcases List.mem_cons.mp hf with rfl | hf
      · exact .inr (List.mem_singleton_self _)
      · rw [List.mem_singleton] at hf
        subst hf
        exact .inl ⟨cwd, hok⟩
    · cases h
  · rename_i host real
    split at h
    · rename_i tool htool
      split_ifs at h with hchecks
      cases h
      intro f hf
      simp only [StartStage.facts, List.mem_cons, List.not_mem_nil, or_false] at hf ⊢
      rcases hf with rfl | rfl | rfl
      · exact .inr (.inl rfl)
      · exact .inr (.inr rfl)
      · simp only [Bool.and_eq_true, Bool.not_eq_true', decide_eq_true_eq] at hchecks
        exact .inl ⟨request, hc, tool, htool, hchecks.1.1, hchecks.1.2, hchecks.2⟩
    · cases h
  · cases h
    exact fun f hf ↦ .inr hf
  · cases h

/-- A step that goes on changes nothing, and the handler has seen what it goes by. -/
theorem step_goes_on {h h' : Handler} {a : HandlerAction} {w' : BotWorld}
    (hstep : h.step texts w a = some (w', some h')) :
    w' = w ∧ h'.interaction = h.interaction ∧
      ∀ f ∈ h'.stage.facts, f.Holds texts w h.interaction ∨ f ∈ h.stage.facts := by
  generalize hnext : some h' = next at hstep
  cases step_cases hstep with
  | leave => cases hnext
  | @resolve i ref op sid row hc hrow hdenotes =>
      cases hnext
      refine ⟨rfl, rfl, fun f hf ↦ ?_⟩
      simp only [Stage.facts, List.mem_cons, List.not_mem_nil, or_false] at hf ⊢
      rcases hf with rfl | rfl
      · exact .inr rfl
      · refine .inl ⟨?_, hrow⟩
        simp only [Names, hc]
        exact hdenotes
  | @message i key text sid row hc hrow hthread hlive hown =>
      cases hnext
      refine ⟨rfl, rfl, fun f hf ↦ ?_⟩
      simp only [Stage.facts, List.mem_cons, List.not_mem_nil, or_false] at hf ⊢
      rcases hf with rfl | rfl | rfl
      · exact .inr rfl
      · refine .inl ⟨?_, hrow⟩
        simp only [Names, hc]
        exact ⟨hthread, hlive⟩
      · left
        simp only [Fact.Holds, Entitled, hc]
        exact member_of_isOwn hrow hown
  | permit hc hcheck =>
      cases hnext
      refine ⟨rfl, rfl, fun f hf ↦ ?_⟩
      simp only [Stage.facts, List.mem_cons, List.not_mem_nil, or_false] at hf ⊢
      rcases hf with rfl | rfl
      · exact .inr rfl
      · exact .inl (manages_of_check hc hcheck)
  | operate hc hcheck =>
      cases hnext
      refine ⟨rfl, rfl, fun f hf ↦ ?_⟩
      simp only [Stage.facts, StartStage.facts, List.mem_cons, List.not_mem_nil, or_false] at hf ⊢
      rcases hf with rfl | rfl
      · exact .inr rfl
      · exact .inl hcheck
  | own hc hcheck =>
      cases hnext
      refine ⟨rfl, rfl, fun f hf ↦ ?_⟩
      simp only [Stage.facts, List.mem_cons, List.not_mem_nil, or_false] at hf ⊢
      rcases hf with rfl | rfl | rfl
      · exact .inr (.inl rfl)
      · exact .inr (.inr rfl)
      · exact .inl (entitled_of_granted hc hcheck)
  | ask hc =>
      cases hnext
      exact ⟨rfl, rfl, fun f hf ↦ .inr hf⟩
  | admin hc hcheck =>
      cases hnext
      refine ⟨rfl, rfl, fun f hf ↦ ?_⟩
      simp only [Stage.facts, List.mem_cons, List.not_mem_nil, or_false] at hf ⊢
      rcases hf with rfl | rfl | rfl
      · exact .inr (.inl rfl)
      · exact .inr (.inr rfl)
      · exact .inl (entitled_of_admin hc hcheck)
  | actSession => cases hnext
  | actMessage => cases hnext
  | actGuild => cases hnext
  | runSaga => cases hnext
  | start hc hstart =>
      cases hnext
      refine ⟨rfl, rfl, fun f hf ↦ ?_⟩
      simp only [Stage.facts, List.mem_cons] at hf ⊢
      rcases hf with rfl | rfl | hf
      · exact .inr (.inl rfl)
      · exact .inr (.inr (.inl rfl))
      · exact (facts_of_stepStart hc hstart f hf).imp_right fun h ↦ .inr (.inr h)

theorem bot_reads (texts : Texts) : Machine.Reads (bot texts) Handler.interaction
    (fun h f ↦ f ∈ h.stage.facts) (fun w i f ↦ f.Holds texts w i) where
  spawn σ i w h f hstep hf := by
    simp only [bot] at hstep
    split_ifs at hstep with hserved
    cases hstep
    simp only [Stage.facts, List.mem_singleton] at hf
    subst hf
    unfold isServed at hserved
    exact ((Bool.and_eq_true _ _).mp hserved).1
  exec σ pid h a w h' f hstep hf := (step_goes_on hstep).2.2 f hf
  serves σ pid h a w h' hstep := (step_goes_on hstep).2.1

/-- A run of the bot, from a fresh deployment. -/
abbrev BotRun (texts : Texts) := Machine.Run (bot texts) FreshBot

/-- Earlier in the run, when the handler of the interaction was under way, the fact was so. -/
def Saw (r : BotRun texts) (pid : ℕ) (h : Handler) (f : Fact) : Prop :=
  r.Earlier fun ρ ↦ ∃ q, ρ.procs pid = some q ∧ q.interaction = h.interaction ∧
    f.Holds texts ρ.shared h.interaction

theorem saw_of_facts (r : BotRun texts) {pid : ℕ} {h : Handler} (hp : r.last.procs pid = some h)
    {f : Fact} (hf : f ∈ h.stage.facts) : Saw r pid h f :=
  (bot_reads texts).earlier r pid h f hp hf

/-! ## The acts -/

/-- What belongs to guilds and sessions is as it was, and the system has taken no step or one
that needs no command. -/
structure Untouched (w w' : BotWorld) : Prop where
  policies : w'.policies = w.policies
  members : w'.members = w.members
  channels : w'.channels = w.channels
  aliases : w'.aliases = w.aliases
  roots : w'.roots = w.roots
  system : w'.system = w.system ∨
    ∃ a, IsUserAction a = false ∧ system.step w.system a = some w'.system

/-- A handler acts after it has seen that it may. -/
inductive Act (r : BotRun texts) (pid : ℕ) (h : Handler) (w' : BotWorld) : Prop where
  | session {ref : Option PyStr} {op : SessionOp} {target : SessionId × SessionRow}
      (hc : h.interaction.command = .session ref op)
      (hw : w' = actSession r.last.shared h.interaction op target)
      (hdenotes : Saw r pid h (.denotes target))
      (hentitled : Saw r pid h (.entitled target.1))
  | message {key : Key} {text : PyStr} {target : SessionId × SessionRow}
      (hc : h.interaction.command = .message key text)
      (hw : w' = r.last.shared.perform (.env (.input key target.1 h.interaction.guildId text)))
      (hdenotes : Saw r pid h (.denotes target))
      (hentitled : Saw r pid h (.entitled target.1))
  | guild {op : GuildOp} (hc : h.interaction.command = .guild op)
      (hw : w' = actGuild r.last.shared h.interaction op) (hmanages : Saw r pid h .manages)
  | start {request : StartRequest} {host : HostId} {real : PyStr} {thread : ThreadId}
      {sid : SessionId} {path : Path} (hc : h.interaction.command = .start request)
      (hpath : texts.pathText path = real)
      (hw : w' = r.last.shared.perform
        (.spawn (.createSaga (request.saga h.interaction sid host path thread))))
      (hoperates : Saw r pid h .operates) (hmapped : Saw r pid h .mapped)
      (hvalidated : Saw r pid h (.validated host real))
      (husable : Saw r pid h .usable)

theorem Untouched.refl (w : BotWorld) : Untouched w w := ⟨rfl, rfl, rfl, rfl, rfl, .inl rfl⟩

theorem botEnv_untouched {w w' : BotWorld} {e : BotEnv} (h : botEnv w e = some w') :
    Untouched w w' := by
  cases e with
  | system a =>
      simp only [botEnv] at h
      split_ifs at h with huser
      obtain ⟨σ, hσ, rfl⟩ := Option.map_eq_some_iff.mp h
      exact ⟨rfl, rfl, rfl, rfl, rfl, .inr ⟨a, Bool.eq_false_iff.mpr huser, hσ⟩⟩
  | configure auth enable =>
      cases h
      exact ⟨rfl, rfl, rfl, rfl, rfl, .inl rfl⟩
  | links realpath fs =>
      cases h
      exact ⟨rfl, rfl, rfl, rfl, rfl, .inl rfl⟩
  | tools tools =>
      cases h
      exact ⟨rfl, rfl, rfl, rfl, rfl, .inl rfl⟩

/-- A step of a run leaves guilds and sessions alone but for what runners, janitors, relays and other
background work do; or it is the act of a command of the guild, whose handler has seen at an earlier
time that the actor may do so, and that the session is the one that the command names. -/
theorem commands_are_authorized (r : BotRun texts) {τ : BotState} {a : ProcessPool.Action BotEnv
    Interaction HandlerAction} (hstep : (bot texts).step r.last a = some τ) :
    Untouched r.last.shared τ.shared ∨ ∃ pid b h, a = .exec pid b ∧ r.last.procs pid = some h ∧
      Saw r pid h .served ∧ Act r pid h τ.shared := by
  obtain ⟨e, w, rfl, he, rfl⟩ | ⟨i, w, h, rfl, hi, rfl⟩ | ⟨pid, b, h, w, h', rfl, hp, hb, rfl⟩ :=
    Machine.step_cases hstep
  · exact .inl (botEnv_untouched he)
  · simp only [bot] at hi
    split_ifs at hi
    cases hi
    exact .inl (.refl _)
  · cases h' with
    | some h' =>
        rw [(step_goes_on hb).1]
        exact .inl (.refl _)
    | none =>
        have hsaw := fun {f} hf ↦ saw_of_facts r hp (f := f) hf
        generalize hnone : (none : Option Handler) = next at hb
        cases step_cases hb with
        | leave => exact .inl (.refl _)
        | actSession hc =>
            refine .inr ⟨pid, _, _, rfl, hp, hsaw (by simp [Stage.facts]), ?_⟩
            exact .session hc rfl (hsaw (by simp [Stage.facts])) (hsaw (by simp [Stage.facts]))
        | actMessage hc =>
            refine .inr ⟨pid, _, _, rfl, hp, hsaw (by simp [Stage.facts]), ?_⟩
            exact .message hc rfl (hsaw (by simp [Stage.facts])) (hsaw (by simp [Stage.facts]))
        | actGuild hc =>
            refine .inr ⟨pid, _, _, rfl, hp, hsaw (by simp [Stage.facts]), ?_⟩
            exact .guild hc rfl (hsaw (by simp [Stage.facts]))
        | runSaga hc hpath =>
            refine .inr ⟨pid, _, _, rfl, hp, hsaw (by simp [Stage.facts]), ?_⟩
            exact .start hc hpath rfl (hsaw (by simp [Stage.facts]))
              (hsaw (by simp [Stage.facts, StartStage.facts]))
              (hsaw (by simp [Stage.facts, StartStage.facts]))
              (hsaw (by simp [Stage.facts, StartStage.facts]))
        | _ => cases hnone

def sampleTexts : Texts where
  uuid ref := if ref = pyStr "00000000-0000-4000-8000-000000000001" then some 1 else none
  uuidText sid := pyStr "00000000-0000-4000-8000-00000000000" ++ [0x30 + sid]
  toolText tool := List.replicate tool 0x61
  pathText path := pyStr "/srv/work" ++ List.replicate path 0x61

/-- A fresh deployment for guilds 1 and 2 on host 5; every path leads to one directory. -/
def sampleBot : BotWorld where
  system := .start deployment
  auth := ⟨[9], [1, 2]⟩
  enableMessageContentInput := true
  runnerHostId := 5
  realpath := WorkspacePaths.srvPolicy.realpath
  fs := ⟨WorkspacePaths.srvPolicy.realpath, fun _ ↦ true, fun _ ↦ true⟩
  policies _ := none
  members := []
  channels _ _ := none
  aliases _ _ := none
  roots := []
  tools _ := some ⟨true, false⟩

theorem sampleBot_fresh : FreshBot sampleBot :=
  ⟨⟨deployment, deployment_fresh, rfl⟩, rfl, rfl, rfl, rfl, rfl⟩

/-- A guild command with the steps of its handler. -/
def guildRun (pid : ℕ) (actor : Actor) (op : GuildOp) :
    List (ProcessPool.Action BotEnv Interaction HandlerAction) :=
  [.spawn ⟨actor, 1, 70, .guild op⟩, .exec pid .checkAdmin, .exec pid .act]

def sampleManager : Actor := ⟨5, ⟨[], []⟩, true⟩
def sampleAdmin : Actor := ⟨6, ⟨[50], [pyStr "ops"]⟩, false⟩

/-- Somebody who manages the guild names its admin role, an admin sets the guild up and starts a
session. -/
def startedRun : List (ProcessPool.Action BotEnv Interaction HandlerAction) :=
  guildRun 0 sampleManager (.adminRoleSet 50 (pyStr "ops")) ++
  guildRun 1 sampleAdmin (.mapSet 1 70) ++
  guildRun 2 sampleAdmin (.aliasSet (pyStr "work") (pyStr "/srv/work")) ++
  [.env (.system (.env (.heartbeat 5))),
    .spawn ⟨sampleAdmin, 1, 70, .start ⟨1, pyStr "demo", pyStr "work", some 5⟩⟩,
    .exec 3 .checkAdmin, .exec 3 (.pickHost 5), .exec 3 .mapChannel, .exec 3 .resolveCwd,
    .exec 3 .validate, .exec 3 .checkTool, .exec 3 (.createThread 7)]

def startedState : BotState :=
  ((bot sampleTexts).run (.start sampleBot) startedRun).get (by decide +kernel)

theorem startedState_reachable : BotReachable sampleTexts startedState :=
  Machine.reachable_of_run sampleBot_fresh (Option.some_get _).symm

/-- An admin is about to map a channel to a tool. -/
def mappingState : BotState :=
  ((bot sampleTexts).run (.start sampleBot) (startedRun.take 5)).get (by decide +kernel)

def mappingRun : BotRun sampleTexts :=
  ⟨sampleBot, sampleBot_fresh, startedRun.take 5, mappingState, (Option.some_get _).symm⟩

def mappedState : BotState :=
  ((bot sampleTexts).step mappingState (.exec 1 .act)).get (by decide +kernel)

theorem commands_are_authorized_mapped :
    mappedState.shared.channels 1 1 = some 70 ∧ ∃ h, mappingState.procs 1 = some h ∧
      Saw mappingRun 1 h .served ∧ Act mappingRun 1 h mappedState.shared := by
  have hmapped : mappedState.shared.channels 1 1 = some 70 := by decide +kernel
  refine ⟨hmapped, ?_⟩
  rcases commands_are_authorized mappingRun (a := .exec 1 .act) (Option.some_get _).symm with
    hsame | ⟨pid, b, h, ha, hp, hserved, hact⟩
  · -- The channel was not mapped before.
    have hbefore : mappingState.shared.channels 1 1 = none := by decide +kernel
    have hafter : mappedState.shared.channels 1 1 = none :=
      (congrFun (congrFun hsame.channels 1) 1).trans hbefore
    rw [hmapped] at hafter
    cases hafter
  · cases ha
    exact ⟨h, hp, hserved, hact⟩

end Discode.Commands

import Discode.AdminAuth
import Discode.SessionIdentity
import Discode.ToolService
import Discode.WorkspaceJobs

/-!
# The commands of the bot

The handlers of `bot/main.py` over the system.  A handler resolves what its command is about,
checks who issues it and then acts, each in a transaction of its own; the rest of the system
and other handlers may take steps in between.
-/

set_option autoImplicit false

namespace Discode.Commands

open AdminAuth (AdminRolePolicy AuthSettings HoldsAdminRole MemberRoles RoleId
  canOperateSessions isGuildAdminAuthorized isGuildAllowed)
open WorkspacePaths (AllowedRoot FileSystem RealPath canonicalize canonicalizePath
  validateWorkspace)

/-! ## Interactions -/

structure Actor where
  userId : UserId
  roles : MemberRoles
  /-- The Discord permission `manage_guild`. -/
  manageGuild : Bool

inductive SessionOp where
  | send (key : Key) (text : PyStr)
  | stop
  | archive
  | resume
  | restart
  | invite (invitee : UserId)

inductive GuildOp where
  | setupInit
  | adminRoleSet (roleId : RoleId) (roleName : PyStr)
  | mapSet (tool : ToolName) (channel : ThreadId)
  | mapRemove (tool : ToolName)
  | rootAdd (path : PyStr)
  /-- Also `/root add` with an alias. -/
  | aliasSet (name path : PyStr)
  | aliasRemove (name : PyStr)

structure StartRequest where
  tool : ToolName
  name : PyStr
  cwd : PyStr
  runnerHostId : Option HostId

inductive Command where
  | session (ref : Option PyStr) (op : SessionOp)
  /-- A message in a thread. -/
  | message (key : Key) (text : PyStr)
  | guild (op : GuildOp)
  | start (request : StartRequest)

structure Interaction where
  actor : Actor
  guildId : GuildId
  channelId : ThreadId
  command : Command

/-- Identifiers and paths as texts. -/
structure Texts where
  /-- `uuid.UUID`. -/
  uuid : PyStr → Option SessionId
  /-- `str` of a session id. -/
  uuidText : SessionId → PyStr
  toolText : ToolName → PyStr
  pathText : Path → PyStr

/-- The columns of `tool_definitions` that `/start` reads. -/
structure ToolInfo where
  enabled : Bool
  /-- `resume_token_source` is `sentinel`. -/
  sentinel : Bool

structure BotWorld where
  system : SystemState
  auth : AuthSettings
  enableMessageContentInput : Bool
  /-- `RUNNER_HOST_ID`. -/
  runnerHostId : HostId
  /-- `os.path.realpath` of the bot. -/
  realpath : PyStr → RealPath
  /-- The file system behind the control API. -/
  fs : FileSystem
  /-- `guild_admin_role_policy`. -/
  policies : GuildId → Option AdminRolePolicy
  /-- The rows of `session_members` but those of the owners. -/
  members : List (SessionId × UserId)
  /-- `guild_tool_channel_map`. -/
  channels : GuildId → ToolName → Option ThreadId
  /-- `path_aliases`. -/
  aliases : GuildId → PyStr → Option RealPath
  /-- `allowed_roots`. -/
  roots : List AllowedRoot
  tools : ToolName → Option ToolInfo

variable (texts : Texts) (w : BotWorld) (i : Interaction)

def BotWorld.db : Database := w.system.shared.db

/-! ## Resolution of a session -/

/-- A name in `resolve_session_target` that may also be the start of an id. -/
def isHexRef (ref : PyStr) : Bool :=
  8 ≤ ref.length && ref.length ≤ 35 && ref.all fun c ↦ (0x30 ≤ c && c ≤ 0x39) ||
    (0x41 ≤ c && c ≤ 0x46) || (0x61 ≤ c && c ≤ 0x66) || c == 0x2d

def isAdmin : Bool := isGuildAdminAuthorized (w.policies i.guildId) i.actor.roles

/-- The actor owns the session or is a member of it. -/
def isOwn (sid : SessionId) (row : SessionRow) : Bool :=
  row.ownerId = i.actor.userId ∨ (sid, i.actor.userId) ∈ w.members

/-- The rows of the guild that the actor may name. -/
def scope : List (SessionId × SessionRow) :=
  w.db.sessions.entries.filter fun e ↦
    e.2.guildId = i.guildId ∧ (isAdmin w i = true ∨ isOwn w i e.1 e.2 = true)

/-- `ORDER BY created_at DESC LIMIT 1`. -/
def IsLatest (rows : List (SessionId × SessionRow)) (target : SessionId × SessionRow) : Prop :=
  target ∈ rows ∧ ∀ e ∈ rows, e.2.createdAt ≤ target.2.createdAt

instance (rows : List (SessionId × SessionRow)) (target : SessionId × SessionRow) :
    Decidable (IsLatest rows target) := by
  unfold IsLatest
  infer_instance

/-- The rows that a reference fits. -/
def matching (ref : PyStr) : List (SessionId × SessionRow) :=
  match texts.uuid ref with
  | some sid => (scope w i).filter fun e ↦ e.1 = sid
  | none =>
      if isHexRef ref then (scope w i).filter fun e ↦
        Tools.lower ref <+: Tools.lower (texts.uuidText e.1) ∨ e.2.name = ref
      else (scope w i).filter fun e ↦ e.2.name = ref

/-- `resolve_session_target` may return the session. -/
def Denotes (ref : Option PyStr) (target : SessionId × SessionRow) : Prop :=
  match ref with
  | some ref => matching texts w i ref = [target]
  | none =>
      let here := (scope w i).filter fun e ↦ e.2.threadId = some i.channelId
      if here ≠ [] then IsLatest here target
      else IsLatest ((scope w i).filter fun e ↦ isOwn w i e.1 e.2) target

instance (ref : Option PyStr) (target : SessionId × SessionRow) :
    Decidable (Denotes texts w i ref target) := by
  unfold Denotes
  split
  · infer_instance
  · dsimp only
    infer_instance

/-! ## Checks -/

inductive Verdict where
  | granted
  | askAdmin
  | refused

/-- The check of a session command that reads the session: `is_session_member`, the first half
of `is_session_owner_or_admin`, or that of `/invite`. -/
def checkSession (sid : SessionId) : SessionOp → Verdict
  | .send _ _ => match w.db.session? sid with
      | some row => if isOwn w i sid row then .granted else .askAdmin
      | none => .askAdmin
  | .invite _ => match w.db.session? sid with
      | some row => if row.ownerId = i.actor.userId then .granted else .askAdmin
      | none => .askAdmin
  | _ => match w.db.session? sid with
      | some row =>
          if row.guildId ≠ i.guildId then .refused
          else if row.ownerId = i.actor.userId then .granted else .askAdmin
      | none => .refused

/-- The gate of a guild command. -/
def checkGuild : GuildOp → Bool
  | .setupInit | .adminRoleSet _ _ => i.actor.manageGuild || isAdmin w i
  | .rootAdd _ => canOperateSessions w.auth (w.policies i.guildId) i.actor.userId i.actor.roles
  | _ => isAdmin w i

/-! ## Acts -/

def insertRoot (root : AllowedRoot) (roots : List AllowedRoot) : List AllowedRoot :=
  if roots.any fun r ↦ r.guildId = root.guildId ∧ r.userId = root.userId ∧
      r.runnerHostId = root.runnerHostId ∧ r.realpath.components = root.realpath.components then
    roots
  else roots ++ [root]

/-- The constraint `path_aliases_alias_check`; `_ALIAS_RE` lets a newline at the end pass too, and
then the insertion fails. -/
def aliasFormat : PyStr → Bool
  | [] => false
  | c :: rest => (0x61 ≤ c && c ≤ 0x7a) && rest.length ≤ 63 && rest.all fun c ↦
      (0x61 ≤ c && c ≤ 0x7a) || (0x30 ≤ c && c ≤ 0x39) || c == 0x5f || c == 0x2d

def BotWorld.setPolicy (guildId : GuildId) (policy : AdminRolePolicy) : BotWorld :=
  { w with policies := Function.update w.policies guildId (some policy) }

def BotWorld.setChannel (guildId : GuildId) (tool : ToolName) (channel : Option ThreadId) :
    BotWorld :=
  let row := Function.update (w.channels guildId) tool channel
  { w with channels := Function.update w.channels guildId row }

def BotWorld.setAlias (guildId : GuildId) (name : PyStr) (path : Option RealPath) : BotWorld :=
  let row := Function.update (w.aliases guildId) name path
  { w with aliases := Function.update w.aliases guildId row }

def BotWorld.addRoot (root : AllowedRoot) : BotWorld :=
  { w with roots := insertRoot root w.roots }

/-- What a guild command writes; a refused path or alias leaves everything as it is. -/
def actGuild : GuildOp → BotWorld
  | .setupInit => w.setPolicy i.guildId ((w.policies i.guildId).getD ⟨none, none⟩)
  | .adminRoleSet roleId roleName => w.setPolicy i.guildId ⟨some roleId, some roleName⟩
  | .mapSet tool channel => w.setChannel i.guildId tool (some channel)
  | .mapRemove tool => w.setChannel i.guildId tool none
  | .rootAdd path =>
      if (canonicalize w.realpath path).2 = none then
        w.addRoot ⟨some i.guildId, some i.actor.userId, w.runnerHostId, w.realpath path⟩
      else w
  | .aliasSet name path =>
      if aliasFormat name ∧ (canonicalize w.realpath path).2 = none then
        (w.setAlias i.guildId name (some (w.realpath path))).addRoot
          ⟨some i.guildId, none, w.runnerHostId, w.realpath path⟩
      else w
  | .aliasRemove name => w.setAlias i.guildId name none

/-- `invite_user_to_session`. -/
def invite (sid : SessionId) (invitee : UserId) : BotWorld :=
  if (w.db.session? sid).any fun row ↦ row.guildId = i.guildId then
    { w with members :=
        if (sid, invitee) ∈ w.members then w.members else (sid, invitee) :: w.members }
  else w

/-- The step of the system that a session command asks for. -/
def SessionOp.request (op : SessionOp) (guildId : GuildId) (target : SessionId × SessionRow) :
    Option EnvAction :=
  match op with
  | .send key text => some (.input key target.1 guildId (strip text))
  | .stop => some (.stop target.1 guildId target.2.hostId)
  | .archive => some (.archive target.1 guildId)
  | .resume => some (.resume target.1 guildId target.2.hostId)
  | .restart => some (.restart target.1 guildId)
  | .invite _ => none

/-- A saga that refuses changes nothing. -/
def BotWorld.perform (a : SystemAction) : BotWorld :=
  match Discode.system.step w.system a with
  | some σ => { w with system := σ }
  | none => w

def actSession (op : SessionOp) (target : SessionId × SessionRow) : BotWorld :=
  match op with
  | .invite invitee => invite w i target.1 invitee
  | op => match op.request i.guildId target with
      | some e => w.perform (.env e)
      | none => w

/-! ## Handlers -/

/-- How far `_start_handler` is. -/
inductive StartStage where
  | host
  | channel (host : HostId)
  | cwd (host : HostId)
  | workspace (host : HostId) (cwd : PyStr)
  | tool (host : HostId) (real : PyStr)
  | thread (host : HostId) (real : PyStr)
  | saga (host : HostId) (real : PyStr) (thread : ThreadId)

inductive Stage where
  | begun
  | resolved (target : SessionId × SessionRow)
  /-- The actor is not known from the session, which leaves the guild's admins. -/
  | stranger (target : SessionId × SessionRow)
  | granted (target : SessionId × SessionRow)
  | permitted
  | start (stage : StartStage)

structure Handler where
  interaction : Interaction
  stage : Stage

inductive HandlerAction where
  | resolve (target : SessionId)
  | checkSession
  | checkAdmin
  | act
  | pickHost (host : HostId)
  | mapChannel
  | resolveCwd
  | validate
  | checkTool
  /-- Discord names the new thread. -/
  | createThread (thread : ThreadId)
  | runSaga (sid : SessionId) (path : Path)
  /-- The handler returns early, or the bot goes down. -/
  | leave

/-- `resolve_session_target`, or for a message `resolve_session_for_thread` and the checks in the
same transaction. -/
def stepResolve (sid : SessionId) : Option Stage :=
  match i.command, w.db.session? sid with
  | .session ref _, some row =>
      if Denotes texts w i ref (sid, row) then some (.resolved (sid, row)) else none
  | .message _ _, some row =>
      if resolveSessionForThread w.db i.channelId i.guildId = some (sid, row) ∧
          row.status.isLive = true ∧ isOwn w i sid row = true then
        some (.granted (sid, row))
      else none
  | _, _ => none

/-- `resolve_alias_or_path`. -/
def resolveAliasOrPath (cwd : PyStr) : Option PyStr :=
  if cwd.head? = some WorkspacePaths.osSep then some cwd
  else (w.aliases i.guildId cwd).map PosixPath.RealPath.render

/-- `not name.strip() or len(f"{tool}: {name}") > 100`. -/
def isNameRefused (request : StartRequest) : Bool :=
  strip request.name = [] ∨
    100 < (texts.toolText request.tool ++ pyStr ": " ++ request.name).length

/-- A step of `_start_handler` before its saga. -/
def stepStart (request : StartRequest) (stage : StartStage) (a : HandlerAction) :
    Option StartStage :=
  match stage, a with
  | .host, .pickHost host => match request.runnerHostId with
      | some given => if given = host then some (.channel host) else none
      | none =>
          if (w.db.runnerHosts.get? host).any RunnerHost.online then some (.channel host) else none
  | .channel host, .mapChannel =>
      if (w.channels i.guildId request.tool).isSome then some (.cwd host) else none
  | .cwd host, .resolveCwd =>
      if isNameRefused texts request || w.system.shared.settings.emergencyStop then none
      else (resolveAliasOrPath w i request.cwd).map (.workspace host)
  | .workspace host cwd, .validate =>
      match validateWorkspace (.answer (canonicalizePath w.fs cwd)) (w.db.runnerHosts.get? host)
          w.roots i.guildId i.actor.userId host with
      | .ok real => some (.tool host real)
      | .error _ => none
  | .tool host real, .checkTool => match w.tools request.tool with
      | some tool =>
          if tool.enabled && !tool.sentinel && w.db.activeSessionCount i.guildId i.actor.userId <
              w.system.shared.settings.maxActiveSessionsPerUser then some (.thread host real)
          else none
      | none => none
  | .thread host real, .createThread thread => some (.saga host real thread)
  | _, _ => none

/-- The arguments that `_start_handler` passes to `run_create_saga`. -/
def StartRequest.saga (request : StartRequest) (sid : SessionId) (host : HostId) (path : Path)
    (thread : ThreadId) : CreateRequest where
  sessionId := sid
  guildId := i.guildId
  ownerId := i.actor.userId
  tool := request.tool
  name := request.name
  cwdRealpath := path
  runnerHostId := host
  threadId := some thread
  resumeToken := none

/-- What a handler does next. -/
def Handler.step (h : Handler) (a : HandlerAction) : Option (BotWorld × Option Handler) :=
  let i := h.interaction
  let goOn (stage : Option Stage) : Option (BotWorld × Option Handler) :=
    stage.map fun stage ↦ (w, some ⟨i, stage⟩)
  match h.stage, a with
  | _, .leave => some (w, none)
  | .begun, .resolve sid => goOn (stepResolve texts w i sid)
  | .begun, .checkAdmin => match i.command with
      | .guild op => goOn (if checkGuild w i op then some .permitted else none)
      | .start _ => goOn (if canOperateSessions w.auth (w.policies i.guildId) i.actor.userId
          i.actor.roles then some (.start .host) else none)
      | _ => none
  | .resolved target, .checkSession => match i.command with
      | .session _ op => match checkSession w i target.1 op with
          | .granted => goOn (some (.granted target))
          | .askAdmin => goOn (some (.stranger target))
          | .refused => none
      | _ => none
  | .stranger target, .checkAdmin => match i.command with
      | .session _ _ => goOn (if isAdmin w i then some (.granted target) else none)
      | _ => none
  | .granted target, .act => match i.command with
      | .session _ op => some (actSession w i op target, none)
      | .message key text => some (w.perform (.env (.input key target.1 i.guildId text)), none)
      | _ => none
  | .permitted, .act => match i.command with
      | .guild op => some (actGuild w i op, none)
      | _ => none
  | .start (.saga host real thread), .runSaga sid path => match i.command with
      | .start request =>
          if texts.pathText path = real then
            some (w.perform (.spawn (.createSaga (request.saga i sid host path thread))), none)
          else none
      | _ => none
  | .start stage, a => match i.command with
      | .start request => goOn ((stepStart texts w i request stage a).map .start)
      | _ => none
  | _, _ => none

/-! ## The bot and the system -/

/-- A step that only a command of a user takes. -/
def IsUserAction : SystemAction → Bool
  | .env (.input _ _ _ _) | .env (.stop _ _ _) | .env (.archive _ _) | .env (.resume _ _ _)
  | .env (.restart _ _) | .spawn (.createSaga _) => true
  | _ => false

inductive BotEnv where
  /-- The runners, the janitor and the relays. -/
  | system (a : SystemAction)
  | configure (auth : AuthSettings) (enableMessageContentInput : Bool)
  | links (realpath : PyStr → RealPath) (fs : FileSystem)
  | tools (tools : ToolName → Option ToolInfo)

def botEnv (w : BotWorld) : BotEnv → Option BotWorld
  | .system a => if IsUserAction a then none else (system.step w.system a).map fun σ ↦
      { w with system := σ }
  | .configure auth enableMessageContentInput => some { w with auth, enableMessageContentInput }
  | .links realpath fs => some { w with realpath, fs }
  | .tools tools => some { w with tools }

/-- `interaction_check` of the command tree, and the first lines of `on_message`. -/
def isServed (w : BotWorld) (i : Interaction) : Bool :=
  isGuildAllowed w.auth (some i.guildId) && match i.command with
    | .message _ _ => w.enableMessageContentInput
    | .session _ (.send _ text) => strip text ≠ []
    | _ => true

/-- Any number of commands at a time, over the system. -/
def bot : ProcessPool.Machine BotWorld Handler BotEnv Interaction HandlerAction where
  env := botEnv
  spawn _ w i := if isServed w i then some (w, ⟨i, .begun⟩) else none
  exec _ w h a := h.step texts w a

/-- A fresh deployment. -/
structure FreshBot (w : BotWorld) : Prop where
  system : ∃ world, FreshWorld world ∧ w.system = .start world
  policies : w.policies = fun _ ↦ none
  members : w.members = []
  channels : w.channels = fun _ _ ↦ none
  aliases : w.aliases = fun _ _ ↦ none
  roots : w.roots = []

abbrev BotState := ProcessPool.State BotWorld Handler

abbrev BotReachable : BotState → Prop := (bot texts).Reachable FreshBot

end Discode.Commands

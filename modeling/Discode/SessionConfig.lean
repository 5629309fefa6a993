import Discode.AdminAuth
import Discode.ChildEnv
import Discode.Library.KeyedTable
import Discode.Library.ProcessPool
import Discode.ToolService

/-!
# The overrides of a session

The commands of `/session config`, each in a transaction of its own, over the rows of
`session_config`.  A command reads the session, the policy and the tool and executes one
statement; the statement takes effect when its transaction commits, and other transactions may
commit in between.
-/

set_option autoImplicit false

namespace Discode.SessionConfig

open AdminAuth (AdminRolePolicy MemberRoles isGuildAdminAuthorized)
open Tools (ToolRow ToolTable)

/-! ## The reserved keys -/

/-- What `urlparse` finds in a URL; no value stands for a `ValueError`. -/
structure ParseResult where
  scheme : PyStr
  netloc : PyStr

/-- `MultiFernet` under the keys of the deployment; what encryption adds to a text is the salt,
and no value stands for an exception. -/
structure Fernet where
  encrypt : ℕ → PyStr → Option PyStr
  decrypt : PyStr → Option PyStr
  decrypts : ∀ salt plaintext ciphertext, encrypt salt plaintext = some ciphertext →
    decrypt ciphertext = some plaintext

/-- The libraries that the service calls. -/
structure Libraries where
  urlparse : PyStr → Option ParseResult
  fernet : Fernet

/-- How a validator ends. -/
inductive Verdict where
  | passed
  | refused (error : String)
  | raised
  deriving DecidableEq

/-- `_PRINTABLE`. -/
def isPrintable (c : CodePoint) : Bool :=
  (0x20 ≤ c && c ≤ 0x7e) || c == 0x09 || c == 0x0a || c == 0x0d

/-- `_validate_model`. -/
def validateModel (v : PyStr) : Verdict :=
  if v = [] then .refused "model must be non-empty"
  else if 128 < v.length then .refused "model must be ≤ 128 chars"
  else if v.any fun c ↦ !isPrintable c then .refused "model must contain only printable ASCII"
  else if v.head? = some Tools.dash ∨ v.any isSpace then
    .refused "model must not start with '-' or contain whitespace"
  else .passed

/-- `_validate_base_url`. -/
def validateBaseUrl (lib : Libraries) (v : PyStr) : Verdict :=
  if v = [] then .refused "base_url must be non-empty"
  else match lib.urlparse v with
    | none => .raised
    | some parsed =>
        if parsed.scheme ∉ BaseUrl.httpSchemes then
          .refused "base_url scheme must be http or https"
        else if parsed.netloc = [] then .refused "base_url must have a host"
        else .passed

/-- `_validate_api_key`. -/
def validateApiKey (v : PyStr) : Verdict :=
  if v = [] then .refused "api_key must be non-empty"
  else if 1024 < v.length then .refused "api_key must be ≤ 1024 chars"
  else .passed

structure KeySpec where
  secret : Bool
  validator : Libraries → PyStr → Verdict

def modelKey : PyStr := pyStr "model"
def baseUrlKey : PyStr := pyStr "base_url"
def apiKeyKey : PyStr := pyStr "api_key"

/-- `_RESERVED_KEYS.get`. -/
def reservedKeys (key : PyStr) : Option KeySpec :=
  if key = modelKey then some ⟨false, fun _ ↦ validateModel⟩
  else if key = baseUrlKey then some ⟨false, validateBaseUrl⟩
  else if key = apiKeyKey then some ⟨true, fun _ ↦ validateApiKey⟩
  else none

/-- `_tool_supports_key`. -/
def toolSupportsKey (tool : ToolRow) (key : PyStr) : Bool :=
  if key = modelKey then (tool.config .modelFlag).str?.isSome
  else if key = apiKeyKey then (tool.config .apiKeyEnv).str?.isSome
  else if key = baseUrlKey then (tool.config .baseUrlEnv).str?.isSome
  else false

/-! ## Rows -/

/-- The value columns of a row, under the constraint `session_config_one_value`. -/
structure Stored where
  value : Option PyStr
  valueCiphertext : Option PyStr
  oneValue : value.isSome ≠ valueCiphertext.isSome
  deriving DecidableEq

def Stored.plain (value : PyStr) : Stored := ⟨some value, none, Bool.noConfusion⟩

def Stored.encrypted (ciphertext : PyStr) : Stored := ⟨none, some ciphertext, Bool.noConfusion⟩

/-- `session_config`. -/
abbrev ConfigTable := KeyedTable (SessionId × PyStr) Stored

/-- The constraint `session_config_key_format`. -/
def keyFormat : PyStr → Bool
  | [] => false
  | c :: rest => (0x61 ≤ c && c ≤ 0x7a) && rest.length ≤ 31 &&
      rest.all fun c ↦ (0x61 ≤ c && c ≤ 0x7a) || (0x30 ≤ c && c ≤ 0x39) || c == 0x5f

/-- What a column of type `Text` takes. -/
def isText (s : PyStr) : Bool := s.all fun c ↦ c != 0 && !isSurrogate c

/-- A statement before its commit; a deletion knows the keys of the rows it has found. -/
inductive Write where
  | upsert (sid : SessionId) (key : PyStr) (plaintext : PyStr) (stored : Stored)
  | delete (sid : SessionId) (keys : List PyStr)
  deriving DecidableEq

/-- `INSERT … ON CONFLICT DO UPDATE`. -/
def upsertRow (config : ConfigTable) (k : SessionId × PyStr) (stored : Stored) : ConfigTable :=
  match config.insert? k stored with
  | some config' => config'
  | none => config.modify k fun _ ↦ stored

/-- The rows after the commit; no table stands for a row that the database refuses. -/
def Write.flush (config : ConfigTable) : Write → Option ConfigTable
  | .upsert sid key _ stored =>
      if keyFormat key && stored.value.all isText && stored.valueCiphertext.all isText then
        some (upsertRow config (sid, key) stored)
      else none
  | .delete sid keys => some (config.filterRows fun k _ ↦ !(k.1 = sid ∧ k.2 ∈ keys))

/-- The keys that are set for a session. -/
def keysOf (config : ConfigTable) (sid : SessionId) : List PyStr :=
  (config.select fun k _ ↦ k.1 = sid).map fun e ↦ e.1.2

/-! ## The commands -/

inductive Message where
  | noSession
  | unknownSession
  | unauthorized
  | unknownKey (key : PyStr)
  | invalid (error : String)
  | toolMissing (tool : PyStr)
  | unsupported (tool key : PyStr)
  | cannotEncrypt
  | set (key : PyStr) (sid : SessionId)
  | cleared (key : PyStr)
  | nothingToClear
  | clearedAll (count : ℕ)
  | rows (rows : List (PyStr × PyStr))
  deriving DecidableEq

structure Result where
  authorized : Bool
  success : Bool
  message : Message
  deriving DecidableEq

/-- A command before its commit. -/
structure Pending where
  write : Option Write
  result : Result

def Pending.refused (message : Message) : Pending := ⟨none, true, false, message⟩

def Pending.denied (message : Message) : Pending := ⟨none, false, false, message⟩

def Pending.accepted (write : Write) (message : Message) : Pending :=
  ⟨some write, true, true, message⟩

/-- What the commands read of a session. -/
structure SessionRef where
  guildId : Option GuildId
  tool : PyStr
  threadId : Option ThreadId

structure World where
  sessions : KeyedTable SessionId SessionRef
  /-- `guild_admin_role_policy` by guild. -/
  policies : GuildId → Option AdminRolePolicy
  tools : ToolTable
  config : ConfigTable
  /-- The statements that have taken effect, the newest first. -/
  log : List Write

variable (lib : Libraries) (w : World)

/-- `is_guild_admin_authorized` for the guild of a session. -/
def isAuthorized (session : SessionRef) (member : MemberRoles) : Bool :=
  isGuildAdminAuthorized (session.guildId.bind w.policies) member

/-- The row that a checked value is stored as, if it can be encrypted. -/
def KeySpec.store (spec : KeySpec) (fernet : Fernet) (salt : ℕ) (value : PyStr) : Option Stored :=
  if spec.secret then (fernet.encrypt salt value).map .encrypted else some (.plain value)

/-- `set_session_config`; no result means that an exception leaves the command. -/
def setSessionConfig (sid : SessionId) (key value : PyStr) (salt : ℕ) (member : MemberRoles) :
    Option Pending :=
  match w.sessions.get? sid with
  | none => some (.denied .unknownSession)
  | some session =>
      if isAuthorized w session member = false then some (.denied .unauthorized)
      else match reservedKeys key with
        | none => some (.refused (.unknownKey key))
        | some spec => match spec.validator lib value with
            | .raised => none
            | .refused error => some (.refused (.invalid error))
            | .passed => match w.tools session.tool with
                | none => some (.refused (.toolMissing session.tool))
                | some tool =>
                    if toolSupportsKey tool key = false then
                      some (.refused (.unsupported session.tool key))
                    else match spec.store lib.fernet salt value with
                      | none => some (.refused .cannotEncrypt)
                      | some stored =>
                          some (.accepted (.upsert sid key value stored) (.set key sid))

/-- `clear_session_config_key`. -/
def clearSessionConfigKey (sid : SessionId) (key : PyStr) (member : MemberRoles) : Pending :=
  match w.sessions.get? sid with
  | none => .denied .unknownSession
  | some session =>
      if isAuthorized w session member = false then .denied .unauthorized
      else if key ∈ keysOf w.config sid then .accepted (.delete sid [key]) (.cleared key)
      else .accepted (.delete sid []) .nothingToClear

/-- `clear_all_session_config`. -/
def clearAllSessionConfig (sid : SessionId) (member : MemberRoles) : Pending :=
  match w.sessions.get? sid with
  | none => .denied .unknownSession
  | some session =>
      if isAuthorized w session member = false then .denied .unauthorized
      else
        let keys := keysOf w.config sid
        .accepted (.delete sid keys) (.clearedAll keys.length)

/-- `ConfigRow.display_value`. -/
def displayValue (key : PyStr) (stored : Stored) : PyStr :=
  if (reservedKeys key).any KeySpec.secret then pyStr "<set>"
  else match stored.value with
    | some value => if value = [] then pyStr "<unreadable>" else value
    | none => pyStr "<unreadable>"

/-- `get_session_config`. -/
def getSessionConfig (config : ConfigTable) (sid : SessionId) : List (PyStr × PyStr) :=
  ((config.select fun k _ ↦ k.1 = sid).mergeSort fun a b ↦ decide (a.1.2 ≤ b.1.2)).map
    fun e ↦ (e.1.2, displayValue e.1.2 e.2)

/-- The command `get`. -/
def showSessionConfig (sid : SessionId) (member : MemberRoles) : Pending :=
  match w.sessions.get? sid with
  | none => .denied .unknownSession
  | some session =>
      if isAuthorized w session member = false then .denied .unauthorized
      else ⟨none, true, true, .rows (getSessionConfig w.config sid)⟩

inductive Command where
  | set (key value : PyStr) (salt : ℕ)
  | get
  | clear (key : PyStr)
  | clearAll

/-- A command in a channel, and the member who issues it. -/
structure Request where
  channel : ThreadId
  member : MemberRoles
  command : Command

/-- `_resolve_session_for_channel`. -/
def resolveSessionForChannel (channel : ThreadId) : Option SessionId :=
  (w.sessions.entries.find? fun e ↦ e.2.threadId = some channel).map Prod.fst

def Request.perform (r : Request) : Option Pending :=
  match resolveSessionForChannel w r.channel with
  | none => some (.denied .noSession)
  | some sid => match r.command with
      | .set key value salt => setSessionConfig lib w sid key value salt r.member
      | .get => some (showSessionConfig w sid r.member)
      | .clear key => some (clearSessionConfigKey w sid key r.member)
      | .clearAll => some (clearAllSessionConfig w sid r.member)

/-- What other transactions write of the tables that the commands read. -/
inductive EnvAction where
  | sessions (sessions : KeyedTable SessionId SessionRef)
  | policy (guild : GuildId) (policy : Option AdminRolePolicy)
  | tools (tools : ToolTable)

def envStep (w : World) : EnvAction → World
  | .sessions sessions => { w with sessions }
  | .policy guild policy => { w with policies := Function.update w.policies guild policy }
  | .tools tools => { w with tools }

/-- The commit of a transaction; what the database refuses leaves no trace. -/
def World.commit (w : World) : Option Write → World
  | none => w
  | some write => match write.flush w.config with
      | some config => { w with config, log := write :: w.log }
      | none => w

/-- Any number of commands at a time. -/
def configCommands : ProcessPool.Machine World Pending EnvAction Request Tools.TxEnd where
  env w e := some (envStep w e)
  spawn _ w r := (r.perform lib w).map fun p ↦ (w, p)
  exec _ w p a := match a with
    | .commit => some (w.commit p.write, none)
    | .rollback => some (w, none)

/-- What `_load_overrides` selects from. -/
def ConfigTable.rows (config : ConfigTable) : List ChildEnv.ConfigRow :=
  config.entries.map fun e ↦ ⟨e.1.1, e.1.2, e.2.value, e.2.valueCiphertext⟩

end Discode.SessionConfig

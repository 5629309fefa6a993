import Discode.BaseUrl
import Discode.Database
import Discode.Library.PosixPath
import Discode.ToolCommand
import Discode.ToolService

/-!
# The environment of a tool

What `build_exec_session` makes of a tool, a turn and the environment of the runner.
-/

set_option autoImplicit false

namespace Discode.ChildEnv

open BaseUrl (Network isBaseUrlAllowed)
open Tools (Json ToolConfig ToolRow ToolTable ValidTool CmdError Python)

/-- Environment variables by name. -/
abbrev Environ := PyStr → Option PyStr

/-! ## `env_scrub` -/

/-- `BASE_ALLOWED`. -/
def baseAllowed : List String :=
  ["PATH", "HOME", "LANG", "TERM", "DISCORD_AGENT_SESSION_ID", "DISCORD_AGENT_HOOK_URL",
    "DISCORD_AGENT_HOOK_SECRET", "DAB_SESSION_ID"]

/-- `(BASE_ALLOWED | extra_allowed) - FORBIDDEN_ENV`. -/
def IsAllowed (extraAllowed : List PyStr) (key : PyStr) : Prop :=
  (key ∈ baseAllowed.map pyStr ∨ key ∈ extraAllowed) ∧ key ∉ Tools.forbiddenEnv.map pyStr

instance (extraAllowed : List PyStr) (key : PyStr) : Decidable (IsAllowed extraAllowed key) := by
  unfold IsAllowed
  infer_instance

/-- `scrub_env`. -/
def scrubEnv (rawEnv : Environ) (extraAllowed : List PyStr) : Environ :=
  fun key ↦ if IsAllowed extraAllowed key then rawEnv key else none

/-! ## The search path -/

/-- The file system and the users of the host; no value stands for an exception. -/
structure Host where
  isdir : PyStr → Bool
  /-- `_access_check` of `shutil.which`. -/
  isExecutable : PyStr → Bool
  /-- The home directory of the runner's own user, if it has one. -/
  ownHome : Option PyStr
  getpwnam : PyStr → Option (Option PyStr)

def slash : CodePoint := 0x2f
def colon : CodePoint := 0x3a
def tilde : CodePoint := 0x7e

def homeVar : PyStr := pyStr "HOME"
def pathVar : PyStr := pyStr "PATH"

/-- The home directory that stands behind `~` and the name of a user. -/
def userHome (host : Host) (environ : Environ) (user : PyStr) : Option (Option PyStr) :=
  if user = [] then some ((environ homeVar).or host.ownHome) else host.getpwnam user

/-- `os.path.expanduser`. -/
def expanduser (host : Host) (environ : Environ) (dir : PyStr) : Option PyStr :=
  match dir with
  | [] => some []
  | c :: rest =>
      if c ≠ tilde then some dir
      else (userHome host environ (rest.takeWhile (· ≠ slash))).map fun
        | none => dir
        | some userhome =>
            let expanded := PosixPath.stripEnd slash userhome ++ rest.dropWhile (· ≠ slash)
            if expanded = [] then [slash] else expanded

/-- `_DEFAULT_EXTRA_PATHS`. -/
def defaultExtraPaths : List String :=
  ["/opt/homebrew/bin", "/opt/homebrew/sbin", "~/.local/bin", "~/.npm-global/bin", "~/.cargo/bin",
    "~/.bun/bin", "~/.local/share/pnpm", "~/.nix-profile/bin", "~/.asdf/shims", "/usr/local/bin",
    "/usr/local/sbin", "/snap/bin", "/var/lib/flatpak/exports/bin", "/usr/bin", "/bin"]

/-- The first occurrence of every path. -/
def unique (seen : List PyStr) : List PyStr → List PyStr
  | [] => []
  | dir :: dirs =>
      if dir ∈ seen then unique seen dirs else dir :: unique (dir :: seen) dirs

/-- `_normalize_extra_paths`. -/
def normalizeExtraPaths (host : Host) (environ : Environ) (raw : List PyStr) :
    Option (List PyStr) := do
  let expanded ← raw.mapM (expanduser host environ)
  return unique [] (expanded.filter host.isdir)

/-- `shutil.which`. -/
def which (host : Host) (cmd searchPath : PyStr) : Option PyStr :=
  let (dirname, file) := PosixPath.split slash cmd
  let dirs := if dirname ≠ [] then [dirname]
    else if searchPath = [] then [] else searchPath.splitOn colon
  (dirs.map fun dir ↦ PosixPath.join slash dir file).find? host.isExecutable

/-! ## Overrides -/

/-- A row of `session_config`. -/
structure ConfigRow where
  sessionId : SessionId
  key : PyStr
  value : Option PyStr
  valueCiphertext : Option PyStr

/-- What the runner reads of the database. -/
structure Tables where
  tools : ToolTable
  sessionConfig : List ConfigRow

/-- The exceptions of `build_exec_session`. -/
inductive BuildError where
  | executionDenied
  | unknownTool (name : PyStr)
  | badToolDefinition (name : PyStr)
  | badSessionConfig (sid : SessionId) (key : PyStr)
  | cmd (error : CmdError)
  | raised

/-- The value that a row adds to the overrides. -/
def ConfigRow.override (decrypt : PyStr → Option PyStr) (row : ConfigRow) :
    Except BuildError (Option PyStr) :=
  match row.value, row.valueCiphertext with
  | some value, _ => .ok (some value)
  | none, none => .ok none
  | none, some ciphertext => match decrypt ciphertext with
    | some value => .ok (some value)
    | none => .error (.badSessionConfig row.sessionId row.key)

/-- `_load_overrides`. -/
def loadOverrides (decrypt : PyStr → Option PyStr) (sid : SessionId) (rows : List ConfigRow) :
    Except BuildError Environ :=
  (rows.filter fun row ↦ row.sessionId = sid).foldlM
    (fun overrides row ↦ do
      match ← row.override decrypt with
      | some value => return Function.update overrides row.key (some value)
      | none => return overrides)
    (fun _ ↦ none)

/-! ## `build_exec_session` -/

structure Settings where
  emergencyStop : Bool
  trustedHost : Bool
  maxOutputBytesPerSessionPerMin : ℕ

/-- The entry of a session in the session store; the overlay `env` is a list of items. -/
structure StoreEntry where
  tool : PyStr
  cwd : PyStr
  toolResumeToken : Option PyStr
  env : List (PyStr × PyStr)

/-- The arguments of `ExecSession`. -/
structure ExecArgs where
  argv : List PyStr
  cwd : PyStr
  env : Environ
  usePty : Bool
  maxOutputBytes : ℕ

/-- What surrounds the runner, bar its environment. -/
structure Surroundings where
  python : Python
  host : Host
  network : Network
  settings : Settings
  tables : Tables
  /-- No value stands for an exception. -/
  decrypt : PyStr → Option PyStr

/-- `ensure_execution_allowed`. -/
def ensureExecutionAllowed (settings : Settings) : Except BuildError Unit :=
  if settings.emergencyStop ∨ settings.trustedHost = false then .error .executionDenied else .ok ()

/-- `get_adapter`. -/
def getAdapter (python : Python) (tools : ToolTable) (name : PyStr) :
    Except BuildError ToolConfig :=
  match (tools name).filter ToolRow.enabled with
  | none => .error (.unknownTool name)
  | some row =>
      match Tools.validateToolConfig python (some (.ofAttributes row.config)) name with
      | .ok () => .ok row.config
      | .error (.invalid _) => .error (.badToolDefinition name)
      | .error .raised => .error .raised

/-- The name of an environment variable; an empty one is none. -/
def envName (v : Json) : Option PyStr := v.str?.filter fun key ↦ key ≠ []

/-- `env[key] = value`, if both are given. -/
def inject (env : Environ) (key value : Option PyStr) : Environ :=
  match key, value with
  | some key, some value => Function.update env key (some value)
  | _, _ => env

/-- The overlay, or the scrubbed environment. -/
def inherited (environ : Environ) (d : ToolConfig) (overlay : List (PyStr × PyStr)) : Environ :=
  if overlay ≠ [] then fun key ↦ overlay.lookup key
  else scrubEnv environ (d .envPassthrough).strings

def extraPaths (d : ToolConfig) : List PyStr :=
  (d .extraPaths).strings ++ defaultExtraPaths.map pyStr

/-- The environment with the search path for tools in front of its own. -/
def withPath (extras : List PyStr) (env : Environ) : Environ :=
  Function.update env pathVar (some ([colon].intercalate (extras ++ [(env pathVar).getD []])))

/-- The overrides `api_key` and `base_url`. -/
def withOverrides (network : Network) (d : ToolConfig) (overrides env : Environ) : Environ :=
  inject (inject env (envName (d .apiKeyEnv)) (overrides (pyStr "api_key")))
    (envName (d .baseUrlEnv)) ((overrides (pyStr "base_url")).filter (isBaseUrlAllowed network))

/-- The program by its path, if it is found. -/
def resolveProgram (host : Host) (searchPath : PyStr) : List PyStr → List PyStr
  | [] => []
  | program :: args => (which host program searchPath).getD program :: args

/-- The arguments of `ExecSession` for a tool. -/
def execArgs (s : Surroundings) (environ : Environ) (entry : StoreEntry)
    (payload : InputJobPayload) (d : ToolConfig) : Except BuildError ExecArgs := do
  let overrides ← loadOverrides s.decrypt payload.sessionId s.tables.sessionConfig
  let cmd ← (Tools.execCmd d payload.text entry.toolResumeToken).mapError .cmd
  let argv := Tools.spliceModel d (overrides (pyStr "model")) cmd
  let extras ← (normalizeExtraPaths s.host environ (extraPaths d)).elim (.error .raised) .ok
  let env := withOverrides s.network d overrides (withPath extras (inherited environ d entry.env))
  return {
    argv := resolveProgram s.host ((env pathVar).getD []) argv
    cwd := entry.cwd
    env := env
    usePty := match d .usesPty with | .bool b => b | _ => false
    maxOutputBytes := max (1024 * 1024) s.settings.maxOutputBytesPerSessionPerMin }

/-- `build_exec_session`. -/
def buildExecSession (s : Surroundings) (environ : Environ) (entry : StoreEntry)
    (payload : InputJobPayload) : Except BuildError ExecArgs := do
  ensureExecutionAllowed s.settings
  let d ← getAdapter s.python s.tables.tools entry.tool
  execArgs s environ entry payload d

/-! ## What reads the environment -/

/-- The two environments give a tool with those variables the same values. -/
def Agree (extraAllowed : List PyStr) (environ environ' : Environ) : Prop :=
  ∀ key, IsAllowed extraAllowed key → environ key = environ' key

section

variable {extraAllowed : List PyStr} {environ environ' : Environ}

theorem scrubEnv_congr (h : Agree extraAllowed environ environ') :
    scrubEnv environ extraAllowed = scrubEnv environ' extraAllowed := by
  funext key
  unfold scrubEnv
  split_ifs with hallowed
  · exact h key hallowed
  · rfl

theorem homeVar_allowed (extraAllowed : List PyStr) : IsAllowed extraAllowed homeVar :=
  ⟨.inl (by decide), by decide⟩

/-- The home directory is the only thing that is read besides what the tool is given. -/
theorem expanduser_congr (host : Host) (h : environ homeVar = environ' homeVar) :
    expanduser host environ = expanduser host environ' := by
  funext dir
  unfold expanduser userHome
  rw [h]

theorem normalizeExtraPaths_congr (host : Host) (h : environ homeVar = environ' homeVar)
    (raw : List PyStr) :
    normalizeExtraPaths host environ raw = normalizeExtraPaths host environ' raw := by
  unfold normalizeExtraPaths
  rw [expanduser_congr host h]

end

/-! ## The variables of the environment -/

theorem inject_ne_none {env : Environ} {name value : Option PyStr} {key : PyStr}
    (h : inject env name value key ≠ none) : env key ≠ none ∨ name = some key := by
  unfold inject at h
  split at h
  · rename_i name value
    by_cases hkey : key = name
    · exact .inr (congrArg some hkey.symm)
    · rw [Function.update_of_ne hkey] at h
      exact .inl h
  · exact .inl h

theorem withPath_ne_none {extras : List PyStr} {env : Environ} {key : PyStr}
    (h : withPath extras env key ≠ none) : env key ≠ none ∨ key = pathVar := by
  by_cases hkey : key = pathVar
  · exact .inr hkey
  · rw [withPath, Function.update_of_ne hkey] at h
    exact .inl h

theorem str_of_envName {v : Json} {key : PyStr} (h : envName v = some key) : v.str? = some key :=
  (Option.filter_eq_some_iff.mp h).1

theorem withOverrides_ne_none {network : Network} {d : ToolConfig} {overrides env : Environ}
    {key : PyStr} (h : withOverrides network d overrides env key ≠ none) :
    env key ≠ none ∨ (d .apiKeyEnv).str? = some key ∨ (d .baseUrlEnv).str? = some key := by
  rcases inject_ne_none h with hinner | hname
  · rcases inject_ne_none hinner with henv | hname
    · exact .inl henv
    · exact .inr (.inl (str_of_envName hname))
  · exact .inr (.inr (str_of_envName hname))

theorem inherited_ne_none {environ : Environ} {d : ToolConfig} {key : PyStr}
    (h : inherited environ d [] key ≠ none) : IsAllowed (d .envPassthrough).strings key := by
  by_contra hnot
  exact h (if_neg hnot)

/-- A definition that passes names no variable that is reserved. -/
theorem not_forbidden {python : Python} {d : ToolConfig} {name key : PyStr}
    (hvalid : Tools.validateToolConfig python (some (.ofAttributes d)) name = .ok ())
    (hkey : (d .apiKeyEnv).str? = some key ∨ (d .baseUrlEnv).str? = some key) :
    key ∉ Tools.forbiddenEnv.map pyStr := by
  let tool : ValidTool python := ⟨name, d, hvalid⟩
  obtain ⟨-, hcontract⟩ := tool.checked
  obtain ⟨-, -, -, -, -, -, hkeys⟩ := Tools.validateContract_eq_ok.mp hcontract
  have hof : ∀ f ∈ [Tools.Field.envPassthrough, .apiKeyEnv, .baseUrlEnv],
      (d f).str? = some key → key ∉ Tools.forbiddenEnv.map pyStr := by
    intro f hf hstr
    have hmem : key ∈ Tools.envKeys (d f) := by
      cases hv : d f with
      | str s =>
          rw [hv] at hstr
          cases hstr
          exact List.mem_singleton.mpr rfl
      | _ =>
          rw [hv] at hstr
          cases hstr
    exact (hkeys f hf key hmem).2
  rcases hkey with hkey | hkey
  · exact hof .apiKeyEnv (by simp) hkey
  · exact hof .baseUrlEnv (by simp) hkey

/-! ## The environment of a turn -/

theorem getAdapter_eq_ok {python : Python} {tools : ToolTable} {name : PyStr} {d : ToolConfig}
    (h : getAdapter python tools name = .ok d) : ∃ row, tools name = some row ∧ row.config = d := by
  unfold getAdapter at h
  split at h
  · cases h
  · rename_i row hrow
    split at h
    · exact ⟨row, (Option.filter_eq_some_iff.mp hrow).1, Except.ok.inj h⟩
    · cases h
    · cases h

/-- Where the environment of a turn comes from. -/
theorem env_of_execArgs {s : Surroundings} {environ : Environ} {entry : StoreEntry}
    {payload : InputJobPayload} {d : ToolConfig} {args : ExecArgs}
    (h : execArgs s environ entry payload d = .ok args) : ∃ overrides extras,
      args.env = withOverrides s.network d overrides
        (withPath extras (inherited environ d entry.env)) := by
  unfold execArgs at h
  simp only [bind, Except.bind, pure, Except.pure] at h
  split at h
  · cases h
  · rename_i overrides _
    split at h
    · cases h
    · split at h
      · cases h
      · rename_i extras _
        exact ⟨overrides, extras, (congrArg ExecArgs.env (Except.ok.inj h)).symm⟩

theorem execArgs_congr {s : Surroundings} {environ environ' : Environ} {entry : StoreEntry}
    {d : ToolConfig} (payload : InputJobPayload) (henv : entry.env = [])
    (hagree : Agree (d .envPassthrough).strings environ environ') :
    execArgs s environ entry payload d = execArgs s environ' entry payload d := by
  have hinherited : inherited environ d entry.env = inherited environ' d entry.env := by
    rw [henv]
    exact scrubEnv_congr hagree
  unfold execArgs
  rw [normalizeExtraPaths_congr s.host (hagree homeVar (homeVar_allowed _)), hinherited]

theorem buildExecSession_eq_ok {s : Surroundings} {environ : Environ} {entry : StoreEntry}
    {payload : InputJobPayload} {args : ExecArgs}
    (h : buildExecSession s environ entry payload = .ok args) :
    ∃ row, s.tables.tools entry.tool = some row ∧
      execArgs s environ entry payload row.config = .ok args := by
  unfold buildExecSession at h
  simp only [bind, Except.bind] at h
  split at h
  · cases h
  · split at h
    · cases h
    · rename_i d hd
      obtain ⟨row, hrow, rfl⟩ := getAdapter_eq_ok hd
      exact ⟨row, hrow, h⟩

/-- Two environments that agree on what the tool may see make the same of a turn. -/
theorem buildExecSession_congr {s : Surroundings} {environ environ' : Environ}
    {entry : StoreEntry} {row : ToolRow} (payload : InputJobPayload)
    (hrow : s.tables.tools entry.tool = some row) (henv : entry.env = [])
    (hagree : Agree (row.config .envPassthrough).strings environ environ') :
    buildExecSession s environ entry payload = buildExecSession s environ' entry payload := by
  unfold buildExecSession
  cases hd : getAdapter s.python s.tables.tools entry.tool with
  | error e => rfl
  | ok d =>
      obtain ⟨row', hrow', rfl⟩ := getAdapter_eq_ok hd
      cases hrow.symm.trans hrow'
      have hargs := execArgs_congr (s := s) payload henv hagree
      simp only [bind, Except.bind, hargs]

/-- The environment of a turn is independent of everything that the tool is not allowed. -/
theorem child_env_independent (s : Surroundings) (entry : StoreEntry) (row : ToolRow)
    (payload : InputJobPayload) (hrow : s.tables.tools entry.tool = some row)
    (hvalid : Tools.validateToolConfig s.python (some (.ofAttributes row.config)) entry.tool =
      .ok ())
    (henv : entry.env = []) (environ environ' : Environ)
    (hagree : Agree (row.config .envPassthrough).strings environ environ') :
    buildExecSession s environ entry payload = buildExecSession s environ' entry payload ∧
      ∀ args, buildExecSession s environ entry payload = .ok args →
        ∀ key, args.env key ≠ none →
          (IsAllowed (row.config .envPassthrough).strings key ∨ key = pathVar ∨
            (row.config .apiKeyEnv).str? = some key ∨ (row.config .baseUrlEnv).str? = some key) ∧
          key ∉ Tools.forbiddenEnv.map pyStr := by
  refine ⟨buildExecSession_congr payload hrow henv hagree, fun args hargs key hkey ↦ ?_⟩
  obtain ⟨row', hrow', hexec⟩ := buildExecSession_eq_ok hargs
  cases hrow.symm.trans hrow'
  obtain ⟨overrides, extras, hargsenv⟩ := env_of_execArgs hexec
  rw [hargsenv, henv] at hkey
  rcases withOverrides_ne_none hkey with hpath | hname
  · rcases withPath_ne_none hpath with hinherited | rfl
    · have hallowed := inherited_ne_none hinherited
      exact ⟨.inl hallowed, hallowed.2⟩
    · exact ⟨.inr (.inl rfl), by decide⟩
  · exact ⟨.inr (.inr hname), not_forbidden hvalid hname⟩

def claudeConfig : ToolConfig
  | .argvPrefix => .list [.str (pyStr "claude"), .str (pyStr "-p")]
  | .argvSuffix => .list [.str Tools.promptPlaceholder]
  | .resumeTokenSource => .str (pyStr "none")
  | .replyExtractor => .str (pyStr "stdout_raw")
  | .apiKeyEnv => .str (pyStr "ANTHROPIC_API_KEY")
  | f => f.default.getD .null

/-- A host with one tool and a session that has its own key. -/
def claudeHost : Surroundings where
  python := ⟨fun _ ↦ .groups 1, fun _ ↦ .decodeError⟩
  host := {
    isdir dir := dir = pyStr "/usr/bin"
    isExecutable file := file = pyStr "/usr/bin/claude"
    ownHome := none
    getpwnam _ := some none }
  network := BaseUrl.sampleNetwork
  settings := ⟨false, true, 262144⟩
  tables := {
    tools name := if name = pyStr "claude" then some ⟨claudeConfig, true, none⟩ else none
    sessionConfig := [⟨7, pyStr "api_key", some (pyStr "sk-1"), none⟩] }
  decrypt _ := none

def claudeEntry : StoreEntry := ⟨pyStr "claude", pyStr "/srv/work", none, []⟩

def claudeInput : InputJobPayload := ⟨7, 1, 2, 3, pyStr "hello", 5, none⟩

/-- The environment of the runner, with the token of the bot. -/
def runnerEnviron (token : PyStr) : Environ := fun key ↦
  if key = homeVar then some (pyStr "/root")
  else if key = pyStr "DISCORD_TOKEN" then some token
  else none

theorem token_not_in_child_env :
    buildExecSession claudeHost (runnerEnviron (pyStr "one")) claudeEntry claudeInput =
      buildExecSession claudeHost (runnerEnviron (pyStr "two")) claudeEntry claudeInput ∧
    (buildExecSession claudeHost (runnerEnviron (pyStr "one")) claudeEntry claudeInput).toOption.map
      (fun args ↦ (args.argv, args.env homeVar, args.env (pyStr "ANTHROPIC_API_KEY"))) =
        some ([pyStr "/usr/bin/claude", pyStr "-p", pyStr "hello"], some (pyStr "/root"),
          some (pyStr "sk-1")) := by
  refine ⟨(child_env_independent claudeHost claudeEntry ⟨claudeConfig, true, none⟩ claudeInput rfl
    (by decide +kernel) rfl _ _ fun key hkey ↦ ?_).1, by decide +kernel⟩
  have hne : key ≠ pyStr "DISCORD_TOKEN" := by
    rintro rfl
    exact hkey.2 (by decide)
  simp only [runnerEnviron, if_neg hne]

end Discode.ChildEnv

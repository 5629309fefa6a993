import Discode.Library.ProcessPool
import Discode.ToolSchema

/-!
# The tool commands

The commands of `bot/tool_service.py`, each in a transaction of its own.  A command reads the
row and decides; what it has set is written when its transaction commits, and other
transactions may commit in between.
-/

set_option autoImplicit false

namespace Discode.Tools

/-- A row of `tool_definitions`, less its name. -/
structure ToolRow where
  config : ToolConfig
  enabled : Bool
  createdBy : Option PyStr

/-- The committed rows by name. -/
abbrev ToolTable := PyStr → Option ToolRow

/-! ## Results -/

inductive Message where
  | unauthorized
  | invalidConfig (error : ConfigError)
  | alreadyExists
  | registered
  | notEditable
  | unknownField
  | unknownTool
  | expectsList
  | expectsBoolean
  | resultingConfigInvalid (error : ConfigError)
  | updated
  | toggled (enabled : Bool)
  | stillUsed (refs : ℕ)
  | removed

structure Result where
  authorized : Bool
  success : Bool
  message : Message

/-- What a transaction writes when it commits; an update knows the row it was decided on. -/
inductive Change where
  | none
  | insert (name : PyStr) (row : ToolRow)
  | setField (name : PyStr) (read : ToolRow) (field : Field) (value : Json)
  | setEnabled (name : PyStr) (read : ToolRow) (enabled : Bool)
  | delete (name : PyStr)

/-- A command before its commit. -/
structure Pending where
  change : Change
  result : Result

def Pending.refused (message : Message) : Pending := ⟨.none, true, false, message⟩

def Pending.unauthorized : Pending := ⟨.none, false, false, .unauthorized⟩

def Pending.accepted (change : Change) (message : Message) : Pending :=
  ⟨change, true, true, message⟩

/-! ## The commands -/

section

variable (python : Python) (platformAdminUserIds : List PyStr) (table : ToolTable)

/-- `_platform_authorized`. -/
def platformAuthorized (userId : Option PyStr) : Bool :=
  userId.any platformAdminUserIds.contains

/-- `user_id or created_by`. -/
def registrant (userId : Option PyStr) (createdBy : PyStr) : Option PyStr :=
  if userId.getD [] = [] then some createdBy else userId

/-- `register_tool`; no result means that an exception leaves the command. -/
def registerTool (name : PyStr) (config : Json) (createdBy : PyStr) (userId : Option PyStr) :
    Option Pending :=
  if platformAuthorized platformAdminUserIds (registrant userId createdBy) then
    match validateToolConfig python (Config.ofJson config) name with
    | .error .raised => none
    | .error (.invalid e) => some (.refused (.invalidConfig e))
    | .ok () =>
        match table name, (Config.ofJson config).map (modelValidate python) with
        | some _, _ => some (.refused .alreadyExists)
        | none, some (.ok values) =>
            some (.accepted (.insert name ⟨values, false, some createdBy⟩) .registered)
        | none, _ => none
  else some .unauthorized

/-- `_IMMUTABLE_FIELDS`. -/
def immutableFields : List String := ["name", "enabled", "created_by", "created_at", "updated_at"]

/-- `_LIST_FIELDS`. -/
def listFields : List Field :=
  [.argvPrefix, .argvResumeTokens, .argvSuffix, .extraPaths, .envPassthrough]

/-- `_BOOL_FIELDS`. -/
def boolFields : List Field := [.usesPty]

/-- `str.lower` on the letters that have an ASCII lower case, bar the Kelvin sign. -/
def lower (s : PyStr) : PyStr := s.map fun c ↦ if 0x41 ≤ c && c ≤ 0x5a then c + 0x20 else c

inductive Parsed where
  | value (v : Json)
  | refused (message : Message)
  | raised

/-- The text of the new value, read as one of the field's type. -/
def parseValue (field : Field) (value : PyStr) : Parsed :=
  if field ∈ listFields then
    match python.loads value with
    | .value (.list items) => .value (.list items)
    | .value _ => .refused .expectsList
    | .decodeError | .valueError => .refused .expectsList
    | .raised => .raised
  else if field ∈ boolFields then
    let normalized := lower (strip value)
    if normalized ∈ ["true", "false", "1", "0", "yes", "no"].map pyStr then
      .value (.bool (["true", "1", "yes"].map pyStr |>.contains normalized))
    else .refused .expectsBoolean
  else .value (.str value)

/-- `update_tool_field`: the candidate is checked as a whole, one column is set. -/
def updateToolField (name field value : PyStr) (userId : Option PyStr) : Option Pending :=
  if platformAuthorized platformAdminUserIds userId then
    if field ∈ immutableFields.map pyStr then some (.refused .notEditable)
    else match Field.ofKey field, table name with
      | none, _ => some (.refused .unknownField)
      | some _, none => some (.refused .unknownTool)
      | some f, some row =>
          match parseValue python f value with
          | .raised => none
          | .refused message => some (.refused message)
          | .value parsed =>
              let candidate := Function.update row.config f parsed
              match validateToolConfig python (some (.ofAttributes candidate)) name with
              | .error .raised => none
              | .error (.invalid e) => some (.refused (.resultingConfigInvalid e))
              | .ok () => some (.accepted (.setField name row f parsed) .updated)
  else some .unauthorized

/-- `_set_enabled`. -/
def setEnabled (name : PyStr) (enabled : Bool) (userId : Option PyStr) : Option Pending :=
  if platformAuthorized platformAdminUserIds userId then
    match table name with
    | none => some (.refused .unknownTool)
    | some row => some (.accepted (.setEnabled name row enabled) (.toggled enabled))
  else some .unauthorized

/-- `remove_tool`; `refs` counts the sessions that still use the tool. -/
def removeTool (name : PyStr) (refs : ℕ) (userId : Option PyStr) : Option Pending :=
  if platformAuthorized platformAdminUserIds userId then
    match table name with
    | none => some (.refused .unknownTool)
    | some _ =>
        if 0 < refs then some (.refused (.stillUsed refs))
        else some (.accepted (.delete name) .removed)
  else some .unauthorized

end

inductive Command where
  | registerTool (name : PyStr) (config : Json) (createdBy : PyStr)
  | updateToolField (name field value : PyStr)
  | enableTool (name : PyStr)
  | disableTool (name : PyStr)
  | removeTool (name : PyStr) (refs : ℕ)

/-- A command and the user who issues it. -/
structure Request where
  userId : Option PyStr
  command : Command

def Request.perform (python : Python) (admins : List PyStr) (table : ToolTable) (r : Request) :
    Option Pending :=
  match r.command with
  | .registerTool name config createdBy =>
      registerTool python admins table name config createdBy r.userId
  | .updateToolField name field value =>
      updateToolField python admins table name field value r.userId
  | .enableTool name => setEnabled admins table name true r.userId
  | .disableTool name => setEnabled admins table name false r.userId
  | .removeTool name refs => removeTool admins table name refs r.userId

/-! ## Commits -/

/-- The statement that the flush sends, and the table after it: a key that exists or an
update that finds no row is an error, and a column that was set to what it was is not written. -/
def Change.flush (table : ToolTable) : Change → Option ToolTable
  | .none => some table
  | .insert name row =>
      match table name with
      | some _ => Option.none
      | Option.none => some (Function.update table name (some row))
  | .setField name read field value =>
      if value.eq (read.config field) then some table
      else (table name).map fun row ↦ Function.update table name
        (some { row with config := Function.update row.config field value })
  | .setEnabled name read enabled =>
      if enabled = read.enabled then some table
      else (table name).map fun row ↦ Function.update table name (some { row with enabled })
  | .delete name => some (Function.update table name Option.none)

/-- How a transaction ends. -/
inductive TxEnd where
  | commit
  | rollback
  deriving DecidableEq

/-- Any number of commands at a time over the committed rows. -/
def toolCommands (python : Python) (admins : List PyStr) :
    ProcessPool.Machine ToolTable Pending Empty Request TxEnd where
  env _ e := nomatch e
  spawn _ table r := (r.perform python admins table).map fun p ↦ (table, p)
  exec _ table p a := match a with
    | .commit => some ((p.change.flush table).getD table, none)
    | .rollback => some (table, none)

/-! ## `get_adapter` -/

inductive Adapter where
  | unknownTool
  | badToolDefinition (error : ConfigError)
  | raised
  | adapter (row : ToolRow)

/-- `get_adapter`, with `GenericAdapter._validate`. -/
def getAdapter (python : Python) (table : ToolTable) (name : PyStr) : Adapter :=
  match table name with
  | none => .unknownTool
  | some row =>
      if row.enabled then
        match validateToolConfig python (some (.ofAttributes row.config)) name with
        | .ok () => .adapter row
        | .error (.invalid e) => .badToolDefinition e
        | .error .raised => .raised
      else .unknownTool

end Discode.Tools

import Discode.Library.Replace
import Discode.ToolSchema

/-!
# The command line of a tool

What `exec_cmd` makes of the templates of a tool, a prompt and a resume token, and where
`build_exec_session` puts the model.
-/

set_option autoImplicit false

namespace Discode.Tools

/-- `_substitute` for one variable. -/
def substitute (tokens : List PyStr) (placeholder value : PyStr) : List PyStr :=
  tokens.map (List.replaceWord placeholder value)

/-- The exceptions of `exec_cmd`. -/
inductive CmdError where
  | sentinelDisabled
  | ambiguousPrompt
  deriving DecidableEq

def dash : CodePoint := 0x2d

/-- `--`, the end of the options. -/
def endOfOptions : PyStr := [dash, dash]

/-- A prompt with a leading dash would stand alone in the command line, with no `--` in the
template before it. -/
def IsAmbiguous (d : ToolConfig) (prompt : PyStr) : Prop :=
  let suffix := (d .argvSuffix).strings
  (lstrip prompt).head? = some dash ∧ ∃ index < suffix.length,
    suffix[index]? = some promptPlaceholder ∧ endOfOptions ∉ suffix.take index

instance (d : ToolConfig) (prompt : PyStr) : Decidable (IsAmbiguous d prompt) := by
  unfold IsAmbiguous
  infer_instance

/-- The checks of `exec_cmd`. -/
def checkCmd (d : ToolConfig) (prompt : PyStr) : Except CmdError Unit :=
  if (d .resumeTokenSource).isOneOf ["sentinel"] then .error .sentinelDisabled
  else if IsAmbiguous d prompt then .error .ambiguousPrompt
  else .ok ()

/-- The elements for the resume token, if there is one. -/
def resumeArgs (d : ToolConfig) (resumeToken : Option PyStr) : List PyStr :=
  match resumeToken with
  | some token => if token ≠ [] then substitute (d .argvResumeTokens).strings tokenPlaceholder token
      else []
  | none => []

/-- `exec_cmd`. -/
def execCmd (d : ToolConfig) (prompt : PyStr) (resumeToken : Option PyStr) :
    Except CmdError (List PyStr) := do
  checkCmd d prompt
  return (d .argvPrefix).strings ++ resumeArgs d resumeToken ++
    substitute (d .argvSuffix).strings promptPlaceholder prompt

/-- The model override that is used; one that starts with a dash is not. -/
def modelOverride (override : Option PyStr) : Option PyStr :=
  override.filter fun model ↦ model.head? ≠ some dash

/-- `build_exec_session` splices the model into the command line, right after `argv_prefix`. -/
def spliceModel (d : ToolConfig) (override : Option PyStr) (argv : List PyStr) : List PyStr :=
  match modelOverride override, (d .modelFlag).str?.filter fun flag ↦ flag ≠ [] with
  | some model, some flag =>
      let prefixLen := (d .argvPrefix).strings.length
      argv.take prefixLen ++ [flag, model] ++ argv.drop prefixLen
  | _, _ => argv

end Discode.Tools

import Discode.Database
import Discode.ExecSession
import Discode.Library.RegexScan
import Discode.ToolCommand

/-!
# Replies of tools

What `_deliver` makes of the output of a tool that has exited with code 0, and whether the
turn can be completed with it.
-/

set_option autoImplicit false

namespace Discode.Tools

open ExecSession (Chunks ExecResult Limits readBounded)
open Regex

/-! ## `strip_ansi` -/

def within (low high c : CodePoint) : Bool := low ≤ c && c ≤ high

/-- `_ANSI_RE`. -/
def ansiRule : Rule CodePoint where
  keep := .empty
  secret := all [.char (· == 0x1b), oneOf [
    all [.char (· == 0x5d), .star true (.char fun c ↦ !(c == 0x07 || c == 0x1b)),
      oneOf [.char (· == 0x07), all [.char (· == 0x1b), .char (· == 0x5c)]]],
    all [.char (· == 0x5b), .star true (.char (within 0x30 0x3f)),
      .star true (.char (within 0x20 0x2f)), .char (within 0x40 0x7e)],
    .char fun c ↦ within 0x40 0x5a c || within 0x5c 0x5f c]]

def stripAnsi (s : PyStr) : PyStr := ansiRule.sub [] s

/-! ## `GenericAdapter` -/

/-- The functions that the adapter relies on besides those of the validation. -/
structure Interpreter extends Python where
  /-- The first group of `re.search(pattern, text)`, if there is a match and it took part. -/
  search : PyStr → PyStr → Option (Option PyStr)
  search_infix : ∀ pattern text group, search pattern text = some (some group) → group <:+: text
  /-- `str(v)`. -/
  str : Json → PyStr
  isZero : PyStr → Bool

/-- `bool(v)`. -/
def Interpreter.truthy (py : Interpreter) : Json → Bool
  | .null => false
  | .bool b => b
  | .number digits => !py.isZero digits
  | .str s => s ≠ []
  | .list items => !items.isEmpty
  | .object entries => !entries.isEmpty

/-- An exception that leaves the handler. -/
abbrev Raises (α : Type) := Except Unit α

/-- `_try_json`; only a `JSONDecodeError` is caught. -/
def tryJson (py : Interpreter) (stdout : PyStr) : Raises (Option (List (PyStr × Json))) :=
  let s := strip stdout
  if s.head? ≠ some 0x7b then .ok none
  else match py.loads s with
    | .value (.object entries) => .ok (some entries)
    | .value _ => .ok none
    | .decodeError => .ok none
    | .valueError | .raised => .error ()

/-- `payload.get(key)`; no object has a key that is no string. -/
def payloadGet (payload : Option (List (PyStr × Json))) (key : Json) : Option Json :=
  payload.bind fun entries ↦ key.str?.bind fun k ↦ entries.lookup k

/-- `extract_reply`. -/
def extractReply (py : Interpreter) (d : ToolConfig) (stdout stderr : PyStr) : Raises PyStr :=
  let ex := d .replyExtractor
  if ex.isOneOf ["stdout_raw"] then .ok stdout
  else if ex.isOneOf ["stdout_strip_ansi"] then .ok (stripAnsi stdout)
  else if ex.isOneOf ["json_field"] then do
    let payload ← tryJson py stdout
    match payloadGet payload (d .replyJsonField) with
    | some (.str v) => return if v ≠ [] then v else stdout
    | _ => return stdout
  else if ex.isOneOf ["stderr_fallback"] then .ok (if stdout ≠ [] then stdout else stderr)
  else .ok stdout

/-- `re.search(d.resume_token_pattern, text)`. -/
def searchToken (py : Interpreter) (d : ToolConfig) (text : PyStr) : Raises (Option PyStr) :=
  match (d .resumeTokenPattern).str? with
  | some pattern => .ok (py.search pattern text).join
  | none => .error ()

/-- `_parse_resume_token`. -/
def readToken (py : Interpreter) (d : ToolConfig) (stdout stderr : PyStr) :
    Raises (Option PyStr) :=
  let src := d .resumeTokenSource
  if src.isOneOf ["none"] then .ok none
  else if src.isOneOf ["sentinel"] then
    .ok ((d .resumeTokenPattern).str?.filter fun pattern ↦ pattern ≠ [])
  else if src.isOneOf ["stdout_regex"] then searchToken py d stdout
  else if src.isOneOf ["stderr_regex"] then searchToken py d stderr
  else if src.isOneOf ["json_field"] then do
    let payload ← tryJson py stdout
    return ((payloadGet payload (d .resumeTokenPattern)).filter py.truthy).map py.str
  else .ok none

/-- A token that would be read as flags. -/
def isRejected (token : PyStr) : Bool := token.head? = some dash || token.any isSpace

/-- `parse_resume_token`. -/
def parseResumeToken (py : Interpreter) (d : ToolConfig) (stdout stderr : PyStr) :
    Raises (Option PyStr) := do
  let token ← readToken py d stdout stderr
  return token.filter fun token ↦ !isRejected token

/-! ## `_deliver` -/

/-- `_MAX_REPLY_CHARS`. -/
def maxReplyChars : ℕ := 900000

def noOutput : PyStr := pyStr "⚠️ Tool produced no output."

def replyTruncated : PyStr := pyStr "\n[reply truncated at 900000 characters]"

def flagPrompt : PyStr :=
  pyStr "⚠️ This tool would read a message starting with `-` as a command-line flag. " ++
    pyStr "Rephrase it so it doesn't start with `-` (e.g. `Please: - fix X`)."

def executionFailed : PyStr :=
  pyStr "⚠️ Tool execution failed. Inspect the workspace before retrying."

def timedOut : PyStr :=
  pyStr "⚠️ Tool timed out. It may have changed files; inspect the workspace before retrying."

def exitedWith (code : ℤ) : PyStr :=
  pyStr "⚠️ Tool exited with status " ++ pyStr (toString code) ++
    pyStr ". Inspect the workspace before retrying."

/-- What is left of the extracted text, or of the standard error if that is nothing. -/
def shownReply (extracted stderr : PyStr) : PyStr :=
  let reply := strip (stripAnsi extracted)
  let fallback := strip (stripAnsi stderr)
  if reply ≠ [] then reply else if fallback ≠ [] then fallback else noOutput

def truncateReply (reply : PyStr) : PyStr :=
  if maxReplyChars < reply.length then reply.take maxReplyChars ++ replyTruncated else reply

/-- The end of `_deliver`, after a run of the tool. -/
def deliverResult (py : Interpreter) (d : ToolConfig) (result : ExecResult) :
    Raises (PyStr × Option PyStr) := do
  let extracted ← extractReply py d result.text result.stderr
  let token ← parseResumeToken py d result.text result.stderr
  return (truncateReply (shownReply extracted result.stderr), token)

/-- `_deliver`, for a process that exits with code 0 after writing its output. -/
def deliver (py : Interpreter) (d : ToolConfig) (prompt : PyStr) (limits : Limits)
    {out err : List ℕ} (stdout : Chunks out) (stderr : Chunks err) :
    Raises (PyStr × Option PyStr) :=
  match checkCmd d prompt with
  | .error .ambiguousPrompt => .ok (flagPrompt, none)
  | .error .sentinelDisabled => .ok (executionFailed, none)
  | .ok () =>
      match ExecSession.result limits (readBounded limits stdout.chunks)
        (readBounded limits stderr.chunks) 0 with
      | .ok result => deliverResult py d result
      | .error (.failed code) => .ok (exitedWith code, none)
      | .error .timeout => .ok (timedOut, none)
      | .error .osError => .ok (executionFailed, none)

/-! ## The result transaction -/

/-- What a `TEXT` column can hold. -/
def Storable (s : PyStr) : Prop := ∀ c ∈ s, c ≠ 0 ∧ isSurrogate c = false

instance (s : PyStr) : Decidable (Storable s) := by
  unfold Storable
  infer_instance

/-- The turn is completed in the transaction that stores the reply and the token. -/
def turnAfter : Raises (PyStr × Option PyStr) → TurnStatus
  | .ok (reply, token) =>
      if Storable reply ∧ ∀ t ∈ token, Storable t then .completed else .executing
  | .error () => .executing

/-- A non-empty reply of the permitted length, and the turn is completed with it. -/
def Recorded (delivered : Raises (PyStr × Option PyStr)) : Prop :=
  (∃ reply token, delivered = .ok (reply, token) ∧ reply ≠ [] ∧ reply.length ≤ 1000000) ∧
    turnAfter delivered = .completed

/-! ## What the output is read as -/

section

variable (py : Interpreter) (d : ToolConfig) (stdout stderr : PyStr)

def ReadsJson : Prop :=
  (d .replyExtractor).isOneOf ["json_field"] = true ∨
    (d .resumeTokenSource).isOneOf ["json_field"] = true

/-- The JSON field that is the reply. -/
def jsonReply : Option PyStr :=
  match (d .replyExtractor).isOneOf ["json_field"], tryJson py stdout with
  | true, .ok payload =>
      ((payloadGet payload (d .replyJsonField)).bind Json.str?).filter fun v ↦ v ≠ []
  | _, _ => none

/-- The output that is the reply if no JSON field is. -/
def plainReply : PyStr :=
  if (d .replyExtractor).isOneOf ["stdout_strip_ansi"] then stripAnsi stdout
  else if (d .replyExtractor).isOneOf ["stderr_fallback"] ∧ stdout = [] then stderr
  else stdout

/-- The JSON field that is the token. -/
def jsonToken : Option PyStr :=
  match (d .resumeTokenSource).isOneOf ["json_field"], tryJson py stdout with
  | true, .ok payload => ((payloadGet payload (d .resumeTokenPattern)).filter py.truthy).map py.str
  | _, _ => none

/-- The group that is the token. -/
def groupToken : Option PyStr :=
  (d .resumeTokenPattern).str?.bind fun pattern ↦
    if (d .resumeTokenSource).isOneOf ["stdout_regex"] then (py.search pattern stdout).join
    else if (d .resumeTokenSource).isOneOf ["stderr_regex"] then (py.search pattern stderr).join
    else none

end

variable {py : Interpreter} {d : ToolConfig} {stdout stderr : PyStr}

theorem pyStr_injective : Function.Injective pyStr :=
  (List.map_injective_iff.mpr fun _ _ h ↦ Char.toNat_inj.mp h).comp fun _ _ h ↦
    String.toList_inj.mp h

theorem isOneOf_of_str {v : Json} {s : String} (h : v.str? = some (pyStr s))
    (values : List String) : v.isOneOf values = decide (s ∈ values) := by
  rw [Json.isOneOf, h, Option.any_some]
  simp [List.contains_eq_mem, pyStr_injective.eq_iff]

/-- A value that passes as one of the strings of a literal type. -/
theorem str_of_literal {f : Field} {values : List String} (htype : f.type = .literal values)
    {v : Json} (h : f.Accepts v) : ∃ s ∈ values, v.str? = some (pyStr s) := by
  unfold Field.Accepts checkValue at h
  rw [htype] at h
  cases v with
  | str s =>
      simp only at h
      split_ifs at h with hmem
      obtain ⟨t, ht, rfl⟩ := List.mem_map.mp hmem
      exact ⟨t, ht, rfl⟩
  | _ => cases h

theorem extractReply_cases (hd : Field.replyExtractor.Accepts (d .replyExtractor)) :
    ((d .replyExtractor).isOneOf ["json_field"] = true ∧ tryJson py stdout = .error () ∧
      extractReply py d stdout stderr = .error ()) ∨
    (((d .replyExtractor).isOneOf ["json_field"] = true → tryJson py stdout ≠ .error ()) ∧
      extractReply py d stdout stderr =
        .ok ((jsonReply py d stdout).getD (plainReply d stdout stderr))) := by
  obtain ⟨ex, hex, hstr⟩ := str_of_literal rfl hd
  unfold extractReply jsonReply plainReply
  simp only [isOneOf_of_str hstr]
  simp only [replyExtractors, List.mem_cons, List.not_mem_nil, or_false] at hex
  rcases hex with rfl | rfl | rfl | rfl
  · exact .inr ⟨(fun h ↦ nomatch h), rfl⟩
  · exact .inr ⟨(fun h ↦ nomatch h), rfl⟩
  · cases htry : tryJson py stdout with
    | error u => exact .inl ⟨rfl, rfl, rfl⟩
    | ok payload =>
        refine .inr ⟨(fun _ h ↦ nomatch h), ?_⟩
        rcases hget : payloadGet payload (d .replyJsonField) with _ | v
        · simp [hget, bind, Except.bind, pure, Except.pure]
        · cases v with
          | str v =>
              by_cases hv : v = [] <;>
                simp [hget, hv, bind, Except.bind, pure, Except.pure, Json.str?, Option.filter]
          | _ => simp [hget, bind, Except.bind, pure, Except.pure, Json.str?]
  · refine .inr ⟨(fun h ↦ nomatch h), ?_⟩
    by_cases hempty : stdout = []
    · simp [hempty]
    · simp [hempty]

theorem readToken_cases (hd : Field.resumeTokenSource.Accepts (d .resumeTokenSource))
    (hpattern : PatternGiven (d .resumeTokenSource) (d .resumeTokenPattern))
    (hsentinel : (d .resumeTokenSource).isOneOf ["sentinel"] = false) :
    ((d .resumeTokenSource).isOneOf ["json_field"] = true ∧ tryJson py stdout = .error () ∧
      readToken py d stdout stderr = .error ()) ∨
    (((d .resumeTokenSource).isOneOf ["json_field"] = true → tryJson py stdout ≠ .error ()) ∧
      readToken py d stdout stderr =
        .ok ((jsonToken py d stdout).or (groupToken py d stdout stderr))) := by
  obtain ⟨src, hsrc, hstr⟩ := str_of_literal rfl hd
  unfold readToken jsonToken groupToken
  rw [isOneOf_of_str hstr] at hsentinel
  simp only [isOneOf_of_str hstr]
  simp only [resumeSources, List.mem_cons, List.not_mem_nil, or_false] at hsrc
  have hgiven : src ∉ ["none", "sentinel", "caller_uuid"] →
      ∃ pattern, (d .resumeTokenPattern).str? = some pattern := by
    intro hneeds
    rw [PatternGiven, isOneOf_of_str hstr, decide_eq_false hneeds] at hpattern
    cases hp : (d .resumeTokenPattern).str? with
    | none => simp [hp] at hpattern
    | some pattern => exact ⟨pattern, rfl⟩
  rcases hsrc with rfl | rfl | rfl | rfl | rfl | rfl
  · refine .inr ⟨(fun h ↦ nomatch h), ?_⟩
    simp
  · obtain ⟨pattern, hp⟩ := hgiven (by decide)
    refine .inr ⟨(fun h ↦ nomatch h), ?_⟩
    simp [searchToken, hp]
  · obtain ⟨pattern, hp⟩ := hgiven (by decide)
    refine .inr ⟨(fun h ↦ nomatch h), ?_⟩
    simp [searchToken, hp]
  · obtain ⟨pattern, hp⟩ := hgiven (by decide)
    cases htry : tryJson py stdout with
    | error u => exact .inl ⟨rfl, rfl, rfl⟩
    | ok payload =>
        refine .inr ⟨(fun _ h ↦ nomatch h), ?_⟩
        simp [hp, bind, Except.bind, pure, Except.pure]
  · cases hsentinel
  · refine .inr ⟨(fun h ↦ nomatch h), ?_⟩
    simp

end Discode.Tools

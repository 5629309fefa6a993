import Discode.ExecSession
import Discode.TextLines
import Mathlib.Data.List.Basic
import Mathlib.Data.List.Dedup
import Mathlib.Data.List.Sort

/-!
# Diff previews

How `diff_preview` lists the filter drivers of a workspace and turns them off: the keys that
`git config` prints pass the bounded reader of `exec_session.py`, the decoder and the string
operations of `_neutralized_filter_args` before they become `-c` arguments.
-/

set_option autoImplicit false

namespace Discode.DiffPreview

open ExecSession (Chunks ExecError ExecResult Limits readBounded)

/-! ## The configuration of a workspace -/

def isVariableChar (b : ℕ) : Bool :=
  (0x61 ≤ b && b ≤ 0x7a) || (0x30 ≤ b && b ≤ 0x39) || b == 0x2d

/-- A key `filter.<name>.<var>`; git accepts every byte but NUL and newline in the name. -/
structure FilterKey where
  name : List ℕ
  var : List ℕ
  name_bytes : ∀ b ∈ name, b < 256 ∧ b ≠ 0 ∧ b ≠ 0x0a
  var_ne : var ≠ []
  var_chars : ∀ b ∈ var, isVariableChar b = true

def dot : CodePoint := 0x2e

def newline : CodePoint := 0x0a

def filterPrefix : PyStr := pyStr "filter."

def FilterKey.line (k : FilterKey) : List ℕ := filterPrefix ++ k.name ++ dot :: k.var

/-- `git config --name-only --get-regexp ^filter\.`: one key a line. -/
def listing (keys : List FilterKey) : List ℕ := keys.flatMap fun k ↦ k.line ++ [newline]

/-- It exits with 1 if there is no such key. -/
def exitCode (keys : List FilterKey) : ℤ := if keys = [] then 1 else 0

/-! ## The listing -/

/-- `_DIFF_PREVIEW_MAX_BYTES`, the cap on the output that is kept. -/
def maxBytes : ℕ := 64 * 1024

def limits : Limits := .ofMax maxBytes

/-- What becomes of the listing process. -/
inductive ListingRun (keys : List FilterKey) where
  | finished (stdout : Chunks (listing keys)) (err : List ℕ) (stderr : Chunks err)
  | timeout
  | osError

def ListingRun.result {keys : List FilterKey} : ListingRun keys → Except ExecError ExecResult
  | .finished stdout _ stderr => ExecSession.result limits (readBounded limits stdout.chunks)
      (readBounded limits stderr.chunks) (exitCode keys)
  | .timeout => .error .timeout
  | .osError => .error .osError

/-! ## `_neutralized_filter_args` -/

/-- `key.strip()[len("filter."):].rsplit(".", 1)[0]`. -/
def readName (key : PyStr) : PyStr := beforeLast dot ((strip key).drop filterPrefix.length)

/-- The names of the drivers, as they are read off the lines of the output. -/
def namesOf (text : PyStr) : List PyStr :=
  ((splitlines text).filter fun key ↦ strip key ≠ []).map readName

/-- A name that no `-c` argument can hold. -/
def Unsupported (name : PyStr) : Prop := 0x3d ∈ name ∨ name = []

instance (name : PyStr) : Decidable (Unsupported name) := by
  unfold Unsupported
  infer_instance

/-- The variables of a driver that are set, and their values. -/
def filterOverrides : List (String × String) :=
  [("clean", ""), ("smudge", ""), ("process", ""), ("required", "false")]

/-- `.<var>=<value>`. -/
def ending (setting : String × String) : PyStr :=
  dot :: (pyStr setting.1 ++ 0x3d :: pyStr setting.2)

def override (name : PyStr) (setting : String × String) : PyStr :=
  filterPrefix ++ name ++ ending setting

/-- `sorted(names)` of a set. -/
def sortedNames (names : List PyStr) : List PyStr := names.dedup.mergeSort (· ≤ ·)

inductive FilterError where
  | unsupportedConfig
  | exec (error : ExecError)
  deriving DecidableEq

def filterArgs (names : List PyStr) : List PyStr :=
  names.flatMap fun name ↦ filterOverrides.flatMap fun setting ↦
    [pyStr "-c", override name setting]

/-- `_neutralized_filter_args`, from the result of the listing on. -/
def neutralizedFilterArgs (run : Except ExecError ExecResult) : Except FilterError (List PyStr) :=
  match run with
  | .error error => if error = .failed 1 then .ok [] else .error (.exec error)
  | .ok result =>
      if ∃ name ∈ namesOf result.text, Unsupported name then .error .unsupportedConfig
      else .ok (filterArgs (sortedNames (namesOf result.text)))

/-! ## `diff_preview` -/

/-- A request is refused, or `git diff` is run. -/
inductive Preview where
  | refused (status : ℕ) (detail : String)
  | diff (argv : List PyStr)

/-- `diff_preview`, once the session and its directory are known. -/
def diffPreview (realpath : PyStr) (run : Except ExecError ExecResult) : Preview :=
  match neutralizedFilterArgs run with
  | .error .unsupportedConfig => .refused 422 "diff_failed: unsupported filter config"
  | .error (.exec .timeout) => .refused 504 "diff_timeout"
  | .error (.exec (.failed _)) =>
      .refused 422 "diff_failed: workspace is not a readable Git repository"
  | .error (.exec .osError) => .refused 503 "git_unavailable"
  | .ok args => .diff (["git", "--no-pager", "-c", "core.fsmonitor=false"].map pyStr ++ args ++
      [pyStr "-C", realpath] ++ ["diff", "--no-ext-diff", "--no-textconv",
        "--ignore-submodules=all", "--no-color", "--patch"].map pyStr)

theorem diffPreview_of_error {run : Except ExecError ExecResult} {error : FilterError}
    (h : neutralizedFilterArgs run = .error error) (realpath : PyStr) :
    ∃ status detail, diffPreview realpath run = .refused status detail := by
  unfold diffPreview
  rw [h]
  cases error with
  | unsupportedConfig => exact ⟨_, _, rfl⟩
  | exec error => cases error <;> exact ⟨_, _, rfl⟩

theorem diffPreview_of_ok {run : Except ExecError ExecResult} {args : List PyStr}
    (h : neutralizedFilterArgs run = .ok args) (realpath : PyStr) :
    ∃ before after, diffPreview realpath run = .diff (before ++ args ++ after) := by
  unfold diffPreview
  rw [h]
  refine ⟨["git", "--no-pager", "-c", "core.fsmonitor=false"].map pyStr, [pyStr "-C", realpath] ++
    ["diff", "--no-ext-diff", "--no-textconv", "--ignore-submodules=all", "--no-color",
      "--patch"].map pyStr, ?_⟩
  simp only [List.append_assoc]

end Discode.DiffPreview

import Discode.Library.Regex
import Discode.Text
import Mathlib.Data.List.Sort

/-!
# Redaction of outbound text

The secret patterns of `security/redaction.py`, applied one after another.
-/

set_option autoImplicit false

namespace Discode

open Regex

/-! ## Character classes -/

/-- `\w` of the interpreter's Unicode version; only its ASCII part is fixed. -/
structure WordChars where
  isWord : CodePoint → Bool
  ascii : ∀ c < 128, isWord c = ((0x30 ≤ c && c ≤ 0x39) || (0x41 ≤ c && c ≤ 0x5a) || c == 0x5f ||
    (0x61 ≤ c && c ≤ 0x7a))

/-- The ASCII word characters, for texts without other letters. -/
def WordChars.asciiOnly : WordChars where
  isWord c := (0x30 ≤ c && c ≤ 0x39) || (0x41 ≤ c && c ≤ 0x5a) || c == 0x5f ||
    (0x61 ≤ c && c ≤ 0x7a)
  ascii _ _ := rfl

def isDigit (c : CodePoint) : Bool := 0x30 ≤ c && c ≤ 0x39

def isUpper (c : CodePoint) : Bool := 0x41 ≤ c && c ≤ 0x5a

def isLower (c : CodePoint) : Bool := 0x61 ≤ c && c ≤ 0x7a

/-- `[A-Za-z0-9]`. -/
def isAlnum (c : CodePoint) : Bool := isDigit c || isUpper c || isLower c

def oneOfChars (s : String) (c : CodePoint) : Bool := (pyStr s).contains c

/-- `[A-Za-z]` under `(?i)`, which adds `İ`, `ı`, `ſ` and the Kelvin sign. -/
def isLetterIgnoreCase (c : CodePoint) : Bool :=
  isUpper c || isLower c || c == 0x130 || c == 0x131 || c == 0x17f || c == 0x212a

/-- The characters that a lower-case ASCII letter matches under `(?i)`. -/
def sameIgnoreCase (letter c : CodePoint) : Bool :=
  c == letter || (isLower letter && c + 0x20 == letter) ||
    (letter == 0x69 && (c == 0x130 || c == 0x131)) || (letter == 0x73 && c == 0x17f) ||
      (letter == 0x6b && c == 0x212a)

def literal (s : String) : Regex CodePoint := all ((pyStr s).map fun a ↦ .char (· == a))

def literalIgnoreCase (s : String) : Regex CodePoint :=
  all ((pyStr s).map fun a ↦ .char (sameIgnoreCase a))

def chars (p : CodePoint → Bool) : Regex CodePoint := .star true (.char p)

def wordBoundary (u : WordChars) : Regex CodePoint :=
  .look fun x y ↦ x.any u.isWord != y.any u.isWord

/-! ## `COMMON_SECRET_PATTERNS` -/

def isKeyChar (c : CodePoint) : Bool := isAlnum c || oneOfChars "_.-" c

def isEnvChar (c : CodePoint) : Bool := isUpper c || isDigit c || c == 0x5f

/-- `(?i:token|secret|passw(?:or)?d|api[_-]?key|credentials?|private[_-]?key)`. -/
def secretWord : Regex CodePoint :=
  oneOf [literalIgnoreCase "token", literalIgnoreCase "secret",
    all [literalIgnoreCase "passw", opt (literalIgnoreCase "or"), literalIgnoreCase "d"],
    all [literalIgnoreCase "api", opt (.char (oneOfChars "_-")), literalIgnoreCase "key"],
    all [literalIgnoreCase "credential", opt (literalIgnoreCase "s")],
    all [literalIgnoreCase "private", opt (.char (oneOfChars "_-")), literalIgnoreCase "key"]]

/-- `_SECRET_KEY_NAME`. -/
def secretKeyName : Regex CodePoint :=
  .alt (all [chars isKeyChar, secretWord, chars isKeyChar])
    (all [chars isEnvChar, oneOf [literal "_AUTH", literal "_KEY", literal "AUTH_"],
      chars isEnvChar])

def quote : Regex CodePoint := .char (oneOfChars "\"'")

def isValueChar (c : CodePoint) : Bool := !(isSpace c || oneOfChars "\"',;\x7d" c)

def assignmentRule (u : WordChars) : Rule CodePoint where
  keep := all [opt quote, wordBoundary u, secretKeyName, opt quote, chars isSpace,
    .char (oneOfChars ":="), chars isSpace]
  secret := all [opt quote, plus (.char isValueChar), opt quote]

def bearerRule : Rule CodePoint where
  keep := all [literalIgnoreCase "bearer", plus (.char isSpace)]
  secret := all [plus (.char fun c ↦ isLetterIgnoreCase c || isDigit c || oneOfChars "-._~+/" c),
    .star true (.char (· == 0x3d))]

/-- `[^/\s:@]`. -/
def isUserInfoChar (c : CodePoint) : Bool := !(isSpace c || oneOfChars "/:@" c)

def urlRule : Rule CodePoint where
  keep := all [.char isLetterIgnoreCase,
    chars fun c ↦ isLetterIgnoreCase c || isDigit c || oneOfChars "+.-" c, literal "://"]
  secret := all [plus (.char isUserInfoChar), literal ":", plus (.char isUserInfoChar),
    literal "@", plus (.char fun c ↦ !isSpace c)]

/-- `[A-Za-z0-9_-]`. -/
def isBase64Url (c : CodePoint) : Bool := isAlnum c || oneOfChars "_-" c

def discordTokenRule : Rule CodePoint where
  keep := .empty
  secret := all [.char (oneOfChars "MNO"), atLeast 23 (.char isBase64Url), literal ".",
    atLeast 6 (.char isBase64Url), literal ".", atLeast 27 (.char isBase64Url)]

def skKeyRule (u : WordChars) : Rule CodePoint where
  keep := .empty
  secret := all [wordBoundary u, literal "sk-", atLeast 20 (.char isBase64Url)]

def githubTokenRule (u : WordChars) : Rule CodePoint where
  keep := .empty
  secret := all [wordBoundary u, literal "gh", .char (oneOfChars "pousr"), literal "_",
    atLeast 30 (.char isAlnum)]

def githubPatRule (u : WordChars) : Rule CodePoint where
  keep := .empty
  secret := all [wordBoundary u, literal "github_pat_",
    atLeast 22 (.char fun c ↦ isAlnum c || c == 0x5f)]

def awsKeyRule (u : WordChars) : Rule CodePoint where
  keep := .empty
  secret := all [wordBoundary u, oneOf [literal "AKIA", literal "ASIA"],
    exactly 16 (.char fun c ↦ isDigit c || isUpper c), wordBoundary u]

def googleKeyRule (u : WordChars) : Rule CodePoint where
  keep := .empty
  secret := all [wordBoundary u, literal "AIza", exactly 35 (.char isBase64Url)]

def slackTokenRule (u : WordChars) : Rule CodePoint where
  keep := .empty
  secret := all [wordBoundary u, literal "xox", .char (oneOfChars "abposr"), literal "-",
    atLeast 10 (.char fun c ↦ isAlnum c || c == 0x2d)]

def pemLabel : Regex CodePoint :=
  all [chars fun c ↦ isUpper c || c == 0x20, literal "PRIVATE KEY-----"]

def pemRule : Rule CodePoint where
  keep := .empty
  secret := all [literal "-----BEGIN ", pemLabel, .star false (.char fun _ ↦ true),
    .alt (all [literal "-----END ", pemLabel]) (.look fun _ y ↦ y.isNone)]

def commonSecretPatterns (u : WordChars) : List (Rule CodePoint) :=
  [assignmentRule u, bearerRule, urlRule, discordTokenRule, skKeyRule u, githubTokenRule u,
    githubPatRule u, awsKeyRule u, googleKeyRule u, slackTokenRule u, pemRule]

/-! ## `apply_common_redaction` -/

/-- What redaction depends on besides the text. -/
structure Redactor where
  words : WordChars
  /-- The values that `_deployment_secrets` collects from the settings. -/
  secretValues : List PyStr

/-- `re.compile(re.escape(value))`. -/
def exactRule (value : PyStr) : Rule CodePoint where
  keep := .empty
  secret := all (value.map fun a ↦ .char (· == a))

def Redactor.deploymentSecrets (env : Redactor) : List (Rule CodePoint) :=
  ((env.secretValues.insertionSort fun v w ↦ w.length ≤ v.length).filter
    fun v ↦ 8 ≤ v.length).map exactRule

/-- All rules in the order in which `apply_common_redaction` runs them. -/
def Redactor.rules (env : Redactor) : List (Rule CodePoint) :=
  env.deploymentSecrets ++ commonSecretPatterns env.words

def redacted : PyStr := pyStr "[REDACTED]"

def applyCommonRedaction (env : Redactor) (text : PyStr) : PyStr :=
  env.rules.foldl (fun text rule ↦ rule.sub redacted text) text

end Discode

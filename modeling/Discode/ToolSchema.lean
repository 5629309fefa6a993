import Discode.Library.ColumnRules
import Discode.Text
import Mathlib.Data.List.Infix

/-!
# Tool definitions

The validation contract of `tools/schema.py` over the columns of a `tool_definitions` row.
-/

set_option autoImplicit false

namespace Discode.Tools

/-! ## Values -/

/-- What `json.loads` returns. -/
inductive Json where
  | null
  | bool (b : Bool)
  | number (digits : PyStr)
  | str (s : PyStr)
  | list (items : List Json)
  | object (entries : List (PyStr × Json))

mutual

/-- `==`; what it compares has passed the validation, so it never meets an object. -/
def Json.eq : Json → Json → Bool
  | .null, .null => true
  | .bool b, .bool b' => b == b'
  | .str s, .str s' => s == s'
  | .list items, .list items' => Json.eqItems items items'
  | _, _ => false

def Json.eqItems : List Json → List Json → Bool
  | [], [] => true
  | v :: items, v' :: items' => v.eq v' && Json.eqItems items items'
  | _, _ => false

end

def Json.str? : Json → Option PyStr
  | .str s => some s
  | _ => none

/-- The strings of a `list[str]`. -/
def Json.strings : Json → List PyStr
  | .list items => items.filterMap Json.str?
  | _ => []

/-- The fields of `ToolConfig`, in the order of the class. -/
inductive Field where
  | displayName
  | argvPrefix
  | argvResumeTokens
  | argvSuffix
  | usesPty
  | resumeTokenSource
  | resumeTokenPattern
  | replyExtractor
  | replyJsonField
  | extraPaths
  | envPassthrough
  | modelFlag
  | apiKeyEnv
  | baseUrlEnv
  deriving DecidableEq, Repr

namespace Field

/-- `ToolConfig.model_fields`. -/
def modelFields : List Field :=
  [displayName, argvPrefix, argvResumeTokens, argvSuffix, usesPty, resumeTokenSource,
    resumeTokenPattern, replyExtractor, replyJsonField, extraPaths, envPassthrough, modelFlag,
    apiKeyEnv, baseUrlEnv]

theorem mem_modelFields (f : Field) : f ∈ modelFields := by
  cases f <;> decide

def key : Field → String
  | displayName => "display_name"
  | argvPrefix => "argv_prefix"
  | argvResumeTokens => "argv_resume_tokens"
  | argvSuffix => "argv_suffix"
  | usesPty => "uses_pty"
  | resumeTokenSource => "resume_token_source"
  | resumeTokenPattern => "resume_token_pattern"
  | replyExtractor => "reply_extractor"
  | replyJsonField => "reply_json_field"
  | extraPaths => "extra_paths"
  | envPassthrough => "env_passthrough"
  | modelFlag => "model_flag"
  | apiKeyEnv => "api_key_env"
  | baseUrlEnv => "base_url_env"

/-- The field of that name, if there is one. -/
def ofKey (key : PyStr) : Option Field := modelFields.find? fun f ↦ pyStr f.key = key

end Field

/-! ## Field types -/

inductive FieldType where
  | string (maxLength : ℕ)
  | optionalString (maxLength : ℕ)
  | boolean
  | literal (values : List String)
  | strings (minLength maxLength : ℕ)

/-- `VALID_RESUME_SOURCES`. -/
def resumeSources : List String :=
  ["none", "stdout_regex", "stderr_regex", "json_field", "sentinel", "caller_uuid"]

/-- `VALID_REPLY_EXTRACTORS`. -/
def replyExtractors : List String :=
  ["stdout_raw", "stdout_strip_ansi", "json_field", "stderr_fallback"]

def Field.type : Field → FieldType
  | displayName => .string 128
  | argvPrefix => .strings 1 128
  | argvResumeTokens => .strings 0 128
  | argvSuffix => .strings 1 128
  | usesPty => .boolean
  | resumeTokenSource => .literal resumeSources
  | resumeTokenPattern => .optionalString 512
  | replyExtractor => .literal replyExtractors
  | replyJsonField => .optionalString 64
  | extraPaths => .strings 0 128
  | envPassthrough => .strings 0 128
  | modelFlag => .optionalString 64
  | apiKeyEnv => .optionalString 64
  | baseUrlEnv => .optionalString 64

/-- The default of a field; a field without one is required. -/
def Field.default : Field → Option Json
  | displayName => some (.str [])
  | argvResumeTokens => some (.list [])
  | usesPty => some (.bool false)
  | resumeTokenPattern => some .null
  | replyJsonField => some .null
  | extraPaths => some (.list [])
  | envPassthrough => some (.list [])
  | modelFlag => some .null
  | apiKeyEnv => some .null
  | baseUrlEnv => some .null
  | argvPrefix | argvSuffix | resumeTokenSource | replyExtractor => none

/-- Where an error is reported: `".".join(error["loc"])`. -/
inductive Loc where
  | config
  | field (f : Field)
  | item (f : Field) (index : ℕ)
  | extra (key : PyStr)
  | name
  deriving DecidableEq

inductive ErrorKind where
  | dictType
  | missing
  | stringType
  | stringUnicode
  | stringTooLong (maxLength : ℕ)
  | boolType
  | literalError (values : List String)
  | listType
  | tooShort (minLength : ℕ)
  | tooLong (maxLength : ℕ)
  | extraForbidden
  | valueError (message : String)
  deriving DecidableEq

structure ConfigError where
  loc : Loc
  kind : ErrorKind
  deriving DecidableEq

/-- Why a configuration does not pass: an error of the contract, or another exception. -/
inductive Refusal where
  | invalid (error : ConfigError)
  | raised
  deriving DecidableEq

def checkString (loc : Loc) (maxLength : ℕ) : Json → Except Refusal Unit
  | .str s =>
      if s.any isSurrogate then .error (.invalid ⟨loc, .stringUnicode⟩)
      else if maxLength < s.length then .error (.invalid ⟨loc, .stringTooLong maxLength⟩)
      else .ok ()
  | _ => .error (.invalid ⟨loc, .stringType⟩)

/-- The elements of a `list[str]`, from index `i` on. -/
def checkItems (f : Field) (i : ℕ) : List Json → Except Refusal Unit
  | [] => .ok ()
  | .str _ :: items => checkItems f (i + 1) items
  | _ :: _ => .error (.invalid ⟨.item f i, .stringType⟩)

/-- Strict validation of one value. -/
def checkValue (f : Field) (v : Json) : Except Refusal Unit :=
  match f.type, v with
  | .string maxLength, v => checkString (.field f) maxLength v
  | .optionalString _, .null => .ok ()
  | .optionalString maxLength, v => checkString (.field f) maxLength v
  | .boolean, .bool _ => .ok ()
  | .boolean, _ => .error (.invalid ⟨.field f, .boolType⟩)
  | .literal values, .str s =>
      if s ∈ values.map pyStr then .ok ()
      else .error (.invalid ⟨.field f, .literalError values⟩)
  | .literal values, _ => .error (.invalid ⟨.field f, .literalError values⟩)
  | .strings minLength maxLength, .list items =>
      if maxLength < items.length then .error (.invalid ⟨.field f, .tooLong maxLength⟩)
      else match checkItems f 0 items with
        | .error e => .error e
        | .ok () =>
            if items.length < minLength then .error (.invalid ⟨.field f, .tooShort minLength⟩)
            else .ok ()
  | .strings _ _, _ => .error (.invalid ⟨.field f, .listType⟩)

/-! ## `ToolConfig` -/

/-- What `re.compile` does with a pattern: the number of its groups, or an exception. -/
inductive Compiled where
  | groups (n : ℕ)
  | error
  | raised

/-- What `json.loads` does with a text.  A `JSONDecodeError` is a `ValueError`, and an integer
literal with too many digits is one of another kind. -/
inductive Loaded where
  | value (v : Json)
  | decodeError
  | valueError
  | raised

/-- The functions of the standard library that the validation relies on. -/
structure Python where
  compile : PyStr → Compiled
  loads : PyStr → Loaded

/-- The attributes of a configuration. -/
abbrev ToolConfig := Field → Json

def isEnvStart (c : CodePoint) : Bool :=
  (0x41 ≤ c && c ≤ 0x5a) || (0x61 ≤ c && c ≤ 0x7a) || c == 0x5f

/-- `ENV_PATTERN.fullmatch`. -/
def matchesEnvPattern : PyStr → Bool
  | [] => false
  | c :: rest => isEnvStart c && rest.all fun d ↦ isEnvStart d || (0x30 ≤ d && d ≤ 0x39)

/-- `FORBIDDEN_ENV`. -/
def forbiddenEnv : List String :=
  ["DISCORD_TOKEN", "DATABASE_URL", "REDIS_URL", "DEPLOYMENT_SECRET_KEY", "RUNNER_CONTROL_AUTH",
    "PLATFORM_ADMIN_USER_IDS", "EMERGENCY_STOP"]

def isNameChar (c : CodePoint) : Bool :=
  (0x61 ≤ c && c ≤ 0x7a) || (0x30 ≤ c && c ≤ 0x39) || c == 0x5f || c == 0x2d

/-- `NAME_PATTERN.fullmatch`. -/
def matchesNamePattern : PyStr → Bool
  | [] => false
  | c :: rest => 0x61 ≤ c && c ≤ 0x7a && rest.length ≤ 63 && rest.all isNameChar

def promptPlaceholder : PyStr := pyStr "\x7bprompt\x7d"

def tokenPlaceholder : PyStr := pyStr "\x7btoken\x7d"

def nul : CodePoint := 0

/-- Every element is nonempty and has no NUL. -/
def ElementsFit (v : Json) : Prop := ∀ item ∈ v.strings, item ≠ [] ∧ nul ∉ item

/-- The environment keys of a column: those of a list, or the one of an optional string. -/
def envKeys : Json → List PyStr
  | .str s => [s]
  | v => v.strings

def EnvKeysAllowed (v : Json) : Prop :=
  ∀ key ∈ envKeys v, matchesEnvPattern key = true ∧ key ∉ forbiddenEnv.map pyStr

instance (v : Json) : Decidable (ElementsFit v) := by
  unfold ElementsFit
  infer_instance

instance (v : Json) : Decidable (EnvKeysAllowed v) := by
  unfold EnvKeysAllowed
  infer_instance

def refuse (bad : Prop) [Decidable bad] (message : String) : Except Refusal Unit :=
  if bad then .error (.invalid ⟨.config, .valueError message⟩) else .ok ()

def Json.isOneOf (v : Json) (values : List String) : Bool :=
  v.str?.any fun s ↦ (values.map pyStr).contains s

/-- A pattern that is searched in the output has to compile, with one group. -/
def checkGroups (python : Python) (source pattern : Json) : Except Refusal Unit :=
  if source.isOneOf ["stdout_regex", "stderr_regex"] then
    match python.compile (pattern.str?.getD []) with
    | .error => .error (.invalid ⟨.config, .valueError "resume_token_pattern regex invalid"⟩)
    | .raised => .error .raised
    | .groups n => refuse (n ≠ 1) "resume_token_pattern must have exactly one capture group"
  else .ok ()

def ToolConfig.validateContract (python : Python) (config : ToolConfig) : Except Refusal Unit := do
  refuse (¬ ∀ f ∈ [Field.argvPrefix, .argvResumeTokens, .argvSuffix, .extraPaths],
      ElementsFit (config f))
    "argument/path elements must be nonempty strings without NUL"
  refuse (¬ ∃ token ∈ (config .argvSuffix).strings, promptPlaceholder <:+: token)
    "argv_suffix must contain \x7bprompt\x7d"
  refuse ((config .argvResumeTokens).strings ≠ [] ∧
      (config .resumeTokenSource).isOneOf ["sentinel"] = false ∧
      ¬ ∃ token ∈ (config .argvResumeTokens).strings, tokenPlaceholder <:+: token)
    "argv_resume_tokens must contain \x7btoken\x7d"
  refuse ((config .resumeTokenSource).isOneOf ["none", "sentinel", "caller_uuid"] = false ∧
      (config .resumeTokenPattern).str?.getD [] = [])
    "resume_token_source requires resume_token_pattern"
  checkGroups python (config .resumeTokenSource) (config .resumeTokenPattern)
  refuse ((config .replyExtractor).isOneOf ["json_field"] = true ∧
      (config .replyJsonField).str?.getD [] = [])
    "json_field requires reply_json_field"
  refuse (¬ ∀ f ∈ [Field.envPassthrough, .apiKeyEnv, .baseUrlEnv], EnvKeysAllowed (config f))
    "environment key is invalid or reserved for infrastructure"

/-- The dictionary that is validated: the values of the known keys, and the other keys. -/
structure Config where
  get : Field → Option Json
  extra : List PyStr

/-- `{key: getattr(row, key) for key in …}`. -/
def Config.ofAttributes (config : ToolConfig) : Config := ⟨fun f ↦ some (config f), []⟩

def Config.ofJson : Json → Option Config
  | .object entries => some {
      get := fun f ↦ entries.lookup (pyStr f.key)
      extra := (entries.map Prod.fst).filter fun key ↦ (Field.ofKey key).isNone }
  | _ => none

/-- A field that is not given has its default, or is an error. -/
def Config.checkField (config : Config) (f : Field) : Except Refusal Unit :=
  match config.get f, f.default with
  | some v, _ => checkValue f v
  | none, some _ => .ok ()
  | none, none => .error (.invalid ⟨.field f, .missing⟩)

def Config.values (config : Config) : ToolConfig :=
  fun f ↦ (config.get f).getD (f.default.getD .null)

/-- The checks of all `fields`, the first error of which is reported. -/
def Config.checkFields (config : Config) : List Field → Except Refusal Unit
  | [] => .ok ()
  | f :: fields => do
      config.checkField f
      config.checkFields fields

def Config.checkExtra (config : Config) : Except Refusal Unit :=
  match config.extra with
  | [] => .ok ()
  | key :: _ => .error (.invalid ⟨.extra key, .extraForbidden⟩)

/-- `ToolConfig.model_validate(config)`. -/
def modelValidate (python : Python) (config : Config) : Except Refusal ToolConfig := do
  config.checkFields Field.modelFields
  config.checkExtra
  config.values.validateContract python
  return config.values

/-- `validate_tool_config`: no message is `.ok ()`. -/
def validateToolConfig (python : Python) (config : Option Config) (name : PyStr) :
    Except Refusal Unit :=
  if matchesNamePattern name then
    match config with
    | none => .error (.invalid ⟨.config, .dictType⟩)
    | some config => do
        let _ ← modelValidate python config
        return ()
  else .error (.invalid ⟨.name, .valueError "name must match"⟩)

/-! ## The rules -/

theorem refuse_eq_ok {bad : Prop} [Decidable bad] {message : String} :
    refuse bad message = .ok () ↔ ¬ bad := by
  unfold refuse
  split <;> simp_all

theorem checks_eq_ok {α : Type} {check : Except Refusal Unit} {rest : Except Refusal α} {a : α} :
    (do check; rest) = .ok a ↔ check = .ok () ∧ rest = .ok a := by
  cases check with
  | error e => exact ⟨fun h ↦ (nomatch h), fun h ↦ (nomatch h.1)⟩
  | ok u => exact ⟨fun h ↦ ⟨rfl, h⟩, And.right⟩

/-- The value is one of the field's type. -/
def Field.Accepts (f : Field) (v : Json) : Prop := checkValue f v = .ok ()

def HasPrompt (suffix : Json) : Prop := ∃ token ∈ suffix.strings, promptPlaceholder <:+: token

def TokenPlaced (source tokens : Json) : Prop :=
  ¬ (tokens.strings ≠ [] ∧ source.isOneOf ["sentinel"] = false ∧
    ¬ ∃ token ∈ tokens.strings, tokenPlaceholder <:+: token)

def PatternGiven (source pattern : Json) : Prop :=
  ¬ (source.isOneOf ["none", "sentinel", "caller_uuid"] = false ∧ pattern.str?.getD [] = [])

def PatternHasGroup (python : Python) (source pattern : Json) : Prop :=
  checkGroups python source pattern = .ok ()

def ReplyFieldGiven (extractor replyField : Json) : Prop :=
  ¬ (extractor.isOneOf ["json_field"] = true ∧ replyField.str?.getD [] = [])

/-- The checks of single columns. -/
def columnRules : List (ColumnRule Field Json) :=
  Field.modelFields.map (fun f ↦ .single f f.Accepts) ++
    [Field.argvPrefix, .argvResumeTokens, .argvSuffix, .extraPaths].map
      (fun f ↦ .single f ElementsFit) ++
    [.single .argvSuffix HasPrompt] ++
    [Field.envPassthrough, .apiKeyEnv, .baseUrlEnv].map (fun f ↦ .single f EnvKeysAllowed)

/-- The checks that relate two columns. -/
def relatingRules (python : Python) : List (ColumnRule Field Json) :=
  [.pair .resumeTokenSource .argvResumeTokens TokenPlaced,
    .pair .resumeTokenSource .resumeTokenPattern PatternGiven,
    .pair .resumeTokenSource .resumeTokenPattern (PatternHasGroup python),
    .pair .replyExtractor .replyJsonField ReplyFieldGiven]

def rules (python : Python) : List (ColumnRule Field Json) := columnRules ++ relatingRules python

theorem validateContract_eq_ok {python : Python} {config : ToolConfig} :
    config.validateContract python = .ok () ↔
      (∀ f ∈ [Field.argvPrefix, .argvResumeTokens, .argvSuffix, .extraPaths],
        ElementsFit (config f)) ∧
      HasPrompt (config .argvSuffix) ∧
      TokenPlaced (config .resumeTokenSource) (config .argvResumeTokens) ∧
      PatternGiven (config .resumeTokenSource) (config .resumeTokenPattern) ∧
      PatternHasGroup python (config .resumeTokenSource) (config .resumeTokenPattern) ∧
      ReplyFieldGiven (config .replyExtractor) (config .replyJsonField) ∧
      ∀ f ∈ [Field.envPassthrough, .apiKeyEnv, .baseUrlEnv], EnvKeysAllowed (config f) := by
  unfold ToolConfig.validateContract
  simp only [checks_eq_ok, refuse_eq_ok, not_not]
  rfl

theorem checkFields_eq_ok {config : Config} {fields : List Field} :
    config.checkFields fields = .ok () ↔ ∀ f ∈ fields, config.checkField f = .ok () := by
  induction fields with
  | nil => simp [Config.checkFields]
  | cons f fields ih => rw [Config.checkFields, checks_eq_ok, ih, List.forall_mem_cons]

theorem modelValidate_eq_ok {python : Python} {config : Config} {values : ToolConfig} :
    modelValidate python config = .ok values ↔
      ((∀ f, config.checkField f = .ok ()) ∧ config.extra = [] ∧
        config.values.validateContract python = .ok ()) ∧ config.values = values := by
  have hextra : config.checkExtra = .ok () ↔ config.extra = [] := by
    unfold Config.checkExtra
    split <;> simp_all
  unfold modelValidate
  simp only [checks_eq_ok, checkFields_eq_ok, hextra, Field.mem_modelFields, true_implies,
    and_assoc]
  exact and_congr_right fun _ ↦ and_congr_right fun _ ↦ and_congr_right fun _ ↦
    ⟨fun h ↦ Except.ok.inj h, fun h ↦ congrArg _ h⟩

/-- Every default passes the check of its own field. -/
theorem default_accepts {f : Field} {v : Json} (h : f.default = some v) : f.Accepts v := by
  cases f <;> cases h <;> rfl

theorem forall_rules {python : Python} {config : ToolConfig} :
    (∀ rule ∈ rules python, rule.holds config) ↔
      (∀ f : Field, f.Accepts (config f)) ∧ config.validateContract python = .ok () := by
  have hfields : (∀ f ∈ Field.modelFields, f.Accepts (config f)) ↔
      ∀ f : Field, f.Accepts (config f) :=
    ⟨fun h f ↦ h f f.mem_modelFields, fun h f _ ↦ h f⟩
  simp only [rules, columnRules, relatingRules, validateContract_eq_ok, List.forall_mem_append,
    List.forall_mem_map, List.forall_mem_cons, List.not_mem_nil, false_implies, implies_true,
    and_true, ColumnRule.single, ColumnRule.pair, hfields]
  constructor
  · rintro ⟨⟨⟨⟨hfields, helements⟩, hprompt⟩, hkeys⟩, htoken, hpattern, hgroup, hreply⟩
    exact ⟨hfields, helements, hprompt, htoken, hpattern, hgroup, hreply, hkeys⟩
  · rintro ⟨hfields, helements, hprompt, htoken, hpattern, hgroup, hreply, hkeys⟩
    exact ⟨⟨⟨⟨hfields, helements⟩, hprompt⟩, hkeys⟩, htoken, hpattern, hgroup, hreply⟩

/-- What validation returns meets every rule. -/
theorem rules_of_modelValidate {python : Python} {config : Config} {values : ToolConfig}
    (h : modelValidate python config = .ok values) : ∀ rule ∈ rules python, rule.holds values := by
  obtain ⟨⟨hfields, -, hcontract⟩, rfl⟩ := modelValidate_eq_ok.mp h
  refine forall_rules.mpr ⟨fun f ↦ ?_, hcontract⟩
  have hf := hfields f
  unfold Config.checkField at hf
  unfold Config.values
  cases hget : config.get f with
  | some v =>
      simp only [hget] at hf
      exact hf
  | none =>
      cases hdefault : f.default with
      | none => simp [hget, hdefault] at hf
      | some v => exact default_accepts hdefault

theorem validateToolConfig_eq_ok {python : Python} {config : Config} {name : PyStr} :
    validateToolConfig python (some config) name = .ok () ↔
      matchesNamePattern name = true ∧ ∃ values, modelValidate python config = .ok values := by
  unfold validateToolConfig
  by_cases hname : matchesNamePattern name = true
  · simp only [hname, if_true, true_and]
    cases modelValidate python config with
    | error e => exact ⟨fun h ↦ (nomatch h), fun ⟨_, h⟩ ↦ (nomatch h)⟩
    | ok values => exact ⟨fun _ ↦ ⟨values, rfl⟩, fun _ ↦ rfl⟩
  · simp [hname]

/-- A row passes when its name is one of a tool and its columns meet every rule. -/
theorem validate_attributes {python : Python} {config : ToolConfig} {name : PyStr} :
    validateToolConfig python (some (.ofAttributes config)) name = .ok () ↔
      matchesNamePattern name = true ∧ ∀ rule ∈ rules python, rule.holds config := by
  rw [validateToolConfig_eq_ok, forall_rules]
  refine and_congr_right fun _ ↦ ?_
  constructor
  · rintro ⟨values, h⟩
    obtain ⟨⟨hfields, -, hcontract⟩, -⟩ := modelValidate_eq_ok.mp h
    exact ⟨hfields, hcontract⟩
  · rintro ⟨hfields, hcontract⟩
    exact ⟨config, modelValidate_eq_ok.mpr ⟨⟨hfields, rfl, hcontract⟩, rfl⟩⟩

/-- A definition that has passed the validation. -/
structure ValidTool (python : Python) where
  name : PyStr
  config : ToolConfig
  valid : validateToolConfig python (some (.ofAttributes config)) name = .ok ()

/-- What a valid definition is known to meet. -/
theorem ValidTool.checked {python : Python} (tool : ValidTool python) :
    (∀ f : Field, f.Accepts (tool.config f)) ∧
      tool.config.validateContract python = .ok () := by
  obtain ⟨-, hrules⟩ := validate_attributes.mp tool.valid
  exact forall_rules.mp hrules

end Discode.Tools

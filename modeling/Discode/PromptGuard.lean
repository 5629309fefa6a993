import Discode.ToolCommand

/-!
# Prompts that read as options

An element of the command line that begins with the prompt may only begin with a dash behind
`--`.  `exec_cmd` looks after the elements that are the prompt and nothing else.
-/

set_option autoImplicit false

namespace Discode.Tools

/-- Every element that begins with the prompt and with a dash has `--` before it; `before` are
the elements in front of the suffix. -/
def Guarded (suffix : List PyStr) (prompt : PyStr) (before : List PyStr) : Prop :=
  ∀ index entry, suffix[index]? = some entry → promptPlaceholder <+: entry →
    (List.replaceWord promptPlaceholder prompt entry).head? = some dash →
      endOfOptions ∈ before ++ substitute (suffix.take index) promptPlaceholder prompt

/-- The model goes in right behind the prefix, or not at all. -/
inductive Spliced (d : ToolConfig) (prompt : PyStr) (resume after : List PyStr)
    (override : Option PyStr) : List PyStr → Prop where
  | left (h : ∀ model, override = some model → model.head? ≠ some dash →
      (d .modelFlag).str?.getD [] = []) :
      Spliced d prompt resume after override ((d .argvPrefix).strings ++ resume ++ after)
  | inserted {model flag : PyStr} (hmodel : override = some model)
      (hflag : (d .modelFlag).str? = some flag) (hdash : model.head? ≠ some dash)
      (hguarded : Guarded (d .argvSuffix).strings prompt
        ((d .argvPrefix).strings ++ [flag, model] ++ resume)) :
      Spliced d prompt resume after override
        ((d .argvPrefix).strings ++ [flag, model] ++ resume ++ after)

/-- The prompt is refused, or the command line is put together as it should be and the prompt is
no option in it, with and without a model. -/
def PromptSafe (d : ToolConfig) (prompt : PyStr) (resumeToken : Option PyStr) : Prop :=
  execCmd d prompt resumeToken = .error .ambiguousPrompt ∨
    let resume := if resumeToken.getD [] = [] then [] else
      (d .argvResumeTokens).strings.map (List.replaceWord tokenPlaceholder (resumeToken.getD []))
    let after := (d .argvSuffix).strings.map (List.replaceWord promptPlaceholder prompt)
    execCmd d prompt resumeToken = .ok ((d .argvPrefix).strings ++ resume ++ after) ∧
      Guarded (d .argvSuffix).strings prompt ((d .argvPrefix).strings ++ resume) ∧
      ∀ override, Spliced d prompt resume after override
        (spliceModel d override ((d .argvPrefix).strings ++ resume ++ after))

/-- An element with text behind the prompt begins with a dash only behind `--`. -/
def LongerGuarded (d : ToolConfig) (prompt : PyStr) (resumeToken : Option PyStr) : Prop :=
  ∀ index rest, (d .argvSuffix).strings[index]? = some (promptPlaceholder ++ rest) → rest ≠ [] →
    (prompt ++ List.replaceWord promptPlaceholder prompt rest).head? = some dash →
      endOfOptions ∈ (d .argvPrefix).strings ++ resumeArgs d resumeToken ++
        substitute ((d .argvSuffix).strings.take index) promptPlaceholder prompt

variable {d : ToolConfig} {prompt : PyStr} {resumeToken : Option PyStr}

theorem Guarded.mono {suffix before before' : List PyStr} (h : Guarded suffix prompt before)
    (hsub : before ⊆ before') : Guarded suffix prompt before' := by
  intro index entry hentry hprompt hdash
  have hmem := h index entry hentry hprompt hdash
  rw [List.mem_append] at hmem ⊢
  exact hmem.imp_left fun hin ↦ hsub hin

theorem promptPlaceholder_ne_nil : promptPlaceholder ≠ [] := by decide

/-- `--` is in no template's way: it stays what it is. -/
theorem replace_endOfOptions (prompt : PyStr) :
    List.replaceWord promptPlaceholder prompt endOfOptions = endOfOptions := by
  refine List.replaceWord_of_not_infix prompt fun hin ↦ ?_
  have hlen := hin.length_le
  exact absurd hlen (by decide)

theorem lstrip_of_dash (h : prompt.head? = some dash) : (lstrip prompt).head? = some dash := by
  cases prompt with
  | nil => cases h
  | cons c rest =>
      obtain rfl : c = dash := Option.some.inj h
      rw [lstrip, List.dropWhile_cons_of_neg (by decide)]
      rfl

/-- What `exec_cmd` checks is right for the elements that are the prompt itself. -/
theorem guarded_of_bare (hclear : ¬ IsAmbiguous d prompt) {index : ℕ}
    (hentry : (d .argvSuffix).strings[index]? = some promptPlaceholder)
    (hdash : prompt.head? = some dash) :
    endOfOptions ∈ substitute ((d .argvSuffix).strings.take index) promptPlaceholder prompt := by
  by_contra hnone
  refine hclear ⟨lstrip_of_dash hdash, index, (List.getElem?_eq_some_iff.mp hentry).1, hentry, ?_⟩
  intro hin
  refine hnone (List.mem_map.mpr ⟨endOfOptions, hin, replace_endOfOptions prompt⟩)

theorem guarded_iff (hclear : ¬ IsAmbiguous d prompt) :
    Guarded (d .argvSuffix).strings prompt ((d .argvPrefix).strings ++ resumeArgs d resumeToken) ↔
      LongerGuarded d prompt resumeToken := by
  constructor
  · intro h index rest hentry _ hdash
    refine h index _ hentry (List.prefix_append _ rest) ?_
    rwa [List.replaceWord_append promptPlaceholder_ne_nil]
  · rintro h index entry hentry ⟨rest, rfl⟩ hdash
    rw [List.replaceWord_append promptPlaceholder_ne_nil] at hdash
    by_cases hrest : rest = []
    · subst hrest
      rw [List.append_nil] at hentry
      have hprompt : prompt.head? = some dash := by simpa [List.replaceWord,
        List.replaceFrom] using hdash
      exact List.mem_append_right _ (guarded_of_bare hclear hentry hprompt)
    · exact h index rest hentry hrest hdash

theorem resumeArgs_eq (d : ToolConfig) (resumeToken : Option PyStr) :
    resumeArgs d resumeToken = if resumeToken.getD [] = [] then [] else
      (d .argvResumeTokens).strings.map
        (List.replaceWord tokenPlaceholder (resumeToken.getD [])) := by
  unfold resumeArgs
  cases resumeToken with
  | none => rfl
  | some token =>
      by_cases htoken : token = []
      · simp [htoken]
      · simp [htoken, substitute]

/-- The model does not take the `--` away. -/
theorem spliceModel_spliced (resume after : List PyStr)
    (h : Guarded (d .argvSuffix).strings prompt ((d .argvPrefix).strings ++ resume))
    (override : Option PyStr) : Spliced d prompt resume after override
      (spliceModel d override ((d .argvPrefix).strings ++ resume ++ after)) := by
  unfold spliceModel
  split
  · rename_i model flag hmodel hflag
    obtain ⟨hoverride, hdash⟩ := Option.filter_eq_some_iff.mp hmodel
    obtain ⟨hstr, -⟩ := Option.filter_eq_some_iff.mp hflag
    have hsplit : (d .argvPrefix).strings ++ resume ++ after =
        (d .argvPrefix).strings ++ (resume ++ after) := List.append_assoc _ _ _
    dsimp only
    rw [hsplit, List.take_left, List.drop_left, ← List.append_assoc]
    refine .inserted hoverride hstr (by simpa using hdash) (h.mono ?_)
    intro element hin
    simp only [List.mem_append] at hin ⊢
    exact hin.imp_left .inl
  · rename_i hnone
    refine .left fun model hoverride hdash ↦ ?_
    cases hflag : (d .modelFlag).str? with
    | none => rfl
    | some flag =>
        by_contra hne
        refine hnone model flag (Option.filter_eq_some_iff.mpr ⟨hoverride, by simpa using hdash⟩) ?_
        rw [hflag]
        exact Option.filter_eq_some_iff.mpr ⟨rfl, by simpa using hne⟩

theorem execCmd_ambiguous (hsource : (d .resumeTokenSource).isOneOf ["sentinel"] = false)
    (h : IsAmbiguous d prompt) : execCmd d prompt resumeToken = .error .ambiguousPrompt := by
  simp only [execCmd, checkCmd, hsource, h, if_true, Bool.false_eq_true, if_false]
  rfl

theorem execCmd_clear (hsource : (d .resumeTokenSource).isOneOf ["sentinel"] = false)
    (h : ¬ IsAmbiguous d prompt) : execCmd d prompt resumeToken =
      .ok ((d .argvPrefix).strings ++ resumeArgs d resumeToken ++
        substitute (d .argvSuffix).strings promptPlaceholder prompt) := by
  simp only [execCmd, checkCmd, hsource, h, Bool.false_eq_true, if_false]
  rfl

/-- The prompt of a turn is never read as an option exactly if it is refused, or the elements
with text behind the prompt begin with a dash only behind `--`. -/
theorem prompt_safe_iff {python : Python} (tool : ValidTool python)
    (hsource : (tool.config .resumeTokenSource).isOneOf ["sentinel"] = false) (prompt : PyStr)
    (resumeToken : Option PyStr) : PromptSafe tool.config prompt resumeToken ↔
      IsAmbiguous tool.config prompt ∨ LongerGuarded tool.config prompt resumeToken := by
  unfold PromptSafe
  dsimp only
  rw [← resumeArgs_eq]
  by_cases hclear : IsAmbiguous tool.config prompt
  · exact iff_of_true (.inl (execCmd_ambiguous hsource hclear)) (.inl hclear)
  · have hcmd : execCmd tool.config prompt resumeToken = _ := execCmd_clear hsource hclear
    rw [or_iff_right hclear, hcmd, or_iff_right (fun h ↦ nomatch h), ← guarded_iff hclear]
    exact ⟨fun h ↦ h.2.1, fun h ↦ ⟨rfl, h, spliceModel_spliced _ _ h⟩⟩

/-- An interpreter whose patterns all have one group. -/
def oneGroup : Python := ⟨fun _ ↦ .groups 1, fun _ ↦ .decodeError⟩

/-- A prompt that is followed by a period. -/
def sentenceSuffix (suffix : List Json) : ToolConfig
  | .argvPrefix => .list [.str (pyStr "aider")]
  | .argvSuffix => .list suffix
  | .resumeTokenSource => .str (pyStr "none")
  | .replyExtractor => .str (pyStr "stdout_raw")
  | f => f.default.getD .null

def sentenceTool : ValidTool oneGroup :=
  ⟨pyStr "aider", sentenceSuffix [.str (pyStr "\x7bprompt\x7d.")], by decide +kernel⟩

/-- The same behind `--`. -/
def guardedTool : ValidTool oneGroup :=
  ⟨pyStr "aider", sentenceSuffix [.str endOfOptions, .str (pyStr "\x7bprompt\x7d.")],
    by decide +kernel⟩

/-- The prompt alone. -/
def wordTool : ValidTool oneGroup :=
  ⟨pyStr "aider", sentenceSuffix [.str (pyStr "\x7bprompt\x7d")], by decide +kernel⟩

/-- A prompt with a dash is run behind `--`, and refused where it stands alone. -/
theorem prompt_safe_dash :
    (PromptSafe guardedTool.config (pyStr "-x") none ∧
      execCmd guardedTool.config (pyStr "-x") none =
        .ok [pyStr "aider", pyStr "--", pyStr "-x."]) ∧
    PromptSafe wordTool.config (pyStr "-x") none ∧
      execCmd wordTool.config (pyStr "-x") none = .error .ambiguousPrompt := by
  refine ⟨⟨(prompt_safe_iff guardedTool (by decide +kernel) (pyStr "-x") none).mpr (.inr ?_),
    by decide +kernel⟩, (prompt_safe_iff wordTool (by decide +kernel) (pyStr "-x") none).mpr
      (.inl (by decide +kernel)), by decide +kernel⟩
  intro index rest hentry _ _
  have hsuffix : (guardedTool.config .argvSuffix).strings =
      [endOfOptions, pyStr "\x7bprompt\x7d."] := by decide +kernel
  rw [hsuffix] at hentry ⊢
  match index with
  | 0 =>
      have hfirst : promptPlaceholder <+: endOfOptions := ⟨rest, (Option.some.inj hentry).symm⟩
      exact absurd hfirst (by decide +kernel)
  | 1 => decide +kernel
  | index + 2 => cases hentry

/-- The command is `aider -x.`. -/
theorem dash_prompt_unguarded :
    execCmd sentenceTool.config (pyStr "-x") none = .ok [pyStr "aider", pyStr "-x."] ∧
      ¬ PromptSafe sentenceTool.config (pyStr "-x") none := by
  have hcmd : execCmd sentenceTool.config (pyStr "-x") none =
      .ok [pyStr "aider", pyStr "-x."] := by
    decide +kernel
  refine ⟨hcmd, ?_⟩
  rintro (hrefused | ⟨-, hguarded, -⟩)
  · cases hcmd.symm.trans hrefused
  · have hin := hguarded 0 (pyStr "\x7bprompt\x7d.") (by decide +kernel) (by decide +kernel)
      (by decide +kernel)
    exact absurd hin (by decide +kernel)

end Discode.Tools

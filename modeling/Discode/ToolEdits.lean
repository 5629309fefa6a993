import Discode.ToolService

/-!
# Edits of a tool that cross each other

Every edit is checked against the row it has read.  The rows stay valid as long as no other
edit changes, before the commit, a column that the checked rules relate to the edited one.
-/

set_option autoImplicit false

namespace Discode.Tools

open ProcessPool (Machine)

variable {python : Python} {admins : List PyStr} {table : ToolTable} {name : PyStr}

/-- The row passes `validate_tool_config` with its name. -/
def ToolRow.Valid (python : Python) (name : PyStr) (row : ToolRow) : Prop :=
  validateToolConfig python (some (.ofAttributes row.config)) name = .ok ()

def TableValid (python : Python) (table : ToolTable) : Prop :=
  ∀ name row, table name = some row → row.Valid python name

/-! ## The columns that one edit relies on -/

/-- The columns that share a rule with a column. -/
def Field.related : Field → List Field
  | resumeTokenSource => [argvResumeTokens, resumeTokenPattern]
  | argvResumeTokens => [resumeTokenSource]
  | resumeTokenPattern => [resumeTokenSource]
  | replyExtractor => [replyJsonField]
  | replyJsonField => [replyExtractor]
  | _ => []

theorem mem_related_of_shares {f g : Field} (hne : g ≠ f)
    (h : ColumnRule.Shares (rules python) f g) : g ∈ f.related := by
  obtain ⟨rule, hrule, hf, hg⟩ := h
  rcases List.mem_append.mp hrule with hcolumn | hrelating
  · -- the rules of a single column relate it to no other one
    have hreads : ∃ c, rule.reads = [c] := by
      simp only [columnRules, List.mem_append, List.mem_map, List.mem_singleton] at hcolumn
      rcases hcolumn with ((⟨c, -, rfl⟩ | ⟨c, -, rfl⟩) | rfl) | ⟨c, -, rfl⟩
      all_goals exact ⟨_, rfl⟩
    obtain ⟨c, hc⟩ := hreads
    rw [hc, List.mem_singleton] at hf hg
    exact absurd (hg.trans hf.symm) hne
  · simp only [relatingRules, List.mem_cons, List.not_mem_nil, or_false] at hrelating
    rcases hrelating with rfl | rfl | rfl | rfl
    all_goals
      simp only [ColumnRule.pair, List.mem_cons, List.not_mem_nil, or_false] at hf hg
      rcases hf with rfl | rfl <;> rcases hg with rfl | rfl
      all_goals first
        | exact absurd rfl hne
        | decide

/-- The columns that the edit was checked against are still what it has read. -/
def Change.Current (table : ToolTable) : Change → Prop
  | .setField name read field _ => ∀ row, table name = some row →
      ∀ f ∈ field.related, row.config f = read.config f
  | _ => True

/-- No edit commits after another has changed what it was checked against. -/
def NoCrossing (σ : ProcessPool.State ToolTable Pending) :
    ProcessPool.Action Empty Request TxEnd → Prop
  | .exec pid .commit => ∀ p, σ.procs pid = some p → p.change.Current σ.shared
  | _ => True

/-! ## What a command has checked -/

/-- A change is right about the row it was decided on. -/
def Change.Checked (python : Python) : Change → Prop
  | .insert name row => row.Valid python name
  | .setField name read field value =>
      ToolRow.Valid python name { read with config := Function.update read.config field value }
  | _ => True

/-- The row an edit was decided on is the one in the table. -/
def Change.ReadFrom (table : ToolTable) : Change → Prop
  | .setField name read _ _ => table name = some read
  | _ => True

theorem Change.ReadFrom.current {change : Change} (h : change.ReadFrom table) :
    change.Current table := by
  cases change with
  | setField name read field value =>
      intro row hrow f _
      cases (Eq.trans h.symm hrow : some read = some row)
      rfl
  | _ => trivial

theorem registerTool_checked {config : Json} {createdBy : PyStr} {userId : Option PyStr}
    {p : Pending} (h : registerTool python admins table name config createdBy userId = some p) :
    p.change.Checked python ∧ p.change.ReadFrom table := by
  unfold registerTool at h
  split at h
  · split at h
    · cases h
    · cases h
      exact ⟨trivial, trivial⟩
    · rename_i hvalid
      split at h
      · cases h
        exact ⟨trivial, trivial⟩
      · rename_i values _ hvalues
        cases h
        obtain ⟨config, hconfig, hmodel⟩ := Option.map_eq_some_iff.mp hvalues
        rw [hconfig] at hvalid
        have hname := (validateToolConfig_eq_ok.mp hvalid).1
        exact ⟨validate_attributes.mpr ⟨hname, rules_of_modelValidate hmodel⟩, trivial⟩
      · cases h
  · cases h
    exact ⟨trivial, trivial⟩

theorem updateToolField_checked {field value : PyStr} {userId : Option PyStr} {p : Pending}
    (h : updateToolField python admins table name field value userId = some p) :
    p.change.Checked python ∧ p.change.ReadFrom table := by
  unfold updateToolField at h
  split at h
  · split at h
    · cases h
      exact ⟨trivial, trivial⟩
    · split at h
      · cases h
        exact ⟨trivial, trivial⟩
      · cases h
        exact ⟨trivial, trivial⟩
      · rename_i f row _ hrow
        split at h
        · cases h
        · cases h
          exact ⟨trivial, trivial⟩
        · dsimp only at h
          split at h
          · cases h
          · cases h
            exact ⟨trivial, trivial⟩
          · rename_i hvalid
            cases h
            exact ⟨hvalid, hrow⟩
  · cases h
    exact ⟨trivial, trivial⟩

theorem setEnabled_checked {enabled : Bool} {userId : Option PyStr} {p : Pending}
    (h : setEnabled admins table name enabled userId = some p) :
    p.change.Checked python ∧ p.change.ReadFrom table := by
  unfold setEnabled at h
  split at h
  · split at h <;> cases h <;> exact ⟨trivial, trivial⟩
  · cases h
    exact ⟨trivial, trivial⟩

theorem removeTool_checked {refs : ℕ} {userId : Option PyStr} {p : Pending}
    (h : removeTool admins table name refs userId = some p) :
    p.change.Checked python ∧ p.change.ReadFrom table := by
  unfold removeTool at h
  split at h
  · split at h
    · cases h
      exact ⟨trivial, trivial⟩
    · split at h <;> cases h <;> exact ⟨trivial, trivial⟩
  · cases h
    exact ⟨trivial, trivial⟩

theorem perform_checked {r : Request} {p : Pending}
    (h : r.perform python admins table = some p) :
    p.change.Checked python ∧ p.change.ReadFrom table := by
  unfold Request.perform at h
  split at h
  · exact registerTool_checked h
  · exact updateToolField_checked h
  · exact setEnabled_checked h
  · exact setEnabled_checked h
  · exact removeTool_checked h

/-! ## What a commit leaves -/

theorem TableValid.update (h : TableValid python table) {row : ToolRow}
    (hrow : row.Valid python name) :
    TableValid python (Function.update table name (some row)) := by
  intro name' row' h'
  by_cases hname : name' = name
  · subst hname
    rw [Function.update_self] at h'
    cases h'
    exact hrow
  · rw [Function.update_of_ne hname] at h'
    exact h name' row' h'

theorem TableValid.delete (h : TableValid python table) :
    TableValid python (Function.update table name none) := by
  intro name' row' h'
  by_cases hname : name' = name
  · subst hname
    rw [Function.update_self] at h'
    cases h'
  · rw [Function.update_of_ne hname] at h'
    exact h name' row' h'

/-- One edit of a valid row, checked on a row with the same related columns. -/
theorem valid_setField {row read : ToolRow} {field : Field} {value : Json}
    (hrow : row.Valid python name)
    (hchecked : Change.Checked python (.setField name read field value))
    (hcurrent : ∀ f ∈ field.related, row.config f = read.config f) :
    ToolRow.Valid python name { row with config := Function.update row.config field value } := by
  obtain ⟨hname, hrules⟩ := validate_attributes.mp hrow
  obtain ⟨-, hcandidate⟩ := validate_attributes.mp hchecked
  refine validate_attributes.mpr ⟨hname, ?_⟩
  apply ColumnRule.forall_holds_update hrules hcandidate
  intro f hne hshares
  exact (hcurrent f (mem_related_of_shares hne hshares)).symm

theorem tableValid_flush {change : Change} {table' : ToolTable} (h : TableValid python table)
    (hchecked : change.Checked python) (hcurrent : change.Current table)
    (hflush : change.flush table = some table') : TableValid python table' := by
  cases change with
  | none =>
      cases hflush
      exact h
  | insert name row =>
      simp only [Change.flush] at hflush
      split at hflush
      · cases hflush
      · cases hflush
        exact h.update hchecked
  | setField name read field value =>
      simp only [Change.flush] at hflush
      split at hflush
      · cases hflush
        exact h
      · obtain ⟨row, hrow, rfl⟩ := Option.map_eq_some_iff.mp hflush
        exact h.update (valid_setField (h name row hrow) hchecked (hcurrent row hrow))
  | setEnabled name read enabled =>
      simp only [Change.flush] at hflush
      split at hflush
      · cases hflush
        exact h
      · obtain ⟨row, hrow, rfl⟩ := Option.map_eq_some_iff.mp hflush
        have hvalid : ToolRow.Valid python name { row with enabled } := h name row hrow
        exact h.update hvalid
  | delete name =>
      cases hflush
      exact h.delete

/-! ## Runs -/

theorem toolCommands_proof : Machine.Proof (toolCommands python admins) NoCrossing
    (TableValid python) (fun _ p _ ↦ p.change.Checked python) where
  env _ e := nomatch e
  spawn σ r s p h _ hs := by
    obtain ⟨p', hp', heq⟩ := Option.map_eq_some_iff.mp hs
    cases heq
    exact ⟨h.inv, (perform_checked hp').1, fun _ _ _ hq ↦ hq⟩
  exec σ pid p a s p' h hok hp hs := by
    cases a with
    | rollback =>
        cases hs
        exact ⟨h.inv, fun _ hr ↦ (nomatch hr), fun _ _ _ hq ↦ hq⟩
    | commit =>
        cases hs
        refine ⟨?_, fun _ hr ↦ (nomatch hr), fun _ _ _ hq ↦ hq⟩
        cases hflush : p.change.flush σ.shared with
        | none => exact h.inv
        | some table' =>
            exact tableValid_flush h.inv (h.assert pid p hp) (hok p hp) hflush

/-- `get_adapter` accepts every enabled tool of a valid table. -/
theorem TableValid.getAdapter (h : TableValid python table) (name : PyStr) :
    (∃ row, getAdapter python table name = .adapter row) ∨
      getAdapter python table name = .unknownTool := by
  unfold Tools.getAdapter
  cases hrow : table name with
  | none => exact .inr rfl
  | some row =>
      have hvalid : validateToolConfig python (some (.ofAttributes row.config)) name = .ok () :=
        h name row hrow
      cases hrow' : row.enabled with
      | false => exact .inr (by simp [hrow'])
      | true => exact .inl ⟨row, by simp [hrow', hvalid]⟩

theorem stored_tools_valid {σ : ProcessPool.State ToolTable Pending}
    (h : (toolCommands python admins).ReachableWhen NoCrossing (TableValid python) σ) :
    TableValid python σ.shared ∧ ∀ name error,
      getAdapter python σ.shared name ≠ .badToolDefinition error ∧
      getAdapter python σ.shared name ≠ .raised := by
  have hvalid := (toolCommands_proof.annotated (fun _ hs ↦ hs) h).inv
  refine ⟨hvalid, fun name error ↦ ?_⟩
  rcases hvalid.getAdapter name with ⟨row, hrow⟩ | hunknown
  · rw [hrow]
    exact ⟨nofun, nofun⟩
  · rw [hunknown]
    exact ⟨nofun, nofun⟩

/-! ## Two edits of one tool -/

/-- The groups of a pattern: a `(` that is neither escaped nor followed by a `?`. -/
def countGroups : PyStr → ℕ
  | [] => 0
  | 0x5c :: _ :: rest => countGroups rest
  | 0x28 :: 0x3f :: rest => countGroups rest
  | 0x28 :: rest => countGroups rest + 1
  | _ :: rest => countGroups rest

def samplePython : Python where
  compile pattern := .groups (countGroups pattern)
  loads _ := .decodeError

def sampleConfig : ToolConfig
  | .displayName => .str []
  | .argvPrefix => .list [.str (pyStr "aider")]
  | .argvSuffix => .list [.str promptPlaceholder]
  | .usesPty => .bool false
  | .resumeTokenSource => .str (pyStr "none")
  | .resumeTokenPattern => .str (pyStr "session (.+)")
  | .replyExtractor => .str (pyStr "stdout_raw")
  | .argvResumeTokens | .extraPaths | .envPassthrough => .list []
  | .replyJsonField | .modelFlag | .apiKeyEnv | .baseUrlEnv => .null

def sampleTable : ToolTable :=
  fun name ↦ if name = pyStr "aider" then some ⟨sampleConfig, true, none⟩ else none

theorem sampleTable_valid : TableValid samplePython sampleTable := by
  intro name row hrow
  unfold sampleTable at hrow
  split at hrow
  · rename_i hname
    cases hrow
    subst hname
    change validateToolConfig samplePython (some (.ofAttributes sampleConfig)) (pyStr "aider") = _
    decide +kernel
  · cases hrow

def sampleAdmin : PyStr := pyStr "1"

/-- The token is read from the output. -/
def editSource : Request :=
  ⟨some sampleAdmin, .updateToolField (pyStr "aider") (pyStr "resume_token_source")
    (pyStr "stdout_regex")⟩

/-- A pattern without a group, which no source reads yet. -/
def editPattern : Request :=
  ⟨some sampleAdmin, .updateToolField (pyStr "aider") (pyStr "resume_token_pattern")
    (pyStr "session")⟩

def sampleState (as : List (ProcessPool.Action Empty Request TxEnd)) :
    Option (ProcessPool.State ToolTable Pending) :=
  (toolCommands samplePython [sampleAdmin]).run (.start sampleTable) as

theorem stored_tools_valid_edited : ∃ σ, sampleState [.spawn editSource, .exec 0 .commit] = some σ ∧
    TableValid samplePython σ.shared := by
  obtain ⟨p, hp⟩ : ∃ p, editSource.perform samplePython [sampleAdmin] sampleTable = some p :=
    Option.isSome_iff_exists.mp (by decide +kernel)
  have hspawn : (toolCommands samplePython [sampleAdmin]).step (.start sampleTable)
      (.spawn editSource) = some ⟨sampleTable, Function.update (fun _ ↦ none) 0 (some p), 1⟩ := by
    simp [Machine.step, toolCommands, ProcessPool.State.start, hp]
  obtain ⟨σ, hcommit⟩ : ∃ σ, (toolCommands samplePython [sampleAdmin]).step
      ⟨sampleTable, Function.update (fun _ ↦ none) 0 (some p), 1⟩ (.exec 0 .commit) = some σ :=
    ⟨_, by simp [Machine.step, toolCommands]; rfl⟩
  have hreach : (toolCommands samplePython [sampleAdmin]).ReachableWhen NoCrossing
      (TableValid samplePython) σ := by
    refine ⟨sampleTable, sampleTable_valid, ?_⟩
    refine .tail (.single ⟨.spawn editSource, trivial, hspawn⟩) ⟨.exec 0 .commit, ?_, hcommit⟩
    intro q hq
    simp only [Function.update_self] at hq
    cases hq
    exact (perform_checked hp).2.current
  refine ⟨σ, ?_, (stored_tools_valid hreach).1⟩
  simp only [sampleState, Machine.run, hspawn, Option.bind_some, hcommit]

/-- Both edits are accepted, and the tool is refused once both are committed. -/
theorem crossing_edits_break_tool : ∃ σ row,
    (toolCommands samplePython [sampleAdmin]).Reachable (TableValid samplePython) σ ∧
    σ.shared (pyStr "aider") = some row ∧ ¬ row.Valid samplePython (pyStr "aider") ∧
    getAdapter samplePython σ.shared (pyStr "aider") = .badToolDefinition
      ⟨.config, .valueError "resume_token_pattern must have exactly one capture group"⟩ := by
  let as : List (ProcessPool.Action Empty Request TxEnd) :=
    [.spawn editSource, .spawn editPattern, .exec 0 .commit, .exec 1 .commit]
  obtain ⟨σ, hrun⟩ : ∃ σ, sampleState as = some σ :=
    Option.isSome_iff_exists.mp (by decide +kernel)
  have hfacts : (sampleState as).bind (fun σ ↦ (σ.shared (pyStr "aider")).map fun row ↦
      (row.enabled, validateToolConfig samplePython (some (.ofAttributes row.config))
        (pyStr "aider"))) = some (true, .error (.invalid ⟨.config,
          .valueError "resume_token_pattern must have exactly one capture group"⟩)) := by
    decide +kernel
  rw [hrun] at hfacts
  obtain ⟨row, hrow, hrefused⟩ := Option.map_eq_some_iff.mp hfacts
  obtain ⟨henabled, hrefused⟩ := Prod.mk.inj hrefused
  refine ⟨σ, row, Machine.reachable_of_run sampleTable_valid hrun, hrow, fun hvalid ↦ ?_, ?_⟩
  · rw [ToolRow.Valid, hrefused] at hvalid
    cases hvalid
  · simp [getAdapter, hrow, henabled, hrefused]

end Discode.Tools

import Discode.SessionConfig

/-!
# What a session runs with

The rows of `session_config` against the commands that have taken effect: the runner loads what
was set last, and `get` shows nothing that depends on a secret.
-/

set_option autoImplicit false

namespace Discode.SessionConfig

open ChildEnv (Environ loadOverrides)

/-! ## What was set last -/

/-- What a statement makes of a key, if it concerns the key. -/
def Write.effect (sid : SessionId) (key : PyStr) : Write → Option (Option PyStr)
  | .upsert sid' key' plaintext _ => if sid = sid' ∧ key = key' then some (some plaintext) else none
  | .delete sid' keys => if sid = sid' ∧ key ∈ keys then some none else none

/-- The value that was set last, unless it was cleared since. -/
def lastSet (sid : SessionId) (key : PyStr) : List Write → Option PyStr
  | [] => none
  | write :: earlier => (write.effect sid key).getD (lastSet sid key earlier)

/-- The rows that the statements leave behind in an empty table. -/
def replay : List Write → Option ConfigTable
  | [] => some .empty
  | write :: earlier => (replay earlier).bind write.flush

variable {lib : Libraries}

/-- A statement that a command decides on. -/
def Write.Checked (lib : Libraries) : Write → Prop
  | .upsert _ key plaintext stored => ∃ spec salt, reservedKeys key = some spec ∧
      spec.validator lib plaintext = .passed ∧ spec.store lib.fernet salt plaintext = some stored
  | .delete _ _ => True

/-- The text that the runner reads in a row. -/
def Stored.reads (fernet : Fernet) (stored : Stored) : Option PyStr :=
  stored.value.or (stored.valueCiphertext.bind fernet.decrypt)

theorem KeySpec.store_reads {spec : KeySpec} {fernet : Fernet} {salt : ℕ} {value : PyStr}
    {stored : Stored} (h : spec.store fernet salt value = some stored) :
    stored.reads fernet = some value := by
  unfold KeySpec.store at h
  split at h
  · obtain ⟨ciphertext, hencrypt, rfl⟩ := Option.map_eq_some_iff.mp h
    exact fernet.decrypts salt value ciphertext hencrypt
  · cases h
    rfl

/-! ## Statements -/

theorem upsertRow_of_mem {config : ConfigTable} {k : SessionId × PyStr}
    (hmem : k ∈ config.entries.map Prod.fst) (stored : Stored) :
    upsertRow config k stored = config.modify k fun _ ↦ stored := by
  rw [upsertRow, KeyedTable.insert?, dif_pos hmem]

theorem upsertRow_entries {config : ConfigTable} {k : SessionId × PyStr}
    (hmem : k ∉ config.entries.map Prod.fst) (stored : Stored) :
    (upsertRow config k stored).entries = config.entries ++ [(k, stored)] := by
  rw [upsertRow, KeyedTable.insert?, dif_neg hmem]

theorem upsertRow_get? (config : ConfigTable) (k : SessionId × PyStr) (stored : Stored)
    (k' : SessionId × PyStr) :
    (upsertRow config k stored).get? k' = if k' = k then some stored else config.get? k' := by
  by_cases hmem : k ∈ config.entries.map Prod.fst
  · rw [upsertRow_of_mem hmem, KeyedTable.get?_modify]
    split
    · rename_i hk
      subst hk
      cases hget : config.get? k' with
      | none => exact absurd hmem (KeyedTable.get?_eq_none_iff.mp hget)
      | some stored' => rfl
    · rfl
  · have hinsert : config.insert? k stored = some (upsertRow config k stored) := by
      rw [upsertRow, KeyedTable.insert?, dif_neg hmem]
    exact KeyedTable.get?_insert? hinsert k'

/-- What a statement makes of the row of a key. -/
theorem flush_get? {write : Write} {config config' : ConfigTable}
    (h : write.flush config = some config') (sid : SessionId) (key : PyStr) :
    (write.effect sid key = none ∧ config'.get? (sid, key) = config.get? (sid, key)) ∨
    (write.effect sid key = some none ∧ config'.get? (sid, key) = none) ∨
    ∃ plaintext stored, write = .upsert sid key plaintext stored ∧
      config'.get? (sid, key) = some stored := by
  cases write with
  | upsert sid' key' plaintext stored =>
      simp only [Write.flush] at h
      split_ifs at h
      cases h
      rw [upsertRow_get?]
      by_cases hk : sid = sid' ∧ key = key'
      · obtain ⟨rfl, rfl⟩ := hk
        exact .inr (.inr ⟨plaintext, stored, rfl, if_pos rfl⟩)
      · exact .inl ⟨if_neg hk, if_neg fun heq ↦ hk (Prod.mk.inj heq)⟩
  | delete sid' keys =>
      cases h
      rw [KeyedTable.get?_filterRows]
      by_cases hk : sid = sid' ∧ key ∈ keys
      · refine .inr (.inl ⟨if_pos hk, ?_⟩)
        simp [hk]
      · refine .inl ⟨if_neg hk, ?_⟩
        cases config.get? (sid, key) <;> simp [hk]

/-- Every row stores the value that was set last, as a command has checked it. -/
theorem replay_stored {log : List Write} {config : ConfigTable} (h : replay log = some config)
    (hchecked : ∀ write ∈ log, write.Checked lib) (sid : SessionId) (key : PyStr) :
    Option.Rel (fun stored plaintext ↦ (Write.upsert sid key plaintext stored).Checked lib)
      (config.get? (sid, key)) (lastSet sid key log) := by
  induction log generalizing config with
  | nil =>
      cases h
      exact .none
  | cons write earlier ih =>
      obtain ⟨config₀, hearlier, hflush⟩ := Option.bind_eq_some_iff.mp h
      have hrest := ih hearlier fun w hw ↦ hchecked w (List.mem_cons_of_mem _ hw)
      obtain ⟨heffect, hget⟩ | ⟨heffect, hget⟩ | ⟨plaintext, stored, rfl, hget⟩ :=
        flush_get? hflush sid key
      · rw [hget, lastSet, heffect]
        exact hrest
      · rw [hget, lastSet, heffect]
        exact .none
      · rw [hget, lastSet, Write.effect, if_pos ⟨rfl, rfl⟩]
        exact .some (hchecked _ List.mem_cons_self)

/-! ## Commands -/

theorem setSessionConfig_checked {w : World} {sid : SessionId} {key value : PyStr} {salt : ℕ}
    {member : AdminAuth.MemberRoles} {p : Pending}
    (h : setSessionConfig lib w sid key value salt member = some p) {write : Write}
    (hwrite : p.write = some write) : write.Checked lib := by
  unfold setSessionConfig at h
  split at h
  · cases h
    cases hwrite
  split_ifs at h
  · cases h
    cases hwrite
  split at h
  · cases h
    cases hwrite
  rename_i spec hspec
  split at h
  · cases h
  · cases h
    cases hwrite
  rename_i hpassed
  split at h
  · cases h
    cases hwrite
  split_ifs at h
  · cases h
    cases hwrite
  split at h
  · cases h
    cases hwrite
  · rename_i stored hstore
    cases h
    cases hwrite
    exact ⟨spec, salt, hspec, hpassed, hstore⟩

theorem clearSessionConfigKey_checked {w : World} {sid : SessionId} {key : PyStr}
    {member : AdminAuth.MemberRoles} {write : Write}
    (h : (clearSessionConfigKey w sid key member).write = some write) : write.Checked lib := by
  unfold clearSessionConfigKey at h
  split at h
  · cases h
  split_ifs at h <;> cases h <;> trivial

theorem clearAllSessionConfig_checked {w : World} {sid : SessionId}
    {member : AdminAuth.MemberRoles} {write : Write}
    (h : (clearAllSessionConfig w sid member).write = some write) : write.Checked lib := by
  unfold clearAllSessionConfig at h
  split at h
  · cases h
  split_ifs at h <;> cases h
  trivial

theorem showSessionConfig_write (w : World) (sid : SessionId) (member : AdminAuth.MemberRoles) :
    (showSessionConfig w sid member).write = none := by
  unfold showSessionConfig
  split
  · rfl
  · split_ifs <;> rfl

theorem perform_checked {w : World} {r : Request} {p : Pending} (h : r.perform lib w = some p)
    {write : Write} (hwrite : p.write = some write) : write.Checked lib := by
  unfold Request.perform at h
  split at h
  · cases h
    cases hwrite
  split at h
  · exact setSessionConfig_checked h hwrite
  · cases h
    rw [showSessionConfig_write] at hwrite
    cases hwrite
  · cases h
    exact clearSessionConfigKey_checked hwrite
  · cases h
    exact clearAllSessionConfig_checked hwrite

/-! ## Runs -/

/-- Nothing was set yet. -/
structure Fresh (w : World) : Prop where
  config : w.config = .empty
  log : w.log = []

/-- The rows are those that checked statements leave behind. -/
structure ConfigInv (lib : Libraries) (w : World) : Prop where
  checked : ∀ write ∈ w.log, write.Checked lib
  replayed : replay w.log = some w.config

theorem Fresh.inv {w : World} (h : Fresh w) : ConfigInv lib w := by
  constructor
  · rw [h.log]
    intro write hwrite
    cases hwrite
  · rw [h.log, h.config]
    rfl

theorem ConfigInv.env {w : World} (h : ConfigInv lib w) (e : EnvAction) :
    ConfigInv lib (envStep w e) := by
  cases e with
  | sessions sessions => exact ⟨h.checked, h.replayed⟩
  | policy guild policy => exact ⟨h.checked, h.replayed⟩
  | tools tools => exact ⟨h.checked, h.replayed⟩

theorem ConfigInv.commit {w : World} (h : ConfigInv lib w) {pending : Option Write}
    (hpending : ∀ write, pending = some write → write.Checked lib) :
    ConfigInv lib (w.commit pending) := by
  unfold World.commit
  split
  · exact h
  rename_i write
  split
  · rename_i config hflush
    refine ⟨fun write' hmem ↦ ?_, ?_⟩
    · rcases List.mem_cons.mp hmem with rfl | hmem
      · exact hpending _ rfl
      · exact h.checked write' hmem
    · exact Option.bind_eq_some_iff.mpr ⟨w.config, h.replayed, hflush⟩
  · exact h

/-- A command that is not committed holds a checked statement, whatever else happens. -/
theorem configCommands_proof (lib : Libraries) :
    ProcessPool.Machine.Proof (configCommands lib) (fun _ _ ↦ True) (ConfigInv lib)
      (fun _ p _ ↦ ∀ write, p.write = some write → write.Checked lib) where
  env σ e w hσ _ hstep := by
    cases hstep
    exact ⟨hσ.inv.env e, fun _ _ h ↦ h⟩
  spawn σ r w p hσ _ hstep := by
    obtain ⟨p, hperform, heq⟩ := Option.map_eq_some_iff.mp hstep
    cases heq
    exact ⟨hσ.inv, fun write hwrite ↦ perform_checked hperform hwrite, fun _ _ _ h ↦ h⟩
  exec σ pid p a w p' hσ _ hp hstep := by
    cases a with
    | commit =>
        cases hstep
        exact ⟨hσ.inv.commit (hσ.assert pid p hp), (fun _ hnone ↦ by cases hnone),
          fun _ _ _ hp ↦ hp⟩
    | rollback =>
        cases hstep
        exact ⟨hσ.inv, (fun _ hnone ↦ by cases hnone),
          fun _ _ _ hp ↦ hp⟩

theorem configInv_of_reachable {σ : ProcessPool.State World Pending}
    (h : (configCommands lib).Reachable Fresh σ) : ConfigInv lib σ.shared :=
  ((configCommands_proof lib).annotated (fun _ hw ↦ hw.inv) h).inv

/-- A row and the value that was set last come together. -/
theorem ConfigInv.stored {w : World} (h : ConfigInv lib w) {sid : SessionId} {key : PyStr}
    {stored : Stored} (hget : w.config.get? (sid, key) = some stored) :
    ∃ value, lastSet sid key w.log = some value ∧
      (Write.upsert sid key value stored).Checked lib := by
  have hrel := replay_stored h.replayed h.checked sid key
  rw [hget] at hrel
  cases hlast : lastSet sid key w.log with
  | none =>
      rw [hlast] at hrel
      cases hrel
  | some value =>
      rw [hlast] at hrel
      cases hrel with
      | some hchecked => exact ⟨value, rfl, hchecked⟩

theorem ConfigInv.get? {w : World} (h : ConfigInv lib w) {sid : SessionId} {key value : PyStr}
    (hlast : lastSet sid key w.log = some value) :
    ∃ stored, w.config.get? (sid, key) = some stored ∧
      (Write.upsert sid key value stored).Checked lib := by
  have hrel := replay_stored h.replayed h.checked sid key
  rw [hlast] at hrel
  cases hget : w.config.get? (sid, key) with
  | none =>
      rw [hget] at hrel
      cases hrel
  | some stored =>
      rw [hget] at hrel
      cases hrel with
      | some hchecked => exact ⟨stored, rfl, hchecked⟩

theorem ConfigInv.get?_eq_none {w : World} (h : ConfigInv lib w) {sid : SessionId} {key : PyStr}
    (hget : w.config.get? (sid, key) = none) : lastSet sid key w.log = none := by
  cases hlast : lastSet sid key w.log with
  | none => rfl
  | some value =>
      obtain ⟨stored, hstored, -⟩ := h.get? hlast
      rw [hget] at hstored
      cases hstored

/-! ## What the runner loads -/

theorem override_of_reads {fernet : Fernet} {stored : Stored} {value : PyStr}
    (h : stored.reads fernet = some value) (sid : SessionId) (key : PyStr) :
    (ChildEnv.ConfigRow.mk sid key stored.value stored.valueCiphertext).override fernet.decrypt =
      .ok (some value) := by
  unfold ChildEnv.ConfigRow.override
  cases hvalue : stored.value with
  | some v =>
      simp only [Stored.reads, hvalue, Option.some_or, Option.some.injEq] at h
      simp [h]
  | none =>
      simp only [Stored.reads, hvalue, Option.none_or, Option.bind_eq_some_iff] at h
      obtain ⟨ciphertext, hciphertext, hdecrypt⟩ := h
      simp [hciphertext, hdecrypt]

/-- The rows of one session are read one by one, and none hides another. -/
theorem loadOverrides_entries {fernet : Fernet} (sid : SessionId)
    (entries : List ((SessionId × PyStr) × Stored)) (hnodup : (entries.map Prod.fst).Nodup)
    (hreads : ∀ e ∈ entries, ∃ value, e.2.reads fernet = some value) (acc : Environ) :
    ((entries.map fun e ↦ ChildEnv.ConfigRow.mk e.1.1 e.1.2 e.2.value e.2.valueCiphertext).filter
        fun row ↦ row.sessionId = sid).foldlM
      (fun overrides row ↦ do
        match ← row.override fernet.decrypt with
        | some value => return Function.update overrides row.key (some value)
        | none => return overrides) acc =
      .ok fun key ↦ ((@List.lookup _ _ instBEqOfDecidableEq (sid, key) entries).bind
        (Stored.reads fernet)).or (acc key) := by
  induction entries generalizing acc with
  | nil => rfl
  | cons e entries ih =>
      obtain ⟨⟨sid', key'⟩, stored⟩ := e
      obtain ⟨hnot, hrest⟩ := List.nodup_cons.mp hnodup
      obtain ⟨value, hvalue⟩ := hreads _ List.mem_cons_self
      have hreads' := fun e he ↦ hreads e (List.mem_cons_of_mem _ he)
      by_cases hsid : sid' = sid
      · subst hsid
        rw [List.map_cons, List.filter_cons_of_pos (by simp), List.foldlM_cons,
          override_of_reads hvalue]
        refine (ih hrest hreads' (Function.update acc key' (some value))).trans ?_
        congr 1
        funext key
        by_cases hkey : key = key'
        · subst hkey
          rw [KeyedTable.lookup_cons_eq, if_pos rfl, KeyedTable.lookup_eq_none hnot,
            Function.update_self]
          exact congrArg (fun v ↦ Option.or v (acc key)) hvalue.symm
        · rw [KeyedTable.lookup_cons_eq, if_neg fun heq ↦ hkey (Prod.mk.inj heq).2,
            Function.update_of_ne hkey]
      · rw [List.map_cons, List.filter_cons_of_neg (by simpa using hsid)]
        refine (ih hrest hreads' acc).trans ?_
        congr 1
        funext key
        rw [KeyedTable.lookup_cons_eq, if_neg fun heq ↦ hsid (Prod.mk.inj heq).1.symm]

/-- The model that is set reaches the command line as one argument behind the flag. -/
theorem spliceModel_of_passed {model flag : PyStr} (h : validateModel model = .passed)
    {d : Tools.ToolConfig} (hflag : d .modelFlag = .str flag) (hne : flag ≠ [])
    (argv : List PyStr) :
    Tools.spliceModel d (some model) argv =
      argv.take (d .argvPrefix).strings.length ++ [flag, model] ++
        argv.drop (d .argvPrefix).strings.length := by
  have hdash : model.head? ≠ some Tools.dash := by
    intro hdash
    unfold validateModel at h
    split_ifs at h
    rename_i hnot
    exact hnot (.inl hdash)
  have hmodel : Tools.modelOverride (some model) = some model := by
    simp [Tools.modelOverride, hdash]
  have hstr : (Tools.Json.str flag).str?.filter (fun flag ↦ flag ≠ []) = some flag := by
    simp [Tools.Json.str?, hne]
  unfold Tools.spliceModel
  rw [hmodel, hflag, hstr]

/-- In every run the runner loads for a session just the values that were set last and not
cleared since, each of which its key admits, and a model among them reaches the command line as
it was set. -/
theorem overrides_are_last_set {σ : ProcessPool.State World Pending}
    (h : (configCommands lib).Reachable Fresh σ) (sid : SessionId) :
    loadOverrides lib.fernet.decrypt sid σ.shared.config.rows =
        .ok (fun key ↦ lastSet sid key σ.shared.log) ∧
      (∀ key value, lastSet sid key σ.shared.log = some value →
        ∃ spec, reservedKeys key = some spec ∧ spec.validator lib value = .passed) ∧
      ∀ model flag (d : Tools.ToolConfig) argv,
        lastSet sid modelKey σ.shared.log = some model → d .modelFlag = .str flag → flag ≠ [] →
        Tools.spliceModel d (lastSet sid modelKey σ.shared.log) argv =
          argv.take (d .argvPrefix).strings.length ++ [flag, model] ++
            argv.drop (d .argvPrefix).strings.length := by
  have hinv := configInv_of_reachable h
  refine ⟨?_, fun key value hlast ↦ ?_, ?_⟩
  · refine (loadOverrides_entries sid σ.shared.config.entries σ.shared.config.nodup ?_ _).trans ?_
    · intro e he
      obtain ⟨value, -, spec, salt, -, -, hstore⟩ := hinv.stored (KeyedTable.mem_entries_iff.mp he)
      exact ⟨value, KeySpec.store_reads hstore⟩
    · congr 1
      funext key
      rw [Option.or_none]
      change (σ.shared.config.get? (sid, key)).bind (Stored.reads lib.fernet) = _
      cases hget : σ.shared.config.get? (sid, key) with
      | none => exact (hinv.get?_eq_none hget).symm
      | some stored =>
          obtain ⟨value, hlast, spec, salt, -, -, hstore⟩ := hinv.stored hget
          exact (KeySpec.store_reads hstore).trans hlast.symm
  · obtain ⟨stored, -, spec, -, hspec, hpassed, -⟩ := hinv.get? hlast
    exact ⟨spec, hspec, hpassed⟩
  · intro model flag d argv hmodel hflag hne
    obtain ⟨stored, -, spec, -, hspec, hpassed, -⟩ := hinv.get? hmodel
    cases hspec
    rw [hmodel]
    exact spliceModel_of_passed hpassed hflag hne argv

/-! ## A session with two overrides -/

/-- A cipher that only marks its texts. -/
def sampleFernet : Fernet where
  encrypt _ plaintext :=
    if plaintext.any isSurrogate then none else some (pyStr "gAAAAA" ++ plaintext)
  decrypt ciphertext := some (ciphertext.drop 6)
  decrypts := by
    intro salt plaintext ciphertext h
    split_ifs at h
    cases h
    rfl

def sampleLibraries : Libraries where
  urlparse _ := none
  fernet := sampleFernet

def sampleTool : Tools.ToolConfig
  | .argvPrefix => .list [.str (pyStr "codex")]
  | .modelFlag => .str (pyStr "--model")
  | .apiKeyEnv => .str (pyStr "OPENAI_API_KEY")
  | _ => .null

def sampleWorld : World where
  sessions := ⟨[(7, ⟨some 1, pyStr "codex", some 70⟩)], by decide⟩
  policies guild := if guild = 1 then some ⟨some 50, none⟩ else none
  tools name := if name = pyStr "codex" then some ⟨sampleTool, true, none⟩ else none
  config := .empty
  log := []

/-- The commands of an admin in the thread of the session, one after the other. -/
def sampleRun (commands : List Command) : Option (ProcessPool.State World Pending) :=
  (configCommands sampleLibraries).run (.start sampleWorld)
    (commands.zipIdx.flatMap fun c ↦
      [.spawn ⟨70, ⟨[50], []⟩, c.1⟩, .exec c.2 .commit])

theorem sampleWorld_fresh : Fresh sampleWorld := ⟨rfl, rfl⟩

theorem overrides_are_last_set_twice : ∃ σ,
    sampleRun [.set modelKey (pyStr "o3") 0, .set apiKeyKey (pyStr "sk-1") 1,
      .set modelKey (pyStr "o4") 2] = some σ ∧
    lastSet 7 modelKey σ.shared.log = some (pyStr "o4") ∧
    loadOverrides sampleFernet.decrypt 7 σ.shared.config.rows =
      .ok (fun key ↦ lastSet 7 key σ.shared.log) := by
  obtain ⟨σ, hrun⟩ : ∃ σ, sampleRun [.set modelKey (pyStr "o3") 0,
      .set apiKeyKey (pyStr "sk-1") 1, .set modelKey (pyStr "o4") 2] = some σ :=
    Option.isSome_iff_exists.mp (by decide +kernel)
  have hlast : (sampleRun [.set modelKey (pyStr "o3") 0, .set apiKeyKey (pyStr "sk-1") 1,
      .set modelKey (pyStr "o4") 2]).map (fun σ ↦ lastSet 7 modelKey σ.shared.log) =
        some (some (pyStr "o4")) := by
    decide +kernel
  rw [hrun] at hlast
  have hreach := ProcessPool.Machine.reachable_of_run sampleWorld_fresh hrun
  exact ⟨σ, hrun, Option.some.inj hlast, (overrides_are_last_set hreach 7).1⟩

end Discode.SessionConfig

import Discode.ConfigOverrides

/-!
# Secrets among the overrides

What `get` shows is determined by the commands with their secrets left out.
-/

set_option autoImplicit false

namespace Discode.SessionConfig

/-- The value of the key is encrypted at rest. -/
def isSecret (key : PyStr) : Bool := (reservedKeys key).any KeySpec.secret

def Stored.withoutSecret (key : PyStr) (stored : Stored) : Stored :=
  if isSecret key then .encrypted [] else stored

/-- The statement without the secret that it stores. -/
def Write.withoutSecret : Write → Write
  | .upsert sid key plaintext stored =>
      .upsert sid key (if isSecret key then [] else plaintext) (stored.withoutSecret key)
  | .delete sid keys => .delete sid keys

/-- The rows without their secrets. -/
def hideSecrets (config : ConfigTable) : ConfigTable :=
  config.mapRows fun k stored ↦ stored.withoutSecret k.2

theorem table_ext {config config' : ConfigTable} (h : config.entries = config'.entries) :
    config = config' := by
  cases config
  cases config'
  cases h
  rfl

theorem keys_hideSecrets (config : ConfigTable) :
    (hideSecrets config).entries.map Prod.fst = config.entries.map Prod.fst := by
  simp [hideSecrets, KeyedTable.mapRows, Function.comp_def]

theorem hideSecrets_upsert (config : ConfigTable) (k : SessionId × PyStr) (stored : Stored) :
    hideSecrets (upsertRow config k stored) =
      upsertRow (hideSecrets config) k (stored.withoutSecret k.2) := by
  apply table_ext
  by_cases hmem : k ∈ config.entries.map Prod.fst
  · have hmem' : k ∈ (hideSecrets config).entries.map Prod.fst := by rwa [keys_hideSecrets]
    rw [upsertRow_of_mem hmem, upsertRow_of_mem hmem']
    simp only [KeyedTable.modify, hideSecrets, KeyedTable.mapRows, List.map_map]
    refine List.map_congr_left fun e _ ↦ ?_
    by_cases hk : e.1 = k
    · simp [hk]
    · simp [hk]
  · have hmem' : k ∉ (hideSecrets config).entries.map Prod.fst := by rwa [keys_hideSecrets]
    rw [upsertRow_entries hmem']
    simp only [hideSecrets, KeyedTable.mapRows, upsertRow_entries hmem, List.map_append,
      List.map_cons, List.map_nil]

/-- A statement does the same to the rows without their secrets. -/
theorem flush_withoutSecret {write : Write} {config config' : ConfigTable}
    (h : write.flush config = some config') :
    write.withoutSecret.flush (hideSecrets config) = some (hideSecrets config') := by
  cases write with
  | upsert sid key plaintext stored =>
      simp only [Write.flush] at h
      split_ifs at h with hchecks
      cases h
      have hhidden : (keyFormat key && (stored.withoutSecret key).value.all isText &&
          (stored.withoutSecret key).valueCiphertext.all isText) = true := by
        simp only [Bool.and_eq_true] at hchecks ⊢
        unfold Stored.withoutSecret
        split
        · exact ⟨⟨hchecks.1.1, rfl⟩, rfl⟩
        · exact hchecks
      simp only [Write.withoutSecret, Write.flush]
      rw [if_pos hhidden, hideSecrets_upsert]
  | delete sid keys =>
      cases h
      simp only [Write.withoutSecret, Write.flush, Option.some.injEq]
      apply table_ext
      simp [hideSecrets, KeyedTable.mapRows, KeyedTable.filterRows, List.filter_map,
        Function.comp_def]

theorem replay_withoutSecret {log : List Write} {config : ConfigTable}
    (h : replay log = some config) :
    replay (log.map Write.withoutSecret) = some (hideSecrets config) := by
  induction log generalizing config with
  | nil =>
      cases h
      rfl
  | cons write earlier ih =>
      obtain ⟨config₀, hearlier, hflush⟩ := Option.bind_eq_some_iff.mp h
      exact Option.bind_eq_some_iff.mpr
        ⟨hideSecrets config₀, ih hearlier, flush_withoutSecret hflush⟩

theorem displayValue_withoutSecret (key : PyStr) (stored : Stored) :
    displayValue key (stored.withoutSecret key) = displayValue key stored := by
  unfold displayValue Stored.withoutSecret isSecret
  by_cases h : (reservedKeys key).any KeySpec.secret = true
  · rw [if_pos h, if_pos h]
  · rw [if_neg h, if_neg h, if_neg h]

theorem getSessionConfig_hideSecrets (config : ConfigTable) (sid : SessionId) :
    getSessionConfig (hideSecrets config) sid = getSessionConfig config sid := by
  unfold getSessionConfig
  have hselect : ((hideSecrets config).select fun k _ ↦ decide (k.1 = sid)) =
      (config.select fun k _ ↦ decide (k.1 = sid)).map
        fun e ↦ (e.1, e.2.withoutSecret e.1.2) := by
    simp [KeyedTable.select, hideSecrets, KeyedTable.mapRows, List.filter_map, Function.comp_def]
  rw [hselect, ← List.map_mergeSort (r := fun a b ↦ decide (a.1.2 ≤ b.1.2))
    (fun _ _ _ _ ↦ rfl), List.map_map]
  refine List.map_congr_left fun e _ ↦ ?_
  simp [displayValue_withoutSecret]

theorem mem_getSessionConfig {config : ConfigTable} {sid : SessionId} {key text : PyStr} :
    (key, text) ∈ getSessionConfig config sid ↔
      ∃ stored, config.get? (sid, key) = some stored ∧ text = displayValue key stored := by
  unfold getSessionConfig
  constructor
  · intro h
    obtain ⟨⟨⟨sid', key'⟩, stored⟩, hmem, heq⟩ := List.mem_map.mp h
    obtain ⟨hget, hsid⟩ := KeyedTable.mem_select_iff.mp (List.mem_mergeSort.mp hmem)
    cases of_decide_eq_true hsid
    cases heq
    exact ⟨stored, hget, rfl⟩
  · rintro ⟨stored, hget, rfl⟩
    refine List.mem_map.mpr ⟨((sid, key), stored), List.mem_mergeSort.mpr ?_, rfl⟩
    exact KeyedTable.mem_select_iff.mpr ⟨hget, decide_eq_true rfl⟩

variable {lib lib' : Libraries}

theorem passed_ne_nil {key value : PyStr} {spec : KeySpec} (hspec : reservedKeys key = some spec)
    (hpassed : spec.validator lib value = .passed) : value ≠ [] := by
  rintro rfl
  unfold reservedKeys at hspec
  split_ifs at hspec <;> cases hspec <;> cases hpassed

/-- A row that a command has checked shows its value, or that there is a secret one. -/
theorem displayValue_of_checked {sid : SessionId} {key value : PyStr} {stored : Stored}
    (h : (Write.upsert sid key value stored).Checked lib) :
    displayValue key stored = if isSecret key then pyStr "<set>" else value := by
  obtain ⟨spec, salt, hspec, hpassed, hstore⟩ := h
  unfold displayValue isSecret
  split
  · rfl
  · rename_i hplain
    rw [hspec, Option.any_some] at hplain
    rw [KeySpec.store, if_neg hplain] at hstore
    cases hstore
    exact if_neg (passed_ne_nil hspec hpassed)

/-- In every run `get` lists just the keys that are set, a secret one as `<set>`, whose row holds
a ciphertext of the value and nothing else; and what it lists does not depend on the secrets. -/
theorem secrets_do_not_show {σ σ' : ProcessPool.State World Pending}
    (h : (configCommands lib).Reachable Fresh σ) (h' : (configCommands lib').Reachable Fresh σ')
    (hlog : σ.shared.log.map Write.withoutSecret = σ'.shared.log.map Write.withoutSecret)
    (sid : SessionId) :
    getSessionConfig σ.shared.config sid = getSessionConfig σ'.shared.config sid ∧
      (∀ key text, (key, text) ∈ getSessionConfig σ.shared.config sid ↔
        ∃ value, lastSet sid key σ.shared.log = some value ∧
          text = if isSecret key then pyStr "<set>" else value) ∧
      ∀ key stored, σ.shared.config.get? (sid, key) = some stored → isSecret key = true →
        stored.value = none ∧ ∃ value salt ciphertext,
          lastSet sid key σ.shared.log = some value ∧
            lib.fernet.encrypt salt value = some ciphertext ∧
            stored.valueCiphertext = some ciphertext := by
  have hinv := configInv_of_reachable h
  have hinv' := configInv_of_reachable h'
  refine ⟨?_, fun key text ↦ ?_, fun key stored hget hsecret ↦ ?_⟩
  · have hrows : hideSecrets σ.shared.config = hideSecrets σ'.shared.config :=
      Option.some.inj (calc
        some (hideSecrets σ.shared.config) = replay (σ.shared.log.map Write.withoutSecret) :=
          (replay_withoutSecret hinv.replayed).symm
        _ = replay (σ'.shared.log.map Write.withoutSecret) := by rw [hlog]
        _ = some (hideSecrets σ'.shared.config) := replay_withoutSecret hinv'.replayed)
    rw [← getSessionConfig_hideSecrets, hrows, getSessionConfig_hideSecrets]
  · rw [mem_getSessionConfig]
    constructor
    · rintro ⟨stored, hget, rfl⟩
      obtain ⟨value, hlast, hchecked⟩ := hinv.stored hget
      exact ⟨value, hlast, displayValue_of_checked hchecked⟩
    · rintro ⟨value, hlast, rfl⟩
      obtain ⟨stored, hget, hchecked⟩ := hinv.get? hlast
      exact ⟨stored, hget, (displayValue_of_checked hchecked).symm⟩
  · obtain ⟨value, hlast, spec, salt, hspec, -, hstore⟩ := hinv.stored hget
    rw [isSecret, hspec, Option.any_some] at hsecret
    rw [KeySpec.store, if_pos hsecret] at hstore
    obtain ⟨ciphertext, hencrypt, rfl⟩ := Option.map_eq_some_iff.mp hstore
    exact ⟨rfl, value, salt, ciphertext, hlast, hencrypt, rfl⟩

theorem secrets_do_not_show_two : ∃ σ σ',
    sampleRun [.set apiKeyKey (pyStr "sk-1") 0] = some σ ∧
    sampleRun [.set apiKeyKey (pyStr "sk-2") 1] = some σ' ∧
    getSessionConfig σ.shared.config 7 = getSessionConfig σ'.shared.config 7 := by
  obtain ⟨σ, hrun⟩ : ∃ σ, sampleRun [.set apiKeyKey (pyStr "sk-1") 0] = some σ :=
    Option.isSome_iff_exists.mp (by decide +kernel)
  obtain ⟨σ', hrun'⟩ : ∃ σ', sampleRun [.set apiKeyKey (pyStr "sk-2") 1] = some σ' :=
    Option.isSome_iff_exists.mp (by decide +kernel)
  have hlogs : (sampleRun [.set apiKeyKey (pyStr "sk-1") 0]).map
      (fun σ ↦ σ.shared.log.map Write.withoutSecret) =
      (sampleRun [.set apiKeyKey (pyStr "sk-2") 1]).map
        fun σ ↦ σ.shared.log.map Write.withoutSecret := by
    decide +kernel
  rw [hrun, hrun'] at hlogs
  have hreach := ProcessPool.Machine.reachable_of_run sampleWorld_fresh hrun
  have hreach' := ProcessPool.Machine.reachable_of_run sampleWorld_fresh hrun'
  exact ⟨σ, σ', hrun, hrun',
    (secrets_do_not_show hreach hreach' (Option.some.inj hlogs) 7).1⟩

end Discode.SessionConfig

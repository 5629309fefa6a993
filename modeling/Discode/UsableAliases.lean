import Discode.CommandAuthority

/-!
# Aliases of directories

`set_path_alias` writes two tables: the alias, and a root for everybody of the guild.  Whoever
starts a session with an alias is let into its directory, also after the alias is gone.
-/

set_option autoImplicit false

namespace Discode.Commands

open ProcessPool (Machine)
open WorkspacePaths (RealPath Rooted canonicalize canonicalizePath denyReason denyReason_eq_none
  revalidateCwd revalidateCwd_eq_ok validateWorkspace validateWorkspace_eq_ok)

variable {texts : Texts} {w w' : BotWorld} {i : Interaction} {guildId : GuildId} {name : PyStr}
  {path : RealPath}

/-! ## The two tables -/

/-- Everybody of the guild may work in the directory, on the host of the runner. -/
structure OpenTo (w : BotWorld) (guildId : GuildId) (path : RealPath) : Prop where
  permitted : denyReason path.render = none
  rooted : ∃ root ∈ w.roots, root.guildId = some guildId ∧ root.userId = none ∧
    root.runnerHostId = w.runnerHostId ∧ root.realpath.components = path.components

/-- A step takes no root away, and an alias that it sets is open to its guild. -/
structure Opens (w w' : BotWorld) : Prop where
  host : w'.runnerHostId = w.runnerHostId
  roots : w.roots ⊆ w'.roots
  aliases : ∀ guildId name path, w'.aliases guildId name = some path →
    w.aliases guildId name = some path ∨ aliasFormat name = true ∧ OpenTo w' guildId path

theorem OpenTo.mono (h : OpenTo w guildId path) (hopens : Opens w w') :
    OpenTo w' guildId path := by
  obtain ⟨root, hroot, hguild, huser, hhost, hpath⟩ := h.rooted
  exact ⟨h.permitted, root, hopens.roots hroot, hguild, huser, hhost.trans hopens.host.symm,
    hpath⟩

/-- A step that leaves the two tables as they are. -/
theorem Opens.of_eq (hhost : w'.runnerHostId = w.runnerHostId) (hroots : w'.roots = w.roots)
    (haliases : w'.aliases = w.aliases) : Opens w w' where
  host := hhost
  roots := hroots ▸ List.Subset.refl _
  aliases guildId name path h := by
    rw [haliases] at h
    exact .inl h

theorem subset_insertRoot (root : WorkspacePaths.AllowedRoot)
    (roots : List WorkspacePaths.AllowedRoot) : roots ⊆ insertRoot root roots := by
  unfold insertRoot
  split_ifs
  · exact List.Subset.refl _
  · exact List.subset_append_left _ _

/-- The root is there afterwards, or one that is the same but for its text. -/
theorem exists_mem_insertRoot (root : WorkspacePaths.AllowedRoot)
    (roots : List WorkspacePaths.AllowedRoot) : ∃ r ∈ insertRoot root roots,
      r.guildId = root.guildId ∧ r.userId = root.userId ∧ r.runnerHostId = root.runnerHostId ∧
        r.realpath.components = root.realpath.components := by
  unfold insertRoot
  split_ifs with hconflict
  · obtain ⟨r, hr, hsame⟩ := List.any_eq_true.mp hconflict
    exact ⟨r, hr, of_decide_eq_true hsame⟩
  · exact ⟨root, List.mem_append_right _ (List.mem_singleton_self _), rfl, rfl, rfl, rfl⟩

/-! ## Steps -/

theorem opens_perform (w : BotWorld) (a : SystemAction) : Opens w (w.perform a) := by
  unfold BotWorld.perform
  split
  · exact .of_eq rfl rfl rfl
  · exact .of_eq rfl rfl rfl

theorem opens_actSession (w : BotWorld) (i : Interaction) (op : SessionOp)
    (target : SessionId × SessionRow) : Opens w (actSession w i op target) := by
  cases op with
  | invite invitee =>
      simp only [actSession, invite]
      split
      · exact .of_eq rfl rfl rfl
      · exact .of_eq rfl rfl rfl
  | send | stop | archive | resume | restart => exact opens_perform w _

theorem setAlias_cases {guildId' : GuildId} {name' : PyStr} {path? : Option RealPath}
    (h : (w.setAlias guildId name path?).aliases guildId' name' = some path) :
    w.aliases guildId' name' = some path ∨
      guildId' = guildId ∧ name' = name ∧ path? = some path := by
  change Function.update w.aliases guildId _ guildId' name' = some path at h
  by_cases hguild : guildId' = guildId
  · subst hguild
    rw [Function.update_self] at h
    by_cases hname : name' = name
    · subst hname
      rw [Function.update_self] at h
      exact .inr ⟨rfl, rfl, h⟩
    · rw [Function.update_of_ne hname] at h
      exact .inl h
  · rw [Function.update_of_ne hguild] at h
    exact .inl h

theorem opens_actGuild (w : BotWorld) (i : Interaction) (op : GuildOp) :
    Opens w (actGuild w i op) := by
  cases op with
  | setupInit => exact .of_eq rfl rfl rfl
  | adminRoleSet roleId roleName => exact .of_eq rfl rfl rfl
  | mapSet tool channel => exact .of_eq rfl rfl rfl
  | mapRemove tool => exact .of_eq rfl rfl rfl
  | rootAdd path =>
      simp only [actGuild]
      split_ifs
      · exact ⟨rfl, subset_insertRoot _ _, fun _ _ _ h ↦ .inl h⟩
      · exact .of_eq rfl rfl rfl
  | aliasSet name path =>
      simp only [actGuild]
      split_ifs with hchecks
      · refine ⟨rfl, subset_insertRoot _ _, fun guildId' name' path' h ↦ ?_⟩
        rcases setAlias_cases h with hold | ⟨rfl, rfl, hpath⟩
        · exact .inl hold
        · cases hpath
          obtain ⟨r, hr, hguild, huser, hhost, hreal⟩ := exists_mem_insertRoot
            ⟨some i.guildId, none, w.runnerHostId, w.realpath path⟩ w.roots
          exact .inr ⟨hchecks.1, hchecks.2, r, hr, hguild, huser, hhost, hreal⟩
      · exact .of_eq rfl rfl rfl
  | aliasRemove name =>
      refine ⟨rfl, List.Subset.refl _, fun guildId' name' path' h ↦ ?_⟩
      rcases setAlias_cases h with hold | ⟨-, -, hpath⟩
      · exact .inl hold
      · cases hpath

theorem opens_botEnv {e : BotEnv} (h : botEnv w e = some w') : Opens w w' := by
  cases e with
  | system a =>
      simp only [botEnv] at h
      split_ifs at h
      obtain ⟨σ, -, rfl⟩ := Option.map_eq_some_iff.mp h
      exact .of_eq rfl rfl rfl
  | configure auth enable =>
      cases h
      exact .of_eq rfl rfl rfl
  | links realpath fs =>
      cases h
      exact .of_eq rfl rfl rfl
  | tools tools =>
      cases h
      exact .of_eq rfl rfl rfl

theorem opens_handler {h : Handler} {a : HandlerAction} {h' : Option Handler}
    (hstep : h.step texts w a = some (w', h')) : Opens w w' := by
  cases step_cases hstep with
  | actSession hc => exact opens_actSession w _ _ _
  | actMessage hc => exact opens_perform w _
  | actGuild hc => exact opens_actGuild w _ _
  | runSaga hc hpath => exact opens_perform w _
  | _ => exact .of_eq rfl rfl rfl

theorem opens_step {σ τ : BotState} {a : ProcessPool.Action BotEnv Interaction HandlerAction}
    (hstep : (bot texts).step σ a = some τ) : Opens σ.shared τ.shared := by
  obtain ⟨e, w, rfl, he, rfl⟩ | ⟨i, w, h, rfl, hi, rfl⟩ | ⟨pid, b, h, w, h', rfl, hp, hb, rfl⟩ :=
    Machine.step_cases hstep
  · exact opens_botEnv he
  · simp only [bot] at hi
    split_ifs at hi
    cases hi
    exact .of_eq rfl rfl rfl
  · exact opens_handler hb

/-! ## Runs -/

theorem OpenTo.reaches {σ τ : BotState} (h : OpenTo σ.shared guildId path)
    (hreach : (bot texts).Reaches σ τ) : OpenTo τ.shared guildId path := by
  induction hreach with
  | refl => exact h
  | tail _ hst ih =>
      obtain ⟨a, -, hstep⟩ := hst
      exact ih.mono (opens_step hstep)

/-- Every alias has its format, and is open to its guild. -/
theorem open_of_alias {σ : BotState} (h : BotReachable texts σ)
    (halias : σ.shared.aliases guildId name = some path) :
    aliasFormat name = true ∧ OpenTo σ.shared guildId path := by
  refine Machine.ReachableWhen.invariant (I := fun σ ↦ ∀ guildId name path,
    σ.shared.aliases guildId name = some path →
      aliasFormat name = true ∧ OpenTo σ.shared guildId path)
    (fun w hw guildId name path halias ↦ ?_) (fun σ a τ _ ih _ hstep guildId name path halias ↦ ?_)
    h guildId name path halias
  · change w.aliases guildId name = some path at halias
    rw [hw.aliases] at halias
    cases halias
  · have hopens := opens_step hstep
    rcases hopens.aliases guildId name path halias with hold | hnew
    · exact ⟨(ih guildId name path hold).1, (ih guildId name path hold).2.mono hopens⟩
    · exact hnew

theorem head_ne_osSep (h : aliasFormat name = true) : name.head? ≠ some WorkspacePaths.osSep := by
  cases name with
  | nil => simp
  | cons c rest =>
      intro hhead
      cases Option.some.inj hhead
      simp [aliasFormat, WorkspacePaths.osSep] at h

theorem OpenTo.revalidates (h : OpenTo w guildId path) {realpath : PyStr → RealPath}
    (hreal : (realpath path.render).render = path.render) (ownerId : UserId) :
    revalidateCwd realpath w.roots path.render guildId ownerId w.runnerHostId =
      .ok path.render := by
  obtain ⟨root, hroot, hguild, huser, hhost, hpath⟩ := h.rooted
  refine revalidateCwd_eq_ok.mpr ⟨⟨denyReason_eq_none.mp ?_, root, hroot, hguild, hhost,
    .inl huser, ?_⟩, hreal.symm⟩
  · rw [hreal]
    exact h.permitted
  · rw [hpath, PosixPath.RealPath.render_injective hreal]

/-- In every run an alias resolves to a directory that its guild may work in: from then on, and
also after the alias is removed or set anew, the bot accepts the directory for every member, and
so does the runner, while it is one and its host is online. -/
theorem alias_is_usable {σ τ : BotState} (h : BotReachable texts σ)
    (hreach : (bot texts).Reaches σ τ)
    (halias : σ.shared.aliases i.guildId name = some path)
    (hreal : (τ.shared.fs.realpath path.render).render = path.render)
    (hdir : τ.shared.fs.isdir path.render = true) {host : RunnerHost}
    (hhost : τ.shared.db.runnerHosts.get? τ.shared.runnerHostId = some host)
    (honline : host.online = true) :
    resolveAliasOrPath σ.shared i name = some path.render ∧
      ∀ ownerId, validateWorkspace (.answer (canonicalizePath τ.shared.fs path.render))
          (τ.shared.db.runnerHosts.get? τ.shared.runnerHostId) τ.shared.roots i.guildId ownerId
          τ.shared.runnerHostId = .ok path.render ∧
        revalidateCwd τ.shared.fs.realpath τ.shared.roots path.render i.guildId ownerId
          τ.shared.runnerHostId = .ok path.render := by
  obtain ⟨hformat, hopen⟩ := open_of_alias h halias
  refine ⟨?_, fun ownerId ↦ ?_⟩
  · rw [resolveAliasOrPath, if_neg (head_ne_osSep hformat), halias]
    rfl
  · have hok := (hopen.reaches hreach).revalidates hreal ownerId
    refine ⟨validateWorkspace_eq_ok.mpr ⟨hok, ?_, host, hhost, honline⟩, hok⟩
    rw [hreal]
    exact hdir

/-- The alias that an admin has set is usable for a manager. -/
theorem alias_is_usable_started : ∃ path,
    startedState.shared.aliases 1 (pyStr "work") = some path ∧
      resolveAliasOrPath startedState.shared ⟨sampleManager, 1, 70, .guild .setupInit⟩
        (pyStr "work") = some path.render ∧
      ∀ ownerId, validateWorkspace
        (.answer (canonicalizePath startedState.shared.fs path.render))
        (startedState.shared.db.runnerHosts.get? startedState.shared.runnerHostId)
        startedState.shared.roots 1 ownerId startedState.shared.runnerHostId =
          .ok path.render := by
  obtain ⟨path, halias⟩ : ∃ path,
      startedState.shared.aliases 1 (pyStr "work") = some path :=
    Option.isSome_iff_exists.mp (by decide +kernel)
  obtain ⟨host, hhost⟩ : ∃ host, startedState.shared.db.runnerHosts.get?
      startedState.shared.runnerHostId = some host :=
    Option.isSome_iff_exists.mp (by decide +kernel)
  have hreals : (startedState.shared.aliases 1 (pyStr "work")).all (fun path ↦
      (startedState.shared.fs.realpath path.render).render = path.render ∧
        startedState.shared.fs.isdir path.render = true) = true := by
    decide +kernel
  have honlines : (startedState.shared.db.runnerHosts.get?
      startedState.shared.runnerHostId).all RunnerHost.online = true := by
    decide +kernel
  rw [halias] at hreals
  rw [hhost] at honlines
  obtain ⟨hreal, hdir⟩ := of_decide_eq_true hreals
  obtain ⟨hresolve, hok⟩ := alias_is_usable (i := ⟨sampleManager, 1, 70, .guild .setupInit⟩)
    startedState_reachable .refl halias hreal hdir hhost honlines
  exact ⟨path, halias, hresolve, fun ownerId ↦ (hok ownerId).1⟩

end Discode.Commands

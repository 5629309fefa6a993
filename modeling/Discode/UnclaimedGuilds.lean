import Discode.CommandOrigins

/-!
# Guilds without an admin

The helpers fail closed: a guild in which nobody with the Discord permission to manage it has
issued a command is never set up, so nobody in it is ever let in.
-/

set_option autoImplicit false

namespace Discode.Commands

open AdminAuth (AuthSettings)
open ProcessPool (Machine)

variable {texts : Texts} {w : BotWorld} {i : Interaction}

/-! ## Runs without an admin -/

/-- Nobody who issues a command in the guild may manage it, and none of them is one of those who
are ever platform admins. -/
def Unclaimed (guildId : GuildId) (platformAdmin : UserId → Prop) (_ : BotState) :
    ProcessPool.Action BotEnv Interaction HandlerAction → Prop
  | .spawn i => i.guildId = guildId →
      i.actor.manageGuild = false ∧ ¬ platformAdmin i.actor.userId
  | .env (.configure auth _) => ∀ userId ∈ auth.platformAdminUserIds, platformAdmin userId
  | _ => True

/-- A fresh deployment with its platform admins. -/
def FreshFor (platformAdmin : UserId → Prop) (w : BotWorld) : Prop :=
  FreshBot w ∧ ∀ userId ∈ w.auth.platformAdminUserIds, platformAdmin userId

/-- The guild is as it was before anything was set up. -/
structure Bare (guildId : GuildId) (w : BotWorld) : Prop where
  policy : w.policies guildId = none
  channels : ∀ tool, w.channels guildId tool = none
  aliases : ∀ name, w.aliases guildId name = none
  roots : ∀ root ∈ w.roots, root.guildId ≠ some guildId
  system : SessionsFrom (fun req ↦ req.guildId ≠ guildId) w.system

/-- The platform admins in force are among those. -/
def AdminsAmong (platformAdmin : UserId → Prop) (w : BotWorld) : Prop :=
  ∀ userId ∈ w.auth.platformAdminUserIds, platformAdmin userId

/-- A handler of the guild gets nowhere. -/
def Powerless (guildId : GuildId) (platformAdmin : UserId → Prop) (h : Handler) : Prop :=
  h.interaction.guildId = guildId → h.stage = .begun ∧
    h.interaction.actor.manageGuild = false ∧ ¬ platformAdmin h.interaction.actor.userId

section

variable {guildId : GuildId} {platformAdmin : UserId → Prop}

theorem Bare.not_admin (h : Bare guildId w) (hi : i.guildId = guildId) : ¬ Admin w i := by
  intro hadmin
  unfold Admin at hadmin
  rw [hi, h.policy] at hadmin
  cases hadmin

theorem Bare.not_operator (h : Bare guildId w) (hadmins : AdminsAmong platformAdmin w)
    (hi : i.guildId = guildId) (huser : ¬ platformAdmin i.actor.userId) : ¬ Operator w i :=
  fun hop ↦ hop.elim (fun hplatform ↦ huser (hadmins _ hplatform)) (h.not_admin hi)

theorem Bare.not_manages (h : Bare guildId w) (hadmins : AdminsAmong platformAdmin w)
    (hi : i.guildId = guildId) (hactor : i.actor.manageGuild = false)
    (huser : ¬ platformAdmin i.actor.userId) : ¬ Manages w i := by
  have hadmin := h.not_admin hi
  intro hm
  unfold Manages at hm
  split at hm
  · exact hm.elim (fun h ↦ Bool.false_ne_true (hactor.symm.trans h)) hadmin
  · exact hm.elim (fun h ↦ Bool.false_ne_true (hactor.symm.trans h)) hadmin
  · exact h.not_operator hadmins hi huser hm
  · exact hadmin hm
  · exact hm

theorem guild_of_mem_scope {e : SessionId × SessionRow} (h : e ∈ scope w i) :
    w.db.session? e.1 = some e.2 ∧ e.2.guildId = i.guildId := by
  obtain ⟨hmem, hscope⟩ := List.mem_filter.mp h
  exact ⟨KeyedTable.mem_entries_iff.mp hmem, (of_decide_eq_true hscope).1⟩

/-- What a reference denotes is in the scope of the actor. -/
theorem mem_scope_of_denotes {ref : Option PyStr} {target : SessionId × SessionRow}
    (h : Denotes texts w i ref target) : target ∈ scope w i := by
  unfold Denotes at h
  split at h
  · rename_i ref
    have hmem : target ∈ matching texts w i ref := by
      rw [h]
      exact List.mem_singleton_self target
    unfold matching at hmem
    split at hmem
    · exact (List.mem_filter.mp hmem).1
    · split_ifs at hmem
      · exact (List.mem_filter.mp hmem).1
      · exact (List.mem_filter.mp hmem).1
  · dsimp only at h
    split_ifs at h
    · exact (List.mem_filter.mp h.1).1
    · exact (List.mem_filter.mp h.1).1

theorem Bare.not_session (h : Bare guildId w) {sid : SessionId} {row : SessionRow}
    (hrow : w.db.session? sid = some row) : row.guildId ≠ guildId := by
  obtain ⟨req, hreq, hmakes⟩ := h.system.sessions sid row hrow
  exact hmakes.guildId.trans_ne hreq

theorem Bare.powerless_step (h : Bare guildId w) (hadmins : AdminsAmong platformAdmin w)
    {p p' : Handler} {a : HandlerAction} {w' : BotWorld} (hp : Powerless guildId platformAdmin p)
    (hstep : p.step texts w a = some (w', some p')) : Powerless guildId platformAdmin p' := by
  have hsame := (step_goes_on hstep).2.1
  intro hguild
  rw [hsame] at hguild ⊢
  obtain ⟨hbegun, hactor, huser⟩ := hp hguild
  refine ⟨?_, hactor, huser⟩
  generalize hnext : some p' = next at hstep
  cases step_cases hstep with
  | resolve hc hrow hdenotes =>
      obtain ⟨hrow, hscope⟩ := guild_of_mem_scope (mem_scope_of_denotes hdenotes)
      exact absurd (hscope.trans hguild) (h.not_session hrow)
  | message hc hrow hthread hlive hown =>
      unfold resolveSessionForThread at hthread
      have hfound := List.find?_some hthread
      obtain ⟨-, hrowGuild⟩ := of_decide_eq_true hfound
      exact absurd (hrowGuild.trans hguild) (h.not_session hrow)
  | permit hc hcheck =>
      exact absurd (manages_of_check hc hcheck) (h.not_manages hadmins hguild hactor huser)
  | operate hc hcheck => exact absurd hcheck (h.not_operator hadmins hguild huser)
  | own | ask | admin | start => cases hbegun
  | _ => cases hnext

theorem Bare.perform (h : Bare guildId w) {a : SystemAction}
    (ha : ∀ request, a = .spawn (.createSaga request) → request.guildId ≠ guildId) :
    Bare guildId (w.perform a) := by
  unfold BotWorld.perform
  split
  · rename_i σ hσ
    exact ⟨h.policy, h.channels, h.aliases, h.roots, h.system.step hσ ha⟩
  · exact h

theorem Bare.setPolicy (h : Bare guildId w) {g : GuildId} (hg : g ≠ guildId)
    (policy : AdminAuth.AdminRolePolicy) : Bare guildId (w.setPolicy g policy) where
  policy := (Function.update_of_ne hg.symm _ _).trans h.policy
  channels := h.channels
  aliases := h.aliases
  roots := h.roots
  system := h.system

theorem Bare.setChannel (h : Bare guildId w) {g : GuildId} (hg : g ≠ guildId) (tool : ToolName)
    (channel : Option ThreadId) : Bare guildId (w.setChannel g tool channel) where
  policy := h.policy
  channels tool' := by
    change Function.update w.channels g _ guildId tool' = none
    rw [Function.update_of_ne hg.symm]
    exact h.channels tool'
  aliases := h.aliases
  roots := h.roots
  system := h.system

theorem Bare.setAlias (h : Bare guildId w) {g : GuildId} (hg : g ≠ guildId) (name : PyStr)
    (path : Option WorkspacePaths.RealPath) : Bare guildId (w.setAlias g name path) where
  policy := h.policy
  channels := h.channels
  aliases name' := by
    change Function.update w.aliases g _ guildId name' = none
    rw [Function.update_of_ne hg.symm]
    exact h.aliases name'
  roots := h.roots
  system := h.system

theorem mem_insertRoot {root r : WorkspacePaths.AllowedRoot}
    {roots : List WorkspacePaths.AllowedRoot} (h : r ∈ insertRoot root roots) :
    r ∈ roots ∨ r = root := by
  unfold insertRoot at h
  split_ifs at h
  · exact .inl h
  · exact (List.mem_append.mp h).imp_right List.mem_singleton.mp

theorem Bare.addRoot (h : Bare guildId w) {root : WorkspacePaths.AllowedRoot}
    (hroot : root.guildId ≠ some guildId) : Bare guildId (w.addRoot root) where
  policy := h.policy
  channels := h.channels
  aliases := h.aliases
  roots r hr := by
    rcases mem_insertRoot hr with hold | rfl
    · exact h.roots r hold
    · exact hroot
  system := h.system

theorem Bare.actGuild (h : Bare guildId w) (hi : i.guildId ≠ guildId) (op : GuildOp) :
    Bare guildId (actGuild w i op) := by
  have hroot : some i.guildId ≠ some guildId := fun heq ↦ hi (Option.some.inj heq)
  cases op with
  | setupInit => exact h.setPolicy hi _
  | adminRoleSet roleId roleName => exact h.setPolicy hi _
  | mapSet tool channel => exact h.setChannel hi tool _
  | mapRemove tool => exact h.setChannel hi tool _
  | rootAdd path =>
      simp only [Commands.actGuild]
      split_ifs
      · refine h.addRoot ?_
        exact hroot
      · exact h
  | aliasSet name path =>
      simp only [Commands.actGuild]
      split_ifs
      · refine (h.setAlias hi name _).addRoot ?_
        exact hroot
      · exact h
  | aliasRemove name => exact h.setAlias hi name _

theorem Bare.actSession (h : Bare guildId w) (op : SessionOp) (target : SessionId × SessionRow) :
    Bare guildId (actSession w i op target) := by
  have henv : ∀ e : EnvAction, Bare guildId (w.perform (.env e)) :=
    fun e ↦ h.perform fun request heq ↦ by cases heq
  cases op with
  | invite invitee =>
      unfold Commands.actSession invite
      dsimp only
      split
      · exact ⟨h.policy, h.channels, h.aliases, h.roots, h.system⟩
      · exact h
  | _ => exact henv _

/-- An act leaves the guild as it is: none of its own handlers gets so far. -/
theorem Bare.act (h : Bare guildId w) {p : Handler} {a : HandlerAction} {w' : BotWorld}
    (hp : Powerless guildId platformAdmin p) (hstep : p.step texts w a = some (w', none)) :
    Bare guildId w' := by
  have hother : p.stage ≠ .begun → p.interaction.guildId ≠ guildId :=
    fun hstage hguild ↦ hstage (hp hguild).1
  generalize hnext : (none : Option Handler) = next at hstep
  cases step_cases hstep with
  | leave => exact h
  | actSession hc => exact h.actSession _ _
  | actMessage hc => exact h.perform fun request heq ↦ by cases heq
  | actGuild hc => exact h.actGuild (hother fun heq ↦ by cases heq) _
  | runSaga hc hpath =>
      refine h.perform fun request heq ↦ ?_
      cases heq
      exact hother fun heq ↦ by cases heq
  | _ => cases hnext

theorem act_auth {p : Handler} {a : HandlerAction} {w' : BotWorld} {p' : Option Handler}
    (hstep : p.step texts w a = some (w', p')) : w'.auth = w.auth := by
  have hperform : ∀ a, (w.perform a).auth = w.auth := by
    intro a
    unfold BotWorld.perform
    split <;> rfl
  cases step_cases hstep with
  | @actSession i ref op target hc =>
      cases op with
      | invite invitee =>
          unfold Commands.actSession invite
          dsimp only
          split <;> rfl
      | _ => exact hperform _
  | actMessage hc => exact hperform _
  | @actGuild i op hc =>
      cases op with
      | rootAdd path | aliasSet name path =>
          simp only [Commands.actGuild]
          split_ifs <;> rfl
      | _ => rfl
  | runSaga hc hpath => exact hperform _
  | _ => rfl

theorem unclaimed_proof (texts : Texts) (guildId : GuildId) (platformAdmin : UserId → Prop) :
    Machine.Proof (bot texts) (Unclaimed guildId platformAdmin)
      (fun w ↦ Bare guildId w ∧ AdminsAmong platformAdmin w)
      (fun _ p _ ↦ Powerless guildId platformAdmin p) where
  env σ e w hσ hok hstep := by
    refine ⟨?_, fun _ _ hp ↦ hp⟩
    obtain ⟨hbare, hadmins⟩ := hσ.inv
    cases e with
    | system a =>
        simp only [bot, botEnv] at hstep
        split_ifs at hstep with huser
        obtain ⟨ρ, hρ, rfl⟩ := Option.map_eq_some_iff.mp hstep
        refine ⟨⟨hbare.policy, hbare.channels, hbare.aliases, hbare.roots, ?_⟩, hadmins⟩
        refine hbare.system.step hρ fun request heq ↦ ?_
        subst heq
        exact absurd rfl huser
    | configure auth enable =>
        cases hstep
        exact ⟨⟨hbare.policy, hbare.channels, hbare.aliases, hbare.roots, hbare.system⟩, hok⟩
    | links realpath fs =>
        cases hstep
        exact ⟨⟨hbare.policy, hbare.channels, hbare.aliases, hbare.roots, hbare.system⟩, hadmins⟩
    | tools tools =>
        cases hstep
        exact ⟨⟨hbare.policy, hbare.channels, hbare.aliases, hbare.roots, hbare.system⟩, hadmins⟩
  spawn σ i w p hσ hok hstep := by
    simp only [bot] at hstep
    split_ifs at hstep
    cases hstep
    exact ⟨hσ.inv, fun hguild ↦ ⟨rfl, hok hguild⟩, fun _ _ _ hp ↦ hp⟩
  exec σ pid p a w p' hσ _ hp hstep := by
    obtain ⟨hbare, hadmins⟩ := hσ.inv
    have hpower := hσ.assert pid p hp
    have hadmins' : AdminsAmong platformAdmin w := by
      unfold AdminsAmong
      rw [act_auth hstep]
      exact hadmins
    cases p' with
    | none => exact ⟨⟨hbare.act hpower hstep, hadmins'⟩, (fun _ hr ↦ by cases hr), fun _ _ _ hq ↦ hq⟩
    | some p' =>
        refine ⟨⟨?_, hadmins'⟩, fun r hr ↦ ?_, fun _ _ _ hq ↦ hq⟩
        · rw [(step_goes_on hstep).1]
          exact hbare
        · cases hr
          exact hbare.powerless_step hadmins hpower hstep

theorem FreshBot.bare (h : FreshBot w) (guildId : GuildId) : Bare guildId w := by
  obtain ⟨world, ⟨settings, redactor, rfl⟩, hsystem⟩ := h.system
  refine ⟨?_, fun tool ↦ ?_, fun name ↦ ?_, fun root hroot ↦ ?_, ?_⟩
  · rw [h.policies]
  · rw [h.channels]
  · rw [h.aliases]
  · rw [h.roots] at hroot
    cases hroot
  · rw [hsystem]
    exact FreshWorld.sessionsFrom ⟨settings, redactor, rfl⟩ _

end

/-- In every run in which nobody of the guild may manage it or is a platform admin, the guild has
no admin role, no mapped channel, no alias, no allowed root and no session, whatever its members
and those of other guilds ask for. -/
theorem unclaimed_guild_stays_bare {guildId : GuildId} {platformAdmin : UserId → Prop}
    {σ : BotState} (h : (bot texts).ReachableWhen (Unclaimed guildId platformAdmin)
      (FreshFor platformAdmin) σ) :
    Bare guildId σ.shared ∧ ∀ pid p, σ.procs pid = some p → p.interaction.guildId = guildId →
      p.stage = .begun := by
  have hann := (unclaimed_proof texts guildId platformAdmin).annotated
    (fun w hw ↦ ⟨hw.1.bare guildId, hw.2⟩) h
  exact ⟨hann.inv.1, fun pid p hp hguild ↦ (hann.assert pid p hp hguild).1⟩

/-- While guild 1 is set up, a member of guild 2 with a role of the same id tries to take it. -/
def trespassRun : List (ProcessPool.Action BotEnv Interaction HandlerAction) :=
  startedRun ++ [.spawn ⟨sampleAdmin, 2, 70, .guild (.adminRoleSet 50 (pyStr "ops"))⟩]

def trespassState : BotState :=
  ((bot sampleTexts).run (.start sampleBot) trespassRun).get (by decide +kernel)

theorem unclaimed_guild_stays_bare_trespass : Bare 2 trespassState.shared ∧
    ∀ pid p, trespassState.procs pid = some p → p.interaction.guildId = 2 → p.stage = .begun := by
  refine @unclaimed_guild_stays_bare sampleTexts 2 (· = 9) trespassState
    ⟨sampleBot, ⟨sampleBot_fresh, by simp [sampleBot]⟩, .of_run ?_ (Option.some_get _).symm⟩
  simp [trespassRun, startedRun, guildRun, sampleManager, sampleAdmin, Unclaimed]

end Discode.Commands

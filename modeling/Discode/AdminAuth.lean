import Discode.Database

/-!
# Who may administer a guild

`bot/policies/admin_auth.py` over the rows of `guild_admin_role_policy` and the settings.
-/

set_option autoImplicit false

namespace Discode.AdminAuth

abbrev RoleId := ℕ

/-- A row of `guild_admin_role_policy`, less its guild. -/
structure AdminRolePolicy where
  roleId : Option RoleId
  roleNameFallback : Option PyStr
  deriving DecidableEq

/-- The roles of a member, by id and by name. -/
structure MemberRoles where
  ids : List RoleId
  names : List PyStr
  deriving DecidableEq

/-- `is_guild_admin_authorized`, given the policy of the guild. -/
def isGuildAdminAuthorized (policy : Option AdminRolePolicy) (member : MemberRoles) : Bool :=
  match policy with
  | none => false
  | some policy => match policy.roleId, policy.roleNameFallback with
      | some roleId, _ => member.ids.contains roleId
      | none, some name => member.names.contains name
      | none, none => false

/-- The settings that authorise somebody. -/
structure AuthSettings where
  platformAdminUserIds : List UserId
  allowedGuildIds : List GuildId

/-- `is_guild_allowed`. -/
def isGuildAllowed (settings : AuthSettings) (guildId : Option GuildId) : Bool :=
  guildId.any settings.allowedGuildIds.contains

/-- `can_operate_sessions`. -/
def canOperateSessions (settings : AuthSettings) (policy : Option AdminRolePolicy)
    (userId : UserId) (member : MemberRoles) : Bool :=
  settings.platformAdminUserIds.contains userId || isGuildAdminAuthorized policy member

/-- The member holds the role that the policy names. -/
inductive HoldsAdminRole (member : MemberRoles) : Option AdminRolePolicy → Prop
  | role {roleId : RoleId} {fallback : Option PyStr} (h : roleId ∈ member.ids) :
      HoldsAdminRole member (some ⟨some roleId, fallback⟩)
  | fallback {name : PyStr} (h : name ∈ member.names) :
      HoldsAdminRole member (some ⟨none, some name⟩)

theorem isGuildAdminAuthorized_iff {policy : Option AdminRolePolicy} {member : MemberRoles} :
    isGuildAdminAuthorized policy member = true ↔ HoldsAdminRole member policy := by
  constructor
  · intro h
    cases policy with
    | none => cases h
    | some policy =>
        obtain ⟨roleId, fallback⟩ := policy
        cases roleId with
        | some roleId => exact .role (List.contains_iff_mem.mp h)
        | none =>
            cases fallback with
            | some name => exact .fallback (List.contains_iff_mem.mp h)
            | none => cases h
  · intro h
    cases h with
    | role h => exact List.contains_iff_mem.mpr h
    | fallback h => exact List.contains_iff_mem.mpr h

end Discode.AdminAuth

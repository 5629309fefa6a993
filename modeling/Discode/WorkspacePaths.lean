import Discode.InputJob
import Discode.Library.PosixPath
import Discode.Library.ProcessPool

/-!
# Workspace directories

The policy of `security/paths.py`, where the runner and the bot apply it, and the jobs that
start a tool in a directory.
-/

set_option autoImplicit false

namespace Discode.WorkspacePaths

open PosixPath (componentsOf stripEnd)

/-! ## `security/paths.py` -/

/-- `os.sep`. -/
def osSep : CodePoint := 0x2f

abbrev RealPath := PosixPath.RealPath osSep

/-- `DENYLIST_SEGMENTS`. -/
def denylistSegments : List String :=
  [".ssh", ".aws", ".gnupg", ".config", ".docker", ".kube", ".local", ".gcloud", ".azure", ".npm"]

/-- `DENYLIST_ROOTS`. -/
def denylistRoots : List String :=
  ["/proc", "/sys", "/dev", "/etc", "/root", "/boot", "/private/etc", "/private/var/root",
    "/var/root"]

/-- `DENYLIST_FILENAMES`. -/
def denylistFilenames : List String := [".netrc", ".npmrc", ".git-credentials", ".pgpass"]

/-- `_is_denied_filename`. -/
def IsDeniedFilename (name : PyStr) : Prop :=
  name ∈ denylistFilenames.map pyStr ∨ name = pyStr ".env" ∨ pyStr ".env." <+: name

instance (name : PyStr) : Decidable (IsDeniedFilename name) := by
  unfold IsDeniedFilename
  infer_instance

inductive DenyReason where
  | systemPath (root : PyStr)
  | segment (segment : PyStr)
  | credentialFile (segment : PyStr)
  deriving DecidableEq

def denySystemPath (real : PyStr) : Option DenyReason :=
  ((denylistRoots.map pyStr).find? fun root ↦ real = root ∨ root ++ [osSep] <+: real).map
    .systemPath

def denySegment (segment : PyStr) : Option DenyReason :=
  if segment = [] then none
  else if segment ∈ denylistSegments.map pyStr then some (.segment segment)
  else if IsDeniedFilename segment then some (.credentialFile segment)
  else none

/-- What `canonicalize` returns besides the real path. -/
def denyReason (real : PyStr) : Option DenyReason :=
  (denySystemPath real).or ((real.splitOn osSep).findSome? denySegment)

/-- `canonicalize`. -/
def canonicalize (realpath : PyStr → RealPath) (path : PyStr) : PyStr × Option DenyReason :=
  let real := (realpath path).render
  (real, denyReason real)

/-- `is_within_root`. -/
def IsWithinRoot (path root : PyStr) : Prop :=
  path = root ∨ stripEnd osSep root ++ [osSep] <+: path

instance (path root : PyStr) : Decidable (IsWithinRoot path root) := by
  unfold IsWithinRoot
  infer_instance

/-! ## The runner -/

/-- A row of `allowed_roots`; the empty user, which stands for all of them, is none. -/
structure AllowedRoot where
  guildId : Option GuildId
  userId : Option UserId
  runnerHostId : HostId
  realpath : RealPath

inductive CwdDenial where
  | denied (reason : DenyReason)
  | noAllowedRoot

/-- `revalidate_cwd`. -/
def revalidateCwd (realpath : PyStr → RealPath) (allowedRoots : List AllowedRoot) (cwd : PyStr)
    (guildId : GuildId) (ownerId : UserId) (hostId : HostId) : Except CwdDenial PyStr :=
  match canonicalize realpath cwd with
  | (_, some reason) => .error (.denied reason)
  | (real, none) =>
      let roots := allowedRoots.filter fun root ↦
        root.guildId = some guildId ∧ root.runnerHostId = hostId
      if ∃ root ∈ roots, (root.userId = none ∨ root.userId = some ownerId) ∧
          IsWithinRoot real root.realpath.render then .ok real
      else .error .noAllowedRoot

/-- The file system of the runner's host. -/
structure FileSystem where
  realpath : PyStr → RealPath
  exist : PyStr → Bool
  isdir : PyStr → Bool

/-- The answer of `/v1/canonicalize_path`. -/
structure PathAnswer where
  realpath : PyStr
  exist : Bool
  isDir : Bool
  /-- `"allow"`, or `"deny"`. -/
  allow : Bool
  denylistReason : Option DenyReason

/-- `canonicalize_path`. -/
def canonicalizePath (fs : FileSystem) (path : PyStr) : PathAnswer :=
  let (real, reason) := canonicalize fs.realpath path
  ⟨real, fs.exist real, fs.isdir real, reason.isNone, reason⟩

/-! ## The bot -/

/-- What the call of the control API ends with. -/
inductive ControlResponse where
  | unavailable
  | invalid
  | answer (data : PathAnswer)

/-- The `ValueError`s of `validate_workspace`. -/
inductive WorkspaceError where
  | unavailable
  | invalidResponse
  | denied
  | runnerOffline
  | noAllowedRoot

/-- `validate_workspace`. -/
def validateWorkspace (response : ControlResponse) (host : Option RunnerHost)
    (allowedRoots : List AllowedRoot) (guildId : GuildId) (ownerId : UserId) (hostId : HostId) :
    Except WorkspaceError PyStr :=
  match response with
  | .unavailable => .error .unavailable
  | .invalid => .error .invalidResponse
  | .answer data =>
      if data.allow = false ∨ data.isDir = false then .error .denied
      else if host.all (fun host ↦ !host.online) then .error .runnerOffline
      else
        let roots := allowedRoots.filter fun root ↦ root.guildId = some guildId ∧
          root.runnerHostId = hostId ∧ (root.userId = none ∨ root.userId = some ownerId)
        if ∃ root ∈ roots, IsWithinRoot data.realpath root.realpath.render then .ok data.realpath
        else .error .noAllowedRoot

/-! ## The policy on components -/

/-- No system directory is above the path, and none of its components is one of those that
hold credentials. -/
structure Permitted (real : RealPath) : Prop where
  root : ∀ root ∈ denylistRoots, ¬ componentsOf osSep (pyStr root) <+: real.components
  segment : ∀ part ∈ real.components, part ∉ denylistSegments.map pyStr
  filename : ∀ part ∈ real.components, ¬ IsDeniedFilename part

/-- A row of the guild and the host, for everybody or for the owner, is above the path. -/
def Rooted (allowedRoots : List AllowedRoot) (guildId : GuildId) (ownerId : UserId)
    (hostId : HostId) (real : RealPath) : Prop :=
  ∃ root ∈ allowedRoots, root.guildId = some guildId ∧ root.runnerHostId = hostId ∧
    (root.userId = none ∨ root.userId = some ownerId) ∧
    root.realpath.components <+: real.components

/-- The entries of the list are paths below the root directory. -/
theorem denylistRoot_render {root : String} (h : root ∈ denylistRoots) : ∃ path : RealPath,
    path.render = pyStr root ∧ path.components = componentsOf osSep (pyStr root) ∧
      path.components ≠ [] := by
  have hentries : ∀ root ∈ denylistRoots, [] ∉ componentsOf osSep (pyStr root) ∧
      (∀ part ∈ componentsOf osSep (pyStr root), osSep ∉ part) ∧
      componentsOf osSep (pyStr root) ≠ [] ∧
      PosixPath.flat osSep (componentsOf osSep (pyStr root)) = pyStr root := by
    decide +kernel
  obtain ⟨hne, hplain, hnonroot, hflat⟩ := hentries root h
  refine ⟨⟨componentsOf osSep (pyStr root), hne, hplain⟩, ?_, rfl, hnonroot⟩
  rw [PosixPath.RealPath.render, if_neg hnonroot, hflat]

theorem denySystemPath_eq_none {real : RealPath} : denySystemPath real.render = none ↔
    ∀ root ∈ denylistRoots, ¬ componentsOf osSep (pyStr root) <+: real.components := by
  rw [denySystemPath, Option.map_eq_none_iff, List.find?_eq_none, List.forall_mem_map]
  refine forall₂_congr fun root hroot ↦ not_congr ?_
  obtain ⟨path, hrender, hcomponents, hnonroot⟩ := denylistRoot_render hroot
  rw [decide_eq_true_eq, ← hrender, real.under_iff hnonroot, hrender, hcomponents]

theorem denySegment_eq_none {segment : PyStr} : denySegment segment = none ↔
    segment = [] ∨ segment ∉ denylistSegments.map pyStr ∧ ¬ IsDeniedFilename segment := by
  unfold denySegment
  split_ifs with hempty hsegment hname
  · exact iff_of_true rfl (.inl hempty)
  · exact iff_of_false (fun h ↦ nomatch h) fun h ↦ (h.resolve_left hempty).1 hsegment
  · exact iff_of_false (fun h ↦ nomatch h) fun h ↦ (h.resolve_left hempty).2 hname
  · exact iff_of_true rfl (.inr ⟨hsegment, hname⟩)

/-- The denylist is one on components. -/
theorem denyReason_eq_none {real : RealPath} : denyReason real.render = none ↔ Permitted real := by
  have hparts : (∀ part ∈ real.render.splitOn osSep, denySegment part = none) ↔
      ∀ part ∈ real.components, part ∉ denylistSegments.map pyStr ∧ ¬ IsDeniedFilename part := by
    rw [← real.componentsOf_render]
    simp only [componentsOf, List.mem_filter, decide_eq_true_eq, denySegment_eq_none]
    refine forall_congr' fun part ↦ ⟨fun h hpart ↦ (h hpart.1).resolve_left hpart.2, fun h hin ↦ ?_⟩
    by_cases hempty : part = []
    · exact .inl hempty
    · exact .inr (h ⟨hin, hempty⟩)
  rw [denyReason, Option.or_eq_none_iff, denySystemPath_eq_none, List.findSome?_eq_none_iff, hparts]
  constructor
  · rintro ⟨hroot, hpart⟩
    exact ⟨hroot, fun part h ↦ (hpart part h).1, fun part h ↦ (hpart part h).2⟩
  · rintro ⟨hroot, hsegment, hname⟩
    exact ⟨hroot, fun part h ↦ ⟨hsegment part h, hname part h⟩⟩

theorem isWithinRoot_iff {real root : RealPath} :
    IsWithinRoot real.render root.render ↔ root.components <+: real.components :=
  real.within_iff root

/-- `revalidate_cwd` accepts what the policy on components permits. -/
theorem revalidateCwd_eq_ok {realpath : PyStr → RealPath} {allowedRoots : List AllowedRoot}
    {cwd : PyStr} {guildId : GuildId} {ownerId : UserId} {hostId : HostId} {real : PyStr} :
    revalidateCwd realpath allowedRoots cwd guildId ownerId hostId = .ok real ↔
      (Permitted (realpath cwd) ∧
        Rooted allowedRoots guildId ownerId hostId (realpath cwd)) ∧
      real = (realpath cwd).render := by
  unfold revalidateCwd canonicalize
  dsimp only
  cases hreason : denyReason (realpath cwd).render with
  | some reason =>
      refine iff_of_false (fun h ↦ nomatch h) fun h ↦ ?_
      rw [denyReason_eq_none.mpr h.1.1] at hreason
      cases hreason
  | none =>
      have hrooted : (∃ root ∈ allowedRoots.filter fun root ↦
          root.guildId = some guildId ∧ root.runnerHostId = hostId,
          (root.userId = none ∨ root.userId = some ownerId) ∧
            IsWithinRoot (realpath cwd).render root.realpath.render) ↔
          Rooted allowedRoots guildId ownerId hostId (realpath cwd) := by
        simp only [List.mem_filter, decide_eq_true_eq, isWithinRoot_iff, Rooted, and_assoc]
      dsimp only
      rw [and_iff_right (denyReason_eq_none.mp hreason), ← hrooted]
      split_ifs with h
      · rw [and_iff_right h, Except.ok.injEq, eq_comm]
      · exact iff_of_false (fun hok ↦ nomatch hok) fun hok ↦ h hok.1

/-- With the runner's answer, `validate_workspace` decides as `revalidate_cwd` does, for a
directory on a host that is online. -/
theorem validateWorkspace_eq_ok {fs : FileSystem} {host : Option RunnerHost}
    {allowedRoots : List AllowedRoot} {cwd : PyStr} {guildId : GuildId} {ownerId : UserId}
    {hostId : HostId} {real : PyStr} :
    validateWorkspace (.answer (canonicalizePath fs cwd)) host allowedRoots guildId ownerId hostId =
        .ok real ↔
      revalidateCwd fs.realpath allowedRoots cwd guildId ownerId hostId = .ok real ∧
        fs.isdir (fs.realpath cwd).render = true ∧ ∃ row, host = some row ∧ row.online = true := by
  have hrooted : (∃ root ∈ allowedRoots.filter fun root ↦ root.guildId = some guildId ∧
        root.runnerHostId = hostId ∧ (root.userId = none ∨ root.userId = some ownerId),
        IsWithinRoot (fs.realpath cwd).render root.realpath.render) ↔
      Rooted allowedRoots guildId ownerId hostId (fs.realpath cwd) := by
    simp only [List.mem_filter, decide_eq_true_eq, isWithinRoot_iff, Rooted, and_assoc]
  have honline : host.all (fun row ↦ !row.online) = true ↔
      ¬ ∃ row, host = some row ∧ row.online = true := by
    cases host with
    | none => simp
    | some row => simp
  have hdenied : (denyReason (fs.realpath cwd).render).isNone = true ↔
      denyReason (fs.realpath cwd).render = none := Option.isNone_iff_eq_none
  rw [revalidateCwd_eq_ok, ← denyReason_eq_none, ← hrooted]
  unfold validateWorkspace canonicalizePath canonicalize
  dsimp only
  split_ifs with hanswer hoffline hroots
  · refine iff_of_false (fun h ↦ nomatch h) fun h ↦ ?_
    rcases hanswer with hallow | hdir
    · exact absurd (hdenied.mpr h.1.1.1) (Bool.eq_false_iff.mp hallow)
    · exact absurd h.2.1 (Bool.eq_false_iff.mp hdir)
  · exact iff_of_false (fun h ↦ nomatch h) fun h ↦ honline.mp hoffline h.2.2
  · obtain ⟨hallow, hdir⟩ := not_or.mp hanswer
    rw [Bool.not_eq_false] at hallow hdir
    constructor
    · intro h
      refine ⟨⟨⟨hdenied.mp hallow, hroots⟩, (Except.ok.inj h).symm⟩, hdir, ?_⟩
      exact not_not.mp fun hnone ↦ hoffline (honline.mpr hnone)
    · rintro ⟨⟨-, rfl⟩, -⟩
      rfl
  · exact iff_of_false (fun h ↦ nomatch h) fun h ↦ hroots h.1.1.2

end Discode.WorkspacePaths

import Discode.System
import Discode.WorkspacePaths

/-!
# The directories of turns

The system together with what `revalidate_cwd` goes by: the links of the host and the allowed
roots may change between any two steps.  The history holds which directories were accepted and
in which ones tools were started, and never changes what a process does.
-/

set_option autoImplicit false

namespace Discode.WorkspacePaths

/-- What `revalidate_cwd` goes by at a time. -/
structure Policy where
  realpath : PyStr → RealPath
  allowedRoots : List AllowedRoot

def Policy.revalidate (policy : Policy) (cwd : PyStr) (guildId : GuildId) (ownerId : UserId)
    (hostId : HostId) : Except CwdDenial PyStr :=
  revalidateCwd policy.realpath policy.allowedRoots cwd guildId ownerId hostId

inductive CwdEvent where
  /-- `revalidate_cwd` has accepted `cwd`, as `real`. -/
  | accepted (pid : ℕ) (policy : Policy) (cwd : PyStr) (guildId : GuildId) (ownerId : UserId)
      (hostId : HostId) (real : PyStr)
  | started (pid : ℕ) (cwd : Option PyStr)

structure Guarded where
  world : World
  /-- The newest event comes first. -/
  log : List CwdEvent

/-- A process with the `cwd` of its entry. -/
structure GuardedProcess where
  process : Process
  cwd : Option PyStr

section

variable (pathText : Path → PyStr) (pid : ℕ) (policy : Policy)

/-- The check of a handler that has read `row`, and its answer. -/
def revalidateRow (p : InputHandler) (cwd : Option PyStr) (row : SessionRow) :
    Bool → Option (List CwdEvent × Option PyStr)
  | denied =>
      let path := pathText row.cwdRealpath
      match policy.revalidate path p.payload.guildId row.ownerId p.payload.hostId, denied with
      | .ok real, false => some ([.accepted pid policy path p.payload.guildId row.ownerId
          p.payload.hostId real], some real)
      | .error _, true => some ([], cwd)
      | _, _ => none

/-- What a step of a handler adds to the history, and the `cwd` of its entry afterwards. -/
def handlerCwd (p : InputHandler) (cwd : Option PyStr) :
    InputAction → Option (List CwdEvent × Option PyStr)
  | .revalidate denied => match p.stage with
      | .revalidate row => revalidateRow pathText pid policy p cwd row denied
      | _ => none
  | .start => some ([.started pid cwd], cwd)
  | _ => some ([], cwd)

def processCwd (p : GuardedProcess) (a : ExecAction) : Option (List CwdEvent × Option PyStr) :=
  match p.process, a with
  | .input h, .input a => handlerCwd pathText pid policy h p.cwd a
  | _, _ => some ([], p.cwd)

end

/-- The system; a step of a process comes with the policy at its time. -/
def guarded (pathText : Path → PyStr) :
    ProcessPool.Machine Guarded GuardedProcess EnvAction SpawnAction (Policy × ExecAction) where
  env s e := (system.env s.world e).map fun w ↦ { s with world := w }
  spawn pid s n := (system.spawn pid s.world n).map fun r ↦ ({ s with world := r.1 }, ⟨r.2, none⟩)
  exec pid s p a := (system.exec pid s.world p.process a.2).bind fun r ↦
    (processCwd pathText pid a.1 p a.2).map fun o ↦
      (⟨r.1, o.1 ++ s.log⟩, r.2.map fun process ↦ ⟨process, o.2⟩)

def FreshGuarded (s : Guarded) : Prop := FreshWorld s.world ∧ s.log = []

/-! ## The check and the start -/

/-- The job has had the directory accepted. -/
def Accepted (pid : ℕ) (real : PyStr) (log : List CwdEvent) : Prop :=
  ∃ policy cwd guildId ownerId hostId,
    .accepted pid policy cwd guildId ownerId hostId real ∈ log ∧
      policy.revalidate cwd guildId ownerId hostId = .ok real

theorem Accepted.mono {pid : ℕ} {real : PyStr} {log : List CwdEvent} (h : Accepted pid real log)
    (newer : List CwdEvent) : Accepted pid real (newer ++ log) := by
  obtain ⟨policy, cwd, guildId, ownerId, hostId, hin, hok⟩ := h
  exact ⟨policy, cwd, guildId, ownerId, hostId, List.mem_append_right newer hin, hok⟩

/-- The handler is past the check and has not started the tool. -/
def isChecked : InputStage → Bool
  | .persistIntent _ => true
  | .admitted _ => true
  | _ => false

theorem isChecked_onRespond {stage stage' : InputStage} {response : Response}
    (h : InputHandler.onRespond stage response = some stage') : isChecked stage' = false := by
  cases stage with
  | uncertainPosted => cases response <;> cases h <;> rfl
  | deniedPosted => cases h; rfl
  | posted =>
      cases response with
      | ok => cases h; rfl
      | replyError status =>
          simp only [InputHandler.onRespond] at h
          split at h <;> cases h <;> rfl
      | failed => cases h; rfl
  | _ => cases h

/-- A handler gets past the check by an accepting answer, or was past it before. -/
theorem isChecked_step {pid : ℕ} {w w' : World} {p q : InputHandler} {a : InputAction}
    (h : p.step pid w a = some (w', some q)) (hq : isChecked q.stage = true) :
    (∃ row, p.stage = .revalidate row ∧ a = .revalidate false) ∨
      isChecked p.stage = true ∧ a = .persistIntent := by
  cases a with
  | lock collision =>
      simp only [InputHandler.step] at h
      split at h
      · split at h <;> cases h <;> cases hq
      · cases h
  | readSession =>
      simp only [InputHandler.step] at h
      split at h
      · split at h <;> cases h <;> cases hq
      · cases h
  | readEarliest =>
      simp only [InputHandler.step] at h
      split at h <;> cases h
      rename_i row turn hstage
      simp only [InputHandler.at_, InputJobPayload.resolve] at hq
      split at hq
      · cases hq
      · cases turn with
        | none => cases hq
        | some t =>
            dsimp only at hq
            split at hq
            · cases hq
            · split at hq <;> cases hq
  | revalidate denied =>
      simp only [InputHandler.step] at h
      split at h <;> cases h
      rename_i row hstage
      cases denied with
      | true => cases hq
      | false => exact .inl ⟨row, hstage, rfl⟩
  | persistIntent =>
      simp only [InputHandler.step] at h
      split at h
      · rename_i row hstage
        exact .inr ⟨by rw [hstage]; rfl, rfl⟩
      · cases h
  | post =>
      obtain ⟨⟨version, replyKey, text, stage⟩, hposting, he⟩ := Option.map_eq_some_iff.mp h
      cases he
      unfold InputHandler.posting at hposting
      split at hposting <;> cases hposting <;> cases hq
  | respond response =>
      obtain ⟨stage, hstage, he⟩ := Option.map_eq_some_iff.mp h
      cases he
      rw [InputHandler.at_, isChecked_onRespond hstage] at hq
      cases hq
  | acknowledge =>
      simp only [InputHandler.step] at h
      split at h
      · cases h
      · cases h
  | readTurn | markUncertain | markAborted | start | failToStart reply | finish reply token
  | record | mark | leave =>
      simp only [InputHandler.step] at h
      split at h <;> cases h
      cases hq

theorem step_of_input {pid : ℕ} {w : World} {p : Process} {h : InputHandler} {a : InputAction}
    {r : World × Option Process} (hp : p = .input h)
    (hs : execStep pid w p (.input a) = some r) : ∃ next, h.step pid w a = some next := by
  subst hp
  obtain ⟨next, hnext, -⟩ := Option.map_eq_some_iff.mp hs
  exact ⟨next, hnext⟩

/-- Only a handler becomes a handler. -/
theorem input_of_execStep {pid : ℕ} {w w' : World} {p : Process} {a : ExecAction}
    {next : InputHandler} (h : execStep pid w p a = some (w', some (.input next))) :
    ∃ before action, p = .input before ∧ a = .input action ∧
      before.step pid w action = some (w', some next) := by
  generalize hq : some (Process.input next) = q at h
  cases execStep_cases h with
  | @input before action _ q hstep =>
      obtain ⟨after, rfl, he⟩ := Option.map_eq_some_iff.mp hq.symm
      cases he
      exact ⟨before, action, rfl, rfl, hstep⟩
  | reply hstep =>
      obtain ⟨⟨s, after⟩, -, he⟩ := Option.map_eq_some_iff.mp hstep
      cases he
      cases hq
  | crash | release | sweep => cases hq
  | _ =>
      obtain ⟨after, -, he⟩ := Option.map_eq_some_iff.mp hq.symm
      cases he

theorem admitted_of_start {pid : ℕ} {w : World} {p : InputHandler}
    {r : World × Option InputHandler} (h : p.step pid w .start = some r) :
    isChecked p.stage = true := by
  simp only [InputHandler.step] at h
  split at h
  · rename_i row hstage
    rw [hstage]
    rfl
  · cases h

/-- The directory of a handler that is past the check was accepted. -/
def CheckedCwd (pid : ℕ) (p : GuardedProcess) (s : Guarded) : Prop :=
  ∀ h, p.process = .input h → isChecked h.stage = true →
    ∃ real, p.cwd = some real ∧ Accepted pid real s.log

/-- Tools were started in directories that were accepted before. -/
def StartsAccepted (s : Guarded) : Prop :=
  ∀ newer older pid cwd, s.log = newer ++ .started pid cwd :: older →
    ∃ real, cwd = some real ∧ Accepted pid real older

theorem CheckedCwd.mono {pid : ℕ} {p : GuardedProcess} {s s' : Guarded} (h : CheckedCwd pid p s)
    {newer : List CwdEvent} (hlog : s'.log = newer ++ s.log) : CheckedCwd pid p s' := by
  intro handler hp hchecked
  obtain ⟨real, hcwd, hin⟩ := h handler hp hchecked
  exact ⟨real, hcwd, hlog ▸ hin.mono newer⟩

theorem StartsAccepted.accepted {s s' : Guarded} (h : StartsAccepted s) {pid' : ℕ}
    {policy : Policy} {path : PyStr} {guildId : GuildId} {ownerId : UserId} {hostId : HostId}
    {real : PyStr}
    (hlog : s'.log = .accepted pid' policy path guildId ownerId hostId real :: s.log) :
    StartsAccepted s' := by
  intro newer older pid cwd hsplit
  rw [hlog] at hsplit
  cases newer with
  | nil => cases hsplit
  | cons e newer => exact h newer older pid cwd (List.cons.inj hsplit).2

theorem StartsAccepted.started {s s' : Guarded} (h : StartsAccepted s) {pid' : ℕ}
    {cwd' : Option PyStr} (hnew : ∃ real, cwd' = some real ∧ Accepted pid' real s.log)
    (hlog : s'.log = .started pid' cwd' :: s.log) : StartsAccepted s' := by
  intro newer older pid cwd hsplit
  rw [hlog] at hsplit
  cases newer with
  | nil =>
      cases hsplit
      exact hnew
  | cons e newer => exact h newer older pid cwd (List.cons.inj hsplit).2

/-- What a step of a process does about its directory. -/
inductive CwdStep (pathText : Path → PyStr) (pid : ℕ) (policy : Policy) (p : GuardedProcess) :
    ExecAction → List CwdEvent → Option PyStr → Prop where
  | accepted {h : InputHandler} {row : SessionRow} {real : PyStr} (hp : p.process = .input h)
      (hok : policy.revalidate (pathText row.cwdRealpath) h.payload.guildId row.ownerId
        h.payload.hostId = .ok real) :
      CwdStep pathText pid policy p (.input (.revalidate false))
        [.accepted pid policy (pathText row.cwdRealpath) h.payload.guildId row.ownerId
          h.payload.hostId real] (some real)
  | started {h : InputHandler} (hp : p.process = .input h) :
      CwdStep pathText pid policy p (.input .start) [.started pid p.cwd] p.cwd
  | stay {a : ExecAction} (haccept : ∀ h, p.process = .input h → a ≠ .input (.revalidate false)) :
      CwdStep pathText pid policy p a [] p.cwd

theorem cwdStep_of_processCwd {pathText : Path → PyStr} {pid : ℕ} {policy : Policy}
    {p : GuardedProcess} {a : ExecAction} {o : List CwdEvent × Option PyStr}
    (h : processCwd pathText pid policy p a = some o) : CwdStep pathText pid policy p a o.1 o.2 := by
  obtain ⟨process, cwd⟩ := p
  unfold processCwd at h
  dsimp only at h
  split at h
  · rename_i handler action
    cases action with
    | revalidate denied =>
        simp only [handlerCwd] at h
        split at h
        · rename_i row hstage
          unfold revalidateRow at h
          dsimp only at h
          split at h
          · rename_i real hok
            cases h
            exact .accepted rfl hok
          · cases h
            exact .stay fun _ _ he ↦ nomatch he
          · cases h
        · cases h
    | start =>
        cases h
        exact .started rfl
    | _ =>
        cases h
        exact .stay fun _ _ he ↦ nomatch he
  · rename_i hother
    cases h
    refine .stay fun handler hp he ↦ ?_
    exact hother handler _ hp he

theorem guarded_proof (pathText : Path → PyStr) : ProcessPool.Machine.Proof (guarded pathText)
    (fun _ _ ↦ True) StartsAccepted CheckedCwd where
  env σ e s h _ hs := by
    obtain ⟨w, -, rfl⟩ := Option.map_eq_some_iff.mp hs
    exact ⟨h.inv, fun pid p hp ↦ hp⟩
  spawn σ n s p h _ hs := by
    obtain ⟨⟨w, process⟩, hw, he⟩ := Option.map_eq_some_iff.mp hs
    cases he
    have hspawn : spawnStep σ.next σ.shared.world n = some (w, process) := hw
    refine ⟨h.inv, fun handler hp hchecked ↦ ?_, fun _ _ _ hr ↦ hr⟩
    cases hp
    cases (spawnStep_cases hspawn).2
    cases hchecked
  exec σ pid p a s p' h _ hp hs := by
    obtain ⟨policy, action⟩ := a
    obtain ⟨⟨w, q⟩, hw, ho⟩ := Option.bind_eq_some_iff.mp hs
    obtain ⟨⟨events, cwd⟩, hcwd, he⟩ := Option.map_eq_some_iff.mp ho
    cases he
    have hown := h.assert pid p hp
    have hstep := cwdStep_of_processCwd hcwd
    refine ⟨?_, fun r hr handler hhandler hchecked ↦ ?_, fun q r _ hr ↦ hr.mono rfl⟩
    · cases hstep with
      | accepted hp hok => exact h.inv.accepted rfl
      | started hprocess =>
          obtain ⟨next, hnext⟩ := step_of_input hprocess hw
          exact h.inv.started (hown _ hprocess (admitted_of_start hnext)) rfl
      | stay => exact h.inv
    · obtain ⟨process, rfl, rfl⟩ := Option.map_eq_some_iff.mp hr
      cases hhandler
      obtain ⟨before, action, hprocess, rfl, hnext⟩ := input_of_execStep hw
      cases hstep with
      | accepted hprocess' hok =>
          exact ⟨_, rfl, _, _, _, _, _, List.mem_cons_self, hok⟩
      | started hprocess' =>
          obtain ⟨row, -, he⟩ | ⟨-, he⟩ := isChecked_step hnext hchecked <;> cases he
      | stay haccept =>
          obtain ⟨row, -, rfl⟩ | ⟨hbefore, -⟩ := isChecked_step hnext hchecked
          · exact absurd rfl (haccept before hprocess)
          · exact hown before hprocess hbefore

/-! ## Tools start in accepted directories -/

theorem guarded_annotated {pathText : Path → PyStr} {σ : ProcessPool.State Guarded GuardedProcess}
    (h : (guarded pathText).Reachable FreshGuarded σ) :
    ProcessPool.Machine.Annotated StartsAccepted CheckedCwd σ := by
  refine (guarded_proof pathText).annotated (fun s hs ↦ ?_) h
  intro newer older pid cwd hsplit
  rw [hs.2] at hsplit
  cases newer <;> cases hsplit

/-- `revalidate_cwd` is the policy on components, `validate_workspace` takes the same decision
for a directory on a host that is online, and no tool is started in a directory that its job has
not had accepted before. -/
theorem workspace_containment {pathText : Path → PyStr}
    {σ : ProcessPool.State Guarded GuardedProcess}
    (h : (guarded pathText).Reachable FreshGuarded σ) :
    (∀ (realpath : PyStr → RealPath) (allowedRoots : List AllowedRoot) (cwd : PyStr)
      (guildId : GuildId) (ownerId : UserId) (hostId : HostId) (real : PyStr),
      revalidateCwd realpath allowedRoots cwd guildId ownerId hostId = .ok real ↔
        (Permitted (realpath cwd) ∧ Rooted allowedRoots guildId ownerId hostId (realpath cwd)) ∧
          real = (realpath cwd).render) ∧
    (∀ (fs : FileSystem) (host : Option RunnerHost) (allowedRoots : List AllowedRoot)
      (cwd : PyStr) (guildId : GuildId) (ownerId : UserId) (hostId : HostId) (real : PyStr),
      validateWorkspace (.answer (canonicalizePath fs cwd)) host allowedRoots guildId ownerId
          hostId = .ok real ↔
        revalidateCwd fs.realpath allowedRoots cwd guildId ownerId hostId = .ok real ∧
          fs.isdir (fs.realpath cwd).render = true ∧
          ∃ row, host = some row ∧ row.online = true) ∧
    ∀ newer older pid cwd, σ.shared.log = newer ++ .started pid cwd :: older →
      ∃ real, cwd = some real ∧ Accepted pid real older :=
  ⟨fun _ _ _ _ _ _ _ ↦ revalidateCwd_eq_ok, fun _ _ _ _ _ _ _ _ ↦ validateWorkspace_eq_ok,
    (guarded_annotated h).inv⟩

/-- Everything is in one directory, and its parent is an allowed root of guild 1 on host 5. -/
def srvPolicy : Policy where
  realpath _ := ⟨[pyStr "srv", pyStr "work"], by decide, by decide⟩
  allowedRoots := [⟨some 1, none, 5, ⟨[pyStr "srv"], by decide, by decide⟩⟩]

/-- The actions of a run under a policy that does not change. -/
def underPolicy (policy : Policy) (actions : List SystemAction) :
    List (ProcessPool.Action EnvAction SpawnAction (Policy × ExecAction)) :=
  actions.map fun
    | .env e => .env e
    | .spawn n => .spawn n
    | .exec pid a => .exec pid (policy, a)

def startRun : List SystemAction :=
  openRun 0 1 7 (pyStr "demo") 1 none none ++ inputRun 3 100 1 1 ++ admitRun 4 ++
    [.exec 4 (.input .start)]

def startState : ProcessPool.State Guarded GuardedProcess :=
  ((guarded fun _ ↦ []).run (.start ⟨deployment, []⟩) (underPolicy srvPolicy startRun)).get
    (by decide +kernel)

def CwdEvent.started? : CwdEvent → Option (ℕ × Option PyStr)
  | .started pid cwd => some (pid, cwd)
  | .accepted .. => none

theorem startState_log : ∃ older,
    startState.shared.log = .started 4 (some (pyStr "/srv/work")) :: older := by
  have hhead : startState.shared.log.head?.bind CwdEvent.started? =
      some (4, some (pyStr "/srv/work")) := by
    decide +kernel
  obtain ⟨e, he, hstarted⟩ := Option.bind_eq_some_iff.mp hhead
  obtain ⟨older, hlog⟩ := List.head?_eq_some_iff.mp he
  cases e with
  | started pid cwd =>
      cases hstarted
      exact ⟨older, hlog⟩
  | accepted => cases hstarted

theorem workspace_containment_started : ∃ older,
    startState.shared.log = .started 4 (some (pyStr "/srv/work")) :: older ∧
      Accepted 4 (pyStr "/srv/work") older := by
  obtain ⟨older, hlog⟩ := startState_log
  have hreach : (guarded fun _ ↦ []).Reachable FreshGuarded startState :=
    ProcessPool.Machine.reachable_of_run ⟨deployment_fresh, rfl⟩ (Option.some_get _).symm
  obtain ⟨real, hreal, haccepted⟩ := (workspace_containment hreach).2.2 [] older 4 _ hlog
  cases hreal
  exact ⟨older, hlog, haccepted⟩

end Discode.WorkspacePaths

import Discode.Library.ProcessPool
import Mathlib.Data.List.Induction

/-!
# What a process has seen

A process checks something and acts on it later, when it may no longer hold.  Facts that the
local states record are traced back to the states of the run they were read in.
-/

set_option autoImplicit false

namespace ProcessPool.Machine

variable {S P E N A F K : Type*} {M : Machine S P E N A} {init : S → Prop}

theorem run_append (σ : State S P) (as bs : List (Action E N A)) :
    M.run σ (as ++ bs) = (M.run σ as).bind fun ρ ↦ M.run ρ bs := by
  induction as generalizing σ with
  | nil => rfl
  | cons a as ih =>
      change (M.step σ a).bind (fun τ ↦ M.run τ (as ++ bs)) =
        ((M.step σ a).bind fun τ ↦ M.run τ as).bind fun ρ ↦ M.run ρ bs
      rw [Option.bind_assoc]
      exact congrArg _ (funext ih)

theorem run_singleton (σ : State S P) (a : Action E N A) : M.run σ [a] = M.step σ a := by
  change (M.step σ a).bind some = _
  exact Option.bind_fun_some _

variable (M init) in
/-- A run from a start, with the actions that it took. -/
structure Run where
  start : S
  begins : init start
  actions : List (Action E N A)
  last : State S P
  performs : M.run (.start start) actions = some last

namespace Run

def empty {s : S} (hs : init s) : M.Run init := ⟨s, hs, [], .start s, rfl⟩

variable (r : M.Run init) {a : Action E N A} {τ : State S P}

/-- The run goes on for a step. -/
def next (h : M.step r.last a = some τ) : M.Run init where
  start := r.start
  begins := r.begins
  actions := r.actions ++ [a]
  last := τ
  performs := by rw [run_append, r.performs, Option.bind_some, run_singleton, h]

theorem induction {C : M.Run init → Prop} (hempty : ∀ s (hs : init s), C (.empty hs))
    (hnext : ∀ (r : M.Run init) a τ (h : M.step r.last a = some τ), C r → C (r.next h)) : C r := by
  obtain ⟨s, hs, as, σ, hrun⟩ := r
  induction as using List.reverseRecOn generalizing σ with
  | nil =>
      cases hrun
      exact hempty s hs
  | append_singleton as a ih =>
      have hstep := hrun
      rw [run_append] at hstep
      obtain ⟨ρ, hρ, hstep⟩ := Option.bind_eq_some_iff.mp hstep
      rw [run_singleton] at hstep
      exact hnext ⟨s, hs, as, ρ, hρ⟩ a σ hstep (ih ρ hρ)

/-- Every reachable state is the last one of a run. -/
theorem of_reachable {σ : State S P} (h : M.Reachable init σ) : ∃ r : M.Run init, r.last = σ := by
  obtain ⟨s, hs, hreach⟩ := h
  induction hreach with
  | refl => exact ⟨.empty hs, rfl⟩
  | tail _ hstep ih =>
      obtain ⟨r, rfl⟩ := ih
      obtain ⟨a, -, hstep⟩ := hstep
      exact ⟨r.next hstep, rfl⟩

/-- The run has passed a state that meets `Q`. -/
def Earlier (Q : State S P → Prop) : Prop :=
  ∃ before after ρ, r.actions = before ++ after ∧ M.run (.start r.start) before = some ρ ∧ Q ρ

variable {r} {Q : State S P → Prop}

theorem Earlier.now (h : Q r.last) : r.Earlier Q :=
  ⟨r.actions, [], r.last, (List.append_nil _).symm, r.performs, h⟩

theorem Earlier.next (h : r.Earlier Q) (hstep : M.step r.last a = some τ) :
    (r.next hstep).Earlier Q := by
  obtain ⟨before, after, ρ, hactions, hρ, hq⟩ := h
  refine ⟨before, after ++ [a], ρ, ?_, hρ, hq⟩
  change r.actions ++ [a] = _
  rw [hactions, List.append_assoc]

end Run

/-- The facts that local states record are read: a new process has none but what holds when it
begins, and a step adds none but what holds before it.  A fact says something about what the process
serves, which its steps leave as it is. -/
structure Reads (M : Machine S P E N A) (serves : P → K) (Records : P → F → Prop)
    (Holds : S → K → F → Prop) : Prop where
  spawn : ∀ (σ : State S P) n s p f, M.spawn σ.next σ.shared n = some (s, p) →
    Records p f → Holds s (serves p) f
  exec : ∀ (σ : State S P) pid p a s q f, M.exec pid σ.shared p a = some (s, some q) →
    Records q f → Holds σ.shared (serves p) f ∨ Records p f
  serves : ∀ (σ : State S P) pid p a s q, M.exec pid σ.shared p a = some (s, some q) →
    serves q = serves p

/-- What a process records was so earlier in the run, when the process was under way and served the
same. -/
theorem Reads.earlier {serves : P → K} {Records : P → F → Prop} {Holds : S → K → F → Prop}
    (hM : Reads M serves Records Holds) (r : M.Run init) :
    ∀ pid p f, r.last.procs pid = some p → Records p f → r.Earlier fun ρ ↦
      ∃ q, ρ.procs pid = some q ∧ serves q = serves p ∧ Holds ρ.shared (serves p) f := by
  induction r using Run.induction with
  | hempty s hs =>
      intro pid p f hp
      cases hp
  | hnext r a τ hstep ih =>
      intro pid p f hp hf
      rcases step_procs hstep hp with hold | ⟨n, rfl, rfl, hspawn⟩ | ⟨b, q, rfl, hq, hexec⟩
      · exact (ih pid p f hold hf).next hstep
      · exact .now ⟨p, hp, rfl, hM.spawn r.last n τ.shared p f hspawn hf⟩
      · rw [hM.serves r.last pid q b τ.shared p hexec]
        rcases hM.exec r.last pid q b τ.shared p f hexec hf with hnow | hrec
        · exact Run.Earlier.next (Run.Earlier.now ⟨q, hq, rfl, hnow⟩) hstep
        · exact (ih pid q f hq hrec).next hstep

end ProcessPool.Machine

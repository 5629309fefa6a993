import Discode.Library.ProcessPool

/-!
# Pools that are watched

A machine whose shared state also records what its steps show.  Without the record, its runs are
those of the machine.
-/

set_option autoImplicit false

namespace ProcessPool

variable {S P E N A O : Type*}

/-- The state without the record. -/
def State.forget (σ : State (S × List O) P) : State S P := ⟨σ.shared.1, σ.procs, σ.next⟩

namespace Machine

/-- The machine with a record of what its steps show, the newest first. -/
def observed (M : Machine S P E N A) (envShows : S → E → List O)
    (execShows : ℕ → S → P → A → S → List O) : Machine (S × List O) P E N A where
  env w e := (M.env w.1 e).map fun s ↦ (s, envShows w.1 e ++ w.2)
  spawn pid w n := (M.spawn pid w.1 n).map fun r ↦ ((r.1, w.2), r.2)
  exec pid w p a := (M.exec pid w.1 p a).map fun r ↦ ((r.1, execShows pid w.1 p a r.1 ++ w.2), r.2)

variable {M : Machine S P E N A} {envShows : S → E → List O}
  {execShows : ℕ → S → P → A → S → List O}

/-- The record changes nothing about the steps. -/
theorem observed_step (σ : State (S × List O) P) (a : Action E N A) :
    ((M.observed envShows execShows).step σ a).map State.forget = M.step σ.forget a := by
  cases a with
  | env e =>
      simp only [step, observed, Option.map_map]
      rfl
  | spawn n =>
      simp only [step, observed, Option.map_map]
      rfl
  | exec pid b =>
      simp only [step, observed, State.forget, Option.map_bind]
      cases σ.procs pid with
      | none => rfl
      | some p =>
          simp only [Option.bind_some, Function.comp_apply, Option.map_map]
          rfl

theorem observed_reaches {ok : State (S × List O) P → Action E N A → Prop}
    {σ τ : State (S × List O) P} (h : (M.observed envShows execShows).ReachesWhen ok σ τ) :
    M.Reaches σ.forget τ.forget := by
  induction h with
  | refl => exact .refl
  | tail _ hst ih =>
      obtain ⟨a, -, hs⟩ := hst
      refine ih.trans (Reaches.of_step (a := a) ?_)
      rw [← observed_step, hs]
      rfl

end Machine

end ProcessPool

import Mathlib.Logic.Relation
import Mathlib.Data.Nat.Notation

/-!
# Transition systems with a history

A system with a partial step function, its runs from the initial states, the invariant
rule, and properties of every event of a history relative to the events before it.
-/

set_option autoImplicit false

structure TransitionSystem (S A : Type*) where
  init : S → Prop
  step : S → A → Option S

namespace TransitionSystem

variable {S A : Type*} (M : TransitionSystem S A)

def run (s : S) : List A → Option S
  | [] => some s
  | a :: as => (M.step s a).bind fun t ↦ run t as

def Step (s t : S) : Prop := ∃ a, M.step s a = some t

def Reachable (s : S) : Prop := ∃ s₀, M.init s₀ ∧ Relation.ReflTransGen M.Step s₀ s

variable {M}

theorem reaches_of_run {as : List A} {s t : S} (h : M.run s as = some t) :
    Relation.ReflTransGen M.Step s t := by
  induction as generalizing s with
  | nil =>
      cases h
      exact .refl
  | cons a as ih =>
      obtain ⟨u, hu, hrun⟩ := Option.bind_eq_some_iff.mp h
      exact .head ⟨a, hu⟩ (ih hrun)

theorem reachable_of_run {as : List A} {s t : S} (hs : M.init s) (h : M.run s as = some t) :
    M.Reachable t :=
  ⟨s, hs, reaches_of_run h⟩

theorem Reachable.invariant {I : S → Prop} {s : S} (h : M.Reachable s)
    (hinit : ∀ s, M.init s → I s)
    (hstep : ∀ s t a, I s → M.step s a = some t → I t) : I s := by
  obtain ⟨s₀, hs₀, hreach⟩ := h
  induction hreach with
  | refl => exact hinit s₀ hs₀
  | tail _ hst ih =>
      obtain ⟨a, ha⟩ := hst
      exact hstep _ _ a ih ha

end TransitionSystem

/-- Every event of a history, the newest first, is as it should be after the earlier ones. -/
def EveryEvent {E : Type*} (P : List E → E → Prop) : List E → Prop
  | [] => True
  | e :: earlier => P earlier e ∧ EveryEvent P earlier

theorem EveryEvent.split {E : Type*} {P : List E → E → Prop} {log later earlier : List E} {e : E}
    (h : EveryEvent P log) (hlog : log = later ++ e :: earlier) : P earlier e := by
  induction later generalizing log with
  | nil =>
      subst hlog
      exact h.1
  | cons e' later ih =>
      subst hlog
      exact ih h.2 rfl

theorem EveryEvent.of_mem {E : Type*} {P : List E → E → Prop} {log : List E} {e : E}
    (h : EveryEvent P log) (he : e ∈ log) : ∃ later earlier, log = later ++ e :: earlier ∧
      P earlier e := by
  obtain ⟨later, earlier, hlog⟩ := List.append_of_mem he
  exact ⟨later, earlier, hlog, h.split hlog⟩

import Discode.Library.Coroutine
import Mathlib.Logic.Function.Basic
import Mathlib.Logic.Relation

/-!
# Services that share a world

Copies of one service run at the same time, start when they like and are killed anywhere.  The
answers to their calls change the world they share, and so do its other users.  The rule puts
together what each copy ensures alone: what one copy does must be what the others allow for.
-/

set_option autoImplicit false

universe u

/-- What becomes of a call. -/
abbrev Coroutine.Fate (ε α : Type u) := Outcome ε α

namespace Service

variable {C : Type u} {R : C → Type u} {ε σ β W : Type u}

structure Pool (C : Type u) (R : C → Type u) (ε σ β W : Type u) where
  world : W
  tasks : ℕ → Option (Phase C R ε σ β)

namespace Pool

def put (p : Pool C R ε σ β W) (task : ℕ) (phase : Option (Phase C R ε σ β)) :
    Pool C R ε σ β W :=
  { p with tasks := Function.update p.tasks task phase }

def start (w : W) : Pool C R ε σ β W := ⟨w, fun _ ↦ none⟩

/-- One step of the pool. -/
inductive Step (M : Service C R ε σ β) (env : Environment C R ε W) (others : W → W → Prop)
    (s₀ : σ) : Pool C R ε σ β W → Pool C R ε σ β W → Prop where
  | others {p : Pool C R ε σ β W} {w : W} (h : others p.world w) :
      Step M env others s₀ p { p with world := w }
  | starts {p : Pool C R ε σ β W} {n : ℕ} (h : p.tasks n = none) :
      Step M env others s₀ p (p.put n (some (.looping (M.body s₀))))
  | answered {p : Pool C R ε σ β W} {n : ℕ} {c : C}
      {resume : Outcome ε (R c) → Coroutine C R ε (σ ⊕ β)} {o : Outcome ε (R c)} {w : W}
      (h : p.tasks n = some (.looping (.call c resume))) (ha : env.answers p.world c o w) :
      Step M env others s₀ p (put { p with world := w } n (some (.looping (resume o))))
  | answeredLast {p : Pool C R ε σ β W} {n : ℕ} {c : C}
      {resume : Outcome ε (R c) → Coroutine C R ε β} {o : Outcome ε (R c)} {w : W}
      (h : p.tasks n = some (.finishing (.call c resume))) (ha : env.answers p.world c o w) :
      Step M env others s₀ p (put { p with world := w } n (some (.finishing (resume o))))
  | ended {p : Pool C R ε σ β W} {n : ℕ} {o : Outcome ε (σ ⊕ β)}
      (h : p.tasks n = some (.looping (.ends o))) :
      Step M env others s₀ p (p.put n (some (M.afterwards o)))
  | killed {p : Pool C R ε σ β W} {n : ℕ} : Step M env others s₀ p (p.put n none)

def Reachable (M : Service C R ε σ β) (env : Environment C R ε W) (others : W → W → Prop)
    (s₀ : σ) (init : W → Prop) (p : Pool C R ε σ β W) : Prop :=
  ∃ w, init w ∧ Relation.ReflTransGen (Step M env others s₀) (.start w) p

end Pool

/-! ## The rule -/

/-- What has to hold for the copies to be put together, under an invariant `J` of the world. -/
structure Composes (M : Service C R ε σ β) (env : Environment C R ε W) (others : W → W → Prop)
    (s₀ : σ) (G : W → (c : C) → Outcome ε (R c) → W → Prop) (I : σ → W → Prop)
    (Q : Outcome ε β → W → Prop) (J : W → Prop) : Prop where
  refl : ∀ w, J w → env.interferes w w
  trans : ∀ w w' w'', env.interferes w w' → env.interferes w' w'' → env.interferes w w''
  others : ∀ w w', J w → others w w' → env.interferes w w' ∧ J w'
  answers : ∀ w c o w', J w → env.answers w c o w' → G w c o w' → env.interferes w w' ∧ J w'
  start : ∀ w, J w → I s₀ w
  body : ∀ s w, I s w → (M.body s).Ensures env G w (M.Iterated env G I Q)
  stable : ∀ s w w', env.interferes w w' → I s w → I s w'
  last : ∀ o w w', env.interferes w w' → Q o w → Q o w'

section Rule

variable {M : Service C R ε σ β} {env : Environment C R ε W} {others : W → W → Prop} {s₀ : σ}
  {G : W → (c : C) → Outcome ε (R c) → W → Prop} {I : σ → W → Prop} {Q : Outcome ε β → W → Prop}
  {J : W → Prop}

/-- What is left of a coroutine ensures the same after the others took steps. -/
theorem ensures_interferes {α : Type u} {p : Coroutine C R ε α} {Q' : Outcome ε α → W → Prop}
    (htrans : ∀ w w' w'', env.interferes w w' → env.interferes w' w'' → env.interferes w w'')
    (hQ : ∀ o w w', env.interferes w w' → Q' o w → Q' o w') {w w' : W}
    (hi : env.interferes w w') (h : p.Ensures env G w Q') : p.Ensures env G w' Q' := by
  cases p with
  | ends o => exact hQ o w w' hi h
  | call c resume => exact fun w₁ o w₂ hi₁ ha ↦ h w₁ o w₂ (htrans w w' w₁ hi hi₁) ha

theorem Composes.iterated (hM : Composes M env others s₀ G I Q J) (o : Outcome ε (σ ⊕ β))
    (w w' : W) (hi : env.interferes w w') (h : M.Iterated env G I Q o w) :
    M.Iterated env G I Q o w' := by
  unfold Iterated at h ⊢
  split at h
  · exact hM.stable _ w w' hi h
  · exact ensures_interferes hM.trans hM.last hi h

theorem Composes.interferes (hM : Composes M env others s₀ G I Q J)
    {phase : Phase C R ε σ β} {w w' : W} (hi : env.interferes w w')
    (h : phase.Ensures M env G I Q w) : phase.Ensures M env G I Q w' := by
  cases phase with
  | looping p => exact ensures_interferes hM.trans hM.iterated hi h
  | finishing p => exact ensures_interferes hM.trans hM.last hi h

/-- The world keeps its invariant, and each task what it ensures. -/
structure Composed (M : Service C R ε σ β) (env : Environment C R ε W)
    (G : W → (c : C) → Outcome ε (R c) → W → Prop) (I : σ → W → Prop)
    (Q : Outcome ε β → W → Prop) (J : W → Prop) (p : Pool C R ε σ β W) : Prop where
  world : J p.world
  tasks : ∀ task phase, p.tasks task = some phase → phase.Ensures M env G I Q p.world

theorem Composed.put {p : Pool C R ε σ β W} (h : Composed M env G I Q J p) (task : ℕ)
    {phase : Phase C R ε σ β} (hphase : phase.Ensures M env G I Q p.world) :
    Composed M env G I Q J (p.put task (some phase)) := by
  refine ⟨h.world, fun other phase' hother ↦ ?_⟩
  simp only [Pool.put, Function.update_apply] at hother
  split at hother
  · cases hother
    exact hphase
  · exact h.tasks other phase' hother

theorem Composed.world' {p : Pool C R ε σ β W} (hM : Composes M env others s₀ G I Q J)
    (h : Composed M env G I Q J p) {w : W} (hw : env.interferes p.world w ∧ J w) :
    Composed M env G I Q J { p with world := w } :=
  ⟨hw.2, fun task phase hphase ↦ hM.interferes hw.1 (h.tasks task phase hphase)⟩

theorem Composed.step {p q : Pool C R ε σ β W} (hM : Composes M env others s₀ G I Q J)
    (h : Composed M env G I Q J p) (hstep : Pool.Step M env others s₀ p q) :
    Composed M env G I Q J q := by
  cases hstep with
  | others hothers => exact h.world' hM (hM.others _ _ h.world hothers)
  | @starts task hfree => exact h.put task (hM.body s₀ _ (hM.start _ h.world))
  | @answered task c resume o w htask ha =>
      have hnext := h.tasks task _ htask _ o w (hM.refl _ h.world) ha
      exact (h.world' hM (hM.answers _ _ _ _ h.world ha hnext.1)).put task hnext.2
  | @answeredLast task c resume o w htask ha =>
      have hnext := h.tasks task _ htask _ o w (hM.refl _ h.world) ha
      exact (h.world' hM (hM.answers _ _ _ _ h.world ha hnext.1)).put task hnext.2
  | @ended task o htask => exact h.put task (ensures_afterwards hM.body (h.tasks task _ htask))
  | @killed task =>
      refine ⟨h.world, fun other phase hother ↦ ?_⟩
      simp only [Pool.put, Function.update_apply] at hother
      split at hother
      · cases hother
      · exact h.tasks other phase hother

theorem Composes.reachable (hM : Composes M env others s₀ G I Q J) {init : W → Prop}
    (hinit : ∀ w, init w → J w) {p : Pool C R ε σ β W}
    (h : Pool.Reachable M env others s₀ init p) : Composed M env G I Q J p := by
  obtain ⟨w, hw, hreach⟩ := h
  induction hreach with
  | refl => exact ⟨hinit w hw, fun _ _ htask ↦ nomatch htask⟩
  | tail _ hstep ih => exact ih.step hM hstep

end Rule

end Service

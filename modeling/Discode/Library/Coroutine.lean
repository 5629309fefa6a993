import Mathlib.Data.Nat.Notation

/-!
# Coroutines and their environment

A coroutine makes calls and waits for what becomes of them: a value, an exception or its own
cancellation, which no `except` clause sees.  Its environment answers the calls and changes
between them.  The rules establish what a coroutine promises of each of its calls and of its
end, and of a loop that runs one coroutine after another.
-/

set_option autoImplicit false

universe u

inductive Outcome (ε α : Type u) where
  | returns (a : α)
  | raises (e : ε)
  | cancelled

def Outcome.IsRaised {ε α : Type u} : Outcome ε α → Prop
  | .raises _ => True
  | _ => False

inductive Coroutine (C : Type u) (R : C → Type u) (ε α : Type u) where
  | ends (o : Outcome ε α)
  | call (c : C) (resume : Outcome ε (R c) → Coroutine C R ε α)

namespace Coroutine

variable {C : Type u} {R : C → Type u} {ε α β σ : Type u}

def bind : Coroutine C R ε α → (α → Coroutine C R ε β) → Coroutine C R ε β
  | .ends (.returns a), f => f a
  | .ends (.raises e), _ => .ends (.raises e)
  | .ends .cancelled, _ => .ends .cancelled
  | .call c resume, f => .call c fun o ↦ (resume o).bind f

instance : Monad (Coroutine C R ε) where
  pure a := .ends (.returns a)
  bind := bind

def await (c : C) : Coroutine C R ε (R c) := .call c .ends

def raise (e : ε) : Coroutine C R ε α := .ends (.raises e)

/-- `try` with one `except Exception` clause: what the body raises becomes a value. -/
def attempt : Coroutine C R ε α → Coroutine C R ε (Except ε α)
  | .ends (.returns a) => .ends (.returns (.ok a))
  | .ends (.raises e) => .ends (.returns (.error e))
  | .ends .cancelled => .ends .cancelled
  | .call c resume => .call c fun o ↦ (resume o).attempt

/-- A `for` statement with the variables its body assigns. -/
def forEach (body : σ → α → Coroutine C R ε σ) : σ → List α → Coroutine C R ε σ
  | s, [] => pure s
  | s, a :: as => body s a >>= fun s' ↦ forEach body s' as

end Coroutine

/-! ## Environments -/

/-- How calls are answered in a world, and what else happens to the world between two calls. -/
structure Environment (C : Type u) (R : C → Type u) (ε W : Type u) where
  answers : W → (c : C) → Outcome ε (R c) → W → Prop
  interferes : W → W → Prop

/-- The environment whose every answer also meets `P`. -/
def Environment.restrict {C : Type u} {R : C → Type u} {ε W : Type u} (env : Environment C R ε W)
    (P : (c : C) → Outcome ε (R c) → Prop) : Environment C R ε W where
  answers := fun w c o w' ↦ env.answers w c o w' ∧ P c o
  interferes := env.interferes

namespace Coroutine

variable {C : Type u} {R : C → Type u} {ε α β σ W : Type u}

/-- Every call of the coroutine keeps the promise `G`, and it ends as `Q` says. -/
def Ensures (env : Environment C R ε W) (G : W → (c : C) → Outcome ε (R c) → W → Prop) :
    Coroutine C R ε α → W → (Outcome ε α → W → Prop) → Prop
  | .ends o, w, Q => Q o w
  | .call c resume, w, Q => ∀ w₁ o w₂, env.interferes w w₁ → env.answers w₁ c o w₂ →
      G w₁ c o w₂ ∧ (resume o).Ensures env G w₂ Q

variable {env : Environment C R ε W} {G : W → (c : C) → Outcome ε (R c) → W → Prop} {w : W}

/-- The outcome is no exception, and a returned value satisfies `P`. -/
def Returned (P : α → Prop) : Outcome ε α → Prop
  | .returns a => P a
  | .raises _ => False
  | .cancelled => True

/-- What follows a coroutine, where only a returned value goes on. -/
def Continues (next : α → W → Prop) (Q : Outcome ε β → W → Prop) : Outcome ε α → W → Prop
  | .returns a, w => next a w
  | .raises e, w => Q (.raises e) w
  | .cancelled, w => Q .cancelled w

theorem Ensures.mono {p : Coroutine C R ε α} {Q Q' : Outcome ε α → W → Prop}
    (h : p.Ensures env G w Q) (hQ : ∀ o w', Q o w' → Q' o w') : p.Ensures env G w Q' := by
  induction p generalizing w with
  | ends o => exact hQ o w h
  | call c resume ih =>
      intro w₁ o w₂ hi ha
      obtain ⟨hG, hrest⟩ := h w₁ o w₂ hi ha
      exact ⟨hG, ih o hrest⟩

theorem Ensures.restrict {p : Coroutine C R ε α} {Q : Outcome ε α → W → Prop}
    {P : (c : C) → Outcome ε (R c) → Prop} (h : p.Ensures env G w Q) :
    p.Ensures (env.restrict P) G w Q := by
  induction p generalizing w with
  | ends o => exact h
  | call c resume ih =>
      intro w₁ o w₂ hi ha
      obtain ⟨hG, hrest⟩ := h w₁ o w₂ hi ha.1
      exact ⟨hG, ih o hrest⟩

theorem ensures_of_forall {p : Coroutine C R ε α} {Q : Outcome ε α → W → Prop}
    (hG : ∀ w₁ c o w₂, G w₁ c o w₂) (hQ : ∀ o w', Q o w') : p.Ensures env G w Q := by
  induction p generalizing w with
  | ends o => exact hQ o w
  | call c resume ih =>
      intro w₁ o w₂ _ _
      exact ⟨hG w₁ c o w₂, ih o⟩

theorem ensures_bind {p : Coroutine C R ε α} {f : α → Coroutine C R ε β}
    {Q : Outcome ε β → W → Prop}
    (h : p.Ensures env G w (Continues (fun a w' ↦ (f a).Ensures env G w' Q) Q)) :
    (p >>= f).Ensures env G w Q := by
  induction p generalizing w with
  | ends o =>
      cases o with
      | returns a => exact h
      | raises e => exact h
      | cancelled => exact h
  | call c resume ih =>
      intro w₁ o w₂ hi ha
      obtain ⟨hG, hrest⟩ := h w₁ o w₂ hi ha
      exact ⟨hG, ih o hrest⟩

/-- A coroutine that raises nothing, followed by another. -/
theorem Ensures.bind {p : Coroutine C R ε α} {f : α → Coroutine C R ε β} {P : α → W → Prop}
    {Q : Outcome ε β → W → Prop}
    (hp : p.Ensures env G w fun o w' ↦ Returned (fun a ↦ P a w') o)
    (hf : ∀ a w', P a w' → (f a).Ensures env G w' Q) (hc : ∀ w', Q .cancelled w') :
    (p >>= f).Ensures env G w Q := by
  apply ensures_bind
  refine hp.mono fun o w' ho ↦ ?_
  cases o with
  | returns a => exact hf a w' ho
  | raises e => exact ho.elim
  | cancelled => exact hc w'

/-- The end of a body as the statement after its `try` sees it. -/
def Attempted (Q : Outcome ε (Except ε α) → W → Prop) : Outcome ε α → W → Prop
  | .returns a, w => Q (.returns (.ok a)) w
  | .raises e, w => Q (.returns (.error e)) w
  | .cancelled, w => Q .cancelled w

theorem ensures_attempt {p : Coroutine C R ε α} {Q : Outcome ε (Except ε α) → W → Prop}
    (h : p.Ensures env G w (Attempted Q)) : p.attempt.Ensures env G w Q := by
  induction p generalizing w with
  | ends o =>
      cases o with
      | returns a => exact h
      | raises e => exact h
      | cancelled => exact h
  | call c resume ih =>
      intro w₁ o w₂ hi ha
      obtain ⟨hG, hrest⟩ := h w₁ o w₂ hi ha
      exact ⟨hG, ih o hrest⟩

/-- The rule of a `for` statement, with an invariant of the elements to come. -/
theorem ensures_forEach {body : σ → α → Coroutine C R ε σ} {Q : Outcome ε σ → W → Prop}
    {I : List α → σ → W → Prop}
    (hbody : ∀ a as s w', I (a :: as) s w' → (body s a).Ensures env G w' (Continues (I as) Q))
    (hend : ∀ s w', I [] s w' → Q (.returns s) w') {as : List α} {s : σ} (h : I as s w) :
    (forEach body s as).Ensures env G w Q := by
  induction as generalizing s w with
  | nil => exact hend s w h
  | cons a as ih =>
      apply ensures_bind
      refine (hbody a as s w h).mono fun o w' ho ↦ ?_
      cases o with
      | returns s' => exact ih ho
      | raises e => exact ho
      | cancelled => exact ho

/-- What the environment never undoes holds at the end if it held at the start. -/
theorem ensures_preserved {p : Coroutine C R ε α} {J : W → Prop}
    (hi : ∀ w w', env.interferes w w' → J w → J w')
    (ha : ∀ w c o w', env.answers w c o w' → J w → J w') (h : J w) :
    p.Ensures env (fun _ _ _ _ ↦ True) w fun _ w' ↦ J w' := by
  induction p generalizing w with
  | ends o => exact h
  | call c resume ih =>
      intro w₁ o w₂ hinter hanswer
      exact ⟨trivial, ih o (ha w₁ c o w₂ hanswer (hi w w₁ hinter h))⟩

theorem Ensures.and {p : Coroutine C R ε α} {Q Q' : Outcome ε α → W → Prop}
    (h : p.Ensures env G w Q) (h' : p.Ensures env (fun _ _ _ _ ↦ True) w Q') :
    p.Ensures env G w fun o w' ↦ Q o w' ∧ Q' o w' := by
  induction p generalizing w with
  | ends o => exact ⟨h, h'⟩
  | call c resume ih =>
      intro w₁ o w₂ hi ha
      obtain ⟨hG, hrest⟩ := h w₁ o w₂ hi ha
      exact ⟨hG, ih o hrest (h' w₁ o w₂ hi ha).2⟩

/-! ### Coroutines that raise nothing -/

/-- Whatever the environment answers, the coroutine raises nothing and returns a `P`. -/
def Returns (env : Environment C R ε W) (P : α → Prop) (p : Coroutine C R ε α) : Prop :=
  ∀ w, p.Ensures env (fun _ _ _ _ ↦ True) w fun o _ ↦ Returned P o

theorem returns_pure {P : α → Prop} {a : α} (h : P a) :
    Returns env P (pure a : Coroutine C R ε α) := fun _ ↦ h

theorem returns_await {c : C} (h : ∀ w o w', env.answers w c o w' → ¬ o.IsRaised) :
    Returns env (fun _ ↦ True) (await c : Coroutine C R ε (R c)) := by
  intro w w₁ o w₂ _ ha
  refine ⟨trivial, ?_⟩
  cases o with
  | returns a => trivial
  | raises e => exact h w₁ _ w₂ ha trivial
  | cancelled => trivial

theorem Returns.bind {P : α → Prop} {P' : β → Prop} {p : Coroutine C R ε α}
    {f : α → Coroutine C R ε β} (hp : Returns env P p) (hf : ∀ a, P a → Returns env P' (f a)) :
    Returns env P' (p >>= f) := by
  intro w
  apply ensures_bind
  refine (hp w).mono fun o w' ho ↦ ?_
  cases o with
  | returns a => exact hf a ho w'
  | raises e => exact ho
  | cancelled => trivial

/-- Nothing comes out of `try` with an `except Exception` clause. -/
theorem returns_attempt (p : Coroutine C R ε α) : Returns env (fun _ ↦ True) p.attempt := by
  intro w
  apply ensures_attempt
  refine ensures_of_forall (fun _ _ _ _ ↦ trivial) fun o w' ↦ ?_
  cases o with
  | returns a => trivial
  | raises e => trivial
  | cancelled => trivial

theorem returns_attempt_of {P : α → Prop} {p : Coroutine C R ε α}
    (h : ∀ w, p.Ensures env (fun _ _ _ _ ↦ True) w fun o _ ↦ ∀ a, o = .returns a → P a) :
    Returns env (fun r ↦ ∀ a, r = .ok a → P a) p.attempt := by
  intro w
  apply ensures_attempt
  refine (h w).mono fun o w' ho ↦ ?_
  cases o with
  | returns a =>
      intro b hb
      cases hb
      exact ho a rfl
  | raises e =>
      intro b hb
      cases hb
  | cancelled => trivial

theorem returns_forEach {P : α → Prop} {body : σ → α → Coroutine C R ε σ} {as : List α}
    (hbody : ∀ a, P a → ∀ s, Returns env (fun _ ↦ True) (body s a)) (has : ∀ a ∈ as, P a) (s : σ) :
    Returns env (fun _ ↦ True) (forEach body s as) := by
  induction as generalizing s with
  | nil => exact returns_pure trivial
  | cons a as ih =>
      rw [List.forall_mem_cons] at has
      exact (hbody a has.1 s).bind fun s' _ ↦ ih has.2 s'

end Coroutine

/-! ## Loops -/

/-- A loop over the variables `σ`, whose body goes on with `.inl` and leaves it with `.inr`,
and the `finally` clause around it. -/
structure Service (C : Type u) (R : C → Type u) (ε σ β : Type u) where
  body : σ → Coroutine C R ε (σ ⊕ β)
  finish : Outcome ε β → Coroutine C R ε β

namespace Service

variable {C : Type u} {R : C → Type u} {ε σ β W : Type u}

inductive Phase (C : Type u) (R : C → Type u) (ε σ β : Type u) where
  | looping (p : Coroutine C R ε (σ ⊕ β))
  | finishing (p : Coroutine C R ε β)

/-- How the loop is left, if it is. -/
def exit : Outcome ε (σ ⊕ β) → σ ⊕ Outcome ε β
  | .returns (.inl s) => .inl s
  | .returns (.inr b) => .inr (.returns b)
  | .raises e => .inr (.raises e)
  | .cancelled => .inr .cancelled

variable (M : Service C R ε σ β) (env : Environment C R ε W) (s₀ : σ) (w₀ : W)

def afterwards (o : Outcome ε (σ ⊕ β)) : Phase C R ε σ β :=
  match exit o with
  | .inl s => .looping (M.body s)
  | .inr o => .finishing (M.finish o)

/-- Where an execution can be. -/
inductive Reaches : Phase C R ε σ β → W → Prop where
  | start : Reaches (.looping (M.body s₀)) w₀
  | answered {c : C} {resume : Outcome ε (R c) → Coroutine C R ε (σ ⊕ β)} {w w₁ w₂ : W}
      {o : Outcome ε (R c)} (h : Reaches (.looping (.call c resume)) w)
      (hi : env.interferes w w₁) (ha : env.answers w₁ c o w₂) : Reaches (.looping (resume o)) w₂
  | ended {o : Outcome ε (σ ⊕ β)} {w : W} (h : Reaches (.looping (.ends o)) w) :
      Reaches (M.afterwards o) w
  | answeredLast {c : C} {resume : Outcome ε (R c) → Coroutine C R ε β} {w w₁ w₂ : W}
      {o : Outcome ε (R c)} (h : Reaches (.finishing (.call c resume)) w)
      (hi : env.interferes w w₁) (ha : env.answers w₁ c o w₂) : Reaches (.finishing (resume o)) w₂

/-- Some execution makes call `c` in the world `w₁`, and is answered. -/
def Calls (w₁ : W) (c : C) (o : Outcome ε (R c)) (w₂ : W) : Prop :=
  ∃ w, env.interferes w w₁ ∧ env.answers w₁ c o w₂ ∧
    ((∃ resume, M.Reaches env s₀ w₀ (.looping (.call c resume)) w) ∨
      ∃ resume, M.Reaches env s₀ w₀ (.finishing (.call c resume)) w)

/-- Some execution ends, with this outcome. -/
def Ends (o : Outcome ε β) (w : W) : Prop := M.Reaches env s₀ w₀ (.finishing (.ends o)) w

variable {M env s₀ w₀}

theorem Reaches.next {p : Coroutine C R ε (σ ⊕ β)} {w : W}
    (h : M.Reaches env s₀ w₀ (.looping p) w) (c : C) (o : Outcome ε (R c))
    {resume : Outcome ε (R c) → Coroutine C R ε (σ ⊕ β)} (hp : p = .call c resume) {w₁ w₂ : W}
    (hi : env.interferes w w₁) (ha : env.answers w₁ c o w₂) :
    M.Reaches env s₀ w₀ (.looping (resume o)) w₂ := by
  subst hp
  exact h.answered hi ha

theorem Reaches.nextLast {p : Coroutine C R ε β} {w : W}
    (h : M.Reaches env s₀ w₀ (.finishing p) w) (c : C) (o : Outcome ε (R c))
    {resume : Outcome ε (R c) → Coroutine C R ε β} (hp : p = .call c resume) {w₁ w₂ : W}
    (hi : env.interferes w w₁) (ha : env.answers w₁ c o w₂) :
    M.Reaches env s₀ w₀ (.finishing (resume o)) w₂ := by
  subst hp
  exact h.answeredLast hi ha

variable {G : W → (c : C) → Outcome ε (R c) → W → Prop} {I : σ → W → Prop}
  {Q : Outcome ε β → W → Prop}

/-- What the body of the loop has to reach: its invariant, or an end that `finish` puts right. -/
def Iterated (M : Service C R ε σ β) (env : Environment C R ε W)
    (G : W → (c : C) → Outcome ε (R c) → W → Prop) (I : σ → W → Prop)
    (Q : Outcome ε β → W → Prop) (o : Outcome ε (σ ⊕ β)) (w : W) : Prop :=
  match exit o with
  | .inl s => I s w
  | .inr o => (M.finish o).Ensures env G w Q

theorem ensures_body_restrict {P : (c : C) → Outcome ε (R c) → Prop} {s : σ} {w : W}
    (h : (M.body s).Ensures env G w (M.Iterated env G I Q)) :
    (M.body s).Ensures (env.restrict P) G w (M.Iterated (env.restrict P) G I Q) := by
  refine h.restrict.mono fun o w' ho ↦ ?_
  cases o with
  | returns a =>
      cases a with
      | inl s' => exact ho
      | inr b => exact Coroutine.Ensures.restrict ho
  | raises e => exact Coroutine.Ensures.restrict ho
  | cancelled => exact Coroutine.Ensures.restrict ho

/-- What is left of an execution keeps the promise. -/
def Phase.Ensures (M : Service C R ε σ β) (env : Environment C R ε W)
    (G : W → (c : C) → Outcome ε (R c) → W → Prop) (I : σ → W → Prop)
    (Q : Outcome ε β → W → Prop) (w : W) : Phase C R ε σ β → Prop
  | .looping p => p.Ensures env G w (M.Iterated env G I Q)
  | .finishing p => p.Ensures env G w Q

theorem ensures_afterwards
    (hbody : ∀ s w, I s w → (M.body s).Ensures env G w (M.Iterated env G I Q))
    {o : Outcome ε (σ ⊕ β)} {w : W} (h : M.Iterated env G I Q o w) :
    (M.afterwards o).Ensures M env G I Q w := by
  cases o with
  | returns a =>
      cases a with
      | inl s => exact hbody s w h
      | inr b => exact h
  | raises e => exact h
  | cancelled => exact h

theorem Reaches.ensures (hbody : ∀ s w, I s w → (M.body s).Ensures env G w (M.Iterated env G I Q))
    (hstart : I s₀ w₀) {phase : Phase C R ε σ β} {w : W} (h : M.Reaches env s₀ w₀ phase w) :
    phase.Ensures M env G I Q w := by
  induction h with
  | start => exact hbody s₀ w₀ hstart
  | answered h hi ha ih => exact (ih _ _ _ hi ha).2
  | ended h ih => exact ensures_afterwards hbody ih
  | answeredLast h hi ha ih => exact (ih _ _ _ hi ha).2

/-- The rule of a loop, for its calls. -/
theorem Calls.promised (hbody : ∀ s w, I s w → (M.body s).Ensures env G w (M.Iterated env G I Q))
    (hstart : I s₀ w₀) {w₁ w₂ : W} {c : C} {o : Outcome ε (R c)}
    (h : M.Calls env s₀ w₀ w₁ c o w₂) : G w₁ c o w₂ := by
  obtain ⟨w, hi, ha, ⟨resume, hreach⟩ | ⟨resume, hreach⟩⟩ := h
  · exact ((hreach.ensures hbody hstart) _ _ _ hi ha).1
  · exact ((hreach.ensures hbody hstart) _ _ _ hi ha).1

/-- What every answer to a promised call keeps holds throughout. -/
theorem Reaches.preserved
    (hbody : ∀ s w, I s w → (M.body s).Ensures env G w (M.Iterated env G I Q)) (hstart : I s₀ w₀)
    {J : W → Prop} (hJ : J w₀) (hi : ∀ w w', env.interferes w w' → J w → J w')
    (ha : ∀ w c o w', env.answers w c o w' → G w c o w' → J w → J w')
    {phase : Phase C R ε σ β} {w : W} (h : M.Reaches env s₀ w₀ phase w) : J w := by
  induction h with
  | start => exact hJ
  | answered h hinter hanswer ih =>
      exact ha _ _ _ _ hanswer (h.ensures hbody hstart _ _ _ hinter hanswer).1 (hi _ _ hinter ih)
  | ended h ih => exact ih
  | answeredLast h hinter hanswer ih =>
      exact ha _ _ _ _ hanswer (h.ensures hbody hstart _ _ _ hinter hanswer).1 (hi _ _ hinter ih)

theorem Calls.preserved
    (hbody : ∀ s w, I s w → (M.body s).Ensures env G w (M.Iterated env G I Q)) (hstart : I s₀ w₀)
    {J : W → Prop} (hJ : J w₀) (hi : ∀ w w', env.interferes w w' → J w → J w')
    (ha : ∀ w c o w', env.answers w c o w' → G w c o w' → J w → J w') {w₁ w₂ : W} {c : C}
    {o : Outcome ε (R c)} (h : M.Calls env s₀ w₀ w₁ c o w₂) : J w₁ := by
  obtain ⟨w, hinter, -, ⟨resume, hreach⟩ | ⟨resume, hreach⟩⟩ := h
  · exact hi _ _ hinter (hreach.preserved hbody hstart hJ hi ha)
  · exact hi _ _ hinter (hreach.preserved hbody hstart hJ hi ha)

/-- The rule of a loop, for its end. -/
theorem Ends.ensured (hbody : ∀ s w, I s w → (M.body s).Ensures env G w (M.Iterated env G I Q))
    (hstart : I s₀ w₀) {o : Outcome ε β} {w : W} (h : M.Ends env s₀ w₀ o w) : Q o w :=
  Reaches.ensures hbody hstart h

end Service

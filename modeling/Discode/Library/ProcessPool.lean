import Mathlib.Logic.Relation
import Mathlib.Logic.Function.Basic
import Mathlib.Data.Nat.Notation

/-!
# Pools of sequential processes over a shared state

A machine has three kinds of steps: a transaction of the environment on the
shared state, the creation of a process, and one step of a process, which may
change the shared state and its own local state or end the process.  Processes
interleave freely.  The proof rule is the Owicki–Gries one: an invariant of the
shared state and an assertion for every local state, preserved by the steps of
the process itself and not falsified by the steps of anything else.
-/

namespace ProcessPool

variable {S P E N A : Type*}

/-- The shared state, the live processes and the next unused process id. -/
structure State (S P : Type*) where
  shared : S
  procs : ℕ → Option P
  next : ℕ

/-- `env` is a transaction without local state, `spawn` creates process `pid`,
`exec` runs one step of process `pid`; the process ends when it returns `none`. -/
structure Machine (S P E N A : Type*) where
  env : S → E → Option S
  spawn : ℕ → S → N → Option (S × P)
  exec : ℕ → S → P → A → Option (S × Option P)

inductive Action (E N A : Type*) where
  | env (e : E)
  | spawn (n : N)
  | exec (pid : ℕ) (a : A)
  deriving DecidableEq, Repr

def State.start (s : S) : State S P := ⟨s, fun _ ↦ none, 0⟩

namespace Machine

variable (M : Machine S P E N A)

def step (σ : State S P) : Action E N A → Option (State S P)
  | .env e => (M.env σ.shared e).map fun s ↦ { σ with shared := s }
  | .spawn n => (M.spawn σ.next σ.shared n).map fun r ↦
      ⟨r.1, Function.update σ.procs σ.next (some r.2), σ.next + 1⟩
  | .exec pid a => (σ.procs pid).bind fun p ↦ (M.exec pid σ.shared p a).map fun r ↦
      ⟨r.1, Function.update σ.procs pid r.2, σ.next⟩

def run (σ : State S P) : List (Action E N A) → Option (State S P)
  | [] => some σ
  | a :: as => (M.step σ a).bind fun τ ↦ run τ as

/-- One step whose action meets `ok` in the state it is taken in. -/
def StepWhen (ok : State S P → Action E N A → Prop) (σ τ : State S P) : Prop :=
  ∃ a, ok σ a ∧ M.step σ a = some τ

abbrev ReachesWhen (ok : State S P → Action E N A → Prop) : State S P → State S P → Prop :=
  Relation.ReflTransGen (M.StepWhen ok)

abbrev Reaches : State S P → State S P → Prop := M.ReachesWhen fun _ _ ↦ True

def ReachableWhen (ok : State S P → Action E N A → Prop) (init : S → Prop)
    (σ : State S P) : Prop :=
  ∃ s, init s ∧ M.ReachesWhen ok (.start s) σ

abbrev Reachable (init : S → Prop) : State S P → Prop := M.ReachableWhen (fun _ _ ↦ True) init

variable {M} {ok : State S P → Action E N A → Prop} {init : S → Prop}

theorem Reaches.of_step {σ τ : State S P} {a : Action E N A} (h : M.step σ a = some τ) :
    M.Reaches σ τ :=
  .single ⟨a, trivial, h⟩

theorem ReachableWhen.step {σ τ : State S P} {a : Action E N A} (h : M.ReachableWhen ok init σ)
    (ha : ok σ a) (hs : M.step σ a = some τ) : M.ReachableWhen ok init τ := by
  obtain ⟨s, hs₀, hreach⟩ := h
  exact ⟨s, hs₀, hreach.tail ⟨a, ha, hs⟩⟩

theorem ReachableWhen.reaches {σ τ : State S P} (h : M.ReachableWhen ok init σ)
    (hs : M.ReachesWhen ok σ τ) : M.ReachableWhen ok init τ := by
  obtain ⟨s, hs₀, hreach⟩ := h
  exact ⟨s, hs₀, hreach.trans hs⟩

theorem ReachesWhen.reaches {σ τ : State S P} (h : M.ReachesWhen ok σ τ) : M.Reaches σ τ :=
  Relation.ReflTransGen.mono (fun _ _ ⟨a, _, ha⟩ ↦ ⟨a, trivial, ha⟩) _ _ h

theorem ReachableWhen.reachable {σ : State S P} (h : M.ReachableWhen ok init σ) :
    M.Reachable init σ := by
  obtain ⟨s, hs₀, hreach⟩ := h
  exact ⟨s, hs₀, ReachesWhen.reaches hreach⟩

theorem ReachesWhen.of_run {as : List (Action E N A)} (hok : ∀ a ∈ as, ∀ ρ, ok ρ a) :
    ∀ {σ τ : State S P}, M.run σ as = some τ → M.ReachesWhen ok σ τ := by
  induction as with
  | nil =>
      intro σ τ h
      cases h
      exact .refl
  | cons a as ih =>
      intro σ τ h
      obtain ⟨ρ, hρ, hτ⟩ := Option.bind_eq_some_iff.mp h
      have hrest := ih (fun b hb ↦ hok b (List.mem_cons_of_mem a hb)) hτ
      exact .head ⟨a, hok a List.mem_cons_self σ, hρ⟩ hrest

theorem reaches_of_run {as : List (Action E N A)} {σ τ : State S P}
    (h : M.run σ as = some τ) : M.Reaches σ τ :=
  .of_run (fun _ _ _ ↦ trivial) h

theorem reachable_of_run {as : List (Action E N A)} {s : S} {σ : State S P} (hs : init s)
    (h : M.run (.start s) as = some σ) : M.Reachable init σ :=
  ⟨s, hs, reaches_of_run h⟩

/-- Every step of the run that performs `as` from `σ` on is related by `R`. -/
def Along (M : Machine S P E N A) (R : State S P → Action E N A → State S P → Prop) :
    State S P → List (Action E N A) → Prop
  | _, [] => True
  | σ, a :: as => ∀ τ, M.step σ a = some τ → R σ a τ ∧ M.Along R τ as

theorem along_congr {R R' : State S P → Action E N A → State S P → Prop}
    (h : ∀ σ a τ, M.step σ a = some τ → (R σ a τ ↔ R' σ a τ)) (as : List (Action E N A)) :
    ∀ σ, M.Along R σ as ↔ M.Along R' σ as := by
  induction as with
  | nil => exact fun _ ↦ Iff.rfl
  | cons a as ih =>
      intro σ
      constructor
      · intro hR τ hτ
        obtain ⟨hστ, hrest⟩ := hR τ hτ
        exact ⟨(h σ a τ hτ).mp hστ, (ih τ).mp hrest⟩
      · intro hR τ hτ
        obtain ⟨hστ, hrest⟩ := hR τ hτ
        exact ⟨(h σ a τ hτ).mpr hστ, (ih τ).mpr hrest⟩

/-- What one step can do: the three kinds of steps, with the state they lead to. -/
theorem step_cases {σ τ : State S P} {a : Action E N A} (h : M.step σ a = some τ) :
    (∃ e s, a = .env e ∧ M.env σ.shared e = some s ∧ τ = { σ with shared := s }) ∨
    (∃ n s p, a = .spawn n ∧ M.spawn σ.next σ.shared n = some (s, p) ∧
      τ = ⟨s, Function.update σ.procs σ.next (some p), σ.next + 1⟩) ∨
    (∃ pid b p s q, a = .exec pid b ∧ σ.procs pid = some p ∧
      M.exec pid σ.shared p b = some (s, q) ∧
      τ = ⟨s, Function.update σ.procs pid q, σ.next⟩) := by
  cases a with
  | env e =>
      obtain ⟨s, hs, rfl⟩ := Option.map_eq_some_iff.mp h
      exact .inl ⟨e, s, rfl, hs, rfl⟩
  | spawn n =>
      obtain ⟨⟨s, p⟩, hs, rfl⟩ := Option.map_eq_some_iff.mp h
      exact .inr (.inl ⟨n, s, p, rfl, hs, rfl⟩)
  | exec pid b =>
      obtain ⟨p, hp, hb⟩ := Option.bind_eq_some_iff.mp h
      obtain ⟨⟨s, q⟩, hs, rfl⟩ := Option.map_eq_some_iff.mp hb
      exact .inr (.inr ⟨pid, b, p, s, q, rfl, hp, hs, rfl⟩)

theorem step_exec {σ τ : State S P} {pid : ℕ} {b : A} (h : M.step σ (.exec pid b) = some τ) :
    ∃ p q, σ.procs pid = some p ∧ M.exec pid σ.shared p b = some (τ.shared, q) ∧
      τ.procs = Function.update σ.procs pid q := by
  obtain ⟨p, hp, hb⟩ := Option.bind_eq_some_iff.mp h
  obtain ⟨⟨s, q⟩, hs, rfl⟩ := Option.map_eq_some_iff.mp hb
  exact ⟨p, q, hp, hs, rfl⟩

theorem next_le {σ τ : State S P} {a : Action E N A} (h : M.step σ a = some τ) :
    σ.next ≤ τ.next := by
  obtain ⟨e, s, -, -, rfl⟩ | ⟨n, s, p, -, -, rfl⟩ | ⟨pid, b, p, s, q, -, -, -, rfl⟩ :=
    step_cases h
  · exact Nat.le_refl _
  · exact Nat.le_succ _
  · exact Nat.le_refl _

/-- A process of the next state was there before, was just created, or took the step. -/
theorem step_procs {σ τ : State S P} {a : Action E N A} (h : M.step σ a = some τ) {pid : ℕ}
    {r : P} (hr : τ.procs pid = some r) :
    σ.procs pid = some r ∨
    (∃ n, a = .spawn n ∧ pid = σ.next ∧ M.spawn pid σ.shared n = some (τ.shared, r)) ∨
    ∃ b p, a = .exec pid b ∧ σ.procs pid = some p ∧
      M.exec pid σ.shared p b = some (τ.shared, some r) := by
  obtain ⟨e, s, rfl, he, rfl⟩ | ⟨n, s, p, rfl, hn, rfl⟩ | ⟨q, b, p, s, r', rfl, hp, hb, rfl⟩ :=
    step_cases h
  · exact .inl hr
  · simp only [Function.update_apply] at hr
    split at hr
    · rename_i hpid
      cases hr
      exact .inr (.inl ⟨n, rfl, hpid, hpid ▸ hn⟩)
    · exact .inl hr
  · simp only [Function.update_apply] at hr
    split at hr
    · rename_i hpid
      subst hpid hr
      exact .inr (.inr ⟨b, p, rfl, hp, hb⟩)
    · exact .inl hr

/-- A property that every step preserves holds along every run. -/
theorem ReachesWhen.preserves {I : State S P → Prop}
    (hstep : ∀ σ a τ, I σ → ok σ a → M.step σ a = some τ → I τ)
    {σ τ : State S P} (h : M.ReachesWhen ok σ τ) (hσ : I σ) : I τ := by
  induction h with
  | refl => exact hσ
  | tail _ hst ih =>
      obtain ⟨a, ha, hs⟩ := hst
      exact hstep _ a _ ih ha hs

theorem ReachableWhen.invariant {I : State S P → Prop} (hinit : ∀ s, init s → I (.start s))
    (hstep : ∀ σ a τ, M.ReachableWhen ok init σ → I σ → ok σ a → M.step σ a = some τ → I τ)
    {σ : State S P} (h : M.ReachableWhen ok init σ) : I σ := by
  obtain ⟨s, hs₀, hreach⟩ := h
  induction hreach with
  | refl => exact hinit s hs₀
  | tail hpre hst ih =>
      obtain ⟨a, ha, hs⟩ := hst
      exact hstep _ a _ ⟨s, hs₀, hpre⟩ ih ha hs

/-- Ids from `next` on are not in use. -/
theorem ReachableWhen.lt_next {σ : State S P} (h : M.ReachableWhen ok init σ) {pid : ℕ} {p : P}
    (hp : σ.procs pid = some p) : pid < σ.next := by
  have hall : ∀ pid p, σ.procs pid = some p → pid < σ.next := by
    refine h.invariant (I := fun σ ↦ ∀ pid p, σ.procs pid = some p → pid < σ.next)
      (fun s _ pid p hp ↦ (Option.some_ne_none p hp.symm).elim) ?_
    intro σ a τ _ ih _ hs pid r hr
    rcases step_procs hs hr with hp | ⟨n, rfl, rfl, -⟩ | ⟨b, p, -, hp, -⟩
    · exact Nat.lt_of_lt_of_le (ih pid r hp) (next_le hs)
    · obtain ⟨s, -, rfl⟩ := Option.map_eq_some_iff.mp hs
      exact Nat.lt_succ_self _
    · exact Nat.lt_of_lt_of_le (ih pid p hp) (next_le hs)
  exact hall pid p hp

/-! ## The Owicki–Gries rule -/

/-- The shared invariant together with the assertion of every live process.  Ids from
`next` on are unused, so a new process never replaces a live one. -/
structure Annotated (Inv : S → Prop) (Assert : ℕ → P → S → Prop) (σ : State S P) : Prop where
  inv : Inv σ.shared
  assert : ∀ pid p, σ.procs pid = some p → Assert pid p σ.shared
  fresh : ∀ pid, σ.next ≤ pid → σ.procs pid = none

theorem Annotated.start {Inv : S → Prop} {Assert : ℕ → P → S → Prop} {s : S} (h : Inv s) :
    Annotated Inv Assert (.start s) :=
  ⟨h, fun _ _ hp ↦ (Option.some_ne_none _ hp.symm).elim, fun _ _ ↦ rfl⟩

theorem Annotated.lt_next {Inv : S → Prop} {Assert : ℕ → P → S → Prop} {σ : State S P}
    (h : Annotated Inv Assert σ) {pid : ℕ} {p : P} (hp : σ.procs pid = some p) :
    pid < σ.next := by
  by_contra hle
  rw [h.fresh pid (Nat.not_lt.mp hle)] at hp
  cases hp

/-- The conditions of the rule: every step keeps the invariant, establishes the
assertion of the process it leaves behind and interferes with no other assertion. -/
structure Proof (M : Machine S P E N A) (ok : State S P → Action E N A → Prop)
    (Inv : S → Prop) (Assert : ℕ → P → S → Prop) : Prop where
  env : ∀ σ e s, Annotated Inv Assert σ → ok σ (.env e) → M.env σ.shared e = some s →
    Inv s ∧ ∀ pid p, Assert pid p σ.shared → Assert pid p s
  spawn : ∀ σ n s p, Annotated Inv Assert σ → ok σ (.spawn n) →
    M.spawn σ.next σ.shared n = some (s, p) →
    Inv s ∧ Assert σ.next p s ∧ ∀ q r, q ≠ σ.next → Assert q r σ.shared → Assert q r s
  exec : ∀ σ pid p a s p', Annotated Inv Assert σ → ok σ (.exec pid a) → σ.procs pid = some p →
    M.exec pid σ.shared p a = some (s, p') →
    Inv s ∧ (∀ r, p' = some r → Assert pid r s) ∧
      ∀ q r, q ≠ pid → Assert q r σ.shared → Assert q r s

theorem Annotated.step {Inv : S → Prop} {Assert : ℕ → P → S → Prop}
    (hM : Proof M ok Inv Assert) {σ τ : State S P} {a : Action E N A}
    (h : Annotated Inv Assert σ) (ha : ok σ a) (hs : M.step σ a = some τ) :
    Annotated Inv Assert τ := by
  obtain ⟨e, s, rfl, he, rfl⟩ | ⟨n, s, p, rfl, hn, rfl⟩ | ⟨pid, b, p, s, q, rfl, hp, hb, rfl⟩ :=
    step_cases hs
  · obtain ⟨hinv, hframe⟩ := hM.env σ e s h ha he
    exact ⟨hinv, fun pid p hp ↦ hframe pid p (h.assert pid p hp), h.fresh⟩
  · obtain ⟨hinv, hnew, hframe⟩ := hM.spawn σ n s p h ha hn
    refine ⟨hinv, fun pid r hr ↦ ?_, fun pid hpid ↦ ?_⟩
    · by_cases hpid : pid = σ.next
      · subst hpid
        simp only [Function.update_self] at hr
        exact Option.some.inj hr ▸ hnew
      · simp only [Function.update_of_ne hpid] at hr
        exact hframe pid r hpid (h.assert pid r hr)
    · have hne : pid ≠ σ.next := Nat.ne_of_gt (Nat.lt_of_succ_le hpid)
      simp only [Function.update_of_ne hne]
      exact h.fresh pid (Nat.le_of_succ_le hpid)
  · obtain ⟨hinv, hown, hframe⟩ := hM.exec σ pid p b s q h ha hp hb
    refine ⟨hinv, fun pid' r hr ↦ ?_, fun pid' hpid' ↦ ?_⟩
    · by_cases hpid : pid' = pid
      · subst hpid
        simp only [Function.update_self] at hr
        exact hown r hr
      · simp only [Function.update_of_ne hpid] at hr
        exact hframe pid' r hpid (h.assert pid' r hr)
    · have hne : pid' ≠ pid := Nat.ne_of_gt (Nat.lt_of_lt_of_le (h.lt_next hp) hpid')
      simp only [Function.update_of_ne hne]
      exact h.fresh pid' hpid'

/-- A second layer of assertions that may rely on a first one. -/
theorem Proof.and {Inv Inv₂ : S → Prop} {Assert Assert₂ : ℕ → P → S → Prop}
    (hM : Proof M ok Inv Assert)
    (henv : ∀ σ e s, Annotated Inv Assert σ → Inv₂ σ.shared → ok σ (.env e) →
      M.env σ.shared e = some s → Inv₂ s ∧
        ∀ pid p, Assert pid p σ.shared → Assert₂ pid p σ.shared → Assert₂ pid p s)
    (hspawn : ∀ σ n s p, Annotated Inv Assert σ → Inv₂ σ.shared → ok σ (.spawn n) →
      M.spawn σ.next σ.shared n = some (s, p) → Inv₂ s ∧ Assert₂ σ.next p s ∧
        ∀ q r, q ≠ σ.next → Assert q r σ.shared → Assert₂ q r σ.shared → Assert₂ q r s)
    (hexec : ∀ σ pid p a s p', Annotated Inv Assert σ → Inv₂ σ.shared → ok σ (.exec pid a) →
      σ.procs pid = some p → Assert pid p σ.shared → Assert₂ pid p σ.shared →
      M.exec pid σ.shared p a = some (s, p') → Inv₂ s ∧
        (∀ r, p' = some r → Assert₂ pid r s) ∧
        ∀ q r, q ≠ pid → Assert q r σ.shared → Assert₂ q r σ.shared → Assert₂ q r s) :
    Proof M ok (fun s ↦ Inv s ∧ Inv₂ s) (fun pid p s ↦ Assert pid p s ∧ Assert₂ pid p s) where
  env σ e s h ha hs := by
    have h₁ : Annotated Inv Assert σ := ⟨h.inv.1, fun pid p hp ↦ (h.assert pid p hp).1, h.fresh⟩
    obtain ⟨hinv, hframe⟩ := hM.env σ e s h₁ ha hs
    obtain ⟨hinv₂, hframe₂⟩ := henv σ e s h₁ h.inv.2 ha hs
    exact ⟨⟨hinv, hinv₂⟩, fun pid p hp ↦ ⟨hframe pid p hp.1, hframe₂ pid p hp.1 hp.2⟩⟩
  spawn σ n s p h ha hs := by
    have h₁ : Annotated Inv Assert σ := ⟨h.inv.1, fun pid p hp ↦ (h.assert pid p hp).1, h.fresh⟩
    obtain ⟨hinv, hnew, hframe⟩ := hM.spawn σ n s p h₁ ha hs
    obtain ⟨hinv₂, hnew₂, hframe₂⟩ := hspawn σ n s p h₁ h.inv.2 ha hs
    exact ⟨⟨hinv, hinv₂⟩, ⟨hnew, hnew₂⟩,
      fun q r hq hr ↦ ⟨hframe q r hq hr.1, hframe₂ q r hq hr.1 hr.2⟩⟩
  exec σ pid p a s p' h ha hp hs := by
    have h₁ : Annotated Inv Assert σ := ⟨h.inv.1, fun pid p hp ↦ (h.assert pid p hp).1, h.fresh⟩
    obtain ⟨hinv, hown, hframe⟩ := hM.exec σ pid p a s p' h₁ ha hp hs
    obtain ⟨hok, hok₂⟩ := h.assert pid p hp
    obtain ⟨hinv₂, hown₂, hframe₂⟩ := hexec σ pid p a s p' h₁ h.inv.2 ha hp hok hok₂ hs
    exact ⟨⟨hinv, hinv₂⟩, fun r hr ↦ ⟨hown r hr, hown₂ r hr⟩,
      fun q r hq hr ↦ ⟨hframe q r hq hr.1, hframe₂ q r hq hr.1 hr.2⟩⟩

/-! ## Steps in a view of the shared state -/

/-- The machine whose every step is taken in a view of the shared state that `enter` opens
and `leave` closes. -/
def bracket {L : Type*} (M : Machine S P E N A) (enter : L → S → S) (leave : L → S → S → S) :
    Machine S P (L × E) (L × N) (L × A) where
  env s e := (M.env (enter e.1 s) e.2).map (leave e.1 s)
  spawn pid s n := (M.spawn pid (enter n.1 s) n.2).map fun r ↦ (leave n.1 s r.1, r.2)
  exec pid s p a := (M.exec pid (enter a.1 s) p a.2).map fun r ↦ (leave a.1 s r.1, r.2)

/-- A proof that the view does not disturb is one of the bracketed machine. -/
theorem Proof.bracket {L : Type*} {enter : L → S → S} {leave : L → S → S → S}
    {okL : State S P → Action (L × E) (L × N) (L × A) → Prop}
    {Inv : S → Prop} {Assert : ℕ → P → S → Prop} (hM : Proof M (fun _ _ ↦ True) Inv Assert)
    (henter : ∀ l s, Inv s → Inv (enter l s) ∧ ∀ pid p, Assert pid p s → Assert pid p (enter l s))
    (hleave : ∀ l s s', Inv s' →
      Inv (leave l s s') ∧ ∀ pid p, Assert pid p s' → Assert pid p (leave l s s')) :
    Proof (M.bracket enter leave) okL Inv Assert := by
  have hopen : ∀ {σ : State S P}, Annotated Inv Assert σ → ∀ l,
      Annotated Inv Assert { σ with shared := enter l σ.shared } := by
    intro σ h l
    obtain ⟨hinv, hframe⟩ := henter l σ.shared h.inv
    exact ⟨hinv, fun pid p hp ↦ hframe pid p (h.assert pid p hp), h.fresh⟩
  constructor
  · intro σ e s h _ hs
    obtain ⟨s₁, hs₁, rfl⟩ := Option.map_eq_some_iff.mp hs
    obtain ⟨hinv, hframe⟩ := hM.env _ e.2 s₁ (hopen h e.1) trivial hs₁
    obtain ⟨hinv', hframe'⟩ := hleave e.1 σ.shared s₁ hinv
    refine ⟨hinv', fun pid p hp ↦ hframe' pid p (hframe pid p ?_)⟩
    exact (henter e.1 σ.shared h.inv).2 pid p hp
  · intro σ n s p h _ hs
    obtain ⟨⟨s₁, p₁⟩, hs₁, he⟩ := Option.map_eq_some_iff.mp hs
    cases he
    obtain ⟨hinv, hnew, hframe⟩ := hM.spawn _ n.2 s₁ p₁ (hopen h n.1) trivial hs₁
    obtain ⟨hinv', hframe'⟩ := hleave n.1 σ.shared s₁ hinv
    refine ⟨hinv', hframe' _ _ hnew, fun q r hq hr ↦ hframe' q r (hframe q r hq ?_)⟩
    exact (henter n.1 σ.shared h.inv).2 q r hr
  · intro σ pid p a s p' h _ hp hs
    obtain ⟨⟨s₁, p₁⟩, hs₁, he⟩ := Option.map_eq_some_iff.mp hs
    cases he
    obtain ⟨hinv, hown, hframe⟩ := hM.exec _ pid p a.2 s₁ p₁ (hopen h a.1) trivial hp hs₁
    obtain ⟨hinv', hframe'⟩ := hleave a.1 σ.shared s₁ hinv
    refine ⟨hinv', fun r hr ↦ hframe' pid r (hown r hr), fun q r hq hr ↦ ?_⟩
    exact hframe' q r (hframe q r hq ((henter a.1 σ.shared h.inv).2 q r hr))

theorem Proof.annotated {Inv : S → Prop} {Assert : ℕ → P → S → Prop}
    (hM : Proof M ok Inv Assert) (hinit : ∀ s, init s → Inv s) {σ : State S P}
    (h : M.ReachableWhen ok init σ) : Annotated Inv Assert σ :=
  h.invariant (fun s hs ↦ .start (hinit s hs)) fun _ _ _ _ hσ ha hs ↦ hσ.step hM ha hs

end Machine

end ProcessPool

import Discode.InputScheduler
import Mathlib.Data.List.Perm.Subperm
import Mathlib.Data.List.Range

/-!
# What the input scheduler guarantees

Three invariants: the counts of slots, active tasks and messages in flight; the chain of
tasks of a session; and the history.  The first two only speak of the current tasks, and a
step of one task keeps them whatever it does.
-/

set_option autoImplicit false

namespace Discode

namespace InputScheduler

variable {F : Type*} {c : Config F} {s s' : State F}

/-! ## Lists -/

theorem getElem?_set_of {α : Type*} {l : List α} {i : ℕ} {t : α} (h : l[i]? = some t) (t' : α)
    (j : ℕ) : (l.set i t')[j]? = if j = i then some t' else l[j]? := by
  have hlt : i < l.length := (List.getElem?_eq_some_iff.mp h).1
  rw [List.getElem?_set]
  by_cases hij : j = i
  · subst hij
    simp [hlt]
  · simp [hij, Ne.symm hij]

theorem countP_set_of {α : Type*} {l : List α} {i : ℕ} {t : α} (h : l[i]? = some t) (t' : α)
    (p : α → Bool) :
    (l.set i t').countP p + (if p t then 1 else 0) = l.countP p + (if p t' then 1 else 0) := by
  induction l generalizing i with
  | nil => cases h
  | cons a l ih =>
      cases i with
      | zero =>
          cases h
          simp only [List.set_cons_zero, List.countP_cons]
          omega
      | succ i =>
          have hrest := ih (i := i) h
          simp only [List.set_cons_succ, List.countP_cons]
          omega

/-! ## Counts -/

/-- Task `i` is `t` and has not ended. -/
def State.Live (s : State F) (i : ℕ) (t : Task F) : Prop :=
  s.tasks[i]? = some t ∧ t.isDone = false

structure Control (c : Config F) (s : State F) : Prop where
  slots : s.tasks.countP Task.holdsSlot + s.slots = c.concurrency
  capacity : s.active.length ≤ c.queueCapacity
  active : ∀ i t, s.Live i t → i ∈ s.active
  inflight : ∀ i t, s.Live i t → t.mid ∈ s.inflight
  distinct : ∀ i j t u, s.Live i t → s.Live j u → t.mid = u.mid → i = j
  accepting : ∀ m rest, s.main = .accept m rest → m.1 ∉ s.inflight

theorem Retask.getElem? {i : ℕ} {t t' : Task F} (hr : Retask s s' i t t') (j : ℕ) :
    s'.tasks[j]? = if j = i then some t' else s.tasks[j]? := by
  rw [hr.tasks, getElem?_set_of hr.get]

theorem Retask.live {i : ℕ} {t t' : Task F} (hr : Retask s s' i t t') {j : ℕ} {u : Task F}
    (h : s'.Live j u) : j = i ∧ u = t' ∨ j ≠ i ∧ s.Live j u := by
  obtain ⟨hu, hlive⟩ := h
  rw [hr.getElem?] at hu
  by_cases hj : j = i
  · rw [if_pos hj] at hu
    exact .inl ⟨hj, (Option.some.inj hu).symm⟩
  · rw [if_neg hj] at hu
    exact .inr ⟨hj, hu, hlive⟩

/-- An unfinished task was unfinished before, with the same message and session. -/
theorem Retask.live_before {i : ℕ} {t t' : Task F} (hr : Retask s s' i t t') {j : ℕ}
    {u : Task F} (h : s'.Live j u) : ∃ u₀, s.Live j u₀ ∧ u₀.mid = u.mid ∧
      u₀.session = u.session := by
  rcases hr.live h with ⟨rfl, rfl⟩ | ⟨-, hu⟩
  · exact ⟨t, ⟨hr.get, hr.unfinished⟩, hr.mid.symm, hr.session.symm⟩
  · exact ⟨u, hu, rfl, rfl⟩

theorem Control.retask {i : ℕ} {t t' : Task F} (h : Control c s) (hr : Retask s s' i t t') :
    Control c s' := by
  have ht : s.Live i t := ⟨hr.get, hr.unfinished⟩
  refine ⟨?_, hr.active ▸ h.capacity, fun j u hu ↦ ?_, fun j u hu ↦ ?_, ?_, fun m rest hm hin ↦ ?_⟩
  · have hcount := countP_set_of hr.get t' Task.holdsSlot
    have hslots := hr.slots
    have htotal := h.slots
    rw [hr.tasks]
    omega
  · obtain ⟨u₀, hu₀, -⟩ := hr.live_before hu
    exact hr.active ▸ h.active j u₀ hu₀
  · rw [hr.inflight]
    rcases hr.live hu with ⟨rfl, rfl⟩ | ⟨hne, hu⟩
    · refine ⟨hr.mid ▸ h.inflight j t ht, fun hdone ↦ ?_⟩
      rw [hu.2] at hdone
      cases hdone
    · -- The message that leaves `inflight` belongs to no other unfinished task.
      exact ⟨h.inflight j u hu, fun _ hsame ↦ hne (h.distinct j i u t hu ht hsame)⟩
  · intro j k u v hu hv hmid
    obtain ⟨u₀, hu₀, hmid₀, -⟩ := hr.live_before hu
    obtain ⟨v₀, hv₀, hmid₁, -⟩ := hr.live_before hv
    exact h.distinct j k u₀ v₀ hu₀ hv₀ (hmid₀.trans (hmid.trans hmid₁.symm))
  · exact h.accepting m rest (hr.main ▸ hm) ((hr.inflight m.1).mp hin).1

/-- The coroutine goes on without a new task. -/
structure Continues (c : Config F) (s s' : State F) : Prop where
  tasks : s'.tasks = s.tasks
  inflight : s'.inflight = s.inflight
  slots : s'.slots = s.slots
  active : s'.active = s.active ∨ s'.active = s.pending
  tails : ∀ sid, s'.tails sid = s.tails sid ∨
    ∃ i, s.tails sid = some i ∧ s.done i = true ∧ s'.tails sid = none
  accepting : ∀ m rest, s'.main = .accept m rest → m.1 ∉ s.inflight
  malformed : ∀ m rest, s'.main = .deadLettering m rest → c.sessionId m.2 = none

theorem mem_pending {i : ℕ} {t : Task F} (h : s.Live i t) (hi : i ∈ s.active) :
    i ∈ s.pending := by
  refine List.mem_filter.mpr ⟨hi, ?_⟩
  simp [State.done, h.1, h.2]

theorem Control.continues (h : Control c s) (hc : Continues c s s') : Control c s' := by
  have hlive : ∀ {i t}, s'.Live i t → s.Live i t := fun hu ↦ ⟨hc.tasks ▸ hu.1, hu.2⟩
  refine ⟨?_, ?_, fun i t ht ↦ ?_, fun i t ht ↦ ?_, fun i j t u ht hu ↦ ?_, ?_⟩
  · rw [hc.tasks, hc.slots]
    exact h.slots
  · rcases hc.active with ha | ha
    · exact ha ▸ h.capacity
    · rw [ha]
      exact (List.length_filter_le _ _).trans h.capacity
  · have hi : i ∈ s.active := h.active i t (hlive ht)
    rcases hc.active with ha | ha
    · exact ha ▸ hi
    · exact ha ▸ mem_pending (hlive ht) hi
  · exact hc.inflight ▸ h.inflight i t (hlive ht)
  · exact h.distinct i j t u (hlive ht) (hlive hu)
  · exact fun m rest hm ↦ hc.inflight ▸ hc.accepting m rest hm

theorem getElem?_accept {m : ℕ × F} {session : SessionId} {rest : List (ℕ × F)} (j : ℕ) :
    (s.accept m session rest).tasks[j]? = if j = s.tasks.length then
      some ⟨m.1, m.2, session, s.tails session, .waiting⟩ else s.tasks[j]? := by
  rw [State.accept, List.getElem?_append]
  by_cases hj : j < s.tasks.length
  · rw [if_pos hj, if_neg hj.ne]
  · rw [if_neg hj]
    by_cases heq : j = s.tasks.length
    · subst heq
      simp
    · rw [if_neg heq, List.getElem?_eq_none (by simp; omega), List.getElem?_eq_none (by omega)]

theorem live_accept {m : ℕ × F} {session : SessionId} {rest : List (ℕ × F)} {j : ℕ} {t : Task F}
    (h : (s.accept m session rest).Live j t) : j = s.tasks.length ∧ t.mid = m.1 ∧
      t.session = session ∨ j ≠ s.tasks.length ∧ s.Live j t := by
  obtain ⟨ht, hlive⟩ := h
  rw [getElem?_accept] at ht
  by_cases hj : j = s.tasks.length
  · rw [if_pos hj] at ht
    cases ht
    exact .inl ⟨hj, rfl, rfl⟩
  · rw [if_neg hj] at ht
    exact .inr ⟨hj, ht, hlive⟩

theorem Control.accept {m : ℕ × F} {session : SessionId} {rest rest' : List (ℕ × F)}
    (h : Control c s) (hmain : s.main = .accept m rest') (hroom : s.active.length < c.queueCapacity) :
    Control c (s.accept m session rest) := by
  have hfresh : ∀ j t, s.Live j t → t.mid ≠ m.1 := fun j t ht he ↦
    h.accepting m rest' hmain (he ▸ h.inflight j t ht)
  refine ⟨?_, ?_, fun j t ht ↦ ?_, fun j t ht ↦ ?_, fun j k t u ht hu he ↦ ?_, ?_⟩
  · have htotal := h.slots
    simpa [State.accept, List.countP_append, Task.holdsSlot] using htotal
  · simpa [State.accept] using Nat.succ_le_of_lt hroom
  · rcases live_accept ht with ⟨rfl, -⟩ | ⟨-, ht⟩
    · exact List.mem_append_right _ (List.mem_singleton_self _)
    · exact List.mem_append_left _ (h.active j t ht)
  · rcases live_accept ht with ⟨-, hmid, -⟩ | ⟨-, ht⟩
    · exact hmid ▸ List.mem_cons_self
    · exact List.mem_cons_of_mem _ (h.inflight j t ht)
  · rcases live_accept ht with ⟨rfl, hmid, -⟩ | ⟨hj, ht⟩
    · rcases live_accept hu with ⟨rfl, -⟩ | ⟨-, hu⟩
      · rfl
      · exact absurd (he.symm.trans hmid) (hfresh k u hu)
    · rcases live_accept hu with ⟨rfl, hmid, -⟩ | ⟨-, hu⟩
      · exact absurd (he.trans hmid) (hfresh j t ht)
      · exact h.distinct j k t u ht hu he
  · intro m' rest' hm
    cases hm

/-! ## The chain of a session -/

structure Ordered (s : State F) : Prop where
  /-- A task that no longer waits has no unfinished one of its session before it. -/
  order : ∀ j t i u, s.tasks[j]? = some t → t.stage ≠ .waiting → i < j → s.Live i u →
    u.session ≠ t.session
  /-- The previous task of a task is not before any unfinished one. -/
  chain : ∀ j t i u, s.tasks[j]? = some t → i < j → s.Live i u → u.session = t.session →
    ∃ p v, t.previous = some p ∧ i ≤ p ∧ p < j ∧ s.tasks[p]? = some v ∧ v.session = t.session
  tails : ∀ i u, s.Live i u → ∃ p v, s.tails u.session = some p ∧ i ≤ p ∧
    s.tasks[p]? = some v ∧ v.session = u.session

/-- No unfinished task of the session is at a finished one or before it. -/
theorem Ordered.not_done (h : Ordered s) {p i : ℕ} {u v : Task F} (hv : s.tasks[p]? = some v)
    (hu : s.Live i u) (hip : i ≤ p) (hsession : v.session = u.session) : s.done p = false := by
  by_contra hnot
  have hdone : v.isDone = true := by
    simpa [State.done, hv] using hnot
  rcases hip.lt_or_eq with hlt | rfl
  · have hstage : v.stage ≠ .waiting := by
      intro hw
      simp [Task.isDone, hw] at hdone
    exact h.order p v i u hv hstage hlt hu hsession.symm
  · have heq : u = v := Option.some.inj (hu.1.symm.trans hv)
    rw [← heq, hu.2] at hdone
    cases hdone

theorem Ordered.retask {i : ℕ} {t t' : Task F} (h : Ordered s) (hr : Retask s s' i t t') :
    Ordered s' := by
  have hfirst : ∀ k u, k < i → s.Live k u → u.session ≠ t.session := by
    intro k u hk hu hsession
    by_cases hw : t.stage = .waiting
    · obtain ⟨p, v, hprev, hkp, -, hv, hvs⟩ := h.chain i t k u hr.get hk hu hsession
      have hdone := h.not_done hv hu hkp (hvs.trans hsession.symm)
      rw [hr.turn hw p hprev] at hdone
      cases hdone
    · exact h.order i t k u hr.get hw hk hu hsession
  have hlook : ∀ {j : ℕ} {u : Task F}, s'.tasks[j]? = some u → ∃ u₀, s.tasks[j]? = some u₀ ∧
      u₀.session = u.session ∧ u₀.previous = u.previous ∧ (j ≠ i → u₀ = u) := by
    intro j u hu
    rw [hr.getElem?] at hu
    by_cases hj : j = i
    · rw [if_pos hj] at hu
      cases hu
      exact ⟨t, hj ▸ hr.get, hr.session.symm, hr.previous.symm, fun hne ↦ absurd hj hne⟩
    · rw [if_neg hj] at hu
      exact ⟨u, hu, rfl, rfl, fun _ ↦ rfl⟩
  have hkeep : ∀ {p : ℕ} {v : Task F}, s.tasks[p]? = some v → ∃ v', s'.tasks[p]? = some v' ∧
      v'.session = v.session := by
    intro p v hv
    rw [hr.getElem?]
    by_cases hp : p = i
    · have heq : t = v := Option.some.inj (hr.get.symm.trans (hp ▸ hv))
      exact ⟨t', if_pos hp, heq ▸ hr.session⟩
    · exact ⟨v, by rw [if_neg hp, hv], rfl⟩
  refine ⟨fun j u k v hu hstage hk hv ↦ ?_, fun j u k v hu hk hv hsession ↦ ?_, fun k v hv ↦ ?_⟩
  · obtain ⟨v₀, hv₀, -, hvs⟩ := hr.live_before hv
    obtain ⟨u₀, hu₀, hus, -, hsame⟩ := hlook hu
    by_cases hj : j = i
    · have heq : t = u₀ := Option.some.inj (hr.get.symm.trans (hj ▸ hu₀))
      rw [← hvs, ← hus, ← heq]
      exact hfirst k v₀ (hj ▸ hk) hv₀
    · rw [← hvs, ← hus]
      exact h.order j u₀ k v₀ hu₀ (hsame hj ▸ hstage) hk hv₀
  · obtain ⟨v₀, hv₀, -, hvs⟩ := hr.live_before hv
    obtain ⟨u₀, hu₀, hus, hprev, -⟩ := hlook hu
    obtain ⟨p, x, hp, hkp, hpj, hx, hxs⟩ := h.chain j u₀ k v₀ hu₀ hk hv₀
      (hvs.trans (hsession.trans hus.symm))
    obtain ⟨x', hx', hxs'⟩ := hkeep hx
    exact ⟨p, x', hprev ▸ hp, hkp, hpj, hx', hxs'.trans (hxs.trans hus)⟩
  · obtain ⟨v₀, hv₀, -, hvs⟩ := hr.live_before hv
    obtain ⟨p, x, hp, hkp, hx, hxs⟩ := h.tails k v₀ hv₀
    obtain ⟨x', hx', hxs'⟩ := hkeep hx
    exact ⟨p, x', by rw [hr.tails, ← hvs, hp], hkp, hx', hxs'.trans (hxs.trans hvs)⟩

theorem Ordered.continues (h : Ordered s) (hc : Continues c s s') : Ordered s' := by
  have hlive : ∀ {i t}, s'.Live i t → s.Live i t := fun hu ↦ ⟨hc.tasks ▸ hu.1, hu.2⟩
  refine ⟨fun j t i u ht hw hi hu ↦ ?_, fun j t i u ht hi hu hsession ↦ ?_, fun i u hu ↦ ?_⟩
  · exact h.order j t i u (hc.tasks ▸ ht) hw hi (hlive hu)
  · rw [hc.tasks] at ht ⊢
    exact h.chain j t i u ht hi (hlive hu) hsession
  · obtain ⟨p, v, hp, hip, hv, hvs⟩ := h.tails i u (hlive hu)
    rw [hc.tasks]
    rcases hc.tails u.session with hsame | ⟨q, hq, hdone, -⟩
    · exact ⟨p, v, hsame ▸ hp, hip, hv, hvs⟩
    · -- Only finished tails are pruned, and this one has an unfinished task before it.
      have hqp : q = p := Option.some.inj (hq.symm.trans hp)
      have hnot := h.not_done hv (hlive hu) hip hvs
      rw [← hqp, hdone] at hnot
      cases hnot

theorem Ordered.accept {m : ℕ × F} {session : SessionId} {rest : List (ℕ × F)} (h : Ordered s) :
    Ordered (s.accept m session rest) := by
  have hbound : ∀ {j : ℕ} {t : Task F}, s.tasks[j]? = some t → j < s.tasks.length :=
    fun ht ↦ (List.getElem?_eq_some_iff.mp ht).1
  have hkeep : ∀ {j : ℕ} {t : Task F}, s.tasks[j]? = some t →
      (s.accept m session rest).tasks[j]? = some t := by
    intro j t ht
    rw [getElem?_accept, if_neg (hbound ht).ne, ht]
  have hlook : ∀ {j : ℕ} {t : Task F}, (s.accept m session rest).tasks[j]? = some t →
      j = s.tasks.length ∧ t.session = session ∧ t.previous = s.tails session ∧
        t.stage = .waiting ∨ s.tasks[j]? = some t := by
    intro j t ht
    rw [getElem?_accept] at ht
    split at ht
    · rename_i hj
      cases ht
      exact .inl ⟨hj, rfl, rfl, rfl⟩
    · exact .inr ht
  refine ⟨fun j t i u ht hw hi hu ↦ ?_, fun j t i u ht hi hu hsession ↦ ?_, fun i u hu ↦ ?_⟩
  · rcases hlook ht with ⟨-, -, -, hwait⟩ | ht
    · exact absurd hwait hw
    · rcases live_accept hu with ⟨rfl, -⟩ | ⟨-, hu⟩
      · exact absurd (hbound ht) hi.not_gt
      · exact h.order j t i u ht hw hi hu
  · rcases live_accept hu with ⟨rfl, -⟩ | ⟨-, hu⟩
    · rcases hlook ht with ⟨rfl, -⟩ | ht
      · exact absurd hi (lt_irrefl _)
      · exact absurd (hbound ht) hi.not_gt
    · rcases hlook ht with ⟨rfl, hs, hprev, -⟩ | ht
      · obtain ⟨p, v, hp, hip, hv, hvs⟩ := h.tails i u hu
        rw [hsession, hs] at hp
        exact ⟨p, v, hprev.trans hp, hip, hbound hv, hkeep hv, hvs.trans hsession⟩
      · obtain ⟨p, v, hp, hip, hpj, hv, hvs⟩ := h.chain j t i u ht hi hu hsession
        exact ⟨p, v, hp, hip, hpj, hkeep hv, hvs⟩
  · have hnew : (s.accept m session rest).tasks[s.tasks.length]? =
        some ⟨m.1, m.2, session, s.tails session, .waiting⟩ := by
      rw [getElem?_accept, if_pos rfl]
    by_cases hs : u.session = session
    · refine ⟨s.tasks.length, _, if_pos hs, ?_, hnew, hs.symm⟩
      rcases live_accept hu with ⟨rfl, -⟩ | ⟨-, hu⟩
      · exact le_rfl
      · exact (hbound hu.1).le
    · rcases live_accept hu with ⟨-, -, hs'⟩ | ⟨-, hu⟩
      · exact absurd hs' hs
      · obtain ⟨p, v, hp, hip, hv, hvs⟩ := h.tails i u hu
        exact ⟨p, v, (if_neg hs).trans hp, hip, hkeep hv, hvs⟩

/-! ## The history -/

/-- What holds of an event, given the earlier ones. -/
def Lawful (c : Config F) (earlier : List (Event F)) : Event F → Prop
  | .accepted i _ _ => ∀ j mid session, .accepted j mid session ∈ earlier → j < i
  | .started i session => .stopped ∉ earlier ∧ (∃ mid, .accepted i mid session ∈ earlier) ∧
      ∀ j, .started j session ∈ earlier → j < i ∧ ∃ result, .ended j result ∈ earlier
  | .ended i _ => (∃ session, .started i session ∈ earlier) ∧ ∀ result, .ended i result ∉ earlier
  | .acked mid => (∃ i session, .accepted i mid session ∈ earlier ∧
      .ended i (some true) ∈ earlier) ∨ ∃ fields, .deadLettered mid fields ∈ earlier
  | .deadLettered _ fields => c.sessionId fields = none
  | .stopped => True

/-- What the history says about a task at its stage. -/
def StageRecorded (log : List (Event F)) (i : ℕ) (t : Task F) : Prop :=
  match t.stage with
  | .waiting | .queued => ∀ session, .started i session ∉ log
  | .handling => (∀ session, .started i session ∈ log ↔ session = t.session) ∧
      ∀ result, .ended i result ∉ log
  | .acking => (∀ session, .started i session ∈ log → session = t.session) ∧
      .ended i (some true) ∈ log
  | .done _ => ∀ session, .started i session ∈ log → session = t.session ∧
      ∃ result, .ended i result ∈ log

structure Recorded (c : Config F) (s : State F) : Prop where
  lawful : EveryEvent (Lawful c) s.log
  stopped : .stopped ∈ s.log → s.stop = true
  accepted : ∀ i t, s.tasks[i]? = some t → .accepted i t.mid t.session ∈ s.log
  bounded : ∀ i mid session, .accepted i mid session ∈ s.log → i < s.tasks.length
  started : ∀ i session, .started i session ∈ s.log → i < s.tasks.length
  stage : ∀ i t, s.tasks[i]? = some t → StageRecorded s.log i t
  malformed : ∀ m rest, s.main = .deadLettering m rest → c.sessionId m.2 = none

/-- The events of the handler of task `i`. -/
def Event.ofTask (i : ℕ) : Event F → Prop
  | .started j _ | .ended j _ => j = i
  | _ => False

theorem StageRecorded.mono {log log' : List (Event F)} {i : ℕ} {t : Task F}
    (h : StageRecorded log i t)
    (hlog : ∀ e : Event F, e.ofTask i → (e ∈ log' ↔ e ∈ log)) : StageRecorded log' i t := by
  have hstarted : ∀ session, .started i session ∈ log' ↔ .started i session ∈ log :=
    fun _ ↦ hlog _ rfl
  have hended : ∀ result, .ended i result ∈ log' ↔ .ended i result ∈ log := fun _ ↦ hlog _ rfl
  unfold StageRecorded at h ⊢
  cases hs : t.stage <;> simp only [hs, hstarted, hended] at h ⊢ <;> exact h

theorem Recorded.retask {i : ℕ} {t t' : Task F} (h : Recorded c s) (hr : Retask s s' i t t')
    (es : List (Event F)) (hlog : s'.log = es ++ s.log) (hlawful : EveryEvent (Lawful c) s'.log)
    (hes : ∀ e ∈ es, e.ofTask i ∨ ∃ mid, e = .acked mid) (hstage : StageRecorded s'.log i t') :
    Recorded c s' := by
  have hold : ∀ e ∈ s'.log, e ∈ s.log ∨ e.ofTask i ∨ ∃ mid, e = .acked mid := by
    intro e he
    rw [hlog] at he
    rcases List.mem_append.mp he with he | he
    · exact .inr (hes e he)
    · exact .inl he
  have hkeep : ∀ e ∈ s.log, e ∈ s'.log := fun e he ↦ hlog ▸ List.mem_append_right _ he
  have hlength : s'.tasks.length = s.tasks.length := by rw [hr.tasks, List.length_set]
  have hi : i < s.tasks.length := (List.getElem?_eq_some_iff.mp hr.get).1
  refine ⟨hlawful, fun hmem ↦ ?_, fun j u hu ↦ ?_, fun j mid session hmem ↦ ?_,
    fun j session hmem ↦ ?_, fun j u hu ↦ ?_, fun m rest hm ↦ h.malformed m rest (hr.main ▸ hm)⟩
  · rcases hold _ hmem with he | he | ⟨mid, he⟩
    · exact hr.stop ▸ h.stopped he
    · cases he
    · cases he
  · rw [hr.getElem?] at hu
    split at hu
    · rename_i hj
      cases hu
      rw [hr.mid, hr.session, hj]
      exact hkeep _ (h.accepted i t hr.get)
    · exact hkeep _ (h.accepted j u hu)
  · rw [hlength]
    rcases hold _ hmem with he | he | ⟨mid', he⟩
    · exact h.bounded j mid session he
    · cases he
    · cases he
  · rw [hlength]
    rcases hold _ hmem with he | he | ⟨mid, he⟩
    · exact h.started j session he
    · exact (he : j = i) ▸ hi
    · cases he
  · rw [hr.getElem?] at hu
    split at hu
    · rename_i hj
      cases hu
      exact hj ▸ hstage
    · rename_i hj
      refine (h.stage j u hu).mono fun e he ↦ ⟨fun hmem ↦ ?_, hkeep e⟩
      rcases hold e hmem with hin | hi' | ⟨mid, rfl⟩
      · exact hin
      · cases e with
        | started k _ => exact absurd ((he : k = j).symm.trans hi') hj
        | ended k _ => exact absurd ((he : k = j).symm.trans hi') hj
        | _ => cases hi'
      · cases he

/-- When a handler starts, those of its session that started before it have ended. -/
theorem lawful_start (h : Recorded c s) (ho : Ordered s) {i : ℕ} {t : Task F}
    (hget : s.tasks[i]? = some t) (hstage : t.stage = .queued) (hstop : s.stop = false) :
    Lawful c s.log (.started i t.session) := by
  have hrecorded := h.stage i t hget
  simp only [StageRecorded, hstage] at hrecorded
  refine ⟨fun hmem ↦ ?_, ⟨t.mid, h.accepted i t hget⟩, fun j hj ↦ ?_⟩
  · rw [h.stopped hmem] at hstop
    cases hstop
  · have hlt := h.started j t.session hj
    obtain ⟨u, hu⟩ : ∃ u, s.tasks[j]? = some u := ⟨_, List.getElem?_eq_getElem hlt⟩
    have hu' := h.stage j u hu
    have hsession : u.session = t.session ∧ u.stage ≠ .waiting := by
      unfold StageRecorded at hu'
      cases hs : u.stage with
      | waiting => rw [hs] at hu'; exact absurd hj (hu' _)
      | queued => rw [hs] at hu'; exact absurd hj (hu' _)
      | handling => rw [hs] at hu'; exact ⟨((hu'.1 _).mp hj).symm, by simp⟩
      | acking => rw [hs] at hu'; exact ⟨(hu'.1 _ hj).symm, by simp⟩
      | done cancelled => rw [hs] at hu'; exact ⟨(hu' _ hj).1.symm, by simp⟩
    have hti : s.Live i t := ⟨hget, by simp [Task.isDone, hstage]⟩
    rcases lt_trichotomy j i with hji | rfl | hij
    · refine ⟨hji, ?_⟩
      have hdone : u.isDone = true := by
        by_contra hnot
        have hlive : s.Live j u := ⟨hu, Bool.not_eq_true _ ▸ hnot⟩
        exact ho.order i t j u hget (by simp [hstage]) hji hlive hsession.1
      unfold StageRecorded at hu'
      cases hs : u.stage with
      | done cancelled => rw [hs] at hu'; exact (hu' _ hj).2
      | _ => simp [Task.isDone, hs] at hdone
    · exact absurd hj (hrecorded _)
    · exact absurd hsession.1.symm (ho.order j u i t hu hsession.2 hij hti)

theorem Recorded.started_of_ended (h : Recorded c s) {i : ℕ} {result : Option Bool}
    (he : .ended i result ∈ s.log) : ∃ session, .started i session ∈ s.log := by
  obtain ⟨later, earlier, hlog, ⟨session, hstarted⟩, -⟩ := h.lawful.of_mem he
  exact ⟨session, hlog ▸ List.mem_append_right _ (List.mem_cons_of_mem _ hstarted)⟩

/-- The end of a task whose handler never ran, or ended before. -/
theorem StageRecorded.finished {log : List (Event F)} {i : ℕ} {t t' : Task F} {cancelled : Bool}
    (h : StageRecorded log i t) (hstage : t.stage ≠ .handling) (ht' : t'.stage = .done cancelled)
    (hsession : t'.session = t.session) : StageRecorded log i t' := by
  unfold StageRecorded at h ⊢
  rw [ht', hsession]
  intro session hmem
  cases hs : t.stage with
  | waiting => rw [hs] at h; exact absurd hmem (h session)
  | queued => rw [hs] at h; exact absurd hmem (h session)
  | handling => exact absurd hs hstage
  | acking => rw [hs] at h; exact ⟨h.1 session hmem, _, h.2⟩
  | done c => rw [hs] at h; exact h session hmem

theorem Recorded.task {i : ℕ} {t : Task F} (h : Recorded c s) (ho : Ordered s)
    (hget : s.tasks[i]? = some t) (he : TaskEffect s i t s') : Recorded c s' := by
  have hrecorded := h.stage i t hget
  obtain ⟨t', hr, -⟩ := he.retask hget
  have ht' : s'.tasks[i]? = some t' := by rw [hr.getElem?, if_pos rfl]
  have hset : ∀ u, (s.tasks.set i u)[i]? = some u := fun u ↦ by
    rw [getElem?_set_of hget, if_pos rfl]
  cases he with
  | queue hstage hprevious =>
      have heq := Option.some.inj (ht'.symm.trans (hset _))
      refine h.retask hr [] rfl h.lawful (fun _ he ↦ nomatch he) ?_
      unfold StageRecorded at hrecorded ⊢
      rw [hstage] at hrecorded
      rw [heq]
      exact hrecorded
  | start hstage hslots hstop =>
      have heq := Option.some.inj (ht'.symm.trans (hset _))
      have hlawful := lawful_start h ho hget hstage hstop
      refine h.retask hr [.started i t.session] rfl ⟨hlawful, h.lawful⟩ (fun e he ↦ ?_) ?_
      · rw [List.mem_singleton.mp he]
        exact .inl rfl
      · unfold StageRecorded at hrecorded ⊢
        rw [hstage] at hrecorded
        rw [heq]
        refine ⟨fun session ↦ ⟨fun hmem ↦ ?_, fun hs ↦ hs ▸ List.mem_cons_self⟩, fun r hmem ↦ ?_⟩
        · rcases List.mem_cons.mp hmem with hnew | hold
          · cases hnew
            rfl
          · exact absurd hold (hrecorded session)
        · rcases List.mem_cons.mp hmem with hnew | hold
          · cases hnew
          · obtain ⟨session, hstarted⟩ := h.started_of_ended hold
            exact hrecorded session hstarted
  | ack hstage =>
      have heq := Option.some.inj (ht'.symm.trans (hset _))
      unfold StageRecorded at hrecorded
      rw [hstage] at hrecorded
      refine h.retask hr [.ended i (some true)] rfl ⟨?_, h.lawful⟩ (fun e he ↦ ?_) ?_
      · exact ⟨⟨t.session, (hrecorded.1 _).mpr rfl⟩, hrecorded.2⟩
      · rw [List.mem_singleton.mp he]
        exact .inl rfl
      · unfold StageRecorded
        rw [heq]
        refine ⟨fun session hmem ↦ ?_, List.mem_cons_self⟩
        rcases List.mem_cons.mp hmem with hnew | hold
        · cases hnew
        · exact (hrecorded.1 session).mp hold
  | abandon hstage hprevious =>
      have heq := Option.some.inj (ht'.symm.trans (hset _))
      refine h.retask hr [] rfl h.lawful (fun _ he ↦ nomatch he) ?_
      exact hrecorded.finished (by simp [hstage]) (congrArg Task.stage heq) hr.session
  | refuse hstage =>
      have heq := Option.some.inj (ht'.symm.trans (hset _))
      refine h.retask hr [] rfl h.lawful (fun _ he ↦ nomatch he) ?_
      exact hrecorded.finished (by simp [hstage]) (congrArg Task.stage heq) hr.session
  | giveUp hstage result cancelled =>
      have heq := Option.some.inj (ht'.symm.trans (hset _))
      unfold StageRecorded at hrecorded
      rw [hstage] at hrecorded
      refine h.retask hr [.ended i result] rfl ⟨?_, h.lawful⟩ (fun e he ↦ ?_) ?_
      · exact ⟨⟨t.session, (hrecorded.1 _).mpr rfl⟩, hrecorded.2⟩
      · rw [List.mem_singleton.mp he]
        exact .inl rfl
      · unfold StageRecorded
        rw [heq]
        intro session hmem
        rcases List.mem_cons.mp hmem with hnew | hold
        · cases hnew
        · exact ⟨(hrecorded.1 session).mp hold, result, List.mem_cons_self⟩
  | acked hstage =>
      have heq := Option.some.inj (ht'.symm.trans (hset _))
      refine h.retask hr [.acked t.mid] rfl ⟨?_, h.lawful⟩ (fun e he ↦ ?_) ?_
      · have hended : .ended i (some true) ∈ s.log := by
          unfold StageRecorded at hrecorded
          rw [hstage] at hrecorded
          exact hrecorded.2
        exact .inl ⟨i, t.session, h.accepted i t hget, hended⟩
      · exact .inr ⟨t.mid, List.mem_singleton.mp he⟩
      · have hfinished := hrecorded.finished (by simp [hstage]) (congrArg Task.stage heq) hr.session
        refine hfinished.mono fun e he ↦ ⟨fun hmem ↦ ?_, List.mem_cons_of_mem _⟩
        rcases List.mem_cons.mp hmem with rfl | hold
        · cases he
        · exact hold
  | ackLost hstage =>
      have heq := Option.some.inj (ht'.symm.trans (hset _))
      refine h.retask hr [] rfl h.lawful (fun _ he ↦ nomatch he) ?_
      exact hrecorded.finished (by simp [hstage]) (congrArg Task.stage heq) hr.session

theorem Recorded.continues (h : Recorded c s) (hc : Continues c s s')
    (es : List (Event F)) (hlog : s'.log = es ++ s.log) (hstop : s'.stop = s.stop)
    (hlawful : EveryEvent (Lawful c) s'.log)
    (hes : ∀ e ∈ es, (∃ mid, e = .acked mid) ∨ ∃ mid fields, e = .deadLettered mid fields) :
    Recorded c s' := by
  have hold : ∀ e ∈ s'.log, e ∈ s.log ∨ (∃ mid, e = .acked mid) ∨
      ∃ mid fields, e = .deadLettered mid fields := by
    intro e he
    rw [hlog] at he
    rcases List.mem_append.mp he with he | he
    · exact .inr (hes e he)
    · exact .inl he
  have hkeep : ∀ e ∈ s.log, e ∈ s'.log := fun e he ↦ hlog ▸ List.mem_append_right _ he
  refine ⟨hlawful, fun hmem ↦ ?_, fun j u hu ↦ ?_, fun j mid session hmem ↦ ?_,
    fun j session hmem ↦ ?_, fun j u hu ↦ ?_, hc.malformed⟩
  · rcases hold _ hmem with he | ⟨_, he⟩ | ⟨_, _, he⟩
    · exact hstop ▸ h.stopped he
    · cases he
    · cases he
  · exact hkeep _ (h.accepted j u (hc.tasks ▸ hu))
  · rw [hc.tasks]
    rcases hold _ hmem with he | ⟨_, he⟩ | ⟨_, _, he⟩
    · exact h.bounded j mid session he
    · cases he
    · cases he
  · rw [hc.tasks]
    rcases hold _ hmem with he | ⟨_, he⟩ | ⟨_, _, he⟩
    · exact h.started j session he
    · cases he
    · cases he
  · refine (h.stage j u (hc.tasks ▸ hu)).mono fun e he ↦ ⟨fun hmem ↦ ?_, hkeep e⟩
    rcases hold e hmem with hin | ⟨_, rfl⟩ | ⟨_, _, rfl⟩
    · exact hin
    · cases he
    · cases he

theorem Recorded.accept {m : ℕ × F} {session : SessionId} {rest : List (ℕ × F)}
    (h : Recorded c s) : Recorded c (s.accept m session rest) := by
  have hold : ∀ e ∈ (s.accept m session rest).log,
      e = .accepted s.tasks.length m.1 session ∨ e ∈ s.log := fun e he ↦ List.mem_cons.mp he
  have hlength : (s.accept m session rest).tasks.length = s.tasks.length + 1 := by
    simp [State.accept]
  refine ⟨⟨?_, h.lawful⟩, fun hmem ↦ ?_, fun j u hu ↦ ?_, fun j mid sid hmem ↦ ?_,
    fun j sid hmem ↦ ?_, fun j u hu ↦ ?_, fun _ _ hm ↦ nomatch hm⟩
  · exact fun j mid sid hmem ↦ h.bounded j mid sid hmem
  · rcases hold _ hmem with he | he
    · cases he
    · exact h.stopped he
  · rw [getElem?_accept] at hu
    split at hu
    · rename_i hj
      cases hu
      exact hj ▸ List.mem_cons_self
    · exact List.mem_cons_of_mem _ (h.accepted j u hu)
  · rw [hlength]
    rcases hold _ hmem with he | he
    · cases he
      exact Nat.lt_succ_self _
    · exact Nat.lt_succ_of_lt (h.bounded j mid sid he)
  · rw [hlength]
    rcases hold _ hmem with he | he
    · cases he
    · exact Nat.lt_succ_of_lt (h.started j sid he)
  · rw [getElem?_accept] at hu
    split at hu
    · rename_i hj
      cases hu
      intro sid hmem
      rcases hold _ hmem with he | he
      · cases he
      · exact absurd (h.started j sid he) (hj ▸ lt_irrefl _)
    · refine (h.stage j u hu).mono fun e he ↦ ⟨fun hmem ↦ ?_, List.mem_cons_of_mem _⟩
      rcases hold e hmem with rfl | hin
      · cases he
      · exact hin

/-! ## Every run -/

structure Inv (c : Config F) (s : State F) : Prop where
  control : Control c s
  ordered : Ordered s
  recorded : Recorded c s

theorem inv_start (c : Config F) : Inv c (.start c) := by
  have hnone : ∀ (i : ℕ) (t : Task F), (State.start c).tasks[i]? ≠ some t := fun i t h ↦ by
    cases h
  refine ⟨⟨?_, Nat.zero_le _, fun i t h ↦ absurd h.1 (hnone i t),
    fun i t h ↦ absurd h.1 (hnone i t), fun i _ t _ h ↦ absurd h.1 (hnone i t),
    fun _ _ hm ↦ nomatch hm⟩, ⟨fun j t _ _ h ↦ absurd h (hnone j t),
    fun j t _ _ h ↦ absurd h (hnone j t), fun i u h ↦ absurd h.1 (hnone i u)⟩, ⟨trivial, ?_,
    fun i t h ↦ absurd h (hnone i t), ?_, ?_, fun i t h ↦ absurd h (hnone i t),
    fun _ _ hm ↦ nomatch hm⟩⟩
  · simp [State.start]
  · intro hmem
    cases hmem
  · intro i mid session hmem
    cases hmem
  · intro i session hmem
    cases hmem

theorem Inv.continues (h : Inv c s) (hc : Continues c s s') (hlog : s'.log = s.log)
    (hstop : s'.stop = s.stop) : Inv c s' := by
  refine ⟨h.control.continues hc, h.ordered.continues hc, h.recorded.continues hc [] hlog
    hstop ?_ fun _ he ↦ nomatch he⟩
  rw [hlog]
  exact h.recorded.lawful

/-- A step that only moves the coroutine. -/
theorem continues_at {main : Main F} (haccept : ∀ m rest, main = .accept m rest → m.1 ∉ s.inflight)
    (hdead : ∀ m rest, main = .deadLettering m rest → c.sessionId m.2 = none) :
    Continues c s (s.at_ main) :=
  ⟨rfl, rfl, rfl, .inl rfl, fun _ ↦ .inl rfl, haccept, hdead⟩

theorem received_moves (s : State F) (messages : List (ℕ × F)) :
    s.received messages = .repeated messages ∨ s.received messages = .batch messages := by
  unfold State.received
  split
  · exact .inl rfl
  · exact .inr rfl

/-- The coroutine goes on to a place at which it knows nothing of a message. -/
theorem Inv.move (h : Inv c s) {main : Main F} (haccept : ∀ m rest, main ≠ .accept m rest)
    (hdead : ∀ m rest, main ≠ .deadLettering m rest) : Inv c (s.at_ main) :=
  h.continues (continues_at (fun m rest he ↦ absurd he (haccept m rest))
    fun m rest he ↦ absurd he (hdead m rest)) rfl rfl

theorem Inv.received (h : Inv c s) (messages : List (ℕ × F)) :
    Inv c (s.at_ (s.received messages)) := by
  rcases received_moves s messages with he | he
  · exact he ▸ h.move (by simp) (by simp)
  · exact he ▸ h.move (by simp) (by simp)

/-- The head of the loop drops the tasks that are done, and the tails that are. -/
theorem Inv.loop (h : Inv c s) (hs : mainStep c s .loop = some s') : Inv c s' := by
  simp only [mainStep] at hs
  split at hs
  · split at hs
    · cases hs
      refine h.continues ⟨rfl, rfl, rfl, .inr rfl, fun _ ↦ .inl rfl, ?_, ?_⟩ rfl rfl
      · intro m rest hm
        dsimp only at hm
        split at hm <;> cases hm
      · intro m rest hm
        dsimp only at hm
        split at hm <;> cases hm
    · cases hs
      refine h.continues ⟨rfl, rfl, rfl, .inr rfl, fun sid ↦ ?_, ?_, ?_⟩ rfl rfl
      · cases htail : s.tails sid with
        | none => exact .inl (by simp [htail])
        | some i =>
            by_cases hi : s.done i = true
            · exact .inr ⟨i, rfl, hi, by simp [htail, hi]⟩
            · exact .inl (by simp [htail, hi])
      · intro m rest hm
        dsimp only at hm
        split at hm <;> cases hm
      · intro m rest hm
        dsimp only at hm
        split at hm <;> cases hm
  · cases hs

theorem Inv.claimed {messages : List (ℕ × F)} (h : Inv c s)
    (hs : mainStep c s (.claimed messages) = some s') : Inv c s' := by
  simp only [mainStep] at hs
  split at hs
  · cases hs
    split
    · exact h.move (by simp) (by simp)
    · exact h.received messages
  · cases hs

theorem Inv.wake (h : Inv c s) (hs : mainStep c s .wake = some s') : Inv c s' := by
  simp only [mainStep] at hs
  split at hs
  · split at hs <;> cases hs
    exact h.move (by simp) (by simp)
  · cases hs
    exact h.move (by simp) (by simp)
  · cases hs
    exact h.move (by simp) (by simp)
  · split at hs <;> cases hs
    rename_i m rest hmain _
    refine h.continues ⟨rfl, rfl, rfl, .inr rfl, fun _ ↦ .inl rfl, ?_, ?_⟩ rfl rfl
    · exact fun m' rest' hm ↦ h.control.accepting m' rest' hm
    · exact fun m' rest' hm ↦ h.recorded.malformed m' rest' hm
  · cases hs

/-- The next message of a batch is in flight, malformed or accepted. -/
theorem Inv.next (h : Inv c s) (hs : mainStep c s .next = some s') : Inv c s' := by
  simp only [mainStep] at hs
  split at hs
  · cases hs
    exact h.move (by simp) (by simp)
  · rename_i m rest hmain
    cases hs
    split
    · exact h.move (by simp) (by simp)
    · rename_i hnot
      refine h.continues (continues_at (fun m' rest' he ↦ ?_) fun _ _ he ↦ nomatch he) rfl rfl
      cases he
      simpa using hnot
  · rename_i m rest hmain
    split at hs
    · cases hs
    · rename_i hroom
      split at hs
      · rename_i hsession
        cases hs
        refine h.continues (continues_at (fun _ _ he ↦ nomatch he) fun m' rest' he ↦ ?_) rfl rfl
        cases he
        exact hsession
      · cases hs
        exact ⟨h.control.accept hmain (not_le.mp hroom), h.ordered.accept, h.recorded.accept⟩
  · cases hs

/-- A dead letter is acknowledged. -/
theorem Inv.deadLettered (h : Inv c s) (hs : mainStep c s .deadLettered = some s') :
    Inv c s' := by
  simp only [mainStep] at hs
  split at hs
  · rename_i m rest hmain
    cases hs
    have hc : Continues c s (((s.emit (.deadLettered m.1 m.2)).emit (.acked m.1)).at_
        (.batch rest)) :=
      ⟨rfl, rfl, rfl, .inl rfl, fun _ ↦ .inl rfl, (fun _ _ he ↦ nomatch he),
        (fun _ _ he ↦ nomatch he)⟩
    have hmalformed : c.sessionId m.2 = none := h.recorded.malformed m rest hmain
    refine ⟨h.control.continues hc, h.ordered.continues hc,
      h.recorded.continues hc [.acked m.1, .deadLettered m.1 m.2] rfl rfl
        ⟨.inr ⟨m.2, List.mem_cons_self⟩, hmalformed, h.recorded.lawful⟩ fun e he ↦ ?_⟩
    rcases List.mem_pair.mp he with rfl | rfl
    · exact .inl ⟨_, rfl⟩
    · exact .inr ⟨_, _, rfl⟩
  · cases hs

theorem Inv.main {a : MainAction F} (h : Inv c s) (hs : mainStep c s a = some s') : Inv c s' := by
  cases a with
  | loop => exact h.loop hs
  | claimed messages => exact h.claimed hs
  | read messages =>
      simp only [mainStep] at hs
      split at hs <;> cases hs
      exact h.received messages
  | readFails =>
      simp only [mainStep] at hs
      split at hs <;> cases hs <;> exact h.move (by simp) (by simp)
  | wake => exact h.wake hs
  | next => exact h.next hs
  | deadLettered => exact h.deadLettered hs
  | drained =>
      simp only [mainStep] at hs
      split at hs <;> cases hs
      exact h.move (by simp) (by simp)
  | leave =>
      cases hs
      exact h.move (by simp) (by simp)

theorem Inv.task {i : ℕ} {t : Task F} (h : Inv c s) (hget : s.tasks[i]? = some t)
    (he : TaskEffect s i t s') : Inv c s' := by
  obtain ⟨t', hr, -⟩ := he.retask hget
  exact ⟨h.control.retask hr, h.ordered.retask hr, h.recorded.task h.ordered hget he⟩

theorem Inv.stop (h : Inv c s) : Inv c ({ s with stop := true }.emit .stopped) := by
  have hc : Continues c s ({ s with stop := true }.emit .stopped) :=
    ⟨rfl, rfl, rfl, .inl rfl, fun _ ↦ .inl rfl, h.control.accepting, h.recorded.malformed⟩
  have hold : ∀ e ∈ .stopped :: s.log, e = .stopped ∨ e ∈ s.log := fun e he ↦ List.mem_cons.mp he
  refine ⟨h.control.continues hc, h.ordered.continues hc, ⟨⟨trivial, h.recorded.lawful⟩,
    fun _ ↦ rfl, fun j u hu ↦ List.mem_cons_of_mem _ (h.recorded.accepted j u hu),
    fun j mid session hmem ↦ ?_, fun j session hmem ↦ ?_, fun j u hu ↦ ?_, h.recorded.malformed⟩⟩
  · exact h.recorded.bounded j mid session ((hold _ hmem).resolve_left fun he ↦ nomatch he)
  · exact h.recorded.started j session ((hold _ hmem).resolve_left fun he ↦ nomatch he)
  · refine (h.recorded.stage j u hu).mono fun e he ↦ ⟨fun hmem ↦ ?_, List.mem_cons_of_mem _⟩
    rcases hold e hmem with rfl | hin
    · cases he
    · exact hin

theorem inv_of_reachable (h : (scheduler c).Reachable s) : Inv c s := by
  refine h.invariant (fun s hs ↦ hs ▸ inv_start c) fun s s' a hinv hs ↦ ?_
  change step c s a = some s' at hs
  unfold step at hs
  split at hs
  · cases hs
  · cases a with
    | main a => exact hinv.main hs
    | task i a =>
        obtain ⟨t, hget, hstep⟩ := Option.bind_eq_some_iff.mp hs
        exact hinv.task hget (taskStep_effect hstep)
    | stop =>
        cases hs
        exact hinv.stop

/-- The tasks that were accepted and have not ended. -/
def State.unfinished (s : State F) : List ℕ :=
  (List.range s.tasks.length).filter fun i ↦ !s.done i

theorem Control.unfinished_le (h : Control c s) : s.unfinished.length ≤ c.queueCapacity := by
  refine (List.Subperm.length_le ?_).trans h.capacity
  refine List.subperm_of_subset (List.nodup_range.filter _) fun i hi ↦ ?_
  obtain ⟨hlt, hdone⟩ := List.mem_filter.mp hi
  have hget := List.getElem?_eq_getElem (List.mem_range.mp hlt)
  refine h.active i _ ⟨hget, ?_⟩
  simpa [State.done, hget] using hdone

theorem Control.handling_le (h : Control c s) :
    s.tasks.countP Task.isHandling ≤ c.concurrency := by
  have hslots : s.tasks.countP Task.isHandling ≤ s.tasks.countP Task.holdsSlot := by
    refine List.countP_mono_left fun t _ ht ↦ ?_
    simp only [Task.isHandling, decide_eq_true_eq] at ht
    simp [Task.holdsSlot, ht]
  have htotal := h.slots
  omega

/-- In every run: handlers of one session run one at a time and in the order of admission,
none starts after `stop`, the bounds hold, no message is held twice, and a message is only
acknowledged after its handler returned true or when its payload is malformed. -/
theorem input_scheduler (h : (scheduler c).Reachable s) :
    (∀ later earlier i session, s.log = later ++ .started i session :: earlier →
      .stopped ∉ earlier ∧ (∃ mid, .accepted i mid session ∈ earlier) ∧
        ∀ j, .started j session ∈ earlier → j < i ∧ ∃ result, .ended j result ∈ earlier) ∧
    (∀ later earlier i mid session, s.log = later ++ .accepted i mid session :: earlier →
      ∀ j mid' session', .accepted j mid' session' ∈ earlier → j < i) ∧
    s.tasks.countP Task.isHandling ≤ c.concurrency ∧
    s.unfinished.length ≤ 8 * c.concurrency ∧
    (∀ (i j : ℕ) (t u : Task F), s.tasks[i]? = some t → s.tasks[j]? = some u →
      t.isDone = false → u.isDone = false → t.mid = u.mid → i = j) ∧
    ∀ later earlier mid, s.log = later ++ .acked mid :: earlier →
      (∃ i session, .accepted i mid session ∈ earlier ∧ .ended i (some true) ∈ earlier) ∨
        ∃ fields, c.sessionId fields = none ∧ .deadLettered mid fields ∈ earlier := by
  have hinv := inv_of_reachable h
  refine ⟨fun later earlier i session hlog ↦ hinv.recorded.lawful.split hlog,
    fun later earlier i mid session hlog ↦ hinv.recorded.lawful.split hlog,
    hinv.control.handling_le, ?_, fun i j t u ht hu hlive hlive' hmid ↦ ?_,
    fun later earlier mid hlog ↦ ?_⟩
  · exact hinv.control.unfinished_le.trans_eq (Nat.mul_comm _ _)
  · exact hinv.control.distinct i j t u ⟨ht, hlive⟩ ⟨hu, hlive'⟩ hmid
  · rcases hinv.recorded.lawful.split hlog with hhandled | ⟨fields, hdead⟩
    · exact .inl hhandled
    · obtain ⟨later', earlier', hlog', hmalformed⟩ := hinv.recorded.lawful.of_mem
        (hlog ▸ List.mem_append_right _ (List.mem_cons_of_mem _ hdead))
      exact .inr ⟨fields, hmalformed, hdead⟩

/-- Messages whose payload is the session itself. -/
def sampleConfig : Config (Option SessionId) := ⟨id, 1⟩

/-- The second message of a session starts after the first was answered. -/
def sampleState : State (Option SessionId) :=
  ((scheduler sampleConfig).run (.start sampleConfig) (
    [.main .loop, .main (.claimed []), .main (.read [(10, some 1), (11, some 1)]),
      .main .next, .main .next, .main .next, .main .next] ++
    [TaskAction.proceed, .acquire, .returns true, .acked].map (.task 0) ++
    [TaskAction.proceed, .acquire].map (.task 1))).get (by decide +kernel)

theorem sampleConfig_init : (scheduler sampleConfig).init (.start sampleConfig) := rfl

theorem sampleState_reachable : (scheduler sampleConfig).Reachable sampleState :=
  TransitionSystem.reachable_of_run sampleConfig_init (Option.some_get _).symm

theorem input_scheduler_second : ∃ earlier, sampleState.log = .started 1 1 :: earlier ∧
    .stopped ∉ earlier ∧ (∃ mid, .accepted 1 mid 1 ∈ earlier) ∧
      ∀ j, .started j 1 ∈ earlier → j < 1 ∧ ∃ result, .ended j result ∈ earlier := by
  have hlog : sampleState.log = .started 1 1 :: sampleState.log.tail := by decide +kernel
  exact ⟨_, hlog, (input_scheduler sampleState_reachable).1 [] _ 1 1 hlog⟩

/-- A malformed message is read and dead-lettered. -/
def malformedState : State (Option SessionId) :=
  ((scheduler sampleConfig).run (.start sampleConfig)
    [.main .loop, .main (.claimed [(10, none)]), .main .next, .main .next,
      .main .deadLettered]).get (by decide +kernel)

theorem malformedState_reachable : (scheduler sampleConfig).Reachable malformedState :=
  TransitionSystem.reachable_of_run sampleConfig_init (Option.some_get _).symm

theorem malformed_acked_without_handler :
    ¬ ∀ (c : Config (Option SessionId)) (s : State (Option SessionId)),
      (scheduler c).Reachable s → ∀ later earlier mid, s.log = later ++ .acked mid :: earlier →
        ∃ i session, .accepted i mid session ∈ earlier ∧ .ended i (some true) ∈ earlier := by
  intro hclaim
  have hlog : malformedState.log = [] ++ .acked 10 :: [.deadLettered 10 none] := by decide +kernel
  obtain ⟨i, session, haccepted, -⟩ := hclaim sampleConfig malformedState
    malformedState_reachable [] _ 10 hlog
  cases List.mem_singleton.mp haccepted

end InputScheduler

end Discode

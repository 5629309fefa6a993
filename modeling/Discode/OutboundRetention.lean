import Discode.OutboundStream

/-!
# No outbound message is lost

Whatever the dispatchers, the relays, the trims and the operator do, a message that was added
to the stream is waiting for its dispatcher, was handled, or is retained as a dead letter; what
was replayed is kept under its new id.  Each dispatcher promises this for its own calls, and the
promises of all of them together give the invariant.
-/

set_option autoImplicit false

namespace Discode

namespace Outbound

open Coroutine
open ConsumerLoops (Call ask readMessages processDispatcherMessage dispatcherMessage
  dispatcherBody consumeDispatcherStream retainExhausted)

variable {F ε : Type}

/-- Where the message that was added as `id` is to be found. -/
inductive Kept (w : Redis F) : ℕ → F → Prop where
  | outstanding {id : ℕ} {f : F} (hmem : (id, f) ∈ w.stream.entries)
      (hw : w.stream.Waiting () id) : Kept w id f
  | handled {id : ℕ} {f : F} (h : .handled id f (some true) ∈ w.log) : Kept w id f
  | retained {id : ℕ} {f : F} (h : w.deadLetters id = some f) : Kept w id f
  | replayed {id id' : ℕ} {f : F} (h : .replayed id id' ∈ w.log) (hkept : Kept w id' f) :
      Kept w id f

/-- What a step does to the places where messages are. -/
theorem Kept.map {w w' : Redis F} {id : ℕ} {f : F} (h : Kept w id f)
    (hlog : ∀ e ∈ w.log, e ∈ w'.log)
    (hstream : ∀ id f, (id, f) ∈ w.stream.entries → w.stream.Waiting () id → Kept w' id f)
    (hdead : ∀ id f, w.deadLetters id = some f → Kept w' id f) : Kept w' id f := by
  induction h with
  | outstanding hmem hw => exact hstream _ _ hmem hw
  | handled h => exact .handled (hlog _ h)
  | retained h => exact hdead _ _ h
  | replayed h _ ih => exact .replayed (hlog _ h) ih

/-- The floor of a call of `trim_acknowledged` is below everything unacknowledged. -/
def SafeStage (s : ConsumerStream Unit ℕ F) : TrimStage → Prop
  | .start => True
  | .groupRead floor => floor ≤ (s.groups ()).lastDelivered
  | .pendingRead floor => s.Acknowledged () floor

theorem safeStage_grows {s s' : ConsumerStream Unit ℕ F} {stage : TrimStage}
    (h : SafeStage s stage) (hs : s.Grows s') : SafeStage s' stage := by
  cases stage with
  | start => trivial
  | groupRead floor => exact h.trans (hs.delivered ())
  | pendingRead floor => exact ConsumerStream.Acknowledged.grows h hs

structure Inv (maxDeliveries : ℕ) (w : Redis F) : Prop where
  held : w.stream.Held ()
  entries : ∀ id f, (id, f) ∈ w.stream.entries → .added id f ∈ w.log
  bounded : ∀ id f, .added id f ∈ w.log → id ≤ w.stream.lastId
  unique : ∀ id f g, .added id f ∈ w.log → .added id g ∈ w.log → f = g
  counts : ∀ id ∈ w.pending, w.timesDelivered id ≤ w.deliveries id
  dead : ∀ id f, w.deadLetters id = some f → .added id f ∈ w.log ∧
    maxDeliveries ≤ w.deliveries id
  kept : ∀ id f, .added id f ∈ w.log → Kept w id f
  trims : ∀ stage ∈ w.trims, SafeStage w.stream stage

theorem deliveries_append (w : Redis F) (newer : List (Event F)) {w' : Redis F}
    (h : w'.log = newer ++ w.log) (id : ℕ) : w.deliveries id ≤ w'.deliveries id := by
  unfold Redis.deliveries
  rw [h, List.countP_append]
  exact Nat.le_add_left _ _

/-! ## What the calls do -/

section Steps

variable {maxDeliveries : ℕ} {w w' : Redis F}

/-- A message read or claimed is counted in the history. -/
theorem deliveries_messages {messages : List (ℕ × F)} {log : List (Event F)} {id : ℕ}
    (h : messages.any (fun e ↦ e.1 = id) = true) :
    log.countP (Event.isDelivery id) + 1 ≤
      (messages.map (fun e : ℕ × F ↦ (.delivered e.1 : Event F)) ++ log).countP
        (Event.isDelivery id) := by
  obtain ⟨e, he, hid⟩ := List.any_eq_true.mp h
  have hpos : 0 < (messages.map fun e : ℕ × F ↦ (.delivered e.1 : Event F)).countP
      (Event.isDelivery id) :=
    List.countP_pos_iff.mpr ⟨_, List.mem_map_of_mem he, hid⟩
  rw [List.countP_append]
  omega

theorem Inv.claim (h : Inv maxDeliveries w) (scanned : List ℕ) :
    Inv maxDeliveries (w.claim scanned) := by
  have hlog : ∀ e ∈ w.log, e ∈ (w.claim scanned).log := fun e he ↦ List.mem_append_right _ he
  have hadded : ∀ id f, .added id f ∈ (w.claim scanned).log → .added id f ∈ w.log := by
    intro id f hmem
    rcases List.mem_append.mp hmem with hnew | hold
    · obtain ⟨e, -, he⟩ := List.mem_map.mp hnew
      cases he
    · exact hold
  have hpending : (w.claim scanned).pending = w.pending := h.held.pending_claim scanned
  have hgrows := w.stream.grows_claim () scanned
  refine ⟨h.held.claim scanned, fun id f hmem ↦ hlog _ (h.entries id f hmem), fun id f hmem ↦
    h.bounded id f (hadded id f hmem), fun id f g hf hg ↦ h.unique id f g (hadded id f hf)
    (hadded id g hg), fun id hid ↦ ?_, fun id f hf ↦ ?_, fun id f hmem ↦ ?_, fun stage hstage ↦
    safeStage_grows (h.trims stage hstage) hgrows⟩
  · rw [hpending] at hid
    have hcount := h.counts id hid
    unfold Redis.claim
    dsimp only
    split
    · rename_i hany
      exact (Nat.add_le_add_right hcount 1).trans (deliveries_messages hany)
    · exact hcount.trans (deliveries_append w _ rfl id)
  · obtain ⟨hmem, hmax⟩ := h.dead id f hf
    exact ⟨hlog _ hmem, hmax.trans (deliveries_append w _ rfl id)⟩
  · refine (h.kept id f (hadded id f hmem)).map hlog (fun id f hmem hw ↦ ?_) fun _ _ hf ↦
      .retained hf
    refine .outstanding hmem ?_
    rcases hw with hlt | hp
    · exact .inl (by simpa [Redis.claim, ConsumerStream.claim] using hlt)
    · exact .inr (show id ∈ (w.claim scanned).pending by rw [hpending]; exact hp)

theorem Inv.readNew (h : Inv maxDeliveries w) (count : ℕ) :
    Inv maxDeliveries (w.readNew count) := by
  have hlog : ∀ e ∈ w.log, e ∈ (w.readNew count).log := fun e he ↦ List.mem_append_right _ he
  have hadded : ∀ id f, .added id f ∈ (w.readNew count).log → .added id f ∈ w.log := by
    intro id f hmem
    rcases List.mem_append.mp hmem with hnew | hold
    · obtain ⟨e, -, he⟩ := List.mem_map.mp hnew
      cases he
    · exact hold
  have hgrows := w.stream.grows_readNew () count
  refine ⟨h.held.readNew count, fun id f hmem ↦ hlog _ (h.entries id f hmem), fun id f hmem ↦
    h.bounded id f (hadded id f hmem), fun id f g hf hg ↦ h.unique id f g (hadded id f hf)
    (hadded id g hg), fun id hid ↦ ?_, fun id f hf ↦ ?_, fun id f hmem ↦ ?_, fun stage hstage ↦
    safeStage_grows (h.trims stage hstage) hgrows⟩
  · unfold Redis.readNew
    dsimp only
    split
    · rename_i hany
      exact (Nat.le_add_left 1 _).trans (deliveries_messages hany)
    · rename_i hany
      have hold : id ∈ w.pending := by
        rcases ConsumerStream.mem_pending_readNew.mp hid with hold | ⟨a, ha⟩
        · exact hold
        · exact absurd (List.any_eq_true.mpr ⟨_, ha, decide_eq_true rfl⟩) hany
      exact (h.counts id hold).trans (deliveries_append w _ rfl id)
  · obtain ⟨hmem, hmax⟩ := h.dead id f hf
    exact ⟨hlog _ hmem, hmax.trans (deliveries_append w _ rfl id)⟩
  · exact (h.kept id f (hadded id f hmem)).map hlog (fun id f hmem hw ↦
      .outstanding hmem (ConsumerStream.Waiting.readNew hmem hw () count)) fun _ _ hf ↦ .retained hf

theorem Inv.handled (h : Inv maxDeliveries w) (id : ℕ) (fields : F) (result : Option Bool) :
    Inv maxDeliveries { w with log := .handled id fields result :: w.log } := by
  have hlog : ∀ e ∈ w.log, e ∈ Event.handled id fields result :: w.log := fun e he ↦
    List.mem_cons_of_mem _ he
  have hadded : ∀ id' f, .added id' f ∈ Event.handled id fields result :: w.log →
      .added id' f ∈ w.log :=
    fun id' f hmem ↦ (List.mem_cons.mp hmem).resolve_left (by simp)
  refine ⟨h.held, fun id f hmem ↦ hlog _ (h.entries id f hmem), fun id f hmem ↦
    h.bounded id f (hadded id f hmem), fun id f g hf hg ↦ h.unique id f g (hadded id f hf)
    (hadded id g hg), fun id hid ↦ (h.counts id hid).trans (deliveries_append w [_] rfl id),
    fun id f hf ↦ ?_, fun id f hmem ↦ ?_, h.trims⟩
  · obtain ⟨hmem, hmax⟩ := h.dead id f hf
    exact ⟨hlog _ hmem, hmax.trans (deliveries_append w [_] rfl id)⟩
  · exact (h.kept id f (hadded id f hmem)).map hlog (fun _ _ hmem hw ↦ .outstanding hmem hw)
      fun _ _ hf ↦ .retained hf

/-- Acknowledging an entry is fine where its message is kept without it. -/
theorem Inv.ack (h : Inv maxDeliveries w) {id : ℕ} {fields : F} (hadded : .added id fields ∈ w.log)
    (hhandled : .handled id fields (some true) ∈ w.log) : Inv maxDeliveries (w.ack id) := by
  refine ⟨h.held.ack id, h.entries, h.bounded, h.unique, fun id' hid' ↦
    h.counts id' (ConsumerStream.mem_pending_ack.mp hid').1, h.dead, fun id' f hmem ↦ ?_,
    fun stage hstage ↦ safeStage_grows (h.trims stage hstage) (w.stream.grows_ack () id)⟩
  refine (h.kept id' f hmem).map (fun _ he ↦ he) (fun id' f hentry hw ↦ ?_) fun _ _ hf ↦
    .retained hf
  by_cases hsame : id' = id
  · subst hsame
    rw [h.unique id' f fields (h.entries id' f hentry) hadded]
    exact .handled hhandled
  · exact .outstanding hentry (hw.ack hsame ())

theorem Inv.deadLetter (h : Inv maxDeliveries w) {id : ℕ} {fields : F}
    (hadded : .added id fields ∈ w.log) (hmax : maxDeliveries ≤ w.deliveries id) :
    Inv maxDeliveries (w.deadLetter id fields) := by
  have hretained : Kept (w.deadLetter id fields) id fields :=
    .retained (Function.update_self ..)
  have hdead : ∀ id' f, w.deadLetters id' = some f → (w.deadLetter id fields).deadLetters id' =
      some f := by
    intro id' f hf
    unfold Redis.deadLetter
    by_cases hsame : id' = id
    · subst hsame
      dsimp only
      rw [Function.update_self, h.unique id' f fields (h.dead id' f hf).1 hadded]
    · dsimp only
      rw [Function.update_of_ne hsame]
      exact hf
  refine ⟨h.held.ack id, h.entries, h.bounded, h.unique, fun id' hid' ↦
    h.counts id' (ConsumerStream.mem_pending_ack.mp hid').1, fun id' f hf ↦ ?_, fun id' f hmem ↦ ?_,
    fun stage hstage ↦ safeStage_grows (h.trims stage hstage) (w.stream.grows_ack () id)⟩
  · simp only [Redis.deadLetter, Function.update_apply] at hf
    split at hf
    · rename_i hsame
      cases hf
      exact ⟨hsame ▸ hadded, hsame ▸ hmax⟩
    · exact h.dead id' f hf
  · refine (h.kept id' f hmem).map (fun _ he ↦ he) (fun id' f hentry hw ↦ ?_) fun _ _ hf ↦
      .retained (hdead _ _ hf)
    by_cases hsame : id' = id
    · subst hsame
      rw [h.unique id' f fields (h.entries id' f hentry) hadded]
      exact hretained
    · exact .outstanding hentry (hw.ack hsame ())

theorem Inv.add (h : Inv maxDeliveries w) {id : ℕ} (hid : w.stream.lastId < id) (fields : F) :
    Inv maxDeliveries (w.add id hid fields) := by
  have hlog : ∀ e ∈ w.log, e ∈ (w.add id hid fields).log := fun e he ↦ List.mem_cons_of_mem _ he
  have hadded : ∀ id' f, .added id' f ∈ (w.add id hid fields).log →
      id' = id ∧ f = fields ∨ .added id' f ∈ w.log := by
    intro id' f hmem
    rcases List.mem_cons.mp hmem with hnew | hold
    · cases hnew
      exact .inl ⟨rfl, rfl⟩
    · exact .inr hold
  have hfresh : ∀ f, .added id f ∉ w.log := fun f hf ↦ Nat.not_le_of_lt hid (h.bounded id f hf)
  refine ⟨fun id' hid' ↦ ?_, fun id' f hmem ↦ ?_, fun id' f hmem ↦ ?_, fun id' f g hf hg ↦ ?_,
    fun id' hid' ↦ (h.counts id' hid').trans (deliveries_append w [_] rfl id'), fun id' f hf ↦ ?_,
    fun id' f hmem ↦ ?_, fun stage hstage ↦
    safeStage_grows (h.trims stage hstage) (w.stream.grows_add hid fields)⟩
  · obtain ⟨hle, a, ha⟩ := h.held id' hid'
    exact ⟨hle, a, List.mem_append_left _ ha⟩
  · rcases List.mem_append.mp hmem with hold | hnew
    · exact hlog _ (h.entries id' f hold)
    · cases List.mem_singleton.mp hnew
      exact List.mem_cons_self
  · rcases hadded id' f hmem with ⟨rfl, -⟩ | hold
    · exact Nat.le_refl _
    · exact (h.bounded id' f hold).trans hid.le
  · rcases hadded id' f hf with ⟨rfl, rfl⟩ | hold
    · rcases hadded id' g hg with ⟨-, rfl⟩ | hold
      · rfl
      · exact absurd hold (hfresh g)
    · rcases hadded id' g hg with ⟨rfl, rfl⟩ | hold'
      · exact absurd hold (hfresh f)
      · exact h.unique id' f g hold hold'
  · obtain ⟨hmem, hmax⟩ := h.dead id' f hf
    exact ⟨hlog _ hmem, hmax.trans (deliveries_append w [_] rfl id')⟩
  · rcases hadded id' f hmem with ⟨rfl, rfl⟩ | hold
    · refine .outstanding (List.mem_append_right _ (List.mem_singleton_self _)) (.inl ?_)
      exact (w.stream.delivered ()).trans_lt hid
    · exact (h.kept id' f hold).map hlog (fun _ _ hentry hw ↦
        .outstanding (List.mem_append_left _ hentry) hw) fun _ _ hf ↦ .retained hf

/-- A dead letter is moved to an entry of the stream. -/
theorem Inv.moved (h : Inv maxDeliveries w) {id id' : ℕ} {fields : F}
    (hdead : w.deadLetters id = some fields) (hmem : (id', fields) ∈ w.stream.entries)
    (hw : w.stream.Waiting () id') :
    Inv maxDeliveries { w with
      deadLetters := Function.update w.deadLetters id none, log := .replayed id id' :: w.log } := by
  have hlog : ∀ e ∈ w.log, e ∈ Event.replayed id id' :: w.log := fun e he ↦
    List.mem_cons_of_mem _ he
  have hadded : ∀ i f, .added i f ∈ Event.replayed id id' :: w.log → .added i f ∈ w.log :=
    fun i f hf ↦ (List.mem_cons.mp hf).resolve_left (by simp)
  refine ⟨h.held, fun i f hf ↦ hlog _ (h.entries i f hf), fun i f hf ↦
    h.bounded i f (hadded i f hf), fun i f g hf hg ↦ h.unique i f g (hadded i f hf) (hadded i g hg),
    fun i hi ↦ (h.counts i hi).trans (deliveries_append w [_] rfl i), fun i f hf ↦ ?_,
    fun i f hf ↦ ?_, h.trims⟩
  · simp only [Function.update_apply] at hf
    split at hf
    · cases hf
    · obtain ⟨hold, hmax⟩ := h.dead i f hf
      exact ⟨hlog _ hold, hmax.trans (deliveries_append w [_] rfl i)⟩
  · refine (h.kept i f (hadded i f hf)).map hlog (fun _ _ hentry hw ↦ .outstanding hentry hw)
      fun i f hletter ↦ ?_
    by_cases hsame : i = id
    · subst hsame
      rw [hdead] at hletter
      cases hletter
      exact .replayed List.mem_cons_self (.outstanding hmem hw)
    · refine .retained ?_
      dsimp only
      rw [Function.update_of_ne hsame]
      exact hletter

theorem Inv.trim (h : Inv maxDeliveries w) {floor : ℕ} (hack : w.stream.Acknowledged () floor) :
    Inv maxDeliveries { w with stream := w.stream.trim floor } := by
  refine ⟨fun id hid ↦ ?_, fun id f hmem ↦ h.entries id f (List.mem_of_mem_filter hmem), h.bounded,
    h.unique, h.counts, h.dead, fun id f hmem ↦ ?_, fun stage hstage ↦
    safeStage_grows (h.trims stage hstage) (w.stream.grows_trim floor)⟩
  · obtain ⟨hle, a, ha⟩ := h.held id hid
    exact ⟨hle, a, List.mem_filter.mpr ⟨ha, decide_eq_true (hack.pending id hid)⟩⟩
  · refine (h.kept id f hmem).map (fun _ he ↦ he) (fun id f hentry hw ↦ ?_) fun _ _ hf ↦
      .retained hf
    have hle : floor ≤ id := by
      rcases hw with hlt | hp
      · exact hack.delivered.trans hlt.le
      · exact hack.pending id hp
    exact .outstanding (List.mem_filter.mpr ⟨hentry, decide_eq_true hle⟩) hw

theorem Inv.withTrims (h : Inv maxDeliveries w) {trims : List TrimStage}
    (htrims : ∀ stage ∈ trims, SafeStage w.stream stage) :
    Inv maxDeliveries { w with trims := trims } := by
  refine ⟨h.held, h.entries, h.bounded, h.unique, h.counts, h.dead, fun id f hmem ↦ ?_, htrims⟩
  exact (h.kept id f hmem).map (fun _ he ↦ he) (fun _ _ hentry hw ↦ .outstanding hentry hw)
    fun _ _ hf ↦ .retained hf

/-- A step of `trim_acknowledged` trims only what every group has acknowledged. -/
theorem Inv.trimStep (h : Inv maxDeliveries w) {stage : TrimStage} {a : TrimAction}
    {s : ConsumerStream Unit ℕ F} {next : Option TrimStage} (hstage : SafeStage w.stream stage)
    (hs : Outbound.trimStep w.stream stage a = some (s, next)) :
    Inv maxDeliveries { w with stream := s } ∧ w.stream.Grows s ∧
      ∀ stage' ∈ next, SafeStage s stage' := by
  unfold Outbound.trimStep at hs
  split at hs
  · cases hs
    refine ⟨h, .refl _, fun stage' hnext ↦ ?_⟩
    cases hnext
    exact min_le_right _ _
  · cases hs
    refine ⟨h, .refl _, fun stage' hnext ↦ ?_⟩
    cases hnext
    exact ConsumerStream.acknowledged_min hstage
  · cases hs
    split
    · exact ⟨h, .refl _, fun _ hnext ↦ nomatch hnext⟩
    · exact ⟨h.trim hstage, w.stream.grows_trim _, fun _ hnext ↦ nomatch hnext⟩
  · cases hs

/-- The history only gets longer. -/
def Extends (w w' : Redis F) : Prop := ∃ newer, w'.log = newer ++ w.log

theorem Others.inv (h : Inv maxDeliveries w) (ho : Others w w') :
    Inv maxDeliveries w' ∧ Extends w w' := by
  cases ho with
  | relayed id hid fields => exact ⟨h.add hid fields, [_], rfl⟩
  | trimStarts =>
      refine ⟨h.withTrims fun stage hstage ↦ ?_, [], rfl⟩
      rcases List.mem_cons.mp hstage with rfl | hold
      · trivial
      · exact h.trims stage hold
  | trims before after stage a s next htrims hs =>
      have hold : ∀ stage' ∈ before ++ stage :: after, SafeStage w.stream stage' := htrims ▸ h.trims
      obtain ⟨hinv, hgrows, hnext⟩ := h.trimStep (hold stage (by simp)) hs
      refine ⟨hinv.withTrims fun stage' hstage ↦ ?_, [], rfl⟩
      rcases List.mem_append.mp hstage with hstage | hafter
      · rcases List.mem_append.mp hstage with hbefore | hnew
        · exact safeStage_grows (hold stage' (by simp [hbefore])) hgrows
        · exact hnext stage' (Option.mem_toList.mp hnew)
      · exact safeStage_grows (hold stage' (by simp [hafter])) hgrows
  | replayed id id' hid fields hfields =>
      refine ⟨(h.add hid fields).moved hfields ?_ (.inl ?_), [_, _], rfl⟩
      · exact List.mem_append_right _ (List.mem_singleton_self _)
      · exact (w.stream.delivered ()).trans_lt hid

/-- What a dispatcher promises of its calls. -/
def Promise (maxDeliveries : ℕ) (w : Redis F) : Call F → Prop
  | .ack id => ∃ fields, .added id fields ∈ w.log ∧ .handled id fields (some true) ∈ w.log
  | .retain id fields => .added id fields ∈ w.log ∧ maxDeliveries ≤ w.deliveries id
  | _ => True

theorem Answers.inv {c : Call F} {o : Fate ε c.Result} (h : Inv maxDeliveries w)
    (hpromise : Promise maxDeliveries w c) (ha : Answers w c o w') :
    Inv maxDeliveries w' ∧ Extends w w' := by
  induction ha with
  | claimed scanned => exact ⟨h.claim scanned, _, rfl⟩
  | read count n => exact ⟨h.readNew n, _, rfl⟩
  | handled id fields b => exact ⟨h.handled id fields _, [_], rfl⟩
  | raised id fields e => exact ⟨h.handled id fields _, [_], rfl⟩
  | handlerCancelled id fields => exact ⟨h.handled id fields _, [_], rfl⟩
  | counted id => exact ⟨h, [], rfl⟩
  | countFails id => exact ⟨h, [], rfl⟩
  | acked id =>
      obtain ⟨fields, hadded, hhandled⟩ := hpromise
      exact ⟨h.ack hadded hhandled, [], rfl⟩
  | retained id fields => exact ⟨h.deadLetter hpromise.1 hpromise.2, [], rfl⟩
  | slept => exact ⟨h, [], rfl⟩
  | fails c e hc => exact ⟨h, [], rfl⟩
  | lost c e hc o w' ha ih => exact ih hpromise
  | unsent c hc => exact ⟨h, [], rfl⟩
  | cancelled c hc o w' ha ih => exact ih hpromise

end Steps

/-! ## What a dispatcher ensures -/

def dispatcherEnv (F ε : Type) (maxDeliveries : ℕ) :
    Environment (Call F) Call.Result ε (Redis F) where
  answers := Answers
  interferes w w' := Extends w w' ∧ Inv maxDeliveries w'

section Dispatcher

variable {maxDeliveries : ℕ} {w w' : Redis F}

theorem Extends.mem (h : Extends w w') {e : Event F} (he : e ∈ w.log) : e ∈ w'.log := by
  obtain ⟨newer, hlog⟩ := h
  rw [hlog]
  exact List.mem_append_right _ he

theorem Extends.deliveries (h : Extends w w') (id : ℕ) : w.deliveries id ≤ w'.deliveries id := by
  obtain ⟨newer, hlog⟩ := h
  exact deliveries_append w newer hlog id

theorem Extends.trans {w'' : Redis F} (h : Extends w w') (h' : Extends w' w'') :
    Extends w w'' := by
  obtain ⟨newer, hlog⟩ := h
  obtain ⟨newest, hlog'⟩ := h'
  exact ⟨newest ++ newer, by rw [hlog', hlog, List.append_assoc]⟩

/-- The message is one that was added. -/
def Genuine (w : Redis F) (message : ℕ × F) : Prop := .added message.1 message.2 ∈ w.log

/-- A call that promises nothing. -/
theorem ensures_ask {c : Call F} {Q : Fate ε c.Result → Redis F → Prop}
    (hc : ∀ w₁, Extends w w₁ → Promise maxDeliveries w₁ c)
    (hQ : ∀ w₁ o w₂, Extends w w₁ → Inv maxDeliveries w₁ → Answers w₁ c o w₂ → Extends w₁ w₂ →
      Q o w₂) :
    (ask c : ConsumerLoops.Consumer F ε c.Result).Ensures (dispatcherEnv F ε maxDeliveries)
      (fun w₁ c _ _ ↦ Promise maxDeliveries w₁ c) w Q := by
  intro w₁ o w₂ hi ha
  have hpromise := hc w₁ hi.1
  exact ⟨hpromise, hQ w₁ o w₂ hi.1 hi.2 ha (Answers.inv hi.2 hpromise ha).2⟩

/-- The end of a coroutine whose outcome nobody asks for. -/
def Anything {α : Type} (_ : Fate ε α) (_ : Redis F) : Prop := True

theorem ensures_retainExhausted {id : ℕ} {fields : F} (h : Genuine w (id, fields)) :
    (retainExhausted maxDeliveries id fields : ConsumerLoops.Consumer F ε Unit).Ensures
      (dispatcherEnv F ε maxDeliveries) (fun w₁ c _ _ ↦ Promise maxDeliveries w₁ c) w
      Anything := by
  apply ensures_bind
  refine ensures_ask (fun _ _ ↦ trivial) fun w₁ o w₂ hext hinv ha hext₂ ↦ ?_
  cases o with
  | raises e => trivial
  | cancelled => trivial
  | returns n =>
      have hcount : n ≤ w₂.deliveries id := by
        cases ha with
        | counted =>
            unfold Redis.deliveryCount
            split
            · rename_i hpending
              exact hinv.counts id hpending
            · exact Nat.zero_le _
        | countFails => exact Nat.zero_le _
      have hgenuine : Genuine w₂ (id, fields) := (hext.trans hext₂).mem h
      simp only [Continues]
      split
      · rename_i hmax
        refine ensures_ask (fun w₃ hext₃ ↦ ?_) fun _ _ _ _ _ _ _ ↦ trivial
        exact ⟨hext₃.mem hgenuine, (hmax.trans hcount).trans (hext₃.deliveries id)⟩
      · trivial

theorem ensures_processDispatcherMessage {id : ℕ} {fields : F} (h : Genuine w (id, fields)) :
    (processDispatcherMessage maxDeliveries id fields :
      ConsumerLoops.Consumer F ε Unit).Ensures (dispatcherEnv F ε maxDeliveries)
      (fun w₁ c _ _ ↦ Promise maxDeliveries w₁ c) w Anything := by
  apply ensures_bind
  apply ensures_attempt
  refine ensures_ask (fun _ _ ↦ trivial) fun w₁ o w₂ hext hinv ha hext₂ ↦ ?_
  have hgenuine : Genuine w₂ (id, fields) := (hext.trans hext₂).mem h
  cases o with
  | cancelled => trivial
  | raises e => exact ensures_retainExhausted hgenuine
  | returns result =>
      cases result with
      | false => exact ensures_retainExhausted hgenuine
      | true =>
          have hhandled : .handled id fields (some true) ∈ w₂.log := by
            cases ha
            exact List.mem_cons_self
          exact ensures_ask (fun w₃ hext₃ ↦ ⟨fields, hext₃.mem hgenuine, hext₃.mem hhandled⟩)
            fun _ _ _ _ _ _ _ ↦ trivial

theorem Answers.extends {c : Call F} {o : Fate ε c.Result} (ha : Answers w c o w') :
    Extends w w' := by
  induction ha with
  | claimed | read => exact ⟨_, rfl⟩
  | handled | raised | handlerCancelled => exact ⟨[_], rfl⟩
  | lost c e hc o w' ha ih | cancelled c hc o w' ha ih => exact ih
  | _ => exact ⟨[], rfl⟩

/-- The rest of the batch, after one message of it. -/
theorem ensures_dispatcherMessage {message : ℕ × F} {rest : List (ℕ × F)}
    (h : Genuine w message) (hrest : ∀ m ∈ rest, Genuine w m) {Q : Fate ε Unit → Redis F → Prop}
    (hcancelled : ∀ w', Q .cancelled w') :
    (dispatcherMessage maxDeliveries () message : ConsumerLoops.Consumer F ε Unit).Ensures
      (dispatcherEnv F ε maxDeliveries) (fun w₁ c _ _ ↦ Promise maxDeliveries w₁ c) w
      (Continues (fun _ w' ↦ ∀ m ∈ rest, Genuine w' m) Q) := by
  have hkeeps : (processDispatcherMessage maxDeliveries message.1 message.2 :
      ConsumerLoops.Consumer F ε Unit).Ensures (dispatcherEnv F ε maxDeliveries)
      (fun _ _ _ _ ↦ True) w fun _ w' ↦ ∀ m ∈ rest, Genuine w' m :=
    ensures_preserved (fun _ _ hi hold m hm ↦ hi.1.mem (hold m hm))
      (fun _ _ _ _ ha hold m hm ↦ (Answers.extends ha).mem (hold m hm)) hrest
  apply ensures_bind
  apply ensures_attempt
  refine ((ensures_processDispatcherMessage h).and hkeeps).mono fun o w' ho ↦ ?_
  cases o with
  | returns a => exact ho.2
  | raises e => exact ho.2
  | cancelled => exact hcancelled w'

theorem ensures_readMessages {Q : Fate ε (List (ℕ × F)) → Redis F → Prop}
    (hQ : ∀ o w', (∀ messages, o = .returns messages → ∀ m ∈ messages, Genuine w' m) → Q o w') :
    (readMessages 10 : ConsumerLoops.Consumer F ε (List (ℕ × F))).Ensures
      (dispatcherEnv F ε maxDeliveries) (fun w₁ c _ _ ↦ Promise maxDeliveries w₁ c) w Q := by
  apply ensures_bind
  refine ensures_ask (fun _ _ ↦ trivial) fun w₁ o w₂ _ hinv ha hext ↦ ?_
  cases o with
  | raises e => exact hQ _ _ fun messages hmessages ↦ nomatch hmessages
  | cancelled => exact hQ _ _ fun messages hmessages ↦ nomatch hmessages
  | returns messages =>
      have hgenuine : ∀ m ∈ messages, Genuine w₂ m := by
        cases ha with
        | claimed scanned hscanned =>
            exact fun m hm ↦ hext.mem (hinv.entries m.1 m.2 (List.mem_of_mem_filter hm))
      simp only [Continues]
      split
      · refine ensures_ask (fun _ _ ↦ trivial) fun w₃ o w₄ _ hinv' ha' hext' ↦ hQ o w₄ ?_
        intro new hnew m hm
        subst hnew
        cases ha' with
        | read count n hn =>
            have hentry := (ConsumerStream.mem_unread.mp (List.mem_of_mem_take hm)).1
            exact hext'.mem (hinv'.entries m.1 m.2 hentry)
      · exact hQ _ _ fun messages' hmessages ↦ by cases hmessages; exact hgenuine

theorem ensures_dispatcherBody (w : Redis F) :
    (dispatcherBody maxDeliveries () : ConsumerLoops.Consumer F ε (Unit ⊕ Empty)).Ensures
      (dispatcherEnv F ε maxDeliveries) (fun w₁ c _ _ ↦ Promise maxDeliveries w₁ c) w
      ((consumeDispatcherStream F ε maxDeliveries).Iterated (dispatcherEnv F ε maxDeliveries)
        (fun w₁ c _ _ ↦ Promise maxDeliveries w₁ c) (fun _ _ ↦ True) fun _ _ ↦ True) := by
  apply ensures_bind
  apply ensures_attempt
  refine ensures_readMessages fun o w' hmessages ↦ ?_
  cases o with
  | cancelled => trivial
  | raises e =>
      apply ensures_bind
      refine ensures_ask (fun _ _ ↦ trivial) fun _ o _ _ _ _ _ ↦ ?_
      cases o <;> trivial
  | returns messages =>
      apply ensures_bind
      refine ensures_forEach (I := fun rest _ w' ↦ ∀ m ∈ rest, Genuine w' m) ?_ ?_
        (hmessages messages rfl)
      · intro message rest s w₁ hall
        exact ensures_dispatcherMessage (hall message List.mem_cons_self)
          (fun m hm ↦ hall m (List.mem_cons_of_mem _ hm)) fun _ ↦ trivial
      · exact fun _ _ _ ↦ trivial

end Dispatcher

/-! ## All of them together -/

section Pool

variable {maxDeliveries : ℕ}

theorem composes (F ε : Type) (maxDeliveries : ℕ) :
    Service.Composes (consumeDispatcherStream F ε maxDeliveries)
      (dispatcherEnv F ε maxDeliveries) Others () (fun w₁ c _ _ ↦ Promise maxDeliveries w₁ c)
      (fun _ _ ↦ True) (fun _ _ ↦ True) (Inv maxDeliveries) where
  refl _ hinv := ⟨⟨[], rfl⟩, hinv⟩
  trans _ _ _ h h' := ⟨h.1.trans h'.1, h'.2⟩
  others _ _ hinv ho := by
    obtain ⟨hinv', hext⟩ := Others.inv hinv ho
    exact ⟨⟨hext, hinv'⟩, hinv'⟩
  answers _ _ _ _ hinv ha hpromise := by
    obtain ⟨hinv', hext⟩ := Answers.inv hinv hpromise ha
    exact ⟨⟨hext, hinv'⟩, hinv'⟩
  start _ _ := trivial
  body _ w _ := ensures_dispatcherBody w
  stable _ _ _ _ _ := trivial
  last _ _ _ _ _ := trivial

/-- A stream that nothing was added to yet. -/
def Redis.Fresh (w : Redis F) : Prop :=
  w = ⟨.init 0, fun _ ↦ 0, fun _ ↦ none, [], []⟩

abbrev PoolReachable (F ε : Type) (maxDeliveries : ℕ) :
    Service.Pool (Call F) Call.Result ε Unit Empty (Redis F) → Prop :=
  Service.Pool.Reachable (consumeDispatcherStream F ε maxDeliveries)
    (dispatcherEnv F ε maxDeliveries) Others () Redis.Fresh

theorem Redis.Fresh.inv {w : Redis F} (h : w.Fresh) : Inv maxDeliveries w := by
  subst h
  exact ⟨fun _ hid ↦ (by cases hid), fun _ _ hmem ↦ (by cases hmem), fun _ _ hmem ↦ (by cases hmem),
    fun _ _ _ hmem ↦ (by cases hmem), fun _ hid ↦ (by cases hid), fun _ _ hf ↦ (by cases hf),
    fun _ _ hmem ↦ (by cases hmem), fun _ hstage ↦ (by cases hstage)⟩

/-- However many dispatchers there are, and wherever they are killed: what was added is waiting,
was handled, or is retained, and only what was delivered as often as the settings say is. -/
theorem outbound_message_is_kept
    {p : Service.Pool (Call F) Call.Result ε Unit Empty (Redis F)}
    (h : PoolReachable F ε maxDeliveries p) :
    (∀ id f, .added id f ∈ p.world.log → Kept p.world id f) ∧
      ∀ id f, p.world.deadLetters id = some f → .added id f ∈ p.world.log ∧
        maxDeliveries ≤ p.world.deliveries id := by
  have hinv := ((composes F ε maxDeliveries).reachable (fun _ hw ↦ hw.inv) h).world
  exact ⟨hinv.kept, hinv.dead⟩

theorem PoolReachable.step {p q : Service.Pool (Call F) Call.Result ε Unit Empty (Redis F)}
    (h : PoolReachable F ε maxDeliveries p)
    (hs : Service.Pool.Step (consumeDispatcherStream F ε maxDeliveries)
      (dispatcherEnv F ε maxDeliveries) Others () p q) : PoolReachable F ε maxDeliveries q := by
  obtain ⟨w, hw, hreach⟩ := h
  exact ⟨w, hw, hreach.tail hs⟩

/-- The handler raises on the one delivery that the settings allow. -/
theorem outbound_message_is_kept_raised :
    ∃ p : Service.Pool (Call ℕ) Call.Result Unit Unit Empty (Redis ℕ),
      PoolReachable ℕ Unit 1 p ∧ Kept p.world 1 7 ∧ p.world.deadLetters 1 = some 7 ∧
        1 ≤ p.world.deliveries 1 := by
  have hstart : PoolReachable ℕ Unit 1 (.start _) := ⟨_, rfl, .refl⟩
  have hadded := (hstart.step (.others (.relayed 1 (by decide) 7))).step (.starts (n := 0) rfl)
  have hclaimed := hadded.step (.answered (n := 0) rfl (.claimed [] (List.nil_subset _)))
  have hread := hclaimed.step (.answered (n := 0) rfl (.read 10 1 (by decide)))
  have hraised := hread.step (.answered (n := 0) rfl (.raised 1 7 ()))
  have hcounted := hraised.step (.answered (n := 0) rfl (.counted 1))
  have hretained := hcounted.step (.answered (n := 0) rfl (.retained 1 7))
  have hkept := outbound_message_is_kept hretained
  have hletter := hkept.2 1 7 rfl
  exact ⟨_, hretained, hkept.1 1 7 hletter.1, rfl, hletter.2⟩

end Pool

end Outbound

end Discode

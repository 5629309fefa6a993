import Mathlib.Order.MinMax
import Mathlib.Data.List.Pairwise
import Mathlib.Data.Nat.Notation

/-!
# Streams with consumer groups

The documented behaviour of an append-only stream with consumer groups: entries carry
increasing ids, a group reads the entries after the last id it was delivered, keeps
what it read pending until it is acknowledged, and trimming drops the entries below
an id.  An entry is outstanding for a group while it is unread or pending there.
-/

set_option autoImplicit false

structure ConsumerGroup (ι : Type*) where
  lastDelivered : ι
  pending : List ι

structure ConsumerStream (G ι α : Type*) [LinearOrder ι] where
  entries : List (ι × α)
  lastId : ι
  groups : G → ConsumerGroup ι
  sorted : entries.Pairwise (fun a b ↦ a.1 < b.1)
  bounded : ∀ e ∈ entries, e.1 ≤ lastId
  delivered : ∀ g, (groups g).lastDelivered ≤ lastId

namespace ConsumerStream

variable {G ι α : Type*} [LinearOrder ι]

def init (zero : ι) : ConsumerStream G ι α where
  entries := []
  lastId := zero
  groups := fun _ ↦ ⟨zero, []⟩
  sorted := .nil
  bounded := fun _ h ↦ nomatch h
  delivered := fun _ ↦ le_rfl

def add (s : ConsumerStream G ι α) (id : ι) (h : s.lastId < id) (a : α) :
    ConsumerStream G ι α where
  entries := s.entries ++ [(id, a)]
  lastId := id
  groups := s.groups
  sorted := by
    refine List.pairwise_append.mpr ⟨s.sorted, List.pairwise_singleton _ _, fun e he f hf ↦ ?_⟩
    rw [List.mem_singleton] at hf
    exact hf ▸ (s.bounded e he).trans_lt h
  bounded := fun e he ↦ by
    rcases List.mem_append.mp he with he | he
    · exact (s.bounded e he).trans h.le
    · rw [List.mem_singleton.mp he]
  delivered := fun g ↦ (s.delivered g).trans h.le

/-- The entries group `g` has not been delivered, in id order. -/
def unread (s : ConsumerStream G ι α) (g : G) : List (ι × α) :=
  s.entries.filter fun e ↦ (s.groups g).lastDelivered < e.1

theorem mem_unread {s : ConsumerStream G ι α} {g : G} {e : ι × α} :
    e ∈ s.unread g ↔ e ∈ s.entries ∧ (s.groups g).lastDelivered < e.1 := by
  simp [unread]

/-- The group's state after it reads the entries `batch`. -/
def ConsumerGroup.read (c : ConsumerGroup ι) (batch : List (ι × α)) : ConsumerGroup ι where
  lastDelivered := (batch.getLast?.map Prod.fst).getD c.lastDelivered
  pending := c.pending ++ batch.map Prod.fst

/-- A read of at most `count` new entries: they become pending for the group. -/
def readNew [DecidableEq G] (s : ConsumerStream G ι α) (g : G) (count : ℕ) : ConsumerStream G ι α where
  entries := s.entries
  lastId := s.lastId
  groups := fun g' ↦ if g' = g then
    ConsumerGroup.read (s.groups g) ((s.unread g).take count) else s.groups g'
  sorted := s.sorted
  bounded := s.bounded
  delivered := fun g' ↦ by
    by_cases hg : g' = g
    · rw [if_pos hg]
      simp only [ConsumerGroup.read]
      cases hlast : ((s.unread g).take count).getLast? with
      | none => exact s.delivered g
      | some e =>
          have he : e ∈ s.unread g := List.mem_of_mem_take (List.mem_of_getLast? hlast)
          exact s.bounded e (mem_unread.mp he).1
    · rw [if_neg hg]
      exact s.delivered g'

def ack [DecidableEq G] (s : ConsumerStream G ι α) (g : G) (id : ι) : ConsumerStream G ι α where
  entries := s.entries
  lastId := s.lastId
  groups := fun g' ↦ if g' = g then
    ⟨(s.groups g).lastDelivered, (s.groups g).pending.filter (· ≠ id)⟩ else s.groups g'
  sorted := s.sorted
  bounded := s.bounded
  delivered := fun g' ↦ by
    by_cases hg : g' = g
    · rw [if_pos hg]
      exact s.delivered g
    · rw [if_neg hg]
      exact s.delivered g'

/-- A client takes over pending entries.  They stay pending, except that a scanned one whose
entry was deleted is dropped. -/
def claim [DecidableEq G] (s : ConsumerStream G ι α) (g : G) (scanned : List ι) :
    ConsumerStream G ι α where
  entries := s.entries
  lastId := s.lastId
  groups := fun g' ↦ if g' = g then
    ⟨(s.groups g).lastDelivered, (s.groups g).pending.filter fun id ↦
      id ∉ scanned ∨ id ∈ s.entries.map Prod.fst⟩ else s.groups g'
  sorted := s.sorted
  bounded := s.bounded
  delivered := fun g' ↦ by
    by_cases hg : g' = g
    · rw [if_pos hg]
      exact s.delivered g
    · rw [if_neg hg]
      exact s.delivered g'

def trim (s : ConsumerStream G ι α) (floor : ι) : ConsumerStream G ι α where
  entries := s.entries.filter fun e ↦ floor ≤ e.1
  lastId := s.lastId
  groups := s.groups
  sorted := s.sorted.sublist List.filter_sublist
  bounded := fun e he ↦ s.bounded e ((List.mem_filter.mp he).1)
  delivered := s.delivered

/-- Entry `id` is unread or pending for group `g`. -/
def Waiting (s : ConsumerStream G ι α) (g : G) (id : ι) : Prop :=
  (s.groups g).lastDelivered < id ∨ id ∈ (s.groups g).pending

def Outstanding (s : ConsumerStream G ι α) (g : G) (a : α) : Prop :=
  ∃ id, (id, a) ∈ s.entries ∧ s.Waiting g id

theorem outstanding_add_self (s : ConsumerStream G ι α) (g : G) {id : ι} (h : s.lastId < id)
    (a : α) : (s.add id h a).Outstanding g a :=
  ⟨id, by simp [add], .inl ((s.delivered g).trans_lt h)⟩

theorem Outstanding.add {s : ConsumerStream G ι α} {g : G} {a : α} (ha : s.Outstanding g a)
    {id : ι} (h : s.lastId < id) (b : α) : (s.add id h b).Outstanding g a := by
  obtain ⟨i, hi, hw⟩ := ha
  exact ⟨i, List.mem_append_left _ hi, hw⟩

/-- A read only turns unread entries into pending ones. -/
theorem Waiting.readNew [DecidableEq G] {s : ConsumerStream G ι α} {g : G} {id : ι} {a : α}
    (hmem : (id, a) ∈ s.entries) (hw : s.Waiting g id) (g' : G) (count : ℕ) :
    (s.readNew g' count).Waiting g id := by
  by_cases hg : g = g'
  · subst hg
    simp only [Waiting, ConsumerStream.readNew, if_pos, ConsumerGroup.read]
    rcases hw with hlt | hp
    · have hun : (id, a) ∈ s.unread g := mem_unread.mpr ⟨hmem, hlt⟩
      rw [← List.take_append_drop count (s.unread g), List.mem_append] at hun
      rcases hun with htake | hdrop
      · exact .inr (List.mem_append_right _ (List.mem_map_of_mem (f := Prod.fst) htake))
      · left
        cases hlast : ((s.unread g).take count).getLast? with
        | none => exact hlt
        | some e =>
            have hsorted : (s.unread g).Pairwise (fun a b ↦ a.1 < b.1) :=
              s.sorted.sublist List.filter_sublist
            rw [← List.take_append_drop count (s.unread g)] at hsorted
            exact (List.pairwise_append.mp hsorted).2.2 e (List.mem_of_getLast? hlast) _ hdrop
    · exact .inr (List.mem_append_left _ hp)
  · simpa only [Waiting, ConsumerStream.readNew, if_neg hg] using hw

theorem Outstanding.readNew [DecidableEq G] {s : ConsumerStream G ι α} {g : G} {a : α}
    (ha : s.Outstanding g a) (g' : G) (count : ℕ) : (s.readNew g' count).Outstanding g a := by
  obtain ⟨id, hmem, hw⟩ := ha
  exact ⟨id, hmem, Waiting.readNew hmem hw g' count⟩

theorem Waiting.ack [DecidableEq G] {s : ConsumerStream G ι α} {g : G} {id id' : ι}
    (hw : s.Waiting g id) (hne : id ≠ id') (g' : G) : (s.ack g' id').Waiting g id := by
  by_cases hg : g = g'
  · subst hg
    rcases hw with hlt | hp
    · exact .inl (by simpa [ConsumerStream.ack] using hlt)
    · exact .inr (by simp [ConsumerStream.ack, hp, hne])
  · simpa only [Waiting, ConsumerStream.ack, if_neg hg] using hw

/-- Acknowledging an entry concerns nothing but the message of that entry. -/
theorem Outstanding.ack [DecidableEq G] {s : ConsumerStream G ι α} {g : G} {a : α}
    (ha : s.Outstanding g a) (g' : G) (id' : ι) : (s.ack g' id').Outstanding g a ∨ (id', a) ∈ s.entries := by
  obtain ⟨id, hmem, hw⟩ := ha
  by_cases hid : id = id'
  · exact .inr (hid ▸ hmem)
  · exact .inl ⟨id, hmem, hw.ack hid g'⟩

/-! ## Streams only grow at their end -/

/-- What every operation leaves true: ids are used in order, a group is never delivered an
entry twice as a new one, and it only gets pending entries that were unread. -/
structure Grows (s s' : ConsumerStream G ι α) : Prop where
  lastId : s.lastId ≤ s'.lastId
  entries : ∀ e ∈ s'.entries, e ∈ s.entries ∨ s.lastId < e.1
  delivered : ∀ g, (s.groups g).lastDelivered ≤ (s'.groups g).lastDelivered
  pending : ∀ g, ∀ id ∈ (s'.groups g).pending, id ∈ (s.groups g).pending ∨
    (s.groups g).lastDelivered < id

theorem Grows.refl (s : ConsumerStream G ι α) : s.Grows s :=
  ⟨le_rfl, fun _ he ↦ .inl he, fun _ ↦ le_rfl, fun _ _ hid ↦ .inl hid⟩

theorem grows_add (s : ConsumerStream G ι α) {id : ι} (h : s.lastId < id) (a : α) :
    s.Grows (s.add id h a) := by
  refine ⟨h.le, fun e he ↦ ?_, fun _ ↦ le_rfl, fun _ _ hid ↦ .inl hid⟩
  rcases List.mem_append.mp he with hold | hnew
  · exact .inl hold
  · rw [List.mem_singleton.mp hnew]
    exact .inr h

theorem grows_readNew [DecidableEq G] (s : ConsumerStream G ι α) (g : G) (count : ℕ) :
    s.Grows (s.readNew g count) := by
  have hunread : ∀ e ∈ (s.unread g).take count, (s.groups g).lastDelivered < e.1 :=
    fun e he ↦ (mem_unread.mp (List.mem_of_mem_take he)).2
  refine ⟨le_rfl, fun _ he ↦ .inl he, fun g' ↦ ?_, fun g' id hid ↦ ?_⟩
  · by_cases hg : g' = g
    · subst hg
      simp only [ConsumerStream.readNew, if_pos, ConsumerGroup.read]
      cases hlast : ((s.unread g').take count).getLast? with
      | none => exact le_rfl
      | some e => exact (hunread e (List.mem_of_getLast? hlast)).le
    · simp only [ConsumerStream.readNew, if_neg hg, le_refl]
  · by_cases hg : g' = g
    · subst hg
      simp only [ConsumerStream.readNew, if_pos, ConsumerGroup.read, List.mem_append,
        List.mem_map] at hid
      rcases hid with hold | ⟨e, he, rfl⟩
      · exact .inl hold
      · exact .inr (hunread e he)
    · simp only [ConsumerStream.readNew, if_neg hg] at hid
      exact .inl hid

theorem grows_ack [DecidableEq G] (s : ConsumerStream G ι α) (g : G) (id : ι) :
    s.Grows (s.ack g id) := by
  refine ⟨le_rfl, fun _ he ↦ .inl he, fun g' ↦ ?_, fun g' id' hid ↦ ?_⟩
  · by_cases hg : g' = g
    · subst hg
      simp only [ConsumerStream.ack, if_pos, le_refl]
    · simp only [ConsumerStream.ack, if_neg hg, le_refl]
  · by_cases hg : g' = g
    · subst hg
      simp only [ConsumerStream.ack, if_pos] at hid
      exact .inl ((List.mem_filter.mp hid).1)
    · simp only [ConsumerStream.ack, if_neg hg] at hid
      exact .inl hid

theorem grows_claim [DecidableEq G] (s : ConsumerStream G ι α) (g : G) (scanned : List ι) :
    s.Grows (s.claim g scanned) := by
  refine ⟨le_rfl, fun _ he ↦ .inl he, fun g' ↦ ?_, fun g' id hid ↦ ?_⟩
  · by_cases hg : g' = g
    · subst hg
      simp only [ConsumerStream.claim, if_pos, le_refl]
    · simp only [ConsumerStream.claim, if_neg hg, le_refl]
  · by_cases hg : g' = g
    · subst hg
      simp only [ConsumerStream.claim, if_pos] at hid
      exact .inl ((List.mem_filter.mp hid).1)
    · simp only [ConsumerStream.claim, if_neg hg] at hid
      exact .inl hid

theorem grows_trim (s : ConsumerStream G ι α) (floor : ι) : s.Grows (s.trim floor) :=
  ⟨le_rfl, fun _ he ↦ .inl ((List.mem_filter.mp he).1), fun _ ↦ le_rfl, fun _ _ hid ↦ .inl hid⟩

theorem Grows.trans {s s' s'' : ConsumerStream G ι α} (h : s.Grows s') (h' : s'.Grows s'') :
    s.Grows s'' := by
  refine ⟨h.lastId.trans h'.lastId, fun e he ↦ ?_, fun g ↦ (h.delivered g).trans (h'.delivered g),
    fun g id hid ↦ ?_⟩
  · rcases h'.entries e he with hold | hnew
    · exact h.entries e hold
    · exact .inr (h.lastId.trans_lt hnew)
  · rcases h'.pending g id hid with hold | hnew
    · exact h.pending g id hold
    · exact .inr ((h.delivered g).trans_lt hnew)

/-- What is pending for the group was delivered to it, and its entry is still there. -/
def Held (s : ConsumerStream G ι α) (g : G) : Prop :=
  ∀ id ∈ (s.groups g).pending, id ≤ (s.groups g).lastDelivered ∧ ∃ a, (id, a) ∈ s.entries

theorem Held.pending_claim [DecidableEq G] {s : ConsumerStream G ι α} {g : G} (h : s.Held g)
    (scanned : List ι) : ((s.claim g scanned).groups g).pending = (s.groups g).pending := by
  simp only [claim, if_pos]
  refine List.filter_eq_self.mpr fun id hid ↦ ?_
  obtain ⟨a, ha⟩ := (h id hid).2
  exact decide_eq_true (.inr (List.mem_map_of_mem (f := Prod.fst) ha))

theorem Held.claim [DecidableEq G] {s : ConsumerStream G ι α} {g : G} (h : s.Held g)
    (scanned : List ι) : (s.claim g scanned).Held g := by
  intro id hid
  rw [h.pending_claim scanned] at hid
  obtain ⟨hle, hentry⟩ := h id hid
  exact ⟨hle.trans ((grows_claim s g scanned).delivered g), hentry⟩

theorem mem_pending_readNew [DecidableEq G] {s : ConsumerStream G ι α} {g : G} {count : ℕ} {id : ι} :
    id ∈ ((s.readNew g count).groups g).pending ↔
      id ∈ (s.groups g).pending ∨ ∃ a, (id, a) ∈ (s.unread g).take count := by
  simp only [readNew, if_pos, ConsumerGroup.read, List.mem_append, List.mem_map, Prod.exists,
    exists_and_right, exists_eq_right]

theorem le_lastDelivered_readNew [DecidableEq G] {s : ConsumerStream G ι α} {g : G} {count : ℕ}
    {e : ι × α} (he : e ∈ (s.unread g).take count) :
    e.1 ≤ ((s.readNew g count).groups g).lastDelivered := by
  have hsorted : ((s.unread g).take count).Pairwise (fun a b ↦ a.1 ≤ b.1) :=
    ((s.sorted.sublist List.filter_sublist).sublist (List.take_sublist _ _)).imp le_of_lt
  have hrefl : Std.Refl fun a b : ι × α ↦ a.1 ≤ b.1 := ⟨fun _ ↦ le_rfl⟩
  simp only [readNew, if_pos, ConsumerGroup.read]
  generalize (s.unread g).take count = batch at he hsorted
  rw [List.getLast?_eq_some_getLast (List.ne_nil_of_mem he)]
  exact hsorted.rel_getLast he

theorem Held.readNew [DecidableEq G] {s : ConsumerStream G ι α} {g : G} (h : s.Held g)
    (count : ℕ) : (s.readNew g count).Held g := by
  intro id hid
  rcases mem_pending_readNew.mp hid with hold | ⟨a, ha⟩
  · obtain ⟨hle, hentry⟩ := h id hold
    exact ⟨hle.trans ((grows_readNew s g count).delivered g), hentry⟩
  · exact ⟨le_lastDelivered_readNew ha, a, (mem_unread.mp (List.mem_of_mem_take ha)).1⟩

theorem mem_pending_ack [DecidableEq G] {s : ConsumerStream G ι α} {g : G} {id id' : ι} :
    id ∈ ((s.ack g id').groups g).pending ↔ id ∈ (s.groups g).pending ∧ id ≠ id' := by
  simp [ack]

theorem Held.ack [DecidableEq G] {s : ConsumerStream G ι α} {g : G} (h : s.Held g) (id' : ι) :
    (s.ack g id').Held g := by
  intro id hid
  obtain ⟨hle, hentry⟩ := h id (mem_pending_ack.mp hid).1
  exact ⟨hle.trans ((grows_ack s g id').delivered g), hentry⟩

/-! ## Trimming -/

/-- Everything below `floor` was delivered to the group and acknowledged. -/
structure Acknowledged (s : ConsumerStream G ι α) (g : G) (floor : ι) : Prop where
  delivered : floor ≤ (s.groups g).lastDelivered
  pending : ∀ id ∈ (s.groups g).pending, floor ≤ id

theorem Acknowledged.grows {s s' : ConsumerStream G ι α} {g : G} {floor : ι}
    (h : s.Acknowledged g floor) (hs : s.Grows s') : s'.Acknowledged g floor := by
  refine ⟨h.delivered.trans (hs.delivered g), fun id hid ↦ ?_⟩
  rcases hs.pending g id hid with hold | hnew
  · exact h.pending id hold
  · exact h.delivered.trans hnew.le

theorem Acknowledged.mono {s : ConsumerStream G ι α} {g : G} {floor floor' : ι}
    (h : s.Acknowledged g floor) (hle : floor' ≤ floor) : s.Acknowledged g floor' :=
  ⟨hle.trans h.delivered, fun id hid ↦ hle.trans (h.pending id hid)⟩

/-- The least pending entry bounds what may be trimmed. -/
theorem acknowledged_min {s : ConsumerStream G ι α} {g : G} {floor : ι}
    (h : floor ≤ (s.groups g).lastDelivered) :
    s.Acknowledged g ((s.groups g).pending.min?.elim floor (min floor)) := by
  cases hmin : (s.groups g).pending.min? with
  | none =>
      refine ⟨h, fun id hid ↦ ?_⟩
      rw [List.min?_eq_none_iff] at hmin
      rw [hmin] at hid
      cases hid
  | some first =>
      refine ⟨(min_le_left floor first).trans h, fun id hid ↦ ?_⟩
      have hfirst : first ≤ id := (List.min?_eq_some_iff.mp hmin).2 id hid
      exact (min_le_right floor first).trans hfirst

/-- What a trim removes was delivered and acknowledged. -/
theorem Acknowledged.of_removed {s : ConsumerStream G ι α} {g : G} {floor : ι}
    (h : s.Acknowledged g floor) {e : ι × α} (he : e ∈ s.entries)
    (hgone : e ∉ (s.trim floor).entries) :
    e.1 ≤ (s.groups g).lastDelivered ∧ e.1 ∉ (s.groups g).pending := by
  have hlt : e.1 < floor := by
    by_contra hnot
    exact hgone (List.mem_filter.mpr ⟨he, decide_eq_true (not_lt.mp hnot)⟩)
  refine ⟨hlt.le.trans h.delivered, fun hpending ↦ ?_⟩
  exact absurd (h.pending e.1 hpending) (not_le.mpr hlt)

theorem Outstanding.trim {s : ConsumerStream G ι α} {g : G} {a : α} (ha : s.Outstanding g a)
    {floor : ι} (h : s.Acknowledged g floor) : (s.trim floor).Outstanding g a := by
  obtain ⟨id, hmem, hw⟩ := ha
  have hle : floor ≤ id := by
    rcases hw with hlt | hp
    · exact h.delivered.trans hlt.le
    · exact h.pending id hp
  exact ⟨id, List.mem_filter.mpr ⟨hmem, by simpa using hle⟩, hw⟩

/-- The entry of an id never changes. -/
theorem eq_of_mem {s : ConsumerStream G ι α} {id : ι} {a b : α} (ha : (id, a) ∈ s.entries)
    (hb : (id, b) ∈ s.entries) : a = b := by
  have hdistinct : s.entries.Pairwise fun e f ↦ e.1 ≠ f.1 := s.sorted.imp ne_of_lt
  by_contra hne
  have : Std.Symm fun e f : ι × α ↦ e.1 ≠ f.1 := ⟨fun _ _ h ↦ h.symm⟩
  exact hdistinct.forall ha hb (fun he ↦ hne (congrArg Prod.snd he)) rfl

end ConsumerStream

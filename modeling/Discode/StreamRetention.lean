import Discode.Library.ConsumerStream
import Discode.Library.ProcessPool
import Mathlib.Data.List.TakeDrop
import Mathlib.Data.Prod.Lex
import Mathlib.Data.Int.Notation
import Mathlib.Algebra.Order.Ring.Int

/-!
# `trim_acknowledged`

A call reads the consumer groups once, then the first pending entry of one group after the
other, and trims the stream at the least id it has seen.  Other clients add, read, claim,
acknowledge and dead-letter between any two of these commands, and calls may overlap.
-/

set_option autoImplicit false

namespace Discode

/-- The milliseconds and the sequence number of an entry, compared as Python compares
tuples and Redis compares ids. -/
abbrev StreamId := ℕ ×ₗ ℕ

namespace StreamId

def mk (milliseconds sequence : ℕ) : StreamId := toLex (milliseconds, sequence)

def milliseconds (id : StreamId) : ℕ := (ofLex id).1

def sequence (id : StreamId) : ℕ := (ofLex id).2

/-- The id as Redis prints it. -/
def text (id : StreamId) : List Char :=
  Nat.toDigits 10 id.milliseconds ++ '-' :: Nat.toDigits 10 id.sequence

/-- `int` of a text of digits. -/
def toInt? (s : List Char) : Option ℕ :=
  if s ≠ [] ∧ s.all Char.isDigit then some (Nat.ofDigitChars 10 s 0) else none

/-- `_id`; `none` where it raises. -/
def parse (value : List Char) : Option StreamId :=
  match value.span (· ≠ '-') with
  | (milliseconds, _ :: sequence) =>
      (toInt? milliseconds).bind fun ms ↦ (toInt? sequence).map fun seq ↦ mk ms seq
  | (_, []) => none

theorem toInt?_toDigits (n : ℕ) : toInt? (Nat.toDigits 10 n) = some n := by
  have hdigits : (Nat.toDigits 10 n).all Char.isDigit = true :=
    List.all_eq_true.mpr fun c hc ↦ Nat.isDigit_of_mem_toDigits (by decide) (by decide) hc
  have hne : Nat.toDigits 10 n ≠ [] := Nat.toDigits_ne_nil
  rw [toInt?, if_pos ⟨hne, hdigits⟩, Nat.ofDigitChars_ten_toDigits]

theorem span_toDigits (n : ℕ) (rest : List Char) :
    (Nat.toDigits 10 n ++ '-' :: rest).span (· ≠ '-') = (Nat.toDigits 10 n, '-' :: rest) := by
  have hdigit : ∀ c ∈ Nat.toDigits 10 n, decide (c ≠ '-') = true := by
    intro c hc
    have hd : c.isDigit = true := Nat.isDigit_of_mem_toDigits (by decide) (by decide) hc
    refine decide_eq_true ?_
    rintro rfl
    cases hd
  rw [List.span_eq_takeWhile_dropWhile, List.takeWhile_append_of_pos hdigit,
    List.dropWhile_append_of_pos hdigit]
  simp

/-- An id that Redis printed is read back as it was. -/
@[simp] theorem parse_text (id : StreamId) : parse id.text = some id := by
  rw [text, parse, span_toDigits]
  simp only [toInt?_toDigits, Option.bind_some, Option.map_some]
  rfl

end StreamId

namespace Retention

variable (G α : Type*)

/-- A stream, with the groups that were created on it. -/
structure Redis where
  stream : ConsumerStream G StreamId α
  groups : List G

/-- A call between two of its commands. -/
inductive Call where
  | start (retentionHours : ℤ)
  /-- The groups still to visit, each with the id `XINFO GROUPS` printed. -/
  | loop (floor : StreamId) (rest : List (G × List Char))

/-- What the other clients of the stream do. -/
inductive ClientAction where
  | add (id : StreamId) (fields : α)
  | readNew (group : G) (count : ℕ)
  | claim (group : G) (scanned : List StreamId)
  | ack (group : G) (id : StreamId)
  /-- `HSET` of the dead-letter record and `XACK` in one transaction. -/
  | deadLetter (group : G) (id : StreamId)

inductive CallAction where
  /-- `XINFO GROUPS`, with the clock read after it. -/
  | infoGroups (now : ℕ)
  /-- `XPENDING` of the next group. -/
  | pendingRange
  /-- `XTRIM MINID`. -/
  | trim
  deriving DecidableEq, Repr

variable {G α}

def Redis.setStream (r : Redis G α) (stream : ConsumerStream G StreamId α) : Redis G α :=
  { r with stream := stream }

section Step

variable [DecidableEq G]

def clientStep (r : Redis G α) : ClientAction G α → Option (Redis G α)
  | .add id fields =>
      if h : r.stream.lastId < id then some (r.setStream (r.stream.add id h fields)) else none
  | .readNew group count => some (r.setStream (r.stream.readNew group count))
  | .claim group scanned => some (r.setStream (r.stream.claim group scanned))
  | .ack group id | .deadLetter group id => some (r.setStream (r.stream.ack group id))

/-- The bound from the clock, `max(0, now - retention)`. -/
def retentionFloor (now : ℕ) (retentionHours : ℤ) : StreamId :=
  .mk ((now : ℤ) - retentionHours * 3600000).toNat 0

def Redis.infoGroups (r : Redis G α) : List (G × List Char) :=
  r.groups.map fun g ↦ (g, (r.stream.groups g).lastDelivered.text)

/-- The floor after the first pending entry of a group was looked at. -/
def Redis.floorAfter (r : Redis G α) (group : G) (floor : StreamId) : StreamId :=
  (r.stream.groups group).pending.min?.elim floor (min floor)

def Call.step (r : Redis G α) : Call G → CallAction → Option (Redis G α × Option (Call G))
  | .start retentionHours, .infoGroups now =>
      if r.groups = [] then some (r, none)
      else some (r, some (.loop (retentionFloor now retentionHours) r.infoGroups))
  | .loop floor ((group, last) :: rest), .pendingRange =>
      match StreamId.parse last with
      | none => some (r, none)
      | some last => some (r, some (.loop (r.floorAfter group (min floor last)) rest))
  | .loop floor [], .trim =>
      some (if floor = .mk 0 0 then r else r.setStream (r.stream.trim floor), none)
  | _, _ => none

def machine (G α : Type*) [DecidableEq G] :
    ProcessPool.Machine (Redis G α) (Call G) (ClientAction G α) ℤ CallAction where
  env := clientStep
  spawn := fun _ r retentionHours ↦ some (r, .start retentionHours)
  exec := fun _ r p a ↦ p.step r a

end Step

/-! ## What a call has established -/

/-- Every group was visited, or its printed id is one it has passed by now. -/
def Call.Established (p : Call G) (r : Redis G α) : Prop :=
  match p with
  | .start _ => True
  | .loop floor rest => ∀ g ∈ r.groups, r.stream.Acknowledged g floor ∨
      ∃ id : StreamId, (g, id.text) ∈ rest ∧ id ≤ (r.stream.groups g).lastDelivered

/-- What other clients and other calls do to the stream. -/
structure Grows (r r' : Redis G α) : Prop where
  stream : r.stream.Grows r'.stream
  groups : r'.groups = r.groups

theorem Grows.refl (r : Redis G α) : Grows r r := ⟨.refl _, rfl⟩

theorem Call.Established.grows {p : Call G} {r r' : Redis G α} (h : p.Established r)
    (hr : Grows r r') : p.Established r' := by
  cases p with
  | start retentionHours => trivial
  | loop floor rest =>
      intro g hg
      rw [hr.groups] at hg
      rcases h g hg with hack | ⟨id, hmem, hle⟩
      · exact .inl (hack.grows hr.stream)
      · exact .inr ⟨id, hmem, hle.trans (hr.stream.delivered g)⟩

/-- The visit of a group brings the floor under its unread and its pending entries. -/
theorem acknowledged_floorAfter (r : Redis G α) (group : G) {floor : StreamId}
    (h : floor ≤ (r.stream.groups group).lastDelivered) :
    r.stream.Acknowledged group (r.floorAfter group floor) :=
  ConsumerStream.acknowledged_min h

theorem floorAfter_le (r : Redis G α) (group : G) (floor : StreamId) :
    r.floorAfter group floor ≤ floor := by
  unfold Redis.floorAfter
  cases (r.stream.groups group).pending.min? with
  | none => exact le_rfl
  | some first => exact min_le_left floor first

theorem Call.step_grows {r r' : Redis G α} {p : Call G} {q : Option (Call G)} {a : CallAction}
    (h : p.step r a = some (r', q)) : Grows r r' := by
  cases p with
  | start retentionHours =>
      cases a with
      | infoGroups now =>
          simp only [Call.step] at h
          split at h <;> cases h <;> exact .refl r
      | pendingRange => cases h
      | trim => cases h
  | loop floor rest =>
      cases rest with
      | nil =>
          cases a with
          | trim =>
              cases h
              split
              · exact .refl r
              · exact ⟨r.stream.grows_trim floor, rfl⟩
          | infoGroups now => cases h
          | pendingRange => cases h
      | cons e rest =>
          cases a with
          | pendingRange =>
              simp only [Call.step] at h
              split at h <;> cases h <;> exact .refl r
          | infoGroups now => cases h
          | trim => cases h

theorem Call.Established.step {r r' : Redis G α} {p q : Call G} {a : CallAction}
    (hp : p.Established r) (h : p.step r a = some (r', some q)) : q.Established r' := by
  cases p with
  | start retentionHours =>
      cases a with
      | infoGroups now =>
          simp only [Call.step] at h
          split at h <;> cases h
          intro g hg
          have hrow : (g, (r.stream.groups g).lastDelivered.text) ∈ r.infoGroups :=
            List.mem_map_of_mem hg
          exact .inr ⟨_, hrow, le_rfl⟩
      | pendingRange => cases h
      | trim => cases h
  | loop floor rest =>
      cases rest with
      | nil => cases a <;> cases h
      | cons e rest =>
          cases a with
          | pendingRange =>
              simp only [Call.step] at h
              split at h
              · cases h
              · rename_i last hlast
                cases h
                intro g hg
                rcases hp g hg with hack | ⟨id, hmem, hle⟩
                · refine .inl (hack.mono ?_)
                  exact (floorAfter_le r e.1 _).trans (min_le_left floor last)
                · rcases List.mem_cons.mp hmem with rfl | hmem
                  · -- The group just visited.
                    have hid : id = last := Option.some.inj ((StreamId.parse_text id).symm.trans hlast)
                    subst hid
                    exact .inl (acknowledged_floorAfter r g ((min_le_right floor id).trans hle))
                  · exact .inr ⟨id, hmem, hle⟩
          | infoGroups now => cases h
          | trim => cases h

section Run

variable [DecidableEq G]

theorem clientStep_grows {r r' : Redis G α} {a : ClientAction G α}
    (h : clientStep r a = some r') : Grows r r' := by
  cases a with
  | add id fields =>
      simp only [clientStep] at h
      split at h <;> cases h
      rename_i hid
      exact ⟨r.stream.grows_add hid fields, rfl⟩
  | readNew group count => cases h; exact ⟨r.stream.grows_readNew group count, rfl⟩
  | claim group scanned => cases h; exact ⟨r.stream.grows_claim group scanned, rfl⟩
  | ack group id => cases h; exact ⟨r.stream.grows_ack group id, rfl⟩
  | deadLetter group id => cases h; exact ⟨r.stream.grows_ack group id, rfl⟩

/-- From any stream with any groups. -/
def AnyRedis (_ : Redis G α) : Prop := True

theorem established_proof : ProcessPool.Machine.Proof (machine G α) (fun _ _ ↦ True)
    (fun _ ↦ True) (fun _ p r ↦ p.Established r) where
  env _ _ _ _ _ h := ⟨trivial, fun _ _ hp ↦ hp.grows (clientStep_grows h)⟩
  spawn _ _ _ _ _ _ h := by
    cases h
    exact ⟨trivial, trivial, fun _ _ _ hp ↦ hp⟩
  exec σ pid p a r q ha _ hp h := by
    refine ⟨trivial, fun q' hq ↦ ?_, fun _ _ _ hp' ↦ hp'.grows (Call.step_grows h)⟩
    subst hq
    exact (ha.assert pid p hp).step h

/-- However other clients and other calls interleave, the final `XTRIM` of a call only
removes entries that every group was delivered and that no group has pending. -/
theorem trim_keeps_unread_and_pending
    {σ τ : ProcessPool.State (Redis G α) (Call G)} {pid : ℕ}
    (h : (machine G α).Reachable AnyRedis σ)
    (hs : (machine G α).step σ (.exec pid .trim) = some τ) (e : StreamId × α)
    (he : e ∈ σ.shared.stream.entries) (hgone : e ∉ τ.shared.stream.entries) (g : G)
    (hg : g ∈ σ.shared.groups) :
    e.1 ≤ (σ.shared.stream.groups g).lastDelivered ∧
      e.1 ∉ (σ.shared.stream.groups g).pending := by
  have hann := established_proof.annotated (fun _ _ ↦ trivial) h
  obtain ⟨p, hp, hbind⟩ := Option.bind_eq_some_iff.mp hs
  obtain ⟨⟨r, q⟩, hstep, rfl⟩ := Option.map_eq_some_iff.mp hbind
  have hestablished : p.Established σ.shared := hann.assert pid p hp
  cases p with
  | start retentionHours => cases hstep
  | loop floor rest =>
      cases rest with
      | cons e' rest => cases hstep
      | nil =>
          cases hstep
          have hack : σ.shared.stream.Acknowledged g floor := by
            rcases hestablished g hg with hack | ⟨id, hmem, -⟩
            · exact hack
            · cases hmem
          by_cases hzero : floor = .mk 0 0
          · rw [if_pos hzero] at hgone
            exact absurd he hgone
          · rw [if_neg hzero] at hgone
            exact hack.of_removed he hgone

end Run

/-- One group reads two entries and acknowledges the first; the call then removes it. -/
def sampleRun : List (ProcessPool.Action (ClientAction ℕ Unit) ℤ CallAction) :=
  [.env (.add (.mk 5 0) ()), .env (.add (.mk 6 0) ()), .env (.readNew 0 2),
    .env (.ack 0 (.mk 5 0)), .spawn 24, .exec 0 (.infoGroups 90000000), .exec 0 .pendingRange]

def sampleState : ProcessPool.State (Redis ℕ Unit) (Call ℕ) :=
  ((machine ℕ Unit).run (.start ⟨.init (.mk 0 0), [0]⟩) sampleRun).get (by decide +kernel)

theorem sampleState_reachable : (machine ℕ Unit).Reachable AnyRedis sampleState :=
  ProcessPool.Machine.reachable_of_run (s := ⟨.init (.mk 0 0), [0]⟩) trivial
    (Option.some_get _).symm

theorem trim_keeps_unread_and_pending_sample :
    StreamId.mk 5 0 ≤ (sampleState.shared.stream.groups 0).lastDelivered ∧
      StreamId.mk 5 0 ∉ (sampleState.shared.stream.groups 0).pending := by
  obtain ⟨τ, hτ⟩ : ∃ τ, (machine ℕ Unit).step sampleState (.exec 0 .trim) = some τ :=
    Option.isSome_iff_exists.mp (by decide +kernel)
  have hgone : ((machine ℕ Unit).step sampleState (.exec 0 .trim)).all fun τ ↦
      (StreamId.mk 5 0, ()) ∉ τ.shared.stream.entries := by decide +kernel
  rw [hτ] at hgone
  exact trim_keeps_unread_and_pending sampleState_reachable hτ (StreamId.mk 5 0, ())
    (by decide +kernel) (of_decide_eq_true hgone) 0 (by decide +kernel)

end Retention

end Discode

import Discode.StreamRetention

/-!
# `RunnerConsumerGroup.claim_pending`

A call asks for ten idle entries and always starts at the beginning of the pending list.
The cursor that `XAUTOCLAIM` returns is dropped.
-/

set_option autoImplicit false

namespace Discode

namespace PendingClaims

variable {F : Type*}

/-! ## `XAUTOCLAIM` -/

/-- An entry of the pending list, with the milliseconds since its last delivery. -/
structure PendingEntry (F : Type*) where
  id : StreamId
  fields : F
  idle : ℕ

/-- A pending list is kept in the order of the ids. -/
structure PendingList (F : Type*) where
  entries : List (PendingEntry F)
  sorted : entries.Pairwise fun p q ↦ p.id < q.id

def PendingEntry.claimed (p : PendingEntry F) : PendingEntry F := { p with idle := 0 }

/-- One scan: the claimed entries, the list afterwards, and where the scan stopped.  The
arguments bound the entries that are examined and those that are claimed. -/
def scan (minIdle : ℕ) : ℕ → ℕ → List (PendingEntry F) →
    List (PendingEntry F) × List (PendingEntry F) × Option StreamId
  | _, _, [] => ([], [], none)
  | 0, _, p :: ps => ([], p :: ps, some p.id)
  | _ + 1, 0, p :: ps => ([], p :: ps, some p.id)
  | attempts + 1, count + 1, p :: ps =>
      if p.idle < minIdle then
        let (claimed, rest, cursor) := scan minIdle attempts (count + 1) ps
        (claimed, p :: rest, cursor)
      else
        let (claimed, rest, cursor) := scan minIdle attempts count ps
        (p :: claimed, p.claimed :: rest, cursor)

/-- `XAUTOCLAIM` from `start` on. -/
def xautoclaim (minIdle : ℕ) (start : StreamId) (count : ℕ) (pending : List (PendingEntry F)) :
    List (PendingEntry F) × List (PendingEntry F) × Option StreamId :=
  let before := pending.takeWhile fun p ↦ p.id < start
  let (claimed, rest, cursor) :=
    scan minIdle (10 * count) count (pending.dropWhile fun p ↦ p.id < start)
  (claimed, before ++ rest, cursor)

/-! ## `claim_pending` -/

/-- The configuration refuses a bound that is not positive. -/
structure ClaimSettings where
  pelIdleMs : ℕ
  pelIdleMs_pos : 0 < pelIdleMs

/-- `min_idle_ms or get_settings().RUNNER_JOB_PEL_IDLE_MS`. -/
def ClaimSettings.idle (settings : ClaimSettings) (minIdleMs : Option ℕ) : ℕ :=
  match minIdleMs with
  | some (n + 1) => n + 1
  | _ => settings.pelIdleMs

/-- The messages a call returns, and the pending list after it. -/
def claimPending (settings : ClaimSettings) (minIdleMs : Option ℕ)
    (pending : List (PendingEntry F)) : List (StreamId × F) × List (PendingEntry F) :=
  let result := xautoclaim (settings.idle minIdleMs) (.mk 0 0) 10 pending
  (result.1.map fun p ↦ (p.id, p.fields), result.2.1)

/-- The messages that `n` calls return, while nothing else happens. -/
def claimRepeatedly (settings : ClaimSettings) (minIdleMs : Option ℕ) :
    ℕ → List (PendingEntry F) → List (StreamId × F)
  | 0, _ => []
  | n + 1, pending =>
      let (messages, pending) := claimPending settings minIdleMs pending
      messages ++ claimRepeatedly settings minIdleMs n pending

/-! ## What the calls reach -/

theorem ClaimSettings.idle_pos (settings : ClaimSettings) (minIdleMs : Option ℕ) :
    0 < settings.idle minIdleMs := by
  cases minIdleMs with
  | none => exact settings.pelIdleMs_pos
  | some n =>
      cases n with
      | zero => exact settings.pelIdleMs_pos
      | succ n => exact Nat.succ_pos n

theorem scan_front {minIdle : ℕ} {front : List (PendingEntry F)}
    (hfront : ∀ p ∈ front, p.idle < minIdle) (count : ℕ) (rest : List (PendingEntry F)) :
    ∀ attempts, (scan minIdle attempts (count + 1) (front ++ rest)).1 =
        (scan minIdle (attempts - front.length) (count + 1) rest).1 ∧
      (scan minIdle attempts (count + 1) (front ++ rest)).2.1 =
        front ++ (scan minIdle (attempts - front.length) (count + 1) rest).2.1 := by
  induction front with
  | nil => exact fun attempts ↦ ⟨rfl, rfl⟩
  | cons p front ih =>
      intro attempts
      cases attempts with
      | zero =>
          rw [Nat.zero_sub]
          cases rest <;> exact ⟨rfl, rfl⟩
      | succ attempts =>
          have hp : p.idle < minIdle := hfront p List.mem_cons_self
          obtain ⟨hclaimed, hrest⟩ := ih (fun q hq ↦ hfront q (List.mem_cons_of_mem p hq)) attempts
          rw [List.length_cons, Nat.add_sub_add_right, List.cons_append, scan, if_pos hp]
          exact ⟨hclaimed, congrArg _ hrest⟩

theorem scan_stale {minIdle : ℕ} (attempts : ℕ) :
    ∀ count (stale : List (PendingEntry F)), (∀ p ∈ stale, minIdle ≤ p.idle) →
      (scan minIdle attempts count stale).1 = stale.take (min attempts count) ∧
      (scan minIdle attempts count stale).2.1 =
        (stale.take (min attempts count)).map PendingEntry.claimed ++
          stale.drop (min attempts count) := by
  induction attempts with
  | zero =>
      intro count stale _
      rw [Nat.zero_min]
      cases stale <;> exact ⟨rfl, rfl⟩
  | succ attempts ih =>
      intro count stale hstale
      cases stale with
      | nil => simp [scan]
      | cons p stale =>
          cases count with
          | zero => exact ⟨rfl, rfl⟩
          | succ count =>
              have hp : ¬ p.idle < minIdle := not_lt.mpr (hstale p List.mem_cons_self)
              obtain ⟨hclaimed, hrest⟩ := ih count stale fun q hq ↦
                hstale q (List.mem_cons_of_mem p hq)
              rw [scan, if_neg hp, Nat.succ_min_succ]
              exact ⟨congrArg _ hclaimed, congrArg _ hrest⟩

theorem dropWhile_start (pending : List (PendingEntry F)) :
    (pending.takeWhile fun p ↦ p.id < StreamId.mk 0 0) = [] ∧
      (pending.dropWhile fun p ↦ p.id < StreamId.mk 0 0) = pending := by
  have hnot : ∀ id : StreamId, ¬ id < .mk 0 0 := by
    intro id hlt
    rcases Prod.Lex.lt_iff.mp hlt with h | ⟨-, h⟩ <;> exact Nat.not_lt_zero _ h
  cases pending with
  | nil => exact ⟨rfl, rfl⟩
  | cons p pending =>
      rw [List.takeWhile_cons_of_neg (by simpa using hnot p.id),
        List.dropWhile_cons_of_neg (by simpa using hnot p.id)]
      exact ⟨rfl, rfl⟩

def PendingEntry.message (p : PendingEntry F) : StreamId × F := (p.id, p.fields)

/-- One call on a list whose first entries were just claimed. -/
theorem claimPending_eq (settings : ClaimSettings) (minIdleMs : Option ℕ)
    {front stale : List (PendingEntry F)} (hfront : ∀ p ∈ front, p.idle = 0)
    (hstale : ∀ p ∈ stale, settings.idle minIdleMs ≤ p.idle) :
    claimPending settings minIdleMs (front ++ stale) =
      ((stale.take (min (100 - front.length) 10)).map PendingEntry.message,
        front ++ ((stale.take (min (100 - front.length) 10)).map PendingEntry.claimed ++
          stale.drop (min (100 - front.length) 10))) := by
  have hpos := settings.idle_pos minIdleMs
  obtain ⟨htake, hdrop⟩ := dropWhile_start (front ++ stale)
  obtain ⟨hclaimed, hrest⟩ := scan_front (fun p hp ↦ (hfront p hp).trans_lt hpos) 9 stale 100
  obtain ⟨hclaimed', hrest'⟩ := scan_stale (100 - front.length) 10 stale hstale
  rw [claimPending, xautoclaim, htake, hdrop]
  dsimp only
  rw [hclaimed, hrest, hclaimed', hrest']
  rfl

theorem claimRepeatedly_eq (settings : ClaimSettings) (minIdleMs : Option ℕ) (n : ℕ) :
    ∀ front stale : List (PendingEntry F), (∀ p ∈ front, p.idle = 0) →
      (∀ p ∈ stale, settings.idle minIdleMs ≤ p.idle) →
      claimRepeatedly settings minIdleMs n (front ++ stale) =
        (stale.take (min (10 * n) (100 - front.length))).map PendingEntry.message := by
  induction n with
  | zero =>
      intro front stale _ _
      rw [Nat.mul_zero, Nat.zero_min, List.take_zero]
      rfl
  | succ n ih =>
      intro front stale hfront hstale
      rw [claimRepeatedly, claimPending_eq settings minIdleMs hfront hstale]
      dsimp only
      have hj : min (100 - front.length) 10 ≤ 10 := min_le_right _ _
      have hfront' : ∀ p ∈ front ++
          (stale.take (min (100 - front.length) 10)).map PendingEntry.claimed, p.idle = 0 := by
        intro p hp
        rcases List.mem_append.mp hp with hp | hp
        · exact hfront p hp
        · obtain ⟨q, -, rfl⟩ := List.mem_map.mp hp
          rfl
      have hrest := ih (front ++ (stale.take (min (100 - front.length) 10)).map PendingEntry.claimed)
        (stale.drop (min (100 - front.length) 10)) hfront' fun p hp ↦
          hstale p (List.mem_of_mem_drop hp)
      rw [← List.append_assoc, hrest, ← List.map_append]
      congr 1
      rcases Nat.lt_or_ge (min (100 - front.length) 10) stale.length with hlt | hge
      · rw [← List.take_add]
        congr 1
        rw [List.length_append, List.length_map, List.length_take_of_le hlt.le]
        omega
      · rw [List.drop_eq_nil_of_le hge, List.take_nil, List.append_nil,
          List.take_of_length_le hge, List.take_of_length_le (by omega)]

/-- `n` calls on a list of idle entries return the first `10 * n` entries, but none behind
the hundredth. -/
theorem claimRepeatedly_idle (settings : ClaimSettings) (minIdleMs : Option ℕ) (n : ℕ)
    {pending : List (PendingEntry F)} (hidle : ∀ p ∈ pending, settings.idle minIdleMs ≤ p.idle) :
    claimRepeatedly settings minIdleMs n pending =
      (pending.take (min (10 * n) 100)).map PendingEntry.message :=
  claimRepeatedly_eq settings minIdleMs n [] pending (fun _ hp ↦ nomatch hp) hidle

/-- As many calls as there are tens of idle entries return all of them exactly if there are
at most a hundred. -/
theorem pending_all_reclaimed (settings : ClaimSettings) (minIdleMs : Option ℕ)
    (pending : PendingList F)
    (hidle : ∀ p ∈ pending.entries, settings.idle minIdleMs ≤ p.idle) :
    (∀ p ∈ pending.entries, p.message ∈
      claimRepeatedly settings minIdleMs ((pending.entries.length + 9) / 10) pending.entries) ↔
    pending.entries.length ≤ 100 := by
  rw [claimRepeatedly_idle settings minIdleMs _ hidle]
  constructor
  · intro hall
    by_contra hlong
    rw [Nat.not_le] at hlong
    have hmem : pending.entries[100] ∈ pending.entries := List.getElem_mem hlong
    obtain ⟨q, hq, heq⟩ := List.mem_map.mp (hall _ hmem)
    have hid : q.id = pending.entries[100].id := congrArg Prod.fst heq
    obtain ⟨i, hi, rfl⟩ := List.mem_take_iff_getElem.mp hq
    have hlt : i < 100 := by omega
    have hsorted := List.pairwise_iff_getElem.mp pending.sorted i 100 (by omega) hlong hlt
    exact absurd hid hsorted.ne
  · intro hshort p hp
    rw [List.take_of_length_le (by omega)]
    exact List.mem_map_of_mem hp

def sampleSettings : ClaimSettings := ⟨60000, by decide⟩

/-- `n` entries that are idle for a minute. -/
def idleEntries (n : ℕ) : PendingList ℕ where
  entries := (List.range n).map fun i ↦ ⟨.mk i 1, i, 60000⟩
  sorted := by
    refine List.pairwise_lt_range.map _ fun i j hij ↦ ?_
    exact Prod.Lex.lt_iff.mpr (.inl hij)

theorem idleEntries_idle (n : ℕ) :
    ∀ p ∈ (idleEntries n).entries, sampleSettings.idle none ≤ p.idle := by
  intro p hp
  obtain ⟨i, -, rfl⟩ := List.mem_map.mp hp
  exact le_rfl

theorem pending_all_reclaimed_hundred : (idleEntries 100).entries.length = 100 ∧
    ∀ p ∈ (idleEntries 100).entries, p.message ∈
      claimRepeatedly sampleSettings none 10 (idleEntries 100).entries :=
  ⟨rfl, (pending_all_reclaimed sampleSettings none (idleEntries 100) (idleEntries_idle 100)).mpr
    (by decide)⟩

/-- The last of 101 entries is never returned. -/
theorem hundred_and_first_starves :
    ¬ ∀ (settings : ClaimSettings) (minIdleMs : Option ℕ) (pending : PendingList ℕ),
      (∀ p ∈ pending.entries, settings.idle minIdleMs ≤ p.idle) →
      ∀ p ∈ pending.entries, p.message ∈ claimRepeatedly settings minIdleMs
        ((pending.entries.length + 9) / 10) pending.entries := by
  intro hall
  have hmem : (⟨.mk 100 1, 100, 60000⟩ : PendingEntry ℕ) ∈ (idleEntries 101).entries :=
    List.mem_map_of_mem (List.mem_range.mpr (by decide))
  have hreturned := hall sampleSettings none (idleEntries 101) (idleEntries_idle 101) _ hmem
  have hnot : (StreamId.mk 100 1, 100) ∉
      claimRepeatedly sampleSettings none 11 (idleEntries 101).entries := by decide +kernel
  exact hnot hreturned

end PendingClaims

end Discode

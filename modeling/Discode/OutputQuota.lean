import Discode.Database
import Discode.Library.FixedWindow
import Mathlib.Algebra.Order.Group.Nat
import Mathlib.Logic.Function.Basic

/-!
# The output quota

The script that the control API evaluates in Redis before a chunk of a reply goes to Discord.  All
runner processes share the hash of a session, which expires a minute after it was created.
-/

set_option autoImplicit false

namespace Discode.OutputQuota

open FixedWindow SlidingWindow

/-! ## The script -/

/-- `output:quota:{sid}`. -/
structure QuotaHash where
  fields : PyStr → Option ℕ
  expiresAt : Option Time

def QuotaHash.missing : QuotaHash := ⟨fun _ ↦ none, none⟩

inductive Verdict where
  | charged
  /-- The chunk has a field already. -/
  | repeated
  | refused
  deriving DecidableEq, Repr

/-- What the script returns. -/
def Verdict.allowed : Verdict → Bool
  | .charged | .repeated => true
  | .refused => false

structure Call where
  time : Time
  sid : SessionId
  nonce : PyStr
  size : ℕ
  verdict : Verdict
  deriving DecidableEq, Repr

structure Redis where
  now : Time
  /-- Also those that have expired and are not deleted yet. -/
  hashes : SessionId → Option QuotaHash
  /-- The calls so far, the last one first. -/
  log : List Call

def Redis.empty : Redis := ⟨0, fun _ ↦ none, []⟩

def totalField : PyStr := pyStr "total"

/-- A key is expired when its time is over. -/
def Redis.live (s : Redis) (sid : SessionId) : Option QuotaHash :=
  (s.hashes sid).filter fun hash ↦ hash.expiresAt.all fun t ↦ s.now ≤ t

def QuotaHash.total (hash : QuotaHash) : ℕ := (hash.fields totalField).getD 0

/-- `HSET` of the chunk, `HINCRBY` of the total, and `EXPIRE` for a hash that has no expiry. -/
def QuotaHash.charge (hash : QuotaHash) (now : Time) (nonce : PyStr) (size : ℕ) : QuotaHash :=
  let fields := Function.update hash.fields nonce (some 1)
  ⟨Function.update fields totalField (some ((fields totalField).getD 0 + size)),
    some (hash.expiresAt.getD (now + 60000))⟩

/-- `output_quota`: what the script finds, and the hashes after it. -/
def outputQuota (maxBytes : ℕ) (s : Redis) (sid : SessionId) (nonce : PyStr) (size : ℕ) :
    Verdict × (SessionId → Option QuotaHash) :=
  let hash := (s.live sid).getD .missing
  if (hash.fields nonce).isSome then (.repeated, s.hashes)
  else if maxBytes < hash.total + size then (.refused, s.hashes)
  else (.charged, Function.update s.hashes sid (some (hash.charge s.now nonce size)))

inductive Action where
  | tick (ms : ℕ)
  | outputQuota (sid : SessionId) (nonce : PyStr) (size : ℕ)

def Redis.step (maxBytes : ℕ) (s : Redis) : Action → Redis
  | .tick ms => { s with now := s.now + ms }
  | .outputQuota sid nonce size =>
      let result := OutputQuota.outputQuota maxBytes s sid nonce size
      { s with
        hashes := result.2
        log := ⟨s.now, sid, nonce, size, result.1⟩ :: s.log }

def run (maxBytes : ℕ) (actions : List Action) : Redis :=
  actions.foldl (Redis.step maxBytes) .empty

/-! ## Charges -/

def Call.isCharge (sid : SessionId) (call : Call) : Bool :=
  call.sid = sid ∧ call.verdict = .charged

def chargesOf (sid : SessionId) (log : List Call) : List Call := log.filter (Call.isCharge sid)

/-- What was charged, and when. -/
def Call.timed (call : Call) : Time × ℕ := (call.time, call.size)

/-- The charges of a session, the last one first, cut time into minutes: a charge outside the minute
of the one before begins a new minute.  `minuteAt charges t` is the start of the one that `t` is in. -/
def minuteAt : List Call → Time → Option Time
  | [], _ => none
  | c :: charges, t =>
      (some ((minuteAt charges c.time).getD c.time)).filter fun start ↦ t ≤ start + 60000

/-- The charges of the minute that `t` is in. -/
def minute (charges : List Call) (t : Time) : List Call :=
  charges.filter fun c ↦ (minuteAt charges t).any fun start ↦ start ≤ c.time

def bytes (calls : List Call) : ℕ := (calls.map Call.size).sum

/-- Why a call ended as it did, by the calls before it. -/
def Justified (maxBytes : ℕ) (call : Call) (earlier : List Call) : Prop :=
  let charged := minute (chargesOf call.sid earlier) call.time
  match call.verdict with
  | .charged => (∀ c ∈ charged, c.nonce ≠ call.nonce) ∧ bytes charged + call.size ≤ maxBytes
  | .repeated => ∃ c ∈ charged, c.nonce = call.nonce ∧ call.time ≤ c.time + 60000
  | .refused => (∀ c ∈ charged, c.nonce ≠ call.nonce) ∧ maxBytes < bytes charged + call.size

/-! ## The hash of a session -/

/-- The hash was created at `start`, and has counted the charges since then. -/
structure Counts (maxBytes : ℕ) (hash : QuotaHash) (start now : Time) (charges : List Call) :
    Prop where
  expires : hash.expiresAt = some (start + 60000)
  started : start ≤ now
  windowed : Windowed 60000 maxBytes start (charges.map Call.timed)
  total : load (isSince start) (charges.map Call.timed) ≤ hash.total
  /-- The field of the total is not the one of a chunk. -/
  exact : (∀ c ∈ charges, c.nonce ≠ totalField) →
    hash.total ≤ load (isSince start) (charges.map Call.timed)
  charged : ∀ c ∈ charges, start ≤ c.time → (hash.fields c.nonce).isSome = true
  named : ∀ nonce, (hash.fields nonce).isSome = true → nonce = totalField ∨
    ∃ c ∈ charges, c.nonce = nonce ∧ start ≤ c.time ∧ c.time ≤ now
  minute : ∀ t, minuteAt charges t = (some start).filter fun start ↦ t ≤ start + 60000

variable {maxBytes : ℕ} {hash : QuotaHash} {start now : Time} {charges : List Call} {call : Call}

theorem load_cons_since (hstart : start ≤ call.time) :
    load (isSince start) ((call :: charges).map Call.timed) =
      call.size + load (isSince start) (charges.map Call.timed) := by
  rw [List.map_cons, load_cons, Call.timed, if_pos (isSince_of_le hstart)]

theorem Counts.later {now' : Time} (h : Counts maxBytes hash start now charges)
    (hnow : now ≤ now') : Counts maxBytes hash start now' charges where
  expires := h.expires
  started := h.started.trans hnow
  windowed := h.windowed
  total := h.total
  exact := h.exact
  charged := h.charged
  named nonce hsome := by
    rcases h.named nonce hsome with htotal | ⟨c, hc, hnonce, hstart, hle⟩
    · exact .inl htotal
    · exact .inr ⟨c, hc, hnonce, hstart, hle.trans hnow⟩
  minute := h.minute

theorem charge_isSome {nonce field : PyStr} {size : ℕ} :
    ((hash.charge now nonce size).fields field).isSome = true ↔
      field = totalField ∨ field = nonce ∨ (hash.fields field).isSome = true := by
  unfold QuotaHash.charge
  by_cases htotal : field = totalField
  · simp [htotal]
  · by_cases hnonce : field = nonce
    · subst hnonce
      simp [htotal]
    · simp [htotal, hnonce]

theorem charge_total {nonce : PyStr} (now : Time) (size : ℕ) (hnew : hash.fields nonce = none) :
    hash.total + size ≤ (hash.charge now nonce size).total ∧
      (nonce ≠ totalField → (hash.charge now nonce size).total = hash.total + size) := by
  unfold QuotaHash.total QuotaHash.charge
  by_cases hnonce : nonce = totalField
  · subst hnonce
    simp [hnew]
  · simp [Ne.symm hnonce]

theorem Counts.minuteAt_eq (h : Counts maxBytes hash start now charges)
    (hle : now ≤ start + 60000) : minuteAt charges now = some start := by
  rw [h.minute, Option.filter_some, if_pos (decide_eq_true hle)]

/-- The charge of a chunk that the hash does not have yet. -/
theorem Counts.charge (h : Counts maxBytes hash start now charges) (htime : call.time = now)
    (hlive : now ≤ start + 60000) (hnew : hash.fields call.nonce = none)
    (hfits : hash.total + call.size ≤ maxBytes) :
    Counts maxBytes (hash.charge now call.nonce call.size) start now (call :: charges) := by
  obtain ⟨htotal, hexact⟩ := charge_total now call.size hnew
  have hstart : start ≤ call.time := htime ▸ h.started
  have hcounted := h.total
  refine ⟨?_, h.started, ?_, ?_, fun hplain ↦ ?_, fun c hc hstart ↦ ?_, fun nonce hsome ↦ ?_,
    fun t ↦ ?_⟩
  · rw [QuotaHash.charge, h.expires]
    rfl
  · rw [List.map_cons, Call.timed, htime]
    exact h.windowed.charge h.started hlive (by omega)
  · rw [load_cons_since hstart]
    omega
  · have hle := h.exact fun c hc ↦ hplain c (List.mem_cons_of_mem _ hc)
    rw [load_cons_since hstart, hexact (hplain call List.mem_cons_self)]
    omega
  · refine charge_isSome.mpr (.inr ?_)
    rcases List.mem_cons.mp hc with rfl | hc
    · exact .inl rfl
    · exact .inr (h.charged c hc hstart)
  · rcases charge_isSome.mp hsome with hfield | rfl | hold
    · exact .inl hfield
    · exact .inr ⟨call, List.mem_cons_self, rfl, hstart, htime.le⟩
    · rcases h.named nonce hold with hfield | ⟨c, hc, hrest⟩
      · exact .inl hfield
      · exact .inr ⟨c, List.mem_cons_of_mem _ hc, hrest⟩
  · rw [minuteAt, htime, h.minuteAt_eq hlive, Option.getD_some]

/-- No hash counts any more. -/
def Idle (maxBytes : ℕ) (now : Time) (charges : List Call) : Prop :=
  charges = [] ∨ ∃ hash start, Counts maxBytes hash start now charges ∧ start + 60000 < now

theorem Idle.minuteAt_eq (h : Idle maxBytes now charges) : minuteAt charges now = none := by
  rcases h with rfl | ⟨hash, start, hcounts, hlt⟩
  · rfl
  · rw [hcounts.minute, Option.filter_some, if_neg (by simpa using hlt)]

theorem Idle.past (h : Idle maxBytes now charges) :
    ∀ e ∈ charges.map Call.timed, e.1 < now := by
  rcases h with rfl | ⟨hash, start, hcounts, hlt⟩
  · exact fun e he ↦ nomatch he
  · exact fun e he ↦ (hcounts.windowed.past e he).trans_lt hlt

theorem Idle.windowed {weight : ℕ} (h : Idle maxBytes now charges) (hfits : weight ≤ maxBytes) :
    Windowed 60000 maxBytes now ((now, weight) :: charges.map Call.timed) := by
  rcases h with rfl | ⟨hash, start, hcounts, hlt⟩
  · exact .first (Nat.le_add_right _ _) hfits
  · exact hcounts.windowed.reopen hlt (Nat.le_add_right _ _) hfits

/-- The first charge in a new hash. -/
theorem Idle.charge (h : Idle maxBytes now charges) (htime : call.time = now)
    (hfits : call.size ≤ maxBytes) :
    Counts maxBytes (QuotaHash.charge .missing now call.nonce call.size) now now
      (call :: charges) := by
  have hmissing : QuotaHash.missing.fields call.nonce = none := rfl
  obtain ⟨htotal, hexact⟩ := charge_total now call.size hmissing
  have hold : load (isSince now) (charges.map Call.timed) = 0 :=
    load_eq_zero fun e he ↦ decide_eq_false (not_le.mpr (h.past e he))
  have hload : load (isSince now) ((call :: charges).map Call.timed) = call.size := by
    rw [load_cons_since htime.ge, hold]
    rfl
  have hearlier : ∀ c ∈ charges, c.time < now :=
    fun c hc ↦ h.past _ (List.mem_map_of_mem hc)
  refine ⟨rfl, le_rfl, ?_, ?_, fun hplain ↦ ?_, fun c hc hstart ↦ ?_, fun nonce hsome ↦ ?_,
    fun t ↦ ?_⟩
  · rw [List.map_cons, Call.timed, htime]
    exact h.windowed hfits
  · rw [hload]
    exact (Nat.le_add_left _ _).trans htotal
  · rw [hload, hexact (hplain call List.mem_cons_self)]
    exact (Nat.zero_add _).le
  · rcases List.mem_cons.mp hc with rfl | hc
    · exact charge_isSome.mpr (.inr (.inl rfl))
    · exact absurd (hearlier c hc) (not_lt.mpr hstart)
  · rcases charge_isSome.mp hsome with hfield | rfl | hnone
    · exact .inl hfield
    · exact .inr ⟨call, List.mem_cons_self, rfl, htime.ge, htime.le⟩
    · cases hnone
  · rw [minuteAt, htime, h.minuteAt_eq, Option.getD_none]

/-! ## Runs -/

/-- What Redis has of a session. -/
def Tracks (maxBytes : ℕ) (now : Time) (charges : List Call) : Option QuotaHash → Prop
  | none => charges = []
  | some hash => ∃ start, Counts maxBytes hash start now charges

structure Inv (maxBytes : ℕ) (s : Redis) : Prop where
  tracks : ∀ sid, Tracks maxBytes s.now (chargesOf sid s.log) (s.hashes sid)
  justified : (∀ c ∈ s.log, c.nonce ≠ totalField) →
    ∀ call earlier, call :: earlier <:+ s.log → Justified maxBytes call earlier

variable {s : Redis} {sid : SessionId} {nonce : PyStr} {size : ℕ}

theorem Tracks.later {now' : Time} {hash? : Option QuotaHash}
    (h : Tracks maxBytes now charges hash?) (hnow : now ≤ now') :
    Tracks maxBytes now' charges hash? := by
  cases hash? with
  | none => exact h
  | some hash =>
      obtain ⟨start, hcounts⟩ := h
      exact ⟨start, hcounts.later hnow⟩

/-- The hash that the script finds. -/
theorem Tracks.live (h : Tracks maxBytes s.now charges (s.hashes sid)) :
    (s.live sid = none ∧ Idle maxBytes s.now charges) ∨
      ∃ hash start, s.live sid = some hash ∧ Counts maxBytes hash start s.now charges ∧
        s.now ≤ start + 60000 := by
  unfold Redis.live
  cases hhash : s.hashes sid with
  | none =>
      rw [hhash] at h
      exact .inl ⟨rfl, .inl h⟩
  | some hash =>
      rw [hhash] at h
      obtain ⟨start, hcounts⟩ := h
      by_cases hlive : s.now ≤ start + 60000
      · refine .inr ⟨hash, start, ?_, hcounts, hlive⟩
        simp [Option.filter, hcounts.expires, hlive]
      · refine .inl ⟨?_, .inr ⟨hash, start, hcounts, not_le.mp hlive⟩⟩
        simp [Option.filter, hcounts.expires, hlive]

/-- What a call of the script does. -/
theorem outputQuota_cases (maxBytes : ℕ) (s : Redis) (sid : SessionId) (nonce : PyStr)
    (size : ℕ) :
    let hash := (s.live sid).getD .missing
    ((hash.fields nonce).isSome = true ∧
      outputQuota maxBytes s sid nonce size = (.repeated, s.hashes)) ∨
    (hash.fields nonce = none ∧ maxBytes < hash.total + size ∧
      outputQuota maxBytes s sid nonce size = (.refused, s.hashes)) ∨
    (hash.fields nonce = none ∧ hash.total + size ≤ maxBytes ∧
      outputQuota maxBytes s sid nonce size = (.charged, Function.update s.hashes sid
        (some (hash.charge s.now nonce size)))) := by
  intro hash
  unfold outputQuota
  by_cases hsome : (hash.fields nonce).isSome = true
  · exact .inl ⟨hsome, if_pos hsome⟩
  · have hnone := Option.not_isSome_iff_eq_none.mp hsome
    by_cases hfull : maxBytes < hash.total + size
    · exact .inr (.inl ⟨hnone, hfull, (if_neg hsome).trans (if_pos hfull)⟩)
    · exact .inr (.inr ⟨hnone, not_lt.mp hfull, (if_neg hsome).trans (if_neg hfull)⟩)

theorem chargesOf_cons_charged {log : List Call} {now : Time} :
    chargesOf sid (⟨now, sid, nonce, size, .charged⟩ :: log) =
      ⟨now, sid, nonce, size, .charged⟩ :: chargesOf sid log :=
  List.filter_cons_of_pos (by simp [Call.isCharge])

theorem chargesOf_cons_other {log : List Call} (h : call.isCharge sid = false) :
    chargesOf sid (call :: log) = chargesOf sid log :=
  List.filter_cons_of_neg (by simp [h])

/-- The charge of a session whose hash is tracked. -/
theorem Tracks.charge (h : Tracks maxBytes s.now charges (s.hashes sid))
    (htime : call.time = s.now)
    (hnew : ((s.live sid).getD .missing).fields call.nonce = none)
    (hfits : ((s.live sid).getD .missing).total + call.size ≤ maxBytes) :
    Tracks maxBytes s.now (call :: charges)
      (some (((s.live sid).getD .missing).charge s.now call.nonce call.size)) := by
  rcases h.live with ⟨hlive, hidle⟩ | ⟨hash, start, hlive, hcounts, hle⟩
  · rw [hlive] at hfits ⊢
    exact ⟨s.now, hidle.charge htime ((Nat.le_add_left _ _).trans hfits)⟩
  · rw [hlive] at hnew hfits ⊢
    exact ⟨start, hcounts.charge htime hle hnew hfits⟩

theorem Idle.minute_eq (h : Idle maxBytes now charges) : minute charges now = [] := by
  rw [minute, h.minuteAt_eq]
  exact List.filter_eq_nil_iff.mpr fun _ _ ↦ by simp

/-- A hash that counts has the charges of the minute. -/
theorem Counts.minute_eq (h : Counts maxBytes hash start now charges) (hle : now ≤ start + 60000) :
    OutputQuota.minute charges now = charges.filter fun c ↦ start ≤ c.time := by
  rw [OutputQuota.minute, h.minuteAt_eq hle]
  rfl

theorem bytes_filter (start : Time) (charges : List Call) :
    bytes (charges.filter fun c ↦ start ≤ c.time) =
      load (isSince start) (charges.map Call.timed) := by
  rw [bytes, load, List.filter_map, List.map_map]
  rfl

/-- The verdict of the script by what it has found. -/
theorem Tracks.justified {log : List Call}
    (h : Tracks maxBytes s.now (chargesOf sid log) (s.hashes sid)) (hnonce : nonce ≠ totalField)
    (hplain : ∀ c ∈ chargesOf sid log, c.nonce ≠ totalField) :
    Justified maxBytes ⟨s.now, sid, nonce, size, (outputQuota maxBytes s sid nonce size).1⟩
      log := by
  have hcases := outputQuota_cases maxBytes s sid nonce size
  rcases h.live with ⟨hlive, hidle⟩ | ⟨hash, start, hlive, hcounts, hle⟩
  · rw [hlive] at hcases
    rcases hcases with ⟨hsome, -⟩ | ⟨-, hfull, heq⟩ | ⟨-, hfits, heq⟩
    · cases hsome
    · rw [heq]
      dsimp only [Justified]
      rw [hidle.minute_eq]
      exact ⟨fun _ hc ↦ (nomatch hc), hfull⟩
    · rw [heq]
      dsimp only [Justified]
      rw [hidle.minute_eq]
      exact ⟨fun _ hc ↦ (nomatch hc), hfits⟩
  · have hexact := le_antisymm hcounts.total (hcounts.exact hplain)
    have hnew : (hash.fields nonce).isSome = false →
        ∀ c ∈ (chargesOf sid log).filter (fun c ↦ start ≤ c.time), c.nonce ≠ nonce := by
      rintro hnone c hc rfl
      obtain ⟨hc, hstart⟩ := List.mem_filter.mp hc
      rw [hcounts.charged c hc (of_decide_eq_true hstart)] at hnone
      cases hnone
    rw [hlive, Option.getD_some] at hcases
    rcases hcases with ⟨hsome, heq⟩ | ⟨hnone, hfull, heq⟩ | ⟨hnone, hfits, heq⟩
    · rw [heq]
      dsimp only [Justified]
      rw [hcounts.minute_eq hle]
      rcases hcounts.named nonce hsome with hfield | ⟨c, hc, hsame, hstart, hnow⟩
      · exact absurd hfield hnonce
      · exact ⟨c, List.mem_filter.mpr ⟨hc, decide_eq_true hstart⟩, hsame,
          hle.trans (Nat.add_le_add_right hstart _)⟩
    · rw [heq]
      dsimp only [Justified]
      rw [hcounts.minute_eq hle, bytes_filter, hexact]
      exact ⟨hnew (Option.not_isSome_iff_eq_none.mpr hnone |> Bool.eq_false_iff.mpr), hfull⟩
    · rw [heq]
      dsimp only [Justified]
      rw [hcounts.minute_eq hle, bytes_filter, hexact]
      exact ⟨hnew (Option.not_isSome_iff_eq_none.mpr hnone |> Bool.eq_false_iff.mpr), hfits⟩

theorem Inv.step (h : Inv maxBytes s) (a : Action) : Inv maxBytes (s.step maxBytes a) := by
  cases a with
  | tick ms => exact ⟨fun sid ↦ (h.tracks sid).later (Nat.le_add_right _ _), h.justified⟩
  | outputQuota sid nonce size =>
      refine ⟨fun sid' ↦ ?_, fun hplain call earlier hsuffix ↦ ?_⟩
      · have htracks := h.tracks sid'
        simp only [Redis.step]
        rcases outputQuota_cases maxBytes s sid nonce size with
          ⟨-, heq⟩ | ⟨-, -, heq⟩ | ⟨hnew, hfits, heq⟩
        · rw [heq, chargesOf_cons_other (by simp [Call.isCharge])]
          exact htracks
        · rw [heq, chargesOf_cons_other (by simp [Call.isCharge])]
          exact htracks
        · simp only [heq]
          by_cases hsid : sid' = sid
          · subst hsid
            rw [chargesOf_cons_charged, Function.update_self]
            exact htracks.charge rfl hnew hfits
          · rw [chargesOf_cons_other (by simp [Call.isCharge, Ne.symm hsid]),
              Function.update_of_ne hsid]
            exact htracks
      · have hold : ∀ c ∈ s.log, c.nonce ≠ totalField :=
          fun c hc ↦ hplain c (List.mem_cons_of_mem _ hc)
        rcases List.suffix_cons_iff.mp hsuffix with heq | hsuffix
        · cases heq
          exact (h.tracks sid).justified (hplain _ List.mem_cons_self)
            fun c hc ↦ hold c (List.mem_of_mem_filter hc)
        · exact h.justified hold call earlier hsuffix

theorem Inv.foldl (h : Inv maxBytes s) (actions : List Action) :
    Inv maxBytes (actions.foldl (Redis.step maxBytes) s) := by
  induction actions generalizing s with
  | nil => exact h
  | cons a actions ih => exact ih (h.step a)

theorem inv_empty (maxBytes : ℕ) : Inv maxBytes .empty where
  tracks _ := rfl
  justified _ _ _ hsuffix := nomatch List.suffix_nil.mp hsuffix

theorem inv_run (maxBytes : ℕ) (actions : List Action) : Inv maxBytes (run maxBytes actions) :=
  (inv_empty maxBytes).foldl actions

theorem Tracks.bounded {hash? : Option QuotaHash} (h : Tracks maxBytes now charges hash?) :
    Bounded 60000 (2 * maxBytes) (charges.map Call.timed) := by
  cases hash? with
  | none =>
      cases h
      exact bounded_nil _ _
  | some hash =>
      obtain ⟨start, hcounts⟩ := h
      exact hcounts.windowed.bounded

/-- The quota of one hash at its end and that of the next one at its beginning: an empty chunk has
opened the first one. -/
def fullRun (maxBytes : ℕ) (sid : SessionId) : List Action :=
  [.outputQuota sid (pyStr "a") 0, .tick 60000, .outputQuota sid (pyStr "b") maxBytes, .tick 1,
    .outputQuota sid (pyStr "c") maxBytes]

/-- The state after a charge. -/
def Redis.charged (s : Redis) (sid : SessionId) (nonce : PyStr) (size : ℕ) : Redis :=
  ⟨s.now, Function.update s.hashes sid
    (some (((s.live sid).getD .missing).charge s.now nonce size)),
    ⟨s.now, sid, nonce, size, .charged⟩ :: s.log⟩

theorem step_charged (hnew : ((s.live sid).getD .missing).fields nonce = none)
    (hfits : ((s.live sid).getD .missing).total + size ≤ maxBytes) :
    s.step maxBytes (.outputQuota sid nonce size) = s.charged sid nonce size := by
  have hsome : ¬ (((s.live sid).getD .missing).fields nonce).isSome = true := by simp [hnew]
  have hcharged : outputQuota maxBytes s sid nonce size = (.charged, Function.update s.hashes sid
      (some (((s.live sid).getD .missing).charge s.now nonce size))) :=
    (if_neg hsome).trans (if_neg (not_lt.mpr hfits))
  rw [Redis.step, hcharged]
  rfl

/-- What is left of the hash at a later time. -/
theorem charged_live {t : Time}
    (h : (((s.live sid).getD .missing).charge s.now nonce size).expiresAt = some t) (ms : ℕ) :
    Redis.live ((s.charged sid nonce size).step maxBytes (.tick ms)) sid = if s.now + ms ≤ t then
      some (((s.live sid).getD .missing).charge s.now nonce size) else none := by
  generalize hhash : ((s.live sid).getD .missing).charge s.now nonce size = hash at h
  have hcharged : ((s.charged sid nonce size).step maxBytes (.tick ms)).hashes sid = some hash := by
    rw [← hhash]
    exact Function.update_self _ _ _
  rw [Redis.live, hcharged, Option.filter_some, h, Option.all_some]
  simp only [decide_eq_true_eq]
  rfl

theorem fullRun_log (maxBytes : ℕ) (sid : SessionId) :
    (run maxBytes (fullRun maxBytes sid)).log =
      [⟨60001, sid, pyStr "c", maxBytes, .charged⟩, ⟨60000, sid, pyStr "b", maxBytes, .charged⟩,
        ⟨0, sid, pyStr "a", 0, .charged⟩] := by
  let s₁ := Redis.empty.charged sid (pyStr "a") 0
  let s₂ := s₁.step maxBytes (.tick 60000)
  let s₃ := s₂.charged sid (pyStr "b") maxBytes
  let s₄ := s₃.step maxBytes (.tick 1)
  let first := QuotaHash.charge .missing 0 (pyStr "a") 0
  have hnow₂ : s₂.now = 60000 := Nat.zero_add 60000
  have hnow₄ : s₄.now = 60001 := congrArg (· + 1) hnow₂
  have hopened : first.expiresAt = some 60000 := rfl
  have hlive₂ : s₂.live sid = some first :=
    (charged_live (s := .empty) hopened 60000).trans (if_pos (Nat.zero_add 60000).le)
  have hlive₄ : s₄.live sid = none := by
    have hkept : (((s₂.live sid).getD .missing).charge s₂.now (pyStr "b") maxBytes).expiresAt =
        some 60000 := by
      rw [hlive₂, QuotaHash.charge, Option.getD_some, hopened, Option.getD_some]
    refine (charged_live hkept 1).trans (if_neg ?_)
    rw [hnow₂]
    decide
  have h₁ : Redis.step maxBytes .empty (.outputQuota sid (pyStr "a") 0) = s₁ :=
    step_charged rfl (Nat.zero_le _)
  have h₃ : s₂.step maxBytes (.outputQuota sid (pyStr "b") maxBytes) = s₃ := by
    have hnew : first.fields (pyStr "b") = none := by decide +kernel
    have htotal : first.total = 0 := by decide +kernel
    refine step_charged ?_ ?_
    · rw [hlive₂]
      exact hnew
    · rw [hlive₂, Option.getD_some, htotal, Nat.zero_add]
  have h₅ : s₄.step maxBytes (.outputQuota sid (pyStr "c") maxBytes) =
      s₄.charged sid (pyStr "c") maxBytes := by
    refine step_charged ?_ ?_
    · rw [hlive₄]
      rfl
    · rw [hlive₄]
      exact (Nat.zero_add maxBytes).le
  have hrun : run maxBytes (fullRun maxBytes sid) = s₄.charged sid (pyStr "c") maxBytes := by
    simp only [run, fullRun, List.foldl_cons, List.foldl_nil]
    rw [h₁, show s₁.step maxBytes (.tick 60000) = s₂ from rfl, h₃,
      show s₃.step maxBytes (.tick 1) = s₄ from rfl, h₅]
  have hlog : (s₄.charged sid (pyStr "c") maxBytes).log =
      [⟨s₄.now, sid, pyStr "c", maxBytes, .charged⟩, ⟨s₂.now, sid, pyStr "b", maxBytes, .charged⟩,
        ⟨0, sid, pyStr "a", 0, .charged⟩] := rfl
  rw [hrun, hlog, hnow₄, hnow₂]

/-- Any minute has at most twice the quota, and some run brings that much into one.  The script goes
by the charges of the minute that it is called in: it lets a chunk of them through again, and refuses
a chunk that does not fit beside them. -/
theorem output_within_quota (maxBytes : ℕ) :
    (∀ actions sid, Bounded 60000 (2 * maxBytes)
      ((chargesOf sid (run maxBytes actions).log).map Call.timed)) ∧
    (∀ sid, ∃ actions t, load (inWindow 60000 t)
      ((chargesOf sid (run maxBytes actions).log).map Call.timed) = 2 * maxBytes) ∧
    ∀ actions, (∀ c ∈ (run maxBytes actions).log, c.nonce ≠ totalField) →
      ∀ call earlier, call :: earlier <:+ (run maxBytes actions).log →
        Justified maxBytes call earlier := by
  refine ⟨fun actions sid ↦ ((inv_run maxBytes actions).tracks sid).bounded, fun sid ↦ ?_,
    fun actions ↦ (inv_run maxBytes actions).justified⟩
  refine ⟨fullRun maxBytes sid, 60000, ?_⟩
  rw [fullRun_log]
  simp [chargesOf, Call.isCharge, Call.timed, load, inWindow, Nat.two_mul]

/-- A chunk is sent again, one does not fit, and after the minute both are charged. -/
theorem output_within_quota_retried :
    let log := (run 10 [.outputQuota 7 (pyStr "a") 6, .outputQuota 7 (pyStr "a") 6,
      .outputQuota 7 (pyStr "b") 5, .tick 60001, .outputQuota 7 (pyStr "b") 5,
      .outputQuota 7 (pyStr "a") 5]).log
    log.map Call.verdict = [.charged, .charged, .refused, .repeated, .charged] ∧
      ∀ call earlier, call :: earlier <:+ log → Justified 10 call earlier :=
  ⟨by decide +kernel, (output_within_quota 10).2.2 _ (by decide +kernel)⟩

end Discode.OutputQuota

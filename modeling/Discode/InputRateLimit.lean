import Discode.JanitorSweeps
import Discode.LedgerProof
import Discode.Library.ProcessPool
import Discode.Library.SlidingWindow
import Mathlib.Algebra.Order.Group.Nat

/-!
# The rate limit of inputs

`run_input_saga` statement by statement, with any number of concurrent calls.  The row lock of the
session makes the check and the insert one step, the saga of the other modules, and what it has
accepted is within the limits in every window of a minute.
-/

set_option autoImplicit false

namespace Discode.InputRateLimit

open ProcessPool (Machine)

/-! ## Calls -/

/-- Where a call is suspended: before the row lock, before the query for recent inputs, before the
commit. -/
inductive Stage where
  | entered
  | locked (row : SessionRow) (threadId : ThreadId) (hostId : HostId)
  | checked (row : SessionRow) (threadId : ThreadId) (hostId : HostId)

structure InputCall where
  key : Key
  sid : SessionId
  guildId : GuildId
  text : PyStr
  stage : Stage

/-- The committed tables, the row locks, and how the calls have ended, the last one first. -/
structure Store where
  db : Database
  holder : SessionId → Option ℕ
  ended : List (ℕ × Except String InputAccepted)

namespace Store

def reject (s : Store) (pid : ℕ) (error : String) : Store × Option InputCall :=
  ({ s with ended := (pid, .error error) :: s.ended }, none)

def lock (s : Store) (sid : SessionId) (pid : ℕ) : Store :=
  { s with holder := Function.update s.holder sid (some pid) }

def unlock (s : Store) (sid : SessionId) : Store :=
  { s with holder := Function.update s.holder sid none }

/-- The commit: the rows, and the end of the row lock. -/
def accept (s : Store) (pid : ℕ) (sid : SessionId) (bytes : ℕ) (db : Database) : Store :=
  { (s.unlock sid) with db := db, ended := (pid, .ok ⟨sid, bytes, s.db.now⟩) :: s.ended }

/-- All inputs that have been accepted, also those whose events have been deleted. -/
def accepted (s : Store) : List InputAccepted := s.ended.filterMap fun e ↦ e.2.toOption

end Store

/-- The checks in front of the row lock. -/
def refusal? (settings : Settings) (text : PyStr) : Option String :=
  if strip text = [] then some "empty_input"
  else if text.any isSurrogate then some "surrogates not allowed"
  else if settings.maxInputBytesPerMessage < utf8Length text then some "input_too_large"
  else if settings.emergencyStop then some "emergency_stop"
  else none

/-- Up to the row lock and the checks of the row. -/
def InputCall.enter (settings : Settings) (pid : ℕ) (s : Store) (p : InputCall) :
    Option (Store × Option InputCall) :=
  match refusal? settings p.text with
  | some error => some (s.reject pid error)
  | none =>
      if s.holder p.sid ≠ none then none
      else match s.db.session? p.sid with
        | none => some (s.reject pid "session_not_found")
        | some row =>
            if row.guildId ≠ p.guildId then some (s.reject pid "session_not_found")
            else if !row.status.isLive then
              some (s.reject pid ("session_not_ready:" ++ row.status.text))
            else match row.threadId, row.hostId with
              | some threadId, some hostId =>
                  some (s.lock p.sid pid, some { p with stage := .locked row threadId hostId })
              | _, _ => some (s.reject pid "session_not_ready")

inductive CallAction where
  | resume
  /-- An exception out of the transaction, which is rolled back. -/
  | fail

def InputCall.step (settings : Settings) (pid : ℕ) (s : Store) (p : InputCall) :
    CallAction → Option (Store × Option InputCall)
  | .resume =>
      match p.stage with
      | .entered => p.enter settings pid s
      | .locked row threadId hostId =>
          if s.db.inputRateExceeded settings p.sid (utf8Length p.text) then
            some ((s.unlock p.sid).reject pid "input_rate_limit: retry in one minute")
          else some (s, some { p with stage := .checked row threadId hostId })
      | .checked row threadId hostId =>
          match s.db.acceptInput p.key p.sid row threadId hostId p.text with
          | none => some ((s.unlock p.sid).reject pid "duplicate idempotency key")
          | some db => some (s.accept pid p.sid (utf8Length p.text) db, none)
  | .fail =>
      match p.stage with
      | .entered => some (s.reject pid "transaction failed")
      | _ => some ((s.unlock p.sid).reject pid "transaction failed")

/-- A transaction of other code, by the session rows that it writes. -/
structure OtherTx where
  touched : List SessionId
  apply : Database → Database
  now : ∀ db, (apply db).now = db.now
  events : ∀ db, (apply db).inputEvents = db.inputEvents
  rows : ∀ db sid, sid ∉ touched → (apply db).session? sid = db.session? sid

inductive Env where
  | tick (d : ℕ)
  | commit (tx : OtherTx)
  /-- The sweep of the janitor, in a transaction that began `lag` ms ago. -/
  | sweepEvents (count lag : ℕ)

/-- A row that is written must not be locked. -/
def envStep (settings : Settings) (s : Store) : Env → Option Store
  | .tick d => some { s with db := { s.db with now := s.db.now + d } }
  | .commit tx =>
      if tx.touched.all fun sid ↦ s.holder sid = none then some { s with db := tx.apply s.db }
      else none
  | .sweepEvents count lag =>
      some { s with db := sweepEvents settings count { s.db with now := s.db.now - lag } s.db }

structure Request where
  key : Key
  sid : SessionId
  guildId : GuildId
  text : PyStr

/-- The concurrent calls of `run_input_saga`. -/
def inputCalls (settings : Settings) : Machine Store InputCall Env Request CallAction where
  env := envStep settings
  spawn _ s r := some (s, ⟨r.key, r.sid, r.guildId, r.text, .entered⟩)
  exec := InputCall.step settings

/-- No input has been accepted yet. -/
def Fresh (s : Store) : Prop :=
  s.db.inputEvents = [] ∧ (∀ sid, s.holder sid = none) ∧ s.ended = []

abbrev SagaState := ProcessPool.State Store InputCall

/-- The accepted inputs of a session in the minute from `start` on. -/
def Store.acceptedIn (s : Store) (sid : SessionId) (start : Time) : List InputAccepted :=
  s.accepted.filter fun e ↦ e.sessionId = sid ∧ start ≤ e.createdAt ∧ e.createdAt ≤ start + 60000

/-! ## Logs of a session -/

/-- The times of the inputs of a session, with a weight each. -/
def logOf (weight : InputAccepted → ℕ) (sid : SessionId) (events : List InputAccepted) :
    List (Time × ℕ) :=
  (events.filter fun e ↦ e.sessionId = sid).map fun e ↦ (e.createdAt, weight e)

open SlidingWindow

theorem load_logOf (p : Time × ℕ → Bool) (weight : InputAccepted → ℕ) (sid : SessionId)
    (events : List InputAccepted) : load p (logOf weight sid events) =
      ((events.filter fun e ↦ e.sessionId = sid ∧ p (e.createdAt, weight e) = true).map
        weight).sum := by
  rw [load, logOf, List.filter_map, List.map_map, List.filter_filter]
  congr 2
  apply List.filter_congr
  intro e _
  simp [Bool.and_comm]

theorem sum_const_one (events : List InputAccepted) :
    (events.map fun _ ↦ 1).sum = events.length := by
  simp

/-- The two limits in every window. -/
structure WithinLimits (settings : Settings) (sid : SessionId) (events : List InputAccepted) :
    Prop where
  messages : Bounded 60000 settings.maxInputMessagesPerSessionPerMin (logOf (fun _ ↦ 1) sid events)
  bytes : Bounded 60000 settings.maxInputBytesPerSessionPerMin
    (logOf InputAccepted.bytes sid events)

theorem WithinLimits.window {settings : Settings} {sid : SessionId} {s : Store}
    (h : WithinLimits settings sid s.accepted) (start : Time) :
    (s.acceptedIn sid start).length ≤ settings.maxInputMessagesPerSessionPerMin ∧
      ((s.acceptedIn sid start).map InputAccepted.bytes).sum ≤
        settings.maxInputBytesPerSessionPerMin := by
  have hmessages := h.messages start
  have hbytes := h.bytes start
  rw [load_logOf] at hmessages hbytes
  rw [sum_const_one] at hmessages
  simp only [inWindow, decide_eq_true_eq] at hmessages hbytes
  exact ⟨hmessages, hbytes⟩

variable {settings : Settings} {s : Store} {sid : SessionId}

theorem logOf_append (weight : InputAccepted → ℕ) (sid : SessionId)
    (events old : List InputAccepted) :
    logOf weight sid (events ++ old) = logOf weight sid events ++ logOf weight sid old := by
  rw [logOf, List.filter_append, List.map_append]
  rfl

theorem logOf_cons_self (weight : InputAccepted → ℕ) (e : InputAccepted)
    (events : List InputAccepted) : logOf weight e.sessionId (e :: events) =
      (e.createdAt, weight e) :: logOf weight e.sessionId events := by
  simp [logOf]

theorem logOf_cons_of_ne (weight : InputAccepted → ℕ) {e : InputAccepted}
    (hne : e.sessionId ≠ sid) (events : List InputAccepted) :
    logOf weight sid (e :: events) = logOf weight sid events := by
  simp [logOf, hne]

/-- Events that are over a minute old have no weight in the last minute. -/
theorem load_recent_old (weight : InputAccepted → ℕ) {now : Time} {old : List InputAccepted}
    (hold : ∀ e ∈ old, e.createdAt + 60000 < now) :
    load (isRecent 60000 now) (logOf weight sid old) = 0 := by
  refine load_eq_zero fun x hx ↦ ?_
  obtain ⟨e, he, rfl⟩ := List.mem_map.mp hx
  have hlt := hold e (List.mem_of_mem_filter he)
  exact decide_eq_false (not_le.mpr hlt)

theorem load_recentInput (weight : InputAccepted → ℕ) (db : Database) (sid : SessionId) :
    load (isRecent 60000 db.now) (logOf weight sid db.inputEvents) =
      ((db.recentInput sid).map weight).sum := by
  rw [load_logOf]
  simp only [isRecent, decide_eq_true_eq]
  rfl

/-- What the check of the limits has seen. -/
theorem fits_of_rate {db : Database} {bytes : ℕ}
    (h : db.inputRateExceeded settings sid bytes = false) :
    (db.recentInput sid).length + 1 ≤ settings.maxInputMessagesPerSessionPerMin ∧
      ((db.recentInput sid).map InputAccepted.bytes).sum + bytes ≤
        settings.maxInputBytesPerSessionPerMin := by
  unfold Database.inputRateExceeded at h
  rw [decide_eq_false_iff_not, not_or, not_le, not_lt] at h
  exact h

/-- The check only gets weaker as the clock goes on and events are deleted. -/
theorem rate_of_sublist {db db' : Database} {bytes : ℕ} (hnow : db.now ≤ db'.now)
    (hevents : List.Sublist db'.inputEvents db.inputEvents)
    (h : db.inputRateExceeded settings sid bytes = false) :
    db'.inputRateExceeded settings sid bytes = false := by
  obtain ⟨hmessages, hbytes⟩ := fits_of_rate h
  have hrecent : List.Sublist (db'.recentInput sid) (db.recentInput sid) := by
    refine (hevents.filter _).trans (List.monotone_filter_right _ fun e he ↦ ?_)
    rw [decide_eq_true_eq] at he ⊢
    exact ⟨he.1, hnow.trans he.2⟩
  have hlen := hrecent.length_le
  have hsum : ((db'.recentInput sid).map InputAccepted.bytes).sum ≤
      ((db.recentInput sid).map InputAccepted.bytes).sum :=
    (hrecent.map _).sum_le_sum fun _ _ ↦ Nat.zero_le _
  unfold Database.inputRateExceeded
  rw [decide_eq_false_iff_not, not_or, not_le, not_lt]
  exact ⟨by omega, by omega⟩

/-! ## The invariant -/

structure Invariant (settings : Settings) (s : Store) : Prop where
  /-- The table has all inputs of the last minute. -/
  table : ∃ old, s.accepted = s.db.inputEvents ++ old ∧
    ∀ e ∈ old, e.createdAt + 60000 < s.db.now
  sorted : s.db.inputEvents.Pairwise fun e e' ↦ e'.createdAt ≤ e.createdAt
  past : ∀ e ∈ s.db.inputEvents, e.createdAt ≤ s.db.now
  within : ∀ sid, WithinLimits settings sid s.accepted

/-- The checks that a call behind the row lock has passed. -/
structure Admits (settings : Settings) (p : InputCall) (row : SessionRow) (threadId : ThreadId)
    (hostId : HostId) : Prop where
  text : refusal? settings p.text = none
  guild : row.guildId = p.guildId
  live : row.status.isLive = true
  thread : row.threadId = some threadId
  host : row.hostId = some hostId

/-- A call behind the row lock holds it, and the row is as it was read. -/
structure Holds (settings : Settings) (pid : ℕ) (p : InputCall) (row : SessionRow)
    (threadId : ThreadId) (hostId : HostId) (s : Store) : Prop where
  held : s.holder p.sid = some pid
  found : s.db.session? p.sid = some row
  admits : Admits settings p row threadId hostId

def Asserts (settings : Settings) (pid : ℕ) (p : InputCall) (s : Store) : Prop :=
  match p.stage with
  | .entered => True
  | .locked row threadId hostId => Holds settings pid p row threadId hostId s
  | .checked row threadId hostId => Holds settings pid p row threadId hostId s ∧
      s.db.inputRateExceeded settings p.sid (utf8Length p.text) = false

theorem Asserts.held {pid : ℕ} {p : InputCall} (h : Asserts settings pid p s) :
    p.stage = .entered ∨ s.holder p.sid = some pid := by
  unfold Asserts at h
  split at h
  · rename_i hstage
    exact .inl hstage
  · exact .inr h.held
  · exact .inr h.1.held

/-- What a step leaves of a session for the calls that hold its lock. -/
structure Spares (settings : Settings) (sid : SessionId) (s s' : Store) : Prop where
  holder : s'.holder sid = s.holder sid
  row : s'.db.session? sid = s.db.session? sid
  rate : ∀ bytes, s.db.inputRateExceeded settings sid bytes = false →
    s'.db.inputRateExceeded settings sid bytes = false

theorem Asserts.frame {pid : ℕ} {p : InputCall} {s' : Store} (h : Asserts settings pid p s)
    (hspares : s.holder p.sid = some pid → Spares settings p.sid s s') :
    Asserts settings pid p s' := by
  have hholds : ∀ {row threadId hostId}, Holds settings pid p row threadId hostId s →
      Holds settings pid p row threadId hostId s' := by
    intro row threadId hostId h
    have hs := hspares h.held
    exact ⟨hs.holder.trans h.held, hs.row.trans h.found, h.admits⟩
  unfold Asserts at *
  split
  · trivial
  · rename_i hstage
    rw [hstage] at h
    exact hholds h
  · rename_i hstage
    rw [hstage] at h
    exact ⟨hholds h.1, (hspares h.1.held).rate _ h.2⟩

/-! ## One step of a call -/

/-- What one step of a call does. -/
inductive Effect (settings : Settings) (pid : ℕ) (s : Store) (p : InputCall) :
    Store → Option InputCall → Prop where
  | lock {row : SessionRow} {threadId : ThreadId} {hostId : HostId} (hstage : p.stage = .entered)
      (hfree : s.holder p.sid = none) (hrow : s.db.session? p.sid = some row)
      (hadmits : Admits settings p row threadId hostId) :
      Effect settings pid s p (s.lock p.sid pid)
        (some { p with stage := .locked row threadId hostId })
  | check {row : SessionRow} {threadId : ThreadId} {hostId : HostId}
      (hstage : p.stage = .locked row threadId hostId)
      (hrate : s.db.inputRateExceeded settings p.sid (utf8Length p.text) = false) :
      Effect settings pid s p s (some { p with stage := .checked row threadId hostId })
  | accept {row : SessionRow} {threadId : ThreadId} {hostId : HostId} {db : Database}
      (hstage : p.stage = .checked row threadId hostId)
      (hdb : s.db.acceptInput p.key p.sid row threadId hostId p.text = some db) :
      Effect settings pid s p (s.accept pid p.sid (utf8Length p.text) db) none
  | reject (error : String) (hstage : p.stage = .entered) :
      Effect settings pid s p (s.reject pid error).1 none
  | rollback (error : String) (hstage : p.stage ≠ .entered) :
      Effect settings pid s p ((s.unlock p.sid).reject pid error).1 none

variable {pid : ℕ} {p : InputCall} {s' : Store} {q : Option InputCall}

theorem enter_effect (hstage : p.stage = .entered) (h : p.enter settings pid s = some (s', q)) :
    Effect settings pid s p s' q := by
  unfold InputCall.enter at h
  split at h
  · cases h
    exact .reject _ hstage
  · rename_i hrefusal
    split at h
    · cases h
    · rename_i hfree
      split at h
      · cases h
        exact .reject _ hstage
      · rename_i row hrow
        split_ifs at h with hguild hlive
        · cases h
          exact .reject _ hstage
        · cases h
          exact .reject _ hstage
        · split at h
          · rename_i threadId hostId hthread hhost
            cases h
            exact .lock hstage (not_not.mp hfree) hrow
              ⟨hrefusal, not_not.mp hguild, by simpa using hlive, hthread, hhost⟩
          · cases h
            exact .reject _ hstage

theorem step_effect {a : CallAction} (h : p.step settings pid s a = some (s', q)) :
    Effect settings pid s p s' q := by
  unfold InputCall.step at h
  cases a with
  | resume =>
      cases hstage : p.stage with
      | entered =>
          simp only [hstage] at h
          exact enter_effect hstage h
      | locked row threadId hostId =>
          simp only [hstage] at h
          split_ifs at h with hrate
          · cases h
            exact .rollback _ (by simp [hstage])
          · cases h
            exact .check hstage (Bool.eq_false_iff.mpr hrate)
      | checked row threadId hostId =>
          simp only [hstage] at h
          split at h
          · cases h
            exact .rollback _ (by simp [hstage])
          · rename_i db hdb
            cases h
            exact .accept hstage hdb
  | fail =>
      cases hstage : p.stage with
      | entered =>
          simp only [hstage] at h
          cases h
          exact .reject _ hstage
      | locked row threadId hostId =>
          simp only [hstage] at h
          cases h
          exact .rollback _ (by simp [hstage])
      | checked row threadId hostId =>
          simp only [hstage] at h
          cases h
          exact .rollback _ (by simp [hstage])

/-- The commit of a call is the whole saga, on the tables as they are at the commit. -/
theorem saga_of_checked {row : SessionRow} {threadId : ThreadId} {hostId : HostId}
    (hholds : Holds settings pid p row threadId hostId s)
    (hrate : s.db.inputRateExceeded settings p.sid (utf8Length p.text) = false) {db : Database}
    (hdb : s.db.acceptInput p.key p.sid row threadId hostId p.text = some db) :
    runInputSaga settings p.key p.sid p.guildId p.text s.db = .ok db := by
  have htext := hholds.admits.text
  unfold refusal? at htext
  split_ifs at htext with hempty hsurrogate hlarge hstop
  simp [runInputSaga, hempty, hsurrogate, hlarge, hstop, hholds.found, hholds.admits.guild,
    hholds.admits.live, hholds.admits.thread, hholds.admits.host, hrate, hdb]

/-- What an acceptance does to the clock, the events and the session rows. -/
theorem acceptInput_events {db db' : Database} {key : Key} {row : SessionRow} {threadId : ThreadId}
    {hostId : HostId} {text : PyStr}
    (h : db.acceptInput key sid row threadId hostId text = some db') :
    db'.now = db.now ∧ db'.inputEvents = ⟨sid, utf8Length text, db.now⟩ :: db.inputEvents := by
  obtain ⟨db₁, hdb₁, rfl⟩ := Option.map_eq_some_iff.mp h
  obtain ⟨turns, -, rfl⟩ := Option.map_eq_some_iff.mp hdb₁
  exact ⟨rfl, rfl⟩

/-- A step of a call leaves the sessions alone whose locks other calls hold. -/
theorem Effect.spares (h : Effect settings pid s p s' q) (hp : Asserts settings pid p s)
    {other : ℕ} (hne : other ≠ pid) {sid : SessionId} (hheld : s.holder sid = some other) :
    Spares settings sid s s' := by
  have hmine : p.stage ≠ .entered → sid ≠ p.sid := by
    rintro hstage rfl
    rcases hp.held with h | h
    · exact hstage h
    · exact hne (Option.some.inj (hheld.symm.trans h))
  cases h with
  | lock _ hfree =>
      have hsid : sid ≠ p.sid := by
        rintro rfl
        rw [hfree] at hheld
        cases hheld
      exact ⟨Function.update_of_ne hsid _ _, rfl, fun _ h ↦ h⟩
  | check => exact ⟨rfl, rfl, fun _ h ↦ h⟩
  | @accept row threadId hostId db hstage hdb =>
      have hsid := hmine (by simp [hstage])
      obtain ⟨hnow, hevents⟩ := acceptInput_events hdb
      refine ⟨Function.update_of_ne hsid _ _, ?_, fun bytes hrate ↦ ?_⟩
      · exact ((acceptInput_eq_some hdb).session sid).trans (if_neg hsid)
      · have hrecent : db.recentInput sid = s.db.recentInput sid := by
          unfold Database.recentInput
          rw [hevents, hnow]
          exact List.filter_cons_of_neg (by simp [Ne.symm hsid])
        change db.inputRateExceeded settings sid bytes = false
        unfold Database.inputRateExceeded at hrate ⊢
        rwa [hrecent]
  | reject => exact ⟨rfl, rfl, fun _ h ↦ h⟩
  | rollback _ hstage => exact ⟨Function.update_of_ne (hmine hstage) _ _, rfl, fun _ h ↦ h⟩

theorem Effect.asserts {r : InputCall} (h : Effect settings pid s p s' (some r))
    (hp : Asserts settings pid p s) : Asserts settings pid r s' := by
  cases h with
  | lock _ _ hrow hadmits =>
      exact ⟨Function.update_self .., hrow, ⟨hadmits.text, hadmits.guild, hadmits.live,
        hadmits.thread, hadmits.host⟩⟩
  | check hstage hrate =>
      unfold Asserts at hp
      rw [hstage] at hp
      exact ⟨⟨hp.held, hp.found, ⟨hp.admits.text, hp.admits.guild, hp.admits.live,
        hp.admits.thread, hp.admits.host⟩⟩, hrate⟩

/-- An input that fits into the last minute keeps both limits. -/
theorem WithinLimits.cons {e : InputAccepted} {old : List InputAccepted}
    (h : WithinLimits settings sid (s.db.inputEvents ++ old))
    (hold : ∀ e ∈ old, e.createdAt + 60000 < s.db.now) (hnow : e.createdAt = s.db.now)
    (hrate : s.db.inputRateExceeded settings e.sessionId e.bytes = false) :
    WithinLimits settings sid (e :: (s.db.inputEvents ++ old)) := by
  by_cases hsid : e.sessionId = sid
  · subst hsid
    obtain ⟨hmessages, hbytes⟩ := fits_of_rate hrate
    have hload : ∀ weight, load (isRecent 60000 e.createdAt)
        (logOf weight e.sessionId (s.db.inputEvents ++ old)) =
          ((s.db.recentInput e.sessionId).map weight).sum := by
      intro weight
      rw [logOf_append, load_append, hnow, load_recentInput, load_recent_old weight hold,
        Nat.add_zero]
    constructor
    · rw [logOf_cons_self]
      refine h.messages.cons ?_
      rw [hload, sum_const_one]
      exact hmessages
    · rw [logOf_cons_self]
      refine h.bytes.cons ?_
      rw [hload]
      exact hbytes
  · constructor
    · rw [logOf_cons_of_ne _ hsid]
      exact h.messages
    · rw [logOf_cons_of_ne _ hsid]
      exact h.bytes

theorem Effect.invariant (h : Effect settings pid s p s' q) (hs : Invariant settings s)
    (hp : Asserts settings pid p s) : Invariant settings s' := by
  cases h with
  | lock => exact ⟨hs.table, hs.sorted, hs.past, hs.within⟩
  | check => exact hs
  | @accept row threadId hostId db hstage hdb =>
      unfold Asserts at hp
      rw [hstage] at hp
      obtain ⟨old, haccepted, hold⟩ := hs.table
      obtain ⟨hnow, hevents⟩ := acceptInput_events hdb
      have hlog : (s.accept pid p.sid (utf8Length p.text) db).accepted =
          ⟨p.sid, utf8Length p.text, s.db.now⟩ :: (s.db.inputEvents ++ old) :=
        congrArg _ haccepted
      refine ⟨⟨old, ?_, fun e he ↦ (hold e he).trans_eq hnow.symm⟩, ?_, ?_, fun sid ↦ ?_⟩
      · exact hlog.trans (congrArg (· ++ old) hevents.symm)
      · change List.Pairwise _ db.inputEvents
        rw [hevents]
        exact List.pairwise_cons.mpr ⟨hs.past, hs.sorted⟩
      · change ∀ e ∈ db.inputEvents, e.createdAt ≤ db.now
        rw [hevents, hnow]
        exact List.forall_mem_cons.mpr ⟨le_rfl, hs.past⟩
      · have hwithin := hs.within sid
        rw [haccepted] at hwithin
        rw [hlog]
        exact hwithin.cons hold rfl hp.2
  | reject => exact ⟨hs.table, hs.sorted, hs.past, hs.within⟩
  | rollback => exact ⟨hs.table, hs.sorted, hs.past, hs.within⟩

/-! ## The other transactions -/

/-- The last events, as many as have expired, are the expired ones. -/
theorem expired_of_mem_drop {limit : Time} (events : List InputAccepted)
    (hsorted : events.Pairwise fun e e' ↦ e'.createdAt ≤ e.createdAt) (m : ℕ)
    (hm : m ≤ (events.filter fun e ↦ e.createdAt < limit).length) :
    ∀ e ∈ events.drop (events.length - m), e.createdAt < limit := by
  induction events with
  | nil =>
      intro e he
      rw [List.drop_nil] at he
      cases he
  | cons a events ih =>
      obtain ⟨ha, hsorted⟩ := List.pairwise_cons.mp hsorted
      by_cases hexpired : a.createdAt < limit
      · intro e he
        rcases List.mem_cons.mp (List.mem_of_mem_drop he) with rfl | he
        · exact hexpired
        · exact (ha e he).trans_lt hexpired
      · rw [List.filter_cons_of_neg (by simpa using hexpired)] at hm
        have hle : m ≤ events.length := hm.trans (List.length_filter_le _ _)
        have hdrop : (a :: events).length - m = (events.length - m) + 1 := by
          rw [List.length_cons]
          omega
        rw [hdrop, List.drop_succ_cons]
        exact ih hsorted hm

theorem Invariant.sweep (h : Invariant settings s) (hretention : 0 < settings.eventRetentionDays)
    (count lag : ℕ) : Invariant settings { s with
      db := sweepEvents settings count { s.db with now := s.db.now - lag } s.db } := by
  obtain ⟨old, haccepted, hold⟩ := h.table
  set expired := s.db.inputEvents.filter fun e ↦
    e.createdAt + settings.eventRetentionDays * 86400000 < s.db.now - lag with hexpired
  set kept := s.db.inputEvents.length - min count expired.length with hkept
  have hevents : (sweepEvents settings count { s.db with now := s.db.now - lag } s.db).inputEvents =
      s.db.inputEvents.take kept := rfl
  refine ⟨⟨s.db.inputEvents.drop kept ++ old, ?_, ?_⟩, ?_, ?_, h.within⟩
  · change s.accepted = _
    rw [hevents, ← List.append_assoc, List.take_append_drop]
    exact haccepted
  · intro e he
    rcases List.mem_append.mp he with he | he
    · have hfilter : expired = s.db.inputEvents.filter fun e ↦
          e.createdAt < s.db.now - lag - settings.eventRetentionDays * 86400000 := by
        apply List.filter_congr
        intro e _
        rw [decide_eq_decide]
        exact Nat.lt_sub_iff_add_lt.symm
      have hlt := expired_of_mem_drop s.db.inputEvents h.sorted _
        ((min_le_right count expired.length).trans_eq (congrArg List.length hfilter)) e he
      change e.createdAt + 60000 < s.db.now
      grind
    · exact hold e he
  · rw [hevents]
    exact h.sorted.sublist (List.take_sublist _ _)
  · rw [hevents]
    exact fun e he ↦ h.past e (List.mem_of_mem_take he)

theorem inputCalls_proof (hretention : 0 < settings.eventRetentionDays) :
    Machine.Proof (inputCalls settings) (fun _ _ ↦ True) (Invariant settings)
      (Asserts settings) where
  env σ e s h _ hs := by
    cases e with
    | tick d =>
        cases hs
        obtain ⟨old, haccepted, hold⟩ := h.inv.table
        refine ⟨⟨⟨old, haccepted, fun e he ↦ (hold e he).trans_le (Nat.le_add_right _ d)⟩,
          h.inv.sorted, fun e he ↦ (h.inv.past e he).trans (Nat.le_add_right _ d), h.inv.within⟩,
          fun pid p hp ↦ hp.frame fun _ ↦ ⟨rfl, rfl, fun bytes ↦ ?_⟩⟩
        exact rate_of_sublist (Nat.le_add_right _ d) (List.Sublist.refl _)
    | commit tx =>
        simp only [inputCalls, envStep] at hs
        split_ifs at hs with hfree
        cases hs
        obtain ⟨old, haccepted, hold⟩ := h.inv.table
        refine ⟨⟨⟨old, ?_, ?_⟩, ?_, ?_, h.inv.within⟩, fun pid p hp ↦ hp.frame fun hheld ↦
          ⟨rfl, tx.rows _ _ fun hmem ↦ ?_, fun bytes ↦ ?_⟩⟩
        · exact haccepted.trans (congrArg (· ++ old) (tx.events _).symm)
        · exact fun e he ↦ (hold e he).trans_eq (tx.now _).symm
        · exact (tx.events _).symm ▸ h.inv.sorted
        · intro e he
          rw [tx.events] at he
          exact (h.inv.past e he).trans_eq (tx.now _).symm
        · have hnone := of_decide_eq_true (List.all_eq_true.mp hfree _ hmem)
          rw [hheld] at hnone
          cases hnone
        · exact rate_of_sublist (tx.now _).ge ((tx.events _).symm ▸ List.Sublist.refl _)
    | sweepEvents count lag =>
        cases hs
        refine ⟨h.inv.sweep hretention count lag, fun pid p hp ↦ hp.frame fun _ ↦
          ⟨rfl, rfl, fun bytes ↦ ?_⟩⟩
        exact rate_of_sublist le_rfl (List.take_sublist _ _)
  spawn σ r s p h _ hs := by
    cases hs
    exact ⟨h.inv, trivial, fun _ _ _ hr ↦ hr⟩
  exec σ pid p a s q h _ hp hs := by
    have heffect := step_effect hs
    have hassert := h.assert pid p hp
    refine ⟨heffect.invariant h.inv hassert, ?_, fun other r hne hr ↦ hr.frame fun hheld ↦
      heffect.spares hassert hne hheld⟩
    rintro r rfl
    exact heffect.asserts hassert

theorem Fresh.invariant (h : Fresh s) : Invariant settings s := by
  obtain ⟨hevents, -, hended⟩ := h
  have hnone : s.accepted = [] := by rw [Store.accepted, hended]; rfl
  refine ⟨⟨[], by rw [hnone, hevents]; rfl, fun _ he ↦ (nomatch he)⟩, ?_, ?_, fun sid ↦ ?_⟩
  · rw [hevents]
    exact List.Pairwise.nil
  · rw [hevents]
    exact fun _ he ↦ (nomatch he)
  · rw [hnone]
    exact ⟨bounded_nil _ _, bounded_nil _ _⟩

/-- A call that is accepted is one step of the saga. -/
theorem accepted_is_saga (hretention : 0 < settings.eventRetentionDays) {σ τ : SagaState}
    (h : (inputCalls settings).Reachable Fresh σ) {a : CallAction} {e : InputAccepted}
    (hs : (inputCalls settings).step σ (.exec pid a) = some τ)
    (he : τ.shared.ended = (pid, .ok e) :: σ.shared.ended) :
    ∃ p, σ.procs pid = some p ∧ runInputSaga settings p.key p.sid p.guildId p.text σ.shared.db =
      .ok τ.shared.db := by
  obtain ⟨p, q, hp, hstep, -⟩ := Machine.step_exec hs
  have hassert := ((inputCalls_proof hretention).annotated (fun _ h ↦ h.invariant) h).assert pid p hp
  have heffect : Effect settings pid σ.shared p τ.shared q := step_effect hstep
  have hlen := congrArg List.length he
  generalize τ.shared = s' at heffect he hlen
  refine ⟨p, hp, ?_⟩
  cases heffect with
  | lock => simp [Store.lock] at hlen
  | check => simp at hlen
  | accept hstage hdb =>
      unfold Asserts at hassert
      rw [hstage] at hassert
      exact saga_of_checked hassert.1 hassert.2 hdb
  | reject error _ =>
      cases (Prod.mk.inj (List.cons.inj he).1).2
  | rollback error _ =>
      cases (Prod.mk.inj (List.cons.inj he).1).2

/-- In every minute, no more messages and no more bytes are accepted for a session than the limits
say, and no step of a call changes the tables but that by which it is accepted. -/
theorem input_rate_bounded (hretention : 0 < settings.eventRetentionDays) {σ : SagaState}
    (h : (inputCalls settings).Reachable Fresh σ) :
    (∀ sid start,
      (σ.shared.acceptedIn sid start).length ≤ settings.maxInputMessagesPerSessionPerMin ∧
        ((σ.shared.acceptedIn sid start).map InputAccepted.bytes).sum ≤
          settings.maxInputBytesPerSessionPerMin) ∧
    ∀ pid a τ, (inputCalls settings).step σ (.exec pid a) = some τ →
      τ.shared.db = σ.shared.db ∨
        ∃ e, τ.procs pid = none ∧ τ.shared.ended = (pid, .ok e) :: σ.shared.ended := by
  have hinv := ((inputCalls_proof hretention).annotated (fun _ h ↦ h.invariant) h).inv
  refine ⟨fun sid start ↦ (hinv.within sid).window start, fun pid a τ hs ↦ ?_⟩
  obtain ⟨p, q, hp, hstep, hprocs⟩ := Machine.step_exec hs
  have heffect : Effect settings pid σ.shared p τ.shared q := step_effect hstep
  rw [hprocs, Function.update_self]
  generalize τ.shared = s' at heffect
  cases heffect with
  | lock => exact .inl rfl
  | check => exact .inl rfl
  | accept => exact .inr ⟨_, rfl, rfl⟩
  | reject => exact .inl rfl
  | rollback => exact .inl rfl

/-- A session that is ready for input. -/
def readyStore : Store where
  db := { Database.empty with sessions := ⟨[(1, {
    guildId := 5, ownerId := 6, tool := 0, name := [], cwdRealpath := 0, threadId := some 7
    hostId := some 8, toolResumeToken := none, status := .idle, lifecycleVersion := 1
    lifecycleChangedAt := 0, statusReason := none, createdAt := 0, runningAt := none
    lastActivityAt := 0, repairAttempts := 0 })], by decide⟩ }
  holder _ := none
  ended := []

/-- Two calls at once; the second one gets the lock when the first one has committed. -/
def twoInputs : List (ProcessPool.Action Env Request CallAction) :=
  [.spawn ⟨1, 1, 5, pyStr "hello"⟩, .spawn ⟨2, 1, 5, pyStr "world"⟩, .exec 0 .resume,
    .exec 0 .resume, .env (.tick 10), .exec 0 .resume, .exec 1 .resume, .exec 1 .resume,
    .exec 1 .resume]

theorem input_rate_bounded_two : ∃ σ, (inputCalls .default).run (.start readyStore) twoInputs =
      some σ ∧ σ.shared.acceptedIn 1 0 = [⟨1, 5, 10⟩, ⟨1, 5, 10⟩] ∧
        (σ.shared.acceptedIn 1 0).length ≤ 20 := by
  have haccepted : ((inputCalls .default).run (.start readyStore) twoInputs).map
      (fun σ ↦ σ.shared.acceptedIn 1 0) = some [⟨1, 5, 10⟩, ⟨1, 5, 10⟩] := by decide +kernel
  obtain ⟨σ, hrun, hσ⟩ := Option.map_eq_some_iff.mp haccepted
  have hfresh : Fresh readyStore := ⟨rfl, fun _ ↦ rfl, rfl⟩
  have hretention : 0 < Settings.default.eventRetentionDays := by decide
  exact ⟨σ, hrun, hσ, ((input_rate_bounded hretention
    (Machine.reachable_of_run hfresh hrun)).1 1 0).1⟩

end Discode.InputRateLimit

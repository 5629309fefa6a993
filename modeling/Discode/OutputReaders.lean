import Discode.ExecSession

/-!
# The two bounded readers

`_run_pipe` reads both streams with the coroutine `_read_bounded`; `_run_pty` reads the standard
output with the event-loop callback `readable`.  Each reader has counters of its own, and all
share the flag `_killed_for_output`.
-/

set_option autoImplicit false

namespace Discode.ExecSession

/-- `_killed_for_output`, and how often `_killpg` was called because of the output. -/
structure Session where
  killedForOutput : Bool
  kills : ℕ

/-- The variables of `_read_bounded`, and those of `readable`. -/
structure Counters where
  chunks : List (List ℕ)
  keptTotal : ℕ
  seen : ℕ

def Counters.start : Counters := ⟨[], 0, 0⟩

/-- One round of `_read_bounded`. -/
def readRound (limits : Limits) (c : Counters) (session : Session) (data : List ℕ) :
    Counters × Session :=
  let seen := c.seen + data.length
  let kept := data.take (limits.maxBytes - c.keptTotal)
  let c := if kept ≠ [] then ⟨c.chunks ++ [kept], c.keptTotal + kept.length, seen⟩
    else { c with seen := seen }
  if limits.killBytes < seen ∧ session.killedForOutput = false then (c, ⟨true, session.kills + 1⟩)
  else (c, session)

/-- What `os.read` does: a `BlockingIOError`, or bytes. -/
inductive OsRead where
  | blocked
  | data (bytes : List ℕ)

/-- `readable`, before the end of the stream. -/
def readable (limits : Limits) (c : Counters) (session : Session) :
    OsRead → Counters × Session
  | .blocked => (c, session)
  | .data data =>
      let seen := c.seen + data.length
      let kept := data.take (limits.maxBytes - c.keptTotal)
      let c := if kept ≠ [] then ⟨c.chunks ++ [kept], c.keptTotal + kept.length, seen⟩
        else { c with seen := seen }
      if limits.killBytes < seen ∧ session.killedForOutput = false then
        (c, ⟨true, session.kills + 1⟩)
      else (c, session)

/-- The two readers of a run. -/
structure Readers where
  out : Counters
  err : Counters
  session : Session

def Readers.start : Readers := ⟨.start, .start, ⟨false, 0⟩⟩

inductive PipeRead where
  | stdout (data : List ℕ)
  | stderr (data : List ℕ)

inductive PtyRead where
  | stdout (read : OsRead)
  | stderr (data : List ℕ)

def Readers.pipe (limits : Limits) (σ : Readers) : PipeRead → Readers
  | .stdout data =>
      let r := readRound limits σ.out σ.session data
      ⟨r.1, σ.err, r.2⟩
  | .stderr data =>
      let r := readRound limits σ.err σ.session data
      ⟨σ.out, r.1, r.2⟩

def Readers.pty (limits : Limits) (σ : Readers) : PtyRead → Readers
  | .stdout read =>
      let r := readable limits σ.out σ.session read
      ⟨r.1, σ.err, r.2⟩
  | .stderr data =>
      let r := readRound limits σ.err σ.session data
      ⟨σ.out, r.1, r.2⟩

/-- `ExecFailed`. -/
structure ExecFailed where
  exitCode : ℤ
  stderr : PyStr
  stdout : PyStr

def killedNotice (limits : Limits) : PyStr :=
  0x0a :: (pyStr "[killed: output exceeded " ++ pyStr (toString limits.killBytes) ++ pyStr " bytes]")

/-- What a run has read, how often it killed the group for it, and what it returns or raises. -/
@[ext]
structure Run where
  stdout : List ℕ
  stderr : List ℕ
  outTruncated : Bool
  errTruncated : Bool
  kills : ℕ
  outcome : Except ExecFailed ExecResult

/-- `_result`, with the streams that `ExecFailed` carries. -/
def sessionResult (limits : Limits) (killed : Bool) (stdout stderr : List ℕ)
    (outTruncated errTruncated : Bool) (code : ℤ) : Except ExecFailed ExecResult :=
  let out := Utf8.decode stdout ++ if outTruncated then truncationNotice limits else []
  let err := Utf8.decode stderr ++ if errTruncated then truncationNotice limits else []
  if killed then .error ⟨if code ≠ 0 then code else -sigkill, err ++ killedNotice limits, out⟩
  else if code ≠ 0 then .error ⟨code, err, out⟩
  else .ok ⟨out, err⟩

/-- The end of a run, once both streams have ended. -/
def Readers.finish (limits : Limits) (σ : Readers) (code : ℤ) : Run where
  stdout := σ.out.chunks.flatten
  stderr := σ.err.chunks.flatten
  outTruncated := σ.out.keptTotal < σ.out.seen
  errTruncated := σ.err.keptTotal < σ.err.seen
  kills := σ.session.kills
  outcome := sessionResult limits σ.session.killedForOutput σ.out.chunks.flatten
    σ.err.chunks.flatten (σ.out.keptTotal < σ.out.seen) (σ.err.keptTotal < σ.err.seen) code

/-- `_run_pipe`. -/
def runPipe (limits : Limits) (reads : List PipeRead) (code : ℤ) : Run :=
  (reads.foldl (Readers.pipe limits) .start).finish limits code

/-- `_run_pty`. -/
def runPty (limits : Limits) (reads : List PtyRead) (code : ℤ) : Run :=
  (reads.foldl (Readers.pty limits) .start).finish limits code

/-! ## Bytes that are read piece by piece -/

def PipeRead.out : PipeRead → List ℕ
  | .stdout data => data
  | .stderr _ => []

def PipeRead.err : PipeRead → List ℕ
  | .stdout _ => []
  | .stderr data => data

def OsRead.bytes : OsRead → List ℕ
  | .blocked => []
  | .data bytes => bytes

def PtyRead.out : PtyRead → List ℕ
  | .stdout read => read.bytes
  | .stderr _ => []

def PtyRead.err : PtyRead → List ℕ
  | .stdout _ => []
  | .stderr data => data

/-- Reads in any order that bring the two streams to their ends; a read without bytes would be
the end. -/
structure PipeReads (out err : List ℕ) where
  reads : List PipeRead
  nonempty : ∀ read ∈ reads, read.out ++ read.err ≠ []
  out_eq : reads.flatMap PipeRead.out = out
  err_eq : reads.flatMap PipeRead.err = err

structure PtyReads (out err : List ℕ) where
  reads : List PtyRead
  nonempty : ∀ read ∈ reads, read ≠ .stdout .blocked → read.out ++ read.err ≠ []
  out_eq : reads.flatMap PtyRead.out = out
  err_eq : reads.flatMap PtyRead.err = err

/-- A stream went past the cap. -/
def Exceeded (limits : Limits) (out err : List ℕ) : Prop :=
  limits.killBytes < out.length ∨ limits.killBytes < err.length

instance (limits : Limits) (out err : List ℕ) : Decidable (Exceeded limits out err) := by
  unfold Exceeded
  infer_instance

/-- What is read of a stream after `bytes`. -/
structure Counters.Counts (limits : Limits) (bytes : List ℕ) (c : Counters) : Prop where
  chunks : c.chunks.flatten = bytes.take limits.maxBytes
  keptTotal : c.keptTotal = (bytes.take limits.maxBytes).length
  seen : c.seen = bytes.length

structure Session.Counts (exceeded : Prop) (session : Session) : Prop where
  killed : session.killedForOutput = true ↔ exceeded
  once : exceeded → session.kills = 1
  never : ¬ exceeded → session.kills = 0

structure Readers.Count (limits : Limits) (out err : List ℕ) (σ : Readers) : Prop where
  ofOut : σ.out.Counts limits out
  ofErr : σ.err.Counts limits err
  session : σ.session.Counts (Exceeded limits out err)

variable {limits : Limits} {bytes out err data : List ℕ} {c : Counters} {session : Session}
  {σ : Readers}

theorem Readers.start_count : Readers.start.Count limits [] [] := by
  have hnever : ¬ Exceeded limits [] [] := by simp [Exceeded]
  have hempty : Counters.start.Counts limits [] :=
    ⟨by simp [Counters.start], by simp [Counters.start], rfl⟩
  refine ⟨hempty, hempty, ⟨?_, fun h ↦ absurd h hnever, fun _ ↦ rfl⟩⟩
  exact ⟨fun h ↦ (nomatch h), fun h ↦ absurd h hnever⟩

/-- What a round does to the counters. -/
theorem readRound_counters :
    (readRound limits c session data).1.chunks.flatten =
        c.chunks.flatten ++ data.take (limits.maxBytes - c.keptTotal) ∧
      (readRound limits c session data).1.keptTotal =
        c.keptTotal + (data.take (limits.maxBytes - c.keptTotal)).length ∧
      (readRound limits c session data).1.seen = c.seen + data.length := by
  have hcounters : (readRound limits c session data).1 =
      if data.take (limits.maxBytes - c.keptTotal) ≠ [] then
        ⟨c.chunks ++ [data.take (limits.maxBytes - c.keptTotal)],
          c.keptTotal + (data.take (limits.maxBytes - c.keptTotal)).length, c.seen + data.length⟩
      else { c with seen := c.seen + data.length } := by
    unfold readRound
    dsimp only
    split <;> rfl
  rw [hcounters]
  split_ifs with hkept
  · simp
  · rw [not_not] at hkept
    rw [hkept]
    simp

/-- What a round does to the flag. -/
theorem readRound_session :
    (readRound limits c session data).2 =
      if limits.killBytes < c.seen + data.length ∧ session.killedForOutput = false then
        ⟨true, session.kills + 1⟩
      else session := by
  unfold readRound
  dsimp only
  split <;> rfl

/-- The counters after one more read. -/
theorem Counters.Counts.read (h : c.Counts limits bytes) (data : List ℕ) (session : Session) :
    (readRound limits c session data).1.Counts limits (bytes ++ data) := by
  obtain ⟨hchunks, hkept, hseen⟩ :=
    @readRound_counters limits data c session
  have htake : bytes.take limits.maxBytes ++ data.take (limits.maxBytes - c.keptTotal) =
      (bytes ++ data).take limits.maxBytes := by
    rw [h.keptTotal, List.take_append]
    congr 2
    rw [List.length_take]
    omega
  refine ⟨?_, ?_, ?_⟩
  · rw [hchunks, h.chunks, htake]
  · rw [hkept, ← htake, List.length_append, ← h.keptTotal]
  · rw [hseen, h.seen, List.length_append]

/-- The flag is set, and the group killed, with the first byte past the cap. -/
theorem Session.Counts.read {before after : Prop} (h : session.Counts before)
    (hc : c.Counts limits bytes)
    (hafter : after ↔ before ∨ limits.killBytes < (bytes ++ data).length) :
    (readRound limits c session data).2.Counts after := by
  rw [readRound_session, hc.seen, ← List.length_append]
  by_cases hbefore : before
  · have hkilled := h.killed.mpr hbefore
    have hall : after := hafter.mpr (.inl hbefore)
    rw [if_neg (by simp [hkilled])]
    exact ⟨iff_of_true hkilled hall, fun _ ↦ h.once hbefore, fun hnot ↦ absurd hall hnot⟩
  · have hkilled : session.killedForOutput = false :=
      Bool.eq_false_iff.mpr fun hk ↦ hbefore (h.killed.mp hk)
    rw [or_iff_right hbefore] at hafter
    by_cases hcap : limits.killBytes < (bytes ++ data).length
    · have hall : after := hafter.mpr hcap
      rw [if_pos ⟨hcap, hkilled⟩]
      refine ⟨iff_of_true rfl hall, fun _ ↦ ?_, fun hnot ↦ absurd hall hnot⟩
      exact congrArg (· + 1) (h.never hbefore)
    · have hnone : ¬ after := fun hall ↦ hcap (hafter.mp hall)
      rw [if_neg (fun hboth ↦ hcap hboth.1)]
      exact ⟨iff_of_false (by simp [hkilled]) hnone, fun hall ↦ absurd hall hnone,
        fun _ ↦ h.never hbefore⟩

theorem exceeded_append_out :
    Exceeded limits (out ++ data) err ↔
      Exceeded limits out err ∨ limits.killBytes < (out ++ data).length := by
  unfold Exceeded
  rw [List.length_append]
  omega

theorem exceeded_append_err :
    Exceeded limits out (err ++ data) ↔
      Exceeded limits out err ∨ limits.killBytes < (err ++ data).length := by
  unfold Exceeded
  rw [List.length_append]
  omega

theorem Readers.Count.pipe (h : σ.Count limits out err) (read : PipeRead) :
    (σ.pipe limits read).Count limits (out ++ read.out) (err ++ read.err) := by
  cases read with
  | stdout data =>
      simp only [PipeRead.out, PipeRead.err, List.append_nil]
      exact ⟨h.ofOut.read data _, h.ofErr, h.session.read h.ofOut exceeded_append_out⟩
  | stderr data =>
      simp only [PipeRead.out, PipeRead.err, List.append_nil]
      exact ⟨h.ofOut, h.ofErr.read data _, h.session.read h.ofErr exceeded_append_err⟩

theorem Readers.Count.pty (h : σ.Count limits out err) (read : PtyRead) :
    (σ.pty limits read).Count limits (out ++ read.out) (err ++ read.err) := by
  cases read with
  | stdout read =>
      cases read with
      | blocked =>
          simp only [PtyRead.out, PtyRead.err, OsRead.bytes, List.append_nil]
          exact h
      | data bytes =>
          simp only [PtyRead.out, PtyRead.err, OsRead.bytes, List.append_nil]
          exact ⟨h.ofOut.read bytes _, h.ofErr, h.session.read h.ofOut exceeded_append_out⟩
  | stderr data =>
      simp only [PtyRead.out, PtyRead.err, List.append_nil]
      exact ⟨h.ofOut, h.ofErr.read data _, h.session.read h.ofErr exceeded_append_err⟩

/-- Readers that count every read count all of them, in whatever order the reads come. -/
theorem Readers.Count.foldl {α : Type} {step : Readers → α → Readers} {outOf errOf : α → List ℕ}
    (hstep : ∀ {σ out err}, σ.Count limits out err → ∀ read,
      (step σ read).Count limits (out ++ outOf read) (err ++ errOf read)) (reads : List α)
    (h : σ.Count limits out err) : (reads.foldl step σ).Count limits
      (out ++ reads.flatMap outOf) (err ++ reads.flatMap errOf) := by
  induction reads generalizing σ out err with
  | nil => simpa using h
  | cons read reads ih =>
      rw [List.foldl_cons, List.flatMap_cons, List.flatMap_cons, ← List.append_assoc,
        ← List.append_assoc]
      exact ih (hstep h read)

/-! ## What a run depends on -/

/-- The result of a process that wrote those bytes and exited with that code. -/
def outcomeOf (limits : Limits) (out err : List ℕ) (code : ℤ) : Except ExecFailed ExecResult :=
  if Exceeded limits out err then
    .error ⟨if code ≠ 0 then code else -sigkill,
      outputText limits err ++ killedNotice limits, outputText limits out⟩
  else if code ≠ 0 then .error ⟨code, outputText limits err, outputText limits out⟩
  else .ok ⟨outputText limits out, outputText limits err⟩

/-- A run that depends on the bytes and the exit code alone. -/
structure Run.Of (limits : Limits) (out err : List ℕ) (code : ℤ) (run : Run) : Prop where
  stdout : run.stdout = out.take limits.maxBytes
  stderr : run.stderr = err.take limits.maxBytes
  outTruncated : run.outTruncated = true ↔ limits.maxBytes < out.length
  errTruncated : run.errTruncated = true ↔ limits.maxBytes < err.length
  kills : run.kills = if Exceeded limits out err then 1 else 0
  outcome : run.outcome = outcomeOf limits out err code
  returns : (∃ result, run.outcome = .ok result) ↔ code = 0 ∧ ¬ Exceeded limits out err
  raises : ∀ failed, run.outcome = .error failed → failed.exitCode ≠ 0

theorem Run.Of.eq {code : ℤ} {run run' : Run} (h : run.Of limits out err code)
    (h' : run'.Of limits out err code) : run = run' := by
  ext1
  · rw [h.stdout, h'.stdout]
  · rw [h.stderr, h'.stderr]
  · exact Bool.eq_iff_iff.mpr (h.outTruncated.trans h'.outTruncated.symm)
  · exact Bool.eq_iff_iff.mpr (h.errTruncated.trans h'.errTruncated.symm)
  · rw [h.kills, h'.kills]
  · rw [h.outcome, h'.outcome]

theorem outcomeOf_ok {code : ℤ} :
    (∃ result, outcomeOf limits out err code = .ok result) ↔
      code = 0 ∧ ¬ Exceeded limits out err := by
  unfold outcomeOf
  split_ifs with hexceeded hcode
  · simp [hexceeded]
  · simp [hcode]
  · simp [hexceeded, not_not.mp hcode]

theorem outcomeOf_error {code : ℤ} {failed : ExecFailed}
    (h : outcomeOf limits out err code = .error failed) : failed.exitCode ≠ 0 := by
  unfold outcomeOf at h
  split_ifs at h with hexceeded hcode hcode
  · cases h
    exact hcode
  · cases h
    change -sigkill ≠ 0
    decide
  · cases h
    exact hcode

theorem Counters.Counts.truncated (h : c.Counts limits bytes) :
    c.keptTotal < c.seen ↔ limits.maxBytes < bytes.length := by
  rw [h.keptTotal, h.seen, List.length_take]
  omega

theorem Readers.Count.finish (h : σ.Count limits out err) (code : ℤ) :
    (σ.finish limits code).Of limits out err code := by
  have hout : (σ.finish limits code).outTruncated = decide (limits.maxBytes < out.length) :=
    decide_eq_decide.mpr h.ofOut.truncated
  have herr : (σ.finish limits code).errTruncated = decide (limits.maxBytes < err.length) :=
    decide_eq_decide.mpr h.ofErr.truncated
  have hkilled : σ.session.killedForOutput = decide (Exceeded limits out err) :=
    Bool.eq_iff_iff.mpr (h.session.killed.trans decide_eq_true_iff.symm)
  have houtcome : (σ.finish limits code).outcome = outcomeOf limits out err code := by
    change sessionResult _ _ _ _ (σ.finish limits code).outTruncated
      (σ.finish limits code).errTruncated _ = _
    simp only [hout, herr, hkilled, h.ofOut.chunks, h.ofErr.chunks, sessionResult, outcomeOf,
      outputText, decide_eq_true_eq]
  constructor
  · exact h.ofOut.chunks
  · exact h.ofErr.chunks
  · rw [hout, decide_eq_true_iff]
  · rw [herr, decide_eq_true_iff]
  · change σ.session.kills = _
    split_ifs with hexceeded
    · exact h.session.once hexceeded
    · exact h.session.never hexceeded
  · exact houtcome
  · rw [houtcome]
    exact outcomeOf_ok
  · intro failed hfailed
    exact outcomeOf_error (houtcome.symm.trans hfailed)

theorem runPipe_of {code : ℤ} (pipe : PipeReads out err) :
    (runPipe limits pipe.reads code).Of limits out err code := by
  have hcount := Readers.Count.foldl (fun h read ↦ h.pipe read) pipe.reads
    (@Readers.start_count limits)
  rw [pipe.out_eq, pipe.err_eq, List.nil_append, List.nil_append] at hcount
  exact hcount.finish code

theorem runPty_of {code : ℤ} (pty : PtyReads out err) :
    (runPty limits pty.reads code).Of limits out err code := by
  have hcount := Readers.Count.foldl (fun h read ↦ h.pty read) pty.reads
    (@Readers.start_count limits)
  rw [pty.out_eq, pty.err_eq, List.nil_append, List.nil_append] at hcount
  exact hcount.finish code

/-- However the two streams are cut into reads and interleaved, both variants keep the same
bytes, kill the group under the same condition and end in the same way. -/
theorem run_depends_on_bytes (limits : Limits) {out err : List ℕ} (code : ℤ)
    (pipe : PipeReads out err) (pty : PtyReads out err) :
    (runPipe limits pipe.reads code).Of limits out err code ∧
      (runPty limits pty.reads code).Of limits out err code ∧
      runPty limits pty.reads code = runPipe limits pipe.reads code :=
  ⟨runPipe_of pipe, runPty_of pty, (runPty_of pty).eq (runPipe_of pipe)⟩

/-- Six bytes of output and four of errors under caps of three and five, read in other pieces and
in another order by each variant. -/
def crossingLimits : Limits := ⟨3, 5⟩

def crossingPipe : PipeReads [97, 98, 99, 100, 101, 102] [65, 66, 67, 68] where
  reads := [.stdout [97, 98], .stderr [65, 66, 67, 68], .stdout [99, 100, 101, 102]]
  nonempty := by decide
  out_eq := rfl
  err_eq := rfl

def crossingPty : PtyReads [97, 98, 99, 100, 101, 102] [65, 66, 67, 68] where
  reads := [.stderr [65], .stdout .blocked, .stdout (.data [97, 98, 99, 100]),
    .stderr [66, 67, 68], .stdout (.data [101, 102])]
  nonempty := by simp [PtyRead.out, PtyRead.err, OsRead.bytes]
  out_eq := rfl
  err_eq := rfl

theorem run_depends_on_bytes_crossing :
    (runPipe crossingLimits crossingPipe.reads 0).kills = 1 ∧
      (runPty crossingLimits crossingPty.reads 0).stdout = [97, 98, 99] ∧
      (runPty crossingLimits crossingPty.reads 0).errTruncated = true ∧
      (∀ result, (runPty crossingLimits crossingPty.reads 0).outcome ≠ .ok result) ∧
      runPty crossingLimits crossingPty.reads 0 = runPipe crossingLimits crossingPipe.reads 0 := by
  obtain ⟨hpipe, hpty, heq⟩ :=
    run_depends_on_bytes crossingLimits 0 crossingPipe crossingPty
  refine ⟨hpipe.kills.trans (if_pos (by decide)), hpty.stdout, hpty.errTruncated.mpr (by decide),
    fun result hresult ↦ ?_, heq⟩
  exact absurd (by decide) (hpty.returns.mp ⟨result, hresult⟩).2

/-- The model with one list of pieces for each stream agrees. -/
theorem result_eq_run (limits : Limits) {out err : List ℕ} (code : ℤ) (stdout : Chunks out)
    (stderr : Chunks err) (pipe : PipeReads out err) :
    result limits (readBounded limits stdout.chunks) (readBounded limits stderr.chunks) code =
      (runPipe limits pipe.reads code).outcome.mapError fun failed ↦ .failed failed.exitCode := by
  rw [(runPipe_of pipe).outcome, result_eq, text_readBounded, text_readBounded, outcomeOf]
  change (if Exceeded limits out err then _ else _) = _
  split_ifs
  all_goals first
    | rfl
    | contradiction

end Discode.ExecSession

import Discode.Library.Utf8
import Discode.Text
import Mathlib.Data.Int.Notation

/-!
# Output of a process

The bounded reader of `tools/exec_session.py` and the result it makes of what was read.
-/

set_option autoImplicit false

namespace Discode.ExecSession

/-- `max_output_bytes`, and the bytes past which the process is killed. -/
structure Limits where
  maxBytes : ℕ
  killBytes : ℕ

/-- `_DEFAULT_KILL_OUTPUT`. -/
def defaultKillOutput : ℕ := 16 * 1024 * 1024

/-- The limits of a session that is given no `kill_output_bytes`. -/
def Limits.ofMax (maxBytes : ℕ) : Limits := ⟨maxBytes, max defaultKillOutput maxBytes⟩

/-- The pieces in which the bytes of a stream arrive; an empty one would be its end. -/
structure Chunks (bytes : List ℕ) where
  chunks : List (List ℕ)
  nonempty : [] ∉ chunks
  flatten_eq : chunks.flatten = bytes

/-- The variables of `_read_bounded`. -/
structure Reader where
  kept : List ℕ
  seen : ℕ
  killed : Bool

def Reader.read (limits : Limits) (r : Reader) (data : List ℕ) : Reader where
  kept := r.kept ++ data.take (limits.maxBytes - r.kept.length)
  seen := r.seen + data.length
  killed := r.killed || limits.killBytes < r.seen + data.length

/-- `_read_bounded`. -/
def readBounded (limits : Limits) (chunks : List (List ℕ)) : Reader :=
  chunks.foldl (Reader.read limits) ⟨[], 0, false⟩

/-- What a run ends with instead of a result. -/
inductive ExecError where
  | failed (code : ℤ)
  | timeout
  | osError
  deriving DecidableEq

structure ExecResult where
  text : PyStr
  stderr : PyStr

def sigkill : ℤ := 9

/-- The text that is put after `max_output_bytes` bytes. -/
def truncationNotice (limits : Limits) : PyStr :=
  0x0a :: (pyStr "[truncated at " ++ pyStr (toString limits.maxBytes) ++ pyStr " bytes]")

def Reader.text (limits : Limits) (r : Reader) : PyStr :=
  Utf8.decode r.kept ++ if r.kept.length < r.seen then truncationNotice limits else []

/-- The text of a stream that had those bytes. -/
def outputText (limits : Limits) (bytes : List ℕ) : PyStr :=
  Utf8.decode (bytes.take limits.maxBytes) ++
    if limits.maxBytes < bytes.length then truncationNotice limits else []

/-- `_result`. -/
def result (limits : Limits) (stdout stderr : Reader) (code : ℤ) : Except ExecError ExecResult :=
  if stdout.killed || stderr.killed then .error (.failed (if code = 0 then -sigkill else code))
  else if code ≠ 0 then .error (.failed code)
  else .ok ⟨stdout.text limits, stderr.text limits⟩

/-! ## The bounded reader -/

theorem take_append_take {α : Type*} (kept data rest : List α) (n : ℕ) :
    (kept ++ data.take (n - kept.length) ++ rest).take n = (kept ++ (data ++ rest)).take n := by
  have hlen : n - kept.length - min (n - kept.length) data.length =
      n - kept.length - data.length := by omega
  simp only [List.take_append, List.length_take, List.take_take, Nat.min_self, List.append_assoc,
    hlen]

theorem foldl_read (limits : Limits) (chunks : List (List ℕ)) {r : Reader}
    (hkept : r.kept.length ≤ limits.maxBytes)
    (hkilled : r.killed = decide (limits.killBytes < r.seen)) :
    (chunks.foldl (Reader.read limits) r).kept =
        (r.kept ++ chunks.flatten).take limits.maxBytes ∧
      (chunks.foldl (Reader.read limits) r).seen = r.seen + chunks.flatten.length ∧
      (chunks.foldl (Reader.read limits) r).killed =
        decide (limits.killBytes < r.seen + chunks.flatten.length) := by
  induction chunks generalizing r with
  | nil =>
      refine ⟨?_, rfl, hkilled⟩
      rw [List.foldl_nil, List.flatten_nil, List.append_nil, List.take_of_length_le hkept]
  | cons data chunks ih =>
      have hkept' : (r.read limits data).kept.length ≤ limits.maxBytes := by
        simp only [Reader.read, List.length_append, List.length_take]
        omega
      have hkilled' : (r.read limits data).killed =
          decide (limits.killBytes < (r.read limits data).seen) := by
        simp only [Reader.read, hkilled, ← Bool.decide_or]
        exact decide_eq_decide.mpr (by omega)
      obtain ⟨hk, hs, hd⟩ := ih hkept' hkilled'
      rw [List.foldl_cons, hk, hs, hd, List.flatten_cons]
      refine ⟨?_, ?_, ?_⟩
      · exact take_append_take _ _ _ _
      · simp only [Reader.read, List.length_append]
        omega
      · simp only [Reader.read, List.length_append]
        exact decide_eq_decide.mpr (by omega)

/-- What is read of a stream does not depend on the pieces it arrives in. -/
theorem readBounded_eq (limits : Limits) {bytes : List ℕ} (stdout : Chunks bytes) :
    readBounded limits stdout.chunks =
      ⟨bytes.take limits.maxBytes, bytes.length, decide (limits.killBytes < bytes.length)⟩ := by
  obtain ⟨hkept, hseen, hkilled⟩ :=
    foldl_read limits stdout.chunks (r := ⟨[], 0, false⟩) (Nat.zero_le _) rfl
  rw [stdout.flatten_eq] at hkept hseen hkilled
  rw [List.nil_append] at hkept
  rw [Nat.zero_add] at hseen hkilled
  rw [readBounded, ← hkept, ← hkilled, ← hseen]

theorem text_readBounded (limits : Limits) {bytes : List ℕ} (stream : Chunks bytes) :
    (readBounded limits stream.chunks).text limits = outputText limits bytes := by
  have hlen : (bytes.take limits.maxBytes).length < bytes.length ↔
      limits.maxBytes < bytes.length := by
    rw [List.length_take]
    omega
  simp only [readBounded_eq, Reader.text, outputText, hlen]

/-- `_result` of a process that has written `stdout` and `stderr`. -/
theorem result_eq (limits : Limits) {out err : List ℕ} (stdout : Chunks out) (stderr : Chunks err)
    (code : ℤ) :
    result limits (readBounded limits stdout.chunks) (readBounded limits stderr.chunks) code =
      if limits.killBytes < out.length ∨ limits.killBytes < err.length then
        .error (.failed (if code = 0 then -sigkill else code))
      else if code ≠ 0 then .error (.failed code)
      else .ok ⟨(readBounded limits stdout.chunks).text limits,
        (readBounded limits stderr.chunks).text limits⟩ := by
  simp only [result, readBounded_eq, Bool.or_eq_true, decide_eq_true_eq]

end Discode.ExecSession

import Discode.ToolReply

/-!
# Replies that are recorded

When the turn of a tool that has exited with code 0 is completed: its output has to be such
that JSON is read without an exception, and what is taken of it has to fit a `TEXT` column.
-/

set_option autoImplicit false

namespace Discode.Tools

open ExecSession (Chunks ExecResult Limits readBounded outputText truncationNotice text_readBounded)

/-! ## Text that the code reads and writes -/

def NoSurrogates (s : PyStr) : Prop := ∀ c ∈ s, isSurrogate c = false

theorem not_surrogate {c : ℕ} (h : c < 0xd800 ∨ 0xdfff < c) : isSurrogate c = false := by
  by_contra hsurrogate
  have hrange : 0xd800 ≤ c ∧ c ≤ 0xdfff := by simpa [isSurrogate] using hsurrogate
  omega

theorem pyStr_noSurrogates (s : String) : NoSurrogates (pyStr s) := by
  intro c hc
  obtain ⟨ch, -, rfl⟩ := List.mem_map.mp hc
  have hvalid : ch.toNat < 0xd800 ∨ 0xdfff < ch.toNat ∧ ch.toNat < 0x110000 := ch.valid
  exact not_surrogate (hvalid.imp_right And.left)

theorem NoSurrogates.append {s t : PyStr} (hs : NoSurrogates s) (ht : NoSurrogates t) :
    NoSurrogates (s ++ t) :=
  List.forall_mem_append.mpr ⟨hs, ht⟩

theorem NoSurrogates.subset {s t : PyStr} (hs : NoSurrogates s) (h : t ⊆ s) : NoSurrogates t :=
  fun c hc ↦ hs c (h hc)

theorem NoSurrogates.storable {s : PyStr} (hs : NoSurrogates s) : Storable s ↔ nul ∉ s := by
  constructor
  · intro h hnul
    exact (h nul hnul).1 rfl
  · intro h c hc
    refine ⟨?_, hs c hc⟩
    rintro rfl
    exact h hc

theorem storable_append {s t : PyStr} : Storable (s ++ t) ↔ Storable s ∧ Storable t :=
  List.forall_mem_append

/-- Decoding never makes a surrogate. -/
theorem outputText_noSurrogates (limits : Limits) (bytes : List ℕ) :
    NoSurrogates (outputText limits bytes) := by
  apply NoSurrogates.append
  · intro c hc
    exact not_surrogate ((Utf8.scalar_of_mem_decode _ c hc).imp_right And.left)
  · split
    · refine List.forall_mem_cons.mpr ⟨by decide, ?_⟩
      exact ((pyStr_noSurrogates _).append (pyStr_noSurrogates _)).append (pyStr_noSurrogates _)
    · exact fun _ h ↦ nomatch h

/-! ## The reply -/

theorem strip_subset (s : PyStr) : strip s ⊆ s := by
  intro c hc
  have hr : c ∈ (lstrip s).reverse.dropWhile isSpace := List.mem_reverse.mp hc
  exact (List.dropWhile_suffix _).subset
    (List.mem_reverse.mp ((List.dropWhile_suffix _).subset hr))

theorem stripAnsi_subset (s : PyStr) : stripAnsi s ⊆ s := (ansiRule.sub_nil_sublist s).subset

theorem shownReply_noSurrogates {extracted stderr : PyStr} (hreply : NoSurrogates extracted)
    (herr : NoSurrogates stderr) : NoSurrogates (shownReply extracted stderr) := by
  have hstripped : ∀ s, NoSurrogates s → NoSurrogates (strip (stripAnsi s)) := fun s hs ↦
    hs.subset fun c hc ↦ stripAnsi_subset s (strip_subset _ hc)
  unfold shownReply
  dsimp only
  split_ifs
  · exact hstripped extracted hreply
  · exact hstripped stderr herr
  · exact pyStr_noSurrogates _

theorem shownReply_ne_nil (extracted stderr : PyStr) : shownReply extracted stderr ≠ [] := by
  unfold shownReply
  dsimp only
  split_ifs with hreply hfallback
  · exact hreply
  · exact hfallback
  · decide +kernel

theorem truncateReply_ne_nil {reply : PyStr} (h : reply ≠ []) : truncateReply reply ≠ [] := by
  unfold truncateReply
  split_ifs
  · exact List.append_ne_nil_of_right_ne_nil _ (by decide +kernel)
  · exact h

theorem truncateReply_length (reply : PyStr) : (truncateReply reply).length ≤ 1000000 := by
  have hnotice : replyTruncated.length ≤ 100 := by decide +kernel
  unfold truncateReply
  split_ifs with hlong
  · rw [List.length_append, List.length_take]
    unfold maxReplyChars at *
    omega
  · exact (Nat.le_of_not_lt hlong).trans (by decide)

theorem storable_truncateReply {reply : PyStr} :
    Storable (truncateReply reply) ↔ Storable (reply.take maxReplyChars) := by
  have hnotice : Storable replyTruncated := by decide +kernel
  unfold truncateReply
  split_ifs with hlong
  · rw [storable_append, and_iff_left hnotice]
  · rw [List.take_of_length_le (Nat.le_of_not_lt hlong)]

/-! ## When a result is recorded -/

section

variable (py : Interpreter) (d : ToolConfig) (stdout stderr : PyStr)

/-- Output that is read as JSON is refused by a `JSONDecodeError` at most; what is shown of the
output and the token in it hold no NUL, and what is taken from JSON holds no surrogate. -/
structure Recordable : Prop where
  json : ReadsJson d → tryJson py stdout ≠ .error ()
  field : ∀ reply, jsonReply py d stdout = some reply →
    Storable ((shownReply reply stderr).take maxReplyChars)
  plain : jsonReply py d stdout = none →
    nul ∉ (shownReply (plainReply d stdout stderr) stderr).take maxReplyChars
  value : ∀ token, jsonToken py d stdout = some token → isRejected token = false → Storable token
  group : ∀ token, groupToken py d stdout stderr = some token → isRejected token = false →
    nul ∉ token

end

variable {py : Interpreter} {d : ToolConfig} {stdout stderr : PyStr}

theorem recorded_ok {reply : PyStr} {token : Option PyStr} :
    Recorded (.ok (reply, token)) ↔
      (reply ≠ [] ∧ reply.length ≤ 1000000) ∧ Storable reply ∧ ∀ t ∈ token, Storable t := by
  unfold Recorded turnAfter
  constructor
  · rintro ⟨⟨_, _, heq, hreply⟩, hturn⟩
    cases heq
    refine ⟨hreply, ?_⟩
    dsimp only at hturn
    split_ifs at hturn with hstorable
    exact hstorable
  · rintro ⟨hreply, hstorable⟩
    exact ⟨⟨reply, token, rfl, hreply⟩, if_pos hstorable⟩

theorem not_recorded_error : ¬ Recorded (.error ()) := by
  rintro ⟨⟨_, _, h, -⟩, -⟩
  cases h

theorem plainReply_noSurrogates (hout : NoSurrogates stdout) (herr : NoSurrogates stderr) :
    NoSurrogates (plainReply d stdout stderr) := by
  unfold plainReply
  split_ifs
  · exact hout.subset (stripAnsi_subset stdout)
  · exact herr
  · exact hout

theorem groupToken_infix {token : PyStr} (h : groupToken py d stdout stderr = some token) :
    token <:+: stdout ∨ token <:+: stderr := by
  obtain ⟨pattern, -, hsearch⟩ := Option.bind_eq_some_iff.mp h
  split_ifs at hsearch
  · exact .inl (py.search_infix pattern _ _ (Option.join_eq_some_iff.mp hsearch))
  · exact .inr (py.search_infix pattern _ _ (Option.join_eq_some_iff.mp hsearch))

theorem groupToken_noSurrogates {token : PyStr} (hout : NoSurrogates stdout)
    (herr : NoSurrogates stderr) (h : groupToken py d stdout stderr = some token) :
    NoSurrogates token := by
  rcases groupToken_infix h with hin | hin
  · exact hout.subset hin.subset
  · exact herr.subset hin.subset

/-- A tool has one source of tokens. -/
theorem jsonToken_or_groupToken (hd : Field.resumeTokenSource.Accepts (d .resumeTokenSource)) :
    jsonToken py d stdout = none ∨ groupToken py d stdout stderr = none := by
  obtain ⟨src, -, hstr⟩ := str_of_literal rfl hd
  unfold jsonToken groupToken
  simp only [isOneOf_of_str hstr, List.mem_singleton]
  by_cases hjson : src = "json_field"
  · refine .inr ?_
    subst hjson
    simp
  · refine .inl ?_
    simp [hjson]

theorem storable_shownReply (hout : NoSurrogates stdout) (herr : NoSurrogates stderr) :
    Storable ((shownReply ((jsonReply py d stdout).getD (plainReply d stdout stderr)) stderr).take
        maxReplyChars) ↔
      (∀ reply, jsonReply py d stdout = some reply →
        Storable ((shownReply reply stderr).take maxReplyChars)) ∧
      (jsonReply py d stdout = none →
        nul ∉ (shownReply (plainReply d stdout stderr) stderr).take maxReplyChars) := by
  cases jsonReply py d stdout with
  | some reply =>
      constructor
      · intro h
        refine ⟨?_, fun hnone ↦ nomatch hnone⟩
        rintro _ ⟨⟩
        exact h
      · exact fun h ↦ h.1 reply rfl
  | none =>
      have hplain := (shownReply_noSurrogates (plainReply_noSurrogates (d := d) hout herr)
        herr).subset (List.take_subset maxReplyChars _)
      constructor
      · exact fun h ↦ ⟨(fun _ hsome ↦ nomatch hsome), fun _ ↦ hplain.storable.mp h⟩
      · exact fun h ↦ hplain.storable.mpr (h.2 rfl)

theorem storable_token (hd : Field.resumeTokenSource.Accepts (d .resumeTokenSource))
    (hout : NoSurrogates stdout) (herr : NoSurrogates stderr) :
    (∀ token ∈ ((jsonToken py d stdout).or (groupToken py d stdout stderr)).filter
        (fun token ↦ !isRejected token), Storable token) ↔
      (∀ token, jsonToken py d stdout = some token → isRejected token = false →
        Storable token) ∧
      (∀ token, groupToken py d stdout stderr = some token → isRejected token = false →
        nul ∉ token) := by
  have hgroup : ∀ token, groupToken py d stdout stderr = some token →
      (Storable token ↔ nul ∉ token) := fun token h ↦
    (groupToken_noSurrogates hout herr h).storable
  have hone : jsonToken py d stdout = none ∨ groupToken py d stdout stderr = none :=
    jsonToken_or_groupToken hd
  simp only [Option.mem_def, Option.filter_eq_some_iff, Bool.not_eq_true']
  rcases hone with hnone | hnone
  · simp only [hnone, Option.none_or]
    constructor
    · exact fun h ↦ ⟨(fun _ hsome ↦ nomatch hsome),
        fun token htoken hkept ↦ (hgroup token htoken).mp (h token ⟨htoken, hkept⟩)⟩
    · exact fun h token htoken ↦ (hgroup token htoken.1).mpr (h.2 token htoken.1 htoken.2)
  · simp only [hnone, Option.or_none]
    constructor
    · exact fun h ↦ ⟨fun token htoken hkept ↦ h token ⟨htoken, hkept⟩,
        fun _ hsome ↦ nomatch hsome⟩
    · exact fun h token htoken ↦ h.1 token htoken.1 htoken.2

theorem deliverResult_recorded (tool : ValidTool py.toPython)
    (hsentinel : (tool.config .resumeTokenSource).isOneOf ["sentinel"] = false)
    (hout : NoSurrogates stdout) (herr : NoSurrogates stderr) :
    Recorded (deliverResult py tool.config ⟨stdout, stderr⟩) ↔
      Recordable py tool.config stdout stderr := by
  obtain ⟨hfields, hcontract⟩ := tool.checked
  obtain ⟨-, -, -, hpattern, -⟩ := validateContract_eq_ok.mp hcontract
  generalize tool.config = d at *
  unfold deliverResult parseResumeToken
  rcases @extractReply_cases py d stdout stderr (hfields .replyExtractor) with
    ⟨hjson, hraised, hreply⟩ | ⟨hreads, hreply⟩
  · rw [hreply]
    exact iff_of_false not_recorded_error fun h ↦ h.json (.inl hjson) hraised
  rcases @readToken_cases py d stdout stderr (hfields .resumeTokenSource) hpattern hsentinel with
    ⟨hjson, hraised, htoken⟩ | ⟨hreads', htoken⟩
  · rw [hreply, htoken]
    exact iff_of_false not_recorded_error fun h ↦ h.json (.inr hjson) hraised
  · rw [hreply, htoken]
    refine recorded_ok.trans ?_
    rw [storable_truncateReply, storable_shownReply hout herr,
      storable_token (hfields .resumeTokenSource) hout herr]
    constructor
    · rintro ⟨-, ⟨hfield, hplain⟩, hvalue, hgroup⟩
      exact ⟨fun h ↦ h.elim hreads hreads', hfield, hplain, hvalue, hgroup⟩
    · intro h
      exact ⟨⟨truncateReply_ne_nil (shownReply_ne_nil _ _), truncateReply_length _⟩,
        ⟨h.field, h.plain⟩, h.value, h.group⟩

/-- The messages that stand in for a reply are recorded. -/
theorem message_recorded {message : PyStr} (hne : message ≠ []) (hlen : message.length ≤ 1000)
    (hnul : nul ∉ message) (h : NoSurrogates message) : Recorded (.ok (message, none)) :=
  recorded_ok.mpr ⟨⟨hne, hlen.trans (by decide)⟩, h.storable.mpr hnul, fun _ h ↦ nomatch h⟩

/-- After a process that exits with code 0 the turn is completed, with a non-empty reply of at
most 1,000,000 characters, exactly if the output was discarded as too long or is recordable. -/
theorem finished_execution_recorded_iff (py : Interpreter) (tool : ValidTool py.toPython)
    (prompt : PyStr) (limits : Limits) {out err : List ℕ} (stdout : Chunks out)
    (stderr : Chunks err) :
    Recorded (deliver py tool.config prompt limits stdout stderr) ↔
      (∃ e, checkCmd tool.config prompt = .error e) ∨
      (limits.killBytes < out.length ∨ limits.killBytes < err.length) ∨
      Recordable py tool.config (outputText limits out) (outputText limits err) := by
  unfold deliver
  split
  · rename_i hcheck
    refine iff_of_true (message_recorded ?_ ?_ ?_ ?_) (.inl ⟨_, hcheck⟩)
    · decide +kernel
    · decide +kernel
    · decide +kernel
    · exact (pyStr_noSurrogates _).append (pyStr_noSurrogates _)
  · rename_i hcheck
    refine iff_of_true (message_recorded ?_ ?_ ?_ (pyStr_noSurrogates _)) (.inl ⟨_, hcheck⟩)
    · decide +kernel
    · decide +kernel
    · decide +kernel
  · rename_i hcheck
    have hstarts : ¬ ∃ e, checkCmd tool.config prompt = .error e := by
      rintro ⟨e, he⟩
      cases hcheck.symm.trans he
    have hsentinel : (tool.config .resumeTokenSource).isOneOf ["sentinel"] = false := by
      by_contra hsource
      rw [Bool.not_eq_false] at hsource
      simp [checkCmd, hsource] at hcheck
    rw [or_iff_right hstarts, ExecSession.result_eq]
    by_cases hkilled : limits.killBytes < out.length ∨ limits.killBytes < err.length
    · rw [if_pos hkilled]
      refine iff_of_true (message_recorded ?_ ?_ ?_ ?_) (.inl hkilled)
      · decide +kernel
      · decide +kernel
      · decide +kernel
      · exact ((pyStr_noSurrogates _).append (pyStr_noSurrogates _)).append (pyStr_noSurrogates _)
    · rw [if_neg hkilled, or_iff_right hkilled, text_readBounded, text_readBounded]
      exact deliverResult_recorded tool hsentinel (outputText_noSurrogates limits out)
        (outputText_noSurrogates limits err)

/-! ## A NUL byte -/

/-- An interpreter whose patterns match nothing and that refuses all JSON. -/
def plainInterpreter : Interpreter where
  compile := fun _ ↦ .error
  loads := fun _ ↦ .decodeError
  search := fun _ _ ↦ none
  search_infix := fun _ _ _ h ↦ nomatch h
  str := fun _ ↦ []
  isZero := fun _ ↦ false

/-- The output is the reply, and there are no tokens. -/
def rawConfig : ToolConfig
  | .argvPrefix => .list [.str (pyStr "aider")]
  | .argvSuffix => .list [.str (pyStr "--message=\x7bprompt\x7d")]
  | .resumeTokenSource => .str (pyStr "none")
  | .replyExtractor => .str (pyStr "stdout_raw")
  | f => f.default.getD .null

def rawTool : ValidTool plainInterpreter.toPython := ⟨pyStr "aider", rawConfig, by decide +kernel⟩

/-- The bytes of a stream that arrive at once. -/
def oneChunk (b : ℕ) (bytes : List ℕ) : Chunks (b :: bytes) where
  chunks := [b :: bytes]
  nonempty := by simp
  flatten_eq := by simp

theorem nul_output_not_recorded :
    let delivered := deliver plainInterpreter rawTool.config (pyStr "hi") (.ofMax (1024 * 1024))
      (oneChunk 0x61 [0x00, 0x62]) ⟨[], List.not_mem_nil, rfl⟩
    ¬ Recorded delivered ∧ turnAfter delivered = .executing := by
  intro delivered
  have hturn : turnAfter delivered = .executing := by decide +kernel
  refine ⟨?_, hturn⟩
  rintro ⟨-, hcompleted⟩
  rw [hturn] at hcompleted
  cases hcompleted

end Discode.Tools

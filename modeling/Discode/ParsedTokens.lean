import Discode.TokenProof
import Discode.ToolReply

/-!
# Parsed tokens

Which outputs `parse_resume_token` makes a usable token of, and what an empty one does to the
turns that follow.
-/

set_option autoImplicit false

namespace Discode

namespace Tools

/-- A token that stands in a command line as one word that is no option. -/
structure Usable (token : PyStr) : Prop where
  nonempty : token ≠ []
  noSpace : ∀ c ∈ token, isSpace c = false
  noDash : token.head? ≠ some dash

/-- An interpreter that prints nothing as the empty text but what is false. -/
structure PrintingInterpreter extends Interpreter where
  str_ne_nil : ∀ v, toInterpreter.truthy v = true → str v ≠ []

theorem isRejected_eq_false {token : PyStr} : isRejected token = false ↔
    token.head? ≠ some dash ∧ ∀ c ∈ token, isSpace c = false := by
  simp [isRejected]

theorem parseResumeToken_eq_ok {py : Interpreter} {d : ToolConfig} {stdout stderr token : PyStr} :
    parseResumeToken py d stdout stderr = .ok (some token) ↔
      readToken py d stdout stderr = .ok (some token) ∧ isRejected token = false := by
  unfold parseResumeToken
  cases readToken py d stdout stderr with
  | error u => exact iff_of_false (fun h ↦ nomatch h) fun h ↦ nomatch h.1
  | ok read =>
      simp only [bind, Except.bind, pure, Except.pure, Except.ok.injEq, Option.filter_eq_some_iff,
        Bool.not_eq_true']

variable {py : PrintingInterpreter} {d : ToolConfig} {stdout stderr : PyStr}

theorem jsonToken_ne_nil : jsonToken py.toInterpreter d stdout ≠ some [] := by
  intro h
  unfold jsonToken at h
  split at h
  · obtain ⟨v, hv, hstr⟩ := Option.map_eq_some_iff.mp h
    exact py.str_ne_nil v (Option.filter_eq_some_iff.mp hv).2 hstr
  · cases h

theorem groupToken_of_json (h : (d .resumeTokenSource).isOneOf ["json_field"] = true) :
    groupToken py.toInterpreter d stdout stderr = none := by
  have hsource : (d .resumeTokenSource).str? = some (pyStr "json_field") := by
    obtain ⟨s, hs, hin⟩ := (Option.any_eq_true _ _).mp h
    rw [hs]
    simpa using hin
  unfold groupToken
  simp only [isOneOf_of_str hsource]
  cases (d .resumeTokenPattern).str? with
  | none => rfl
  | some pattern => simp

/-- An empty token is read exactly where the group of the pattern is empty. -/
theorem readToken_eq_nil_iff (hd : Field.resumeTokenSource.Accepts (d .resumeTokenSource))
    (hpattern : PatternGiven (d .resumeTokenSource) (d .resumeTokenPattern)) :
    readToken py.toInterpreter d stdout stderr = .ok (some []) ↔
      groupToken py.toInterpreter d stdout stderr = some [] := by
  by_cases hsentinel : (d .resumeTokenSource).isOneOf ["sentinel"] = false
  · obtain ⟨hjson, -, hread⟩ | ⟨-, hread⟩ :=
      @readToken_cases py.toInterpreter d stdout stderr hd hpattern hsentinel
    · rw [hread, groupToken_of_json hjson]
      exact iff_of_false (fun h ↦ nomatch h) fun h ↦ nomatch h
    · rw [hread, Except.ok.injEq]
      cases hjson : jsonToken py.toInterpreter d stdout with
      | none => rw [Option.none_or]
      | some token =>
          have hsource : (d .resumeTokenSource).isOneOf ["json_field"] = true := by
            unfold jsonToken at hjson
            split at hjson
            · assumption
            · cases hjson
          rw [groupToken_of_json hsource, Option.some_or]
          refine iff_of_false (fun h ↦ ?_) fun h ↦ nomatch h
          exact jsonToken_ne_nil (hjson.trans h)
  · rw [Bool.not_eq_false] at hsentinel
    have hsource : (d .resumeTokenSource).str? = some (pyStr "sentinel") := by
      obtain ⟨s, hs, hin⟩ := (Option.any_eq_true _ _).mp hsentinel
      rw [hs]
      simpa using hin
    unfold readToken groupToken
    simp only [isOneOf_of_str hsource]
    cases (d .resumeTokenPattern).str? with
    | none => simp
    | some pattern => simp [Option.filter]

/-- A parsed token is usable exactly if the pattern has not matched with an empty group. -/
theorem parsed_usable_iff (tool : ValidTool py.toPython) :
    (∀ token, parseResumeToken py.toInterpreter tool.config stdout stderr = .ok (some token) →
      Usable token) ↔
    groupToken py.toInterpreter tool.config stdout stderr ≠ some [] := by
  obtain ⟨hfields, hcontract⟩ := tool.checked
  obtain ⟨-, -, -, hpattern, -⟩ := validateContract_eq_ok.mp hcontract
  rw [ne_eq, ← readToken_eq_nil_iff (hfields .resumeTokenSource) hpattern]
  constructor
  · intro husable hread
    exact (husable [] (parseResumeToken_eq_ok.mpr ⟨hread, rfl⟩)).nonempty rfl
  · intro hread token htoken
    obtain ⟨hr, hrejected⟩ := parseResumeToken_eq_ok.mp htoken
    obtain ⟨hdash, hspace⟩ := isRejected_eq_false.mp hrejected
    refine ⟨?_, hspace, hdash⟩
    rintro rfl
    exact hread hr

end Tools

/-! ## The turns of a version -/

open Tools (PrintingInterpreter ValidTool parseResumeToken groupToken)

/-- The token that ends a turn is none, or parsed from an output in which no pattern has matched
with an empty group. -/
def GroupsFilled (py : PrintingInterpreter) (_ : SystemState) (a : SystemAction) : Prop :=
  ∀ pid reply token, a = .exec pid (.input (.finish reply token)) → token = none ∨
    ∃ (tool : ValidTool py.toPython) (stdout stderr : PyStr),
      parseResumeToken py.toInterpreter tool.config stdout stderr = .ok token ∧
        groupToken py.toInterpreter tool.config stdout stderr ≠ some []

theorem GroupsFilled.ne_nil {py : PrintingInterpreter} {σ : SystemState} {pid : ℕ}
    {reply value : PyStr} (h : GroupsFilled py σ (.exec pid (.input (.finish reply (some value))))) :
    value ≠ [] := by
  rcases h pid reply _ rfl with hnone | ⟨tool, stdout, stderr, hparse, hgroup⟩
  · cases hnone
  · exact ((Tools.parsed_usable_iff tool).mpr hgroup value hparse).nonempty

/-- A session comes to life once at a version, and no token that ended a turn is empty. -/
structure UsableLog (log : List Event) : Prop where
  once : ∀ newer older sid v token, log = newer ++ .becameRunning sid v token :: older →
    ¬ ChainStarted sid v older
  filled : ∀ pid sid v key t, .finished pid sid v key (some t) ∈ log → t.value ≠ []

namespace UsableLog

variable {log older mid : List Event} {e : Event} {sid : SessionId} {v : ℕ}

theorem cons (h : UsableLog log)
    (honce : ∀ sid v token, e = .becameRunning sid v token → ¬ ChainStarted sid v log)
    (hfilled : ∀ pid sid v key t, e = .finished pid sid v key (some t) → t.value ≠ []) :
    UsableLog (e :: log) := by
  refine ⟨fun newer older sid v token hsplit ↦ ?_, fun pid sid v key t hin ↦ ?_⟩
  · rcases List.cons_eq_append_iff.mp hsplit with ⟨-, he⟩ | ⟨newer', -, hlog⟩
    · obtain ⟨rfl, rfl⟩ := List.cons_eq_cons.mp he
      exact honce sid v token rfl
    · exact h.once newer' older sid v token hlog
  · rcases List.mem_cons.mp hin with he | hin
    · exact hfilled pid sid v key t he.symm
    · exact h.filled pid sid v key t hin

theorem tail (h : UsableLog (e :: log)) : UsableLog log :=
  ⟨fun newer older sid v token hsplit ↦
      h.once (e :: newer) older sid v token (congrArg (e :: ·) hsplit),
    fun pid sid v key t hin ↦ h.filled pid sid v key t (List.mem_cons_of_mem e hin)⟩

theorem suffix (newer : List Event) (h : UsableLog (newer ++ log)) : UsableLog log := by
  induction newer with
  | nil => exact h
  | cons e newer ih => exact ih h.tail

/-- Once a chain has a usable token, it keeps one. -/
theorem chain (h : UsableLog (mid ++ older)) (hstart : ChainStarted sid v older) {t : Token}
    (hchain : chainToken sid v older = some t) (ht : t.value ≠ []) :
    ∃ t', chainToken sid v (mid ++ older) = some t' ∧ t'.value ≠ [] := by
  induction mid with
  | nil => exact ⟨t, hchain, ht⟩
  | cons e mid ih =>
      obtain ⟨t', ht', hne⟩ := ih h.tail
      cases hfeeds : e.feedsChain sid v with
      | false => exact ⟨t', (chainToken_cons_of_not hfeeds).trans ht', hne⟩
      | true =>
          cases e with
          | finished pid s v' key token =>
              obtain ⟨rfl, rfl⟩ := of_decide_eq_true hfeeds
              rw [List.cons_append, chainToken_finished]
              cases token with
              | none => exact ⟨t', ht', hne⟩
              | some new => exact ⟨new, rfl, h.filled pid s v' key new List.mem_cons_self⟩
          | becameRunning s v' token =>
              obtain ⟨rfl, rfl⟩ := of_decide_eq_true hfeeds
              exact absurd (hstart.append mid) (h.once [] (mid ++ older) s v' token rfl)
          | _ => cases hfeeds

end UsableLog

/-- A subprocess ends with the token of the step that ends it. -/
theorem InputHandler.finish_of_finished {pid : ℕ} {w w' : World} {p : InputHandler}
    {q : Option InputHandler} {a : InputAction} (h : p.step pid w a = some (w', q)) {r : ℕ}
    {sid : SessionId} {v : ℕ} {key : Key} {t : Token}
    (hlog : w'.log = .finished r sid v key (some t) :: w.log) :
    ∃ reply, a = .finish reply (some t.value) := by
  have hgrows : w.log ≠ .finished r sid v key (some t) :: w.log := fun he ↦ by
    have hlen := congrArg List.length he
    rw [List.length_cons] at hlen
    omega
  cases step_effect h with
  | finish hstage reply token =>
      obtain ⟨he, -⟩ := List.cons_eq_cons.mp hlog
      obtain ⟨-, -, -, -, htoken⟩ := Event.finished.inj he
      obtain ⟨value, rfl, rfl⟩ := Option.map_eq_some_iff.mp htoken
      exact ⟨reply, rfl⟩
  | persistIntent => cases (List.cons_eq_cons.mp hlog).1
  | start => cases (List.cons_eq_cons.mp hlog).1
  | record => cases (List.cons_eq_cons.mp hlog).1
  | post => cases (List.cons_eq_cons.mp hlog).1
  | _ => exact absurd hlog hgrows

/-- A session that comes to life was not alive at its version before. -/
theorem TokenInv.not_started {w : World} (h : TokenInv w) {pid : ℕ} {p : Process}
    {sid : SessionId} {v : ℕ} {token : Option Token}
    (he : (Event.becameRunning sid v token).EmittedBy pid p w) : ¬ ChainStarted sid v w.log := by
  rintro ⟨token', hin⟩
  obtain ⟨c, hc, hlinked⟩ := h.fed _ hin sid v (decide_eq_true ⟨rfl, rfl⟩)
  rcases he with ⟨j, minted, row, -, -, rfl, hrow, hs, rfl, -⟩ |
    ⟨j, row, r, -, -, rfl, hrow, hs, rfl, -⟩
  · rw [Database.core?, hrow] at hc
    cases hc
    exact SessionCore.not_linked_of_starting (.inl hs) hlinked
  · rw [Database.core?, hrow] at hc
    cases hc
    exact SessionCore.not_linked_of_starting (.inr hs) hlinked

theorem usableLog {py : PrintingInterpreter} {σ : SystemState}
    (h : system.ReachableWhen (GroupsFilled py) FreshWorld σ) : UsableLog σ.shared.log := by
  refine h.invariant (I := fun σ ↦ UsableLog σ.shared.log) ?_ fun σ a τ hσ hlog hok hs ↦ ?_
  · rintro w ⟨settings, redactor, rfl⟩
    refine ⟨fun newer older sid v token hsplit ↦ ?_, fun _ _ _ _ _ hin ↦ nomatch hin⟩
    cases newer <;> cases hsplit
  · have hinv := tokenInv hσ.reachable
    obtain ⟨new, hnew, hone, hemit⟩ := step_emits hs
    cases new with
    | nil =>
        rw [hnew]
        exact hlog
    | cons e rest =>
        obtain rfl : rest = [] := List.length_eq_zero_iff.mp (by simpa using hone)
        rw [hnew]
        refine hlog.cons (fun sid v token he ↦ ?_) fun pid sid v key t he ↦ ?_
        · subst he
          rcases hemit _ List.mem_cons_self with ⟨_, _, he⟩ | ⟨pid, b, p, -, -, hby⟩
          · cases he
          · exact hinv.not_started hby
        · subst he
          rcases hemit _ List.mem_cons_self with ⟨_, _, he⟩ | ⟨pid', b, p, rfl, hp, hby⟩
          · cases he
          · obtain ⟨-, handler, row, rfl, -⟩ := hby
            obtain ⟨p', q, hp', hexec, -⟩ := ProcessPool.Machine.step_exec hs
            cases hp.symm.trans hp'
            generalize τ.shared = w at hexec hnew
            cases execStep_cases hexec with
            | crash =>
                have hlen := congrArg List.length hnew
                simp at hlen
            | input hstep =>
                obtain ⟨reply, rfl⟩ := InputHandler.finish_of_finished hstep hnew
                exact hok.ne_nil

/-- A parsed token is usable exactly if the pattern has not matched with an empty group (where
`parse_resume_token` raises, there is no token); where none has, a turn behind one that got a token
gets a token too. -/
theorem resume_tokens_usable (py : PrintingInterpreter) {σ : SystemState}
    (h : system.ReachableWhen (GroupsFilled py) FreshWorld σ) :
    (∀ (tool : ValidTool py.toPython) (stdout stderr : PyStr),
      (∀ token, parseResumeToken py.toInterpreter tool.config stdout stderr = .ok (some token) →
        Tools.Usable token) ↔
      groupToken py.toInterpreter tool.config stdout stderr ≠ some []) ∧
    ∀ newer mid older pid pid' sid v key key' t token,
      σ.shared.log = newer ++ .started pid' sid v key' token ::
        (mid ++ .started pid sid v key (some t) :: older) →
      t.value ≠ [] → ∃ t', token = some t' ∧ t'.value ≠ [] := by
  refine ⟨fun tool stdout stderr ↦ Tools.parsed_usable_iff tool, ?_⟩
  intro newer mid older pid pid' sid v key key' t token hlog ht
  have hinv := tokenInv h.reachable
  obtain ⟨-, hlater⟩ := hinv.chained newer _ pid' sid v key' token hlog
  have hsplit : σ.shared.log = (newer ++ .started pid' sid v key' token :: mid) ++
      .started pid sid v key (some t) :: older := by
    rw [hlog, List.append_assoc]
    rfl
  obtain ⟨hstart, hearlier⟩ := hinv.chained _ older pid sid v key (some t) hsplit
  have husable : UsableLog (mid ++ .started pid sid v key (some t) :: older) := by
    have hall := usableLog h
    rw [hlog] at hall
    exact (hall.suffix newer).tail
  have hchain : chainToken sid v (.started pid sid v key (some t) :: older) = some t :=
    (chainToken_cons_of_not rfl).trans hearlier.symm
  obtain ⟨t', ht', hne⟩ := husable.chain (hstart.append [_]) hchain ht
  exact ⟨t', hlater.trans ht', hne⟩

/-! ## A pattern whose group may be empty -/

namespace Tools

/-- What stands behind `session=` at the start of a text. -/
def sessionGroup (text : PyStr) : Option (Option PyStr) :=
  if pyStr "session=" <+: text then some (some ((text.drop 8).takeWhile fun c ↦ !isSpace c))
  else none

/-- An interpreter for the pattern `session=(\S*)`. -/
def sessionInterpreter : PrintingInterpreter where
  compile _ := .groups 1
  loads _ := .decodeError
  search _ := sessionGroup
  search_infix _ text group h := by
    unfold sessionGroup at h
    split_ifs at h
    obtain rfl := Option.some.inj (Option.some.inj h)
    exact (List.takeWhile_prefix _).isInfix.trans (List.drop_suffix 8 text).isInfix
  str
    | .str s => s
    | .number digits => digits
    | _ => pyStr "True"
  isZero digits := digits.all (· == 0x30)
  str_ne_nil v h := by
    cases v with
    | str s => simpa [Interpreter.truthy] using h
    | number digits =>
        rintro rfl
        cases h
    | _ =>
        change pyStr "True" ≠ []
        decide

def sessionConfig : ToolConfig
  | .argvPrefix => .list [.str (pyStr "agent")]
  | .argvResumeTokens => .list [.str (pyStr "--resume="  ++ tokenPlaceholder)]
  | .argvSuffix => .list [.str promptPlaceholder]
  | .resumeTokenSource => .str (pyStr "stdout_regex")
  | .resumeTokenPattern => .str (pyStr "session=(\\S*)")
  | .replyExtractor => .str (pyStr "stdout_raw")
  | f => f.default.getD .null

def sessionTool : ValidTool sessionInterpreter.toPython :=
  ⟨pyStr "agent", sessionConfig, by decide +kernel⟩

end Tools

/-- Three turns of a session: the first one prints a token, the second one ends with `second`,
and the third one is started. -/
def threeTurns (second : Option PyStr) : List SystemAction :=
  openRun 0 1 7 (pyStr "demo") 1 none none ++ inputRun 3 100 1 1 ++ admitRun 4 ++
    answerRun 4 (pyStr "done") (some (pyStr "t-1")) ++ inputRun 5 200 1 2 ++ admitRun 6 ++
    answerRun 6 (pyStr "done") second ++ inputRun 7 300 1 3 ++ admitRun 8 ++
    [.exec 8 (.input .start)]

def silentState : SystemState :=
  (system.run (.start deployment) (threeTurns none)).get (by decide +kernel)

def emptyGroupState : SystemState :=
  (system.run (.start deployment) (threeTurns (some []))).get (by decide +kernel)

/-- The tokens that end turns in a run. -/
def finishToken? : SystemAction → Option (Option PyStr)
  | .exec _ (.input (.finish _ token)) => some token
  | _ => none

theorem silentState_reachable :
    system.ReachableWhen (GroupsFilled Tools.sessionInterpreter) FreshWorld silentState := by
  refine ⟨deployment, deployment_fresh, .of_run ?_ (Option.some_get _).symm⟩
  intro a ha _ pid reply token he
  have htokens : (threeTurns none).filterMap finishToken? = [some (pyStr "t-1"), none] := by
    decide +kernel
  have hin : token ∈ (threeTurns none).filterMap finishToken? :=
    List.mem_filterMap.mpr ⟨a, ha, by rw [he]; rfl⟩
  rw [htokens, List.mem_cons, List.mem_singleton] at hin
  rcases hin with rfl | rfl
  · exact .inr ⟨Tools.sessionTool, pyStr "session=t-1", [], by decide +kernel, by decide +kernel⟩
  · exact .inl rfl

theorem silentState_log : ∃ mid older token, silentState.shared.log =
    .started 8 1 0 300 token :: (mid ++ .started 6 1 0 200 (some firstToken) :: older) :=
  ⟨silentState.shared.log.tail.take 4, silentState.shared.log.drop 6, some firstToken,
    by decide +kernel⟩

theorem resume_tokens_usable_silent : ∃ mid older token, silentState.shared.log =
    .started 8 1 0 300 token :: (mid ++ .started 6 1 0 200 (some firstToken) :: older) ∧
      ∃ t, token = some t ∧ t.value ≠ [] := by
  obtain ⟨mid, older, token, hlog⟩ := silentState_log
  obtain ⟨-, hlater⟩ := resume_tokens_usable Tools.sessionInterpreter silentState_reachable
  exact ⟨mid, older, token, hlog,
    hlater [] mid older 6 8 1 0 200 300 firstToken token hlog (by decide)⟩

/-- The token of a turn that ended with an empty group. -/
def emptyToken : Token := ⟨[], .parsed 1 200 0⟩

/-- The group of the pattern is empty in `session=`; the turn after it is run without a token. -/
theorem empty_group_loses_token :
    parseResumeToken Tools.sessionInterpreter.toInterpreter Tools.sessionTool.config
      (pyStr "session=") [] = .ok (some []) ∧ ¬ Tools.Usable [] ∧
    SystemReachable emptyGroupState ∧ ∃ mid older, emptyGroupState.shared.log =
      .started 8 1 0 300 (some emptyToken) ::
        (mid ++ .started 6 1 0 200 (some firstToken) :: older) :=
  ⟨by decide +kernel, fun h ↦ h.nonempty rfl,
    ProcessPool.Machine.reachable_of_run deployment_fresh (Option.some_get _).symm,
    emptyGroupState.shared.log.tail.take 4, emptyGroupState.shared.log.drop 6, by decide +kernel⟩

end Discode

import Discode.FenceLines

/-!
# Code blocks across a split

A chunk and the reply agree on which characters are in a code block, unless a chunk starts in the
middle of a line and the cut hides a fence line or makes one.
-/

set_option autoImplicit false

namespace Discode

open Regex

/-- The cut falls between the backticks of a fence line. -/
def FenceLineHidden (sent rest : PyStr) : Prop :=
  (lastLine sent).dropWhile isBlank = pyStr "`" ∧ pyStr "``" <+: rest ∨
    (lastLine sent).dropWhile isBlank = pyStr "``" ∧ pyStr "`" <+: rest

/-- The cut falls into a line, right before backticks that are no fence line there. -/
def FenceLineMade (sent rest : PyStr) : Prop :=
  (lastLine sent).dropWhile isBlank ≠ [] ∧ pyStr "```" <+: rest.dropWhile isBlank

theorem breaks_iff (sent t : PyStr) : (FenceState.behind sent).line.Breaks t ↔
    FenceLineHidden sent t ∨ FenceLineMade sent t := by
  have htick : pyStr "`" = [backtick] := rfl
  have hticks : pyStr "``" = [backtick, backtick] := rfl
  rw [behind_line, LineState.Breaks, FenceLineHidden, FenceLineMade, lineState, or_assoc, htick,
    hticks]
  generalize (lastLine sent).dropWhile isBlank = d
  by_cases hnil : d = []
  · simp [hnil]
  · by_cases htick : d = [backtick]
    · simp [htick]
    · by_cases hticks : d = [backtick, backtick] <;> simp [hnil, htick, hticks]

/-! ## The lines at a cut -/

theorem prefix_of_prefix_append {α : Type*} {v x y : List α} {b : α} (h : v <+: x ++ b :: y)
    (hb : b ∉ v) : v <+: x := by
  rcases List.prefix_or_prefix_of_prefix h (List.prefix_append x (b :: y)) with hv | ⟨r, rfl⟩
  · exact hv
  · have hr := (List.prefix_append_right_inj x).mp h
    cases r with
    | nil => rw [List.append_nil]
    | cons a r =>
        rw [(List.cons_prefix_cons.mp hr).1] at hb
        exact absurd (List.mem_append_right x List.mem_cons_self) hb

/-- What a line break hides does not matter. -/
theorem LineState.breaks_append_newline {l : LineState} {x y : PyStr} :
    l.Breaks (x ++ newline :: y) ↔ l.Breaks x := by
  have hpre : ∀ {v : PyStr}, newline ∉ v → ∀ {z : PyStr}, (v <+: z ++ newline :: y ↔ v <+: z) :=
    fun hv _ ↦ ⟨fun h ↦ prefix_of_prefix_append h hv, fun h ↦ h.trans (List.prefix_append _ _)⟩
  have hdrop : pyStr "```" <+: (x ++ newline :: y).dropWhile isBlank ↔
      pyStr "```" <+: x.dropWhile isBlank := by
    rw [List.dropWhile_append]
    split
    · rename_i hnil
      rw [List.isEmpty_iff.mp hnil, List.dropWhile_cons_of_neg (by decide)]
      exact hpre (z := []) (by decide)
    · exact hpre (by decide)
  rw [Breaks, Breaks, hpre (by decide), hpre (by decide), hdrop]

theorem LineState.not_breaks_newline (l : LineState) (t : PyStr) : ¬ l.Breaks (newline :: t) := by
  intro h
  have hnil : l.Breaks [] := breaks_append_newline.mp h
  simp [Breaks, pyStr] at hnil

theorem Round.Ok.breaks_window {u : WordChars} {s : Round} (h : s.Ok) (l : LineState) :
    l.Breaks (s.body u) ↔ l.Breaks (s.window u) := by
  by_cases hlong : maxDiscordMessageLen < s.content.length
  · rcases h.window_cases (u := u) hlong with ⟨t, hwindow, -⟩ | ⟨hbody, -⟩
    · rw [hwindow, LineState.breaks_append_newline]
    · rw [hbody]
  · rw [Round.body_of_short (not_lt.mp hlong), Round.window, if_pos (not_lt.mp hlong)]

/-! ## The start of a chunk -/

theorem scan_tags (u : WordChars) (n : ℕ) : ∀ c : Cursor CodePoint,
    ∀ p ∈ (fenceLine u).scan n c, ∀ keep tag, p = .hit keep tag → newline ∉ tag := by
  induction n with
  | zero =>
      intro c p hp
      cases hp
  | succ n ih =>
      intro c p hp keep tag heq
      have hstep := (fenceLine u).scan_step n c
      generalize (fenceLine u).scan (n + 1) c = ps at hstep hp
      cases hstep with
      | stop _ => cases hp
      | copy _ _ =>
          rcases List.mem_cons.mp hp with rfl | hp
          · cases heq
          · exact ih _ p hp keep tag heq
      | hit hmatch _ =>
          rcases List.mem_cons.mp hp with rfl | hp
          · cases heq
            obtain ⟨-, w, tag, -, htag, -, hup, -⟩ := fenceLine_hit hmatch
            rw [hup]
            exact newline_not_mem_tag htag
          · exact ih _ p hp keep tag heq

theorem foldl_fenceStep_form (ps : List (Piece CodePoint))
    (hps : ∀ p ∈ ps, ∀ keep tag, p = .hit keep tag → newline ∉ tag) :
    ∀ opener : Option PyStr, (∀ f, opener = some f → ∃ tag, f = pyStr "```" ++ tag ∧ newline ∉ tag) →
      ∀ f, ps.foldl fenceStep opener = some f → ∃ tag, f = pyStr "```" ++ tag ∧ newline ∉ tag := by
  induction ps with
  | nil => exact fun _ h ↦ h
  | cons p ps ih =>
      intro opener h
      obtain ⟨hp, hps⟩ := List.forall_mem_cons.mp hps
      apply ih hps
      intro f hf
      cases p with
      | copy a => exact h f hf
      | hit keep tag =>
          simp only [fenceStep] at hf
          split at hf <;> cases hf
          exact ⟨_, rfl, fun hmem ↦ hp keep tag rfl (List.mem_of_mem_take hmem)⟩

theorem openFence_form {u : WordChars} {text f : PyStr} (h : openFence u text = some f) :
    ∃ tag, f = pyStr "```" ++ tag ∧ newline ∉ tag :=
  foldl_fenceStep_form _ (scan_tags u _ _) none (fun _ hf ↦ nomatch hf) f h

namespace Round

/-- The fence line in front of the rest is one. -/
def Reopens (s : Round) : Prop :=
  s.pre = [] ∨ ∃ tag, newline ∉ tag ∧ s.pre = reopening (pyStr "```" ++ tag) s.rest

variable {u : WordChars} {s : Round}

theorem next_reopens (u : WordChars) (s : Round) : (s.next u).Reopens := by
  unfold next
  split
  · exact .inl rfl
  · rename_i fence hfence
    obtain ⟨tag, rfl, htag⟩ := openFence_form hfence
    exact .inr ⟨tag, htag, rfl⟩

/-- A chunk starts on a new line, or with a line break. -/
theorem Reopens.behind (h : s.Reopens) : ∃ l, FenceState.behind s.pre = ⟨!s.pre.isEmpty, l⟩ ∧
    (l = .blank ∨ s.rest.head? = some newline) := by
  rcases h with hpre | ⟨tag, htag, hpre⟩
  · rw [hpre]
    exact ⟨.blank, rfl, .inl rfl⟩
  · have hfence : FenceState.behind (pyStr "```" ++ tag) = ⟨true, .other⟩ :=
      FenceState.readAll_fence htag false
    have hne : s.pre.isEmpty = false := by
      rw [hpre]
      rfl
    rw [hne, hpre, reopening]
    split
    · rename_i hhead
      rw [List.append_nil]
      exact ⟨.other, hfence, .inr hhead⟩
    · rw [FenceState.behind_append, hfence]
      exact ⟨.blank, rfl, .inl rfl⟩

/-- A round whose chunk starts right agrees with the reply on its body, unless the cut hides a
fence line or makes one. -/
theorem same_iff (hok : s.Ok) (hre : s.Reopens)
    (hstart : (FenceState.behind s.sent).inBlock = (FenceState.behind s.pre).inBlock) :
    FenceState.Same (FenceState.behind s.sent) (FenceState.behind s.pre) (s.body u) ↔
      ¬ (FenceLineHidden s.sent (s.window u) ∨ FenceLineMade s.sent (s.window u)) := by
  rw [← breaks_iff, ← hok.breaks_window]
  obtain ⟨l, hpre, hl⟩ := hre.behind
  rw [hpre] at hstart ⊢
  generalize FenceState.behind s.sent = σ at hstart ⊢
  obtain ⟨b, l'⟩ := σ
  change b = _ at hstart
  subst hstart
  rcases hl with rfl | hhead
  · exact FenceState.same_start_iff l'
  · obtain ⟨hrest, hbody⟩ := hok.rest_eq u
    obtain ⟨c, t, hct⟩ := List.exists_cons_of_ne_nil hbody
    rw [hrest, hct] at hhead
    cases hhead
    rw [hct]
    exact iff_of_true (FenceState.same_of_read rfl rfl) (LineState.not_breaks_newline l' t)

/-! ## All chunks -/

/-- The character `k` of the body, in the chunk and in the reply. -/
theorem mem_rounds_take {content : PyStr} (hs : s ∈ rounds u content) {k : ℕ}
    (hk : k ≤ (s.body u).length) :
    (s.chunk u).take (s.pre.length + k) = s.pre ++ (s.body u).take k ∧
      content.take (s.sent.length + k) = s.sent ++ (s.body u).take k := by
  obtain ⟨hok, hsent⟩ := rounds_sent hs
  constructor
  · have hchunk : (s.chunk u).take (s.pre ++ s.body u).length = s.pre ++ s.body u := by
      rcases hok.chunk_eq (u := u) with hchunk | ⟨-, hchunk⟩
      · rw [hchunk, List.take_length]
      · rw [hchunk, List.take_left]
    have hle : s.pre.length + k ≤ (s.pre ++ s.body u).length := by
      rw [List.length_append]
      exact Nat.add_le_add_left hk _
    rw [← Nat.min_eq_left hle, ← List.take_take, hchunk, List.take_length_add_append]
  · rw [← hsent, List.take_length_add_append, (hok.rest_eq u).1,
      List.take_append_of_le_length hk]

/-- At every character of the body, the chunk is in a code block exactly if the reply is. -/
def KeepsCode (u : WordChars) (content : PyStr) (s : Round) : Prop :=
  ∀ k ≤ (s.body u).length, (openFence u ((s.chunk u).take (s.pre.length + k))).isSome =
    (openFence u (content.take (s.sent.length + k))).isSome

theorem keepsCode_iff {content : PyStr} (hs : s ∈ rounds u content) : s.KeepsCode u content ↔
    FenceState.Same (FenceState.behind s.sent) (FenceState.behind s.pre) (s.body u) := by
  apply forall₂_congr
  intro k hk
  obtain ⟨hchunk, hcontent⟩ := mem_rounds_take hs hk
  rw [hchunk, hcontent, openFence_isSome, openFence_isSome, FenceState.behind_append,
    FenceState.behind_append]
  exact eq_comm

theorem reopens_of_mem {content : PyStr} (hs : s ∈ rounds u content) : s.Reopens :=
  (rounds_induction (P := Reopens) (fun _ ↦ .inl rfl) (fun s _ _ _ _ ↦ next_reopens u s) hs).2

/-- The next chunk starts in a block exactly if the body before it ends in one. -/
theorem next_behind (u : WordChars) (s : Round) : (FenceState.behind (s.next u).pre).inBlock =
    (FenceState.behind (s.pre ++ s.body u)).inBlock := by
  obtain ⟨l, hpre, -⟩ := (next_reopens u s).behind
  rw [hpre, ← openFence_isSome u]
  unfold next
  split
  · rename_i hnone
    rw [hnone]
    rfl
  · rename_i fence hsome
    obtain ⟨tag, rfl, -⟩ := openFence_form hsome
    rw [hsome]
    rfl

end Round

/-- Code formatting survives a split exactly if no round takes up the reply in the middle of a
line where that hides a fence line or makes one. -/
theorem code_survives_iff (u : WordChars) (content : PyStr) :
    buildMessage u content = (rounds u content).map (Round.chunk u) ∧
      (rounds u content).flatMap (Round.body u) = content ∧
      (∀ s ∈ rounds u content, s.pre ++ s.body u <+: s.chunk u ∧ s.sent ++ s.body u <+: content) ∧
      ((∀ s ∈ rounds u content, s.KeepsCode u content) ↔
        ∀ s ∈ rounds u content,
          ¬ (FenceLineHidden s.sent (s.window u) ∨ FenceLineMade s.sent (s.window u))) := by
  refine ⟨buildMessage_eq_rounds u content, rounds_bodies u content, ?_, ?_⟩
  · intro s hs
    obtain ⟨hchunk, hcontent⟩ := Round.mem_rounds_take hs le_rfl
    rw [List.take_length] at hchunk hcontent
    exact ⟨hchunk ▸ List.take_prefix _ _, hcontent ▸ List.take_prefix _ _⟩
  constructor
  · intro hkeeps s hs
    have hsame := (Round.keepsCode_iff hs).mp (hkeeps s hs)
    exact (Round.same_iff (rounds_sent hs).1 (Round.reopens_of_mem hs) hsame.start).mp hsame
  · intro hcuts s hs
    -- Every chunk starts right, because the one before it ends right.
    have hstart : (FenceState.behind s.sent).inBlock = (FenceState.behind s.pre).inBlock := by
      refine (rounds_induction (P := fun s ↦ (FenceState.behind s.sent).inBlock =
        (FenceState.behind s.pre).inBlock) (fun _ ↦ rfl) ?_ hs).2
      intro s hs hok hstart _
      have hsame := (Round.same_iff hok (Round.reopens_of_mem hs) hstart).mpr (hcuts s hs)
      rw [Round.next_sent, Round.next_behind, FenceState.behind_append, FenceState.behind_append]
      exact hsame.all
    rw [Round.keepsCode_iff hs]
    exact (Round.same_iff (rounds_sent hs).1 (Round.reopens_of_mem hs) hstart).mpr (hcuts s hs)

/-! ## Inline code that becomes a block -/

/-- A long line with backticks in the middle, right where the reply is cut. -/
def longLineReply : PyStr := List.replicate 2000 0x61 ++ pyStr "```b"

theorem behind_longLine : FenceState.behind (List.replicate 2000 0x61) = ⟨false, .other⟩ := by
  have hline : newline ∉ List.replicate 1999 0x61 := by
    intro h
    cases List.eq_of_mem_replicate h
  have hread : FenceState.read ⟨false, .blank⟩ 0x61 = ⟨false, .other⟩ := by decide
  rw [FenceState.behind, List.replicate_succ, FenceState.readAll_cons, hread]
  exact FenceState.readAll_other hline false

theorem longLineReply_rounds : (⟨0, List.replicate 2000 0x61, [], pyStr "```b"⟩ : Round) ∈
    rounds .asciiOnly longLineReply := by
  have hclosed : openFence .asciiOnly (List.replicate 2000 0x61) = none := by
    rw [← Option.not_isSome_iff_eq_none, openFence_isSome, behind_longLine]
    exact Bool.false_ne_true
  have hsplit : splitPoint longLineReply maxDiscordMessageLen 0 = 2000 := by decide +kernel
  have htake : longLineReply.take 2000 = List.replicate 2000 0x61 :=
    List.take_left' List.length_replicate
  apply mem_rounds_second
  · decide +kernel
  · change splitAt .asciiOnly 0 longLineReply = _
    rw [splitAt, hsplit, htake, hclosed, List.length_replicate]
    rfl
  · exact hclosed

theorem long_line_opens_block : ¬ ∀ (u : WordChars) (content : PyStr), ∀ s ∈ rounds u content,
    s.KeepsCode u content := by
  intro h
  have hkeeps := h .asciiOnly longLineReply _ longLineReply_rounds 3 (by decide +kernel)
  obtain ⟨hchunk, hcontent⟩ :=
    Round.mem_rounds_take longLineReply_rounds (k := 3) (by decide +kernel)
  rw [hchunk, hcontent, openFence_isSome, openFence_isSome, FenceState.behind_append,
    FenceState.behind_append, behind_longLine] at hkeeps
  revert hkeeps
  decide +kernel

end Discode

import Discode.CodeState

/-!
# Chunks without anything to read

A chunk is all white space only if it starts outside a code block and the rest of the reply
starts with white space that runs up to the line break at which the reply is cut next.
-/

set_option autoImplicit false

namespace Discode

open Regex

/-! ## The end of a redacted text -/

/-- The text ends in a character that is no white space. -/
def EndsVisibly (text : PyStr) : Prop := ∃ t c, text = t ++ [c] ∧ isSpace c = false

theorem endsVisibly_of_strip {text : PyStr} (hne : text ≠ []) (hstrip : strip text = text) :
    EndsVisibly text := by
  have hrev : text.reverse = (lstrip text).reverse.dropWhile isSpace := by
    conv_lhs => rw [← hstrip]
    rw [strip, rstrip, List.reverse_reverse]
  obtain ⟨t, c, htext⟩ := (List.eq_nil_or_concat text).resolve_left hne
  rw [List.concat_eq_append] at htext
  have hhead := List.head?_dropWhile_not isSpace (lstrip text).reverse
  rw [← hrev, htext, List.reverse_append] at hhead
  exact ⟨t, c, htext, by simpa using hhead⟩

theorem EndsVisibly.sub {text : PyStr} (h : EndsVisibly text) (rule : Rule CodePoint) :
    EndsVisibly (rule.sub redacted text) := by
  obtain ⟨t, c, rfl, hc⟩ := h
  have hredacted : redacted = pyStr "[REDACTED" ++ [0x5d] := by decide
  rw [hredacted]
  obtain ⟨s, hs | hs⟩ := rule.sub_concat t (pyStr "[REDACTED") c 0x5d
  · exact ⟨s, c, hs, hc⟩
  · exact ⟨s, 0x5d, hs, by decide⟩

/-- Redaction leaves something to read at the end. -/
theorem EndsVisibly.redacted {text : PyStr} (h : EndsVisibly text) (env : Redactor) :
    EndsVisibly (applyCommonRedaction env text) := by
  unfold applyCommonRedaction
  generalize env.rules = rules
  induction rules generalizing text with
  | nil => exact h
  | cons rule rules ih => exact ih (h.sub rule)

/-! ## White space at a cut -/

/-- The white space at the start fills the window, or has its last line break, behind the first
character. -/
def BlankToLastBreak (window : PyStr) : Prop :=
  window.takeWhile isSpace = window ∨
    newline ∈ (window.takeWhile isSpace).tail ∧ newline ∉ window.dropWhile isSpace

theorem takeWhile_eq_self_iff {t : PyStr} :
    t.takeWhile isSpace = t ↔ ∀ c ∈ t, isSpace c = true := List.takeWhile_eq_self_iff

namespace Round

variable {u : WordChars} {s : Round}

theorem Ok.body_blank_iff (h : s.Ok) (hlong : maxDiscordMessageLen < s.content.length) :
    (∀ c ∈ s.body u, isSpace c = true) ↔ BlankToLastBreak (s.window u) := by
  obtain ⟨-, hne⟩ := h.rest_eq u
  rcases h.window_cases (u := u) hlong with ⟨t, hwindow, ht⟩ | ⟨hbody, hnone⟩
  · rw [hwindow, BlankToLastBreak]
    constructor
    · intro hblank
      rw [List.takeWhile_append_of_pos hblank, List.dropWhile_append_of_pos hblank,
        List.takeWhile_cons_of_pos (by decide), List.dropWhile_cons_of_pos (by decide),
        List.tail_append_of_ne_nil hne]
      refine .inr ⟨List.mem_append_right _ List.mem_cons_self, fun hmem ↦ ht ?_⟩
      exact (List.dropWhile_suffix isSpace).subset hmem
    · rintro (hblank | ⟨-, hlast⟩)
      · intro c hc
        exact takeWhile_eq_self_iff.mp hblank c (List.mem_append_left _ hc)
      · rw [← List.dropWhile_eq_nil_iff]
        rw [List.dropWhile_append] at hlast
        split at hlast
        · rename_i hnil
          exact List.isEmpty_iff.mp hnil
        · exact absurd (List.mem_append_right _ List.mem_cons_self) hlast
  · rw [hbody, BlankToLastBreak, takeWhile_eq_self_iff]
    refine ⟨.inl, ?_⟩
    rintro (hblank | ⟨hmem, -⟩)
    · exact hblank
    · have hsub : List.Sublist ((s.window u).takeWhile isSpace) (s.window u) :=
        (List.takeWhile_prefix isSpace).sublist
      exact absurd (hsub.tail.subset hmem) hnone

/-- What `build_message` puts around a body can be seen. -/
theorem Reopens.backtick_mem (h : s.Reopens) (hpre : s.pre ≠ []) : backtick ∈ s.pre := by
  rcases h with hnil | ⟨tag, -, hpre⟩
  · exact absurd hnil hpre
  · rw [hpre]
    exact List.mem_cons_self

theorem chunk_blank_iff (hok : s.Ok) (hre : s.Reopens) (hend : EndsVisibly s.rest) :
    (∀ c ∈ s.chunk u, isSpace c = true) ↔ s.pre = [] ∧
      maxDiscordMessageLen < s.rest.length ∧ BlankToLastBreak (s.window u) := by
  have htick : isSpace backtick = false := by decide
  have hstart : s.pre ++ s.body u <+: s.chunk u := by
    rcases hok.chunk_eq (u := u) with hchunk | ⟨-, hchunk⟩
    · rw [hchunk]
    · rw [hchunk]
      exact List.prefix_append _ _
  have hcontent : s.pre = [] → s.content = s.rest := fun hpre ↦ by rw [content, hpre]; rfl
  constructor
  · intro hblank
    have hpre : s.pre = [] := by
      by_contra hpre
      have hmem := hstart.subset (List.mem_append_left _ (hre.backtick_mem hpre))
      rw [hblank _ hmem] at htick
      cases htick
    have hbody : ∀ c ∈ s.body u, isSpace c = true :=
      fun c hc ↦ hblank c (hstart.subset (List.mem_append_right _ hc))
    have hlong : maxDiscordMessageLen < s.content.length := by
      by_contra hshort
      rw [body_of_short (not_lt.mp hshort)] at hbody
      obtain ⟨t, c, hrest, hc⟩ := hend
      rw [hbody c (by rw [hrest]; exact List.mem_append_right _ List.mem_cons_self)] at hc
      cases hc
    exact ⟨hpre, hcontent hpre ▸ hlong, (hok.body_blank_iff hlong).mp hbody⟩
  · rintro ⟨hpre, hlong, hwindow⟩
    rw [← hcontent hpre] at hlong
    have hbody := (hok.body_blank_iff hlong).mpr hwindow
    rcases hok.chunk_eq (u := u) with hchunk | ⟨hopen, -⟩
    · rw [hchunk, hpre]
      exact hbody
    · -- A blank body closes no block.
      have hticks : backtick ∉ s.body u := by
        intro hmem
        rw [hbody _ hmem] at htick
        cases htick
      rw [hpre, openFence_isSome, FenceState.behind, List.nil_append,
        FenceState.readAll_inBlock hticks] at hopen
      cases hopen

theorem rest_endsVisibly {text : PyStr} (h : EndsVisibly text) (hs : s ∈ rounds u text) :
    EndsVisibly s.rest := by
  obtain ⟨hok, hsent⟩ := rounds_sent hs
  obtain ⟨t, c, rfl, hc⟩ := h
  obtain ⟨r, d, hrest⟩ := (List.eq_nil_or_concat s.rest).resolve_left hok.continues
  rw [List.concat_eq_append] at hrest
  rw [hrest, ← List.append_assoc] at hsent
  have hcd := List.singleton_inj.mp (List.append_inj' hsent rfl).2
  exact ⟨r, d, hrest, hcd ▸ hc⟩

end Round

/-- Every chunk of a redacted reply has something to read exactly if no round outside a code block
finds only white space up to the line break at which it would cut. -/
theorem no_blank_chunk_iff (env : Redactor) {text : PyStr} (hne : text ≠ [])
    (hstrip : strip text = text) :
    (∀ chunk ∈ buildMessage env.words (applyCommonRedaction env text),
      ∃ c ∈ chunk, isSpace c = false) ↔
    ∀ s ∈ rounds env.words (applyCommonRedaction env text), s.pre = [] →
      maxDiscordMessageLen < s.rest.length → ¬ BlankToLastBreak (s.window env.words) := by
  have hend := (endsVisibly_of_strip hne hstrip).redacted env
  have hchunk : ∀ s ∈ rounds env.words (applyCommonRedaction env text),
      (∃ c ∈ s.chunk env.words, isSpace c = false) ↔ (s.pre = [] →
        maxDiscordMessageLen < s.rest.length → ¬ BlankToLastBreak (s.window env.words)) := by
    intro s hs
    have hblank := Round.chunk_blank_iff (u := env.words) (rounds_sent hs).1
      (Round.reopens_of_mem hs) (Round.rest_endsVisibly hend hs)
    rw [← not_iff_not]
    simpa using hblank
  rw [buildMessage_eq_rounds, List.forall_mem_map]
  exact forall₂_congr hchunk

/-! ## Lines of stars -/

/-- No rule matches where there are only stars and line breaks. -/
theorem match?_stars {rule : Rule CodePoint} (hrule : rule ∈ commonSecretPatterns .asciiOnly)
    {before after : PyStr} (hbefore : ∀ c ∈ before, c = 0x2a ∨ c = newline)
    (hafter : ∀ c ∈ after, c = 0x2a ∨ c = newline) (hne : after ≠ []) :
    rule.match? ⟨before, after⟩ = none := by
  obtain ⟨a, after, rfl⟩ := List.exists_cons_of_ne_nil hne
  have ha := hafter a List.mem_cons_self
  have hfront : before = [] ∨ ∃ b bs, before = b :: bs ∧ (b = 0x2a ∨ b = newline) := by
    cases before with
    | nil => exact .inl rfl
    | cons b bs => exact .inr ⟨b, bs, rfl, hbefore b List.mem_cons_self⟩
  simp only [commonSecretPatterns, List.mem_cons, List.not_mem_nil, or_false] at hrule
  rcases hfront with rfl | ⟨b, bs, rfl, rfl | rfl⟩ <;> rcases ha with rfl | rfl <;>
    rcases hrule with rfl | rfl | rfl | rfl | rfl | rfl | rfl | rfl | rfl | rfl | rfl <;> rfl

theorem stars_redacted {text : PyStr} (htext : ∀ c ∈ text, c = 0x2a ∨ c = newline) :
    applyCommonRedaction ⟨.asciiOnly, []⟩ text = text := by
  have hsub : ∀ rule ∈ commonSecretPatterns .asciiOnly, rule.sub redacted text = text := by
    intro rule hrule
    refine Rule.sub_of_no_match redacted fun e hlead hne ↦ ?_
    obtain ⟨w, hafter, hbefore⟩ := hlead
    change text = w ++ e.after at hafter
    refine match?_stars hrule (fun c hc ↦ htext c ?_) (fun c hc ↦ htext c ?_) hne
    · have hw : c ∈ w := by simpa [hbefore, Cursor.start] using hc
      rw [hafter]
      exact List.mem_append_left _ hw
    · rw [hafter]
      exact List.mem_append_right _ hc
  have hrules : (Redactor.mk .asciiOnly []).rules = commonSecretPatterns .asciiOnly := rfl
  rw [applyCommonRedaction, hrules]
  generalize commonSecretPatterns .asciiOnly = rules at hsub ⊢
  induction rules with
  | nil => rfl
  | cons rule rules ih =>
      obtain ⟨hrule, hrules⟩ := List.forall_mem_cons.mp hsub
      rw [List.foldl_cons, hrule, ih hrules]

/-- A line without white space that is longer than a chunk. -/
def starLine : PyStr := List.replicate 2500 0x2a

theorem no_blank_chunk_stars : maxDiscordMessageLen < starLine.length ∧
    ∀ chunk ∈ buildMessage .asciiOnly (applyCommonRedaction ⟨.asciiOnly, []⟩ starLine),
      ∃ c ∈ chunk, isSpace c = false := by
  have hstars : ∀ c ∈ starLine, c = 0x2a := fun c hc ↦ List.eq_of_mem_replicate hc
  have hne : starLine ≠ [] := List.cons_ne_nil _ _
  refine ⟨by decide +kernel, (no_blank_chunk_iff ⟨.asciiOnly, []⟩ hne
    (by decide +kernel)).mpr fun s hs hpre hlong hblank ↦ ?_⟩
  rw [stars_redacted fun c hc ↦ .inl (hstars c hc)] at hs
  obtain ⟨-, hsent⟩ := rounds_sent hs
  have hwindow : ∀ c ∈ s.window .asciiOnly, c = 0x2a :=
    fun c hc ↦ hstars c (hsent ▸ List.mem_append_right _ (Round.mem_window hc))
  rcases hblank with hall | ⟨hbreak, -⟩
  · obtain ⟨c, hc⟩ := List.exists_mem_of_ne_nil _ (Round.window_ne_nil hpre hlong)
    have hspace := takeWhile_eq_self_iff.mp hall c hc
    rw [hwindow c hc] at hspace
    cases hspace
  · have hmem := (List.takeWhile_sublist _).subset (List.mem_of_mem_tail hbreak)
    cases hwindow newline hmem

/-! ## A line break alone in its chunk -/

/-- Two lines without letters, of the length of a chunk. -/
def starLines : PyStr :=
  List.replicate 1999 0x2a ++ (newline :: newline :: List.replicate 2000 0x2a)

theorem starLines_redacted : applyCommonRedaction ⟨.asciiOnly, []⟩ starLines = starLines := by
  apply stars_redacted
  intro c hc
  rcases List.mem_append.mp hc with hc | hc
  · exact .inl (List.eq_of_mem_replicate hc)
  · rcases List.mem_cons.mp hc with rfl | hc
    · exact .inr rfl
    · rcases List.mem_cons.mp hc with rfl | hc
      · exact .inr rfl
      · exact .inl (List.eq_of_mem_replicate hc)

theorem openFence_stars {t : PyStr} (ht : ∀ c ∈ t, c = 0x2a ∨ c = newline) :
    openFence .asciiOnly t = none := by
  have hticks : backtick ∉ t := by
    intro hmem
    rcases ht _ hmem with h | h <;> cases h
  rw [← Option.not_isSome_iff_eq_none, openFence_isSome, FenceState.behind,
    FenceState.readAll_inBlock hticks]
  exact Bool.false_ne_true

/-- The round between the two lines of stars. -/
def betweenStars : Round :=
  ⟨0, List.replicate 1999 0x2a, [], newline :: newline :: List.replicate 2000 0x2a⟩

theorem betweenStars_mem : betweenStars ∈ rounds .asciiOnly starLines := by
  have hsplit : splitPoint starLines maxDiscordMessageLen 0 = 1999 := by decide +kernel
  have htake : starLines.take 1999 = List.replicate 1999 0x2a :=
    List.take_left' List.length_replicate
  have hclosed : openFence .asciiOnly (List.replicate 1999 0x2a) = none :=
    openFence_stars fun c hc ↦ .inl (List.eq_of_mem_replicate hc)
  apply mem_rounds_second
  · decide +kernel
  · change splitAt .asciiOnly 0 starLines = _
    rw [splitAt, hsplit, htake, hclosed, List.length_replicate]
    rfl
  · exact hclosed

/-- Its last line break is right behind the first one. -/
theorem betweenStars_chunk : betweenStars.chunk .asciiOnly = [newline] := by
  have hlong : ¬ betweenStars.content.length ≤ maxDiscordMessageLen := by decide +kernel
  have hsplit : splitPoint betweenStars.content maxDiscordMessageLen 0 = 1 := by decide +kernel
  have htake : betweenStars.content.take 1 = [newline] := rfl
  have hclosed : openFence .asciiOnly [newline] = none :=
    openFence_stars fun c hc ↦ .inr (List.mem_singleton.mp hc)
  have hat : splitAt .asciiOnly betweenStars.reopened betweenStars.content = 1 := by
    change splitAt .asciiOnly 0 betweenStars.content = 1
    rw [splitAt, hsplit, htake, hclosed]
    rfl
  rw [Round.chunk, if_neg hlong, cutChunk, hat, htake, hclosed]

/-- A reply can have a chunk that is a line break and nothing else. -/
theorem star_lines_blank_chunk : ¬ ∀ (env : Redactor) (text : PyStr), text ≠ [] →
    strip text = text → ∀ chunk ∈ buildMessage env.words (applyCommonRedaction env text),
      ∃ c ∈ chunk, isSpace c = false := by
  intro h
  have hmem : [newline] ∈ buildMessage .asciiOnly
      (applyCommonRedaction ⟨.asciiOnly, []⟩ starLines) := by
    rw [starLines_redacted, buildMessage_eq_rounds]
    exact List.mem_map.mpr ⟨_, betweenStars_mem, betweenStars_chunk⟩
  obtain ⟨c, hc, hvisible⟩ := h ⟨.asciiOnly, []⟩ starLines (List.cons_ne_nil _ _)
    (by decide +kernel) [newline] hmem
  rw [List.mem_singleton.mp hc] at hvisible
  cases hvisible

end Discode

import Discode.Library.RegexRuns
import Discode.MessageRounds
import Mathlib.Data.List.TakeWhile

/-!
# Fence lines across a split

Whether a text ends inside a code block is read off it character by character, so a chunk and
the reply agree on a character as soon as they agree at the start of the chunk and on the line
that the cut falls into.
-/

set_option autoImplicit false

namespace Discode

open Regex

def isBlank : CodePoint → Bool := oneOfChars " \t"

def backtick : CodePoint := 0x60

@[simp] theorem isBlank_backtick : isBlank backtick = false := by decide

@[simp] theorem backtick_ne_newline : backtick ≠ newline := by decide

/-! ## Reading character by character -/

/-- What the current line has so far: blanks, then one or two backticks, or anything else. -/
inductive LineState where
  | blank
  | tick
  | ticks
  | other
deriving DecidableEq

/-- The text has a fence line in one of two readers: the one that is in the middle of a line with
`l` in it, and the one that starts a line. -/
def LineState.Breaks (l : LineState) (t : PyStr) : Prop :=
  l = .tick ∧ [backtick, backtick] <+: t ∨ l = .ticks ∧ [backtick] <+: t ∨
    l ≠ .blank ∧ pyStr "```" <+: t.dropWhile isBlank

structure FenceState where
  inBlock : Bool
  line : LineState
deriving DecidableEq

namespace FenceState

/-- The third backtick of a fence line opens or closes a block. -/
def read (s : FenceState) (c : CodePoint) : FenceState :=
  if c = newline then ⟨s.inBlock, .blank⟩
  else
    match s.line with
    | .blank =>
        if isBlank c then s
        else if c = backtick then ⟨s.inBlock, .tick⟩ else ⟨s.inBlock, .other⟩
    | .tick => if c = backtick then ⟨s.inBlock, .ticks⟩ else ⟨s.inBlock, .other⟩
    | .ticks => if c = backtick then ⟨!s.inBlock, .other⟩ else ⟨s.inBlock, .other⟩
    | .other => s

def readAll (s : FenceState) (text : PyStr) : FenceState := text.foldl read s

/-- The state behind a text. -/
def behind (text : PyStr) : FenceState := readAll ⟨false, .blank⟩ text

@[simp] theorem readAll_nil (s : FenceState) : s.readAll [] = s := rfl

@[simp] theorem readAll_cons (s : FenceState) (c : CodePoint) (t : PyStr) :
    s.readAll (c :: t) = (s.read c).readAll t := rfl

theorem readAll_append (s : FenceState) (t t' : PyStr) :
    s.readAll (t ++ t') = (s.readAll t).readAll t' := List.foldl_append

theorem behind_append (t t' : PyStr) : behind (t ++ t') = (behind t).readAll t' :=
  readAll_append ..

@[simp] theorem read_newline (s : FenceState) : s.read newline = ⟨s.inBlock, .blank⟩ := if_pos rfl

theorem read_other {c : CodePoint} (hc : c ≠ newline) (b : Bool) :
    FenceState.read ⟨b, .other⟩ c = ⟨b, .other⟩ := if_neg hc

theorem isBlank_ne_newline {c : CodePoint} (h : isBlank c = true) : c ≠ newline := by
  rintro rfl
  exact absurd h (by decide)

theorem read_blank {c : CodePoint} (h : isBlank c = true) (b : Bool) :
    FenceState.read ⟨b, .blank⟩ c = ⟨b, .blank⟩ := by
  rw [read, if_neg (isBlank_ne_newline h)]
  exact if_pos h

theorem readAll_other {t : PyStr} (h : newline ∉ t) (b : Bool) :
    FenceState.readAll ⟨b, .other⟩ t = ⟨b, .other⟩ := by
  induction t with
  | nil => rfl
  | cons c t ih =>
      have hc : c ≠ newline := (List.ne_of_not_mem_cons h).symm
      rw [readAll_cons, read_other hc, ih (List.not_mem_of_not_mem_cons h)]

theorem readAll_blank {t : PyStr} (h : ∀ c ∈ t, isBlank c = true) (b : Bool) :
    FenceState.readAll ⟨b, .blank⟩ t = ⟨b, .blank⟩ := by
  induction t with
  | nil => rfl
  | cons c t ih =>
      obtain ⟨hc, ht⟩ := List.forall_mem_cons.mp h
      rw [readAll_cons, read_blank hc, ih ht]

theorem readAll_fence {tag : PyStr} (h : newline ∉ tag) (b : Bool) :
    FenceState.readAll ⟨b, .blank⟩ (pyStr "```" ++ tag) = ⟨!b, .other⟩ := by
  have hticks : FenceState.readAll ⟨b, .blank⟩ (pyStr "```") = ⟨!b, .other⟩ := rfl
  rw [readAll_append, hticks, readAll_other h]

/-- Only backticks open or close a block. -/
theorem readAll_inBlock {t : PyStr} (h : backtick ∉ t) : ∀ s : FenceState,
    (s.readAll t).inBlock = s.inBlock := by
  induction t with
  | nil => exact fun _ ↦ rfl
  | cons c t ih =>
      intro s
      have hc : c ≠ backtick := (List.ne_of_not_mem_cons h).symm
      have hread : (s.read c).inBlock = s.inBlock := by
        obtain ⟨b, l⟩ := s
        by_cases hnewline : c = newline
        · rw [hnewline, read_newline]
        · cases l <;> cases hblank : isBlank c <;> simp [read, hnewline, hblank, hc]
      rw [readAll_cons, ih (List.not_mem_of_not_mem_cons h), hread]

/-! ## Two readers of one text -/

/-- Two readers agree on a text at every position. -/
def Same (s s' : FenceState) (t : PyStr) : Prop :=
  ∀ k ≤ t.length, (s.readAll (t.take k)).inBlock = (s'.readAll (t.take k)).inBlock

variable {s s' : FenceState} {t : PyStr} {b : Bool}

theorem Same.refl (s : FenceState) (t : PyStr) : Same s s t := fun _ _ ↦ rfl

theorem Same.start (h : Same s s' t) : s.inBlock = s'.inBlock := h 0 (Nat.zero_le _)

theorem Same.all (h : Same s s' t) : (s.readAll t).inBlock = (s'.readAll t).inBlock := by
  have hall := h t.length le_rfl
  rwa [List.take_length] at hall

theorem same_nil : Same s s' [] ↔ s.inBlock = s'.inBlock := by
  refine ⟨Same.start, fun h k _ ↦ ?_⟩
  rw [List.take_nil]
  exact h

theorem same_cons {c : CodePoint} :
    Same s s' (c :: t) ↔ s.inBlock = s'.inBlock ∧ Same (s.read c) (s'.read c) t := by
  constructor
  · exact fun h ↦ ⟨h.start, fun k hk ↦ h (k + 1) (Nat.succ_le_succ hk)⟩
  · rintro ⟨hstart, hrest⟩ k hk
    cases k with
    | zero => exact hstart
    | succ k => exact hrest k (Nat.le_of_succ_le_succ hk)

theorem same_of_read {c : CodePoint} (h : s.inBlock = s'.inBlock) (hread : s.read c = s'.read c) :
    Same s s' (c :: t) :=
  same_cons.mpr ⟨h, hread ▸ .refl _ t⟩

theorem not_same (b : Bool) (l l' : LineState) (t : PyStr) : ¬ Same ⟨!b, l⟩ ⟨b, l'⟩ t := by
  intro h
  cases b <;> cases h.start

theorem Same.symm (h : Same s s' t) : Same s' s t := fun k hk ↦ (h k hk).symm

/-- Behind anything but a backtick it no longer matters how many there were. -/
theorem read_eq {c : CodePoint} {l l' : LineState} (hc : c ≠ backtick)
    (hl : isBlank c = true → l ≠ .blank ∧ l' ≠ .blank) (b : Bool) :
    FenceState.read ⟨b, l⟩ c = FenceState.read ⟨b, l'⟩ c := by
  by_cases hnewline : c = newline
  · rw [hnewline, read_newline, read_newline]
  · cases hblank : isBlank c with
    | true =>
        obtain ⟨hl, hl'⟩ := hl hblank
        cases l <;> cases l' <;> simp_all [read]
    | false => cases l <;> cases l' <;> simp [read, hnewline, hblank, hc]

@[simp] theorem read_backtick_blank (b : Bool) :
    FenceState.read ⟨b, .blank⟩ backtick = ⟨b, .tick⟩ := rfl

@[simp] theorem read_backtick_tick (b : Bool) :
    FenceState.read ⟨b, .tick⟩ backtick = ⟨b, .ticks⟩ := rfl

@[simp] theorem read_backtick_ticks (b : Bool) :
    FenceState.read ⟨b, .ticks⟩ backtick = ⟨!b, .other⟩ := rfl

@[simp] theorem read_backtick_other (b : Bool) :
    FenceState.read ⟨b, .other⟩ backtick = ⟨b, .other⟩ := rfl

/-- One backtick short of a fence line, and not that close to one. -/
theorem same_ticks {l : LineState} (hl : l = .tick ∨ l = .other) :
    Same ⟨b, .ticks⟩ ⟨b, l⟩ t ↔ ¬ [backtick] <+: t := by
  have hne : l ≠ .blank := by rcases hl with rfl | rfl <;> decide
  cases t with
  | nil => simp [same_nil]
  | cons c t =>
      rw [List.cons_prefix_cons]
      by_cases hc : c = backtick
      · subst hc
        rw [same_cons, read_backtick_ticks]
        simp only [List.nil_prefix, and_self, not_true_eq_false, iff_false]
        rintro ⟨-, hrest⟩
        rcases hl with rfl | rfl <;> exact not_same b _ _ t hrest
      · have hsame : Same ⟨b, .ticks⟩ ⟨b, l⟩ (c :: t) :=
          same_of_read rfl (read_eq hc (fun _ ↦ ⟨by decide, hne⟩) b)
        simp [hsame, Ne.symm hc]

/-- Two backticks short. -/
theorem same_tick : Same ⟨b, .tick⟩ ⟨b, .other⟩ t ↔ ¬ [backtick, backtick] <+: t := by
  cases t with
  | nil => simp [same_nil]
  | cons c t =>
      rw [List.cons_prefix_cons]
      by_cases hc : c = backtick
      · subst hc
        rw [same_cons, read_backtick_tick, read_backtick_other, same_ticks (.inr rfl)]
        simp
      · have hsame : Same ⟨b, .tick⟩ ⟨b, .other⟩ (c :: t) :=
          same_of_read rfl (read_eq hc (fun _ ↦ ⟨by decide, by decide⟩) b)
        simp [hsame, Ne.symm hc]

/-- At the start of a line, and in the middle of one. -/
theorem same_blank_other : Same ⟨b, .blank⟩ ⟨b, .other⟩ t ↔
    ¬ pyStr "```" <+: t.dropWhile isBlank := by
  induction t with
  | nil => simp [same_nil, pyStr]
  | cons c t ih =>
      cases hblank : isBlank c with
      | true =>
          have hother := read_other (isBlank_ne_newline hblank) b
          rw [same_cons, read_blank hblank, hother, List.dropWhile_cons_of_pos hblank, ih]
          simp
      | false =>
          rw [List.dropWhile_cons_of_neg (by simp [hblank])]
          change _ ↔ ¬ backtick :: [backtick, backtick] <+: c :: t
          rw [List.cons_prefix_cons]
          by_cases hc : c = backtick
          · subst hc
            rw [same_cons, read_backtick_blank, read_backtick_other, same_tick]
            simp
          · have hsame : Same ⟨b, .blank⟩ ⟨b, .other⟩ (c :: t) :=
              same_of_read rfl (read_eq hc (fun h ↦ absurd h (by simp [hblank])) b)
            simp [hsame, Ne.symm hc]

theorem same_other_blank : Same ⟨b, .other⟩ ⟨b, .blank⟩ t ↔
    ¬ pyStr "```" <+: t.dropWhile isBlank := by
  rw [← same_blank_other (b := b)]
  exact ⟨Same.symm, Same.symm⟩

/-- Readers in the middle of a line and at the start of one, on a text that starts with a blank. -/
theorem same_blank_cons {c : CodePoint} {l : LineState} (hblank : isBlank c = true)
    (hl : l ≠ .blank) : Same ⟨b, l⟩ ⟨b, .blank⟩ (c :: t) ↔
      ¬ pyStr "```" <+: (c :: t).dropWhile isBlank := by
  have hc : c ≠ backtick := by
    rintro rfl
    exact absurd hblank (by decide)
  have hmid : FenceState.read ⟨b, l⟩ c = FenceState.read ⟨b, .other⟩ c :=
    read_eq hc (fun _ ↦ ⟨hl, by decide⟩) b
  rw [same_cons, hmid, read_other (isBlank_ne_newline hblank), read_blank hblank,
    same_other_blank, List.dropWhile_cons_of_pos hblank]
  simp

/-- The same on a text that starts with a backtick. -/
theorem same_backtick_cons {l : LineState} (hl : l ≠ .blank) :
    Same ⟨b, l⟩ ⟨b, .blank⟩ (backtick :: t) ↔
      ¬ (l = .tick ∧ [backtick] <+: t ∨ l = .ticks ∨ [backtick, backtick] <+: t) := by
  rw [same_cons, read_backtick_blank]
  cases l with
  | blank => exact absurd rfl hl
  | tick =>
      have hshort : [backtick, backtick] <+: t → [backtick] <+: t :=
        (List.prefix_append [backtick] [backtick]).trans
      rw [read_backtick_tick, same_ticks (.inl rfl)]
      simp
      exact fun h h' ↦ h (hshort h')
  | ticks =>
      rw [read_backtick_ticks]
      simp [not_same b]
  | other =>
      have hsymm : Same ⟨b, .other⟩ ⟨b, .tick⟩ t ↔ Same ⟨b, .tick⟩ ⟨b, .other⟩ t :=
        ⟨Same.symm, Same.symm⟩
      rw [read_backtick_other, hsymm, same_tick]
      simp

/-- A reader in the middle of a line and one that starts there agree on the rest of the text unless
it makes a fence line for one of them. -/
theorem same_start_iff (l : LineState) : Same ⟨b, l⟩ ⟨b, .blank⟩ t ↔ ¬ l.Breaks t := by
  unfold LineState.Breaks
  by_cases hl : l = .blank
  · simp [hl, Same.refl]
  · cases t with
    | nil => simp [same_nil, pyStr]
    | cons c t =>
        by_cases hc : c = backtick
        · subst hc
          rw [same_backtick_cons hl, List.dropWhile_cons_of_neg (by decide),
            show pyStr "```" = backtick :: [backtick, backtick] from rfl, List.cons_prefix_cons,
            List.cons_prefix_cons, List.cons_prefix_cons]
          simp [hl]
        · rw [List.cons_prefix_cons, List.cons_prefix_cons]
          cases hblank : isBlank c with
          | true =>
              rw [same_blank_cons hblank hl]
              simp [hl, Ne.symm hc]
          | false =>
              have hsame : Same ⟨b, l⟩ ⟨b, .blank⟩ (c :: t) :=
                same_of_read rfl (read_eq hc (fun h ↦ absurd h (by simp [hblank])) b)
              have hmiss : ¬ pyStr "```" <+: (c :: t).dropWhile isBlank := by
                rw [List.dropWhile_cons_of_neg (by simp [hblank])]
                exact fun h ↦ hc (List.cons_prefix_cons.mp h).1.symm
              simp [hsame, hmiss, Ne.symm hc]

end FenceState

/-! ## The line that a cut falls into -/

/-- What stands behind the last line break. -/
def lastLine (text : PyStr) : PyStr := (text.reverse.takeWhile (· != newline)).reverse

def lineState (line : PyStr) : LineState :=
  if line.dropWhile isBlank = [] then .blank
  else if line.dropWhile isBlank = pyStr "`" then .tick
  else if line.dropWhile isBlank = pyStr "``" then .ticks
  else .other

theorem lastLine_newline (t : PyStr) : lastLine (t ++ [newline]) = [] := by
  rw [lastLine, List.reverse_append]
  rfl

theorem lastLine_append {c : CodePoint} (hc : c ≠ newline) (t : PyStr) :
    lastLine (t ++ [c]) = lastLine t ++ [c] := by
  rw [lastLine, List.reverse_append, List.reverse_singleton, List.singleton_append,
    List.takeWhile_cons_of_pos (by simpa using hc), List.reverse_cons]
  rfl

theorem lineState_append {c : CodePoint} (hc : c ≠ newline) (line : PyStr) (b : Bool) :
    lineState (line ++ [c]) = (FenceState.read ⟨b, lineState line⟩ c).line := by
  have htick : pyStr "`" = [backtick] := rfl
  have hticks : pyStr "``" = [backtick, backtick] := rfl
  unfold lineState
  rw [List.dropWhile_append, htick, hticks]
  generalize line.dropWhile isBlank = d
  rcases d with _ | ⟨x, _ | ⟨y, d⟩⟩
  · cases hblank : isBlank c with
    | true => simp [FenceState.read_blank hblank, hblank]
    | false => by_cases hb : c = backtick <;> simp [FenceState.read, hc, hblank, hb]
  · by_cases hx : x = backtick <;> by_cases hb : c = backtick <;>
      simp [FenceState.read, hc, hx, hb]
  · by_cases hy : x = backtick ∧ y = backtick ∧ d = []
    · by_cases hb : c = backtick <;> simp [FenceState.read, hc, hy, hb]
    · simp [FenceState.read, hc, hy]

theorem behind_line (text : PyStr) : (FenceState.behind text).line = lineState (lastLine text) := by
  induction text using List.reverseRecOn with
  | nil => rfl
  | append_singleton t c ih =>
      rw [FenceState.behind_append, FenceState.readAll_cons, FenceState.readAll_nil]
      by_cases hc : c = newline
      · subst hc
        rw [lastLine_newline, FenceState.read_newline]
        rfl
      · rw [lastLine_append hc, lineState_append hc _ (FenceState.behind t).inBlock, ← ih]

/-! ## The fence lines that the pattern finds -/

/-- The characters of a language tag. -/
def isTagChar (u : WordChars) (c : CodePoint) : Bool := u.isWord c || oneOfChars "+#.-" c

theorem newline_not_mem_tag {u : WordChars} {tag : PyStr} (h : ∀ c ∈ tag, isTagChar u c = true) :
    newline ∉ tag := by
  intro hmem
  have hnewline : isTagChar u newline = false := (fenceLine_stopsAt u).2
  rw [h _ hmem] at hnewline
  cases hnewline

/-- The position is at the start of a line. -/
def StartsLine (c : Cursor CodePoint) : Prop := c.before.head?.all (· == newline) = true

theorem mem_fenceLine_keep {u : WordChars} {c k : Cursor CodePoint} :
    k ∈ (fenceLine u).keep.ends c ↔ StartsLine c ∧ ∃ w, (∀ a ∈ w, isBlank a = true) ∧
      c.after = w ++ (pyStr "```" ++ k.after) ∧
      k.before = (pyStr "```").reverse ++ (w.reverse ++ c.before) := by
  have hkeep : (fenceLine u).keep.ends c =
      ((Regex.look fun x _ ↦ x.all (· == newline)).ends c).flatMap fun d ↦
        ((chars isBlank).ends d).flatMap (literal "```").ends := rfl
  rw [hkeep, ends]
  constructor
  · intro hk
    split at hk
    · rename_i hstart
      rw [List.flatMap_singleton] at hk
      obtain ⟨d, hd, hk⟩ := List.mem_flatMap.mp hk
      obtain ⟨w, hw, hafter, hbefore⟩ := mem_ends_run.mp hd
      obtain ⟨hticks, hkbefore⟩ := (mem_ends_word_iff _ d).mp hk
      exact ⟨hstart, w, hw, by rw [hafter, hticks], by rw [hkbefore, hbefore]⟩
    · cases hk
  · rintro ⟨hstart, w, hw, hafter, hbefore⟩
    have hrun : (⟨w.reverse ++ c.before, pyStr "```" ++ k.after⟩ : Cursor CodePoint) ∈
        (chars isBlank).ends c := mem_ends_run.mpr ⟨w, hw, hafter, rfl⟩
    rw [if_pos (show c.before.head?.all (· == newline) = true from hstart),
      List.flatMap_singleton]
    exact List.mem_flatMap.mpr ⟨_, hrun, (mem_ends_word_iff _ _).mpr ⟨rfl, hbefore⟩⟩

/-- What is known of a match. -/
theorem fenceLine_hit {u : WordChars} {c k e : Cursor CodePoint}
    (h : (fenceLine u).match? c = some (k, e)) :
    StartsLine c ∧ ∃ w tag, (∀ a ∈ w, isBlank a = true) ∧ (∀ a ∈ tag, isTagChar u a = true) ∧
      c.after = w ++ (pyStr "```" ++ (tag ++ e.after)) ∧ k.upTo e = tag ∧ ¬ StartsLine e := by
  obtain ⟨hk, he⟩ := Rule.mem_of_match? h
  obtain ⟨hstart, w, hw, hafter, hkbefore⟩ := mem_fenceLine_keep.mp hk
  obtain ⟨tag, htag, hkafter, hbefore⟩ := mem_ends_run.mp he
  refine ⟨hstart, w, tag, hw, htag, by rw [hafter, hkafter], Cursor.upTo_of_append hkafter, ?_⟩
  intro hline
  have hhead : ∃ c, e.before.head? = some c ∧ c ≠ newline := by
    rw [hbefore]
    rcases List.eq_nil_or_concat tag with rfl | ⟨tag, c, rfl⟩
    · exact ⟨backtick, by rw [hkbefore]; rfl, backtick_ne_newline⟩
    · refine ⟨c, by simp, ?_⟩
      rintro rfl
      exact newline_not_mem_tag htag (by simp)
  obtain ⟨c, hc, hne⟩ := hhead
  rw [StartsLine, hc] at hline
  exact hne (beq_iff_eq.mp hline)

/-- There is a match wherever a fence line starts. -/
theorem fenceLine_match?_isSome {u : WordChars} {c : Cursor CodePoint} (hstart : StartsLine c)
    (h : pyStr "```" <+: c.after.dropWhile isBlank) : ((fenceLine u).match? c).isSome := by
  obtain ⟨rest, hrest⟩ := h
  have hkeep : (⟨(pyStr "```").reverse ++ ((c.after.takeWhile isBlank).reverse ++ c.before), rest⟩ :
      Cursor CodePoint) ∈ (fenceLine u).keep.ends c := by
    refine mem_fenceLine_keep.mpr ⟨hstart, c.after.takeWhile isBlank, ?_, ?_, rfl⟩
    · exact fun a ha ↦ List.mem_takeWhile_imp ha
    · rw [hrest, List.takeWhile_append_dropWhile]
  exact Rule.match?_isSome hkeep (mem_ends_run.mpr (.refl _ _))

/-- What the pieces of a text do to being in a block. -/
def flip (inBlock : Bool) : Piece CodePoint → Bool
  | .copy _ => inBlock
  | .hit _ _ => !inBlock

theorem foldl_fenceStep_isSome (ps : List (Piece CodePoint)) : ∀ opener : Option PyStr,
    (ps.foldl fenceStep opener).isSome = ps.foldl flip opener.isSome := by
  induction ps with
  | nil => exact fun _ ↦ rfl
  | cons p ps ih =>
      intro opener
      rw [List.foldl_cons, List.foldl_cons, ih]
      congr 1
      cases p with
      | copy a => rfl
      | hit keep tag => cases opener <;> rfl

/-- At the start of a line the scan goes on as a reader there does, elsewhere as one in the middle
of a line. -/
theorem scan_flip (u : WordChars) (n : ℕ) : ∀ (c : Cursor CodePoint) (b : Bool),
    c.after.length ≤ n →
    (StartsLine c → ((fenceLine u).scan n c).foldl flip b =
      (FenceState.readAll ⟨b, .blank⟩ c.after).inBlock) ∧
    (¬ StartsLine c → ((fenceLine u).scan n c).foldl flip b =
      (FenceState.readAll ⟨b, .other⟩ c.after).inBlock) := by
  induction n with
  | zero =>
      intro c b hn
      rw [List.eq_nil_of_length_eq_zero (Nat.le_zero.mp hn)]
      exact ⟨fun _ ↦ rfl, fun _ ↦ rfl⟩
  | succ n ih =>
      intro c b hn
      have hstep := (fenceLine u).scan_step n c
      generalize (fenceLine u).scan (n + 1) c = ps at hstep ⊢
      cases hstep with
      | stop hafter =>
          rw [hafter]
          exact ⟨fun _ ↦ rfl, fun _ ↦ rfl⟩
      | @copy a as hafter hmiss =>
          rw [hafter] at hn
          obtain ⟨hline, hmid⟩ := ih ⟨a :: c.before, as⟩ b (Nat.le_of_succ_le_succ hn)
          have hother : ((fenceLine u).scan n ⟨a :: c.before, as⟩).foldl flip b =
              (FenceState.readAll ⟨b, .other⟩ (a :: as)).inBlock := by
            rw [FenceState.readAll_cons]
            by_cases ha : a = newline
            · subst ha
              rw [FenceState.read_newline]
              exact hline rfl
            · rw [FenceState.read_other ha]
              exact hmid fun h ↦ ha (beq_iff_eq.mp h)
          refine ⟨fun hstart ↦ ?_, fun _ ↦ ?_⟩
          · have hnone : ¬ pyStr "```" <+: (a :: as).dropWhile isBlank := by
              intro hpre
              rw [← hafter] at hpre
              have hsome := fenceLine_match?_isSome (u := u) hstart hpre
              obtain ⟨⟨k, e⟩, hmatch⟩ := Option.isSome_iff_exists.mp hsome
              obtain ⟨-, w, tag, -, -, htext, -⟩ := fenceLine_hit hmatch
              refine hmiss k e hmatch ?_
              rw [htext]
              simp [pyStr]
              omega
            have hsame := (FenceState.same_blank_other (b := b)).mpr hnone
            rw [hafter, hsame.all]
            exact hother
          · rw [hafter]
            exact hother
      | @hit k e hmatch hlt =>
          obtain ⟨hstart, w, tag, hw, htag, hafter, -, hmid⟩ := fenceLine_hit hmatch
          refine ⟨fun _ ↦ ?_, fun h ↦ absurd hstart h⟩
          have hread : FenceState.readAll ⟨b, .blank⟩ c.after =
              FenceState.readAll ⟨!b, .other⟩ e.after := by
            rw [hafter, FenceState.readAll_append, FenceState.readAll_blank hw, ← List.append_assoc,
              FenceState.readAll_append, FenceState.readAll_fence (newline_not_mem_tag htag)]
          rw [hread]
          exact (ih e (!b) (by omega)).2 hmid

/-- Whether a text ends in a code block. -/
theorem openFence_isSome (u : WordChars) (text : PyStr) :
    (openFence u text).isSome = (FenceState.behind text).inBlock := by
  rw [openFence_eq_foldl, foldl_fenceStep_isSome]
  exact (scan_flip u text.length (.start text) false le_rfl).1 rfl

end Discode

import Discode.Library.RegexMarks
import Discode.Redaction

/-!
# Assignments to secret keys

A quoted value behind a key name, and what the rule for assignments matches there: whatever a match
starts with, it keeps the key and what stands between key and value, and it takes the value as far
as value characters go.
-/

set_option autoImplicit false

namespace Discode

open Regex

/-! ## Assignments -/

def isQuote : CodePoint → Bool := oneOfChars "\"'"

def isSeparator : CodePoint → Bool := oneOfChars ":="

/-- An optional quote. -/
def OptQuote (s : PyStr) : Prop := s = [] ∨ ∃ q, isQuote q = true ∧ s = [q]

/-- A key name, an optional quote behind it, and `:` or `=` between optional blanks.  A quote in
front of the key belongs to the text before it. -/
structure AssignmentFront where
  key : PyStr
  closing : PyStr
  blanks : PyStr
  separator : CodePoint
  gap : PyStr
  key_name : secretKeyName.Matches key
  closing_quote : OptQuote closing
  blanks_space : ∀ c ∈ blanks, isSpace c = true
  separator_char : isSeparator separator = true
  gap_space : ∀ c ∈ gap, isSpace c = true

/-- What the rule keeps of an assignment. -/
def AssignmentFront.kept (f : AssignmentFront) : PyStr :=
  f.key ++ (f.closing ++ (f.blanks ++ f.separator :: f.gap))

/-- A value in quotes behind it. -/
structure QuotedAssignment extends AssignmentFront where
  quote : CodePoint
  value : PyStr
  quote_char : isQuote quote = true
  value_free : quote ∉ value ∧ 0x0a ∉ value

namespace QuotedAssignment

variable (a : QuotedAssignment)

/-- What stands between the key and the value. -/
def between : PyStr := a.closing ++ (a.blanks ++ (a.separator :: (a.gap ++ [a.quote])))

def text (pre post : PyStr) : PyStr :=
  pre ++ (a.key ++ (a.between ++ (a.value ++ a.quote :: post)))

end QuotedAssignment

/-- There is a word boundary between the two texts. -/
def Boundary (u : WordChars) (pre key : PyStr) : Prop :=
  (pre.getLast?.any u.isWord != key.head?.any u.isWord) = true

/-! ## Key names -/

/-- The characters of key names; the last four are letters under `(?i)`. -/
def isNameChar (c : CodePoint) : Bool :=
  isKeyChar c || c == 0x130 || c == 0x131 || c == 0x17f || c == 0x212a

theorem isNameChar_range {c : ℕ} (h : isNameChar c = true) :
    c < 0x80 ∨ c = 0x130 ∨ c = 0x131 ∨ c = 0x17f ∨ c = 0x212a := by
  simp [isNameChar, isKeyChar, isAlnum, isDigit, isUpper, isLower, oneOfChars, pyStr] at h
  grind

theorem isNameChar_other {c : CodePoint} (h : isNameChar c = true) :
    isSpace c = false ∧ isQuote c = false ∧ isSeparator c = false := by
  have hascii : ∀ c < 0x80, isNameChar c = true →
      isSpace c = false ∧ isQuote c = false ∧ isSeparator c = false := by decide +kernel
  rcases isNameChar_range h with hc | rfl | rfl | rfl | rfl
  · exact hascii c hc h
  all_goals decide

theorem other_not_name {c : CodePoint}
    (h : isSpace c = true ∨ isQuote c = true ∨ isSeparator c = true) : isNameChar c = false := by
  by_contra hname
  obtain ⟨hspace, hquote, hsep⟩ := isNameChar_other (Bool.not_eq_false _ ▸ hname)
  simp [hspace, hquote, hsep] at h

theorem sameIgnoreCase_name {letter c : ℕ} (hletter : isLower letter = true)
    (h : sameIgnoreCase letter c = true) : isNameChar c = true := by
  simp [sameIgnoreCase, isLower] at hletter h
  simp [isNameChar, isKeyChar, isAlnum, isDigit, isUpper, isLower, oneOfChars, pyStr]
  grind

theorem within_literal {p : CodePoint → Bool} (s : String) (h : (pyStr s).all p = true) :
    (literal s).Within p := by
  apply within_all
  intro r hr
  obtain ⟨a, ha, rfl⟩ := List.mem_map.mp hr
  intro c hc
  rw [beq_iff_eq.mp hc]
  exact List.all_eq_true.mp h a ha

theorem within_literalIgnoreCase (s : String) (h : (pyStr s).all isLower = true) :
    (literalIgnoreCase s).Within isNameChar := by
  apply within_all
  intro r hr
  obtain ⟨a, ha, rfl⟩ := List.mem_map.mp hr
  exact fun c hc ↦ sameIgnoreCase_name (List.all_eq_true.mp h a ha) hc

theorem lookFree_word (g : CodePoint → CodePoint → Bool) (l : PyStr) :
    (all (l.map fun a ↦ Regex.char (g a))).LookFree := by
  apply lookFree_all
  intro r hr
  obtain ⟨a, -, rfl⟩ := List.mem_map.mp hr
  trivial

theorem isKeyChar_name {c : CodePoint} (h : isKeyChar c = true) : isNameChar c = true := by
  simp [isNameChar, h]

theorem isEnvChar_name {c : ℕ} (h : isEnvChar c = true) : isNameChar c = true := by
  apply isKeyChar_name
  simp [isEnvChar, isKeyChar, isAlnum, isDigit, isUpper, isLower, oneOfChars, pyStr] at h ⊢
  grind

theorem secretWord_within : secretWord.Within isNameChar := by
  have hdash : ∀ c, oneOfChars "_-" c = true → isNameChar c = true := by
    intro c hc
    apply isKeyChar_name
    simp [isKeyChar, oneOfChars, pyStr] at hc ⊢
    tauto
  have hword := within_literalIgnoreCase
  exact ⟨hword "token" (by decide), hword "secret" (by decide),
    ⟨hword "passw" (by decide), ⟨hword "or" (by decide), trivial⟩, hword "d" (by decide)⟩,
    ⟨hword "api" (by decide), ⟨hdash, trivial⟩, hword "key" (by decide)⟩,
    ⟨hword "credential" (by decide), hword "s" (by decide), trivial⟩,
    hword "private" (by decide), ⟨hdash, trivial⟩, hword "key" (by decide)⟩

theorem secretKeyName_within : secretKeyName.Within isNameChar := by
  have hkey : (chars isKeyChar).Within isNameChar := fun c hc ↦ isKeyChar_name hc
  have henv : (chars isEnvChar).Within isNameChar := fun c hc ↦ isEnvChar_name hc
  have hword := fun s ↦ within_literal (p := isNameChar) s
  exact ⟨⟨hkey, secretWord_within, hkey⟩, henv,
    ⟨hword "_AUTH" (by decide), hword "_KEY" (by decide), hword "AUTH_" (by decide)⟩, henv⟩

theorem secretKeyName_lookFree : secretKeyName.LookFree := by
  have hword := fun s ↦ lookFree_word sameIgnoreCase (pyStr s)
  have hexact := fun s ↦ lookFree_word (fun a c ↦ c == a) (pyStr s)
  exact ⟨⟨trivial, ⟨hword "token", hword "secret",
    ⟨hword "passw", ⟨hword "or", trivial⟩, hword "d"⟩,
    ⟨hword "api", ⟨trivial, trivial⟩, hword "key"⟩, ⟨hword "credential", hword "s", trivial⟩,
    hword "private", ⟨trivial, trivial⟩, hword "key"⟩, trivial⟩,
    trivial, ⟨hexact "_AUTH", hexact "_KEY", hexact "AUTH_"⟩, trivial⟩

theorem secretKeyName_stopsAt {b : CodePoint} (hb : isNameChar b = false) :
    secretKeyName.StopsAt b :=
  stopsAt_of_within hb _ secretKeyName_within secretKeyName_lookFree

theorem quote_not_space {c : CodePoint} (h : isQuote c = true) : isSpace c = false := by
  have hc : c = 0x22 ∨ c = 0x27 := by simpa [isQuote, oneOfChars, pyStr] using h
  rcases hc with rfl | rfl <;> decide

theorem quote_not_value {c : CodePoint} (h : isQuote c = true) : isValueChar c = false := by
  have hc : c = 0x22 ∨ c = 0x27 := by simpa [isQuote, oneOfChars, pyStr] using h
  rcases hc with rfl | rfl <;> decide

theorem value_not_space {c : CodePoint} (h : isValueChar c = true) : isSpace c = false := by
  cases hc : isSpace c with
  | false => rfl
  | true => simp [isValueChar, hc] at h

theorem space_not_separator {c : CodePoint} (h : isSpace c = true) : isSeparator c = false := by
  by_contra hsep
  rw [Bool.not_eq_false] at hsep
  have hsep : c = 0x3a ∨ c = 0x3d := by simpa [isSeparator, oneOfChars, pyStr] using hsep
  rcases hsep with rfl | rfl <;> cases h

theorem quote_not_separator {c : CodePoint} (h : isQuote c = true) : isSeparator c = false := by
  have hc : c = 0x22 ∨ c = 0x27 := by simpa [isQuote, oneOfChars, pyStr] using h
  rcases hc with rfl | rfl <;> decide

namespace AssignmentFront

variable {a : AssignmentFront}

theorem key_names : ∀ c ∈ a.key, isNameChar c = true := by
  obtain ⟨e, he, hend⟩ := a.key_name
  obtain ⟨w, hw, hafter, -⟩ := runs_of_within _ secretKeyName_within _ _ he
  rw [hend, List.append_nil] at hafter
  rw [← hafter] at hw
  exact hw

theorem key_ne_nil (a : AssignmentFront) : a.key ≠ [] := by
  intro hnil
  obtain ⟨e, he, -⟩ := a.key_name
  rw [hnil] at he
  cases he

theorem front_free : ∀ c ∈ a.key ++ (a.closing ++ a.blanks), isSeparator c = false := by
  intro c hc
  rcases List.mem_append.mp hc with hc | hc
  · exact (isNameChar_other (a.key_names c hc)).2.2
  · rcases List.mem_append.mp hc with hc | hc
    · rcases a.closing_quote with hnil | ⟨q, hq, hclosing⟩
      · rw [hnil] at hc
        cases hc
      · rw [hclosing, List.mem_singleton] at hc
        rw [hc, quote_not_separator hq]
    · exact space_not_separator (a.blanks_space c hc)

theorem behind_key (a : AssignmentFront) :
    ∃ b t, a.closing ++ (a.blanks ++ a.separator :: a.gap) = b :: t ∧ isNameChar b = false := by
  rcases a.closing_quote with hclosing | ⟨q, hq, hclosing⟩
  · cases hblanks : a.blanks with
    | nil =>
        refine ⟨a.separator, a.gap, ?_, other_not_name (.inr (.inr a.separator_char))⟩
        rw [hclosing]
        rfl
    | cons b blanks =>
        have hb := a.blanks_space b (hblanks ▸ List.mem_cons_self)
        refine ⟨b, blanks ++ a.separator :: a.gap, ?_, other_not_name (.inl hb)⟩
        rw [hclosing]
        rfl
  · refine ⟨q, a.blanks ++ a.separator :: a.gap, ?_, other_not_name (.inr (.inl hq))⟩
    rw [hclosing]
    rfl

end AssignmentFront

/-! ## What the rule matches -/

theorem optQuote_of_ends {c d : Cursor CodePoint} (h : d ∈ (opt quote).ends c) :
    ∃ s, OptQuote s ∧ c.after = s ++ d.after ∧ d.before = s.reverse ++ c.before := by
  rcases List.mem_append.mp h with h | h
  · obtain ⟨q, hafter, hq, hbefore⟩ := mem_ends_char.mp h
    exact ⟨[q], .inr ⟨q, hq, rfl⟩, hafter, hbefore⟩
  · rw [List.mem_singleton.mp h]
    exact ⟨[], .inl rfl, rfl, rfl⟩

/-- What the rule redacts is a run of value characters between optional quotes. -/
theorem run_of_secret {u : WordChars} {k e : Cursor CodePoint}
    (he : e ∈ (assignmentRule u).secret.ends k) : ∃ opening c w closing, OptQuote opening ∧
      (∀ b ∈ c :: w, isValueChar b = true) ∧ OptQuote closing ∧
        k.after = opening ++ (c :: w ++ (closing ++ e.after)) := by
  obtain ⟨d, hd, he⟩ := List.mem_flatMap.mp he
  obtain ⟨d', hd', he⟩ := List.mem_flatMap.mp he
  obtain ⟨d'', hchar, hrun⟩ := List.mem_flatMap.mp hd'
  obtain ⟨opening, hopening, hafter, -⟩ := optQuote_of_ends hd
  obtain ⟨c, hafter₁, hc, -⟩ := mem_ends_char.mp hchar
  obtain ⟨w, hw, hafter₂, -⟩ := mem_ends_run.mp hrun
  obtain ⟨closing, hclosing, hafter₃, -⟩ := optQuote_of_ends he
  refine ⟨opening, c, w, closing, hopening, List.forall_mem_cons.mpr ⟨hc, hw⟩, hclosing, ?_⟩
  rw [hafter, hafter₁, hafter₂, hafter₃]
  rfl

/-- What the rule keeps is the front of an assignment, at a word boundary, with at most a quote
before it. -/
theorem front_of_keep {u : WordChars} {c k : Cursor CodePoint}
    (hk : k ∈ (assignmentRule u).keep.ends c) : ∃ (q : PyStr) (f : AssignmentFront), OptQuote q ∧
      c.after = q ++ (f.kept ++ k.after) ∧ Boundary u (c.before.reverse ++ q) f.key := by
  obtain ⟨d₁, h₁, hk⟩ := List.mem_flatMap.mp hk
  obtain ⟨d₂, h₂, hk⟩ := List.mem_flatMap.mp hk
  obtain ⟨d₃, h₃, hk⟩ := List.mem_flatMap.mp hk
  obtain ⟨d₄, h₄, hk⟩ := List.mem_flatMap.mp hk
  obtain ⟨d₅, h₅, hk⟩ := List.mem_flatMap.mp hk
  obtain ⟨d₆, h₆, hk⟩ := List.mem_flatMap.mp hk
  obtain ⟨q, hq, hafter₁, hbefore₁⟩ := optQuote_of_ends h₁
  obtain ⟨key, hafter₃, -⟩ := ends_leads _ _ _ h₃
  obtain ⟨closing, hclosing, hafter₄, -⟩ := optQuote_of_ends h₄
  obtain ⟨blanks, hblanks, hafter₅, -⟩ := mem_ends_run.mp h₅
  obtain ⟨separator, hafter₆, hseparator, -⟩ := mem_ends_char.mp h₆
  obtain ⟨gap, hgap, hafter, -⟩ := mem_ends_run.mp hk
  rw [wordBoundary, ends] at h₂
  split at h₂
  · rename_i hlook
    rw [List.mem_singleton] at h₂
    subst h₂
    have hbehind : d₃.after = closing ++ (blanks ++ separator :: (gap ++ k.after)) := by
      rw [hafter₄, hafter₅, hafter₆, hafter]
    obtain ⟨b, t, hb, hstop⟩ : ∃ b t, d₃.after = b :: t ∧ isNameChar b = false := by
      rw [hbehind]
      rcases hclosing with rfl | ⟨q', hq', rfl⟩
      · cases blanks with
        | nil => exact ⟨_, _, rfl, other_not_name (.inr (.inr hseparator))⟩
        | cons b blanks => exact ⟨_, _, rfl, other_not_name (.inl (hblanks b List.mem_cons_self))⟩
      · exact ⟨_, _, rfl, other_not_name (.inr (.inl hq'))⟩
    have hname : secretKeyName.Matches key := by
      obtain ⟨before, after⟩ := d₂
      change after = _ at hafter₃
      subst hafter₃
      rw [hb] at h₃
      exact Matches.of_mem_ends secretKeyName_lookFree (secretKeyName_stopsAt hstop) h₃ hb
    let f : AssignmentFront :=
      ⟨key, closing, blanks, separator, gap, hname, hclosing, hblanks, hseparator, hgap⟩
    refine ⟨q, f, hq, ?_, ?_⟩
    · rw [hafter₁, hafter₃, hbehind]
      simp [AssignmentFront.kept, f]
    · obtain ⟨c₁, key', hcons⟩ := List.exists_cons_of_ne_nil f.key_ne_nil
      have hhead : d₂.after.head? = f.key.head? := by
        rw [hafter₃, show key = c₁ :: key' from hcons, hcons]
        rfl
      rw [hhead, hbefore₁] at hlook
      rw [Boundary, ← List.reverse_reverse q, ← List.reverse_append, List.getLast?_reverse]
      exact hlook
  · cases h₂

/-! ## Matches at an assignment -/

/-- A text is split in one way at its first symbol of `p`. -/
theorem split_unique {p : CodePoint → Bool} {x y t t' : PyStr} {b b' : CodePoint}
    (hx : ∀ c ∈ x, p c = false) (hb : p b = true) (hy : ∀ c ∈ y, p c = false) (hb' : p b' = true)
    (h : x ++ b :: t = y ++ b' :: t') : x = y ∧ b :: t = b' :: t' := by
  have htake : ∀ {x : PyStr} {b : CodePoint} {t : PyStr}, (∀ c ∈ x, p c = false) → p b = true →
      (x ++ b :: t).takeWhile (fun c ↦ !p c) = x := by
    intro x b t hx hb
    rw [List.takeWhile_append_of_pos (by simpa using hx), List.takeWhile_cons_of_neg (by simp [hb]),
      List.append_nil]
  have hxy : x = y := by
    rw [← htake (t := t) hx hb, h, htake hy hb']
  rw [hxy] at h
  exact ⟨hxy, List.append_cancel_left h⟩

/-- The kept part of a match ends in a separator and blanks, and has no other separator. -/
theorem keep_shape {u : WordChars} {c k : Cursor CodePoint}
    (hk : k ∈ (assignmentRule u).keep.ends c) : ∃ x b y, (∀ c ∈ x, isSeparator c = false) ∧
      isSeparator b = true ∧ (∀ c ∈ y, isSpace c = true) ∧ c.after = x ++ b :: (y ++ k.after) := by
  obtain ⟨q, f, hq, hafter, -⟩ := front_of_keep hk
  refine ⟨q ++ (f.key ++ (f.closing ++ f.blanks)), f.separator, f.gap, ?_, f.separator_char,
    f.gap_space, ?_⟩
  · refine List.forall_mem_append.mpr ⟨fun b hb ↦ ?_, f.front_free⟩
    rcases hq with rfl | ⟨q, hq, rfl⟩
    · cases hb
    · rw [List.mem_singleton.mp hb]
      exact quote_not_separator hq
  · rw [hafter]
    simp [AssignmentFront.kept]

theorem keep_progress {u : WordChars} {c k : Cursor CodePoint}
    (hk : k ∈ (assignmentRule u).keep.ends c) : k.after.length < c.after.length := by
  obtain ⟨x, b, y, -, -, -, hshape⟩ := keep_shape hk
  rw [hshape, List.length_append, List.length_cons, List.length_append]
  omega

/-- A redacted part does not start with a blank. -/
theorem assignment_secret_start {u : WordChars} {k e : Cursor CodePoint}
    (he : e ∈ (assignmentRule u).secret.ends k) :
    ∃ c t, k.after = c :: t ∧ isSpace c = false := by
  obtain ⟨opening, c, w, closing, hopening, hw, -, hafter⟩ := run_of_secret he
  rcases hopening with rfl | ⟨q, hq, rfl⟩
  · exact ⟨c, _, hafter, value_not_space (hw c List.mem_cons_self)⟩
  · exact ⟨q, _, hafter, quote_not_space hq⟩

/-- The text behind an optional quote. -/
def dropQuote {α : Type} (f : α → CodePoint) : List α → List α
  | [] => []
  | x :: t => if isQuote (f x) then t else x :: t

theorem map_dropQuote {α : Type} (f : α → CodePoint) (t : List α) :
    (dropQuote f t).map f = dropQuote id (t.map f) := by
  cases t with
  | nil => rfl
  | cons x t => by_cases hx : isQuote (f x) = true <;> simp [dropQuote, hx]

theorem opt_quote_head (c : Cursor CodePoint) :
    ∃ e, ((opt quote).ends c).head? = some e ∧ e.after = dropQuote id c.after := by
  obtain ⟨before, after⟩ := c
  cases after with
  | nil => exact ⟨_, rfl, rfl⟩
  | cons x t =>
      cases hx : isQuote x with
      | true =>
          refine ⟨⟨x :: before, t⟩, ?_, ?_⟩
          · simp [opt, quote, ends, show oneOfChars "\"'" x = true from hx]
          · simp [dropQuote, hx]
      | false =>
          refine ⟨⟨before, x :: t⟩, ?_, ?_⟩
          · simp [opt, quote, ends, show oneOfChars "\"'" x = false from hx]
          · simp [dropQuote, hx]

/-- The redacted part takes an opening quote, the value up to its first character that ends it, and
a quote behind that. -/
theorem assignment_secret_after {u : WordChars} {k : Cursor CodePoint} {opening t : PyStr}
    {c : CodePoint} (hopening : OptQuote opening) (hc : isValueChar c = true)
    (hafter : k.after = opening ++ c :: t) :
    ∃ e, ((assignmentRule u).secret.ends k).head? = some e ∧
      e.after = dropQuote id (t.dropWhile isValueChar) := by
  obtain ⟨before, after⟩ := k
  change after = opening ++ c :: t at hafter
  subst hafter
  obtain ⟨d, ds, hopt, hd⟩ : ∃ d ds, (opt quote).ends ⟨before, opening ++ c :: t⟩ = d :: ds ∧
      d.after = c :: t := by
    rcases hopening with rfl | ⟨q, hq, rfl⟩
    · have hquote : oneOfChars "\"'" c = false := by
        by_contra h
        rw [quote_not_value (Bool.not_eq_false _ ▸ h)] at hc
        cases hc
      exact ⟨⟨before, c :: t⟩, [], by simp [opt, quote, ends, hquote], rfl⟩
    · refine ⟨⟨q :: before, c :: t⟩, [⟨before, q :: c :: t⟩], ?_, rfl⟩
      simp [opt, quote, ends, show oneOfChars "\"'" q = true from hq]
  have hchar : (Regex.char isValueChar).ends d = [⟨c :: d.before, t⟩] := by
    simp [ends, hd, hc]
  obtain ⟨l, hrun⟩ := ends_run_head isValueChar ⟨c :: d.before, t⟩
  have hplus : (plus (.char isValueChar)).ends d =
      ⟨(t.takeWhile isValueChar).reverse ++ (c :: d.before), t.dropWhile isValueChar⟩ :: l := by
    rw [plus, ends, hchar, List.flatMap_singleton, hrun]
  obtain ⟨e, hhead, he⟩ := opt_quote_head
    ⟨(t.takeWhile isValueChar).reverse ++ (c :: d.before), t.dropWhile isValueChar⟩
  refine ⟨e, ?_, he⟩
  have hsecret : (assignmentRule u).secret.ends ⟨before, opening ++ c :: t⟩ =
      ((opt quote).ends ⟨before, opening ++ c :: t⟩).flatMap fun d ↦
        ((plus (.char isValueChar)).ends d).flatMap (opt quote).ends := rfl
  rw [hsecret, hopt, List.flatMap_cons, hplus, List.flatMap_cons, List.head?_append,
    List.head?_append, hhead]
  rfl

namespace AssignmentFront

variable {u : WordChars} {a : AssignmentFront}

/-- A match whose kept part takes the key keeps everything up to the value. -/
theorem keep_after {c k e : Cursor CodePoint} {x r : PyStr}
    (hafter : c.after = x ++ (a.kept ++ r)) (hr : ∃ b t, r = b :: t ∧ isSpace b = false)
    (hk : k ∈ (assignmentRule u).keep.ends c) (he : e ∈ (assignmentRule u).secret.ends k)
    (hkey : k.after.length < (a.kept ++ r).length) : k.after = r := by
  obtain ⟨y, b, z, hy, hb, hz, hshape⟩ := keep_shape hk
  obtain ⟨c₀, t₀, hstart, hc₀⟩ := assignment_secret_start he
  obtain ⟨c₁, key, hcons⟩ := List.exists_cons_of_ne_nil a.key_ne_nil
  obtain ⟨hspace, -, hsep⟩ := isNameChar_other (a.key_names c₁ (hcons ▸ List.mem_cons_self))
  rcases List.append_eq_append_iff.mp (hafter.symm.trans hshape) with ⟨m, hym, heq⟩ | ⟨m, -, heq⟩
  · -- The separator of the match is that of the assignment.
    have hkept : a.kept ++ r =
        (a.key ++ (a.closing ++ a.blanks)) ++ a.separator :: (a.gap ++ r) := by
      simp [kept]
    rw [hkept] at heq
    have hm : ∀ c ∈ m, isSeparator c = false :=
      fun c hc ↦ hy c (hym ▸ List.mem_append_right x hc)
    obtain ⟨-, hrest⟩ := split_unique a.front_free a.separator_char hm hb heq
    have hgap := (List.cons.inj hrest).2
    obtain ⟨b₀, r₀, rfl, hb₀⟩ := hr
    rw [hstart] at hgap ⊢
    refine (split_unique (p := fun c ↦ !isSpace c) (fun c hc ↦ ?_) ?_ (fun c hc ↦ ?_) ?_ hgap).2.symm
    · simp [a.gap_space c hc]
    · simp [hb₀]
    · simp [hz c hc]
    · simp [hc₀]
  · -- It would be in front of the key, and the key among the blanks behind it.
    rw [kept, hcons] at hkey heq
    cases m with
    | nil =>
        rw [(List.cons.inj heq).1, hsep] at hb
        cases hb
    | cons b' m =>
        have hrest := (List.cons.inj heq).2
        rcases List.append_eq_append_iff.mp hrest with ⟨l, -, hl⟩ | ⟨l, hl, hkeep⟩
        · rw [hl, List.length_append] at hkey
          omega
        · cases l with
          | nil =>
              rw [hkeep] at hkey
              exact absurd hkey (lt_irrefl _)
          | cons b'' l =>
              have hmem : c₁ ∈ z := by
                rw [hl, (List.cons.inj hkeep).1]
                exact List.mem_append_right m List.mem_cons_self
              rw [hz c₁ hmem] at hspace
              cases hspace

theorem closing_mem (a : AssignmentFront) (before t : PyStr) :
    (⟨a.closing.reverse ++ before, t⟩ : Cursor CodePoint) ∈
      (opt Discode.quote).ends ⟨before, a.closing ++ t⟩ := by
  rcases a.closing_quote with hclosing | ⟨q, hq, hclosing⟩
  · rw [hclosing]
    exact List.mem_append_right _ (List.mem_singleton_self _)
  · rw [hclosing]
    refine List.mem_append_left _ ?_
    simp [Discode.quote, ends, show oneOfChars "\"'" q = true from hq]

/-- The rule keeps everything between a word boundary and the value. -/
theorem mem_keep {before r : PyStr} (hboundary : Boundary u before.reverse a.key) :
    ∃ k ∈ (assignmentRule u).keep.ends ⟨before, a.kept ++ r⟩, k.after = r := by
  obtain ⟨b, t, hbehind, hb⟩ := a.behind_key
  obtain ⟨c₁, key, hcons⟩ := List.exists_cons_of_ne_nil a.key_ne_nil
  have hkept : a.kept ++ r = a.key ++ (b :: t ++ r) := by
    rw [kept, hbehind, List.append_assoc]
  have hlook : (⟨before, a.kept ++ r⟩ : Cursor CodePoint) ∈
      (wordBoundary u).ends ⟨before, a.kept ++ r⟩ := by
    rw [Boundary, List.getLast?_reverse, hcons] at hboundary
    rw [wordBoundary, ends, hkept, hcons]
    have hhead : (before.head?.any u.isWord !=
        ((c₁ :: key) ++ (b :: t ++ r)).head?.any u.isWord) = true := hboundary
    rw [if_pos hhead]
    exact List.mem_singleton_self _
  have hname : (⟨a.key.reverse ++ before, b :: t ++ r⟩ : Cursor CodePoint) ∈
      secretKeyName.ends ⟨before, a.kept ++ r⟩ := by
    rw [hkept]
    exact a.key_name.mem_ends secretKeyName_lookFree before (secretKeyName_stopsAt hb) (t ++ r)
  have hsplit : b :: t ++ r = a.closing ++ (a.blanks ++ (a.separator :: (a.gap ++ r))) := by
    rw [← hbehind]
    simp
  rw [hsplit] at hname
  have hrun : ∀ {w : PyStr} (before t : PyStr), (∀ c ∈ w, isSpace c = true) →
      (⟨w.reverse ++ before, t⟩ : Cursor CodePoint) ∈ (chars isSpace).ends ⟨before, w ++ t⟩ :=
    fun _ _ hw ↦ mem_ends_run.mpr ⟨_, hw, rfl, rfl⟩
  have hsep : ∀ before t : PyStr, (⟨a.separator :: before, t⟩ : Cursor CodePoint) ∈
      (Regex.char (oneOfChars ":=")).ends ⟨before, a.separator :: t⟩ := by
    intro before t
    simp [ends, show oneOfChars ":=" a.separator = true from a.separator_char]
  refine ⟨⟨a.gap.reverse ++ (a.separator :: (a.blanks.reverse ++ (a.closing.reverse ++
    (a.key.reverse ++ before)))), r⟩, ?_, rfl⟩
  refine List.mem_flatMap.mpr ⟨_, List.mem_append_right _ (List.mem_singleton_self _), ?_⟩
  refine List.mem_flatMap.mpr ⟨_, hlook, ?_⟩
  refine List.mem_flatMap.mpr ⟨_, hname, ?_⟩
  refine List.mem_flatMap.mpr ⟨_, closing_mem a _ _, ?_⟩
  refine List.mem_flatMap.mpr ⟨_, hrun _ _ a.blanks_space, ?_⟩
  exact List.mem_flatMap.mpr ⟨_, hsep _ _, hrun _ _ a.gap_space⟩

/-- Between a word boundary and a value, the rule matches. -/
theorem match?_isSome {before opening : PyStr} {c : CodePoint} {t : PyStr}
    (hboundary : Boundary u before.reverse a.key) (hopening : OptQuote opening)
    (hc : isValueChar c = true) :
    ((assignmentRule u).match? ⟨before, a.kept ++ (opening ++ c :: t)⟩).isSome := by
  obtain ⟨k, hk, hafter⟩ := mem_keep (u := u) (r := opening ++ c :: t) hboundary
  obtain ⟨e, he, -⟩ := assignment_secret_after (u := u) hopening hc hafter
  exact Rule.match?_isSome hk (List.mem_of_mem_head? he)

/-- What a match takes whose kept part has the key in it. -/
theorem match?_takes {c k e : Cursor CodePoint} {x opening : PyStr} {b : CodePoint} {t : PyStr}
    (hafter : c.after = x ++ (a.kept ++ (opening ++ b :: t))) (hopening : OptQuote opening)
    (hb : isValueChar b = true) (hmatch : (assignmentRule u).match? c = some (k, e))
    (hkey : k.after.length < (a.kept ++ (opening ++ b :: t)).length) :
    k.after = opening ++ b :: t ∧ e.after = dropQuote id (t.dropWhile isValueChar) := by
  have hstart : ∃ b' t', opening ++ b :: t = b' :: t' ∧ isSpace b' = false := by
    rcases hopening with rfl | ⟨q, hq, rfl⟩
    · exact ⟨b, t, rfl, value_not_space hb⟩
    · exact ⟨q, b :: t, rfl, quote_not_space hq⟩
  obtain ⟨hk, he⟩ := Rule.head?_of_match? hmatch
  have hkeep := keep_after hafter hstart hk (List.mem_of_mem_head? he) hkey
  obtain ⟨e', he', hend⟩ := assignment_secret_after (u := u) hopening hb hkeep
  cases he.symm.trans he'
  exact ⟨hkeep, hend⟩

end AssignmentFront

end Discode

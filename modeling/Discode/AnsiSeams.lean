import Discode.Library.RegexRuns
import Discode.Library.RegexSeams
import Discode.ToolReply

/-!
# Escape sequences across a seam

`strip_ansi` deletes the sequences of a text in one pass and joins what stood on both sides of
each.  An escape character that begins no sequence stays, and the text behind the deleted ones
may finish what it begins.
-/

set_option autoImplicit false

namespace Discode.Tools

open Regex

/-! ## Sequences -/

/-- What stands behind the escape character up to the end of a sequence, before the text `r`. -/
inductive Body : PyStr → PyStr → Prop where
  | bell {s r : PyStr} (hs : 0x1b ∉ s) : Body (0x5d :: (s ++ 0x07 :: r)) r
  | terminator {s r : PyStr} (hs : 0x1b ∉ s) : Body (0x5d :: (s ++ 0x1b :: 0x5c :: r)) r
  | control {ps is r : PyStr} {f : CodePoint} (hps : ∀ c ∈ ps, within 0x30 0x3f c = true)
      (his : ∀ c ∈ is, within 0x20 0x2f c = true) (hf : within 0x40 0x7e f = true) :
      Body (0x5b :: (ps ++ (is ++ f :: r))) r
  | single {c : CodePoint} {r : PyStr} (hc : (within 0x40 0x5a c || within 0x5c 0x5f c) = true) :
      Body (c :: r) r

theorem body_of_mem {c e : Cursor CodePoint} (he : e ∈ ansiRule.secret.ends c) :
    ∃ t, c.after = 0x1b :: t ∧ Body t e.after := by
  obtain ⟨d, hd, he⟩ := List.mem_flatMap.mp he
  obtain ⟨a, hc, ha, -⟩ := mem_ends_char.mp hd
  rw [beq_iff_eq.mp ha] at hc
  refine ⟨d.after, hc, ?_⟩
  rcases List.mem_append.mp he with he | he
  · obtain ⟨d₁, hd, he⟩ := List.mem_flatMap.mp he
    obtain ⟨a, htail, ha, -⟩ := mem_ends_char.mp hd
    obtain ⟨d₂, hd, he⟩ := List.mem_flatMap.mp he
    obtain ⟨s, hs, hrun, -⟩ := mem_ends_run.mp hd
    have hfree : 0x1b ∉ s := fun h ↦ by simpa using hs _ h
    rw [htail, beq_iff_eq.mp ha, hrun]
    rcases List.mem_append.mp he with he | he
    · obtain ⟨a, hr, ha, -⟩ := mem_ends_char.mp he
      rw [hr, beq_iff_eq.mp ha]
      exact .bell hfree
    · obtain ⟨d₃, hd, he⟩ := List.mem_flatMap.mp he
      obtain ⟨a, hr, ha, -⟩ := mem_ends_char.mp hd
      obtain ⟨a', hr', ha', -⟩ := mem_ends_char.mp he
      rw [hr, beq_iff_eq.mp ha, hr', beq_iff_eq.mp ha']
      exact .terminator hfree
  rcases List.mem_append.mp he with he | he
  · obtain ⟨d₁, hd, he⟩ := List.mem_flatMap.mp he
    obtain ⟨a, htail, ha, -⟩ := mem_ends_char.mp hd
    obtain ⟨d₂, hd, he⟩ := List.mem_flatMap.mp he
    obtain ⟨d₃, hd', he⟩ := List.mem_flatMap.mp he
    obtain ⟨ps, hps, hrun, -⟩ := mem_ends_run.mp hd
    obtain ⟨is, his, hrun', -⟩ := mem_ends_run.mp hd'
    obtain ⟨f, hr, hf, -⟩ := mem_ends_char.mp he
    rw [htail, beq_iff_eq.mp ha, hrun, hrun', hr]
    exact .control hps his hf
  · obtain ⟨a, hr, ha, -⟩ := mem_ends_char.mp he
    rw [hr]
    exact .single ha

theorem ansiRule_plain : ansiRule.Plain where
  keep := rfl
  lookFree := by simp [ansiRule, all, oneOf, LookFree]
  consumes c e he := by
    obtain ⟨d, hd, he⟩ := List.mem_flatMap.mp he
    obtain ⟨a, hc, -, -⟩ := mem_ends_char.mp hd
    obtain ⟨w, hw, -⟩ := ends_leads _ _ e he
    rw [hc, hw, List.length_cons, List.length_append]
    omega

theorem body_of_rest? {t r : PyStr} (h : ansiRule.rest? t = some r) :
    ∃ s, t = 0x1b :: s ∧ Body s r := by
  rw [ansiRule_plain.rest?_eq] at h
  obtain ⟨e, he, rfl⟩ := Option.map_eq_some_iff.mp h
  exact body_of_mem (List.mem_of_mem_head? he)

/-! ## Unfinished sequences -/

/-- How far an escape character and what follows it have come. -/
inductive Unfinished where
  | escape
  | parameters
  | intermediates
deriving DecidableEq

def Unfinished.next : Unfinished → CodePoint → Option Unfinished
  | .escape, c => if c = 0x5b then some .parameters else none
  | .parameters, c =>
      if within 0x30 0x3f c then some .parameters
      else if within 0x20 0x2f c then some .intermediates
      else none
  | .intermediates, c => if within 0x20 0x2f c then some .intermediates else none

def Unfinished.isLast : Unfinished → CodePoint → Bool
  | .escape, c => within 0x40 0x5a c || within 0x5c 0x5f c
  | .parameters, c => within 0x40 0x7e c
  | .intermediates, c => within 0x40 0x7e c

/-- The text begins with what is missing of the sequence. -/
inductive Finishes : Unfinished → PyStr → Prop where
  | last {q : Unfinished} {c : CodePoint} {t : PyStr} (h : q.isLast c = true) : Finishes q (c :: t)
  | next {q q' : Unfinished} {c : CodePoint} {t : PyStr} (h : q.next c = some q')
      (ht : Finishes q' t) : Finishes q (c :: t)

/-- The same, past whole sequences in the text. -/
inductive FinishesPast : Unfinished → PyStr → Prop where
  | skip {q : Unfinished} {t r : PyStr} (h : ansiRule.rest? t = some r) (hr : FinishesPast q r) :
      FinishesPast q t
  | last {q : Unfinished} {c : CodePoint} {t : PyStr} (hnone : ansiRule.rest? (c :: t) = none)
      (h : q.isLast c = true) : FinishesPast q (c :: t)
  | next {q q' : Unfinished} {c : CodePoint} {t : PyStr} (hnone : ansiRule.rest? (c :: t) = none)
      (h : q.next c = some q') (ht : FinishesPast q' t) : FinishesPast q (c :: t)

theorem finishes_intermediates {is r : PyStr} {f : CodePoint}
    (his : ∀ c ∈ is, within 0x20 0x2f c = true) (hf : within 0x40 0x7e f = true) :
    Finishes .intermediates (is ++ f :: r) := by
  induction is with
  | nil => exact .last hf
  | cons c is ih =>
      obtain ⟨hc, his⟩ := List.forall_mem_cons.mp his
      have hnext : Unfinished.next .intermediates c = some .intermediates := by
        simp [Unfinished.next, hc]
      exact .next hnext (ih his)

theorem intermediate_not_parameter {c : ℕ} (h : within 0x20 0x2f c = true) :
    within 0x30 0x3f c = false := by
  simp [within] at h ⊢
  grind

theorem finishes_parameters {ps is r : PyStr} {f : CodePoint}
    (hps : ∀ c ∈ ps, within 0x30 0x3f c = true) (his : ∀ c ∈ is, within 0x20 0x2f c = true)
    (hf : within 0x40 0x7e f = true) : Finishes .parameters (ps ++ (is ++ f :: r)) := by
  induction ps with
  | nil =>
      cases is with
      | nil => exact .last hf
      | cons c is =>
          obtain ⟨hc, his⟩ := List.forall_mem_cons.mp his
          have hnext : Unfinished.next .parameters c = some .intermediates := by
            simp [Unfinished.next, hc, intermediate_not_parameter hc]
          exact .next hnext (finishes_intermediates his hf)
  | cons c ps ih =>
      obtain ⟨hc, hps⟩ := List.forall_mem_cons.mp hps
      have hnext : Unfinished.next .parameters c = some .parameters := by
        simp [Unfinished.next, hc]
      exact .next hnext (ih hps)

theorem Body.finishes {t r : PyStr} (h : Body t r) : Finishes .escape t := by
  cases h with
  | bell hs => exact .last (by decide)
  | terminator hs => exact .last (by decide)
  | control hps his hf =>
      have hnext : Unfinished.next .escape 0x5b = some .parameters := rfl
      exact .next hnext (finishes_parameters hps his hf)
  | single hc => exact .last hc

/-- What finishes a control sequence. -/
theorem Finishes.control {q : Unfinished} {t : PyStr} (h : Finishes q t) (hq : q ≠ .escape) :
    ∃ ps is f r, t = ps ++ (is ++ f :: r) ∧ (∀ c ∈ ps, within 0x30 0x3f c = true) ∧
      (∀ c ∈ is, within 0x20 0x2f c = true) ∧ within 0x40 0x7e f = true ∧
        (q = .intermediates → ps = []) := by
  induction h with
  | @last q c t h =>
      cases q with
      | escape => exact absurd rfl hq
      | parameters => exact ⟨[], [], c, t, rfl, by simp, by simp, h, fun _ ↦ rfl⟩
      | intermediates => exact ⟨[], [], c, t, rfl, by simp, by simp, h, fun _ ↦ rfl⟩
  | @next q q' c t h _ ih =>
      cases q with
      | escape => exact absurd rfl hq
      | parameters =>
          rw [Unfinished.next] at h
          split at h
          · rename_i hc
            cases h
            obtain ⟨ps, is, f, r, rfl, hps, his, hf, -⟩ := ih (by decide)
            exact ⟨c :: ps, is, f, r, rfl, List.forall_mem_cons.mpr ⟨hc, hps⟩, his, hf,
              fun h ↦ by cases h⟩
          · split at h
            · rename_i hc
              cases h
              obtain ⟨ps, is, f, r, rfl, -, his, hf, hnil⟩ := ih (by decide)
              refine ⟨[], c :: is, f, r, ?_, by simp, List.forall_mem_cons.mpr ⟨hc, his⟩, hf,
                fun _ ↦ rfl⟩
              rw [hnil rfl]
              rfl
            · cases h
      | intermediates =>
          rw [Unfinished.next] at h
          split at h
          · rename_i hc
            cases h
            obtain ⟨ps, is, f, r, rfl, -, his, hf, hnil⟩ := ih (by decide)
            refine ⟨[], c :: is, f, r, ?_, by simp, List.forall_mem_cons.mpr ⟨hc, his⟩, hf,
              fun _ ↦ rfl⟩
            rw [hnil rfl]
            rfl
          · cases h

/-- A sequence begins at an escape character whose text finishes it. -/
theorem rest?_isSome_iff (t : PyStr) :
    (ansiRule.rest? (0x1b :: t)).isSome ↔ Finishes .escape t := by
  constructor
  · intro h
    obtain ⟨r, hr⟩ := Option.isSome_iff_exists.mp h
    obtain ⟨s, hs, hbody⟩ := body_of_rest? hr
    cases hs
    exact hbody.finishes
  · intro h
    rw [ansiRule_plain.rest?_eq, Option.isSome_map, List.isSome_head?]
    have hescape : (⟨[0x1b], t⟩ : Cursor CodePoint) ∈
        (Regex.char (· == 0x1b)).ends (.start (0x1b :: t)) :=
      mem_ends_char.mpr ⟨0x1b, rfl, rfl, rfl⟩
    have hmem : ∀ {e}, e ∈ _ → e ∈ ansiRule.secret.ends (.start (0x1b :: t)) :=
      fun he ↦ List.mem_flatMap.mpr ⟨_, hescape, he⟩
    cases h with
    | @last _ c t h =>
        refine List.ne_nil_of_mem (hmem (e := ⟨[c, 0x1b], t⟩) ?_)
        refine List.mem_append_right _ (List.mem_append_right _ ?_)
        exact mem_ends_char.mpr ⟨c, rfl, h, rfl⟩
    | @next _ q' c t h ht =>
        rw [Unfinished.next] at h
        split at h
        · rename_i hc
          cases h
          obtain ⟨ps, is, f, r, rfl, hps, his, hf, -⟩ := ht.control (by decide)
          refine List.ne_nil_of_mem (hmem
            (e := ⟨f :: (is.reverse ++ (ps.reverse ++ [c, 0x1b])), r⟩) ?_)
          refine List.mem_append_right _ (List.mem_append_left _ ?_)
          refine List.mem_flatMap.mpr ⟨⟨[c, 0x1b], ps ++ (is ++ f :: r)⟩, ?_, ?_⟩
          · exact mem_ends_char.mpr ⟨c, rfl, beq_iff_eq.mpr hc, rfl⟩
          refine List.mem_flatMap.mpr ⟨⟨ps.reverse ++ [c, 0x1b], is ++ f :: r⟩, ?_, ?_⟩
          · exact mem_ends_run.mpr ⟨ps, hps, rfl, rfl⟩
          refine List.mem_flatMap.mpr ⟨⟨is.reverse ++ (ps.reverse ++ [c, 0x1b]), f :: r⟩, ?_, ?_⟩
          · exact mem_ends_run.mpr ⟨is, his, rfl, rfl⟩
          · exact mem_ends_char.mpr ⟨f, rfl, hf, rfl⟩
        · cases h

/-! ## `strip_ansi` -/

theorem stripAnsi_skip {t r : PyStr} (h : ansiRule.rest? t = some r) : stripAnsi t = stripAnsi r :=
  ansiRule_plain.sub_skip h

theorem stripAnsi_cons {c : CodePoint} {t : PyStr} (h : ansiRule.rest? (c :: t) = none) :
    stripAnsi (c :: t) = c :: stripAnsi t :=
  ansiRule_plain.sub_cons h

theorem stripAnsi_induction {P : PyStr → Prop} (nil : P [])
    (skip : ∀ t r, ansiRule.rest? t = some r → P r → P t)
    (cons : ∀ c t, ansiRule.rest? (c :: t) = none → P t → P (c :: t)) (t : PyStr) : P t := by
  induction hn : t.length using Nat.strong_induction_on generalizing t with
  | _ n ih =>
      cases hr : ansiRule.rest? t with
      | some r =>
          have hlt := ansiRule_plain.rest?_length hr
          exact skip t r hr (ih r.length (by omega) r rfl)
      | none =>
          cases t with
          | nil => exact nil
          | cons c t => exact cons c t hr (ih t.length (by rw [← hn, List.length_cons]; omega) t rfl)

/-- What is left of a text finishes a sequence if the text does, past the sequences in it. -/
theorem finishes_stripAnsi_iff (t : PyStr) :
    ∀ q, Finishes q (stripAnsi t) ↔ FinishesPast q t := by
  induction t using stripAnsi_induction with
  | nil =>
      intro q
      constructor
      · intro h
        cases h
      · intro h
        cases h with
        | skip h hr =>
            have hlt := ansiRule_plain.rest?_length h
            cases hlt
  | skip t r hr ih =>
      intro q
      rw [stripAnsi_skip hr, ih]
      refine ⟨.skip hr, fun h ↦ ?_⟩
      cases h with
      | skip h ht =>
          cases hr.symm.trans h
          exact ht
      | last hnone _ => cases hr.symm.trans hnone
      | next hnone _ _ => cases hr.symm.trans hnone
  | cons c t hnone ih =>
      intro q
      rw [stripAnsi_cons hnone]
      constructor
      · intro h
        cases h with
        | last h => exact .last hnone h
        | next h ht => exact .next hnone h ((ih _).mp ht)
      · intro h
        cases h with
        | skip hr _ => cases hnone.symm.trans hr
        | last _ h => exact .last h
        | next _ h ht => exact .next h ((ih _).mpr ht)

/-- An escape character inside of a sequence begins one. -/
theorem Body.escape_inside {t r : PyStr} (h : Body t r) {s : PyStr} (hs : (0x1b :: s) <:+ t) :
    (0x1b :: s) <:+ r ∨ (ansiRule.rest? (0x1b :: s)).isSome := by
  have hother : ∀ {p : CodePoint → Bool} {x t : PyStr}, (∀ c ∈ x, p c = true) → p 0x1b = false →
      (0x1b :: s) <:+ x ++ t → (0x1b :: s) <:+ t := by
    intro p x t hx hp h
    induction x with
    | nil => exact h
    | cons c x ih =>
        obtain ⟨hc, hx⟩ := List.forall_mem_cons.mp hx
        rcases List.suffix_cons_iff.mp h with heq | h
        · rw [← (List.cons.inj heq).1, hp] at hc
          cases hc
        · exact ih hx h
  have hone : ∀ {c : CodePoint} {t : PyStr}, c ≠ 0x1b → (0x1b :: s) <:+ c :: t →
      (0x1b :: s) <:+ t := by
    intro c t hc h
    rcases List.suffix_cons_iff.mp h with heq | h
    · exact absurd (List.cons.inj heq).1.symm hc
    · exact h
  have hfree : ∀ {x : PyStr}, 0x1b ∉ x → ∀ c ∈ x, (c != 0x1b) = true :=
    fun hx c hc ↦ bne_iff_ne.mpr fun h ↦ hx (h ▸ hc)
  cases h with
  | bell hs' => exact .inl (hone (by decide) (hother (hfree hs') rfl (hone (by decide) hs)))
  | terminator hs' =>
      rcases List.suffix_cons_iff.mp (hother (hfree hs') rfl (hone (by decide) hs)) with heq | h
      · obtain ⟨-, rfl⟩ := List.cons.inj heq
        exact .inr ((rest?_isSome_iff _).mpr (.last (by decide)))
      · exact .inl (hone (by decide) h)
  | control hps his hf =>
      refine .inl (hone ?_ (hother his rfl (hother hps rfl (hone (by decide) hs))))
      rintro rfl
      cases hf
  | single hc =>
      refine .inl (hone ?_ hs)
      rintro rfl
      cases hc

/-- The escape characters that begin no sequence are left, and no others. -/
theorem escape_suffix_stripAnsi_iff (t : PyStr) : ∀ y,
    (0x1b :: y) <:+ stripAnsi t ↔
      ∃ s, (0x1b :: s) <:+ t ∧ ansiRule.rest? (0x1b :: s) = none ∧ y = stripAnsi s := by
  induction t using stripAnsi_induction with
  | nil =>
      intro y
      refine ⟨fun h ↦ ?_, ?_⟩
      · cases List.suffix_nil.mp h
      · rintro ⟨s, h, -⟩
        cases List.suffix_nil.mp h
  | skip t r hr ih =>
      intro y
      obtain ⟨body, rfl, hbody⟩ := body_of_rest? hr
      rw [stripAnsi_skip hr, ih]
      constructor
      · rintro ⟨s, hs, hnone, rfl⟩
        exact ⟨s, hs.trans (ansiRule_plain.rest?_suffix hr), hnone, rfl⟩
      · rintro ⟨s, hs, hnone, rfl⟩
        refine ⟨s, ?_, hnone, rfl⟩
        rcases List.suffix_cons_iff.mp hs with heq | hs
        · rw [heq, hr] at hnone
          cases hnone
        · rcases hbody.escape_inside hs with h | h
          · exact h
          · rw [hnone] at h
            cases h
  | cons c t hnone ih =>
      intro y
      rw [stripAnsi_cons hnone, List.suffix_cons_iff, ih]
      constructor
      · rintro (heq | ⟨s, hs, h, rfl⟩)
        · obtain ⟨rfl, rfl⟩ := List.cons.inj heq
          exact ⟨t, List.suffix_rfl, hnone, rfl⟩
        · exact ⟨s, hs.trans (List.suffix_cons c t), h, rfl⟩
      · rintro ⟨s, hs, h, rfl⟩
        rcases List.suffix_cons_iff.mp hs with heq | hs
        · obtain ⟨rfl, rfl⟩ := List.cons.inj heq
          exact .inl rfl
        · exact .inr ⟨s, hs, h, rfl⟩

/-- No escape character that begins no sequence is followed, past whole sequences, by what would
finish one. -/
def Seamless (s : PyStr) : Prop := ∀ t, (0x1b :: t) <:+ s → ansiRule.rest? (0x1b :: t) = none →
  ¬ FinishesPast .escape t

theorem clean_stripAnsi_iff (s : PyStr) : ansiRule.Clean (stripAnsi s) ↔ Seamless s := by
  constructor
  · intro h t hsuffix hnone hpast
    have hclean := h (0x1b :: stripAnsi t)
      ((escape_suffix_stripAnsi_iff s _).mpr ⟨t, hsuffix, hnone, rfl⟩)
    have hsome := (rest?_isSome_iff _).mpr ((finishes_stripAnsi_iff t _).mpr hpast)
    rw [hclean] at hsome
    cases hsome
  · intro h y hy
    cases hr : ansiRule.rest? y with
    | none => rfl
    | some r =>
        obtain ⟨y, rfl, hbody⟩ := body_of_rest? hr
        obtain ⟨t, hsuffix, hnone, rfl⟩ := (escape_suffix_stripAnsi_iff s _).mp hy
        exact absurd ((finishes_stripAnsi_iff t _).mp hbody.finishes) (h t hsuffix hnone)

/-- No sequence is left, and stripping again changes nothing, if and only if no two parts of a
sequence meet where others are deleted. -/
theorem strip_ansi_leaves_none_iff (s : PyStr) :
    (ansiRule.Clean (stripAnsi s) ↔ Seamless s) ∧
      (stripAnsi (stripAnsi s) = stripAnsi s ↔ Seamless s) ∧
        ∀ (py : Interpreter) (d : ToolConfig) (stderr : PyStr),
          (d .replyExtractor).str? = some (pyStr "stdout_strip_ansi") →
            ((extractReply py d s stderr).map stripAnsi = extractReply py d s stderr ↔
              Seamless s) := by
  have hidempotent : stripAnsi (stripAnsi s) = stripAnsi s ↔ Seamless s :=
    (ansiRule_plain.sub_nil_eq_iff (stripAnsi s)).trans (clean_stripAnsi_iff s)
  refine ⟨clean_stripAnsi_iff s, hidempotent, fun py d stderr hextractor ↦ ?_⟩
  have hextract : extractReply py d s stderr = .ok (stripAnsi s) := by
    unfold extractReply
    simp [isOneOf_of_str hextractor]
  rw [hextract, Except.map, ← hidempotent, Except.ok.injEq]

/-- `ESC M` between an escape character and `[0m`. -/
theorem strip_ansi_joins_sequence :
    stripAnsi (0x1b :: 0x1b :: pyStr "M[0m") = 0x1b :: pyStr "[0m" ∧
      ¬ ∀ s, ansiRule.Clean (stripAnsi s) ∧ stripAnsi (stripAnsi s) = stripAnsi s := by
  have hjoined : stripAnsi (0x1b :: 0x1b :: pyStr "M[0m") = 0x1b :: pyStr "[0m" := by
    decide +kernel
  refine ⟨hjoined, fun h ↦ ?_⟩
  have hagain := (h (0x1b :: 0x1b :: pyStr "M[0m")).2
  rw [hjoined] at hagain
  have hempty : stripAnsi (0x1b :: pyStr "[0m") = [] := by decide +kernel
  rw [hempty] at hagain
  cases hagain

end Discode.Tools

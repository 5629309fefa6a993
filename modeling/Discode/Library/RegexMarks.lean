import Discode.Library.RegexRuns

/-!
# Marked texts

A pattern can read the symbols of a text through a function.  It then matches a text with marks
where it matches the text without them, so the marks tell where the symbols of an output come from.
-/

set_option autoImplicit false

namespace Regex

variable {α β : Type*}

/-! ## Reading through a function -/

/-- Repetition commutes with what changes no length. -/
theorem iterate_map {step : Cursor α → List (Cursor α)} {step' : Cursor β → List (Cursor β)}
    {greedy : Bool} {g : Cursor α → Cursor β}
    (hlen : ∀ c, (g c).after.length = c.after.length)
    (hstep : ∀ c, (step c).map g = step' (g c)) (n : ℕ) :
    ∀ c, (iterate step greedy n c).map g = iterate step' greedy n (g c) := by
  induction n with
  | zero => exact fun _ ↦ rfl
  | succ n ih =>
      intro c
      have hmore : (((step c).filter fun e ↦ e.after.length < c.after.length).flatMap
          (iterate step greedy n)).map g =
            ((step' (g c)).filter fun e ↦ e.after.length < (g c).after.length).flatMap
              (iterate step' greedy n) := by
        rw [← hstep, List.filter_map, List.flatMap_map, List.map_flatMap]
        simp only [Function.comp_def, hlen, ih]
      rw [iterate, iterate, ← hmore]
      cases greedy <;> simp

theorem Cursor.map_length (f : α → β) (c : Cursor α) : (c.map f).after.length = c.after.length :=
  List.length_map f

theorem ends_comap (f : α → β) (r : Regex β) :
    ∀ c : Cursor α, ((r.comap f).ends c).map (Cursor.map f) = r.ends (c.map f) := by
  induction r with
  | empty => exact fun _ ↦ rfl
  | char p =>
      rintro ⟨before, after⟩
      cases after with
      | nil => rfl
      | cons a as => cases hp : p (f a) <;> simp [comap, ends, Cursor.map, hp]
  | look p =>
      intro c
      rw [comap, ends, ends, Cursor.map, List.head?_map, List.head?_map]
      split <;> rfl
  | seq r s ihr ihs =>
      intro c
      rw [comap, ends, ends, ← ihr, List.flatMap_map, List.map_flatMap]
      simp only [ihs]
  | alt r s ihr ihs =>
      intro c
      rw [comap, ends, ends, List.map_append, ihr, ihs]
  | star greedy r ih =>
      intro c
      rw [comap, ends, ends, iterate_map (Cursor.map_length f) ih, Cursor.map_length]

def Piece.map (f : α → β) : Piece α → Piece β
  | .copy a => .copy (f a)
  | .hit keep secret => .hit (keep.map f) (secret.map f)

theorem Cursor.map_upTo (f : α → β) (c e : Cursor α) :
    (c.map f).upTo (e.map f) = (c.upTo e).map f := by
  rw [upTo, upTo, map_length, map_length, map, List.map_take]

namespace Rule

variable {rule : Rule β} {f : α → β}

theorem match?_comap (f : α → β) (rule : Rule β) (c : Cursor α) :
    ((rule.comap f).match? c).map (fun m ↦ (m.1.map f, m.2.map f)) = rule.match? (c.map f) := by
  have hsecret : ∀ k : Cursor α, ((rule.secret.comap f).ends k).map (Cursor.map f) =
      rule.secret.ends (k.map f) := ends_comap f rule.secret
  rw [match?, match?, ← ends_comap, ← List.head?_map, List.map_flatMap, List.flatMap_map]
  simp only [Rule.comap, ← hsecret, List.map_map, Function.comp_def]

theorem scan_comap (f : α → β) (rule : Rule β) (n : ℕ) : ∀ c : Cursor α,
    ((rule.comap f).scan n c).map (Piece.map f) = rule.scan n (c.map f) := by
  induction n with
  | zero => exact fun _ ↦ rfl
  | succ n ih =>
      intro c
      rw [scan, scan, ← match?_comap]
      obtain ⟨before, after⟩ := c
      cases after with
      | nil => rfl
      | cons a as =>
          have hcopy := ih ⟨a :: before, as⟩
          cases (rule.comap f).match? ⟨before, a :: as⟩ with
          | none => exact congrArg _ hcopy
          | some m =>
              obtain ⟨k, e⟩ := m
              have hlen : (e.map f).after.length < ((a :: as).map f).length ↔
                  e.after.length < (a :: as).length := by
                rw [Cursor.map_length, List.length_map]
              have hhit : Piece.map f (.hit (Cursor.upTo ⟨before, a :: as⟩ k) (k.upTo e)) =
                  .hit ((Cursor.map f ⟨before, a :: as⟩).upTo (k.map f))
                    ((k.map f).upTo (e.map f)) := by
                rw [Cursor.map_upTo, Cursor.map_upTo]
                rfl
              simp only [Option.map_some, Cursor.map, List.map_cons]
              simp only [Cursor.map, List.map_cons] at hlen hhit
              by_cases hlt : e.after.length < (a :: as).length
              · rw [if_pos hlt, if_pos (hlen.mpr hlt), List.map_cons, hhit, ih]
                rfl
              · rw [if_neg hlt, if_neg fun h ↦ hlt (hlen.mp h)]
                exact congrArg _ hcopy

/-- Marks do not change the text that comes out. -/
theorem sub_comap (f : α → β) (rule : Rule β) (replacement text : List α) :
    ((rule.comap f).sub replacement text).map f =
      rule.sub (replacement.map f) (text.map f) := by
  have hscan : ((rule.comap f).pieces text).map (Piece.map f) = rule.pieces (text.map f) := by
    rw [pieces, pieces, List.length_map]
    exact scan_comap f rule text.length (.start text)
  rw [sub, sub, ← hscan, List.map_flatMap, List.flatMap_map]
  apply List.flatMap_congr
  intro p _
  cases p <;> simp [Piece.render, Piece.map]

end Rule

/-! ## What a pattern consumes -/

/-- All symbols that the pattern consumes are in `p`. -/
def Within (p : α → Bool) : Regex α → Prop
  | empty => True
  | char q => ∀ a, q a = true → p a = true
  | look _ => True
  | seq r s => r.Within p ∧ s.Within p
  | alt r s => r.Within p ∧ s.Within p
  | star _ r => r.Within p

/-- The pattern has no zero-width test. -/
def LookFree : Regex α → Prop
  | empty => True
  | char _ => True
  | look _ => False
  | seq r s => r.LookFree ∧ s.LookFree
  | alt r s => r.LookFree ∧ s.LookFree
  | star _ r => r.LookFree

theorem Cursor.Runs.trans {p : α → Bool} {c d e : Cursor α} (h : c.Runs p d) (h' : d.Runs p e) :
    c.Runs p e := by
  obtain ⟨w, hw, hafter, hbefore⟩ := h
  obtain ⟨w', hw', hafter', hbefore'⟩ := h'
  refine ⟨w ++ w', List.forall_mem_append.mpr ⟨hw, hw'⟩, ?_, ?_⟩
  · rw [hafter, hafter', List.append_assoc]
  · rw [hbefore', hbefore, List.reverse_append, List.append_assoc]

theorem runs_of_within {p : α → Bool} (r : Regex α) (h : r.Within p) :
    ∀ c, ∀ e ∈ r.ends c, c.Runs p e := by
  induction r with
  | empty =>
      intro c e he
      rw [List.mem_singleton.mp he]
      exact .refl p c
  | char q =>
      intro c e he
      rw [ends] at he
      split at he
      · cases he
      · rename_i a as hafter
        split at he
        · rename_i ha
          rw [List.mem_singleton.mp he]
          exact .cons (h a ha) hafter (.refl p _)
        · cases he
  | look q =>
      intro c e he
      rw [ends] at he
      split at he
      · rw [List.mem_singleton.mp he]
        exact .refl p c
      · cases he
  | seq r s ihr ihs =>
      intro c e he
      obtain ⟨d, hd, he⟩ := List.mem_flatMap.mp he
      exact (ihr h.1 c d hd).trans (ihs h.2 d e he)
  | alt r s ihr ihs =>
      intro c e he
      rcases List.mem_append.mp he with he | he
      · exact ihr h.1 c e he
      · exact ihs h.2 c e he
  | star greedy r ih =>
      intro c e he
      rw [ends] at he
      generalize c.after.length = n at he
      induction n generalizing c with
      | zero =>
          rw [List.mem_singleton.mp he]
          exact .refl p c
      | succ n ihn =>
          rcases mem_iterate_succ.mp he with rfl | hmore
          · exact .refl p e
          · obtain ⟨d, hd, he⟩ := List.mem_flatMap.mp hmore
            exact (ih h c d (List.mem_of_mem_filter hd)).trans (ihn d he)

/-- A pattern without tests stops at what it does not consume. -/
theorem stopsAt_of_within {p : α → Bool} {b : α} (hb : p b = false) (r : Regex α)
    (h : r.Within p) (hlook : r.LookFree) : r.StopsAt b := by
  induction r with
  | empty => trivial
  | char q =>
      change q b = false
      cases hq : q b with
      | false => rfl
      | true =>
          rw [h b hq] at hb
          cases hb
  | look q => exact hlook.elim
  | seq r s ihr ihs => exact ⟨ihr h.1 hlook.1, ihs h.2 hlook.2⟩
  | alt r s ihr ihs => exact ⟨ihr h.1 hlook.1, ihs h.2 hlook.2⟩
  | star greedy r ih => exact ih h hlook

/-- The same position behind a longer text. -/
def Cursor.under (t : List α) (c : Cursor α) : Cursor α := ⟨c.before ++ t, c.after⟩

/-- A pattern without tests does not see what stands before it. -/
theorem ends_under (t : List α) (r : Regex α) (h : r.LookFree) :
    ∀ c, (r.ends c).map (Cursor.under t) = r.ends (c.under t) := by
  induction r with
  | empty => exact fun _ ↦ rfl
  | char p =>
      rintro ⟨before, after⟩
      cases after with
      | nil => rfl
      | cons a as => cases hp : p a <;> simp [ends, Cursor.under, hp]
  | look p => exact h.elim
  | seq r s ihr ihs =>
      intro c
      rw [ends, ends, ← ihr h.1, List.flatMap_map, List.map_flatMap]
      simp only [ihs h.2]
  | alt r s ihr ihs =>
      intro c
      rw [ends, ends, List.map_append, ihr h.1, ihs h.2]
  | star greedy r ih =>
      intro c
      rw [ends, ends]
      exact iterate_map (g := Cursor.under t) (fun _ ↦ rfl) (ih h) _ c

theorem Within.mono {p q : α → Bool} (hpq : ∀ a, p a = true → q a = true) {r : Regex α}
    (h : r.Within p) : r.Within q := by
  induction r with
  | empty => trivial
  | char p' => exact fun a ha ↦ hpq a (h a ha)
  | look p' => trivial
  | seq r s ihr ihs => exact ⟨ihr h.1, ihs h.2⟩
  | alt r s ihr ihs => exact ⟨ihr h.1, ihs h.2⟩
  | star greedy r ih => exact ih h

theorem within_all {p : α → Bool} (rs : List (Regex α)) (h : ∀ r ∈ rs, r.Within p) :
    (all rs).Within p := by
  induction rs with
  | nil => trivial
  | cons r rs ih =>
      obtain ⟨hr, hrs⟩ := List.forall_mem_cons.mp h
      cases rs with
      | nil => exact hr
      | cons s rs => exact ⟨hr, ih hrs⟩

theorem lookFree_all (rs : List (Regex α)) (h : ∀ r ∈ rs, r.LookFree) : (all rs).LookFree := by
  induction rs with
  | nil => trivial
  | cons r rs ih =>
      obtain ⟨hr, hrs⟩ := List.forall_mem_cons.mp h
      cases rs with
      | nil => exact hr
      | cons s rs => exact ⟨hr, ih hrs⟩

/-- The whole word is a match. -/
def Matches (r : Regex α) (v : List α) : Prop := ∃ e ∈ r.ends (.start v), e.after = []

/-- A word of a pattern without tests is a match wherever it stands before a symbol at which the
pattern stops. -/
theorem Matches.mem_ends {r : Regex α} {v : List α} (h : r.Matches v) (hlook : r.LookFree)
    (before : List α) {b : α} (hb : r.StopsAt b) (t : List α) :
    (⟨v.reverse ++ before, b :: t⟩ : Cursor α) ∈ r.ends ⟨before, v ++ b :: t⟩ := by
  obtain ⟨e, he, hend⟩ := h
  obtain ⟨w, hafter, hbefore⟩ := ends_leads r _ e he
  rw [hend, List.append_nil] at hafter
  have hword : e = ⟨v.reverse, []⟩ := by
    cases e
    cases hend
    cases hafter
    rw [Cursor.start, List.append_nil] at hbefore
    cases hbefore
    rfl
  have hunder : Cursor.under before ⟨v.reverse, []⟩ ∈ r.ends (Cursor.under before (.start v)) := by
    rw [← ends_under before r hlook, ← hword]
    exact List.mem_map_of_mem he
  have hextend := ends_extend t r hb ⟨before, v⟩
  change r.ends ⟨before, v ++ b :: t⟩ = _ at hextend
  rw [hextend]
  exact List.mem_map.mpr ⟨_, hunder, rfl⟩

/-- What such a pattern matches before a symbol at which it stops is a word of it. -/
theorem Matches.of_mem_ends {r : Regex α} {v : List α} (hlook : r.LookFree) {b : α}
    (hb : r.StopsAt b) {before t : List α} {e : Cursor α} (he : e ∈ r.ends ⟨before, v ++ b :: t⟩)
    (hafter : e.after = b :: t) : r.Matches v := by
  have hextend := ends_extend t r hb ⟨before, v⟩
  change r.ends ⟨before, v ++ b :: t⟩ = _ at hextend
  rw [hextend] at he
  obtain ⟨e', he', rfl⟩ := List.mem_map.mp he
  have hunder := ends_under before r hlook (.start v)
  change _ = r.ends ⟨before, v⟩ at hunder
  rw [← hunder] at he'
  obtain ⟨e'', he'', rfl⟩ := List.mem_map.mp he'
  exact ⟨e'', he'', List.append_left_eq_self.mp hafter⟩

/-- A match among the pieces of a scan was found at its place in the text. -/
theorem Rule.match_of_scan {rule : Rule α} {keep secret : List α} {qs : List (Piece α)} (n : ℕ) :
    ∀ (c : Cursor α) (ps : List (Piece α)), rule.scan n c = ps ++ .hit keep secret :: qs →
      ∃ d k e, c.after = ps.flatMap Piece.source ++ d.after ∧
        d.before = (ps.flatMap Piece.source).reverse ++ c.before ∧
        rule.match? d = some (k, e) ∧ d.upTo k = keep ∧ k.upTo e = secret := by
  induction n with
  | zero =>
      intro c ps h
      exact absurd h (by simp [scan])
  | succ n ih =>
      intro c ps h
      have hstep := rule.scan_step n c
      generalize rule.scan (n + 1) c = scanned at hstep h
      cases hstep with
      | stop _ => exact absurd h (by simp)
      | @copy a as hafter _ =>
          cases ps with
          | nil => cases (List.cons.inj h).1
          | cons p ps =>
              obtain ⟨rfl, hrest⟩ := List.cons.inj h
              obtain ⟨d, k, e, has, hbefore, hfound⟩ := ih _ ps hrest
              refine ⟨d, k, e, ?_, ?_, hfound⟩
              · rw [hafter, List.flatMap_cons, List.append_assoc, ← has]
                rfl
              · rw [hbefore, List.flatMap_cons, List.reverse_append, List.append_assoc]
                rfl
      | @hit k₀ e₀ hmatch _ =>
          cases ps with
          | nil =>
              obtain ⟨hpiece, -⟩ := List.cons.inj h
              cases hpiece
              exact ⟨c, k₀, e₀, rfl, rfl, hmatch, rfl, rfl⟩
          | cons p ps =>
              obtain ⟨rfl, hrest⟩ := List.cons.inj h
              obtain ⟨d, k, e, hafter₀, hbefore₀, hfound⟩ := ih _ ps hrest
              obtain ⟨⟨w, hw, hwbefore⟩, ⟨w', hw', hwbefore'⟩⟩ := match?_leads hmatch
              have hsource : (Piece.hit (c.upTo k₀) (k₀.upTo e₀)).source = w ++ w' := by
                rw [Piece.source, Cursor.upTo_of_append hw, Cursor.upTo_of_append hw']
              refine ⟨d, k, e, ?_, ?_, hfound⟩
              · rw [hw, hw', hafter₀, List.flatMap_cons, hsource]
                simp
              · rw [hbefore₀, hwbefore', hwbefore, List.flatMap_cons, hsource]
                simp

/-! ## Rules that keep nothing -/

/-- A piece of a scan that keeps nothing of a match. -/
inductive Piece.Whole : Piece α → Prop where
  | copy (a : α) : Whole (.copy a)
  | hit (b : α) (s : List α) : Whole (.hit [] (b :: s))

theorem Rule.scan_whole {rule : Rule α} (hkeep : rule.keep = .empty) (n : ℕ) :
    ∀ c, ∀ p ∈ rule.scan n c, p.Whole := by
  induction n with
  | zero => exact fun _ _ hp ↦ (nomatch hp)
  | succ n ih =>
      intro c p hp
      have hstep := rule.scan_step n c
      generalize rule.scan (n + 1) c = ps at hstep hp
      cases hstep with
      | stop _ => cases hp
      | copy _ _ =>
          rcases List.mem_cons.mp hp with rfl | hp
          · exact .copy _
          · exact ih _ p hp
      | @hit k e h hlt =>
          rcases List.mem_cons.mp hp with rfl | hp
          · obtain ⟨hk, -⟩ := mem_of_match? h
            rw [hkeep] at hk
            have hkc := List.mem_singleton.mp hk
            subst hkc
            have hnil : k.upTo k = [] := Cursor.upTo_of_append (w := []) rfl
            have hsource := (match?_leads h).2.upTo_append
            rw [hnil]
            cases hsecret : k.upTo e with
            | nil =>
                rw [hsecret, List.nil_append] at hsource
                rw [hsource] at hlt
                exact absurd hlt (lt_irrefl _)
            | cons b s => exact .hit b s
          · exact ih _ p hp

/-- Symbols of `p`, and behind them a text of `Q`. -/
inductive RunThen (p : α → Prop) (Q : List α → Prop) : List α → Prop where
  | done {t : List α} (h : Q t) : RunThen p Q t
  | cons {x : α} {t : List α} (hx : p x) (h : RunThen p Q t) : RunThen p Q (x :: t)

namespace RunThen

variable {p : α → Prop} {Q : List α → Prop} {t t' w : List α}

theorem append (h : RunThen p Q t') (ht : ∀ x ∈ t, p x) : RunThen p Q (t ++ t') := by
  induction t with
  | nil => exact h
  | cons x t ih =>
      obtain ⟨hx, ht⟩ := List.forall_mem_cons.mp ht
      exact .cons hx (ih ht)

theorem tail (hQ : ∀ x t, Q (x :: t) → Q t) (x : α) (t : List α) (h : RunThen p Q (x :: t)) :
    RunThen p Q t := by
  cases h with
  | cons _ h => exact h
  | done h => exact .done (hQ x t h)

theorem of_append (hQ : ∀ x t, Q (x :: t) → Q t) (h : RunThen p Q (t ++ t')) :
    RunThen p Q t' := by
  induction t with
  | nil => exact h
  | cons x t ih => exact ih (tail hQ x _ h)

/-- Replacing matches by symbols of `p` keeps the shape. -/
theorem render (hw : ∀ x ∈ w, p x) (hQ : ∀ x t, Q (x :: t) → Q t)
    (hrender : ∀ ps : List (Piece α), (∀ q ∈ ps, q.Whole) → Q (ps.flatMap Piece.source) →
      Q (ps.flatMap (Piece.render w))) (ps : List (Piece α)) (hps : ∀ q ∈ ps, q.Whole)
    (h : RunThen p Q (ps.flatMap Piece.source)) : RunThen p Q (ps.flatMap (Piece.render w)) := by
  induction ps with
  | nil => exact h
  | cons q ps ih =>
      obtain ⟨hq, htail⟩ := List.forall_mem_cons.mp hps
      have hall := hrender (q :: ps) hps
      rw [List.flatMap_cons] at h hall ⊢
      cases hq with
      | hit b s => exact (ih htail (h.of_append hQ)).append hw
      | copy b =>
          cases h with
          | cons hb h => exact .cons hb (ih htail h)
          | done h => exact .done (hall h)

end RunThen

/-- A symbol that no match takes is copied, and splits the pieces. -/
theorem split_pieces {y : α} {t : List α} (ps : List (Piece α)) (hps : ∀ p ∈ ps, p.Whole)
    (hy : ∀ p ∈ ps, y ∉ p.secret) : ∀ x, ps.flatMap Piece.source = x ++ y :: t →
      ∃ qs rs, ps = qs ++ .copy y :: rs ∧ qs.flatMap Piece.source = x ∧
        rs.flatMap Piece.source = t := by
  induction ps with
  | nil =>
      intro x h
      exact absurd h.symm (by simp)
  | cons p ps ih =>
      obtain ⟨hp, htail⟩ := List.forall_mem_cons.mp hps
      obtain ⟨hyp, hytail⟩ := List.forall_mem_cons.mp hy
      intro x h
      rw [List.flatMap_cons] at h
      cases hp with
      | copy a =>
          cases x with
          | nil =>
              obtain ⟨rfl, rest⟩ := List.cons.inj h
              exact ⟨[], ps, rfl, rfl, rest⟩
          | cons b x =>
              obtain ⟨rfl, hrest⟩ := List.cons.inj h
              obtain ⟨qs, rs, rfl, rfl, hrs⟩ := ih htail hytail x hrest
              exact ⟨.copy a :: qs, rs, rfl, rfl, hrs⟩
      | hit b s =>
          rcases List.append_eq_append_iff.mp h with ⟨l, hl, hrest⟩ | ⟨l, hl, hrest⟩
          · obtain ⟨qs, rs, rfl, hqs, hrs⟩ := ih htail hytail l hrest
            refine ⟨.hit [] (b :: s) :: qs, rs, rfl, ?_, hrs⟩
            rw [List.flatMap_cons, hqs, hl]
          · cases l with
            | nil =>
                obtain ⟨qs, rs, rfl, hqs, hrs⟩ := ih htail hytail [] hrest.symm
                refine ⟨.hit [] (b :: s) :: qs, rs, rfl, ?_, hrs⟩
                rw [List.flatMap_cons, hqs, hl, List.append_nil, List.append_nil]
            | cons y' l =>
                refine absurd ?_ hyp
                change y ∈ b :: s
                have hsource : b :: s = x ++ y' :: l := hl
                rw [hsource, (List.cons.inj hrest).1]
                exact List.mem_append_right x List.mem_cons_self

/-- A word whose symbols no match takes is copied. -/
theorem copy_pieces {t : List α} (w : List α) : ∀ ps : List (Piece α), (∀ p ∈ ps, p.Whole) →
    (∀ p ∈ ps, ∀ y ∈ w, y ∉ p.secret) → ps.flatMap Piece.source = w ++ t →
      ∃ rs, ps = w.map .copy ++ rs ∧ rs.flatMap Piece.source = t := by
  induction w with
  | nil => exact fun ps _ _ h ↦ ⟨ps, rfl, h⟩
  | cons y w ih =>
      intro ps hps hw h
      cases ps with
      | nil => cases h
      | cons p ps =>
          obtain ⟨hp, htail⟩ := List.forall_mem_cons.mp hps
          obtain ⟨hyp, hwtail⟩ := List.forall_mem_cons.mp hw
          cases hp with
          | copy a =>
              obtain ⟨rfl, hrest⟩ := List.cons.inj h
              obtain ⟨rs, rfl, hrs⟩ :=
                ih ps htail (fun p hp z hz ↦ hwtail p hp z (List.mem_cons_of_mem a hz)) hrest
              exact ⟨rs, rfl, hrs⟩
          | hit b s =>
              have hb : b = y := (List.cons.inj h).1
              exact absurd (hb ▸ List.mem_cons_self) (hyp y List.mem_cons_self)

end Regex

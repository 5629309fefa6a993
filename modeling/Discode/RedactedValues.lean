import Discode.QuotedValues

/-!
# Which quoted values are redacted

The rule for assignments takes a value up to the first character that is no value character and
one quote behind that.  The condition for it to take all of a quoted value is about the text that it
gets, in which the secrets of the deployment are replaced.
-/

set_option autoImplicit false

namespace Discode

open Regex

/-! ## The value stays together -/

/-- Between two characters of the value there is nothing but the value and replacements. -/
def Together : MarkedText → Prop :=
  RunThen (fun x ↦ x.2 ≠ .value) (RunThen (fun x ↦ x.2 = .value ∨ x.1 ∈ redacted) ValueFree)

theorem ValueFree.tail (x : CodePoint × Mark) (t : MarkedText) (h : ValueFree (x :: t)) :
    ValueFree t := (List.forall_mem_cons.mp h).2

theorem together_marked (a : QuotedAssignment) (pre post : PyStr) :
    Together (a.marked pre post) := by
  have hvalue : RunThen (fun x ↦ x.2 = .value ∨ x.1 ∈ redacted) ValueFree
      (mark .value a.value ++ mark .outside (a.quote :: post)) :=
    RunThen.append (.done (outside_valueFree _)) fun x hx ↦ .inl (mem_mark hx).2
  rw [a.marked_front]
  exact RunThen.append (RunThen.append (.done hvalue) (front_valueFree a)) (outside_valueFree _)

theorem Together.sub {text : MarkedText} (h : Together text) {rule : Rule CodePoint}
    (hkeep : rule.keep = .empty) :
    Together ((rule.comap Prod.fst).sub (mark .outside redacted) text) := by
  have hwhole : ∀ p ∈ (rule.comap Prod.fst).pieces text, p.Whole := by
    refine Rule.scan_whole ?_ _ _
    rw [Rule.comap, hkeep]
    rfl
  have hinner : ∀ ps : List (Piece (CodePoint × Mark)), (∀ p ∈ ps, p.Whole) →
      RunThen (fun x ↦ x.2 = .value ∨ x.1 ∈ redacted) ValueFree (ps.flatMap Piece.source) →
        RunThen (fun x ↦ x.2 = .value ∨ x.1 ∈ redacted) ValueFree
          (ps.flatMap (Piece.render (mark .outside redacted))) :=
    RunThen.render (fun _ hx ↦ .inr (mem_mark hx).1) ValueFree.tail fun _ _ h ↦ h.render
  rw [← (rule.comap Prod.fst).pieces_source text] at h
  exact RunThen.render (outside_valueFree redacted) (RunThen.tail ValueFree.tail) hinner _ hwhole h

theorem Together.redactMarked (rules : List (Rule CodePoint))
    (hkeep : ∀ rule ∈ rules, rule.keep = .empty) :
    ∀ text, Together text → Together (Discode.redactMarked rules text) := by
  induction rules with
  | nil => exact fun _ h ↦ h
  | cons rule rules ih =>
      obtain ⟨hrule, hrules⟩ := List.forall_mem_cons.mp hkeep
      exact fun text h ↦ ih hrules _ (h.sub hrule)

theorem Together.inside {l m r : MarkedText} {y z : CodePoint × Mark}
    (h : Together (l ++ y :: (m ++ z :: r))) (hy : y.2 = .value) (hz : z.2 = .value) :
    ∀ w ∈ m, w.2 = .value ∨ w.1 ∈ redacted := by
  have hrest : RunThen (fun x ↦ x.2 = .value ∨ x.1 ∈ redacted) ValueFree (m ++ z :: r) := by
    cases RunThen.of_append (RunThen.tail ValueFree.tail) h with
    | cons hx _ => exact absurd hy hx
    | done h => exact h.tail ValueFree.tail
  clear h
  induction m with
  | nil => exact fun _ hw ↦ (nomatch hw)
  | cons b m ih =>
      cases hrest with
      | cons hb hrest => exact List.forall_mem_cons.mpr ⟨hb, ih hrest⟩
      | done h => exact absurd hz (h z (List.mem_append_right (b :: m) List.mem_cons_self))

/-! ## What a match takes of the value -/

section Match

variable {u : WordChars} {d k e : Cursor (CodePoint × Mark)}

/-- The kept part of a match is the front of an assignment, with at most a quote before it. -/
theorem front_of_match (h : (markedRule u).match? d = some (k, e)) :
    ∃ (quote front : MarkedText) (f : AssignmentFront), d.upTo k = quote ++ front ∧
      front.map Prod.fst = f.kept ∧
        Boundary u ((d.before.reverse ++ quote).map Prod.fst) f.key := by
  have hmap := Rule.match?_comap Prod.fst (assignmentRule u) d
  rw [show ((assignmentRule u).comap Prod.fst).match? d = some (k, e) from h] at hmap
  obtain ⟨q, f, -, hafter, hboundary⟩ := front_of_keep (Rule.mem_of_match? hmap.symm).1
  have hkept : (d.upTo k).map Prod.fst = q ++ f.kept := by
    change d.after.map Prod.fst = q ++ (f.kept ++ k.after.map Prod.fst) at hafter
    rw [← (Rule.match?_leads h).1.upTo_append, List.map_append, ← List.append_assoc] at hafter
    exact List.append_cancel_right hafter
  obtain ⟨quote, front, hsplit, rfl, hfront⟩ := List.map_eq_append_iff.mp hkept
  refine ⟨quote, front, f, hsplit, hfront, ?_⟩
  rw [List.map_append, List.map_reverse]
  exact hboundary

/-- What a match redacts is a run of value characters between optional quotes. -/
theorem run_of_match (h : (markedRule u).match? d = some (k, e)) :
    ∃ opening x w closing, k.upTo e = opening ++ (x :: w ++ closing) ∧
      OptQuote (opening.map Prod.fst) ∧ (∀ b ∈ x :: w, isValueChar b.1 = true) ∧
        OptQuote (closing.map Prod.fst) := by
  have hmap := Rule.match?_comap Prod.fst (assignmentRule u) d
  rw [show ((assignmentRule u).comap Prod.fst).match? d = some (k, e) from h] at hmap
  obtain ⟨opening, c, w, closing, hopening, hw, hclosing, hafter⟩ :=
    run_of_secret (Rule.mem_of_match? hmap.symm).2
  have hsecret : (k.upTo e).map Prod.fst = opening ++ (c :: w ++ closing) := by
    change k.after.map Prod.fst = opening ++ (c :: w ++ (closing ++ e.after.map Prod.fst)) at hafter
    rw [← (Rule.match?_leads h).2.upTo_append, List.map_append, ← List.append_assoc,
      ← List.append_assoc] at hafter
    simpa using List.append_cancel_right hafter
  obtain ⟨opening, rest, hsplit, rfl, hrest⟩ := List.map_eq_append_iff.mp hsecret
  obtain ⟨run, closing, rfl, hrun, rfl⟩ := List.map_eq_append_iff.mp hrest
  obtain ⟨x, w, rfl, rfl, rfl⟩ := List.map_eq_cons_iff.mp hrun
  refine ⟨opening, x, w, closing, hsplit, hopening, fun b hb ↦ ?_, hclosing⟩
  exact hw b.1 (List.mem_map_of_mem (f := Prod.fst) hb)

theorem valueRun_of_match {w closing t : MarkedText} (hw : ∀ b ∈ w, isValueChar b.1 = true)
    (hclosing : OptQuote (closing.map Prod.fst)) (ht : ValueFree t) :
    ValueRun (w ++ (closing ++ t)) := by
  refine RunThen.append (.done fun y hy ↦ ?_) hw
  rcases hclosing with hnil | ⟨q, hq, hone⟩
  · rw [List.map_eq_nil_iff.mp hnil] at hy
    exact ht y ((dropQuote_suffix Prod.fst t).subset hy)
  · obtain ⟨b, closing, rfl, rfl, hrest⟩ := List.map_eq_cons_iff.mp hone
    rw [List.map_eq_nil_iff.mp hrest] at hy
    change y ∈ dropQuote Prod.fst (b :: t) at hy
    rw [dropQuote, if_pos hq] at hy
    exact ht y hy

/-- A match does not have the key of its own kept part in its redacted part. -/
theorem keySpared_of_hit {text quote front secret : MarkedText}
    {ps qs : List (Piece (CodePoint × Mark))} (hfront : front ≠ [])
    (h : (markedRule u).pieces text = ps ++ .hit (quote ++ front) secret :: qs) :
    KeySpared u text (ps.flatMap Piece.source ++ quote).length := by
  have hlen : 0 < front.length := List.length_pos_of_ne_nil hfront
  have hsame : ∀ keep' secret' : MarkedText,
      Piece.hit (quote ++ front) secret = .hit keep' secret' →
        ¬ (ps.flatMap Piece.source ++ keep').length ≤
          (ps.flatMap Piece.source ++ quote).length := by
    rintro _ _ ⟨⟩
    simp only [List.length_append]
    omega
  intro ps' keep' secret' qs' hpieces hle
  rcases List.append_eq_append_iff.mp (h.symm.trans hpieces) with ⟨l, rfl, hrest⟩ | ⟨l, rfl, hrest⟩
  · cases l with
    | nil =>
        rw [List.append_nil] at hle
        exact absurd hle (hsame keep' secret' (List.cons.inj hrest).1)
    | cons p l =>
        rw [← (List.cons.inj hrest).1, List.flatMap_append, List.flatMap_cons, Piece.source] at hle
        simp only [List.length_append] at hle
        omega
  · cases l with
    | nil =>
        rw [List.append_nil] at hsame
        exact absurd hle (by simpa using hsame keep' secret' (List.cons.inj hrest).1.symm)
    | cons p l =>
        rw [← (List.cons.inj hrest).1, List.flatMap_append, List.flatMap_cons, Piece.source]
        simp only [List.length_append]
        omega

end Match

section Pieces

variable {ps : List (Piece (CodePoint × Mark))}

theorem exists_first_piece (h : ¬ ValueFree (ps.flatMap Piece.source)) :
    ∃ qs p rs, ps = qs ++ p :: rs ∧ ValueFree (qs.flatMap Piece.source) ∧
      ∃ y ∈ p.source, y.2 = .value := by
  induction ps with
  | nil => exact absurd (fun _ hy ↦ (nomatch hy)) h
  | cons p ps ih =>
      by_cases hp : ValueFree p.source
      · have htail : ¬ ValueFree (ps.flatMap Piece.source) := fun hps ↦ h (hp.append hps)
        obtain ⟨qs, p', rs, rfl, hqs, hy⟩ := ih htail
        exact ⟨p :: qs, p', rs, rfl, ValueFree.append hp hqs, hy⟩
      · rw [ValueFree] at hp
        push Not at hp
        exact ⟨[], p, ps, rfl, fun _ hy ↦ (nomatch hy), hp⟩

/-- If nothing of the value comes out, it was in the redacted parts of matches. -/
theorem hit_of_valueFree (h : ValueFree (ps.flatMap (Piece.render (mark .outside redacted))))
    {p : Piece (CodePoint × Mark)} (hp : p ∈ ps) {y : CodePoint × Mark} (hy : y ∈ p.source)
    (hvalue : y.2 = .value) : ∃ keep secret, p = .hit keep secret ∧ ValueFree keep ∧ y ∈ secret := by
  cases p with
  | copy b => exact absurd hvalue (h y (List.mem_flatMap.mpr ⟨_, hp, hy⟩))
  | hit keep secret =>
      have hkeep : ValueFree keep :=
        fun z hz ↦ h z (List.mem_flatMap.mpr ⟨_, hp, List.mem_append_left _ hz⟩)
      rcases List.mem_append.mp hy with hy | hy
      · exact absurd hvalue (hkeep y hy)
      · exact ⟨keep, secret, rfl, hkeep, hy⟩

end Pieces

section Text

variable {u : WordChars} {text : MarkedText}

/-- One match takes all of the value: the separator of another would stand inside the value. -/
theorem Together.rest_valueFree (htext : Together text)
    (h : ValueFree ((markedRule u).sub (mark .outside redacted) text))
    {ps qs : List (Piece (CodePoint × Mark))} {keep secret : MarkedText}
    (hpieces : (markedRule u).pieces text = ps ++ .hit keep secret :: qs)
    {y : CodePoint × Mark} (hy : y ∈ secret) (hvalue : y.2 = .value) :
    ValueFree (qs.flatMap Piece.source) := by
  by_contra hrest
  obtain ⟨qs₁, p, qs₂, rfl, -, z, hz, hzvalue⟩ := exists_first_piece hrest
  have hp : p ∈ (markedRule u).pieces text := by simp [hpieces]
  obtain ⟨keep', secret', rfl, hkeep, hsecret⟩ := hit_of_valueFree h hp hz hzvalue
  have hscan : (markedRule u).scan text.length (.start text) =
      (ps ++ .hit keep secret :: qs₁) ++ .hit keep' secret' :: qs₂ := by
    rw [show (markedRule u).scan text.length (.start text) = _ from hpieces]
    simp
  obtain ⟨d, k, e, -, -, hmatch, rfl, -⟩ := Rule.match_of_scan _ _ _ hscan
  obtain ⟨quote, front, f, hkept, hfront, -⟩ := front_of_match hmatch
  obtain ⟨w, hw, hsep⟩ : ∃ w ∈ d.upTo k, w.1 = f.separator := by
    have hmem : f.separator ∈ front.map Prod.fst := by simp [hfront, AssignmentFront.kept]
    obtain ⟨w, hw, hsep⟩ := List.mem_map.mp hmem
    exact ⟨w, hkept ▸ List.mem_append_right quote hw, hsep⟩
  obtain ⟨s₁, s₂, rfl⟩ := List.append_of_mem hy
  obtain ⟨t₁, t₂, rfl⟩ := List.append_of_mem hsecret
  have hsplit : text = (ps.flatMap Piece.source ++ (keep ++ s₁)) ++ y ::
      ((s₂ ++ (qs₁.flatMap Piece.source ++ (d.upTo k ++ t₁))) ++ z ::
        (t₂ ++ qs₂.flatMap Piece.source)) := by
    rw [← (markedRule u).pieces_source text, hpieces]
    simp [Piece.source]
  rw [hsplit] at htext
  rcases htext.inside hvalue hzvalue w (by simp [hw]) with hwvalue | hredacted
  · exact hkeep w hw hwvalue
  · have hnone : ∀ c ∈ redacted, isSeparator c = false := by decide
    have hseparator := f.separator_char
    rw [← hsep, hnone _ hredacted] at hseparator
    cases hseparator

/-- The rule takes the value only as the value of one assignment. -/
theorem Together.assigned (htext : Together text)
    (h : ValueFree ((markedRule u).sub (mark .outside redacted) text)) :
    ValueFree text ∨ Assigned u text := by
  by_cases hfree : ValueFree text
  · exact .inl hfree
  right
  have hsource := (markedRule u).pieces_source text
  rw [← hsource] at hfree
  obtain ⟨ps, p, qs, hpieces, hps, y, hy, hvalue⟩ := exists_first_piece hfree
  have hp : p ∈ (markedRule u).pieces text := by simp [hpieces]
  obtain ⟨keep, secret, rfl, hkeep, hy⟩ := hit_of_valueFree h hp hy hvalue
  have hqs := htext.rest_valueFree h hpieces hy hvalue
  obtain ⟨d, k, e, -, hbefore, hmatch, rfl, rfl⟩ := Rule.match_of_scan _ _ _ hpieces
  obtain ⟨quote, front, f, hkept, hfront, hboundary⟩ := front_of_match hmatch
  obtain ⟨opening, x, w, closing, hsecret, hopening, hw, hclosing⟩ := run_of_match hmatch
  rw [hkept] at hpieces hkeep
  rw [hsecret] at hpieces
  obtain ⟨hx, hw⟩ := List.forall_mem_cons.mp hw
  obtain ⟨hquoteFree, hfrontFree⟩ := List.forall_mem_append.mp hkeep
  have hne : front ≠ [] := by
    rintro rfl
    simp [AssignmentFront.kept] at hfront
  have hsplit : text = (ps.flatMap Piece.source ++ quote) ++ (front ++ (opening ++ x ::
      (w ++ (closing ++ qs.flatMap Piece.source)))) := by
    rw [← hsource, hpieces]
    simp [Piece.source]
  have hspared := keySpared_of_hit hne hpieces
  rw [hsplit] at hspared
  refine ⟨f, _, front, opening, x, _, hsplit, ⟨hfront, hopening, hx, ?_, hspared⟩,
    hps.append hquoteFree, hfrontFree, valueRun_of_match hw hclosing hqs⟩
  rw [hbefore, List.reverse_append, List.reverse_reverse] at hboundary
  exact hboundary

end Text

/-! ## In an undisturbed text -/

namespace QuotedAssignment

variable {u : WordChars} {a : QuotedAssignment} {pre post : PyStr}

theorem run_of_valueRun {q : CodePoint} {post : PyStr} (v : PyStr)
    (h : ValueRun (mark .value v ++ mark .outside (q :: post))) :
    ∃ w, (∀ c ∈ w, isValueChar c = true) ∧ (v = w ∨ ∃ q', isQuote q' = true ∧ v = w ++ [q']) := by
  induction v with
  | nil => exact ⟨[], fun _ hc ↦ (nomatch hc), .inl rfl⟩
  | cons b v ih =>
      cases h with
      | cons hb h =>
          obtain ⟨w, hw, hv⟩ := ih h
          refine ⟨b :: w, List.forall_mem_cons.mpr ⟨hb, hw⟩, ?_⟩
          rcases hv with hv | ⟨q', hq', hv⟩
          · exact .inl (congrArg _ hv)
          · exact .inr ⟨q', hq', congrArg _ hv⟩
      | done h =>
          refine ⟨[], fun _ hc ↦ (nomatch hc), .inr ⟨b, ?_⟩⟩
          change ValueFree (dropQuote Prod.fst ((b, .value) ::
            (mark .value v ++ mark .outside (q :: post)))) at h
          rw [dropQuote] at h
          split at h
          · rename_i hquote
            cases v with
            | nil => exact ⟨hquote, rfl⟩
            | cons b' v => exact absurd rfl (h (b', .value) List.mem_cons_self)
          · exact absurd rfl (h (b, .value) List.mem_cons_self)

/-- What is kept does not end in a quote. -/
theorem kept_getLast (f : AssignmentFront) {q : CodePoint} (h : f.kept.getLast? = some q) :
    isQuote q = false := by
  have hkept : f.kept = (f.key ++ (f.closing ++ f.blanks)) ++ f.separator :: f.gap := by
    simp [AssignmentFront.kept]
  have hlast : q ∈ f.separator :: f.gap := by
    rw [hkept, List.getLast?_append_of_ne_nil _ (List.cons_ne_nil _ _)] at h
    exact List.mem_of_getLast? h
  by_contra hq
  rw [Bool.not_eq_false] at hq
  rcases List.mem_cons.mp hlast with rfl | hlast
  · have hseparator := f.separator_char
    rw [quote_not_separator hq] at hseparator
    cases hseparator
  · have hspace := f.gap_space q hlast
    rw [quote_not_space hq] at hspace
    cases hspace

/-- A run of value characters that gets to a quote ends there. -/
theorem valueFree_behind_quote {x b : CodePoint × Mark} {r l s : MarkedText}
    (hx : isValueChar x.1 = true) (hrun : ValueRun r) (hb : isQuote b.1 = true)
    (h : x :: r = l ++ b :: s) : ValueFree s := by
  have hnot := quote_not_value hb
  cases l with
  | nil =>
      rw [(List.cons.inj h).1, hnot] at hx
      cases hx
  | cons x' l =>
      rw [(List.cons.inj h).2] at hrun
      cases hrun.of_append with
      | cons hb' _ =>
          rw [hnot] at hb'
          cases hb'
      | done h =>
          change ValueFree (dropQuote Prod.fst (b :: s)) at h
          rwa [dropQuote, if_pos hb] at h

/-- A value that is in the text as it was can be taken only as one run behind its quote. -/
theorem plain_of_assigned (hne : a.value ≠ []) (h : Assigned u (a.marked pre post)) :
    a.Plain := by
  obtain ⟨f, pre', front, opening, x, r, htext, hat, hpre, hfront, hrun⟩ := h
  obtain ⟨c, v, hvalue⟩ := List.exists_cons_of_ne_nil hne
  have hmarked : a.marked pre post = (mark .outside pre ++ a.frontInit ++ [(a.quote, .between)]) ++
      (c, .value) :: (mark .value v ++ mark .outside (a.quote :: post)) := by
    rw [marked_front, front_eq, hvalue]
    simp [mark]
  have hfree := hpre.append hfront
  rw [hmarked, ← List.append_assoc pre'] at htext
  have hnotEnd : ∀ s, pre' ++ front ≠ s ++ [(a.quote, .between)] := by
    intro s hs
    have hlast := congrArg (fun t ↦ (t.map Prod.fst).getLast?) hs
    have hne : f.kept ≠ [] := by simp [AssignmentFront.kept]
    simp only [List.map_append, hat.front_kept, List.getLast?_append_of_ne_nil _ hne,
      List.map_cons, List.map_nil, List.getLast?_concat] at hlast
    have hquote := kept_getLast f hlast
    rw [a.quote_char] at hquote
    cases hquote
  obtain ⟨l, hl⟩ : ∃ l, opening ++ x :: r = l ++ (a.quote, .between) ::
      (c, .value) :: (mark .value v ++ mark .outside (a.quote :: post)) := by
    rcases List.append_eq_append_iff.mp htext with ⟨l, hl, hrest⟩ | ⟨l, hl, hrest⟩
    · cases l with
      | nil => exact absurd (hl.trans (List.append_nil _)) (hnotEnd _)
      | cons b l =>
          refine absurd rfl (hfree (c, .value) ?_)
          rw [hl, (List.cons.inj hrest).1]
          exact List.mem_append_right _ List.mem_cons_self
    · rcases List.eq_nil_or_concat l with rfl | ⟨l, b, rfl⟩
      · exact absurd (hl.trans (List.append_nil _)).symm (hnotEnd _)
      · rw [List.concat_eq_append, ← List.append_assoc] at hl
        obtain ⟨-, hb⟩ := List.append_inj' hl rfl
        rw [hrest, ← List.singleton_inj.mp hb]
        exact ⟨l, by simp⟩
  have hfound : ∀ l', x :: r ≠ l' ++ (a.quote, .between) ::
      (c, .value) :: (mark .value v ++ mark .outside (a.quote :: post)) := fun l' h ↦
    valueFree_behind_quote hat.first hrun a.quote_char h (c, .value) List.mem_cons_self rfl
  rcases hat.opening_quote with hnil | ⟨q, -, hone⟩
  · rw [List.map_eq_nil_iff.mp hnil] at hl
    exact absurd hl (hfound l)
  · obtain ⟨o, rest, rfl, -, hrest⟩ := List.map_eq_cons_iff.mp hone
    rw [List.map_eq_nil_iff.mp hrest] at hl
    cases l with
    | cons o' l => exact absurd (List.cons.inj hl).2 (hfound l)
    | nil =>
        obtain ⟨rfl, rfl⟩ := List.cons.inj (List.cons.inj hl).2
        obtain ⟨w, hw, hv⟩ := run_of_valueRun v hrun
        refine ⟨c :: w, List.cons_ne_nil c w, List.forall_mem_cons.mpr ⟨hat.first, hw⟩, ?_⟩
        rw [hvalue]
        rcases hv with hv | ⟨q', hq', hv⟩
        · exact .inl (congrArg _ hv)
        · exact .inr ⟨q', hq', congrArg _ hv⟩

theorem marked_valueFree_iff : ValueFree (a.marked pre post) ↔ a.value = [] := by
  rw [marked_front]
  constructor
  · intro h
    cases hvalue : a.value with
    | nil => rfl
    | cons c v =>
        refine absurd rfl (h (c, .value) ?_)
        rw [hvalue]
        exact List.mem_append_right _ (List.mem_append_right _ List.mem_cons_self)
  · intro hnil
    rw [hnil]
    exact (outside_valueFree pre).append ((front_valueFree a).append (outside_valueFree _))

/-- The rule takes a value of an undisturbed assignment if it is a run and at most one quote. -/
theorem undisturbed_valueFree_iff (hu : a.Undisturbed u (a.marked pre post)) :
    ValueFree ((markedRule u).sub (mark .outside redacted) (a.marked pre post)) ↔
      a.value = [] ∨ a.Plain := by
  constructor
  · intro h
    rcases (together_marked a pre post).assigned h with hfree | hassigned
    · exact .inl (marked_valueFree_iff.mp hfree)
    · exact or_iff_not_imp_left.mpr fun hne ↦ plain_of_assigned hne hassigned
  · rintro (hnil | hplain)
    · have hfree : ValueFree (a.marked pre post) := marked_valueFree_iff.mpr hnil
      rw [← (markedRule u).pieces_source (a.marked pre post)] at hfree
      exact hfree.render
    · exact ((hplain.intact pre post).assigned hu).valueFree_sub

end QuotedAssignment

/-! ## `apply_common_redaction` -/

/-- The rules behind the one for assignments. -/
def laterPatterns (u : WordChars) : List (Rule CodePoint) := (commonSecretPatterns u).tail

theorem redactMarked_rules (env : Redactor) (text : MarkedText) : redactMarked env.rules text =
    redactMarked (laterPatterns env.words) ((markedRule env.words).sub (mark .outside redacted)
      (redactMarked env.deploymentSecrets text)) := by
  have hrules : env.rules =
      env.deploymentSecrets ++ assignmentRule env.words :: laterPatterns env.words := rfl
  rw [redactMarked, hrules, List.foldl_append, List.foldl_cons, redactMarked, redactMarked,
    markedRule]

theorem deploymentSecrets_keep {env : Redactor} :
    ∀ rule ∈ env.deploymentSecrets, rule.keep = .empty := by
  intro rule hrule
  obtain ⟨v, -, rfl⟩ := List.mem_map.mp hrule
  rfl

/-- The rules, one after another, have nothing of the value in the redacted part of a match. -/
def LeftAlone : List (Rule CodePoint) → MarkedText → Prop
  | [], _ => True
  | rule :: rules, text => (∀ p ∈ (rule.comap Prod.fst).pieces text, ValueFree p.secret) ∧
      LeftAlone rules ((rule.comap Prod.fst).sub (mark .outside redacted) text)

instance LeftAlone.decidable : ∀ rules text, Decidable (LeftAlone rules text)
  | [], _ => inferInstanceAs (Decidable True)
  | rule :: rules, text =>
      have := decidable rules ((rule.comap Prod.fst).sub (mark .outside redacted) text)
      inferInstanceAs (Decidable (_ ∧ _))

theorem LeftAlone.valueFree (rules : List (Rule CodePoint)) : ∀ text, LeftAlone rules text →
    ValueFree (redactMarked rules text) → ValueFree text := by
  induction rules with
  | nil => exact fun _ _ h ↦ h
  | cons rule rules ih =>
      intro text halone h
      have hsub : ValueFree ((rule.comap Prod.fst).sub (mark .outside redacted) text) :=
        ih _ halone.2 h
      intro y hy
      rw [← (rule.comap Prod.fst).pieces_source text] at hy
      obtain ⟨p, hp, hy⟩ := List.mem_flatMap.mp hy
      intro hvalue
      obtain ⟨keep, secret, rfl, -, hsecret⟩ := hit_of_valueFree hsub hp hy hvalue
      exact halone.1 _ hp y hsecret hvalue

namespace QuotedAssignment

variable (a : QuotedAssignment) (env : Redactor) (pre post : PyStr)

/-- The text that the rule for assignments gets. -/
def met : MarkedText := redactMarked env.deploymentSecrets (a.marked pre post)

/-- The secrets of the deployment leave nothing of the value, or what they leave of it is in the
value of one assignment. -/
def Redactable : Prop := ValueFree (a.met env pre post) ∨ Assigned env.words (a.met env pre post)

theorem redactable_of_plain
    (h : a.value = [] ∨ a.Plain ∧ a.Undisturbed env.words (a.met env pre post)) :
    a.Redactable env pre post := by
  rcases h with hnil | ⟨hplain, hu⟩
  · exact .inl ((marked_valueFree_iff.mpr hnil).redactMarked _)
  · refine .inr (Intact.assigned ?_ hu)
    refine Intact.redactMarked _ deploymentSecrets_keep _ (hplain.intact pre post) ?_
    rw [show Discode.redactMarked _ _ = a.met env pre post from rfl, hu.kept]

theorem assignment_valueFree_iff : ValueFree ((markedRule env.words).sub (mark .outside redacted)
    (a.met env pre post)) ↔ a.Redactable env pre post := by
  constructor
  · exact ((together_marked a pre post).redactMarked _ deploymentSecrets_keep _).assigned
  · rintro (hfree | hassigned)
    · rw [← (markedRule env.words).pieces_source (a.met env pre post)] at hfree
      exact hfree.render
    · exact hassigned.valueFree_sub

end QuotedAssignment

/-- Nothing of a quoted value is copied if the secrets of the deployment leave nothing of it, or
leave it in the value of one assignment; in a text in which its assignment is undisturbed, that says
that the value is empty or one run.  It is exact for the rule for assignments, and for all rules
where those behind it take nothing of the value. -/
theorem quoted_value_redacted (env : Redactor) (a : QuotedAssignment) (pre post : PyStr) :
    (redactMarked env.rules (a.marked pre post)).map Prod.fst =
        applyCommonRedaction env (a.text pre post) ∧
      (a.Redactable env pre post → ValueFree (redactMarked env.rules (a.marked pre post))) ∧
      (ValueFree ((markedRule env.words).sub (mark .outside redacted) (a.met env pre post)) ↔
        a.Redactable env pre post) ∧
      (LeftAlone (laterPatterns env.words) ((markedRule env.words).sub (mark .outside redacted)
          (a.met env pre post)) →
        (ValueFree (redactMarked env.rules (a.marked pre post)) ↔ a.Redactable env pre post)) ∧
      (a.value = [] ∨ a.Plain ∧ a.Undisturbed env.words (a.met env pre post) →
        a.Redactable env pre post) ∧
      (a.Undisturbed env.words (a.marked pre post) →
        (ValueFree ((markedRule env.words).sub (mark .outside redacted) (a.marked pre post)) ↔
          a.value = [] ∨ a.Plain)) := by
  have hclean : a.Redactable env pre post →
      ValueFree (redactMarked env.rules (a.marked pre post)) := by
    intro h
    rw [redactMarked_rules]
    exact ((a.assignment_valueFree_iff env pre post).mpr h).redactMarked _
  refine ⟨?_, hclean, a.assignment_valueFree_iff env pre post, fun halone ↦ ⟨fun h ↦ ?_, hclean⟩,
    a.redactable_of_plain env pre post, QuotedAssignment.undisturbed_valueFree_iff⟩
  · rw [map_fst_redactMarked, a.map_fst_marked]
    rfl
  · rw [redactMarked_rules] at h
    exact (a.assignment_valueFree_iff env pre post).mp (halone.valueFree _ _ h)

/-- `password="…"`. -/
def passwordAssignment (value : PyStr) (h : 0x22 ∉ value ∧ 0x0a ∉ value) : QuotedAssignment where
  key := pyStr "password"
  closing := []
  blanks := []
  separator := 0x3d
  gap := []
  quote := 0x22
  value := value
  key_name := by
    unfold Regex.Matches
    decide +kernel
  closing_quote := .inl rfl
  blanks_space := by decide
  separator_char := by decide
  gap_space := by decide
  quote_char := by decide
  value_free := h

/-- A run; a value that is a secret of the deployment; and a value with a blank, where no later rule
helps. -/
theorem quoted_value_redacted_abc :
    ValueFree (redactMarked (Redactor.rules ⟨.asciiOnly, []⟩)
        ((passwordAssignment (pyStr "abc") (by decide)).marked [] [])) ∧
      ValueFree (redactMarked (Redactor.rules ⟨.asciiOnly, [pyStr "my secret value"]⟩)
        ((passwordAssignment (pyStr "my secret value") (by decide)).marked [] [])) ∧
      (ValueFree (redactMarked (Redactor.rules ⟨.asciiOnly, []⟩)
          ((passwordAssignment (pyStr "a b") (by decide)).marked [] [])) ↔
        (passwordAssignment (pyStr "a b") (by decide)).Redactable ⟨.asciiOnly, []⟩ [] []) ∧
      (ValueFree ((markedRule .asciiOnly).sub (mark .outside redacted)
          ((passwordAssignment (pyStr "a b") (by decide)).marked [] [])) ↔
        pyStr "a b" = [] ∨ (passwordAssignment (pyStr "a b") (by decide)).Plain) := by
  have habc := quoted_value_redacted ⟨.asciiOnly, []⟩
    (passwordAssignment (pyStr "abc") (by decide)) [] []
  have hsecret := quoted_value_redacted ⟨.asciiOnly, [pyStr "my secret value"]⟩
    (passwordAssignment (pyStr "my secret value") (by decide)) [] []
  have hblank := quoted_value_redacted ⟨.asciiOnly, []⟩
    (passwordAssignment (pyStr "a b") (by decide)) [] []
  refine ⟨habc.2.1 (habc.2.2.2.2.1 (.inr ⟨?_, ?_⟩)), hsecret.2.1 (.inl ?_),
    hblank.2.2.2.1 ?_, hblank.2.2.2.2.2 ?_⟩
  · exact ⟨pyStr "abc", by decide, by decide, .inl rfl⟩
  · exact ⟨by decide +kernel, by unfold Boundary; decide +kernel, by decide +kernel⟩
  · decide +kernel
  · decide +kernel
  · exact ⟨by decide +kernel, by unfold Boundary; decide +kernel, by decide +kernel⟩

/-- Of `password="a b"`, the rule takes `"a`. -/
theorem blank_value_copied :
    applyCommonRedaction ⟨.asciiOnly, []⟩ (pyStr "password=\"a b\"") =
        pyStr "password=[REDACTED] b\"" ∧
      ¬ ∀ (env : Redactor) (a : QuotedAssignment) (pre post : PyStr),
        Boundary env.words pre a.key → ValueFree (redactMarked env.rules (a.marked pre post)) := by
  refine ⟨by decide +kernel, fun h ↦ ?_⟩
  have hcopied : (0x62, Mark.value) ∈ redactMarked (Redactor.rules ⟨.asciiOnly, []⟩)
      ((passwordAssignment (pyStr "a b") (by decide)).marked [] []) := by decide +kernel
  exact h ⟨.asciiOnly, []⟩ (passwordAssignment (pyStr "a b") (by decide)) [] []
    (by unfold Boundary; decide) _ hcopied rfl

end Discode

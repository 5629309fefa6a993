import Discode.SecretAssignments

/-!
# Quoted values of secret keys

The characters of a quoted value are marked in the text, and the marks show whether one of them
is copied to the redacted text.
-/

set_option autoImplicit false

namespace Discode

open Regex

/-! ## Marks -/

inductive Mark where
  | outside
  | key
  | between
  | value
deriving DecidableEq

abbrev MarkedText := List (CodePoint × Mark)

def mark (m : Mark) (s : PyStr) : MarkedText := s.map fun c ↦ (c, m)

/-- The text with the assignment, marked. -/
def QuotedAssignment.marked (a : QuotedAssignment) (pre post : PyStr) : MarkedText :=
  mark .outside pre ++ (mark .key a.key ++ (mark .between a.between ++
    (mark .value a.value ++ mark .outside (a.quote :: post))))

/-- Redaction of a marked text; what it puts in is outside. -/
def redactMarked (rules : List (Rule CodePoint)) (text : MarkedText) : MarkedText :=
  rules.foldl (fun text rule ↦ (rule.comap Prod.fst).sub (mark .outside redacted) text) text

theorem map_fst_mark (m : Mark) (s : PyStr) : (mark m s).map Prod.fst = s := by
  rw [mark, List.map_map]
  exact List.map_id s

theorem mem_mark {m : Mark} {s : PyStr} {x : CodePoint × Mark} (hx : x ∈ mark m s) :
    x.1 ∈ s ∧ x.2 = m := by
  obtain ⟨c, hc, rfl⟩ := List.mem_map.mp hx
  exact ⟨hc, rfl⟩

theorem QuotedAssignment.map_fst_marked (a : QuotedAssignment) (pre post : PyStr) :
    (a.marked pre post).map Prod.fst = a.text pre post := by
  simp only [marked, List.map_append, map_fst_mark]
  rfl

/-- Without its marks, the text is redacted as by `apply_common_redaction`. -/
theorem map_fst_redactMarked (rules : List (Rule CodePoint)) (text : MarkedText) :
    (redactMarked rules text).map Prod.fst =
      rules.foldl (fun text rule ↦ rule.sub redacted text) (text.map Prod.fst) := by
  unfold redactMarked
  induction rules generalizing text with
  | nil => rfl
  | cons rule rules ih => rw [List.foldl_cons, List.foldl_cons, ih, Rule.sub_comap, map_fst_mark]

/-- Every character of the output is from the text or from a replacement. -/
theorem mem_redactMarked {rules : List (Rule CodePoint)} {text : MarkedText} {x : CodePoint × Mark}
    (hx : x ∈ redactMarked rules text) : x ∈ text ∨ x.2 = .outside := by
  unfold redactMarked at hx
  induction rules generalizing text with
  | nil => exact .inl hx
  | cons rule rules ih =>
      rcases ih hx with hx | hx
      · rcases mem_of_mem_render hx with hx | hx
        · rw [Rule.pieces_source] at hx
          exact .inl hx
        · exact .inr (mem_mark hx).2
      · exact .inr hx

/-- Nothing of the value is left. -/
def ValueFree (t : MarkedText) : Prop := ∀ x ∈ t, x.2 ≠ .value

instance (t : MarkedText) : Decidable (ValueFree t) :=
  inferInstanceAs (Decidable (∀ x ∈ t, x.2 ≠ .value))

theorem ValueFree.append {t t' : MarkedText} (h : ValueFree t) (h' : ValueFree t') :
    ValueFree (t ++ t') := List.forall_mem_append.mpr ⟨h, h'⟩

theorem outside_valueFree (s : PyStr) : ValueFree (mark .outside s) := by
  intro y hy
  rw [(mem_mark hy).2]
  decide

theorem ValueFree.render {ps : List (Piece (CodePoint × Mark))}
    (h : ValueFree (ps.flatMap Piece.source)) :
    ValueFree (ps.flatMap (Piece.render (mark .outside redacted))) :=
  fun y hy ↦ (mem_of_mem_render hy).elim (h y) (outside_valueFree redacted y)

theorem ValueFree.redactMarked {t : MarkedText} (h : ValueFree t) (rules : List (Rule CodePoint)) :
    ValueFree (redactMarked rules t) := by
  intro y hy
  rcases mem_redactMarked hy with hy | hy
  · exact h y hy
  · rw [hy]
    decide

/-! ## The rule for assignments -/

/-- The rule, on marked texts. -/
def markedRule (u : WordChars) : Rule (CodePoint × Mark) := (assignmentRule u).comap Prod.fst

/-- Value characters, and behind them, but for a quote, nothing of the value. -/
def ValueRun : MarkedText → Prop :=
  RunThen (fun x ↦ isValueChar x.1 = true) fun t ↦ ValueFree (dropQuote Prod.fst t)

theorem dropQuote_suffix {α : Type} (f : α → CodePoint) (t : List α) : dropQuote f t <:+ t := by
  cases t with
  | nil => exact List.suffix_rfl
  | cons x t =>
      rw [dropQuote]
      split
      · exact List.suffix_cons x t
      · exact List.suffix_rfl

theorem ValueRun.behind {r : MarkedText} (h : ValueRun r) :
    ValueFree (dropQuote Prod.fst (r.dropWhile fun x ↦ isValueChar x.1)) := by
  induction h with
  | @done t h =>
      cases t with
      | nil => exact h
      | cons x t =>
          cases hx : isValueChar x.1 with
          | false => rwa [List.dropWhile_cons_of_neg (by simp [hx])]
          | true =>
              have hquote : isQuote x.1 = false := by
                by_contra hq
                rw [quote_not_value (Bool.not_eq_false _ ▸ hq)] at hx
                cases hx
              rw [dropQuote, if_neg (by simp [hquote])] at h
              have hsuffix := (dropQuote_suffix Prod.fst _).trans
                (List.dropWhile_suffix (l := x :: t) fun x ↦ isValueChar x.1)
              exact fun y hy ↦ h y (hsuffix.subset hy)
  | @cons x t hx _ ih =>
      have hdrop : (x :: t).dropWhile (fun x ↦ isValueChar x.1) =
          t.dropWhile fun x ↦ isValueChar x.1 := List.dropWhile_cons_of_pos hx
      rwa [hdrop]

theorem eq_of_suffix_length {α : Type*} {s s' l : List α} (h : s <:+ l) (h' : s' <:+ l)
    (hlen : s.length = s'.length) : s = s' :=
  (List.suffix_of_suffix_length_le h h' hlen.le).eq_of_length hlen

/-- No match of the rule has the symbol behind the first `n` in its redacted part. -/
def KeySpared (u : WordChars) (text : MarkedText) (n : ℕ) : Prop :=
  ∀ ps keep secret qs, (markedRule u).pieces text = ps ++ .hit keep secret :: qs →
    (ps.flatMap Piece.source ++ keep).length ≤ n →
      (ps.flatMap Piece.source ++ (keep ++ secret)).length ≤ n

/-- Behind `pre` there is an assignment: `front` is what the rule keeps of it, `opening` an optional
quote, and `x` the first character of its value.  The key is at a word boundary, and no match takes
it for a value. -/
structure ValueAt (u : WordChars) (f : AssignmentFront) (pre front opening : MarkedText)
    (x : CodePoint × Mark) (r : MarkedText) : Prop where
  front_kept : front.map Prod.fst = f.kept
  opening_quote : OptQuote (opening.map Prod.fst)
  first : isValueChar x.1 = true
  boundary : Boundary u (pre.map Prod.fst) f.key
  spared : KeySpared u (pre ++ (front ++ (opening ++ x :: r))) pre.length

/-- All that is left of the quoted value is in the value of one assignment. -/
def Assigned (u : WordChars) (text : MarkedText) : Prop :=
  ∃ f pre front opening x r, text = pre ++ (front ++ (opening ++ x :: r)) ∧
    ValueAt u f pre front opening x r ∧ ValueFree pre ∧ ValueFree front ∧ ValueRun r

section Rule

variable {u : WordChars} {f : AssignmentFront} {pre front opening r : MarkedText}
  {x : CodePoint × Mark}

/-- What a match takes whose kept part has the key in it. -/
theorem ValueAt.match_takes (h : ValueAt u f pre front opening x r)
    {d k e : Cursor (CodePoint × Mark)} {y : MarkedText}
    (hd : d.after = y ++ (front ++ (opening ++ x :: r)))
    (hmatch : (markedRule u).match? d = some (k, e))
    (hkey : k.after.length < (front ++ (opening ++ x :: r)).length) :
    k.after = opening ++ x :: r ∧
      e.after = dropQuote Prod.fst (r.dropWhile fun x ↦ isValueChar x.1) := by
  have hmap : (front ++ (opening ++ x :: r)).map Prod.fst =
      f.kept ++ (opening.map Prod.fst ++ x.1 :: r.map Prod.fst) := by
    simp [h.front_kept]
  have hplain : (d.map Prod.fst).after =
      y.map Prod.fst ++ (f.kept ++ (opening.map Prod.fst ++ x.1 :: r.map Prod.fst)) := by
    rw [← hmap, ← List.map_append, ← hd]
    rfl
  have hmatch' := Rule.match?_comap Prod.fst (assignmentRule u) d
  rw [show ((assignmentRule u).comap Prod.fst).match? d = some (k, e) from hmatch] at hmatch'
  obtain ⟨hk, he⟩ := AssignmentFront.match?_takes hplain h.opening_quote h.first hmatch'.symm (by
    rw [← hmap, List.length_map, Cursor.map_length]
    exact hkey)
  obtain ⟨hdk, hke⟩ := Rule.match?_leads hmatch
  have hksuffix : k.after <:+ d.after := ⟨_, hdk.upTo_append⟩
  have hesuffix : e.after <:+ d.after := List.IsSuffix.trans ⟨_, hke.upTo_append⟩ hksuffix
  have hquote : opening ++ x :: r <:+ d.after := ⟨y ++ front, by rw [hd, List.append_assoc]⟩
  have hrest : dropQuote Prod.fst (r.dropWhile fun x ↦ isValueChar x.1) <:+ d.after := by
    have hr : r <:+ opening ++ x :: r := ⟨opening ++ [x], by simp⟩
    exact ((dropQuote_suffix _ _).trans (List.dropWhile_suffix _)).trans (hr.trans hquote)
  refine ⟨eq_of_suffix_length hksuffix hquote ?_, eq_of_suffix_length hesuffix hrest ?_⟩
  · have hlen := congrArg List.length hk
    rw [Cursor.map_length] at hlen
    simpa using hlen
  · rw [List.dropWhile_map, ← map_dropQuote] at he
    have hlen := congrArg List.length he
    rw [Cursor.map_length, List.length_map] at hlen
    exact hlen

/-- A scan that gets to the key finds a match there. -/
theorem ValueAt.match_isSome (h : ValueAt u f pre front opening x r)
    {d : Cursor (CodePoint × Mark)} (hbefore : d.before = pre.reverse)
    (hafter : d.after = front ++ (opening ++ x :: r)) :
    ∃ k e, (markedRule u).match? d = some (k, e) ∧ e.after.length < d.after.length := by
  have hplain : d.map Prod.fst = ⟨(pre.map Prod.fst).reverse,
      f.kept ++ (opening.map Prod.fst ++ x.1 :: r.map Prod.fst)⟩ := by
    rw [Cursor.map, hbefore, hafter]
    simp [h.front_kept]
  have hsome : ((assignmentRule u).match? (d.map Prod.fst)).isSome := by
    rw [hplain]
    refine AssignmentFront.match?_isSome ?_ h.opening_quote h.first
    rw [List.reverse_reverse]
    exact h.boundary
  rw [← Rule.match?_comap, Option.isSome_map] at hsome
  obtain ⟨⟨k, e⟩, hmatch⟩ := Option.isSome_iff_exists.mp hsome
  refine ⟨k, e, hmatch, ?_⟩
  have hkey : k.after.length < d.after.length := by
    have hmap := Rule.match?_comap Prod.fst (assignmentRule u) d
    rw [hmatch] at hmap
    have hlt := keep_progress (Rule.mem_of_match? hmap.symm).1
    rwa [Cursor.map_length, Cursor.map_length] at hlt
  have hlen := congrArg List.length (Rule.match?_leads hmatch).2.upTo_append
  rw [List.length_append] at hlen
  omega

/-- The rule finds the assignment. -/
theorem ValueAt.pieces (h : ValueAt u f pre front opening x r) :
    ∃ ps keep secret m e, (markedRule u).pieces (pre ++ (front ++ (opening ++ x :: r))) =
        ps ++ .hit keep secret :: (markedRule u).scan m e ∧
      ps.flatMap Piece.source ++ keep = pre ++ front ∧
      e.after = dropQuote Prod.fst (r.dropWhile fun x ↦ isValueChar x.1) ∧ e.after.length ≤ m := by
  obtain ⟨ps, d, m, harr⟩ := Rule.exists_arrives (markedRule u)
    (z := front ++ (opening ++ x :: r)) (by simp) _
    (.start (pre ++ (front ++ (opening ++ x :: r)))) pre le_rfl rfl
  obtain ⟨y, hd⟩ := harr.before
  obtain ⟨k, e, hmatch, hover⟩ : ∃ k e, (markedRule u).match? d = some (k, e) ∧
      e.after.length < (front ++ (opening ++ x :: r)).length := by
    rcases harr.step with ⟨hz, -⟩ | hmatch
    · obtain ⟨w, hw, hbefore⟩ := harr.leads
      have hpre : d.before = pre.reverse := by
        rw [hz] at hw
        rw [hbefore, ← List.append_cancel_right hw]
        exact List.append_nil _
      rw [← hz]
      exact h.match_isSome hpre hz
    · exact hmatch
  have hlt : e.after.length < d.after.length := by
    rw [hd, List.length_append]
    omega
  have hpieces : (markedRule u).pieces (pre ++ (front ++ (opening ++ x :: r))) =
      ps ++ .hit (d.upTo k) (k.upTo e) :: (markedRule u).scan m e := by
    rw [← Rule.scan_of_match hmatch hlt m]
    exact harr.scan
  obtain ⟨hdk, hke⟩ := Rule.match?_leads hmatch
  have hsource : ps.flatMap Piece.source ++ d.after = pre ++ (front ++ (opening ++ x :: r)) :=
    harr.source
  have hkey : k.after.length < (front ++ (opening ++ x :: r)).length := by
    by_contra hlate
    -- The match would have the key in its redacted part.
    have hspared := h.spared ps _ _ _ hpieces
    have htotal := congrArg List.length hsource
    have hkeep := congrArg List.length hdk.upTo_append
    have hsecret := congrArg List.length hke.upTo_append
    simp only [List.length_append] at hspared htotal hkeep hsecret hlate hover
    omega
  obtain ⟨hk, he⟩ := h.match_takes hd hmatch hkey
  have hkept : ps.flatMap Piece.source ++ d.upTo k = pre ++ front := by
    rw [← hdk.upTo_append, hk, ← List.append_assoc, ← List.append_assoc pre] at hsource
    exact List.append_cancel_right hsource
  have hfuel := harr.fuel
  exact ⟨ps, d.upTo k, k.upTo e, m, e, hpieces, hkept, he, by omega⟩

/-- It takes all that is left of the value. -/
theorem Assigned.valueFree_sub {text : MarkedText} (h : Assigned u text) :
    ValueFree ((markedRule u).sub (mark .outside redacted) text) := by
  obtain ⟨f, pre, front, opening, x, r, rfl, hat, hpre, hfront, hrun⟩ := h
  obtain ⟨ps, keep, secret, m, e, hpieces, hkept, he, hfuel⟩ := hat.pieces
  obtain ⟨hps, hkeep⟩ := List.forall_mem_append.mp (hkept ▸ hpre.append hfront)
  have hrest : ValueFree (((markedRule u).scan m e).flatMap Piece.source) := by
    rw [Rule.scan_source _ m e hfuel, he]
    exact hrun.behind
  rw [Rule.sub, hpieces, List.flatMap_append, List.flatMap_cons]
  exact (ValueFree.render hps).append
    ((ValueFree.append hkeep (outside_valueFree redacted)).append hrest.render)

end Rule

/-! ## The secrets of the deployment -/

/-- The assignment up to the value, marked. -/
def QuotedAssignment.front (a : QuotedAssignment) : MarkedText :=
  mark .key a.key ++ mark .between a.between

/-- The part of it in front of the opening quote. -/
def QuotedAssignment.frontInit (a : QuotedAssignment) : MarkedText :=
  mark .key a.key ++ mark .between (a.closing ++ (a.blanks ++ (a.separator :: a.gap)))

theorem front_eq (a : QuotedAssignment) : a.front = a.frontInit ++ [(a.quote, .between)] := by
  simp [QuotedAssignment.front, QuotedAssignment.frontInit, QuotedAssignment.between, mark]

theorem frontInit_kept (a : QuotedAssignment) : a.frontInit.map Prod.fst = a.kept := by
  rw [QuotedAssignment.frontInit, List.map_append, map_fst_mark, map_fst_mark]
  rfl

theorem front_valueFree (a : QuotedAssignment) : ValueFree a.front := by
  intro y hy
  rcases List.mem_append.mp hy with hy | hy
  · rw [(mem_mark hy).2]
    decide
  · rw [(mem_mark hy).2]
    decide

/-- The key, or a character between key and value. -/
def IsFront (x : CodePoint × Mark) : Bool := x.2 == .key || x.2 == .between

/-- The assignment is in place, with something of its value. -/
def QuotedAssignment.Intact (a : QuotedAssignment) (text : MarkedText) : Prop :=
  ∃ pre x r, text = pre ++ (a.front ++ x :: r) ∧ (∀ y ∈ pre, y.2 = .outside) ∧
    (∀ y ∈ x :: r, IsFront y = false) ∧ isValueChar x.1 = true ∧ ValueRun r

theorem isFront_front {a : QuotedAssignment} {y : CodePoint × Mark} (hy : y ∈ a.front) :
    IsFront y = true := by
  rcases List.mem_append.mp hy with hy | hy <;> simp [IsFront, (mem_mark hy).2]

theorem isFront_redacted {y : CodePoint × Mark} (hy : y ∈ mark .outside redacted) :
    IsFront y = false := by
  simp [IsFront, (mem_mark hy).2]

theorem filter_redacted : (mark .outside redacted).filter IsFront = [] := by
  rw [List.filter_eq_nil_iff]
  intro y hy
  simp [isFront_redacted hy]

/-- A pass takes from the front of the assignment what its matches take. -/
theorem front_count (ps : List (Piece (CodePoint × Mark))) :
    ((ps.flatMap (Piece.render (mark .outside redacted))).filter IsFront).length +
      ((ps.flatMap Piece.secret).filter IsFront).length =
        ((ps.flatMap Piece.source).filter IsFront).length := by
  induction ps with
  | nil => rfl
  | cons p ps ih =>
      have hpiece : ((p.render (mark .outside redacted)).filter IsFront).length +
          (p.secret.filter IsFront).length = (p.source.filter IsFront).length := by
        cases p with
        | copy a => rfl
        | hit keep secret =>
            rw [Piece.render, Piece.source, Piece.secret, List.filter_append, List.filter_append,
              filter_redacted, List.append_nil, List.length_append]
      simp only [List.flatMap_cons, List.filter_append, List.length_append]
      omega

theorem redacted_value {x : CodePoint × Mark} (hx : x ∈ mark .outside redacted) :
    isValueChar x.1 = true := by
  have hall : ∀ c ∈ redacted, isValueChar c = true := by decide
  exact hall x.1 (mem_mark hx).1

theorem ValueFree.of_cons {x : CodePoint × Mark} {t : MarkedText}
    (h : ValueFree (dropQuote Prod.fst (x :: t))) : ValueFree (dropQuote Prod.fst t) := by
  intro y hy
  have hy := (dropQuote_suffix _ _).subset hy
  refine h y ?_
  rw [dropQuote]
  split
  · exact hy
  · exact List.mem_cons_of_mem x hy

theorem ValueFree.render_dropQuote (ps : List (Piece (CodePoint × Mark))) (hps : ∀ p ∈ ps, p.Whole)
    (h : ValueFree (dropQuote Prod.fst (ps.flatMap Piece.source))) :
    ValueFree (dropQuote Prod.fst (ps.flatMap (Piece.render (mark .outside redacted)))) := by
  cases ps with
  | nil => exact h
  | cons p ps =>
      rw [List.flatMap_cons] at h ⊢
      cases hps p List.mem_cons_self with
      | hit b s =>
          -- The replacement does not begin with a quote.
          have hrest : ValueFree (ps.flatMap Piece.source) := by
            intro y hy
            refine h y ?_
            change y ∈ dropQuote Prod.fst (b :: (s ++ ps.flatMap Piece.source))
            rw [dropQuote]
            split
            · exact List.mem_append_right s hy
            · exact List.mem_cons_of_mem b (List.mem_append_right s hy)
          have hall : ValueFree (mark .outside redacted ++
              ps.flatMap (Piece.render (mark .outside redacted))) :=
            (outside_valueFree redacted).append hrest.render
          exact fun y hy ↦ hall y ((dropQuote_suffix _ _).subset hy)
      | copy b =>
          change ValueFree (dropQuote Prod.fst (b :: ps.flatMap Piece.source)) at h
          change ValueFree (dropQuote Prod.fst (b :: ps.flatMap _))
          rw [dropQuote] at h ⊢
          split
          · rename_i hquote
            rw [if_pos hquote] at h
            exact h.render
          · rename_i hquote
            rw [if_neg hquote] at h
            obtain ⟨hb, h⟩ := List.forall_mem_cons.mp h
            exact List.forall_mem_cons.mpr ⟨hb, ValueFree.render h⟩

theorem ValueRun.of_append {t t' : MarkedText} (h : ValueRun (t ++ t')) : ValueRun t' :=
  RunThen.of_append (fun _ _ h ↦ h.of_cons) h

theorem ValueRun.render (ps : List (Piece (CodePoint × Mark))) (hps : ∀ p ∈ ps, p.Whole)
    (h : ValueRun (ps.flatMap Piece.source)) :
    ValueRun (ps.flatMap (Piece.render (mark .outside redacted))) :=
  RunThen.render (fun _ hx ↦ redacted_value hx) (fun _ _ h ↦ h.of_cons) ValueFree.render_dropQuote
    ps hps h

/-- A value character at the start of a run stays one, or a replacement stands there. -/
theorem ValueRun.render_cons {ps : List (Piece (CodePoint × Mark))} (hps : ∀ p ∈ ps, p.Whole)
    {x : CodePoint × Mark} {r : MarkedText} (h : ps.flatMap Piece.source = x :: r)
    (hx : isValueChar x.1 = true) (hrun : ValueRun r) :
    ∃ x' r', ps.flatMap (Piece.render (mark .outside redacted)) = x' :: r' ∧
      isValueChar x'.1 = true ∧ ValueRun r' := by
  cases ps with
  | nil => cases h
  | cons p ps =>
      obtain ⟨hp, htail⟩ := List.forall_mem_cons.mp hps
      cases hp with
      | copy b =>
          obtain ⟨rfl, rfl⟩ := List.cons.inj h
          exact ⟨b, _, rfl, hx, hrun.render ps htail⟩
      | hit b s =>
          obtain ⟨-, hr⟩ := List.cons.inj h
          have hrest : ValueRun (ps.flatMap Piece.source) := by
            rw [← hr] at hrun
            exact hrun.of_append
          refine ⟨(0x5b, .outside), _, rfl, by decide, ?_⟩
          refine RunThen.append (t := mark .outside (pyStr "REDACTED]")) (hrest.render ps htail) ?_
          exact fun x hx ↦ redacted_value (List.mem_cons_of_mem _ hx)

/-- A later pass does not bring anything of the front back. -/
theorem front_length_le (rules : List (Rule CodePoint)) : ∀ text : MarkedText,
    ((redactMarked rules text).filter IsFront).length ≤ (text.filter IsFront).length := by
  induction rules with
  | nil => exact fun _ ↦ le_rfl
  | cons rule rules ih =>
      intro text
      refine (ih _).trans ?_
      have hcount := front_count ((rule.comap Prod.fst).pieces text)
      rw [Rule.pieces_source] at hcount
      exact hcount ▸ Nat.le_add_right _ _

namespace QuotedAssignment

variable {a : QuotedAssignment} {text : MarkedText}

theorem front_cons (a : QuotedAssignment) : ∃ c front, a.front = c :: front := by
  obtain ⟨c, key, hcons⟩ := List.exists_cons_of_ne_nil a.key_ne_nil
  refine ⟨(c, .key), mark .key key ++ mark .between a.between, ?_⟩
  rw [front, hcons]
  rfl

theorem Intact.filter (h : a.Intact text) : text.filter IsFront = a.front := by
  obtain ⟨pre, x, r, rfl, hpre, hr, -, -⟩ := h
  have hpre : pre.filter IsFront = [] := by
    rw [List.filter_eq_nil_iff]
    intro y hy
    simp [IsFront, hpre y hy]
  have hfront : a.front.filter IsFront = a.front :=
    List.filter_eq_self.mpr fun y hy ↦ isFront_front hy
  have hrest : (x :: r).filter IsFront = [] := by
    rw [List.filter_eq_nil_iff]
    intro y hy
    simp [hr y hy]
  rw [List.filter_append, List.filter_append, hpre, hfront, hrest, List.append_nil]
  rfl

/-- A pass whose matches take nothing of the front leaves the assignment in place. -/
theorem Intact.sub (h : a.Intact text) {rule : Rule CodePoint} (hkeep : rule.keep = .empty)
    (hfront : a.front.length ≤
      (((rule.comap Prod.fst).sub (mark .outside redacted) text).filter IsFront).length) :
    a.Intact ((rule.comap Prod.fst).sub (mark .outside redacted) text) := by
  have hfilter := h.filter
  obtain ⟨pre, x, r, htext, hpre, hr, hx, hrun⟩ := h
  have hkeep : (rule.comap Prod.fst : Rule (CodePoint × Mark)).keep = .empty := by
    rw [Rule.comap, hkeep]
    rfl
  have hsource := (rule.comap Prod.fst).pieces_source text
  have hwhole : ∀ p ∈ (rule.comap Prod.fst).pieces text, p.Whole :=
    Rule.scan_whole hkeep _ _
  rw [Rule.sub] at hfront ⊢
  generalize (rule.comap Prod.fst).pieces text = ps at hsource hwhole hfront ⊢
  -- No match takes anything of the front.
  have hsecret : ∀ p ∈ ps, ∀ y ∈ a.front, y ∉ p.secret := by
    intro p hp y hy hmem
    have hcount := front_count ps
    rw [hsource, hfilter] at hcount
    have hnil : (ps.flatMap Piece.secret).filter IsFront = [] :=
      List.length_eq_zero_iff.mp (by omega)
    have hin : y ∈ (ps.flatMap Piece.secret).filter IsFront :=
      List.mem_filter.mpr ⟨List.mem_flatMap.mpr ⟨p, hp, hmem⟩, isFront_front hy⟩
    rw [hnil] at hin
    cases hin
  obtain ⟨c, front, hcons⟩ := a.front_cons
  have hsplit : ps.flatMap Piece.source = pre ++ c :: (front ++ x :: r) := by
    rw [hsource, htext, hcons]
    rfl
  obtain ⟨qs, rs, rfl, hqs, hrs⟩ := split_pieces ps hwhole
    (fun p hp ↦ hsecret p hp c (hcons ▸ List.mem_cons_self)) pre hsplit
  have htail : ∀ p ∈ rs, p ∈ qs ++ .copy c :: rs :=
    fun p hp ↦ List.mem_append_right qs (List.mem_cons_of_mem _ hp)
  obtain ⟨vs, rfl, hvs⟩ := copy_pieces front rs (fun p hp ↦ hwhole p (htail p hp))
    (fun p hp y hy ↦ hsecret p (htail p hp) y (hcons ▸ List.mem_cons_of_mem c hy)) hrs
  obtain ⟨x', r', hvalue, hx', hrun'⟩ := ValueRun.render_cons
    (fun p hp ↦ hwhole p (htail p (List.mem_append_right _ hp))) hvs hx hrun
  refine ⟨qs.flatMap (Piece.render (mark .outside redacted)), x', r', ?_, ?_, ?_, hx', hrun'⟩
  · rw [List.flatMap_append, List.flatMap_cons, List.flatMap_append, hvalue, hcons]
    have hcopy : (front.map Piece.copy).flatMap (Piece.render (mark .outside redacted)) = front := by
      rw [List.flatMap_map]
      exact List.flatMap_singleton' front
    rw [hcopy]
    rfl
  · intro y hy
    rcases mem_of_mem_render hy with hy | hy
    · exact hpre y (hqs ▸ hy)
    · exact (mem_mark hy).2
  · intro y hy
    rw [← hvalue] at hy
    rcases mem_of_mem_render hy with hy | hy
    · exact hr y (hvs ▸ hy)
    · exact isFront_redacted hy

/-- The secrets of the deployment leave the assignment in place if they leave its front in place. -/
theorem Intact.redactMarked (rules : List (Rule CodePoint))
    (hkeep : ∀ rule ∈ rules, rule.keep = .empty) : ∀ text, a.Intact text →
    a.front.length ≤ ((Discode.redactMarked rules text).filter IsFront).length →
      a.Intact (Discode.redactMarked rules text) := by
  induction rules with
  | nil => exact fun _ h _ ↦ h
  | cons rule rules ih =>
      intro text h hfront
      obtain ⟨hrule, hrules⟩ := List.forall_mem_cons.mp hkeep
      have hle := front_length_le rules ((rule.comap Prod.fst).sub (mark .outside redacted) text)
      exact ih hrules _ (h.sub hrule (hfront.trans hle)) hfront

/-! ## Values of one run -/

/-- The value has no blank, comma, semicolon, brace or quote, but for a quote at its end. -/
def Plain (a : QuotedAssignment) : Prop :=
  ∃ w, w ≠ [] ∧ (∀ c ∈ w, isValueChar c = true) ∧
    (a.value = w ∨ ∃ q, isQuote q = true ∧ a.value = w ++ [q])

theorem marked_front (a : QuotedAssignment) (pre post : PyStr) : a.marked pre post =
    mark .outside pre ++ (a.front ++ (mark .value a.value ++ mark .outside (a.quote :: post))) := by
  simp [marked, front]

theorem Plain.intact (h : a.Plain) (pre post : PyStr) : a.Intact (a.marked pre post) := by
  obtain ⟨w, hw, hchars, hvalue⟩ := h
  obtain ⟨c, w, rfl⟩ := List.exists_cons_of_ne_nil hw
  obtain ⟨hc, hchars⟩ := List.forall_mem_cons.mp hchars
  have hrest : ∀ t : MarkedText, ValueRun t → ValueRun (mark .value w ++ t) := by
    intro t ht
    refine RunThen.append ht fun x hx ↦ ?_
    exact hchars x.1 (mem_mark hx).1
  have hbehind : ValueRun (mark .outside (a.quote :: post)) :=
    .done fun x hx ↦ outside_valueFree _ x ((dropQuote_suffix _ _).subset hx)
  have hnotFront : ∀ y ∈ mark .value a.value ++ mark .outside (a.quote :: post),
      IsFront y = false := by
    intro y hy
    rcases List.mem_append.mp hy with hy | hy <;> simp [IsFront, (mem_mark hy).2]
  rw [marked_front]
  rcases hvalue with hvalue | ⟨q, hq, hvalue⟩
  · rw [hvalue] at hnotFront ⊢
    exact ⟨_, _, _, rfl, fun y hy ↦ (mem_mark hy).2, hnotFront, hc, hrest _ hbehind⟩
  · have hquote : ValueRun ((q, .value) :: mark .outside (a.quote :: post)) := by
      refine .done fun x hx ↦ ?_
      rw [dropQuote, if_pos hq] at hx
      exact outside_valueFree _ x hx
    have hsplit : mark .value a.value ++ mark .outside (a.quote :: post) =
        (c, .value) :: (mark .value w ++ (q, .value) :: mark .outside (a.quote :: post)) := by
      rw [hvalue]
      simp [mark]
    rw [hsplit] at hnotFront ⊢
    exact ⟨_, _, _, rfl, fun y hy ↦ (mem_mark hy).2, hnotFront, hc, hrest _ hquote⟩

/-- In a text at which the rule for assignments begins, key, separator and opening quote stand as
they were, the key at a word boundary, and no match takes the key into its value. -/
structure Undisturbed (u : WordChars) (a : QuotedAssignment) (text : MarkedText) : Prop where
  kept : text.filter IsFront = a.front
  boundary : Boundary u ((text.takeWhile fun x ↦ !IsFront x).map Prod.fst) a.key
  free : ∀ p ∈ (markedRule u).pieces text, ∀ y ∈ p.secret, y.2 ≠ .key

theorem takeWhile_front {pre t : MarkedText} (hpre : ∀ y ∈ pre, y.2 = .outside) :
    (pre ++ (a.front ++ t)).takeWhile (fun x ↦ !IsFront x) = pre := by
  obtain ⟨c, front, hcons⟩ := a.front_cons
  have hc : IsFront c = true := isFront_front (hcons ▸ List.mem_cons_self)
  rw [List.takeWhile_append_of_pos fun y hy ↦ by simp [IsFront, hpre y hy], hcons, List.cons_append,
    List.takeWhile_cons_of_neg (by simp [hc]), List.append_nil]

/-- If no match takes the key into its redacted part, none takes its first character. -/
theorem keySpared_of_free {u : WordChars} {pre z : MarkedText} {c : CodePoint}
    (hfree : ∀ p ∈ (markedRule u).pieces (pre ++ (c, .key) :: z), ∀ y ∈ p.secret, y.2 ≠ .key) :
    KeySpared u (pre ++ (c, .key) :: z) pre.length := by
  intro ps keep secret qs hpieces hkeep
  by_contra hlate
  refine hfree (.hit keep secret) ?_ (c, .key) ?_ rfl
  · rw [hpieces]
    exact List.mem_append_right ps List.mem_cons_self
  · have hsource := (markedRule u).pieces_source (pre ++ (c, .key) :: z)
    rw [hpieces, List.flatMap_append, List.flatMap_cons, Piece.source] at hsource
    have hsplit : (ps.flatMap Piece.source ++ keep) ++ (secret ++ qs.flatMap Piece.source) =
        pre ++ (c, .key) :: z := by
      rw [← hsource]
      simp
    obtain ⟨l, hpre, hl⟩ : ∃ l, pre = (ps.flatMap Piece.source ++ keep) ++ l ∧
        secret ++ qs.flatMap Piece.source = l ++ (c, .key) :: z := by
      rcases List.append_eq_append_iff.mp hsplit with h | ⟨l, hl, hrest⟩
      · exact h
      · have hnil : l = [] := by
          rw [hl, List.length_append] at hkeep
          exact List.eq_nil_of_length_eq_zero (by omega)
        exact ⟨[], by rw [hl, hnil]; simp, by rw [hrest, hnil]; rfl⟩
    rcases List.append_eq_append_iff.mp hl with ⟨w, hw, -⟩ | ⟨w, hw, hrest⟩
    · rw [hpre, hw] at hlate
      simp only [List.length_append] at hlate
      omega
    · cases w with
      | nil =>
          rw [hpre, hw] at hlate
          simp only [List.length_append, List.length_nil] at hlate
          omega
      | cons b w =>
          rw [hw, (List.cons.inj hrest).1]
          exact List.mem_append_right l List.mem_cons_self

theorem Intact.assigned {u : WordChars} (h : a.Intact text) (hu : a.Undisturbed u text) :
    Assigned u text := by
  obtain ⟨pre, x, r, rfl, hpre, -, hx, hrun⟩ := h
  have hboundary := hu.boundary
  rw [takeWhile_front hpre] at hboundary
  obtain ⟨c, key, hcons⟩ := List.exists_cons_of_ne_nil a.key_ne_nil
  have hspared : KeySpared u (pre ++ (a.front ++ x :: r)) pre.length := by
    have hfree := hu.free
    have hfront : a.front ++ x :: r =
        (c, .key) :: (mark .key key ++ mark .between a.between ++ x :: r) := by
      simp [front, hcons, mark]
    rw [hfront] at hfree ⊢
    exact keySpared_of_free hfree
  have htext : a.front ++ x :: r = a.frontInit ++ ([(a.quote, .between)] ++ x :: r) := by
    rw [front_eq, List.append_assoc]
  rw [htext] at hspared
  refine ⟨a.toAssignmentFront, pre, a.frontInit, [(a.quote, .between)], x, r, by rw [htext],
    ⟨frontInit_kept a, .inr ⟨a.quote, a.quote_char, rfl⟩, hx, hboundary, hspared⟩, ?_, ?_, hrun⟩
  · intro y hy
    rw [hpre y hy]
    decide
  · exact fun y hy ↦ front_valueFree a y (front_eq a ▸ List.mem_append_left _ hy)

end QuotedAssignment

end Discode

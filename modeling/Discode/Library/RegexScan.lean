import Discode.Library.Regex
import Mathlib.Data.List.Infix

/-!
# What a scan finds

The pieces of a scan are the text, cut.  A bracketed replacement therefore joins no two
parts of a text into a word without brackets, the rule of a single word leaves no
occurrence of it, and a symbol that a rule never looks at or beyond separates the text
into parts that are scanned independently.
-/

set_option autoImplicit false

namespace Regex

variable {α : Type*}

/-! ## Matches move forward -/

/-- `e` is a later position of the same text. -/
def Cursor.Leads (c e : Cursor α) : Prop :=
  ∃ w, c.after = w ++ e.after ∧ e.before = w.reverse ++ c.before

namespace Cursor

theorem Leads.refl (c : Cursor α) : c.Leads c := ⟨[], rfl, rfl⟩

theorem Leads.trans {c d e : Cursor α} (h : c.Leads d) (h' : d.Leads e) : c.Leads e := by
  obtain ⟨w, hafter, hbefore⟩ := h
  obtain ⟨w', hafter', hbefore'⟩ := h'
  refine ⟨w ++ w', ?_, ?_⟩
  · rw [hafter, hafter', List.append_assoc]
  · rw [hbefore', hbefore, List.reverse_append, List.append_assoc]

theorem upTo_of_append {c e : Cursor α} {w : List α} (h : c.after = w ++ e.after) :
    c.upTo e = w := by
  rw [upTo, h, List.length_append, Nat.add_sub_cancel, List.take_left]

theorem Leads.upTo_append {c e : Cursor α} (h : c.Leads e) : c.upTo e ++ e.after = c.after := by
  obtain ⟨w, hafter, -⟩ := h
  rw [upTo_of_append hafter, hafter]

end Cursor

/-- Where a single symbol is matched. -/
theorem mem_ends_char {p : α → Bool} {c e : Cursor α} : e ∈ (Regex.char p).ends c ↔
    ∃ a, c.after = a :: e.after ∧ p a = true ∧ e.before = a :: c.before := by
  obtain ⟨before, after⟩ := c
  obtain ⟨before', after'⟩ := e
  cases after with
  | nil => simp [ends]
  | cons a as =>
      rw [ends]
      cases ha : p a with
      | false => simp [ha]
      | true =>
          simp [ha]
          tauto

theorem mem_iterate_succ {step : Cursor α → List (Cursor α)} {greedy : Bool} {n : ℕ}
    {c e : Cursor α} : e ∈ iterate step greedy (n + 1) c ↔ e = c ∨
      e ∈ ((step c).filter fun e ↦ e.after.length < c.after.length).flatMap
        (iterate step greedy n) := by
  rw [iterate]
  cases greedy <;> simp [or_comm]

theorem iterate_leads {step : Cursor α → List (Cursor α)} {greedy : Bool}
    (hstep : ∀ c, ∀ e ∈ step c, c.Leads e) (n : ℕ) :
    ∀ c, ∀ e ∈ iterate step greedy n c, c.Leads e := by
  induction n with
  | zero =>
      intro c e he
      rw [List.mem_singleton.mp he]
      exact .refl c
  | succ n ih =>
      intro c e he
      rcases mem_iterate_succ.mp he with rfl | hmore
      · exact .refl e
      · obtain ⟨d, hd, he⟩ := List.mem_flatMap.mp hmore
        exact (hstep c d (List.mem_of_mem_filter hd)).trans (ih d e he)

theorem ends_leads (r : Regex α) : ∀ c, ∀ e ∈ r.ends c, c.Leads e := by
  induction r with
  | empty =>
      intro c e he
      rw [List.mem_singleton.mp he]
      exact .refl c
  | char p =>
      intro c e he
      rw [ends] at he
      split at he
      · cases he
      · rename_i a as hafter
        split at he
        · rw [List.mem_singleton.mp he]
          exact ⟨[a], hafter, rfl⟩
        · cases he
  | look p =>
      intro c e he
      rw [ends] at he
      split at he
      · rw [List.mem_singleton.mp he]
        exact .refl c
      · cases he
  | seq r s ihr ihs =>
      intro c e he
      obtain ⟨d, hd, he⟩ := List.mem_flatMap.mp he
      exact (ihr c d hd).trans (ihs d e he)
  | alt r s ihr ihs =>
      intro c e he
      rcases List.mem_append.mp he with he | he
      · exact ihr c e he
      · exact ihs c e he
  | star greedy r ih => exact fun c e he ↦ iterate_leads ih _ c e he

namespace Rule

variable {rule : Rule α}

theorem mem_of_match? {c k e : Cursor α} (h : rule.match? c = some (k, e)) :
    k ∈ rule.keep.ends c ∧ e ∈ rule.secret.ends k := by
  obtain ⟨k', hk, hmem⟩ := List.mem_flatMap.mp (List.mem_of_mem_head? h)
  obtain ⟨e', he, heq⟩ := List.mem_map.mp hmem
  cases heq
  exact ⟨hk, he⟩

theorem head?_flatMap_eq {β γ : Type*} {g : β → List γ} {x : γ} (l : List β)
    (h : (l.flatMap g).head? = some x) : ∃ a ∈ l, (g a).head? = some x := by
  induction l with
  | nil => cases h
  | cons a l ih =>
      rw [List.flatMap_cons, List.head?_append] at h
      cases hg : (g a).head? with
      | some y =>
          rw [hg] at h
          exact ⟨a, List.mem_cons_self, hg.trans h⟩
      | none =>
          rw [hg] at h
          obtain ⟨b, hb, hx⟩ := ih h
          exact ⟨b, List.mem_cons_of_mem a hb, hx⟩

/-- The second part of a match is the first choice of the engine. -/
theorem head?_of_match? {c k e : Cursor α} (h : rule.match? c = some (k, e)) :
    k ∈ rule.keep.ends c ∧ (rule.secret.ends k).head? = some e := by
  obtain ⟨k', hk, hhead⟩ := head?_flatMap_eq _ h
  rw [List.head?_map] at hhead
  obtain ⟨e', he, heq⟩ := Option.map_eq_some_iff.mp hhead
  cases heq
  exact ⟨hk, he⟩

theorem match?_leads {c k e : Cursor α} (h : rule.match? c = some (k, e)) :
    c.Leads k ∧ k.Leads e := by
  obtain ⟨hk, he⟩ := mem_of_match? h
  exact ⟨ends_leads _ c k hk, ends_leads _ k e he⟩

/-- What a scan does at a position: it passes a symbol on or jumps over a match. -/
inductive ScanStep (rule : Rule α) (n : ℕ) (c : Cursor α) : List (Piece α) → Prop where
  | stop (h : c.after = []) : ScanStep rule n c []
  | copy {a : α} {as : List α} (h : c.after = a :: as)
      (hmiss : ∀ k e, rule.match? c = some (k, e) → ¬ e.after.length < c.after.length) :
      ScanStep rule n c (.copy a :: rule.scan n ⟨a :: c.before, as⟩)
  | hit {k e : Cursor α} (h : rule.match? c = some (k, e))
      (hlt : e.after.length < c.after.length) :
      ScanStep rule n c (.hit (c.upTo k) (k.upTo e) :: rule.scan n e)

theorem scan_step (n : ℕ) (c : Cursor α) : rule.ScanStep n c (rule.scan (n + 1) c) := by
  rw [scan]
  split
  · rename_i h
    exact .stop h
  · rename_i a as h
    split
    · rename_i k e hmatch
      split
      · rename_i hlt
        exact .hit hmatch hlt
      · rename_i hnot
        refine .copy h fun k' e' hmatch' ↦ ?_
        cases hmatch.symm.trans hmatch'
        exact hnot
    · rename_i hmatch
      refine .copy h fun k e hmatch' ↦ ?_
      cases hmatch.symm.trans hmatch'

end Rule

/-! ## The pieces are the text -/

def Piece.source : Piece α → List α
  | .copy a => [a]
  | .hit keep secret => keep ++ secret

theorem Rule.scan_source (rule : Rule α) (n : ℕ) :
    ∀ c : Cursor α, c.after.length ≤ n → (rule.scan n c).flatMap Piece.source = c.after := by
  induction n with
  | zero =>
      intro c hn
      rw [List.eq_nil_of_length_eq_zero (Nat.le_zero.mp hn)]
      rfl
  | succ n ih =>
      intro c hn
      have hstep := rule.scan_step n c
      generalize rule.scan (n + 1) c = ps at hstep ⊢
      cases hstep with
      | stop h => exact h.symm
      | copy h _ =>
          rw [h] at hn ⊢
          rw [List.flatMap_cons, ih _ (Nat.le_of_succ_le_succ hn)]
          rfl
      | hit h hlt =>
          obtain ⟨hk, he⟩ := match?_leads h
          rw [List.flatMap_cons, ih _ (by omega), Piece.source, List.append_assoc,
            he.upTo_append, hk.upTo_append]

theorem Rule.pieces_source (rule : Rule α) (text : List α) :
    (rule.pieces text).flatMap Piece.source = text :=
  rule.scan_source text.length (.start text) le_rfl

/-- Deleting matches leaves a part of the text. -/
theorem Rule.sub_nil_sublist (rule : Rule α) (text : List α) :
    List.Sublist (rule.sub [] text) text := by
  have hpiece : ∀ p : Piece α, List.Sublist (p.render []) p.source := by
    intro p
    cases p with
    | copy a => exact List.Sublist.refl _
    | hit keep secret => exact (List.append_sublist_append_left keep).mpr (List.nil_sublist _)
  have hpieces : ∀ ps : List (Piece α),
      List.Sublist (ps.flatMap (Piece.render [])) (ps.flatMap Piece.source) := by
    intro ps
    induction ps with
    | nil => exact List.Sublist.refl _
    | cons p ps ih => exact (hpiece p).append ih
  calc
    List.Sublist (rule.sub [] text) ((rule.pieces text).flatMap Piece.source) := hpieces _
    _ = text := rule.pieces_source text

/-- A text that ends in `a` keeps its end, or gets that of the replacement. -/
theorem Rule.sub_concat (rule : Rule α) (t r : List α) (a d : α) :
    ∃ s, rule.sub (r ++ [d]) (t ++ [a]) = s ++ [a] ∨ rule.sub (r ++ [d]) (t ++ [a]) = s ++ [d] := by
  have hsource := rule.pieces_source (t ++ [a])
  unfold Rule.sub
  rcases List.eq_nil_or_concat (rule.pieces (t ++ [a])) with hnil | ⟨ps, p, hps⟩
  · rw [hnil] at hsource
    exact absurd hsource.symm (by simp)
  · rw [hps, List.concat_eq_append, List.flatMap_append, List.flatMap_singleton] at hsource ⊢
    cases p with
    | copy b =>
        obtain ⟨-, hab⟩ := List.append_inj' hsource rfl
        rw [List.singleton_inj.mp hab]
        exact ⟨_, .inl rfl⟩
    | hit keep secret =>
        refine ⟨ps.flatMap (Piece.render (r ++ [d])) ++ (keep ++ r), .inr ?_⟩
        rw [Piece.render, List.append_assoc, List.append_assoc]

/-- What comes out is from the text or from the replacement. -/
theorem mem_of_mem_render {replacement : List α} {x : α} {ps : List (Piece α)}
    (h : x ∈ ps.flatMap (Piece.render replacement)) :
    x ∈ ps.flatMap Piece.source ∨ x ∈ replacement := by
  obtain ⟨p, hp, hx⟩ := List.mem_flatMap.mp h
  cases p with
  | copy a => exact .inl (List.mem_flatMap.mpr ⟨_, hp, hx⟩)
  | hit keep secret =>
      rcases List.mem_append.mp hx with hx | hx
      · exact .inl (List.mem_flatMap.mpr ⟨_, hp, List.mem_append_left _ hx⟩)
      · exact .inr hx

/-- The part of the text that is replaced. -/
def Piece.secret : Piece α → List α
  | .copy _ => []
  | .hit _ secret => secret

theorem Rule.scan_of_match {rule : Rule α} {c k e : Cursor α} (h : rule.match? c = some (k, e))
    (hlt : e.after.length < c.after.length) (n : ℕ) :
    rule.scan (n + 1) c = .hit (c.upTo k) (k.upTo e) :: rule.scan n e := by
  rw [scan]
  split
  · rename_i hafter
    rw [hafter] at hlt
    cases hlt
  · rw [h]
    exact if_pos hlt

/-- The scan of `c` gets to the symbols `z`: at `d` it passes the first of them on, or it jumps over
it. -/
structure Rule.Arrives (rule : Rule α) (n : ℕ) (c : Cursor α) (z : List α) (ps : List (Piece α))
    (d : Cursor α) (m : ℕ) : Prop where
  leads : c.Leads d
  source : ps.flatMap Piece.source ++ d.after = c.after
  before : ∃ x, d.after = x ++ z
  fuel : d.after.length ≤ m + 1
  scan : rule.scan n c = ps ++ rule.scan (m + 1) d
  step : d.after = z ∧ (∀ k e, rule.match? d = some (k, e) → ¬ e.after.length < d.after.length) ∨
    ∃ k e, rule.match? d = some (k, e) ∧ e.after.length < z.length

theorem Rule.Arrives.skip {rule : Rule α} {n : ℕ} {c c' : Cursor α} {z : List α}
    {ps : List (Piece α)} {p : Piece α} {d : Cursor α} {m : ℕ} (h : rule.Arrives n c' z ps d m)
    (hleads : c.Leads c') (hsource : p.source ++ c'.after = c.after)
    (hscan : rule.scan (n + 1) c = p :: rule.scan n c') :
    rule.Arrives (n + 1) c z (p :: ps) d m where
  leads := hleads.trans h.leads
  source := by rw [List.flatMap_cons, List.append_assoc, h.source, hsource]
  before := h.before
  fuel := h.fuel
  scan := by rw [hscan, h.scan, List.cons_append]
  step := h.step

theorem Rule.exists_arrives (rule : Rule α) {z : List α} (hz : z ≠ []) (n : ℕ) :
    ∀ (c : Cursor α) (x : List α), c.after.length ≤ n → c.after = x ++ z →
      ∃ ps d m, rule.Arrives n c z ps d m := by
  induction n with
  | zero =>
      intro c x hn hafter
      rw [List.eq_nil_of_length_eq_zero (Nat.le_zero.mp hn)] at hafter
      exact absurd (List.append_eq_nil_iff.mp hafter.symm).2 hz
  | succ n ih =>
      intro c x hn hafter
      have hstep := rule.scan_step n c
      generalize hps : rule.scan (n + 1) c = ps at hstep
      cases hstep with
      | stop h =>
          rw [h] at hafter
          exact absurd (List.append_eq_nil_iff.mp hafter.symm).2 hz
      | @copy a as h hmiss =>
          cases x with
          | nil =>
              exact ⟨[], c, n, .refl c, rfl, ⟨[], hafter⟩, hn, rfl, .inl ⟨hafter, hmiss⟩⟩
          | cons b x =>
              obtain ⟨rfl, has⟩ := List.cons.inj (h.symm.trans hafter)
              rw [h] at hn
              obtain ⟨ps, d, m, hd⟩ := ih ⟨a :: c.before, as⟩ x (Nat.le_of_succ_le_succ hn) has
              have hsource : (Piece.copy a).source ++ as = c.after := h.symm
              exact ⟨_, d, m, hd.skip ⟨[a], h, rfl⟩ hsource hps⟩
      | @hit k e h hlt =>
          by_cases hover : e.after.length < z.length
          · exact ⟨[], c, n, .refl c, rfl, ⟨x, hafter⟩, hn, rfl, .inr ⟨k, e, h, hover⟩⟩
          · obtain ⟨hk, he⟩ := match?_leads h
            have hsource : (Piece.hit (c.upTo k) (k.upTo e)).source ++ e.after = c.after := by
              rw [Piece.source, List.append_assoc, he.upTo_append, hk.upTo_append]
            have hsuffix : z <:+ e.after := by
              refine List.suffix_of_suffix_length_le ⟨x, hafter.symm⟩ ⟨_, hsource⟩ (not_lt.mp hover)
            obtain ⟨x', hx'⟩ := hsuffix
            obtain ⟨ps, d, m, hd⟩ := ih e x' (by omega) hx'.symm
            exact ⟨_, d, m, hd.skip (hk.trans he) hsource hps⟩

/-- Where nothing matches, nothing is replaced. -/
theorem Rule.scan_of_no_match {rule : Rule α} (n : ℕ) : ∀ c : Cursor α, c.after.length ≤ n →
    (∀ e, c.Leads e → e.after ≠ [] → rule.match? e = none) →
    rule.scan n c = c.after.map Piece.copy := by
  induction n with
  | zero =>
      intro c hn _
      rw [List.eq_nil_of_length_eq_zero (Nat.le_zero.mp hn)]
      rfl
  | succ n ih =>
      intro c hn hnone
      have hstep := rule.scan_step n c
      generalize rule.scan (n + 1) c = ps at hstep ⊢
      cases hstep with
      | stop h =>
          rw [h]
          rfl
      | @copy a as h _ =>
          have hlead : c.Leads ⟨a :: c.before, as⟩ := ⟨[a], h, rfl⟩
          rw [h] at hn ⊢
          rw [ih _ (Nat.le_of_succ_le_succ hn) fun e he ↦ hnone e (hlead.trans he)]
          rfl
      | hit h hlt =>
          have hne : c.after ≠ [] := by
            rintro hnil
            rw [hnil] at hlt
            cases hlt
          rw [hnone c (.refl c) hne] at h
          cases h

theorem Rule.sub_of_no_match {rule : Rule α} (replacement : List α) {text : List α}
    (h : ∀ e, (Cursor.start text).Leads e → e.after ≠ [] → rule.match? e = none) :
    rule.sub replacement text = text := by
  have hscan : rule.pieces text = text.map Piece.copy :=
    Rule.scan_of_no_match text.length (.start text) le_rfl h
  rw [Rule.sub, hscan, List.flatMap_map]
  exact List.flatMap_singleton' text

/-! ## Words in the output -/

/-- A word without `b` lies on one side of it. -/
theorem infix_of_infix_append_cons {v x y : List α} {b : α} (h : v <:+: x ++ b :: y)
    (hb : b ∉ v) : v <:+: x ∨ v <:+: y := by
  rcases List.infix_append_iff.mp h with hx | hy | ⟨l, m, rfl, hl, hm⟩
  · exact .inl hx
  · rcases List.infix_cons_iff.mp hy with hy | hy
    · cases v with
      | nil => exact .inr (List.nil_infix)
      | cons a v =>
          rw [(List.cons_prefix_cons.mp hy).1] at hb
          exact (hb List.mem_cons_self).elim
    · exact .inr hy
  · cases m with
    | nil => exact .inl ((List.append_nil l).symm ▸ hl.isInfix)
    | cons a m =>
        rw [(List.cons_prefix_cons.mp hm).1] at hb
        exact (hb (List.mem_append_right _ List.mem_cons_self)).elim

/-- What replaces the matches, between two brackets. -/
def bracketed (opening closing : α) (word : List α) : List α := opening :: (word ++ [closing])

section Words

variable {opening closing : α} {word v : List α}

theorem infix_of_infix_bracketed {x y : List α}
    (h : v <:+: x ++ (bracketed opening closing word ++ y)) (hopening : opening ∉ v)
    (hclosing : closing ∉ v) (hword : ¬ v <:+: word) : v <:+: x ∨ v <:+: y := by
  rw [bracketed, List.cons_append, List.append_assoc] at h
  rcases infix_of_infix_append_cons h hopening with hx | hrest
  · exact .inl hx
  · exact .inr ((infix_of_infix_append_cons hrest hclosing).resolve_left hword)

/-- The output has no word that the text does not have. -/
theorem infix_source_of_infix_render (hopening : opening ∉ v) (hclosing : closing ∉ v)
    (hword : ¬ v <:+: word) (ps : List (Piece α)) :
    ∀ x, v <:+: x ++ ps.flatMap (Piece.render (bracketed opening closing word)) →
      v <:+: x ++ ps.flatMap Piece.source := by
  induction ps with
  | nil => exact fun _ h ↦ h
  | cons p ps ih =>
      intro x h
      rw [List.flatMap_cons] at h ⊢
      cases p with
      | copy a =>
          rw [Piece.render, ← List.append_assoc] at h
          rw [Piece.source, ← List.append_assoc]
          exact ih (x ++ [a]) h
      | hit keep secret =>
          rw [Piece.render, ← List.append_assoc, ← List.append_assoc,
            List.append_assoc (x ++ keep)] at h
          rw [Piece.source]
          rcases infix_of_infix_bracketed h hopening hclosing hword with hx | hrest
          · have hx' : v <:+: x ++ keep ++ (secret ++ ps.flatMap Piece.source) :=
              List.infix_append_of_infix_left hx
            simpa only [List.append_assoc] using hx'
          · have hrest' := ih [] hrest
            rw [List.nil_append] at hrest'
            exact List.infix_append_of_infix_right (List.infix_append_of_infix_right hrest')

theorem Rule.infix_of_infix_sub (rule : Rule α) {text : List α} (hopening : opening ∉ v)
    (hclosing : closing ∉ v) (hword : ¬ v <:+: word)
    (h : v <:+: rule.sub (bracketed opening closing word) text) : v <:+: text := by
  have hsource := infix_source_of_infix_render hopening hclosing hword (rule.pieces text) [] h
  rwa [List.nil_append, rule.pieces_source] at hsource

end Words

/-! ## The rule of one word -/

theorem all_cons_ends (r : Regex α) (rs : List (Regex α)) (c : Cursor α) :
    (all (r :: rs)).ends c = (r.ends c).flatMap (all rs).ends := by
  cases rs with
  | nil =>
      change r.ends c = (r.ends c).flatMap fun e ↦ [e]
      rw [List.flatMap_singleton']
  | cons s rs => rfl

section Word

variable [BEq α] [LawfulBEq α]

theorem mem_ends_word (v : List α) : ∀ c : Cursor α, ∀ rest, c.after = v ++ rest →
    (all (v.map fun a ↦ .char (· == a))).ends c = [⟨v.reverse ++ c.before, rest⟩] := by
  induction v with
  | nil =>
      intro c rest h
      cases c
      cases h
      rfl
  | cons a v ih =>
      intro c rest h
      rw [List.map_cons, all_cons_ends]
      have hchar : (Regex.char (· == a)).ends c = [⟨a :: c.before, v ++ rest⟩] := by
        rw [ends, h]
        simp
      rw [hchar, List.flatMap_singleton, ih ⟨a :: c.before, v ++ rest⟩ rest rfl, List.reverse_cons,
        List.append_assoc]
      rfl

/-- The rule that matches exactly the word `v`. -/
def Rule.word (v : List α) : Rule α := ⟨.empty, all (v.map fun a ↦ .char (· == a))⟩

theorem Rule.word_match? {v rest : List α} {c : Cursor α} (h : c.after = v ++ rest) :
    (Rule.word v).match? c = some (c, ⟨v.reverse ++ c.before, rest⟩) := by
  rw [Rule.match?, Rule.word]
  dsimp only
  rw [ends, List.flatMap_singleton, mem_ends_word v c rest h]
  rfl

variable {opening closing : α} {word v : List α}

omit [LawfulBEq α] in
theorem Rule.word_scan_prefix (hopening : opening ∉ v) (n : ℕ) :
    ∀ u, u <:+ v → ∀ c : Cursor α, c.after.length ≤ n →
      u <+: ((Rule.word v).scan n c).flatMap (Piece.render (bracketed opening closing word)) →
      u <+: c.after := by
  induction n with
  | zero =>
      intro u _ c hn h
      exact h.trans (List.nil_prefix)
  | succ n ih =>
      intro u hu c hn h
      have hstep := (Rule.word v).scan_step n c
      generalize (Rule.word v).scan (n + 1) c = ps at hstep h
      cases u with
      | nil => exact List.nil_prefix
      | cons a u =>
          cases hstep with
          | stop hafter => exact h.trans List.nil_prefix
          | copy hafter hmiss =>
              rw [hafter] at hn ⊢
              obtain ⟨rfl, htail⟩ := List.cons_prefix_cons.mp h
              refine List.cons_prefix_cons.mpr ⟨rfl, ih u ?_ _ (Nat.le_of_succ_le_succ hn) htail⟩
              exact (List.suffix_cons a u).trans hu
          | @hit k e hmatch hlt =>
              obtain ⟨hk, -⟩ := Rule.mem_of_match? hmatch
              have heq : k = c := List.mem_singleton.mp hk
              rw [heq, List.flatMap_cons, Piece.render, Cursor.upTo_of_append (w := []) rfl] at h
              obtain ⟨rfl, -⟩ := List.cons_prefix_cons.mp h
              exact (hopening (hu.subset List.mem_cons_self)).elim

theorem Rule.word_scan_infix (hopening : opening ∉ v) (hclosing : closing ∉ v)
    (hword : ¬ v <:+: word) (n : ℕ) : ∀ c : Cursor α, c.after.length ≤ n →
      ¬ v <:+: ((Rule.word v).scan n c).flatMap (Piece.render (bracketed opening closing word)) := by
  have hne : v ≠ [] := by
    rintro rfl
    exact hword List.nil_infix
  induction n with
  | zero => exact fun _ _ h ↦ hne (List.infix_nil.mp h)
  | succ n ih =>
      intro c hn h
      have hstep := (Rule.word v).scan_step n c
      have hpre : v <+: ((Rule.word v).scan (n + 1) c).flatMap
          (Piece.render (bracketed opening closing word)) → v <+: c.after :=
        Rule.word_scan_prefix hopening (n + 1) v List.suffix_rfl c hn
      generalize (Rule.word v).scan (n + 1) c = ps at hstep h hpre
      cases hstep with
      | stop hafter => exact hne (List.infix_nil.mp h)
      | copy hafter hmiss =>
          rcases List.infix_cons_iff.mp h with h | h
          · -- The scan would have matched here.
            obtain ⟨rest, hrest⟩ := hpre h
            refine hmiss _ _ (Rule.word_match? hrest.symm) ?_
            rw [← hrest, List.length_append]
            exact Nat.lt_add_of_pos_left (List.length_pos_iff.mpr hne)
          · rw [hafter] at hn
            exact ih _ (Nat.le_of_succ_le_succ hn) h
      | hit hmatch hlt =>
          rw [List.flatMap_cons, Piece.render, List.append_assoc] at h
          rcases infix_of_infix_bracketed h hopening hclosing hword with hkeep | hrest
          · obtain ⟨hk, -⟩ := Rule.mem_of_match? hmatch
            rw [List.mem_singleton.mp hk, Cursor.upTo_of_append (w := []) rfl] at hkeep
            exact hne (List.infix_nil.mp hkeep)
          · exact ih _ (by omega) hrest

/-- No occurrence of the word is left. -/
theorem Rule.word_sub (hopening : opening ∉ v) (hclosing : closing ∉ v)
    (hword : ¬ v <:+: word) (text : List α) :
    ¬ v <:+: (Rule.word v).sub (bracketed opening closing word) text :=
  Rule.word_scan_infix hopening hclosing hword text.length (.start text) le_rfl

end Word

/-! ## Symbols that separate -/

/-- The pattern matches no `b`, and its tests do not look at what follows. -/
def StopsAt (b : α) : Regex α → Prop
  | empty => True
  | char p => p b = false
  | look p => ∀ x y z, p x y = p x z
  | seq r s => r.StopsAt b ∧ s.StopsAt b
  | alt r s => r.StopsAt b ∧ s.StopsAt b
  | star _ r => r.StopsAt b

/-- The same position in a longer text. -/
def Cursor.extend (t : List α) (c : Cursor α) : Cursor α := ⟨c.before, c.after ++ t⟩

theorem Cursor.extend_length_lt {t : List α} {c e : Cursor α} :
    (e.extend t).after.length < (c.extend t).after.length ↔ e.after.length < c.after.length := by
  simp [extend]

theorem Cursor.upTo_extend {t : List α} {c e : Cursor α} (h : c.Leads e) :
    (c.extend t).upTo (e.extend t) = c.upTo e := by
  obtain ⟨w, hafter, -⟩ := h
  rw [upTo_of_append hafter, upTo_of_append (w := w)]
  rw [extend, extend, hafter, List.append_assoc]

theorem iterate_nil {step : Cursor α → List (Cursor α)} {greedy : Bool} (n : ℕ) {c : Cursor α}
    (h : c.after = []) : iterate step greedy n c = [c] := by
  cases n with
  | zero => rfl
  | succ n =>
      have hnone : ((step c).filter fun e ↦ e.after.length < c.after.length) = [] :=
        List.filter_eq_nil_iff.mpr fun e _ ↦ by simp [h]
      rw [iterate, hnone]
      cases greedy <;> rfl

theorem iterate_extend {step : Cursor α → List (Cursor α)} {greedy : Bool} {t : List α}
    (hstep : ∀ c, step (c.extend t) = (step c).map (Cursor.extend t)) (n : ℕ) :
    ∀ m c, c.after.length ≤ n → c.after.length ≤ m →
      iterate step greedy n (c.extend t) = (iterate step greedy m c).map (Cursor.extend t) := by
  induction n with
  | zero =>
      intro m c hn _
      rw [iterate_nil m (List.eq_nil_of_length_eq_zero (Nat.le_zero.mp hn))]
      rfl
  | succ n ih =>
      intro m c hn hm
      have hmore : ((step (c.extend t)).filter fun e ↦
          e.after.length < (c.extend t).after.length) =
            ((step c).filter fun e ↦ e.after.length < c.after.length).map (Cursor.extend t) := by
        rw [hstep, List.filter_map]
        congr 1
        apply List.filter_congr
        intro e _
        simp only [Function.comp_apply, Cursor.extend_length_lt]
      cases m with
      | zero =>
          have hnil : c.after = [] := List.eq_nil_of_length_eq_zero (Nat.le_zero.mp hm)
          have hnone : ((step c).filter fun e ↦ e.after.length < c.after.length) = [] :=
            List.filter_eq_nil_iff.mpr fun e _ ↦ by simp [hnil]
          rw [iterate_nil 0 hnil, iterate, hmore, hnone]
          cases greedy <;> rfl
      | succ m =>
          have hflat : (((step c).filter fun e ↦ e.after.length < c.after.length).map
              (Cursor.extend t)).flatMap (iterate step greedy n) =
                (((step c).filter fun e ↦ e.after.length < c.after.length).flatMap
                  (iterate step greedy m)).map (Cursor.extend t) := by
            rw [List.flatMap_map, List.map_flatMap]
            apply List.flatMap_congr
            intro e he
            have hlt : e.after.length < c.after.length :=
              of_decide_eq_true (List.mem_filter.mp he).2
            exact ih m e (by omega) (by omega)
          rw [iterate, iterate, hmore, hflat]
          cases greedy <;> simp

/-- A symbol at which the pattern stops hides what comes after it. -/
theorem ends_extend {b : α} (t : List α) (r : Regex α) (h : r.StopsAt b) :
    ∀ c, r.ends (c.extend (b :: t)) = (r.ends c).map (Cursor.extend (b :: t)) := by
  induction r with
  | empty => exact fun _ ↦ rfl
  | char p =>
      intro c
      cases hafter : c.after with
      | nil => simp [ends, Cursor.extend, hafter, show p b = false from h]
      | cons a as =>
          cases hp : p a <;> simp [ends, Cursor.extend, hafter, hp]
  | look p =>
      intro c
      have hp : p (c.extend (b :: t)).before.head? (c.extend (b :: t)).after.head? =
          p c.before.head? c.after.head? := h _ _ _
      rw [ends, ends, hp]
      split <;> rfl
  | seq r s ihr ihs =>
      intro c
      rw [ends, ends, ihr h.1, List.flatMap_map, List.map_flatMap]
      apply List.flatMap_congr
      intro e _
      exact ihs h.2 e
  | alt r s ihr ihs =>
      intro c
      rw [ends, ends, ihr h.1, ihs h.2, List.map_append]
  | star greedy r ih =>
      intro c
      rw [ends, ends]
      exact iterate_extend (ih h) _ _ c (by simp [Cursor.extend]) le_rfl

namespace Rule

def StopsAt (b : α) (rule : Rule α) : Prop := rule.keep.StopsAt b ∧ rule.secret.StopsAt b

variable {rule : Rule α} {b : α}

theorem match?_extend (h : rule.StopsAt b) (t : List α) (c : Cursor α) :
    rule.match? (c.extend (b :: t)) =
      (rule.match? c).map fun m ↦ (m.1.extend (b :: t), m.2.extend (b :: t)) := by
  rw [match?, match?, ends_extend t _ h.1, List.flatMap_map, ← List.head?_map, List.map_flatMap]
  congr 1
  apply List.flatMap_congr
  intro k _
  rw [ends_extend t _ h.2, List.map_map, List.map_map]
  rfl

/-- More steps than symbols change nothing. -/
theorem scan_fuel (n : ℕ) : ∀ m (c : Cursor α), c.after.length ≤ n → c.after.length ≤ m →
    rule.scan n c = rule.scan m c := by
  induction n with
  | zero =>
      intro m c hn _
      have hnil : c.after = [] := List.eq_nil_of_length_eq_zero (Nat.le_zero.mp hn)
      cases m <;> simp [scan, hnil]
  | succ n ih =>
      intro m c hn hm
      cases m with
      | zero =>
          have hnil : c.after = [] := List.eq_nil_of_length_eq_zero (Nat.le_zero.mp hm)
          simp [scan, hnil]
      | succ m =>
          rw [scan, scan]
          cases hafter : c.after with
          | nil => rfl
          | cons a as =>
              rw [hafter, List.length_cons] at hn hm
              have hcopy := ih m ⟨a :: c.before, as⟩ (Nat.le_of_succ_le_succ hn)
                (Nat.le_of_succ_le_succ hm)
              dsimp only
              cases rule.match? c with
              | none => rw [hcopy]
              | some p =>
                  dsimp only
                  split
                  · rename_i hlt
                    rw [List.length_cons] at hlt
                    rw [ih m p.2 (by omega) (by omega)]
                  · rw [hcopy]

/-- The part before the symbol is scanned as if it were the whole text. -/
theorem scan_separated (h : rule.StopsAt b) (t : List α) (n : ℕ) :
    ∀ c : Cursor α, c.after.length ≤ n → ∀ m, c.after.length + t.length < m →
      rule.scan m (c.extend (b :: t)) = rule.scan n c ++
        .copy b :: rule.scan t.length ⟨b :: (c.after.reverse ++ c.before), t⟩ := by
  have hend : ∀ (c : Cursor α) (n m : ℕ), c.after = [] → t.length < m →
      rule.scan m (c.extend (b :: t)) = rule.scan n c ++
        .copy b :: rule.scan t.length ⟨b :: (c.after.reverse ++ c.before), t⟩ := by
    intro c n m hnil hm
    obtain ⟨m, rfl⟩ : ∃ k, m = k + 1 := ⟨m - 1, by omega⟩
    have hcopy : rule.scan m ⟨b :: c.before, t⟩ = rule.scan t.length ⟨b :: c.before, t⟩ :=
      scan_fuel m t.length _ (Nat.le_of_lt_succ hm) le_rfl
    have hleft : rule.scan n c = [] := by cases n <;> simp [scan, hnil]
    have hafter : (c.extend (b :: t)).after = b :: t := by rw [Cursor.extend, hnil]; rfl
    rw [hleft, scan, hafter]
    dsimp only
    rw [match?_extend h, hnil]
    cases rule.match? c with
    | none => exact congrArg _ hcopy
    | some p =>
        dsimp only [Option.map_some]
        rw [if_neg (by simp only [Cursor.extend, List.length_append, List.length_cons]; omega)]
        exact congrArg _ hcopy
  induction n with
  | zero =>
      intro c hn m hm
      have hnil : c.after = [] := List.eq_nil_of_length_eq_zero (Nat.le_zero.mp hn)
      exact hend c 0 m hnil (by rw [hnil] at hm; simpa using hm)
  | succ n ih =>
      intro c hn m hm
      cases hafter : c.after with
      | nil =>
          rw [← hafter]
          exact hend c (n + 1) m hafter (by rw [hafter] at hm; simpa using hm)
      | cons a as =>
          obtain ⟨m, rfl⟩ : ∃ k, m = k + 1 := ⟨m - 1, by omega⟩
          have hlen : c.after.length = as.length + 1 := by rw [hafter]; rfl
          have hnext := ih ⟨a :: c.before, as⟩ (by dsimp only; omega) m (by dsimp only; omega)
          have hcopy : rule.scan m ⟨a :: c.before, as ++ b :: t⟩ =
              rule.scan n ⟨a :: c.before, as⟩ ++ .copy b ::
                rule.scan t.length ⟨b :: ((a :: as).reverse ++ c.before), t⟩ := by
            rw [List.reverse_cons, List.append_assoc]
            exact hnext
          have hlong : (c.extend (b :: t)).after = a :: (as ++ b :: t) := by
            rw [Cursor.extend, hafter]
            rfl
          rw [scan, scan, hlong, hafter]
          dsimp only
          rw [match?_extend h]
          cases hmatch : rule.match? c with
          | none => exact congrArg _ hcopy
          | some p =>
              obtain ⟨hk, he⟩ := match?_leads (k := p.1) (e := p.2) hmatch
              have hlt : (p.2.extend (b :: t)).after.length < (a :: (as ++ b :: t)).length ↔
                  p.2.after.length < (a :: as).length := by
                rw [← hlong, ← hafter]
                exact Cursor.extend_length_lt
              dsimp only [Option.map_some]
              by_cases hshort : p.2.after.length < (a :: as).length
              · rw [if_pos (hlt.mpr hshort), if_pos hshort, Cursor.upTo_extend hk,
                  Cursor.upTo_extend he, List.cons_append]
                rw [List.length_cons] at hshort
                rw [ih p.2 (by omega) m (by omega)]
                obtain ⟨w, hw, hbefore⟩ := hk.trans he
                rw [hbefore, ← List.append_assoc, ← List.reverse_append, ← hw, hafter]
              · rw [if_neg (fun hl ↦ hshort (hlt.mp hl)), if_neg hshort]
                exact congrArg _ hcopy

theorem pieces_separated (h : rule.StopsAt b) (x t : List α) :
    rule.pieces (x ++ b :: t) =
      rule.pieces x ++ .copy b :: rule.scan t.length ⟨b :: x.reverse, t⟩ := by
  have hlen : x.length + t.length < (x ++ b :: t).length := by
    rw [List.length_append, List.length_cons]
    omega
  have hscan := scan_separated h t x.length (.start x) le_rfl (x ++ b :: t).length hlen
  rwa [Cursor.start, List.append_nil] at hscan

end Rule

end Regex

import Discode.Library.RegexMarks

/-!
# Deleting matches

For a rule that does not look around, what follows a position decides what a scan does there.
Deleting its matches changes exactly the texts that have a match.
-/

set_option autoImplicit false

namespace Regex

variable {α : Type*}

/-- A rule that keeps nothing, tests no neighbours, and matches no empty text. -/
structure Rule.Plain (rule : Rule α) : Prop where
  keep : rule.keep = .empty
  lookFree : rule.secret.LookFree
  consumes : ∀ c, ∀ e ∈ rule.secret.ends c, e.after.length < c.after.length

namespace Rule

/-- The text behind the match with which a text begins. -/
def rest? (rule : Rule α) (t : List α) : Option (List α) :=
  (rule.match? (.start t)).map fun m ↦ m.2.after

/-- The text has no match. -/
def Clean (rule : Rule α) (t : List α) : Prop := ∀ y, y <:+ t → rule.rest? y = none

variable {rule : Rule α} {t r w : List α} {a : α}

namespace Plain

theorem match?_eq (h : rule.Plain) (c : Cursor α) :
    rule.match? c = (rule.secret.ends c).head?.map fun e ↦ (c, e) := by
  rw [match?, h.keep, ends, List.flatMap_singleton, List.head?_map]

theorem match?_length (h : rule.Plain) {c : Cursor α} {m : Cursor α × Cursor α}
    (hm : rule.match? c = some m) : m.2.after.length < c.after.length := by
  rw [h.match?_eq] at hm
  obtain ⟨e, he, rfl⟩ := Option.map_eq_some_iff.mp hm
  exact h.consumes c e (List.mem_of_mem_head? he)

theorem match?_under (h : rule.Plain) (b : List α) (c : Cursor α) :
    rule.match? (c.under b) = (rule.match? c).map fun m ↦ (m.1.under b, m.2.under b) := by
  rw [h.match?_eq, h.match?_eq, ← ends_under b _ h.lookFree, List.head?_map, Option.map_map,
    Option.map_map]
  rfl

theorem rest?_eq (h : rule.Plain) (t : List α) :
    rule.rest? t = ((rule.secret.ends (.start t)).head?).map Cursor.after := by
  rw [rest?, h.match?_eq, Option.map_map]
  rfl

theorem rest?_length (h : rule.Plain) (hr : rule.rest? t = some r) : r.length < t.length := by
  obtain ⟨m, hm, rfl⟩ := Option.map_eq_some_iff.mp hr
  exact h.match?_length hm

theorem rest?_suffix (h : rule.Plain) (hr : rule.rest? t = some r) : r <:+ t := by
  rw [h.rest?_eq] at hr
  obtain ⟨e, he, rfl⟩ := Option.map_eq_some_iff.mp hr
  obtain ⟨w, hw, -⟩ := ends_leads _ _ e (List.mem_of_mem_head? he)
  exact ⟨w, hw.symm⟩

/-- What stands before a position does not change the scan. -/
theorem scan_under (h : rule.Plain) (b : List α) (n : ℕ) :
    ∀ c : Cursor α, rule.scan n (c.under b) = rule.scan n c := by
  induction n with
  | zero => exact fun _ ↦ rfl
  | succ n ih =>
      rintro ⟨before, after⟩
      cases after with
      | nil => rfl
      | cons a as =>
          have hcopy : rule.scan n ⟨a :: (before ++ b), as⟩ = rule.scan n ⟨a :: before, as⟩ :=
            ih ⟨a :: before, as⟩
          have hmatch := h.match?_under b ⟨before, a :: as⟩
          cases hm : rule.match? ⟨before, a :: as⟩ with
          | none =>
              rw [hm] at hmatch
              rw [scan, scan, hmatch, hm]
              exact congrArg _ hcopy
          | some m =>
              have hlt := h.match?_length hm
              rw [hm] at hmatch
              rw [scan_of_match hmatch hlt, scan_of_match hm hlt, ih m.2]
              rfl

theorem scan_eq (h : rule.Plain) (c : Cursor α) {n : ℕ} (hn : c.after.length ≤ n) :
    rule.scan n c = rule.pieces c.after := by
  have hunder : rule.scan n c = rule.scan n (.start c.after) := by
    rw [← h.scan_under c.before n (.start c.after)]
    rfl
  rw [hunder, pieces]
  exact scan_fuel n c.after.length (.start c.after) hn le_rfl

/-- A match at the start is replaced, and the scan goes on behind it. -/
theorem sub_skip (h : rule.Plain) (hr : rule.rest? t = some r) :
    rule.sub w t = w ++ rule.sub w r := by
  obtain ⟨m, hm, rfl⟩ := Option.map_eq_some_iff.mp hr
  obtain ⟨k, e⟩ := m
  have hlt := h.rest?_length hr
  have hk : k = .start t := by
    rw [h.match?_eq] at hm
    obtain ⟨e', -, heq⟩ := Option.map_eq_some_iff.mp hm
    exact (Prod.mk.inj heq).1.symm
  subst hk
  obtain ⟨n, hn⟩ : ∃ n, t.length = n + 1 := ⟨t.length - 1, by omega⟩
  have hpieces : rule.pieces t =
      .hit ((Cursor.start t).upTo (.start t)) ((Cursor.start t).upTo e) :: rule.pieces e.after := by
    rw [pieces, hn, scan_of_match hm hlt, h.scan_eq e (by dsimp only at hlt; omega)]
  rw [sub, hpieces, List.flatMap_cons, Piece.render, Cursor.upTo_of_append (w := []) rfl]
  rfl

/-- A symbol with which no match begins is copied. -/
theorem sub_cons (h : rule.Plain) (hr : rule.rest? (a :: t) = none) :
    rule.sub w (a :: t) = a :: rule.sub w t := by
  have hm : rule.match? (.start (a :: t)) = none := Option.map_eq_none_iff.mp hr
  have hpieces : rule.pieces (a :: t) = .copy a :: rule.pieces t := by
    have hstep := rule.scan_step t.length (.start (a :: t))
    rw [pieces, List.length_cons]
    generalize rule.scan (t.length + 1) (.start (a :: t)) = ps at hstep ⊢
    cases hstep with
    | stop hnil => cases hnil
    | copy hafter _ =>
        cases hafter
        exact congrArg _ (h.scan_eq ⟨[a], t⟩ le_rfl)
    | hit hmatch _ =>
        rw [hm] at hmatch
        cases hmatch
  rw [sub, hpieces, List.flatMap_cons]
  rfl

/-- Deleting matches changes a text if and only if it has one. -/
theorem sub_nil_eq_iff (h : rule.Plain) (t : List α) : rule.sub [] t = t ↔ rule.Clean t := by
  induction t with
  | nil =>
      refine ⟨fun _ y hy ↦ ?_, fun _ ↦ rfl⟩
      cases hr : rule.rest? y with
      | none => rfl
      | some r =>
          have hlt := h.rest?_length hr
          rw [List.suffix_nil.mp hy] at hlt
          cases hlt
  | cons a t ih =>
      constructor
      · intro hsub
        cases hr : rule.rest? (a :: t) with
        | some r =>
            have hlen := (rule.sub_nil_sublist r).length_le
            have hlt := h.rest?_length hr
            rw [h.sub_skip hr, List.nil_append] at hsub
            rw [hsub] at hlen
            omega
        | none =>
            rw [h.sub_cons hr] at hsub
            have htail := ih.mp (List.cons.inj hsub).2
            intro y hy
            rcases List.suffix_cons_iff.mp hy with rfl | hy
            · exact hr
            · exact htail y hy
      · intro hclean
        rw [h.sub_cons (hclean _ List.suffix_rfl),
          ih.mpr fun y hy ↦ hclean y (hy.trans (List.suffix_cons a t))]

end Plain

end Rule

end Regex

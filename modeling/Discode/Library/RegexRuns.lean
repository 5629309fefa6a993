import Discode.Library.RegexScan

/-!
# Runs of a class

Where the matches of `p*` and of a word end.
-/

set_option autoImplicit false

namespace Regex

variable {α : Type*} {p : α → Bool} {greedy : Bool} {c e : Cursor α}

/-- `e` is behind a run of symbols of `p` that starts at `c`. -/
def Cursor.Runs (p : α → Bool) (c e : Cursor α) : Prop :=
  ∃ w, (∀ a ∈ w, p a = true) ∧ c.after = w ++ e.after ∧ e.before = w.reverse ++ c.before

theorem Cursor.Runs.refl (p : α → Bool) (c : Cursor α) : c.Runs p c :=
  ⟨[], fun _ h ↦ (nomatch h), rfl, rfl⟩

theorem Cursor.Runs.cons {a : α} {as : List α} (ha : p a = true) (hafter : c.after = a :: as)
    (h : Cursor.Runs p ⟨a :: c.before, as⟩ e) : c.Runs p e := by
  obtain ⟨w, hw, has, hbefore⟩ := h
  refine ⟨a :: w, List.forall_mem_cons.mpr ⟨ha, hw⟩, ?_, ?_⟩
  · rw [hafter, List.cons_append]
    exact congrArg _ has
  · rw [hbefore, List.reverse_cons, List.append_assoc]
    rfl

/-- Behind a run there is nothing more, or one symbol of `p` and the rest of the run. -/
theorem Cursor.runs_cases (h : c.Runs p e) : e = c ∨
    ∃ a as, p a = true ∧ c.after = a :: as ∧ Cursor.Runs p ⟨a :: c.before, as⟩ e := by
  obtain ⟨w, hw, hafter, hbefore⟩ := h
  cases w with
  | nil =>
      refine .inl ?_
      cases e
      cases c
      cases hafter
      cases hbefore
      rfl
  | cons a w =>
      obtain ⟨ha, hw⟩ := List.forall_mem_cons.mp hw
      rw [List.reverse_cons, List.append_assoc] at hbefore
      exact .inr ⟨a, w ++ e.after, ha, hafter, w, hw, rfl, hbefore⟩

theorem mem_iterate_char (n : ℕ) : ∀ c : Cursor α, c.after.length ≤ n →
    (e ∈ iterate (Regex.char p).ends greedy n c ↔ c.Runs p e) := by
  induction n with
  | zero =>
      intro c hn
      have hnil := List.eq_nil_of_length_eq_zero (Nat.le_zero.mp hn)
      rw [iterate, List.mem_singleton]
      refine ⟨fun h ↦ h ▸ .refl p c, fun h ↦ ?_⟩
      rcases Cursor.runs_cases h with rfl | ⟨a, as, -, hafter, -⟩
      · rfl
      · rw [hnil] at hafter
        cases hafter
  | succ n ih =>
      intro c hn
      rw [mem_iterate_succ]
      constructor
      · rintro (rfl | hmore)
        · exact .refl p e
        · obtain ⟨d, hd, he⟩ := List.mem_flatMap.mp hmore
          have hd := List.mem_of_mem_filter hd
          rw [ends] at hd
          split at hd
          · cases hd
          · rename_i a as hafter
            split at hd
            · rename_i ha
              rw [List.mem_singleton] at hd
              subst hd
              rw [hafter] at hn
              exact .cons ha hafter ((ih _ (Nat.le_of_succ_le_succ hn)).mp he)
            · cases hd
      · intro h
        rcases Cursor.runs_cases h with rfl | ⟨a, as, ha, hafter, hrest⟩
        · exact .inl rfl
        · refine .inr (List.mem_flatMap.mpr ⟨⟨a :: c.before, as⟩, ?_, ?_⟩)
          · rw [ends, hafter]
            simp [ha]
          · rw [hafter] at hn
            exact (ih _ (Nat.le_of_succ_le_succ hn)).mpr hrest

/-- Where `p*` may end. -/
theorem mem_ends_run : e ∈ (Regex.star greedy (.char p)).ends c ↔ c.Runs p e :=
  mem_iterate_char _ c le_rfl

theorem iterate_char_head (n : ℕ) : ∀ c : Cursor α, c.after.length ≤ n →
    ∃ l, iterate (Regex.char p).ends true n c =
      ⟨(c.after.takeWhile p).reverse ++ c.before, c.after.dropWhile p⟩ :: l := by
  induction n with
  | zero =>
      rintro ⟨before, after⟩ hn
      have hnil : after = [] := List.eq_nil_of_length_eq_zero (Nat.le_zero.mp hn)
      subst hnil
      exact ⟨[], rfl⟩
  | succ n ih =>
      rintro ⟨before, after⟩ hn
      cases after with
      | nil => exact ⟨[], rfl⟩
      | cons a as =>
          rw [iterate]
          cases ha : p a with
          | false =>
              refine ⟨[], ?_⟩
              rw [List.takeWhile_cons_of_neg (by simp [ha]), List.dropWhile_cons_of_neg (by simp [ha])]
              simp [ends, ha]
          | true =>
              obtain ⟨l, hl⟩ := ih ⟨a :: before, as⟩ (Nat.le_of_succ_le_succ hn)
              refine ⟨l ++ [⟨before, a :: as⟩], ?_⟩
              have hchar : (Regex.char p).ends ⟨before, a :: as⟩ = [⟨a :: before, as⟩] := by
                simp [ends, ha]
              have hfilter : ([⟨a :: before, as⟩] : List (Cursor α)).filter
                  (fun e ↦ e.after.length < (a :: as).length) = [⟨a :: before, as⟩] := by
                simp
              rw [hchar, hfilter, List.flatMap_singleton, hl, List.takeWhile_cons_of_pos ha,
                List.dropWhile_cons_of_pos ha]
              simp

/-- The first choice of `p*` is the longest run. -/
theorem ends_run_head (p : α → Bool) (c : Cursor α) : ∃ l, (Regex.star true (.char p)).ends c =
    ⟨(c.after.takeWhile p).reverse ++ c.before, c.after.dropWhile p⟩ :: l :=
  iterate_char_head _ c le_rfl

/-- Where both parts match, the engine finds a match. -/
theorem Rule.match?_isSome {rule : Rule α} {k : Cursor α} (hk : k ∈ rule.keep.ends c)
    (he : e ∈ rule.secret.ends k) : (rule.match? c).isSome := by
  have hmem : (k, e) ∈ (rule.keep.ends c).flatMap fun k ↦ (rule.secret.ends k).map fun e ↦ (k, e) :=
    List.mem_flatMap.mpr ⟨k, hk, List.mem_map_of_mem he⟩
  rw [Rule.match?, List.isSome_head?]
  exact List.ne_nil_of_mem hmem

/-- A word is matched in one way. -/
theorem mem_ends_word_iff [BEq α] [LawfulBEq α] (v : List α) : ∀ c : Cursor α,
    e ∈ (all (v.map fun a ↦ Regex.char (· == a))).ends c ↔
      c.after = v ++ e.after ∧ e.before = v.reverse ++ c.before := by
  induction v with
  | nil =>
      intro c
      cases e
      cases c
      simp [all, ends, eq_comm]
      tauto
  | cons a v ih =>
      intro c
      rw [List.map_cons, all_cons_ends, List.mem_flatMap]
      constructor
      · rintro ⟨d, hd, he⟩
        rw [ends] at hd
        split at hd
        · cases hd
        · rename_i b as hafter
          split at hd
          · rename_i hb
            rw [List.mem_singleton] at hd
            subst hd
            obtain ⟨has, hbefore⟩ := (ih _).mp he
            rw [beq_iff_eq.mp hb] at hafter hbefore
            refine ⟨hafter.trans (congrArg _ has), ?_⟩
            rw [hbefore, List.reverse_cons, List.append_assoc]
            rfl
          · cases hd
      · rintro ⟨hafter, hbefore⟩
        refine ⟨⟨a :: c.before, v ++ e.after⟩, ?_, (ih _).mpr ⟨rfl, ?_⟩⟩
        · rw [ends, hafter]
          simp
        · rw [hbefore, List.reverse_cons, List.append_assoc]
          rfl

end Regex

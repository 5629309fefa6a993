import Discode.Text

/-!
# Lines of a text

`str.splitlines`, `str.rsplit` and `str.strip` on the lines of a text.
-/

set_option autoImplicit false

namespace Discode

/-! ## `str.splitlines` -/

/-- The characters that end a line: `\n`, `\v`, `\f`, `\r`, `\x1c` to `\x1e`, `\x85`, U+2028 and
U+2029. -/
def isLineBreak (c : CodePoint) : Bool :=
  (0x0a ≤ c && c ≤ 0x0d) || (0x1c ≤ c && c ≤ 0x1e) || c == 0x85 || c == 0x2028 || c == 0x2029

/-- Puts a character in front of the first line. -/
def consLine (c : CodePoint) : List PyStr → List PyStr
  | [] => [[c]]
  | line :: lines => (c :: line) :: lines

/-- `str.splitlines`; `\r\n` ends one line. -/
def splitlines : PyStr → List PyStr
  | [] => []
  | 0x0d :: 0x0a :: rest => [] :: splitlines rest
  | c :: rest => if isLineBreak c then [] :: splitlines rest else consLine c (splitlines rest)

theorem splitlines_cons {c : CodePoint} (hc : isLineBreak c = false) (rest : PyStr) :
    splitlines (c :: rest) = consLine c (splitlines rest) := by
  have hne : c ≠ 0x0d := by
    rintro rfl
    cases hc
  rw [splitlines.eq_def]
  split
  · rename_i h
    cases h
  · rename_i h
    cases h
    exact absurd rfl hne
  · rename_i h
    cases h
    rw [hc]
    rfl

theorem splitlines_newline (rest : PyStr) : splitlines (0x0a :: rest) = [] :: splitlines rest := by
  rw [splitlines]
  · rfl
  · simp

theorem splitlines_append_newline {line : PyStr} (hline : ∀ c ∈ line, isLineBreak c = false)
    (rest : PyStr) : splitlines (line ++ 0x0a :: rest) = line :: splitlines rest := by
  induction line with
  | nil => exact splitlines_newline rest
  | cons c line ih =>
      rw [List.cons_append, splitlines_cons (hline c List.mem_cons_self),
        ih fun d hd ↦ hline d (List.mem_cons_of_mem c hd)]
      rfl

theorem mem_consLine {c d : CodePoint} {lines : List PyStr} {line : PyStr}
    (hline : line ∈ consLine c lines) (hd : d ∈ line) :
    d = c ∨ ∃ line' ∈ lines, d ∈ line' := by
  cases lines with
  | nil =>
      rw [List.mem_singleton.mp hline] at hd
      exact .inl (List.mem_singleton.mp hd)
  | cons first lines =>
      rcases List.mem_cons.mp hline with rfl | hline
      · rcases List.mem_cons.mp hd with rfl | hd
        · exact .inl rfl
        · exact .inr ⟨first, List.mem_cons_self, hd⟩
      · exact .inr ⟨line, List.mem_cons_of_mem first hline, hd⟩

/-- The characters of the lines are those of the text, without what ends a line. -/
theorem mem_splitlines {s : PyStr} :
    ∀ {line : PyStr}, line ∈ splitlines s → ∀ c ∈ line, c ∈ s ∧ isLineBreak c = false := by
  induction s using splitlines.induct with
  | case1 =>
      intro line hline
      cases hline
  | case2 rest ih =>
      intro line hline c hc
      rw [splitlines] at hline
      rcases List.mem_cons.mp hline with rfl | hline
      · cases hc
      · obtain ⟨hmem, hbreak⟩ := ih hline c hc
        exact ⟨List.mem_cons_of_mem _ (List.mem_cons_of_mem _ hmem), hbreak⟩
  | case3 b rest hcr hb ih =>
      intro line hline c hc
      rw [splitlines.eq_3 _ _ hcr, if_pos hb] at hline
      rcases List.mem_cons.mp hline with rfl | hline
      · cases hc
      · exact (ih hline c hc).imp_left (List.mem_cons_of_mem b)
  | case4 b rest hcr hb ih =>
      intro line hline c hc
      rw [splitlines.eq_3 _ _ hcr, if_neg hb] at hline
      rcases mem_consLine hline hc with rfl | ⟨line', hline', hc'⟩
      · exact ⟨List.mem_cons_self, eq_false_of_ne_true hb⟩
      · exact (ih hline' c hc').imp_left (List.mem_cons_of_mem b)

/-! ## `str.rsplit` -/

/-- `s.rsplit(sep, 1)[0]`: what is before the last separator, or the text if there is none. -/
def beforeLast (sep : CodePoint) (s : PyStr) : PyStr :=
  if sep ∈ s then ((s.reverse.dropWhile (· != sep)).drop 1).reverse else s

theorem mem_of_mem_beforeLast {sep c : CodePoint} {s : PyStr} (h : c ∈ beforeLast sep s) :
    c ∈ s := by
  unfold beforeLast at h
  split at h
  · rw [List.mem_reverse] at h
    exact List.mem_reverse.mp ((List.dropWhile_sublist _).subset (List.mem_of_mem_drop h))
  · exact h

theorem beforeLast_append {sep : CodePoint} {s t : PyStr} (ht : sep ∉ t) :
    beforeLast sep (s ++ sep :: t) = s := by
  have hdrop : (t.reverse ++ sep :: s.reverse).dropWhile (· != sep) = sep :: s.reverse := by
    rw [List.dropWhile_append_of_pos]
    · rw [List.dropWhile_cons_of_neg (by simp)]
    · intro c hc
      rw [bne_iff_ne]
      rintro rfl
      exact ht (List.mem_reverse.mp hc)
  rw [beforeLast, if_pos (List.mem_append_right s List.mem_cons_self), List.reverse_append,
    List.reverse_cons, List.append_assoc, List.singleton_append, hdrop, List.drop_one,
    List.tail_cons, List.reverse_reverse]

/-! ## `str.strip` -/

theorem mem_of_mem_strip {c : CodePoint} {s : PyStr} (h : c ∈ strip s) : c ∈ s := by
  rw [strip, rstrip, List.mem_reverse] at h
  have hl := List.mem_reverse.mp ((List.dropWhile_sublist _).subset h)
  exact (List.dropWhile_sublist _).subset hl

/-- A text between two characters that are no space. -/
theorem strip_eq {a b : CodePoint} (s : PyStr) (ha : isSpace a = false) (hb : isSpace b = false) :
    strip (a :: (s ++ [b])) = a :: (s ++ [b]) := by
  rw [strip, lstrip, List.dropWhile_cons_of_neg (by simp [ha]), rstrip, List.reverse_cons,
    List.reverse_append, List.reverse_singleton, List.singleton_append, List.cons_append,
    List.dropWhile_cons_of_neg (by simp [hb])]
  simp

end Discode

import Mathlib.Data.List.Infix

/-!
# Replacing a word

Every occurrence of a nonempty word is replaced, from left to right and without overlaps.
-/

set_option autoImplicit false

namespace List

variable {α : Type*} [DecidableEq α]

/-- The first argument counts the symbols of an occurrence that are still to be skipped. -/
def replaceFrom (old new : List α) : ℕ → List α → List α
  | _, [] => []
  | n + 1, _ :: s => replaceFrom old new n s
  | 0, a :: s =>
      if old <+: a :: s then new ++ replaceFrom old new (old.length - 1) s
      else a :: replaceFrom old new 0 s

def replaceWord (old new s : List α) : List α := replaceFrom old new 0 s

variable {old new : List α}

theorem replaceFrom_drop (n : ℕ) (s : List α) :
    replaceFrom old new n s = replaceFrom old new 0 (s.drop n) := by
  induction n generalizing s with
  | zero => rfl
  | succ n ih =>
      cases s with
      | nil => rfl
      | cons a s => exact ih s

/-- A word at the front is replaced, and the rest is gone through after it. -/
theorem replaceWord_append (h : old ≠ []) (new s : List α) :
    replaceWord old new (old ++ s) = new ++ replaceWord old new s := by
  obtain ⟨a, w, rfl⟩ := List.exists_cons_of_ne_nil h
  have hpre : a :: w <+: a :: (w ++ s) := prefix_append (a :: w) s
  rw [replaceWord, cons_append, replaceFrom, if_pos hpre, replaceFrom_drop, length_cons,
    Nat.add_sub_cancel, drop_left]
  rfl

/-- A text without the word is left alone. -/
theorem replaceWord_of_not_infix (new : List α) {s : List α} (h : ¬ old <:+: s) :
    replaceWord old new s = s := by
  induction s with
  | nil => rfl
  | cons a s ih =>
      have htail : ¬ old <:+: s := fun hin ↦ h (hin.trans (suffix_cons a s).isInfix)
      rw [replaceWord, replaceFrom, if_neg fun hpre ↦ h hpre.isInfix]
      exact congrArg (a :: ·) (ih htail)

end List

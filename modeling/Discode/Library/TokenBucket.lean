import Mathlib.Algebra.Order.Field.Basic
import Mathlib.Tactic.Linarith
import Mathlib.Tactic.Ring

/-!
# Token buckets

A level that never exceeds the capacity, rises with the time that passes and falls by one with
every grant.  The grants of a window and the level at its end together are at most the capacity
and what flows in during the window.
-/

set_option autoImplicit false

structure TokenBucket (K : Type*) [Field K] [LinearOrder K] where
  capacity : K
  rate : K
  capacity_nonneg : 0 ≤ capacity
  rate_nonneg : 0 ≤ rate

namespace TokenBucket

section

variable {K : Type*} [LinearOrder K]

/-- The number of grants from time `a` to time `b`. -/
def grantsIn (grants : List K) (a b : K) : ℕ := grants.countP fun t ↦ a ≤ t ∧ t ≤ b

@[simp] theorem grantsIn_nil (a b : K) : grantsIn [] a b = 0 := rfl

theorem grantsIn_cons_of_mem {grants : List K} {a b t : K} (h : a ≤ t ∧ t ≤ b) :
    grantsIn (t :: grants) a b = grantsIn grants a b + 1 :=
  List.countP_cons_of_pos (by simpa using h)

theorem grantsIn_cons_of_not_mem {grants : List K} {a b t : K} (h : ¬ (a ≤ t ∧ t ≤ b)) :
    grantsIn (t :: grants) a b = grantsIn grants a b :=
  List.countP_cons_of_neg (by simpa using h)

/-- A window that goes on after the last grant. -/
theorem grantsIn_eq_of_le {grants : List K} {now : K} (hpast : ∀ t ∈ grants, t ≤ now) {a b : K}
    (hb : now ≤ b) : grantsIn grants a b = grantsIn grants a now := by
  apply List.countP_congr
  intro t ht
  have hnow := hpast t ht
  simp only [decide_eq_true_eq]
  exact ⟨fun h ↦ ⟨h.1, hnow⟩, fun h ↦ ⟨h.1, hnow.trans hb⟩⟩

theorem grantsIn_eq_zero {grants : List K} {now : K} (hpast : ∀ t ∈ grants, t ≤ now) {a b : K}
    (ha : now < a) : grantsIn grants a b = 0 := by
  apply List.countP_eq_zero.mpr
  intro t ht
  simp only [decide_eq_true_eq, not_and_or, not_le]
  exact .inl ((hpast t ht).trans_lt ha)

end

variable {K : Type*} [Field K] [LinearOrder K]

/-- The level after a pause. -/
def refill (B : TokenBucket K) (level d : K) : K := min B.capacity (level + B.rate * d)

/-- The grants so far, and the level that they leave. -/
structure Bounded (B : TokenBucket K) (grants : List K) (now level : K) : Prop where
  past : ∀ t ∈ grants, t ≤ now
  nonneg : 0 ≤ level
  budget : ∀ a ≤ now, grantsIn grants a now + level ≤ B.capacity + B.rate * (now - a)
  window : ∀ a b, a ≤ b → (grantsIn grants a b : K) ≤ B.capacity + B.rate * (b - a)

namespace Bounded

variable [IsStrictOrderedRing K] {B : TokenBucket K} {grants : List K} {now level : K}

theorem start (B : TokenBucket K) (now : K) : B.Bounded [] now B.capacity where
  past := fun _ h ↦ nomatch h
  nonneg := B.capacity_nonneg
  budget a ha := by
    have hflow := mul_nonneg B.rate_nonneg (sub_nonneg.mpr ha)
    simpa using hflow
  window a b hab := by
    have hflow := mul_nonneg B.rate_nonneg (sub_nonneg.mpr hab)
    simpa using add_nonneg B.capacity_nonneg hflow

theorem pause (h : B.Bounded grants now level) {d : K} (hd : 0 ≤ d) :
    B.Bounded grants (now + d) (B.refill level d) where
  past t ht := (h.past t ht).trans (le_add_of_nonneg_right hd)
  nonneg := le_min B.capacity_nonneg (add_nonneg h.nonneg (mul_nonneg B.rate_nonneg hd))
  budget a ha := by
    by_cases hold : a ≤ now
    · have hbudget := h.budget a hold
      have hlevel : B.refill level d ≤ level + B.rate * d := min_le_right _ _
      rw [grantsIn_eq_of_le h.past (le_add_of_nonneg_right hd)]
      calc
        (grantsIn grants a now : K) + B.refill level d
            ≤ grantsIn grants a now + level + B.rate * d := by linarith
        _ ≤ B.capacity + B.rate * (now - a) + B.rate * d := by linarith
        _ = B.capacity + B.rate * (now + d - a) := by ring
    · have hflow := mul_nonneg B.rate_nonneg (sub_nonneg.mpr ha)
      have hlevel : B.refill level d ≤ B.capacity := min_le_left _ _
      rw [grantsIn_eq_zero h.past (not_le.mp hold), Nat.cast_zero, zero_add]
      linarith
  window := h.window

theorem grant (h : B.Bounded grants now level) {rest : K} (hrest : 0 ≤ rest)
    (hle : rest + 1 ≤ level) : B.Bounded (now :: grants) now rest where
  past := List.forall_mem_cons.mpr ⟨le_rfl, h.past⟩
  nonneg := hrest
  budget a ha := by
    have hbudget := h.budget a ha
    rw [grantsIn_cons_of_mem ⟨ha, le_rfl⟩, Nat.cast_add, Nat.cast_one]
    linarith
  window a b hab := by
    by_cases hin : a ≤ now ∧ now ≤ b
    · have hbudget := h.budget a hin.1
      have hflow : B.rate * (now - a) ≤ B.rate * (b - a) :=
        mul_le_mul_of_nonneg_left (sub_le_sub_right hin.2 a) B.rate_nonneg
      rw [grantsIn_cons_of_mem hin, grantsIn_eq_of_le h.past hin.2, Nat.cast_add, Nat.cast_one]
      linarith
    · rw [grantsIn_cons_of_not_mem hin]
      exact h.window a b hab

end Bounded

end TokenBucket

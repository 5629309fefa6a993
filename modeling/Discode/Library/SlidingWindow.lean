import Mathlib.Algebra.GroupWithZero.Nat
import Mathlib.Algebra.Order.BigOperators.Group.List
import Mathlib.Algebra.Order.Monoid.Defs

/-!
# Sliding windows

A log of weighted events, and the bound for every window of a given width that a check of the
last window at each event keeps.
-/

set_option autoImplicit false

namespace SlidingWindow

variable {T : Type*}

/-! ## Loads -/

/-- The weights of the events of `p`. -/
def load (p : T × ℕ → Bool) (log : List (T × ℕ)) : ℕ := ((log.filter p).map Prod.snd).sum

theorem load_cons (p : T × ℕ → Bool) (e : T × ℕ) (log : List (T × ℕ)) :
    load p (e :: log) = (if p e then e.2 else 0) + load p log := by
  unfold load
  by_cases he : p e = true
  · rw [List.filter_cons_of_pos he, List.map_cons, List.sum_cons, if_pos he]
  · rw [List.filter_cons_of_neg he, if_neg he, Nat.zero_add]

theorem load_append (p : T × ℕ → Bool) (log log' : List (T × ℕ)) :
    load p (log ++ log') = load p log + load p log' := by
  rw [load, List.filter_append, List.map_append, List.sum_append]
  rfl

theorem load_mono {p q : T × ℕ → Bool} {log : List (T × ℕ)}
    (h : ∀ e ∈ log, p e = true → q e = true) : load p log ≤ load q log := by
  induction log with
  | nil => exact le_rfl
  | cons e log ih =>
      obtain ⟨he, hlog⟩ := List.forall_mem_cons.mp h
      rw [load_cons, load_cons]
      refine Nat.add_le_add ?_ (ih hlog)
      by_cases hp : p e = true
      · rw [if_pos hp, if_pos (he hp)]
      · rw [if_neg hp]
        exact Nat.zero_le _

theorem load_eq_zero {p : T × ℕ → Bool} {log : List (T × ℕ)} (h : ∀ e ∈ log, p e = false) :
    load p log = 0 := by
  have hnone : log.filter p = [] := List.filter_eq_nil_iff.mpr fun e he ↦ by simp [h e he]
  rw [load, hnone]
  rfl

/-! ## Windows -/

variable [AddCommMonoid T] [LinearOrder T]

/-- The event lies in the window that begins at `start`. -/
def inWindow (width start : T) (e : T × ℕ) : Bool := start ≤ e.1 ∧ e.1 ≤ start + width

/-- The event is not older than the width. -/
def isRecent (width now : T) (e : T × ℕ) : Bool := now ≤ e.1 + width

/-- The weights in every window add up to no more than the limit. -/
def Bounded (width : T) (limit : ℕ) (log : List (T × ℕ)) : Prop :=
  ∀ start, load (inWindow width start) log ≤ limit

theorem bounded_nil (width : T) (limit : ℕ) : Bounded width limit [] := fun _ ↦ Nat.zero_le limit

variable [IsOrderedAddMonoid T]

/-- An event of a window that is not over before `now` is recent. -/
theorem isRecent_of_inWindow {width start now : T} {e : T × ℕ} (hnow : now ≤ start + width)
    (he : inWindow width start e = true) : isRecent width now e = true := by
  have hstart : start ≤ e.1 := (of_decide_eq_true he).1
  exact decide_eq_true (hnow.trans (add_le_add_left hstart width))

/-- An event that fits into the last window keeps the bound for every window. -/
theorem Bounded.cons {width now : T} {limit weight : ℕ} {log : List (T × ℕ)}
    (h : Bounded width limit log) (hfits : load (isRecent width now) log + weight ≤ limit) :
    Bounded width limit ((now, weight) :: log) := by
  intro start
  rw [load_cons]
  by_cases hin : inWindow width start (now, weight) = true
  · have hnow : now ≤ start + width := (of_decide_eq_true hin).2
    have hmono : load (inWindow width start) log ≤ load (isRecent width now) log :=
      load_mono fun e _ he ↦ isRecent_of_inWindow hnow he
    rw [if_pos hin]
    omega
  · rw [if_neg hin, Nat.zero_add]
    exact h start

end SlidingWindow

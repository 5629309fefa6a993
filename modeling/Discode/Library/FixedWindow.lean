import Discode.Library.SlidingWindow

/-!
# Fixed windows

A counter is opened by an event, takes the events of the width after it, and is given up then;
the next event opens a new one.  Every counter keeps the limit.  An arbitrary window of the width
meets at most two of them, so it has at most twice the limit.
-/

set_option autoImplicit false

namespace FixedWindow

open SlidingWindow

variable {T : Type*} [LinearOrder T]

/-- The event is one of the counter that was opened at `start`. -/
def isSince (start : T) (e : T × ℕ) : Bool := start ≤ e.1

/-- The event lies between the two times. -/
def isBetween (a b : T) (e : T × ℕ) : Bool := a ≤ e.1 ∧ e.1 < b

theorem isSince_of_le {start time : T} {weight : ℕ} (h : start ≤ time) :
    isSince start (time, weight) = true :=
  decide_eq_true h

variable [AddCommMonoid T]

/-- The last counter was opened at `start`. -/
structure Windowed (width : T) (limit : ℕ) (start : T) (log : List (T × ℕ)) : Prop where
  past : ∀ e ∈ log, e.1 ≤ start + width
  last : load (isSince start) log ≤ limit
  /-- A window that meets the last counter meets at most one other. -/
  before : ∀ a, start ≤ a + width → load (isBetween a start) log ≤ limit
  bounded : Bounded width (2 * limit) log

variable {width start now : T} {limit weight : ℕ} {log : List (T × ℕ)}

theorem load_window_le (width a b : T) (log : List (T × ℕ)) :
    load (inWindow width a) log ≤ load (isBetween a b) log + load (isSince b) log := by
  induction log with
  | nil => exact le_rfl
  | cons e log ih =>
      rw [load_cons, load_cons, load_cons]
      by_cases hin : inWindow width a e = true
      · have ha : a ≤ e.1 := (of_decide_eq_true hin).1
        rw [if_pos hin]
        rcases lt_or_ge e.1 b with hb | hb
        · have hbetween : isBetween a b e = true := decide_eq_true ⟨ha, hb⟩
          rw [if_pos hbetween]
          omega
        · rw [if_pos (isSince_of_le hb)]
          omega
      · rw [if_neg hin]
        omega

/-- The first event of all. -/
theorem Windowed.first (hwidth : now ≤ now + width) (hfits : weight ≤ limit) :
    Windowed width limit now [(now, weight)] where
  past e he := by
    cases List.mem_singleton.mp he
    exact hwidth
  last := by
    rw [load_cons, if_pos (isSince_of_le le_rfl)]
    exact hfits
  before a _ := by
    rw [load_cons, if_neg (by simp [isBetween])]
    exact Nat.zero_le _
  bounded a := by
    have hle : load (inWindow width a) [(now, weight)] ≤ weight := by
      rw [load_cons]
      split <;> simp [load]
    omega

/-- An event that the last counter takes. -/
theorem Windowed.charge (h : Windowed width limit start log) (hstart : start ≤ now)
    (hnow : now ≤ start + width) (hfits : load (isSince start) log + weight ≤ limit) :
    Windowed width limit start ((now, weight) :: log) where
  past := List.forall_mem_cons.mpr ⟨hnow, h.past⟩
  last := by
    rw [load_cons, if_pos (isSince_of_le hstart)]
    omega
  before a ha := by
    have hnot : isBetween a start (now, weight) = false :=
      decide_eq_false fun hlt ↦ not_lt.mpr hstart hlt.2
    rw [load_cons, hnot]
    exact (Nat.zero_add _).le.trans (h.before a ha)
  bounded a := by
    rw [load_cons]
    by_cases hin : inWindow width a (now, weight) = true
    · have ha : start ≤ a + width := hstart.trans (of_decide_eq_true hin).2
      have hsplit := load_window_le width a start log
      have hbefore := h.before a ha
      rw [if_pos hin]
      omega
    · rw [if_neg hin, Nat.zero_add]
      exact h.bounded a

variable [IsOrderedAddMonoid T]

/-- An event after the end of the last counter opens a new one. -/
theorem Windowed.reopen (h : Windowed width limit start log) (hover : start + width < now)
    (hwidth : now ≤ now + width) (hfits : weight ≤ limit) :
    Windowed width limit now ((now, weight) :: log) := by
  have hold : load (isSince now) log = 0 :=
    load_eq_zero fun e he ↦ decide_eq_false (not_le.mpr ((h.past e he).trans_lt hover))
  -- A window that is not over at `now` begins after the last counter was opened.
  have hbefore : ∀ a, now ≤ a + width → load (isBetween a now) log ≤ limit := by
    intro a ha
    have hlt : start < a := by
      by_contra hle
      have hadd : a + width ≤ start + width := add_le_add_left (not_lt.mp hle) width
      exact absurd (ha.trans hadd) (not_le.mpr hover)
    refine (load_mono fun e _ he ↦ ?_).trans h.last
    exact decide_eq_true (hlt.le.trans (of_decide_eq_true he).1)
  refine ⟨List.forall_mem_cons.mpr ⟨hwidth, fun e he ↦ ?_⟩, ?_, fun a ha ↦ ?_, fun a ↦ ?_⟩
  · exact ((h.past e he).trans hover.le).trans hwidth
  · rw [load_cons, hold, if_pos (isSince_of_le le_rfl)]
    exact hfits
  · rw [load_cons, if_neg (by simp [isBetween]), Nat.zero_add]
    exact hbefore a ha
  · rw [load_cons]
    by_cases hin : inWindow width a (now, weight) = true
    · have ha : now ≤ a + width := (of_decide_eq_true hin).2
      have hsplit := load_window_le width a now log
      have hlimit := hbefore a ha
      rw [if_pos hin]
      omega
    · rw [if_neg hin, Nat.zero_add]
      exact h.bounded a

end FixedWindow

import Mathlib.Data.List.Basic
import Mathlib.Logic.Function.Basic

/-!
# Rules over the columns of a row

A rule reads a few columns of a row.  A row that meets every rule still meets them once one
column is overwritten with a value that was checked against another copy of the row, as long
as the two copies agree on the columns that share a rule with the one that is written.
-/

set_option autoImplicit false

structure ColumnRule (C V : Type*) where
  reads : List C
  holds : (C → V) → Prop
  congr : ∀ r s, (∀ c ∈ reads, r c = s c) → holds r → holds s

namespace ColumnRule

variable {C V : Type*}

def single (c : C) (p : V → Prop) : ColumnRule C V where
  reads := [c]
  holds r := p (r c)
  congr r s h hr := by
    rw [← h c (List.mem_singleton_self c)]
    exact hr

def pair (c d : C) (p : V → V → Prop) : ColumnRule C V where
  reads := [c, d]
  holds r := p (r c) (r d)
  congr r s h hr := by
    rw [← h c List.mem_cons_self, ← h d (List.mem_cons_of_mem c (List.mem_singleton_self d))]
    exact hr

/-- Some rule reads both columns. -/
def Shares (rules : List (ColumnRule C V)) (c d : C) : Prop :=
  ∃ rule ∈ rules, c ∈ rule.reads ∧ d ∈ rule.reads

variable [DecidableEq C]

theorem holds_update_of_not_mem {rule : ColumnRule C V} {r : C → V} {c : C} (v : V)
    (hc : c ∉ rule.reads) (hr : rule.holds r) : rule.holds (Function.update r c v) := by
  refine rule.congr r _ (fun d hd ↦ ?_) hr
  rw [Function.update_of_ne]
  rintro rfl
  exact hc hd

theorem holds_update_of_agree {rule : ColumnRule C V} {r s : C → V} {c : C} {v : V}
    (hagree : ∀ d ∈ rule.reads, d ≠ c → s d = r d) (hs : rule.holds (Function.update s c v)) :
    rule.holds (Function.update r c v) := by
  refine rule.congr _ _ (fun d hd ↦ ?_) hs
  by_cases hdc : d = c
  · subst hdc
    rw [Function.update_self, Function.update_self]
  · rw [Function.update_of_ne hdc, Function.update_of_ne hdc]
    exact hagree d hd hdc

/-- The value `v` was checked in the copy `s`, and is written to the row `r`. -/
theorem forall_holds_update {rules : List (ColumnRule C V)} {r s : C → V} {c : C} {v : V}
    (hr : ∀ rule ∈ rules, rule.holds r)
    (hs : ∀ rule ∈ rules, rule.holds (Function.update s c v))
    (hagree : ∀ d, d ≠ c → Shares rules c d → s d = r d) :
    ∀ rule ∈ rules, rule.holds (Function.update r c v) := by
  intro rule hrule
  by_cases hc : c ∈ rule.reads
  · apply holds_update_of_agree _ (hs rule hrule)
    intro d hd hdc
    exact hagree d hdc ⟨rule, hrule, hc, hd⟩
  · exact holds_update_of_not_mem v hc (hr rule hrule)

end ColumnRule

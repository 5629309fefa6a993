import Discode.Library.ProcessPool
import Mathlib.Data.Finset.Card
import Mathlib.Data.Finset.Range

/-!
# The processes of a kind

The set of the processes that meet a test, and how one step changes it.
-/

set_option autoImplicit false

namespace ProcessPool

variable {S P : Type*} {σ τ : State S P} {q q' : ℕ → P → Bool} {pid : ℕ}

def State.census (σ : State S P) (q : ℕ → P → Bool) : Finset ℕ :=
  (Finset.range σ.next).filter fun pid ↦ (σ.procs pid).any (q pid) = true

theorem State.mem_census {p : P} (hlt : pid < σ.next) (hp : σ.procs pid = some p) :
    pid ∈ σ.census q ↔ q pid p = true := by
  rw [census, Finset.mem_filter, Finset.mem_range, hp]
  exact and_iff_right hlt

theorem State.census_congr (hnext : τ.next = σ.next)
    (h : ∀ pid, (τ.procs pid).any (q' pid) = (σ.procs pid).any (q pid)) :
    τ.census q' = σ.census q := by
  rw [census, census, hnext]
  exact Finset.filter_congr fun pid _ ↦ by rw [h]

/-- The census after the start of a process. -/
theorem State.card_census_spawn (hnext : τ.next = σ.next + 1)
    (h : ∀ pid < σ.next, (τ.procs pid).any (q' pid) = (σ.procs pid).any (q pid)) :
    (τ.census q').card =
      (σ.census q).card + if (τ.procs σ.next).any (q' σ.next) = true then 1 else 0 := by
  have hrest : (Finset.range σ.next).filter (fun pid ↦ (τ.procs pid).any (q' pid) = true) =
      σ.census q :=
    Finset.filter_congr fun pid hpid ↦ by rw [h pid (Finset.mem_range.mp hpid)]
  rw [census, hnext, Finset.range_add_one, Finset.filter_insert, hrest]
  split
  · rw [Finset.card_insert_of_notMem]
    intro hmem
    exact Nat.lt_irrefl _ (Finset.mem_range.mp (Finset.mem_filter.mp hmem).1)
  · rfl

/-- The census after the end of a process. -/
theorem State.census_erase (hnext : τ.next = σ.next)
    (hpid : (τ.procs pid).any (q' pid) = false)
    (h : ∀ i, i ≠ pid → (τ.procs i).any (q' i) = (σ.procs i).any (q i)) :
    τ.census q' = (σ.census q).erase pid := by
  ext i
  rw [census, census, Finset.mem_erase, Finset.mem_filter, Finset.mem_filter, hnext]
  by_cases hi : i = pid
  · subst hi
    simp [hpid]
  · rw [h i hi]
    simp [hi]

end ProcessPool

import Mathlib.Algebra.BigOperators.Group.List.Basic
import Mathlib.Algebra.GroupWithZero.Nat
import Mathlib.Tactic.Cases

/-!
# Greedy packing

Items go into bins in the order they come.  A bin is closed in front of an item that would
take its load over the limit, except that it takes its first few items whatever they weigh.
-/

set_option autoImplicit false

namespace GreedyPacking

variable {α : Type*}

/-- What an empty bin is charged with, and how many items it takes unweighed. -/
structure Opening where
  charge : ℕ
  least : ℕ
  least_pos : 0 < least

structure Packer (α : Type*) where
  weight : α → ℕ
  limit : ℕ
  first : Opening
  later : Opening

namespace Packer

variable (p : Packer α)

def load (o : Opening) (bin : List α) : ℕ := o.charge + (bin.map p.weight).sum

/-- The bin is closed in front of the item. -/
def Closes (o : Opening) (bin : List α) (x : α) : Prop :=
  p.limit < p.load o bin + p.weight x ∧ o.least ≤ bin.length

instance (o : Opening) (bin : List α) (x : α) : Decidable (p.Closes o bin x) :=
  inferInstanceAs (Decidable (_ ∧ _))

def pack : Opening → List α → List α → List (List α)
  | _, bin, [] => [bin]
  | o, bin, x :: xs =>
      if p.Closes o bin x then bin :: pack p.later [x] xs else pack o (bin ++ [x]) xs

/-- Weighing the items would not have closed the bin in front of one of them. -/
def Packed (o : Opening) (bin : List α) : Prop :=
  bin.length ≤ o.least ∨ p.load o bin ≤ p.limit

/-- The suffixes of the items at which a bin other than the first one begins. -/
inductive Opens (xs : List α) : List α → Prop
  | first {bin : List α} {x : α} {rest : List α} (split : xs = bin ++ x :: rest)
      (packed : p.Packed p.first bin) (closes : p.Closes p.first bin x) : Opens xs (x :: rest)
  | later {bin : List α} {x : α} {rest : List α} (opens : Opens xs (bin ++ x :: rest))
      (packed : p.Packed p.later bin) (closes : p.Closes p.later bin x) : Opens xs (x :: rest)

variable {p} {o : Opening} {bin : List α} {x : α}

@[simp] theorem load_append (bin' : List α) :
    p.load o (bin ++ bin') = p.load o bin + (bin'.map p.weight).sum := by
  simp [load, Nat.add_assoc]

theorem packed_nil : p.Packed o [] := .inl (Nat.zero_le _)

theorem packed_singleton : p.Packed o [x] := .inl o.least_pos

theorem packed_append_singleton (h : ¬ p.Closes o bin x) : p.Packed o (bin ++ [x]) := by
  rcases Nat.lt_or_ge bin.length o.least with hshort | hlong
  · left
    rw [List.length_append]
    exact hshort
  · right
    have hload : ¬ p.limit < p.load o bin + p.weight x := fun hlt ↦ h ⟨hlt, hlong⟩
    rw [load_append]
    simpa using hload

theorem not_closes_of_packed {rest : List α} (h : p.Packed o (bin ++ x :: rest)) :
    ¬ p.Closes o bin x := by
  rintro ⟨hload, hleast⟩
  cases h with
  | inl hlength =>
      rw [List.length_append, List.length_cons] at hlength
      omega
  | inr hfits =>
      rw [load_append, List.map_cons, List.sum_cons] at hfits
      omega

/-! ## The bins of a packing -/

/-- Every item is in one bin, and the bins keep the order. -/
theorem pack_flatten (xs : List α) : ∀ (o : Opening) (bin : List α),
    (p.pack o bin xs).flatten = bin ++ xs := by
  induction xs with
  | nil => simp [pack]
  | cons x xs ih =>
      intro o bin
      rw [pack]
      split
      · rw [List.flatten_cons, ih, List.singleton_append]
      · rw [ih, List.append_assoc, List.singleton_append]

/-- A bin that is not yet closed takes the items it has room for. -/
theorem pack_append {taken : List α} (rest : List α) : ∀ {bin : List α},
    p.Packed o (bin ++ taken) →
      p.pack o bin (taken ++ rest) = p.pack o (bin ++ taken) rest := by
  induction taken with
  | nil => simp
  | cons x taken ih =>
      intro bin h
      have happend : bin ++ x :: taken = bin ++ [x] ++ taken := by simp
      rw [List.cons_append, pack, if_neg (not_closes_of_packed h), happend]
      rw [happend] at h
      exact ih h

/-- Where a bin opens, the packing starts over with it. -/
theorem Opens.pack {xs rest : List α} (h : p.Opens xs (x :: rest)) :
    ∃ b closed, p.pack p.first [] xs = b :: closed ++ p.pack p.later [x] rest := by
  generalize hsuffix : x :: rest = suffix at h
  induction h generalizing x rest with
  | @first bin y tail split packed closes =>
      cases hsuffix
      refine ⟨bin, [], ?_⟩
      rw [split, pack_append _ (by simpa using packed), List.nil_append, Packer.pack,
        if_pos closes, List.singleton_append]
  | @later bin y tail opens packed closes ih =>
      cases hsuffix
      cases bin with
      | nil => exact absurd closes.2 (Nat.not_le.mpr p.later.least_pos)
      | cons b bin =>
          have htaken : p.pack p.later [b] (bin ++ y :: tail) =
              p.pack p.later (b :: bin) (y :: tail) := pack_append (y :: tail) packed
          obtain ⟨b', closed, hclosed⟩ := @ih b (bin ++ y :: tail) rfl
          refine ⟨b', closed ++ [b :: bin], ?_⟩
          rw [hclosed, htaken, Packer.pack, if_pos closes]
          simp

/-- No other bin begins with the first item. -/
theorem Opens.mem_tail {xs rest : List α} (h : p.Opens xs (x :: rest)) : x ∈ xs.tail := by
  have hsuffix : ∀ {suffix}, p.Opens xs suffix → suffix <:+ xs.tail := by
    intro suffix h
    induction h with
    | @first bin y tail split packed closes =>
        cases bin with
        | nil => exact absurd closes.2 (Nat.not_le.mpr p.first.least_pos)
        | cons b bin => exact ⟨bin, by rw [split, List.cons_append, List.tail_cons]⟩
    | @later bin y tail opens packed closes ih => exact (List.suffix_append _ _).trans ih
  exact (hsuffix h).mem List.mem_cons_self

theorem opens_of_mem_pack {xs : List α} (rest : List α) : ∀ {bin : List α},
    p.Packed p.later bin → p.Opens xs (bin ++ rest) → ∀ b ∈ p.pack p.later bin rest,
      p.Packed p.later b ∧ ∃ tail, p.Opens xs (b ++ tail) := by
  induction rest with
  | nil =>
      intro bin packed opens b hb
      cases List.mem_singleton.mp hb
      exact ⟨packed, [], opens⟩
  | cons x rest ih =>
      intro bin packed opens b hb
      rw [Packer.pack] at hb
      split at hb
      · next closes =>
        rcases List.mem_cons.mp hb with rfl | hb
        · exact ⟨packed, x :: rest, opens⟩
        · exact ih packed_singleton (.later opens packed closes) b hb
      · next hopen =>
        have happend : bin ++ x :: rest = bin ++ [x] ++ rest := by simp
        exact ih (packed_append_singleton hopen) (happend ▸ opens) b hb

/-- The first bin, and where the other ones begin. -/
theorem pack_eq_cons {xs : List α} (rest : List α) : ∀ {bin : List α},
    p.Packed p.first bin → xs = bin ++ rest → ∃ b bs, p.pack p.first bin rest = b :: bs ∧
      p.Packed p.first b ∧ b <+: xs ∧
        ∀ b' ∈ bs, p.Packed p.later b' ∧ ∃ tail, p.Opens xs (b' ++ tail) := by
  induction rest with
  | nil =>
      intro bin packed hxs
      exact ⟨bin, [], rfl, packed, ⟨[], hxs.symm⟩, fun _ h ↦ absurd h List.not_mem_nil⟩
  | cons x rest ih =>
      intro bin packed hxs
      rw [Packer.pack]
      split
      · next closes =>
        exact ⟨bin, _, rfl, packed, ⟨x :: rest, hxs.symm⟩,
          opens_of_mem_pack rest packed_singleton (.first hxs packed closes)⟩
      · next hopen => exact ih (packed_append_singleton hopen) (by simpa using hxs)

/-- The bin that is open now is part of one bin of the packing. -/
theorem exists_mem_pack (rest : List α) : ∀ (o : Opening) (bin : List α),
    ∃ b ∈ p.pack o bin rest, bin <+: b := by
  induction rest with
  | nil => exact fun _ bin ↦ ⟨bin, List.mem_singleton_self bin, List.prefix_rfl⟩
  | cons x rest ih =>
      intro o bin
      rw [Packer.pack]
      split
      · exact ⟨bin, List.mem_cons_self, List.prefix_rfl⟩
      · obtain ⟨b, hb, hbegins⟩ := ih o (bin ++ [x])
        exact ⟨b, hb, (List.prefix_append bin [x]).trans hbegins⟩

end Packer

end GreedyPacking

import Mathlib.Data.List.Nodup
import Mathlib.Data.List.Perm.Subperm
import Mathlib.Data.Nat.Notation

/-!
# Tables with a primary key

A table is a list of rows in insertion order under pairwise distinct keys.  Every
operation keeps the keys distinct, so `get?` describes a table up to the order of
its rows, and the lemmas below reduce each operation to `get?`.
-/

set_option autoImplicit false

structure KeyedTable (K R : Type*) where
  entries : List (K × R)
  nodup : (entries.map Prod.fst).Nodup

namespace KeyedTable

variable {K R : Type*} [DecidableEq K]

def empty : KeyedTable K R := ⟨[], List.nodup_nil⟩

def get? (t : KeyedTable K R) (k : K) : Option R := t.entries.lookup k

/-- Insertion under an unused key; a key already present is a uniqueness violation. -/
def insert? (t : KeyedTable K R) (k : K) (r : R) : Option (KeyedTable K R) :=
  if h : k ∈ t.entries.map Prod.fst then none
  else some ⟨t.entries ++ [(k, r)], by
    rw [List.map_append, List.map_cons, List.map_nil, List.nodup_append]
    refine ⟨t.nodup, List.nodup_singleton k, fun a ha b hb hab ↦ h ?_⟩
    rw [List.mem_singleton] at hb
    rwa [hab, hb] at ha⟩

/-- `UPDATE` of every row by a function of its key and its old value. -/
def mapRows (t : KeyedTable K R) (f : K → R → R) : KeyedTable K R :=
  ⟨t.entries.map fun e ↦ (e.1, f e.1 e.2), by
    rw [List.map_map]
    exact t.nodup⟩

/-- `UPDATE … WHERE key = k`. -/
def modify (t : KeyedTable K R) (k : K) (f : R → R) : KeyedTable K R :=
  t.mapRows fun k' r ↦ if k' = k then f r else r

/-- `DELETE` of the rows that do not meet `p`. -/
def filterRows (t : KeyedTable K R) (p : K → R → Bool) : KeyedTable K R :=
  ⟨t.entries.filter fun e ↦ p e.1 e.2, (t.nodup.sublist (List.filter_sublist.map Prod.fst))⟩

/-- The rows that meet `p`, in insertion order. -/
def select (t : KeyedTable K R) (p : K → R → Bool) : List (K × R) :=
  t.entries.filter fun e ↦ p e.1 e.2

@[simp] theorem get?_empty (k : K) : (empty : KeyedTable K R).get? k = none := rfl

theorem get?_eq_none_iff {t : KeyedTable K R} {k : K} :
    t.get? k = none ↔ k ∉ t.entries.map Prod.fst := by
  simp only [get?, List.lookup_eq_none_iff, List.mem_map, not_exists, not_and, bne_iff_ne]
  exact ⟨fun h e he hk ↦ h e he hk.symm, fun h e he hk ↦ h e he hk.symm⟩

theorem lookup_cons_eq (k : K) (e : K × R) (l : List (K × R)) :
    (e :: l).lookup k = if k = e.1 then some e.2 else l.lookup k := by
  rw [List.lookup_cons]
  by_cases hk : k = e.1
  · rw [if_pos hk, hk, beq_self_eq_true]
  · rw [if_neg hk, beq_false_of_ne hk]

theorem lookup_eq_none {l : List (K × R)} {k : K} (h : k ∉ l.map Prod.fst) :
    l.lookup k = none :=
  List.lookup_eq_none_iff.mpr fun e he ↦ bne_iff_ne.mpr fun hk ↦
    h (List.mem_map.mpr ⟨e, he, hk.symm⟩)

theorem lookup_eq_some_of_mem {l : List (K × R)} (hl : (l.map Prod.fst).Nodup) {k : K} {r : R}
    (h : (k, r) ∈ l) : l.lookup k = some r := by
  induction l with
  | nil => cases h
  | cons e l ih =>
      obtain ⟨hnot, hrest⟩ := List.nodup_cons.mp hl
      rcases List.mem_cons.mp h with rfl | h
      · exact List.lookup_cons_self
      · have hne : k ≠ e.1 := fun hk ↦ hnot (hk ▸ List.mem_map_of_mem h)
        rw [List.lookup_cons, show (k == e.1) = false from beq_false_of_ne hne]
        exact ih hrest h

theorem mem_of_lookup_eq_some {l : List (K × R)} {k : K} {r : R} (h : l.lookup k = some r) :
    (k, r) ∈ l := by
  obtain ⟨l₁, l₂, rfl, -⟩ := List.lookup_eq_some_iff.mp h
  simp

theorem mem_entries_iff {t : KeyedTable K R} {k : K} {r : R} :
    (k, r) ∈ t.entries ↔ t.get? k = some r :=
  ⟨lookup_eq_some_of_mem t.nodup, mem_of_lookup_eq_some⟩

theorem mem_select_iff {t : KeyedTable K R} {p : K → R → Bool} {k : K} {r : R} :
    (k, r) ∈ t.select p ↔ t.get? k = some r ∧ p k r = true := by
  simp [select, mem_entries_iff]

/-- Every selected key was selected before or is one of `ks`. -/
theorem length_select_le {R' : Type*} {t : KeyedTable K R} {t' : KeyedTable K R'}
    {p : K → R → Bool} {p' : K → R' → Bool} {ks : List K}
    (h : ∀ k r', t'.get? k = some r' → p' k r' = true →
      (∃ r, t.get? k = some r ∧ p k r = true) ∨ k ∈ ks) :
    (t'.select p').length ≤ (t.select p).length + ks.length := by
  have hnodup : ((t'.select p').map Prod.fst).Nodup :=
    t'.nodup.sublist (List.filter_sublist.map Prod.fst)
  have hsub : (t'.select p').map Prod.fst ⊆ (t.select p).map Prod.fst ++ ks := by
    intro k hk
    obtain ⟨⟨k, r'⟩, hmem, rfl⟩ := List.mem_map.mp hk
    obtain ⟨hget, hp'⟩ := mem_select_iff.mp hmem
    rcases h k r' hget hp' with ⟨r, hr, hp⟩ | hks
    · exact List.mem_append_left _ (List.mem_map.mpr ⟨(k, r), mem_select_iff.mpr ⟨hr, hp⟩, rfl⟩)
    · exact List.mem_append_right _ hks
  have hlen := (List.subperm_of_subset hnodup hsub).length_le
  rwa [List.length_append, List.length_map, List.length_map] at hlen

theorem insert?_eq_some {t t' : KeyedTable K R} {k : K} {r : R} (h : t.insert? k r = some t') :
    t.get? k = none ∧ t'.entries = t.entries ++ [(k, r)] := by
  unfold insert? at h
  split at h
  · cases h
  · rename_i hk
    cases h
    exact ⟨get?_eq_none_iff.mpr hk, rfl⟩

theorem get?_insert? {t t' : KeyedTable K R} {k : K} {r : R} (h : t.insert? k r = some t')
    (k' : K) : t'.get? k' = if k' = k then some r else t.get? k' := by
  obtain ⟨hnone, hentries⟩ := insert?_eq_some h
  rw [get?, hentries, List.lookup_append]
  by_cases hk : k' = k
  · subst hk
    rw [if_pos rfl, ← get?, hnone]
    simp
  · rw [if_neg hk, List.lookup_cons, show (k' == k) = false from beq_false_of_ne hk]
    simp [get?]

theorem lookup_map (l : List (K × R)) (f : K → R → R) (k : K) :
    (l.map fun e ↦ (e.1, f e.1 e.2)).lookup k = (l.lookup k).map (f k) := by
  induction l with
  | nil => rfl
  | cons e l ih =>
      obtain ⟨a, r⟩ := e
      by_cases hk : k = a
      · subst hk
        simp
      · simp [List.lookup_cons, beq_false_of_ne hk, ih]

@[simp] theorem get?_mapRows (t : KeyedTable K R) (f : K → R → R) (k : K) :
    (t.mapRows f).get? k = (t.get? k).map (f k) :=
  lookup_map t.entries f k

theorem get?_modify (t : KeyedTable K R) (k : K) (f : R → R) (k' : K) :
    (t.modify k f).get? k' = if k' = k then (t.get? k').map f else t.get? k' := by
  rw [modify, get?_mapRows]
  by_cases hk : k' = k
  · simp [hk]
  · simp [hk]

@[simp] theorem get?_modify_self (t : KeyedTable K R) (k : K) (f : R → R) :
    (t.modify k f).get? k = (t.get? k).map f := by
  rw [get?_modify, if_pos rfl]

@[simp] theorem get?_modify_of_ne (t : KeyedTable K R) {k k' : K} (f : R → R) (h : k' ≠ k) :
    (t.modify k f).get? k' = t.get? k' := by
  rw [get?_modify, if_neg h]

theorem get?_filterRows (t : KeyedTable K R) (p : K → R → Bool) (k : K) :
    (t.filterRows p).get? k = (t.get? k).filter (p k) := by
  apply Option.ext
  intro r
  rw [← mem_entries_iff, Option.filter_eq_some_iff, ← mem_entries_iff]
  simp [filterRows]

end KeyedTable

/-- A table whose keys come from a counter, so that insertion always succeeds. -/
structure SerialTable (R : Type*) extends KeyedTable ℕ R where
  next : ℕ
  bound : ∀ e ∈ entries, e.1 < next

namespace SerialTable

variable {R : Type*}

def empty : SerialTable R := ⟨⟨[], List.nodup_nil⟩, 1, fun _ h ↦ nomatch h⟩

def insert (t : SerialTable R) (r : R) : SerialTable R where
  entries := t.entries ++ [(t.next, r)]
  nodup := by
    rw [List.map_append, List.map_cons, List.map_nil, List.nodup_append]
    refine ⟨t.nodup, List.nodup_singleton _, fun a ha b hb hab ↦ ?_⟩
    obtain ⟨e, he, rfl⟩ := List.mem_map.mp ha
    rw [List.mem_singleton] at hb
    exact absurd (t.bound e he) (by rw [hab, hb]; exact Nat.lt_irrefl _)
  next := t.next + 1
  bound := fun e he ↦ by
    rcases List.mem_append.mp he with he | he
    · exact Nat.lt_succ_of_lt (t.bound e he)
    · rw [List.mem_singleton.mp he]
      exact Nat.lt_succ_self _

def mapRows (t : SerialTable R) (f : ℕ → R → R) : SerialTable R where
  toKeyedTable := t.toKeyedTable.mapRows f
  next := t.next
  bound := fun e he ↦ by
    obtain ⟨e', he', rfl⟩ := List.mem_map.mp he
    exact t.bound e' he'

def filterRows (t : SerialTable R) (p : ℕ → R → Bool) : SerialTable R where
  toKeyedTable := t.toKeyedTable.filterRows p
  next := t.next
  bound := fun e he ↦ t.bound e (List.mem_filter.mp he).1

theorem get?_lt_next {t : SerialTable R} {k : ℕ} {r : R} (h : t.get? k = some r) :
    k < t.next :=
  t.bound (k, r) (KeyedTable.mem_entries_iff.mpr h)

theorem get?_insert (t : SerialTable R) (r : R) (k : ℕ) :
    (t.insert r).get? k = if k = t.next then some r else t.get? k := by
  apply Option.ext
  intro r'
  by_cases hk : k = t.next
  · subst hk
    rw [if_pos rfl, ← KeyedTable.mem_entries_iff]
    have hnot : (t.next, r') ∉ t.entries := fun h ↦ Nat.lt_irrefl _ (t.bound _ h)
    simp [insert, hnot, eq_comm]
  · rw [if_neg hk, ← KeyedTable.mem_entries_iff, ← KeyedTable.mem_entries_iff]
    simp [insert, hk]

end SerialTable

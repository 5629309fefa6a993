import Mathlib.Data.List.DropRight
import Mathlib.Data.List.Infix

/-!
# Paths as texts

Splitting and joining paths over any alphabet with a separator, and the absolute paths whose
text says nothing but their components.
-/

set_option autoImplicit false

namespace PosixPath

variable {α : Type*}

/-- An absolute path without empty components; the root has none. -/
structure RealPath (sep : α) where
  components : List (List α)
  nonempty : [] ∉ components
  plain : ∀ part ∈ components, sep ∉ part

/-- The components, each with a separator in front. -/
def flat (sep : α) (parts : List (List α)) : List α := (parts.map (sep :: ·)).flatten

def RealPath.render {sep : α} (p : RealPath sep) : List α :=
  if p.components = [] then [sep] else flat sep p.components

theorem flat_cons {sep : α} (part : List α) (parts : List (List α)) :
    flat sep (part :: parts) = sep :: (part ++ flat sep parts) := rfl

theorem flat_append {sep : α} (parts parts' : List (List α)) :
    flat sep (parts ++ parts') = flat sep parts ++ flat sep parts' := by
  simp [flat]

theorem RealPath.render_congr {sep : α} {p q : RealPath sep} (h : p.components = q.components) :
    p.render = q.render := by
  unfold render
  rw [h]

variable [DecidableEq α]

/-- A path without the separators at its end. -/
def stripEnd (sep : α) (path : List α) : List α := path.rdropWhile (· = sep)

/-- The part up to the last separator and the part behind it; separators at the end of the first
part go, unless it has nothing else. -/
def split (sep : α) (path : List α) : List α × List α :=
  let head := path.rdropWhile (· ≠ sep)
  (if ∀ c ∈ head, c = sep then head else stripEnd sep head, path.rtakeWhile (· ≠ sep))

def join (sep : α) (dir file : List α) : List α :=
  if file.head? = some sep ∨ dir = [] then file
  else if dir.getLast? = some sep then dir ++ file
  else dir ++ sep :: file

/-- What stands between the separators, less the empty parts. -/
def componentsOf (sep : α) (path : List α) : List (List α) :=
  (path.splitOn sep).filter fun part ↦ part ≠ []

/-! ## Components -/

section

variable {sep : α}

theorem componentsOf_append (s t : List α) :
    componentsOf sep (s ++ sep :: t) = componentsOf sep s ++ componentsOf sep t := by
  rw [componentsOf, List.splitOn_append_cons_self, List.filter_append]
  rfl

theorem componentsOf_nil : componentsOf sep [] = [] := by
  simp [componentsOf, List.splitOn_nil]

theorem componentsOf_of_not_mem {part : List α} (hne : part ≠ []) (hsep : sep ∉ part) :
    componentsOf sep part = [part] := by
  rw [componentsOf, List.splitOn_eq_singleton hsep]
  simp [hne]

theorem componentsOf_flat_of_part {part : List α} {parts : List (List α)}
    (hne : [] ∉ part :: parts) (hsep : ∀ c ∈ part :: parts, sep ∉ c) :
    componentsOf sep (part ++ flat sep parts) = part :: parts := by
  induction parts generalizing part with
  | nil =>
      rw [flat, List.map_nil, List.flatten_nil, List.append_nil]
      refine componentsOf_of_not_mem ?_ (hsep part List.mem_cons_self)
      rintro rfl
      exact hne List.mem_cons_self
  | cons next parts ih =>
      have hpart : part ≠ [] := by
        rintro rfl
        exact hne List.mem_cons_self
      have hrest := ih (fun h ↦ hne (List.mem_cons_of_mem part h))
        fun c hc ↦ hsep c (List.mem_cons_of_mem part hc)
      rw [flat_cons, componentsOf_append, hrest,
        componentsOf_of_not_mem hpart (hsep part List.mem_cons_self)]
      rfl

theorem componentsOf_flat {parts : List (List α)} (hne : [] ∉ parts)
    (hsep : ∀ c ∈ parts, sep ∉ c) : componentsOf sep (flat sep parts) = parts := by
  cases parts with
  | nil => exact componentsOf_nil
  | cons part parts =>
      rw [flat_cons]
      have happend : componentsOf sep ([] ++ sep :: (part ++ flat sep parts)) = _ :=
        componentsOf_append [] (part ++ flat sep parts)
      rw [List.nil_append, componentsOf_nil, List.nil_append] at happend
      rw [happend, componentsOf_flat_of_part hne hsep]

namespace RealPath

variable {p root : RealPath sep}

theorem componentsOf_render (p : RealPath sep) : componentsOf sep p.render = p.components := by
  unfold render
  split_ifs with hroot
  · rw [hroot]
    exact componentsOf_append [] []
  · exact componentsOf_flat p.nonempty p.plain

theorem stripEnd_render (p : RealPath sep) : stripEnd sep p.render = flat sep p.components := by
  obtain hroot | ⟨parts, part, hparts⟩ := List.eq_nil_or_concat p.components
  · rw [render, if_pos hroot, hroot]
    simp [stripEnd, flat, List.rdropWhile_singleton]
  · have hmem : part ∈ p.components := by rw [hparts]; simp
    have hne : part ≠ [] := fun hnil ↦ p.nonempty (hnil ▸ hmem)
    obtain ⟨before, last, rfl⟩ := (List.eq_nil_or_concat part).resolve_left hne
    have hlast : last ≠ sep := by
      rintro rfl
      exact p.plain _ hmem (by simp)
    have hflat : flat sep p.components = flat sep parts ++ sep :: before ++ [last] := by
      rw [hparts, List.concat_eq_append, List.concat_eq_append, flat_append]
      simp [flat]
    have hnonroot : p.components ≠ [] := List.ne_nil_of_mem hmem
    rw [render, if_neg hnonroot, hflat, stripEnd, List.rdropWhile_concat_neg]
    simpa using hlast

/-- A path starts with the text of another one and a separator exactly if the other's components
are the first ones of its own, and it has more. -/
theorem flat_prefix_render_iff {parts : List (List α)} (hne : [] ∉ parts)
    (hsep : ∀ c ∈ parts, sep ∉ c) :
    flat sep parts ++ [sep] <+: p.render ∨ parts = p.components ↔ parts <+: p.components := by
  constructor
  · rintro (⟨rest, hrest⟩ | rfl)
    · have hparts : componentsOf sep (flat sep parts ++ sep :: rest) = _ :=
        componentsOf_append (flat sep parts) rest
      rw [componentsOf_flat hne hsep, ← List.singleton_append, ← List.append_assoc, hrest,
        componentsOf_render] at hparts
      exact ⟨_, hparts.symm⟩
    · exact List.prefix_rfl
  · rintro ⟨rest, hrest⟩
    cases rest with
    | nil => exact .inr (by rwa [List.append_nil] at hrest)
    | cons part rest =>
        have hnonroot : p.components ≠ [] := by
          rw [← hrest]
          simp
        refine .inl ⟨part ++ flat sep rest, ?_⟩
        rw [render, if_neg hnonroot, ← hrest, flat_append, flat_cons]
        simp

theorem render_injective {p q : RealPath sep} (h : p.render = q.render) :
    p.components = q.components := by
  rw [← p.componentsOf_render, h, q.componentsOf_render]

/-- Being a root or inside it, as a test on texts. -/
theorem within_iff (p root : RealPath sep) :
    (p.render = root.render ∨ stripEnd sep root.render ++ [sep] <+: p.render) ↔
      root.components <+: p.components := by
  rw [stripEnd_render, ← flat_prefix_render_iff root.nonempty root.plain, or_comm]
  exact or_congr_right ⟨fun h ↦ (render_injective h).symm, fun h ↦ render_congr h.symm⟩

/-- The same for a text that has no separator at its end. -/
theorem under_iff (p : RealPath sep) {root : RealPath sep} (h : root.components ≠ []) :
    (p.render = root.render ∨ root.render ++ [sep] <+: p.render) ↔
      root.components <+: p.components := by
  have hrender : root.render = flat sep root.components := if_neg h
  rw [← within_iff, stripEnd_render, hrender]

end RealPath

end

end PosixPath

import Mathlib

/-!
# `Lib.PMap` — partial maps as abstract state

The abstract state of a mapping component: a function to `Option`, changed on whole sets of keys. Nothing
here computes; the components that refine a partial map do.
-/

namespace OxideOs

/-- A partial map from `κ` to `α`. -/
abbrev PMap (κ α : Type _) := κ → Option α

namespace PMap

variable {κ α : Type _}

/-- The map that is defined nowhere. -/
def empty : PMap κ α := fun _ => none

/-- The map is undefined on the whole of `s`. -/
def UndefinedOn (m : PMap κ α) (s : Set κ) : Prop := ∀ k ∈ s, m k = none

open Classical in
/-- Map every key of `s` to `x`. -/
noncomputable def extend (m : PMap κ α) (s : Set κ) (x : α) : PMap κ α := fun k => if k ∈ s then some x else m k

open Classical in
/-- Undefine the keys of `s`. -/
noncomputable def erase (m : PMap κ α) (s : Set κ) : PMap κ α := fun k => if k ∈ s then none else m k

open Classical in
/-- Keep the keys of `s` only. -/
noncomputable def restrict (m : PMap κ α) (s : Set κ) : PMap κ α := fun k => if k ∈ s then m k else none

variable {m : PMap κ α} {s : Set κ} {k : κ} {x : α}

@[simp] theorem extend_of_mem (h : k ∈ s) : extend m s x k = some x := if_pos h

@[simp] theorem extend_of_not_mem (h : k ∉ s) : extend m s x k = m k := if_neg h

@[simp] theorem erase_of_mem (h : k ∈ s) : erase m s k = none := if_pos h

@[simp] theorem erase_of_not_mem (h : k ∉ s) : erase m s k = m k := if_neg h

@[simp] theorem restrict_of_mem (h : k ∈ s) : restrict m s k = m k := if_pos h

@[simp] theorem restrict_of_not_mem (h : k ∉ s) : restrict m s k = none := if_neg h

end PMap
end OxideOs

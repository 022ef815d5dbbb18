import Mathlib

/-!
# `Lib.Slots` — families of lists laid out over a list of slots

A table of lists, one for each slot, read as one long list. Changing the list of one slot changes the
long list in the same way, up to order.
-/

namespace OxideOs.Slots

open List

variable {ι β : Type _} {slots : List ι} {F F' : ι → List β} {i : ι} {b : β}

/-- **Exchanging elements in one slot exchanges them in all.** -/
theorem flatMap_perm_exchange (as bs : List β) (hnd : slots.Nodup) (hi : i ∈ slots)
    (hne : ∀ j, j ≠ i → F' j = F j) (hp : (as ++ F' i).Perm (bs ++ F i)) :
    (as ++ slots.flatMap F').Perm (bs ++ slots.flatMap F) := by
  induction slots with
  | nil => cases hi
  | cons j js ih =>
    obtain ⟨hj, hnd'⟩ := nodup_cons.mp hnd
    rw [flatMap_cons, flatMap_cons]
    by_cases hji : j = i
    · subst hji
      rw [flatMap_congr (fun k hk => hne k (fun he => hj (he ▸ hk))), ← append_assoc, ← append_assoc]
      exact hp.append_right _
    rw [hne j hji]
    have hi' : i ∈ js := (mem_cons.mp hi).resolve_left (Ne.symm hji)
    -- bring the list of slot `j` to the front on both sides
    have hfront : ∀ xs ys : List β, (xs ++ (F j ++ ys)).Perm (F j ++ (xs ++ ys)) := by
      intro xs ys
      rw [← append_assoc, ← append_assoc]
      exact perm_append_comm.append_right _
    exact (hfront as _).trans (((ih hnd' hi').append_left _).trans (hfront bs _).symm)

/-- One more element in one slot is one more element in all. -/
theorem flatMap_perm_cons (hnd : slots.Nodup) (hi : i ∈ slots) (hne : ∀ j, j ≠ i → F' j = F j)
    (hp : (F' i).Perm (b :: F i)) : (slots.flatMap F').Perm (b :: slots.flatMap F) :=
  flatMap_perm_exchange [] [b] hnd hi hne hp

/-- Fewer elements in some slots are fewer elements in all. -/
theorem flatMap_sublist (h : ∀ j, (F' j).Sublist (F j)) : (slots.flatMap F').Sublist (slots.flatMap F) := by
  induction slots with
  | nil => exact Sublist.refl _
  | cons j js ih => exact (h j).append ih

/-- Summing over the long list is summing slot by slot. -/
theorem sum_map_flatMap (g : β → Nat) :
    ((slots.flatMap F).map g).sum = (slots.map (fun i => ((F i).map g).sum)).sum := by
  rw [map_flatMap, flatMap, sum_flatten, map_map]
  rfl

end OxideOs.Slots

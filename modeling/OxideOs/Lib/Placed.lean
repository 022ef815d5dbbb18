import Mathlib

/-!
# `Lib.Placed` — elements in at most one of a family of lists

A family of lists `lists : κ → List τ` holds tokens, each in at most one place: no element is twice in a list or in
two of them. The rules say that this survives what queues do: an element is appended that was nowhere, a list is cut
down or put in another order, a part of a list goes to the end of another.
-/

namespace OxideOs

open Function List

universe u v

/-- An element of a family with one list replaced is in the new list, or in another old one. -/
theorem mem_update {κ : Type u} {τ : Type v} [DecidableEq κ] {lists : κ → List τ} {l k : κ} {new : List τ} {x : τ} :
    x ∈ update lists l new k ↔ k = l ∧ x ∈ new ∨ k ≠ l ∧ x ∈ lists k := by
  by_cases hk : k = l
  · subst hk
    simp
  · simp [hk]

/-- **No element is in two of the lists, or twice in one.** -/
structure Placed {κ : Type u} {τ : Type v} (lists : κ → List τ) : Prop where
  nodup : ∀ l, (lists l).Nodup
  unique : ∀ {x : τ} {l l' : κ}, x ∈ lists l → x ∈ lists l' → l = l'

namespace Placed

variable {κ : Type u} {τ : Type v} {lists : κ → List τ}

theorem empty : Placed (fun _ : κ => ([] : List τ)) := ⟨fun _ => nodup_nil, nofun⟩

variable [DecidableEq κ]

/-- Cut a list down, or reorder it. -/
theorem shrink (h : Placed lists) {l : κ} {new : List τ} (hnodup : new.Nodup) (hsub : new ⊆ lists l) :
    Placed (update lists l new) := by
  have hold : ∀ {x k}, x ∈ update lists l new k → x ∈ lists k := by
    intro x k hx
    rcases mem_update.mp hx with ⟨rfl, hnew⟩ | ⟨-, hx⟩
    · exact hsub hnew
    · exact hx
  refine ⟨?_, fun hx hx' => h.unique (hold hx) (hold hx')⟩
  exact (forall_update_iff lists (fun _ l => l.Nodup)).mpr ⟨hnodup, fun k _ => h.nodup k⟩

/-- Append elements that are nowhere. -/
theorem append (h : Placed lists) {l : κ} {new : List τ} (hnodup : new.Nodup)
    (hfresh : ∀ x ∈ new, ∀ k, x ∉ lists k) : Placed (update lists l (lists l ++ new)) := by
  -- An element of a list is an old one of that list, or a new one of `l`.
  have hcases : ∀ {x k}, x ∈ update lists l (lists l ++ new) k → x ∈ lists k ∨ k = l ∧ x ∈ new := by
    intro x k hx
    rcases mem_update.mp hx with ⟨rfl, hx'⟩ | ⟨-, hx⟩
    · exact (mem_append.mp hx').imp_right (fun hnew => ⟨rfl, hnew⟩)
    · exact .inl hx
  constructor
  · refine (forall_update_iff lists (fun _ l => l.Nodup)).mpr ⟨?_, fun k _ => h.nodup k⟩
    exact nodup_append'.mpr ⟨h.nodup l, hnodup, fun x hold hnew => hfresh x hnew l hold⟩
  intro x k k' hx hx'
  rcases hcases hx with hold | ⟨rfl, hnew⟩
  · rcases hcases hx' with hold' | ⟨-, hnew'⟩
    · exact h.unique hold hold'
    · exact absurd hold (hfresh x hnew' k)
  rcases hcases hx' with hold' | ⟨rfl, -⟩
  · exact absurd hold' (hfresh x hnew k')
  · rfl

/-- **Move a part of a list to the end of another.** -/
theorem move (h : Placed lists) {src dst : κ} (hne : src ≠ dst) {taken rest : List τ}
    (hsplit : (taken ++ rest).Perm (lists src)) : Placed (update (update lists src rest) dst (lists dst ++ taken)) := by
  have hnodup : (taken ++ rest).Nodup := hsplit.nodup_iff.mpr (h.nodup src)
  obtain ⟨htaken, hrest, hapart⟩ := nodup_append'.mp hnodup
  have hcut : Placed (update lists src rest) :=
    h.shrink hrest (fun x hx => hsplit.mem_iff.mp (mem_append_right taken hx))
  have hdst : update lists src rest dst = lists dst := update_of_ne hne.symm rest lists
  rw [← hdst]
  refine hcut.append htaken ?_
  intro x hx k hk
  have hsrc : x ∈ lists src := hsplit.mem_iff.mp (mem_append_left rest hx)
  rcases mem_update.mp hk with ⟨rfl, hrest⟩ | ⟨hks, hk⟩
  · exact hapart hx hrest
  · exact hks (h.unique hk hsrc)

end Placed

section Moves

variable {κ : Type u} {τ : Type v} [DecidableEq κ] {lists : κ → List τ}

/-- A list in another order has the same elements. -/
theorem exists_mem_reorder {l : κ} {new : List τ} (hperm : new.Perm (lists l)) (x : τ) :
    (∃ k, x ∈ update lists l new k) ↔ ∃ k, x ∈ lists k := by
  refine exists_congr (fun k => ?_)
  by_cases hk : k = l
  · subst hk
    rw [update_self, hperm.mem_iff]
  · rw [update_of_ne hk]

/-- Nobody gets lost when a part of a list goes to the end of another, and nobody new comes. -/
theorem exists_mem_move {src dst : κ} (hne : src ≠ dst) {taken rest : List τ}
    (hsplit : (taken ++ rest).Perm (lists src)) (x : τ) :
    (∃ k, x ∈ update (update lists src rest) dst (lists dst ++ taken) k) ↔ ∃ k, x ∈ lists k := by
  have hsrc : x ∈ lists src ↔ x ∈ taken ∨ x ∈ rest := by rw [← hsplit.mem_iff, mem_append]
  simp only [mem_update]
  constructor
  · rintro ⟨k, ⟨-, hk⟩ | ⟨-, ⟨-, hk⟩ | ⟨-, hk⟩⟩⟩
    · exact (mem_append.mp hk).elim (fun hold => ⟨dst, hold⟩) (fun hnew => ⟨src, hsrc.mpr (.inl hnew)⟩)
    · exact ⟨src, hsrc.mpr (.inr hk)⟩
    · exact ⟨k, hk⟩
  · rintro ⟨k, hk⟩
    by_cases hks : k = src
    · subst hks
      rcases hsrc.mp hk with htaken | hrest
      · exact ⟨dst, .inl ⟨rfl, mem_append_right _ htaken⟩⟩
      · exact ⟨k, .inr ⟨hne, .inl ⟨rfl, hrest⟩⟩⟩
    by_cases hdst : k = dst
    · exact ⟨dst, .inl ⟨rfl, mem_append_left _ (hdst ▸ hk)⟩⟩
    · exact ⟨k, .inr ⟨hdst, .inr ⟨hks, hk⟩⟩⟩

end Moves
end OxideOs

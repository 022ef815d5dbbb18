import Mathlib

/-!
# `Lib.Dll` — doubly linked lists in a store

A store gives every cell a `next` and a `prev` cell; `nil` is the null cell. `Dll next prev nil p h L` says
that the cells of `L`, in order, are linked both ways from the head `h`, the first one pointing back to `p`
and the last one forward to `nil`. The edits an allocator makes (push at the head, pop, unlink in the
middle) are stated over two stores that agree away from the cells written.
-/

namespace OxideOs

open List

variable {ι : Type _}

/-- The cells of `L` are linked both ways from the head `h`; the first one points back to `p`. -/
def Dll (next prev : ι → ι) (nil : ι) : ι → ι → List ι → Prop
  | _, h, [] => h = nil
  | p, h, x :: xs => h = x ∧ x ≠ nil ∧ prev x = p ∧ Dll next prev nil x (next x) xs

namespace Dll

variable {next prev next' prev' : ι → ι} {nil p p' h x y : ι} {L A B : List ι}

/-- The cells met by following `next` for `n` steps. -/
def walk (next : ι → ι) : ι → Nat → List ι
  | _, 0 => []
  | h, n + 1 => h :: walk next (next h) n

section

variable (hl : Dll next prev nil p h L)
include hl

theorem walk_eq : walk next h L.length = L := by
  induction L generalizing p h with
  | nil => rfl
  | cons x xs ih =>
    obtain ⟨rfl, _, _, ht⟩ := hl
    simp [walk, ih ht]

/-- The head is the null cell exactly when the list is empty. -/
theorem head_eq_nil_iff : h = nil ↔ L = [] := by
  cases L with
  | nil => exact iff_of_true hl rfl
  | cons x xs =>
    obtain ⟨rfl, hx, _⟩ := hl
    exact iff_of_false hx (cons_ne_nil _ _)

/-- The head of a list with cells is one of them. -/
theorem head_mem (hne : L ≠ []) : h ∈ L := by
  cases L with
  | nil => exact absurd rfl hne
  | cons x xs => exact hl.1 ▸ mem_cons_self

/-- The predecessor field of the head is the cell the list hangs off. -/
theorem prev_head (hne : L ≠ []) : prev h = p := by
  cases L with
  | nil => exact absurd rfl hne
  | cons x xs =>
    obtain ⟨rfl, _, hp, _⟩ := hl
    exact hp

end

/-- The successor of a cell inside a list is null or behind it. -/
theorem next_mem_right (hl : Dll next prev nil p h (A ++ x :: B)) : next x = nil ∨ next x ∈ B := by
  induction A generalizing p h with
  | nil =>
    obtain ⟨_, _, _, ht⟩ := hl
    exact (eq_or_ne B []).imp (fun hB => ht.head_eq_nil_iff.mpr hB) ht.head_mem
  | cons a A ih => exact ih hl.2.2.2

/-- The successor of a linked cell is linked or null. -/
theorem next_mem (hl : Dll next prev nil p h L) (hx : x ∈ L) : next x = nil ∨ next x ∈ L := by
  obtain ⟨A, B, rfl⟩ := append_of_mem hx
  exact hl.next_mem_right.imp_right (fun hn => mem_append_right A (mem_cons_of_mem x hn))

/-- The predecessor of a cell inside a list is before it, and points to it. -/
theorem prev_mem_left (hl : Dll next prev nil p h (A ++ x :: B)) (hA : A ≠ []) : prev x ∈ A ∧ next (prev x) = x := by
  induction A generalizing p h with
  | nil => exact absurd rfl hA
  | cons a A ih =>
    obtain ⟨rfl, _, _, ht⟩ := hl
    cases A with
    | nil =>
      obtain ⟨hn, _, hp, _⟩ := ht
      rw [hp]
      exact ⟨mem_cons_self, hn⟩
    | cons b A =>
      obtain ⟨h1, h2⟩ := ih ht (cons_ne_nil _ _)
      exact ⟨mem_cons_of_mem _ h1, h2⟩

section

variable (hl : Dll next prev nil p h L)
include hl

/-- A list survives any store that agrees on its cells, the back link of the head apart. -/
theorem rehead (hnd : L.Nodup) (hnext : ∀ y ∈ L, next' y = next y)
    (hprev : ∀ y ∈ L, y ≠ h → prev' y = prev y) (hh : L ≠ [] → prev' h = p') : Dll next' prev' nil p' h L := by
  induction L generalizing p p' h with
  | nil => exact hl
  | cons x xs ih =>
    obtain ⟨rfl, hx, _, ht⟩ := hl
    obtain ⟨hnot, hnd'⟩ := nodup_cons.mp hnd
    have hne : ∀ y ∈ xs, y ≠ h := fun y hy he => hnot (he ▸ hy)
    refine ⟨rfl, hx, hh (cons_ne_nil _ _), ?_⟩
    rw [hnext h mem_cons_self]
    refine ih ht hnd' (fun y hy => hnext y (mem_cons_of_mem _ hy))
      (fun y hy _ => hprev y (mem_cons_of_mem _ hy) (hne y hy)) (fun hxs => ?_)
    have hmem := ht.head_mem hxs
    rw [hprev _ (mem_cons_of_mem _ hmem) (hne _ hmem)]
    exact ht.prev_head hxs

/-- A list survives any store that agrees on its cells. -/
theorem frame (hnd : L.Nodup) (hnext : ∀ y ∈ L, next' y = next y)
    (hprev : ∀ y ∈ L, prev' y = prev y) : Dll next' prev' nil p h L := by
  refine hl.rehead hnd hnext (fun y hy _ => hprev y hy) (fun hne => ?_)
  rw [hprev h (hl.head_mem hne), hl.prev_head hne]

/-- **Push.** A new head cell that points to the old head, to which the old head points back. -/
theorem push (hnd : L.Nodup) (hx : x ≠ nil) (hnx : next' x = h) (hpx : prev' x = p) (hnext : ∀ y ∈ L, next' y = next y)
    (hprev : ∀ y ∈ L, y ≠ h → prev' y = prev y) (hh : L ≠ [] → prev' h = x) : Dll next' prev' nil p x (x :: L) :=
  ⟨rfl, hx, hpx, hnx ▸ hl.rehead hnd hnext hprev hh⟩

end

/-- **Pop.** Without its head cell a list hangs off the cell before it. -/
theorem pop (hl : Dll next prev nil p h (x :: L)) (hnd : (x :: L).Nodup)
    (hnext : ∀ y ∈ L, next' y = next y) (hprev : ∀ y ∈ L, y ≠ next x → prev' y = prev y)
    (hh : L ≠ [] → prev' (next x) = p) : Dll next' prev' nil p (next x) L :=
  hl.2.2.2.rehead (nodup_cons.mp hnd).2 hnext hprev hh

/-- **Unlink.** A cell behind the head is taken out by joining its neighbours. -/
theorem unlink (hl : Dll next prev nil p h (A ++ x :: B)) (hnd : (A ++ x :: B).Nodup) (hA : A ≠ [])
    (hnext : ∀ y ∈ A ++ B, y ≠ prev x → next' y = next y) (hnext' : next' (prev x) = next x)
    (hprev : ∀ y ∈ A ++ B, y ≠ next x → prev' y = prev y) (hprev' : next x ≠ nil → prev' (next x) = prev x) :
    Dll next' prev' nil p h (A ++ B) := by
  induction A generalizing p h with
  | nil => exact absurd rfl hA
  | cons a A ih =>
    obtain ⟨rfl, ha, hpa, ht⟩ := hl
    have hnd' : h ∉ A ++ x :: B ∧ (A ++ x :: B).Nodup := by
      rw [cons_append] at hnd; exact nodup_cons.mp hnd
    -- the successor of `x` is null or behind it, so the head keeps its back link
    have hhx : h ≠ next x := by
      rcases ht.next_mem_right with hn | hn
      · exact hn ▸ ha
      · exact fun he => hnd'.1 (he ▸ mem_append_right A (mem_cons_of_mem x hn))
    refine ⟨rfl, ha, (hprev h (by simp) hhx).trans hpa, ?_⟩
    cases A with
    | nil =>
      obtain ⟨-, -, hpx, ht'⟩ := ht
      rw [← hpx, hnext']
      have hB : B.Nodup := (nodup_cons.mp hnd'.2).2
      have hBh : ∀ y ∈ B, y ≠ prev x := fun y hy he => hnd'.1 (by rw [← hpx, ← he]; simp [hy])
      refine ht'.rehead hB (fun y hy => hnext y (by simp [hy]) (hBh y hy))
        (fun y hy hne => hprev y (by simp [hy]) hne) (fun hne => hprev' ?_)
      exact mt ht'.head_eq_nil_iff.mp hne
    | cons b A =>
      have hpx := (ht.prev_mem_left (cons_ne_nil _ _)).1
      have hhp : h ≠ prev x := fun he => hnd'.1 (he ▸ mem_append_left _ hpx)
      rw [hnext h (by simp) hhp]
      refine ih ht hnd'.2 (cons_ne_nil _ _) ?_ ?_
      · intro y hy hne
        exact hnext y (by simp only [cons_append] at hy ⊢; exact mem_cons_of_mem _ hy) hne
      · intro y hy hne
        exact hprev y (by simp only [cons_append] at hy ⊢; exact mem_cons_of_mem _ hy) hne

end Dll
end OxideOs

import Mathlib

/-!
# `Lib.BinHeap` — sifting in a binary heap stored in a list

The children of position `i` are at `2 * i + 1` and `2 * i + 2`. The sifts are loops whose position moves
strictly up or strictly down; they take the number of rounds they may still make, and callers give the
position itself (up) or the length (down), which no run of the loop exceeds. Sifting exchanges elements and
never adds or drops one.
-/

namespace OxideOs.BinHeap

open List

variable {α : Type _}

/-- Exchange the elements at two positions. -/
def swap (l : List α) (i j : Nat) : List α :=
  match l[i]?, l[j]? with
  | some x, some y => (l.set i y).set j x
  | _, _ => l

/-- The element at `i` comes before the element at `j`. -/
def before (lt : α → α → Bool) (l : List α) (i j : Nat) : Bool :=
  match l[i]?, l[j]? with
  | some x, some y => lt x y
  | _, _ => false

/-- Move the element at `idx` towards the root. -/
def siftUp (lt : α → α → Bool) : Nat → List α → Nat → List α
  | 0, l, _ => l
  | rounds + 1, l, idx =>
    if 0 < idx ∧ before lt l idx ((idx - 1) / 2) = true then
      siftUp lt rounds (swap l idx ((idx - 1) / 2)) ((idx - 1) / 2)
    else l

/-- The smallest of position `idx` and its children. -/
def smallest (lt : α → α → Bool) (l : List α) (idx : Nat) : Nat :=
  let s := if before lt l (2 * idx + 1) idx then 2 * idx + 1 else idx
  if before lt l (2 * idx + 2) s then 2 * idx + 2 else s

/-- Move the element at `idx` towards the leaves. -/
def siftDown (lt : α → α → Bool) : Nat → List α → Nat → List α
  | 0, l, _ => l
  | rounds + 1, l, idx =>
    if smallest lt l idx = idx then l
    else siftDown lt rounds (swap l idx (smallest lt l idx)) (smallest lt l idx)

theorem swap_perm (l : List α) (i j : Nat) : (swap l i j).Perm l := by
  unfold swap
  split
  next x y hx hy =>
    obtain ⟨hi, rfl⟩ := List.getElem?_eq_some_iff.mp hx
    obtain ⟨hj, rfl⟩ := List.getElem?_eq_some_iff.mp hy
    exact set_set_perm hi hj
  · exact .refl l

theorem siftUp_perm (lt : α → α → Bool) (rounds : Nat) (l : List α) (idx : Nat) : (siftUp lt rounds l idx).Perm l := by
  induction rounds generalizing l idx with
  | zero => exact .refl l
  | succ n ih =>
    unfold siftUp
    split
    · exact (ih _ _).trans (swap_perm l _ _)
    · exact .refl l

theorem siftDown_perm (lt : α → α → Bool) (rounds : Nat) (l : List α) (idx : Nat) :
    (siftDown lt rounds l idx).Perm l := by
  induction rounds generalizing l idx with
  | zero => exact .refl l
  | succ n ih =>
    unfold siftDown
    split
    · exact .refl l
    · exact (ih _ _).trans (swap_perm l _ _)

/-- **Filling a hole with the last element.** Overwriting position `pos` by the last element and giving up
    the last position drops exactly the element that was at `pos`. -/
theorem set_last_dropLast_perm {l : List α} {pos : Nat} {x y : α} (hpos : l[pos]? = some x)
    (hlast : l.getLast? = some y) (hlt : pos < l.length - 1) : (x :: (l.set pos y).dropLast).Perm l := by
  obtain ⟨init, rfl⟩ := getLast?_eq_some_iff.mp hlast
  have hlen : pos < init.length := by simpa using hlt
  have hx : init[pos]? = some x := by rwa [List.getElem?_append_left hlen] at hpos
  rw [set_append_left _ _ hlen, dropLast_concat]
  obtain ⟨_, rfl⟩ := List.getElem?_eq_some_iff.mp hx
  -- the element overwritten goes to the end, where the new one came from
  exact (set_perm_cons_eraseIdx hlen y).cons _ |>.trans <| by
    refine (Perm.swap y _ _).trans ?_
    refine ((getElem_cons_eraseIdx_perm hlen).cons y).trans ?_
    exact (perm_append_singleton y init).symm

end OxideOs.BinHeap

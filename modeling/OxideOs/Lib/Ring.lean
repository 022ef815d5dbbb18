import Mathlib

/-!
# `Lib.Ring` — a first-in first-out queue stored in a ring of cells

The queue starts at a read position and runs on for `count` cells, wrapping at the capacity; the write
position is where it ends. The loops copy element by element and move their position by one modulo the
capacity: `drain` copies out of the ring, `fill` copies into it. `Holds` says which list a ring stands for;
draining takes from its front and filling appends to its back.
-/

namespace OxideOs.Ring

open List Function Nat

variable {α : Type _} {cap : Nat}

/-- The `n` elements from position `pos` on. -/
def window (cap : Nat) (data : Nat → α) (pos n : Nat) : List α := (range n).map (fun i => data ((pos + i) % cap))

/-- Copy `n` elements out, from position `pos` on; with the position after them. -/
def drain (cap : Nat) (data : Nat → α) : Nat → Nat → List α × Nat
  | pos, 0 => ([], pos)
  | pos, n + 1 => ((data pos) :: (drain cap data ((pos + 1) % cap) n).1, (drain cap data ((pos + 1) % cap) n).2)

/-- Copy a list in, from position `pos` on; with the position after it. -/
def fill (cap : Nat) : (Nat → α) → Nat → List α → (Nat → α) × Nat
  | data, pos, [] => (data, pos)
  | data, pos, x :: xs => fill cap (update data pos x) ((pos + 1) % cap) xs

/-! ## Positions -/

variable {j pos n : Nat}

/-- Positions less than a full turn apart are different cells. -/
theorem cell_injective {p i : Nat} (hi : i < cap) (hj : j < cap) (h : (p + i) % cap = (p + j) % cap) : i = j :=
  ModEq.eq_of_lt_of_lt (ModEq.add_left_cancel' p h) hi hj

theorem cell_shift (p i j : Nat) : ((p + i) % cap + j) % cap = (p + (i + j)) % cap := by
  rw [mod_add_mod, add_assoc]

/-! ## Windows -/

section

variable (data : Nat → α)
include data

@[simp] theorem window_zero (pos : Nat) : window cap data pos 0 = [] := rfl

@[simp] theorem window_length (pos n : Nat) : (window cap data pos n).length = n := by
  simp [window]

theorem window_add (pos m n : Nat) :
    window cap data pos (m + n) = window cap data pos m ++ window cap data ((pos + m) % cap) n := by
  unfold window
  rw [range_add, map_append, map_map]
  congr 1
  apply map_congr_left
  intro i _
  rw [comp_apply, cell_shift]

theorem window_one (h : pos < cap) : window cap data pos 1 = [data pos] := by
  simp [window, mod_eq_of_lt h]

theorem window_succ (h : pos < cap) (n : Nat) :
    window cap data pos (n + 1) = data pos :: window cap data ((pos + 1) % cap) n := by
  rw [add_comm n 1, window_add, window_one data h, singleton_append]

end

theorem window_congr {data data' : Nat → α} (h : ∀ i < n, data' ((pos + i) % cap) = data ((pos + i) % cap)) :
    window cap data' pos n = window cap data pos n := by
  apply map_congr_left
  intro i hi
  exact h i (mem_range.mp hi)

/-! ## The copying loops -/

theorem drain_eq (data : Nat → α) (h : pos < cap) (n : Nat) :
    drain cap data pos n = (window cap data pos n, (pos + n) % cap) := by
  induction n generalizing pos with
  | zero => simp only [drain, window_zero, add_zero, mod_eq_of_lt h]
  | succ n ih =>
    have hpos : (pos + 1) % cap < cap := mod_lt _ (zero_lt_of_lt h)
    simp only [drain, ih hpos, window_succ data h, cell_shift, add_comm 1 n]

theorem fill_pos (data : Nat → α) (h : pos < cap) (xs : List α) :
    (fill cap data pos xs).2 = (pos + xs.length) % cap := by
  induction xs generalizing data pos with
  | nil => exact (mod_eq_of_lt h).symm
  | cons x xs ih =>
    have hpos : (pos + 1) % cap < cap := mod_lt _ (zero_lt_of_lt h)
    rw [fill, ih _ hpos, cell_shift, length_cons, add_comm 1]

/-- The loop writes no other cells. -/
theorem fill_other (data : Nat → α) (hpos : pos < cap) (xs : List α)
    (h : ∀ i < xs.length, (pos + i) % cap ≠ j) : (fill cap data pos xs).1 j = data j := by
  induction xs generalizing data pos with
  | nil => rfl
  | cons x xs ih =>
    have hnext : (pos + 1) % cap < cap := mod_lt _ (zero_lt_of_lt hpos)
    have hfirst : pos ≠ j := by
      have := h 0 (succ_pos _)
      rwa [add_zero, mod_eq_of_lt hpos] at this
    have hrest : ∀ i < xs.length, ((pos + 1) % cap + i) % cap ≠ j := by
      intro i hi
      rw [cell_shift, add_comm 1 i]
      exact h _ (succ_lt_succ hi)
    rw [fill, ih _ hnext hrest, update_of_ne hfirst.symm]

/-- What was copied in is there, in order, when it is no longer than one turn. -/
theorem fill_window (data : Nat → α) (hpos : pos < cap) {xs : List α} (h : xs.length ≤ cap) :
    window cap (fill cap data pos xs).1 pos xs.length = xs := by
  induction xs generalizing data pos with
  | nil => rfl
  | cons x xs ih =>
    have hnext : (pos + 1) % cap < cap := mod_lt _ (zero_lt_of_lt hpos)
    have hlen : xs.length < cap := h
    -- the cells written after the first one are other cells
    have hkept : ∀ i < xs.length, ((pos + 1) % cap + i) % cap ≠ pos := by
      intro i _ he
      have hcell : (pos + (1 + i)) % cap = (pos + 0) % cap := by
        rw [← cell_shift, he, add_zero, mod_eq_of_lt hpos]
      have h0 : 1 + i = 0 := cell_injective (by omega) (zero_lt_of_lt hpos) hcell
      omega
    rw [length_cons, window_succ _ hpos, fill, ih _ hnext (le_of_lt hlen), fill_other _ hnext xs hkept, update_self]

/-! ## The queue a ring stands for -/

/-- **The ring with these positions and this count holds the queue `xs`.** -/
structure Holds (cap : Nat) (data : Nat → α) (readPos writePos count : Nat) (xs : List α) : Prop where
  cells : window cap data readPos count = xs
  tail : writePos = (readPos + count) % cap
  head : readPos < cap
  fits : count ≤ cap

variable {data : Nat → α} {readPos writePos count : Nat} {xs : List α}

section

variable (h : Holds cap data readPos writePos count xs)
include h

theorem Holds.length : xs.length = count := by
  rw [← h.cells, window_length]

/-- Draining takes from the front of the queue. -/
theorem Holds.drain (hn : n ≤ count) : (drain cap data readPos n).1 = xs.take n ∧
      Holds cap data (Ring.drain cap data readPos n).2 writePos (count - n) (xs.drop n) := by
  have hsplit : xs = window cap data readPos n ++ window cap data ((readPos + n) % cap) (count - n) := by
    rw [← window_add, Nat.add_sub_cancel' hn, h.cells]
  have hlen : (window cap data readPos n).length = n := window_length data readPos n
  rw [drain_eq data h.head, hsplit]
  refine ⟨(take_left' hlen).symm, (drop_left' hlen).symm, ?_, ?_, ?_⟩
  · rw [h.tail, cell_shift, Nat.add_sub_cancel' hn]
  · exact mod_lt _ (zero_lt_of_lt h.head)
  · exact (sub_le count n).trans h.fits

/-- Filling appends to the back of the queue. -/
theorem Holds.fill {ys : List α} (hys : count + ys.length ≤ cap) :
    Holds cap (Ring.fill cap data writePos ys).1 readPos (Ring.fill cap data writePos ys).2
      (count + ys.length) (xs ++ ys) := by
  have hpos : writePos < cap := h.tail ▸ mod_lt _ (zero_lt_of_lt h.head)
  have hnew : window cap (Ring.fill cap data writePos ys).1 writePos ys.length = ys := fill_window data hpos (by omega)
  -- the queue's own cells are not among those written
  have hold : window cap (Ring.fill cap data writePos ys).1 readPos count = xs := by
    rw [← h.cells]
    apply window_congr
    intro i _
    apply fill_other data hpos ys
    intro j _ he
    rw [h.tail, cell_shift] at he
    have hij : count + j = i := cell_injective (by omega) (by omega) he
    omega
  refine ⟨?_, ?_, h.head, hys⟩
  · rw [window_add, hold, ← h.tail, hnew]
  · rw [fill_pos data hpos, h.tail, cell_shift]

end

end OxideOs.Ring

import Mathlib

/-!
# `Lib.Content` — files as zero-filled arrays

What a file is for: a size and a value at every position, zero where nothing was written since the position was
last outside. `Holds` relates a buffer to it, and one lemma per operation says that the buffer's way of writing,
resizing and reading is the file's.
-/

namespace OxideOs

open List

universe u

/-- **A zero-filled array.** -/
structure Content (α : Type u) [Zero α] where
  size : Nat
  get : Nat → α
  outside : ∀ i, size ≤ i → get i = 0

namespace Content

variable {α : Type u} [Zero α]

def empty : Content α := ⟨0, fun _ => 0, fun _ _ => rfl⟩

/-- The values of `buf` from `pos` on; the array grows to hold them. -/
def write (c : Content α) (pos : Nat) (buf : List α) : Content α where
  size := max c.size (pos + buf.length)
  get i := if pos ≤ i ∧ i < pos + buf.length then buf.getD (i - pos) 0 else c.get i
  outside i h := by
    rw [if_neg (by omega)]
    exact c.outside i (by omega)

/-- The first `n` positions; the array grows with zeros. -/
def truncate (c : Content α) (n : Nat) : Content α where
  size := n
  get i := if i < n then c.get i else 0
  outside i h := if_neg (by omega)

/-- At most `len` values from `pos` on. -/
def read (c : Content α) (pos len : Nat) : List α := (range (min len (c.size - pos))).map (fun k => c.get (pos + k))

/-! ## Buffers -/

/-- `Vec::resize` with zeros. -/
def resize (l : List α) (n : Nat) : List α := l.take n ++ replicate (n - l.length) 0

/-- The buffer with `buf` copied over it from `pos` on. -/
def splice (l : List α) (pos : Nat) (buf : List α) : List α := l.take pos ++ (buf ++ l.drop (pos + buf.length))

/-- The buffer's values are the array's. -/
def Holds (l : List α) (c : Content α) : Prop := l.length = c.size ∧ ∀ i, l.getD i 0 = c.get i

variable {l : List α} {c : Content α}

theorem length_resize (l : List α) (n : Nat) : (resize l n).length = n := by
  unfold resize
  rw [length_append, length_take, length_replicate]
  omega

theorem getD_resize (l : List α) (n i : Nat) : (resize l n).getD i 0 = if i < n then l.getD i 0 else 0 := by
  unfold resize
  by_cases hi : i < (l.take n).length
  · rw [getD_append _ _ _ _ hi]
    rw [length_take] at hi
    rw [if_pos (by omega), getD_eq_getElem?_getD, getElem?_take_of_lt (by omega), ← getD_eq_getElem?_getD]
  have hzero : ∀ m k : Nat, (replicate m (0 : α)).getD k 0 = 0 := by
    intro m k
    rw [getD_eq_getElem?_getD, getElem?_replicate]
    split <;> rfl
  rw [getD_append_right _ _ _ _ (Nat.le_of_not_lt hi), hzero]
  rw [length_take] at hi
  split
  · rw [getD_eq_default _ _ (by omega)]
  · rfl

omit [Zero α] in
theorem length_splice {pos : Nat} {buf : List α} (h : pos + buf.length ≤ l.length) :
    (splice l pos buf).length = l.length := by
  unfold splice
  rw [length_append, length_append, length_take, length_drop]
  omega

theorem getD_splice {pos : Nat} {buf : List α} (h : pos + buf.length ≤ l.length) (i : Nat) :
    (splice l pos buf).getD i 0 =
      if pos ≤ i ∧ i < pos + buf.length then buf.getD (i - pos) 0 else l.getD i 0 := by
  unfold splice
  have htake : (l.take pos).length = pos := length_take_of_le (by omega)
  by_cases hbelow : i < pos
  · rw [if_neg (by omega), getD_append _ _ _ _ (by omega), getD_eq_getElem?_getD,
      getElem?_take_of_lt hbelow, ← getD_eq_getElem?_getD]
  rw [getD_append_right _ _ _ _ (by omega), htake]
  by_cases hinside : i < pos + buf.length
  · rw [if_pos (by omega), getD_append _ _ _ _ (by omega)]
  rw [if_neg (by omega), getD_append_right _ _ _ _ (by omega), getD_eq_getElem?_getD,
    getElem?_drop, ← getD_eq_getElem?_getD]
  congr 1
  omega

theorem holds_empty : Holds ([] : List α) empty := ⟨rfl, fun _ => rfl⟩

/-- **Writing**: the buffer grows if it has to and the values are copied. -/
theorem Holds.write (h : Holds l c) {pos : Nat} (buf : List α) :
    Holds (splice (if l.length < pos + buf.length then resize l (pos + buf.length) else l) pos buf)
      (c.write pos buf) := by
  have hsize := h.1
  split
  next hgrow =>
    have hfit : pos + buf.length ≤ (resize l (pos + buf.length)).length := le_of_eq (length_resize l _).symm
    refine ⟨?_, ?_⟩
    · rw [length_splice hfit, length_resize]
      show _ = max c.size (pos + buf.length)
      omega
    intro i
    rw [getD_splice hfit, getD_resize]
    show _ = if pos ≤ i ∧ i < pos + buf.length then _ else c.get i
    split
    · rfl
    rw [← h.2 i]
    split
    · rfl
    · rw [getD_eq_default _ _ (by omega)]
  next hgrow =>
    have hfit : pos + buf.length ≤ l.length := by omega
    refine ⟨?_, ?_⟩
    · rw [length_splice hfit]
      show _ = max c.size (pos + buf.length)
      omega
    intro i
    rw [getD_splice hfit]
    show _ = if pos ≤ i ∧ i < pos + buf.length then _ else c.get i
    rw [h.2 i]

theorem Holds.truncate (h : Holds l c) (n : Nat) : Holds (resize l n) (c.truncate n) := by
  refine ⟨length_resize l n, ?_⟩
  intro i
  rw [getD_resize, h.2 i]
  rfl

/-- **Reading** a slice of the buffer. -/
theorem Holds.read (h : Holds l c) (pos len : Nat) : (l.drop pos).take len = c.read pos len := by
  have hsize := h.1
  unfold Content.read
  apply ext_getElem
  · rw [length_take, length_drop, length_map, length_range, hsize]
  intro i h1 _
  rw [length_take, length_drop] at h1
  rw [getElem_take, getElem_drop, getElem_map, getElem_range, ← h.2 _, getD_eq_getElem _ _ (by omega)]

end Content
end OxideOs

import OxideOs.Lib.Bytes
import OxideOs.Lib.Content

/-!
# `Lib.Encode` — numbers in byte buffers

A number of `k` bytes, least significant first (`le`) or last (`be`), its place in a buffer and its way back. A
field is put into a buffer by `copyAt` and taken out by `leAt`; `slice_splice_self` and
`slice_splice_apart` say what is read from a buffer after a field was put.
-/

namespace OxideOs

open List Nat

/-! ## Numbers as bytes -/

/-- The `k` low bytes of `n`, least significant first. -/
def le : Nat → Nat → List Byte
  | 0, _ => []
  | k + 1, n => BitVec.ofNat 8 n :: le k (n / 256)

/-- The number with these bytes, least significant first. -/
def ofLe : List Byte → Nat
  | [] => 0
  | b :: bs => b.toNat + 256 * ofLe bs

@[simp]
theorem length_le (k n : Nat) : (le k n).length = k := by
  induction k generalizing n with
  | zero => rfl
  | succ k ih => exact congrArg succ (ih _)

theorem ofLe_le (k n : Nat) : ofLe (le k n) = n % 256 ^ k := by
  induction k generalizing n with
  | zero => rw [pow_zero, mod_one]; rfl
  | succ k ih =>
    have hbyte : (BitVec.ofNat 8 n).toNat = n % 256 := BitVec.toNat_ofNat n 8
    rw [le, ofLe, hbyte, ih, pow_succ', mod_mul]

/-- A machine word comes back from its bytes. -/
theorem ofNat_ofLe_le {w : Nat} (k : Nat) (x : BitVec w) (h : 2 ^ w ≤ 256 ^ k) :
    BitVec.ofNat w (ofLe (le k x.toNat)) = x := by
  rw [ofLe_le, mod_eq_of_lt (lt_of_lt_of_le x.isLt h), BitVec.ofNat_toNat, BitVec.setWidth_eq]

/-! ## Fields of a buffer -/

namespace Checked

open Content

variable {α : Type}

/-- `l[i..i + buf.len()].copy_from_slice(buf)` -/
def copyAt (l : List α) (i : Nat) (buf : List α) : Checked (List α) :=
  if i + buf.length ≤ l.length then .ok (splice l i buf) else .error .outOfBounds

/-- The buffer with each of the fields copied to its place, in order. -/
def fill (l : List α) : List (Nat × List α) → Checked (List α)
  | [] => .ok l
  | (i, field) :: fields => do
      let l' ← copyAt l i field
      fill l' fields

/-- The number of `k` bytes from `i` on, least significant first. -/
def leAt (l : List Byte) (i k : Nat) : Checked Nat := do
  let bytes ← slice l i (i + k)
  .ok (ofLe bytes)

variable {l buf : List α} {i : Nat}

variable {l' : List α} {fields : List (Nat × List α)} {start stop k n w : Nat} {f : Nat × List α}

theorem copyAt_of_le (h : i + buf.length ≤ l.length) : copyAt l i buf = .ok (splice l i buf) := if_pos h

theorem copyAt_eq_ok (h : copyAt l i buf = .ok l') : i + buf.length ≤ l.length ∧ l' = splice l i buf := by
  unfold copyAt at h
  split at h
  next hle =>
    cases h
    exact ⟨hle, rfl⟩
  · cases h

/-- Fields that fit are put. -/
theorem fill_sat (h : ∀ f ∈ fields, f.1 + f.2.length ≤ l.length) :
    (fill l fields).Sat (fun l' => l'.length = l.length) := by
  induction fields generalizing l with
  | nil => exact .ok rfl
  | cons f fields ih =>
    have hfit := h f mem_cons_self
    have hlen : (splice l f.1 f.2).length = l.length := length_splice hfit
    have htail := ih (fun g hg => by
      rw [hlen]
      exact h g (mem_cons_of_mem f hg))
    rw [hlen] at htail
    unfold fill
    rw [copyAt_of_le hfit]
    exact htail

/-- What was put is read back. -/
theorem slice_splice_self (h : i + buf.length ≤ l.length) : slice (splice l i buf) i (i + buf.length) = .ok buf := by
  have hlen : (splice l i buf).length = l.length := length_splice h
  have htake : (l.take i).length = i := length_take_of_le (by omega)
  rw [slice_of_le (by omega) (by omega)]
  unfold splice
  rw [drop_take, drop_append_of_le_length (by omega), drop_of_length_le (by omega),
    nil_append, Nat.add_sub_cancel_left, take_left]

/-- **The frame of a field.** Bytes apart from what was put are those before. -/
theorem slice_splice_apart (h : i + buf.length ≤ l.length) (hapart : stop ≤ i ∨ i + buf.length ≤ start) :
    slice (splice l i buf) start stop = slice l start stop := by
  have hlen : (splice l i buf).length = l.length := length_splice h
  have htake : (l.take i).length = i := length_take_of_le (by omega)
  unfold slice
  rw [hlen]
  split
  · congr 1
    unfold splice
    rcases hapart with hbefore | _
    · rw [take_append_of_le_length (by omega), take_take, min_eq_left hbefore]
    apply ext_getElem?
    intro n
    rw [getElem?_drop, getElem?_drop, getElem?_take, getElem?_take]
    split
    · rw [getElem?_append_right (by omega), getElem?_append_right (by omega), getElem?_drop]
      congr 1
      omega
    · rfl
  · rfl

theorem fill_cons_eq_ok (h : fill l (f :: fields) = .ok l') :
    f.1 + f.2.length ≤ l.length ∧ fill (splice l f.1 f.2) fields = .ok l' := by
  obtain ⟨l1, hcopy, hrest⟩ := bind_eq_ok h
  obtain ⟨hfit, rfl⟩ := copyAt_eq_ok hcopy
  exact ⟨hfit, hrest⟩

section

variable (h : fill l fields = .ok l')
include h

theorem length_fill : l'.length = l.length := by
  induction fields generalizing l with
  | nil =>
    cases h
    rfl
  | cons f fields ih =>
    obtain ⟨hfit, hrest⟩ := fill_cons_eq_ok h
    rw [ih hrest, length_splice hfit]

/-- A buffer that was filled had room for every field. -/
theorem fits_of_fill : ∀ f ∈ fields, f.1 + f.2.length ≤ l.length := by
  induction fields generalizing l with
  | nil => exact nofun
  | cons f fields ih =>
    obtain ⟨hfit, hrest⟩ := fill_cons_eq_ok h
    have htail := ih hrest
    rw [length_splice hfit] at htail
    exact forall_mem_cons.mpr ⟨hfit, htail⟩

/-- Bytes apart from all the fields are those before. -/
theorem slice_fill_apart (hapart : ∀ f ∈ fields, stop ≤ f.1 ∨ f.1 + f.2.length ≤ start) :
    slice l' start stop = slice l start stop := by
  induction fields generalizing l with
  | nil =>
    cases h
    rfl
  | cons f fields ih =>
    obtain ⟨hfit, hrest⟩ := fill_cons_eq_ok h
    rw [ih hrest (fun g hg => hapart g (mem_cons_of_mem f hg)), slice_splice_apart hfit (hapart f mem_cons_self)]

/-- Two fields that share no byte. -/
def FieldsApart (f g : Nat × List α) : Prop := f.1 + f.2.length ≤ g.1 ∨ g.1 + g.2.length ≤ f.1

/-- **Every field is read back** from a buffer filled with fields that share no byte. -/
theorem slice_fill (hfields : fields.Pairwise FieldsApart) (hf : f ∈ fields) :
    slice l' f.1 (f.1 + f.2.length) = .ok f.2 := by
  induction fields generalizing l with
  | nil => cases hf
  | cons g fields ih =>
    obtain ⟨hfit, hrest⟩ := fill_cons_eq_ok h
    obtain ⟨hhead, htail⟩ := pairwise_cons.mp hfields
    rcases mem_cons.mp hf with rfl | hf
    · rw [slice_fill_apart hrest (hhead · ·), slice_splice_self hfit]
    · exact ih hrest htail hf

end

variable {bytes : List Byte}

theorem leAt_fill {fields : List (Nat × List Byte)} {bytes' : List Byte}
    (h : fill bytes fields = .ok bytes') (hfields : fields.Pairwise FieldsApart) (hf : (i, le k n) ∈ fields) :
    leAt bytes' i k = .ok (ofLe (le k n)) := by
  have hslice := slice_fill h hfields hf
  rw [length_le] at hslice
  unfold leAt
  rw [hslice]
  rfl

/-! ## Windows -/

/-- `k` elements from `i` on, of a buffer known to hold them. -/
def window (l : List α) (i k : Nat) : List α := (l.take (i + k)).drop i

/-- A chunk inside a buffer is the window from its place on. -/
theorem window_chunk (before chunk after : List α) {i : Nat} (hi : i = before.length) (hk : k = chunk.length) :
    window (before ++ (chunk ++ after)) i k = chunk := by
  subst hi
  subst hk
  unfold window
  rw [take_length_add_append, drop_left, take_left]

/-! ## Words one after the other -/

/-- The `n` words of `w` bits that stand from `start` on, `k` bytes each. -/
def wordsAt (w k : Nat) (buf : List Byte) (start n : Nat) : List (BitVec w) :=
  (range n).map (fun i => BitVec.ofNat w (ofLe (window buf (start + i * k) k)))

theorem length_chunks (k : Nat) (words : List (BitVec w)) :
    (words.map (fun x => le k x.toNat)).flatten.length = words.length * k := by
  simp [length_flatten, Function.comp_def]

/-- **Words are read back** from a buffer that holds them. -/
theorem wordsAt_chunks (hk : 2 ^ w ≤ 256 ^ k) (before : List Byte) (words : List (BitVec w)) (after : List Byte) :
    wordsAt w k (before ++ ((words.map (fun x => le k x.toNat)).flatten ++ after)) before.length words.length
      = words := by
  induction words generalizing before with
  | nil => rfl
  | cons word words ih =>
    have htail := ih (before ++ le k word.toNat)
    rw [append_assoc] at htail
    unfold wordsAt at htail ⊢
    rw [length_cons, range_succ_eq_map, map_cons, map_map, map_cons, flatten_cons,
      append_assoc, window_chunk before _ _ (by omega) (length_le k _).symm,
      ofNat_ofLe_le k word hk]
    congr 1
    rw [length_append] at htail
    refine Eq.trans (map_congr_left ?_) htail
    intro i _
    have hplace : before.length + (i + 1) * k = before.length + k + i * k := by
      rw [add_mul]
      omega
    simp [Function.comp, hplace]

/-! ## Fields one after the other -/

end Checked
end OxideOs

import Mathlib

/-!
# `Lib.Dyadic` — blocks of `2 ^ order` cells and their buddies

The arithmetic a buddy system rests on. A block is a run of `2 ^ order` cells; an aligned block splits into
two aligned halves, and the half opposite an aligned block is reached by flipping bit `order` of its base.
-/

namespace OxideOs

open List Nat

/-- The block of `2 ^ order` cells from `base` on. -/
structure Block where
  base : Nat
  order : Nat
  deriving DecidableEq, Repr

namespace Block

instance : Membership Nat Block := ⟨fun b x => b.base ≤ x ∧ x < b.base + 2 ^ b.order⟩

variable {a b c : Block} {x : Nat}

variable {l l' r : List Block}

theorem mem_iff : x ∈ b ↔ b.base ≤ x ∧ x < b.base + 2 ^ b.order := Iff.rfl

instance : Decidable (x ∈ b) := inferInstanceAs (Decidable (_ ∧ _))

theorem base_mem : b.base ∈ b := ⟨le_refl _, Nat.lt_add_of_pos_right (Nat.two_pow_pos _)⟩

/-- The base is a multiple of the size. -/
def Aligned (b : Block) : Prop := 2 ^ b.order ∣ b.base

/-- Two blocks share no cell. -/
def Apart (a b : Block) : Prop := a.base + 2 ^ a.order ≤ b.base ∨ b.base + 2 ^ b.order ≤ a.base

instance : Decidable (Aligned b) := inferInstanceAs (Decidable (_ ∣ _))
instance : Decidable (Apart a b) := inferInstanceAs (Decidable (_ ∨ _))

theorem Apart.symm (h : Apart a b) : Apart b a := Or.symm h

instance : Std.Symm Apart := ⟨fun _ _ => Apart.symm⟩

/-- Blocks are nonempty, so being apart is having disjoint cells. -/
theorem apart_iff : Apart a b ↔ ∀ x, x ∈ a → x ∉ b := by
  have ha := Nat.two_pow_pos a.order
  have hb := Nat.two_pow_pos b.order
  constructor
  · intro h x hxa hxb
    rw [mem_iff] at hxa hxb
    unfold Apart at h
    omega
  intro h
  by_contra hc
  unfold Apart at hc
  refine h (max a.base b.base) ?_ ?_ <;> (rw [mem_iff]; omega)

/-- Blocks inside `a` are apart from what `a` is apart from. -/
theorem Apart.of_subset (h : Apart a b) (hc : ∀ x ∈ c, x ∈ a) : Apart c b :=
  apart_iff.mpr fun x hx => apart_iff.mp h x (hc x hx)

/-! ## Buddies -/

/-- The block opposite `b` in the next larger aligned block. -/
def buddy (b : Block) : Block := ⟨b.base ^^^ 2 ^ b.order, b.order⟩

/-- `b` and its buddy together. -/
def merged (b : Block) : Block := ⟨min b.base b.buddy.base, b.order + 1⟩

theorem xor_two_pow (q o : Nat) : (2 ^ o * q) ^^^ 2 ^ o = 2 ^ o * (q ^^^ 1) := by
  have h : (q ^^^ 1) <<< o = q <<< o ^^^ 1 <<< o := shiftLeft_xor_distrib
  simp only [shiftLeft_eq, one_mul] at h
  rw [mul_comm, ← h, mul_comm]

/-- **The buddy lies right above a block whose base has bit `order` clear, else right below it.** -/
theorem Aligned.buddy_cases (h : b.Aligned) : (2 ^ (b.order + 1) ∣ b.base ∧ b.buddy.base = b.base + 2 ^ b.order) ∨
      (¬ 2 ^ (b.order + 1) ∣ b.base ∧ 2 ^ (b.order + 1) ∣ b.buddy.base ∧
        b.base = b.buddy.base + 2 ^ b.order) := by
  obtain ⟨q, hq⟩ := h
  have hpos := Nat.two_pow_pos b.order
  have hb : b.buddy.base = 2 ^ b.order * (q ^^^ 1) := by
    simp [buddy, hq, xor_two_pow]
  rcases even_or_odd q with he | ho
  · left
    rw [hb, xor_one_of_even he, hq]
    exact ⟨mul_dvd_mul_left _ he.two_dvd, mul_succ ..⟩
  right
  obtain ⟨k, _⟩ := id ho
  rw [hb, xor_one_of_odd ho, hq]
  refine ⟨?_, ?_, ?_⟩
  · intro hd
    have h2 := Nat.dvd_of_mul_dvd_mul_left hpos hd
    exact (not_even_iff_odd.mpr ho) (even_iff_two_dvd.mpr h2)
  · exact mul_dvd_mul_left _ (Nat.Odd.sub_odd ho odd_one).two_dvd
  · rw [← mul_succ]
    congr 1
    omega

theorem Aligned.apart_buddy (h : b.Aligned) : Apart b b.buddy := by
  have ho : b.buddy.order = b.order := rfl
  unfold Apart
  rw [ho]
  rcases h.buddy_cases with ⟨_, h2⟩ | ⟨_, _, h2⟩
  · left; omega
  · right; omega

theorem Aligned.merged (h : b.Aligned) : b.merged.Aligned := by
  unfold Aligned Block.merged
  rcases h.buddy_cases with ⟨h1, h2⟩ | ⟨_, h1, h2⟩
  · rw [min_eq_left (by omega)]; exact h1
  · rw [min_eq_right (by omega)]; exact h1

/-- The merged block has exactly the cells of both halves. -/
theorem Aligned.mem_merged (h : b.Aligned) : x ∈ b.merged ↔ x ∈ b ∨ x ∈ b.buddy := by
  have ho : b.buddy.order = b.order := rfl
  simp only [mem_iff, Block.merged, ho]
  rcases h.buddy_cases with ⟨_, h2⟩ | ⟨_, _, h2⟩ <;> omega

/-- The aligned block of order `k` around cell `x`. -/
def around (x k : Nat) : Block := ⟨2 ^ k * (x / 2 ^ k), k⟩

theorem aligned_around (x k : Nat) : (around x k).Aligned := dvd_mul_right _ _

theorem mem_around (x k : Nat) : x ∈ around x k := ⟨mul_div_le x _, lt_mul_div_succ x (Nat.two_pow_pos k)⟩

/-- An aligned block is the one around each of its cells. -/
theorem Aligned.around_of_mem (h : b.Aligned) (hx : x ∈ b) : around x b.order = b := by
  obtain ⟨base, order⟩ := b
  obtain ⟨q, rfl⟩ : 2 ^ order ∣ base := h
  have hq : x / 2 ^ order = q := by
    refine Nat.div_eq_of_lt_le ?_ ?_
    · rw [mul_comm]
      exact hx.1
    · rw [mul_comm, mul_succ]
      exact hx.2
  simp only [around, hq]

/-- Merging the block around a cell with its buddy gives the next larger block around it. -/
theorem merged_around (x k : Nat) : (around x k).merged = around x (k + 1) := by
  have hal := aligned_around x k
  exact (hal.merged.around_of_mem (hal.mem_merged.mpr (.inl (mem_around x k)))).symm

/-- Larger blocks around a cell contain the smaller ones. -/
theorem around_mono {x y j k : Nat} (hjk : j ≤ k) (hy : y ∈ around x j) : y ∈ around x k := by
  induction hjk with
  | refl => exact hy
  | step _ ih =>
    rw [← merged_around]
    exact (aligned_around _ _).mem_merged.mpr (.inl ih)

/-! ## Halves -/

/-- The lower half, of order `o`, of a block of order `o + 1`. -/
def lower (f o : Nat) : Block := ⟨f, o⟩

/-- The upper half. -/
def upper (f o : Nat) : Block := ⟨f + 2 ^ o, o⟩

variable {f o : Nat}

theorem mem_halves : x ∈ (⟨f, o + 1⟩ : Block) ↔ x ∈ lower f o ∨ x ∈ upper f o := by
  simp only [mem_iff, lower, upper]
  omega

theorem apart_halves : Apart (lower f o) (upper f o) := .inl (le_refl _)

theorem Aligned.lower (h : Aligned ⟨f, o + 1⟩) : (lower f o).Aligned := dvd_trans (pow_dvd_pow 2 (le_succ _)) h

theorem Aligned.upper (h : Aligned ⟨f, o + 1⟩) : (upper f o).Aligned := dvd_add h.lower (dvd_refl _)

/-! ## Regrouping -/

/-- Two lists of blocks have the same cells. -/
def SameCells (l l' : List Block) : Prop := ∀ x, (∃ b ∈ l, x ∈ b) ↔ ∃ b ∈ l', x ∈ b

theorem SameCells.refl (l : List Block) : SameCells l l := fun _ => Iff.rfl

theorem SameCells.trans {l'' : List Block} (h : SameCells l l') (h' : SameCells l' l'') :
    SameCells l l'' := fun x => (h x).trans (h' x)

theorem SameCells.symm (h : SameCells l l') : SameCells l' l := fun x => (h x).symm

theorem SameCells.of_perm (h : l.Perm l') : SameCells l l' := fun x => by
  simp [h.mem_iff]

/-- Cutting a block in two keeps the cells. -/
theorem SameCells.cut (h : ∀ x, x ∈ a ↔ x ∈ b ∨ x ∈ c) : SameCells (l ++ a :: r) (l ++ b :: c :: r) := by
  intro x
  simp [or_and_right, exists_or, h x, or_assoc]

/-- Two parts of a block may stand in its place. -/
theorem pairwise_cut (h : (l ++ a :: r).Pairwise Apart) (hb : ∀ x ∈ b, x ∈ a)
    (hc : ∀ x ∈ c, x ∈ a) (hbc : Apart b c) : (l ++ b :: c :: r).Pairwise Apart := by
  simp only [pairwise_middle Apart.symm, pairwise_cons] at h ⊢
  refine ⟨fun d hd => ?_, fun d hd => (h.1 d hd).of_subset hc, h.2⟩
  rcases mem_cons.mp (perm_middle.mem_iff.mp hd) with rfl | hd
  · exact hbc
  · exact (h.1 d hd).of_subset hb

/-- A block may stand in the place of two that cover it. -/
theorem pairwise_join (h : (l ++ b :: c :: r).Pairwise Apart)
    (ha : ∀ x ∈ a, x ∈ b ∨ x ∈ c) : (l ++ a :: r).Pairwise Apart := by
  simp only [pairwise_middle Apart.symm, pairwise_cons] at h ⊢
  obtain ⟨h1, h2, h3⟩ := h
  refine ⟨fun d hd => apart_iff.mpr fun x hx => ?_, h3⟩
  rcases ha x hx with hb | hc
  · exact apart_iff.mp (h1 d (perm_middle.mem_iff.mpr (mem_cons_of_mem c hd))) x hb
  · exact apart_iff.mp (h2 d hd) x hc

/-! ## Counting cells -/

/-- The cells of a list of blocks. -/
def cells (l : List Block) : Finset Nat := l.foldr (fun b s => Finset.Ico b.base (b.base + 2 ^ b.order) ∪ s) ∅

theorem mem_cells : x ∈ cells l ↔ ∃ b ∈ l, x ∈ b := by
  induction l with
  | nil => simp [cells]
  | cons c cs ih =>
    have : cells (c :: cs) = Finset.Ico c.base (c.base + 2 ^ c.order) ∪ cells cs := rfl
    rw [this, Finset.mem_union, ih]
    simp [mem_iff]

theorem card_cells (h : l.Pairwise Apart) : (cells l).card = (l.map (fun b => 2 ^ b.order)).sum := by
  induction l with
  | nil => rfl
  | cons c cs ih =>
    obtain ⟨hc, hcs⟩ := pairwise_cons.mp h
    have hdis : Disjoint (Finset.Ico c.base (c.base + 2 ^ c.order)) (cells cs) := by
      rw [Finset.disjoint_left]
      intro x hx hxs
      obtain ⟨b, hb, hxb⟩ := mem_cells.mp hxs
      exact apart_iff.mp (hc b hb) x (Finset.mem_Ico.mp hx) hxb
    have : cells (c :: cs) = Finset.Ico c.base (c.base + 2 ^ c.order) ∪ cells cs := rfl
    rw [this, Finset.card_union_of_disjoint hdis, ih hcs, card_Ico, map_cons, sum_cons, Nat.add_sub_cancel_left]

/-- In a disjoint list a covered cell lies in exactly one block. -/
theorem countP_eq_one (h : l.Pairwise Apart) (hx : ∃ b ∈ l, x ∈ b) : l.countP (fun b => decide (x ∈ b)) = 1 := by
  induction l with
  | nil => simp at hx
  | cons c cs ih =>
    obtain ⟨hc, hcs⟩ := pairwise_cons.mp h
    by_cases hxc : x ∈ c
    · have hzero : cs.countP (fun b => decide (x ∈ b)) = 0 := by
        rw [countP_eq_zero]
        intro b hb
        simpa using apart_iff.mp (hc b hb) x hxc
      simp [hxc, hzero]
    · obtain ⟨b, hb, hxb⟩ := hx
      rcases mem_cons.mp hb with rfl | hb
      · exact absurd hxb hxc
      · simp [hxc, ih hcs ⟨b, hb, hxb⟩]

/-- **Disjoint blocks below `n` have at most `n` cells in all.** -/
theorem sum_sizes_le {n : Nat} (h : l.Pairwise Apart)
    (hn : ∀ b ∈ l, b.base + 2 ^ b.order ≤ n) : (l.map (fun b => 2 ^ b.order)).sum ≤ n := by
  rw [← card_cells h, ← Finset.card_range n]
  apply Finset.card_le_card
  intro x hx
  obtain ⟨b, hb, hxb⟩ := mem_cells.mp hx
  have := hn b hb
  rw [mem_iff] at hxb
  exact mem_range.mpr (by omega)

end Block
end OxideOs

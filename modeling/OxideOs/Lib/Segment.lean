import Mathlib

/-!
# `Lib.Segment` — runs of cells, lists of them, and their canonical form

A memory manager keeps lists of address ranges. What it promises is about the *cells*: no two ranges share
one, and together the ranges cover exactly the memory that was handed over. Among all the lists that cover
one set of cells, the address-ordered one with no two ranges touching is unique (`Canonical.ext`), so a
manager that keeps its list canonical has no history in it beyond the set of cells.
-/

namespace OxideOs

open List

/-- The run of `size` cells from `start` on. -/
structure Segment where
  start : Nat
  size : Nat
  deriving DecidableEq, Repr

namespace Segment

/-- The first cell behind the segment. -/
def stop (s : Segment) : Nat := s.start + s.size

instance : Membership Nat Segment := ⟨fun s x => s.start ≤ x ∧ x < s.stop⟩

variable {a b c : Segment} {x : Nat} {l l' xs ys zs : List Segment}

theorem mem_iff : x ∈ a ↔ a.start ≤ x ∧ x < a.stop := Iff.rfl

theorem start_mem (h : 0 < a.size) : a.start ∈ a := ⟨le_refl _, Nat.lt_add_of_pos_right h⟩

theorem mem_mk {m n : Nat} : x ∈ (⟨m, n⟩ : Segment) ↔ m ≤ x ∧ x < m + n := Iff.rfl

instance : Decidable (x ∈ a) := inferInstanceAs (Decidable (_ ∧ _))

/-- Two segments share no cell. -/
def Apart (a b : Segment) : Prop := min a.stop b.stop ≤ max a.start b.start

instance : Decidable (Apart a b) := inferInstanceAs (Decidable (_ ≤ _))

theorem apart_iff : Apart a b ↔ ∀ x, x ∈ a → x ∉ b := by
  constructor
  · intro h x hxa hxb
    rw [mem_iff] at hxa hxb
    unfold Apart at h
    omega
  intro h
  by_contra hc
  unfold Apart at hc
  refine h (max a.start b.start) ?_ ?_ <;> (rw [mem_iff]; omega)

theorem Apart.symm (h : Apart a b) : Apart b a := by
  unfold Apart at h ⊢
  rwa [min_comm, max_comm]

instance : Std.Symm Apart := ⟨fun _ _ => Apart.symm⟩

/-! ## The cells of a list of segments -/

/-- Some segment of the list holds the cell. -/
def Covered (l : List Segment) (x : Nat) : Prop := ∃ s ∈ l, x ∈ s

instance : Decidable (Covered l x) := inferInstanceAs (Decidable (∃ s ∈ l, x ∈ s))

@[simp] theorem covered_nil : ¬ Covered [] x := by
  rintro ⟨s, hs, _⟩
  exact absurd hs not_mem_nil

@[simp] theorem covered_cons : Covered (a :: l) x ↔ x ∈ a ∨ Covered l x := by
  simp [Covered]

@[simp] theorem covered_append : Covered (xs ++ ys) x ↔ Covered xs x ∨ Covered ys x := by
  simp [Covered, or_and_right, exists_or]

theorem covered_perm (h : xs.Perm ys) : Covered xs x ↔ Covered ys x := by
  simp [Covered, h.mem_iff]

/-- A segment is apart from all of a list when the list covers none of its cells. -/
theorem apart_all_iff : (∀ s ∈ l, Apart a s) ↔ ∀ x ∈ a, ¬ Covered l x := by
  constructor
  · rintro h x hx ⟨s, hs, hxs⟩
    exact apart_iff.mp (h s hs) x hx hxs
  · intro h s hs
    exact apart_iff.mpr fun x hx hxs => h x hx ⟨s, hs, hxs⟩

/-- **Rearranging part of a family of disjoint segments.** What covers no more cells than `xs` did, and is
    disjoint in itself, may stand in the place of `xs`. -/
theorem pairwise_replace (h : (xs ++ ys).Pairwise Apart) (hz : zs.Pairwise Apart)
    (hc : ∀ x, Covered zs x → Covered xs x) : (zs ++ ys).Pairwise Apart := by
  obtain ⟨_, hy, hxy⟩ := pairwise_append.mp h
  refine pairwise_append.mpr ⟨hz, hy, fun a ha b hb => ?_⟩
  refine apart_iff.mpr fun x hxa hxb => ?_
  obtain ⟨s, hs, hxs⟩ := hc x ⟨a, ha, hxa⟩
  exact apart_iff.mp (hxy s hs b hb) x hxs hxb

/-- Fewer segments, in any order. -/
theorem pairwise_subperm (h : ys.Pairwise Apart) (hs : xs.Subperm ys) : xs.Pairwise Apart := by
  obtain ⟨zs, hp, hsub⟩ := hs
  exact hp.pairwise (h.sublist hsub) (fun hab => hab.symm)

theorem covered_subperm (hs : xs.Subperm ys) (hx : Covered xs x) : Covered ys x := by
  obtain ⟨s, hs', hxs⟩ := hx
  exact ⟨s, hs.subset hs', hxs⟩

/-! ## Address order -/

/-- `a` ends where `b` starts, or before. -/
def Before (a b : Segment) : Prop := a.stop ≤ b.start

/-- `a` ends before `b` starts, with at least one cell in between. -/
def StrictlyBefore (a b : Segment) : Prop := a.stop < b.start

instance : Decidable (Before a b) := inferInstanceAs (Decidable (_ ≤ _))
instance : Decidable (StrictlyBefore a b) := inferInstanceAs (Decidable (_ < _))

theorem Before.apart (h : Before a b) : Apart a b := by
  unfold Before at h
  unfold Apart
  omega

theorem Apart.before (h : Apart a b) (hle : a.start ≤ b.start) (hb : 0 < b.size) : Before a b := by
  unfold Apart at h
  unfold Before
  simp only [stop] at h ⊢
  omega

/-- Nonempty segments in strictly increasing address order, no two of them touching. -/
structure Canonical (l : List Segment) : Prop where
  ordered : l.Pairwise StrictlyBefore
  nonempty : ∀ s ∈ l, 0 < s.size

theorem canonical_nil : Canonical [] := ⟨Pairwise.nil, nofun⟩

theorem Canonical.pairwise_before (h : Canonical l) : l.Pairwise Before := h.ordered.imp le_of_lt

theorem Canonical.pairwise_apart (h : Canonical l) : l.Pairwise Apart := h.pairwise_before.imp Before.apart

section

variable (h : Canonical (a :: l))
include h

theorem Canonical.tail : Canonical l := ⟨h.ordered.of_cons, fun s hs => h.nonempty s (mem_cons_of_mem a hs)⟩

/-- In a canonical list, the cells behind the first segment's end are a gap, then the other segments. -/
theorem Canonical.lt_of_covered_tail (hx : Covered l x) : a.stop < x := by
  obtain ⟨s, hs, hxs⟩ := hx
  have hlt : a.stop < s.start := rel_of_pairwise_cons h.ordered hs
  exact lt_of_lt_of_le hlt hxs.1

theorem Canonical.start_mem : a.start ∈ a := Segment.start_mem (h.nonempty a mem_cons_self)

/-- The first cell of a canonical list is its first segment's start. -/
theorem Canonical.start_le (hx : Covered (a :: l) x) : a.start ≤ x := by
  rcases covered_cons.mp hx with hx | hx
  · exact hx.1
  · have hlt := h.lt_of_covered_tail hx
    exact le_of_lt (lt_of_le_of_lt (Nat.le_add_right _ _) hlt)

theorem Canonical.not_covered_stop : ¬ Covered (a :: l) a.stop := by
  intro hx
  rcases covered_cons.mp hx with hx | hx
  · exact lt_irrefl _ hx.2
  · exact lt_irrefl _ (h.lt_of_covered_tail hx)

/-- The first segments of two canonical lists with the same cells start together, and neither can be the
    longer one. -/
theorem Canonical.head_le (h' : Canonical (b :: l'))
    (hc : ∀ x, Covered (a :: l) x ↔ Covered (b :: l') x) : a.start ≤ b.start ∧ a.stop ≤ b.stop := by
  have hstart : a.start ≤ b.start := h.start_le ((hc _).mpr (covered_cons.mpr (.inl h'.start_mem)))
  by_contra hlt
  -- otherwise `a` holds the gap behind `b`
  have hb := h'.start_mem.2
  refine h'.not_covered_stop ((hc _).mp (covered_cons.mpr (.inl ⟨?_, ?_⟩))) <;> omega

end

/-- **The canonical list of a set of cells is unique.** -/
theorem Canonical.ext (h : Canonical l) (h' : Canonical l') (hc : ∀ x, Covered l x ↔ Covered l' x) : l = l' := by
  induction l generalizing l' with
  | nil =>
    cases l' with
    | nil => rfl
    | cons b l' => exact absurd ((hc _).mpr (covered_cons.mpr (.inl h'.start_mem))) covered_nil
  | cons a l ih =>
    cases l' with
    | nil => exact absurd ((hc _).mp (covered_cons.mpr (.inl h.start_mem))) covered_nil
    | cons b l' =>
      obtain ⟨hab, hab'⟩ := h.head_le h' hc
      obtain ⟨hba, hba'⟩ := h'.head_le h (fun x => (hc x).symm)
      have hs : a.start = b.start := le_antisymm hab hba
      have ht : a.stop = b.stop := le_antisymm hab' hba'
      have heq : a = b := by
        cases a
        cases b
        simp only [stop] at hs ht
        simp only [mk.injEq]
        omega
      subst heq
      have htail : ∀ x, Covered l x ↔ Covered l' x := by
        intro x
        have hx := hc x
        simp only [covered_cons] at hx
        have hgap : a.stop < x → x ∉ a := fun hlt hxa => lt_asymm hlt hxa.2
        constructor
        · intro hl
          exact (hx.mp (.inr hl)).resolve_left (hgap (h.lt_of_covered_tail hl))
        · intro hl
          exact (hx.mpr (.inr hl)).resolve_left (hgap (h'.lt_of_covered_tail hl))
      rw [ih h.tail h'.tail htail]

end Segment
end OxideOs

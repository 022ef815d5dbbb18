import OxideOs.Mm.Heap.LinkedList

/-!
# `Mm.Heap.FreeList` — what the free-list functions do to the cells

One specification per function of the free list. Each says that the list stays canonical, that its blocks can
hold a header, and which cells it covers afterwards.
-/

namespace OxideOs.Heap

open List Word Segment

/-! ## Alignment -/

variable {align size k x a : Nat} {b r : Segment} {l : List FreeBlock} {block : FreeBlock}

theorem padTo_dvd (size align : Nat) : align ∣ padTo size align := dvd_mul_right _ _

theorem le_padTo (size : Nat) (h : 0 < align) : size ≤ padTo size align := by
  have hdiv := Nat.div_add_mod (size + align - 1) align
  have hlt := Nat.mod_lt (size + align - 1) h
  unfold padTo
  omega

/-- An aligned address is its own rounding. -/
theorem padTo_of_dvd (h : 0 < align) (hd : align ∣ size) : padTo size align = size := by
  obtain ⟨q, rfl⟩ := hd
  unfold padTo
  have hq : (align * q + align - 1) / align = q := by
    rw [Nat.div_eq_iff h, mul_comm q align]
    omega
  rw [hq]

/-- For a power of two the mask of `align_up` rounds up. -/
theorem alignUp_eq {addr : Nat} (hk : k ≤ 64) :
    alignUp addr (2 ^ k) = if addr + 2 ^ k < 2 ^ 64 then some (padTo addr (2 ^ k)) else none := by
  unfold alignUp add64
  split
  next h =>
    have hmask := and_mask_eq (x := addr + 2 ^ k - 1) hk (by omega)
    rw [Option.map_some, hmask]
    rfl
  · rfl

theorem alignUp_eight (addr : Nat) :
    alignUp addr FREE_BLOCK_ALIGN = if addr + 8 < 2 ^ 64 then some (padTo addr 8) else none :=
  alignUp_eq (k := 3) (by decide)

/-- The working size holds a header and keeps blocks aligned; the working alignment is a power of two that is
    no less than the header's. -/
theorem sizeAlign_spec {layout : Layout} (h : sizeAlign layout = some (size, align)) :
    layout.size ≤ size ∧ FREE_BLOCK_SIZE ≤ size ∧ 8 ∣ size ∧ layout.align ∣ align ∧
      ∃ k, 3 ≤ k ∧ k < 64 ∧ align = 2 ^ k := by
  by_cases hfit : layout.size + (max layout.align 8 - 1) ≤ ISIZE_MAX
  · have hval : sizeAlign layout =
        some (max (padTo layout.size (max layout.align 8)) FREE_BLOCK_SIZE, max layout.align 8) := if_pos hfit
    rw [hval, Option.some.injEq] at h
    obtain ⟨rfl, rfl⟩ := h
    have hpow := layout.isPowerOfTwo
    -- the larger of two powers of two
    have hmax : ∃ k, 3 ≤ k ∧ max layout.align 8 = 2 ^ k ∧ layout.align ∣ 2 ^ k := by
      rcases le_total layout.align 8 with hle | hle
      · refine ⟨3, le_refl _, max_eq_right hle, ?_⟩
        rw [hpow]
        exact (Nat.pow_dvd_pow_iff_le_right (by decide)).mpr ((Nat.pow_le_pow_iff_right (by decide)).mp (hpow ▸ hle))
      · refine ⟨layout.align.log2, ?_, by rw [← hpow, max_eq_left hle], hpow ▸ dvd_refl _⟩
        have h8 : 2 ^ 3 ≤ 2 ^ layout.align.log2 := hpow ▸ hle
        exact (Nat.pow_le_pow_iff_right (by decide)).mp h8
    obtain ⟨k, hk3, hk, hd⟩ := hmax
    have hpos := Nat.two_pow_pos k
    have h8 : 8 ∣ 2 ^ k := pow_dvd_pow 2 hk3
    have hk64 : k < 64 := by
      by_contra hc
      have hbig : 2 ^ 64 ≤ 2 ^ k := Nat.pow_le_pow_right (by decide) (not_lt.mp hc)
      simp only [ISIZE_MAX] at hfit
      omega
    rw [hk]
    refine ⟨le_trans (le_padTo _ hpos) (le_max_left ..), le_max_right .., ?_, hd, k, hk3, hk64, rfl⟩
    rcases le_total _ FREE_BLOCK_SIZE with hle | hle
    · rw [max_eq_right hle]
      decide
    · rw [max_eq_left hle]
      exact dvd_trans h8 (padTo_dvd ..)
  · have hval : sizeAlign layout = none := if_neg hfit
    rw [hval] at h
    cases h

/-! ## Blocks -/

/-- A block that can hold a header and whose end is an address. -/
structure Shaped (b : Segment) : Prop where
  aligned : 8 ∣ b.start
  large : FREE_BLOCK_SIZE ≤ b.size
  stop_lt : b.stop < 2 ^ 64

instance (b : Segment) : Decidable (Shaped b) :=
  decidable_of_iff (8 ∣ b.start ∧ FREE_BLOCK_SIZE ≤ b.size ∧ b.stop < 2 ^ 64)
    ⟨fun ⟨h1, h2, h3⟩ => ⟨h1, h2, h3⟩, fun h => ⟨h.aligned, h.large, h.stop_lt⟩⟩

theorem Shaped.size_pos (h : Shaped b) : 0 < b.size := lt_of_lt_of_le (by decide) h.large

theorem Shaped.endAddr_eq (h : Shaped b) : endAddr b = some b.stop := add64_of_lt h.stop_lt

/-- A free list as the allocator keeps it. -/
structure FreeList (l : List FreeBlock) : Prop where
  canonical : Canonical l
  shaped : ∀ b ∈ l, Shaped b

theorem FreeList.nil : FreeList [] := ⟨canonical_nil, nofun⟩

theorem FreeList.tail {b : FreeBlock} (h : FreeList (b :: l)) : FreeList l :=
  ⟨h.canonical.tail, fun c hc => h.shaped c (mem_cons_of_mem b hc)⟩

/-- Put a block in front of a free list whose cells all lie behind a gap. -/
theorem FreeList.cons {b : FreeBlock} (hb : Shaped b) (h : FreeList l)
    (hgap : ∀ x, Covered l x → b.stop < x) : FreeList (b :: l) := by
  refine ⟨⟨pairwise_cons.mpr ⟨fun c hc => ?_, h.canonical.ordered⟩, ?_⟩, forall_mem_cons.mpr ⟨hb, h.shaped⟩⟩
  · have hpos := (h.shaped c hc).size_pos
    exact hgap c.start ⟨c, hc, start_mem hpos⟩
  · exact forall_mem_cons.mpr ⟨hb.size_pos, h.canonical.nonempty⟩

/-! ## Adding a region -/

/-- **Merging.** From blocks in address order, some of which may touch, merging makes a free list with the
    same cells. -/
theorem mergeFrom_spec (hord : (block :: l).Pairwise Before) (hsh : ∀ b ∈ block :: l, Shaped b) :
    ∃ l', mergeFrom block l = some l' ∧ FreeList l' ∧ ∀ x, Covered l' x ↔ Covered (block :: l) x := by
  induction l generalizing block with
  | nil =>
    have hb := hsh block (mem_cons_self ..)
    refine ⟨[block], by simp [mergeFrom, hb.endAddr_eq], ?_, fun x => Iff.rfl⟩
    exact FreeList.cons hb FreeList.nil (fun x hx => absurd hx covered_nil)
  | cons next rest ih =>
    have hb := hsh block (mem_cons_self ..)
    have hn := hsh next (mem_cons_of_mem _ (mem_cons_self ..))
    have hle : block.stop ≤ next.start := rel_of_pairwise_cons hord (mem_cons_self ..)
    have hord' := hord.of_cons
    by_cases htouch : block.stop = next.start
    · -- the two become one block with the cells of both
      have hstop : block.start + (block.size + next.size) = next.stop := by
        simp only [stop] at htouch ⊢
        omega
      have hshape : Shaped ⟨block.start, block.size + next.size⟩ :=
        ⟨hb.aligned, le_trans hb.large (Nat.le_add_right ..), lt_of_le_of_lt (le_of_eq hstop) hn.stop_lt⟩
      have hmem : ∀ x, x ∈ (⟨block.start, block.size + next.size⟩ : Segment) ↔ x ∈ block ∨ x ∈ next := by
        simp only [mem_iff, stop] at htouch ⊢
        omega
      have hfits : block.size + next.size < 2 ^ 64 := lt_of_le_of_lt (Nat.le_add_left _ _) hshape.stop_lt
      have hord'' : ((⟨block.start, block.size + next.size⟩ : Segment) :: rest).Pairwise Before := by
        refine pairwise_cons.mpr ⟨fun c hc => ?_, hord'.of_cons⟩
        show block.start + (block.size + next.size) ≤ c.start
        rw [hstop]
        exact rel_of_pairwise_cons hord' hc
      obtain ⟨l', hl', hfl, hcov⟩ := ih hord''
        (forall_mem_cons.mpr ⟨hshape, fun c hc => hsh c (mem_cons_of_mem _ (mem_cons_of_mem _ hc))⟩)
      refine ⟨l', ?_, hfl, fun x => ?_⟩
      · simp only [mergeFrom, hb.endAddr_eq, Option.bind_eq_bind, Option.bind_some, if_pos htouch, add64_of_lt hfits]
        exact hl'
      · rw [hcov, covered_cons, covered_cons, covered_cons, hmem, or_assoc]
    · obtain ⟨l', hl', hfl, hcov⟩ := ih hord' (fun c hc => hsh c (mem_cons_of_mem _ hc))
      refine ⟨block :: l', ?_, FreeList.cons hb hfl (fun x hx => ?_), fun x => ?_⟩
      · simp [mergeFrom, hb.endAddr_eq, if_neg htouch, hl']
      · -- what is covered further on starts at `next` or behind it
        obtain ⟨c, hc, hxc⟩ := (hcov x).mp hx
        have hgap : block.stop < next.start := lt_of_le_of_ne hle htouch
        refine lt_of_lt_of_le hgap (le_trans ?_ hxc.1)
        rcases mem_cons.mp hc with rfl | hc
        · exact le_refl _
        · exact le_trans (Nat.le_add_right _ _) (rel_of_pairwise_cons hord' hc)
      · rw [covered_cons, hcov, covered_cons (a := block)]

/-- Linking in a block that shares no cell with the others keeps the address order. -/
theorem insertByAddr_spec {new : FreeBlock} (hord : l.Pairwise Before)
    (hpos : ∀ b ∈ l, 0 < b.size) (hnew : 0 < new.size) (hap : ∀ b ∈ l, Apart new b) :
    (insertByAddr new l).Pairwise Before ∧ (insertByAddr new l).Perm (new :: l) := by
  induction l with
  | nil => exact ⟨pairwise_singleton _ _, Perm.refl _⟩
  | cons b l ih =>
    obtain ⟨hbl, hl⟩ := pairwise_cons.mp hord
    have hb := hap b (mem_cons_self ..)
    have hb0 := hpos b (mem_cons_self ..)
    unfold insertByAddr
    split
    next hlt =>
      obtain ⟨hi, hp⟩ := ih hl (fun c hc => hpos c (mem_cons_of_mem _ hc)) (fun c hc => hap c (mem_cons_of_mem _ hc))
      refine ⟨pairwise_cons.mpr ⟨fun c hc => ?_, hi⟩, (hp.cons b).trans (Perm.swap ..)⟩
      rcases mem_cons.mp (hp.mem_iff.mp hc) with rfl | hc
      · exact hb.symm.before (le_of_lt hlt) hnew
      · exact hbl c hc
    rename_i hlt
    have hbefore : Before new b := hb.before (not_lt.mp hlt) hb0
    refine ⟨pairwise_cons.mpr ⟨fun c hc => ?_, hord⟩, Perm.refl _⟩
    rcases mem_cons.mp hc with rfl | hc
    · exact hbefore
    have hbc := hbl c hc
    exact le_trans hbefore (le_trans (Nat.le_add_right _ _) hbc)

/-- A region cut down to aligned start. -/
def trimmed (r : Segment) : Segment := ⟨padTo r.start 8, r.size - (padTo r.start 8 - r.start)⟩

/-- The part of a region that the free list can hold: the trimmed region, if a header fits into it. -/
def usable (r : Segment) : List Segment := if FREE_BLOCK_SIZE ≤ (trimmed r).size then [trimmed r] else []

theorem mem_trimmed (h : x ∈ trimmed r) : x ∈ r := by
  have hle : r.start ≤ padTo r.start 8 := le_padTo r.start (by decide)
  simp only [mem_iff, stop, trimmed] at h ⊢
  omega

theorem covered_usable (h : Covered (usable r) x) : x ∈ r := by
  unfold usable at h
  split at h
  · rcases covered_cons.mp h with h | h
    · exact mem_trimmed h
    · exact absurd h covered_nil
  · exact absurd h covered_nil

theorem Shaped.usable_eq (h : Shaped r) : usable r = [r] := by
  have ht : trimmed r = r := by
    unfold trimmed
    rw [padTo_of_dvd (by decide) h.aligned, Nat.sub_self, Nat.sub_zero]
  unfold usable
  rw [ht, if_pos h.large]

/-- `add_free_region` in terms of the usable part. -/
theorem addFreeRegion_eq (l : List FreeBlock) (r : Segment) :
    addFreeRegion l r.start r.size =
      if r.start + 8 < 2 ^ 64 then
        if FREE_BLOCK_SIZE ≤ (trimmed r).size then mergeAdjacentBlocks (insertByAddr (trimmed r) l)
        else some l
      else none := by
  unfold addFreeRegion
  rw [alignUp_eight]
  by_cases h : r.start + 8 < 2 ^ 64
  · simp only [if_pos h, Option.bind_eq_bind, Option.bind_some]
    by_cases hloss : r.size ≤ padTo r.start 8 - r.start
    · have hz : ¬ FREE_BLOCK_SIZE ≤ (trimmed r).size := by
        simp only [trimmed, FREE_BLOCK_SIZE]
        omega
      rw [if_pos hloss, if_neg hz]
    rw [if_neg hloss]
    by_cases hlarge : FREE_BLOCK_SIZE ≤ (trimmed r).size
    · rw [if_pos hlarge]
      exact if_neg (not_lt.mpr hlarge)
    · rw [if_neg hlarge]
      exact if_pos (not_le.mp hlarge)
  · simp only [if_neg h, Option.bind_eq_bind, Option.bind_none]

/-- **Adding a region** that shares no cell with the free list makes a free list that covers, beyond the
    cells it had, exactly the usable part of the region. -/
theorem addFreeRegion_spec (hl : FreeList l)
    (hstart : r.start + 8 < 2 ^ 64) (hstop : r.stop < 2 ^ 64) (hap : ∀ x ∈ r, ¬ Covered l x) :
    ∃ l', addFreeRegion l r.start r.size = some l' ∧ FreeList l' ∧
      ∀ x, Covered l' x ↔ Covered l x ∨ Covered (usable r) x := by
  rw [addFreeRegion_eq, if_pos hstart]
  unfold usable
  by_cases hlarge : FREE_BLOCK_SIZE ≤ (trimmed r).size
  · have hle : r.start ≤ padTo r.start 8 := le_padTo r.start (by decide)
    have hlt : (trimmed r).stop < 2 ^ 64 := by
      have h16 : 16 ≤ r.size - (padTo r.start 8 - r.start) := hlarge
      simp only [stop, trimmed] at hstop ⊢
      omega
    have hsh : Shaped (trimmed r) := ⟨padTo_dvd .., hlarge, hlt⟩
    obtain ⟨hord, hperm⟩ := insertByAddr_spec hl.canonical.pairwise_before hl.canonical.nonempty hsh.size_pos
      (apart_all_iff.mpr fun x hx => hap x (mem_trimmed hx))
    have hshaped : ∀ b ∈ insertByAddr (trimmed r) l, Shaped b :=
      fun b hb => forall_mem_cons.mpr ⟨hsh, hl.shaped⟩ b (hperm.mem_iff.mp hb)
    rw [if_pos hlarge, if_pos hlarge]
    cases hi : insertByAddr (trimmed r) l with
    | nil =>
      rw [hi] at hperm
      exact absurd hperm.symm (not_perm_cons_nil)
    | cons b rest =>
      rw [hi] at hord hshaped hperm
      obtain ⟨l', hl', hfl, hcov⟩ := mergeFrom_spec hord hshaped
      refine ⟨l', hl', hfl, fun x => ?_⟩
      rw [hcov, covered_perm hperm, covered_cons, covered_cons]
      simp only [covered_nil, or_false]
      exact or_comm
  · rw [if_neg hlarge, if_neg hlarge]
    exact ⟨l, rfl, hl, fun x => by simp⟩

/-! ## Taking a block -/

/-- A place in `block` for an allocation: inside it, aligned, and with remainders that are empty or can hold
    a header. -/
structure Fits (block : FreeBlock) (size align allocStart : Nat) : Prop where
  aligned : align ∣ allocStart
  lower : block.start ≤ allocStart
  upper : allocStart + size ≤ block.stop
  front : allocStart = block.start ∨ block.start + FREE_BLOCK_SIZE ≤ allocStart
  back : allocStart + size = block.stop ∨ allocStart + size + FREE_BLOCK_SIZE ≤ block.stop

theorem allocFromBlock_spec {allocStart allocEnd : Nat} (hb : Shaped block) (hk : k < 64) (hal : align = 2 ^ k)
    (h : allocFromBlock block size align = some (some (allocStart, allocEnd))) :
    allocEnd = allocStart + size ∧ Fits block size align allocStart := by
  subst hal
  unfold allocFromBlock at h
  rw [alignUp_eq (le_of_lt hk), hb.endAddr_eq] at h
  by_cases hroom : block.start + 2 ^ k < 2 ^ 64
  · have hpos := Nat.two_pow_pos k
    have hle := le_padTo block.start hpos
    have hdvd := padTo_dvd block.start (2 ^ k)
    simp only [if_pos hroom, Option.bind_eq_bind, Option.bind_some] at h
    generalize padTo block.start (2 ^ k) = a at h hle hdvd
    iterate 4
      split at h
      · cases h
    rename_i _ hlong hfront hback
    obtain ⟨rfl, rfl⟩ := h
    exact ⟨rfl, hdvd, hle, not_lt.mp hlong, by omega, by omega⟩
  · rw [if_neg hroom] at h
    cases h

/-- Two free lists, the first one's cells ending before the second one's begin with a gap in between. -/
theorem FreeList.append {m : List FreeBlock} (hl : FreeList l) (hm : FreeList m)
    (hgap : ∀ b ∈ l, ∀ x, Covered m x → b.stop < x) : FreeList (l ++ m) := by
  induction l with
  | nil => exact hm
  | cons b l ih =>
    refine cons (hl.shaped b (mem_cons_self ..))
      (ih hl.tail (fun c hc => hgap c (mem_cons_of_mem b hc))) (fun x hx => ?_)
    rcases covered_append.mp hx with hx | hx
    · exact hl.canonical.lt_of_covered_tail hx
    · exact hgap b (mem_cons_self ..) x hx

/-- What is left on one side of an allocation is nothing, or a block of its own. -/
theorem remainder_spec {m n : Nat} (h8 : 8 ∣ m) (hn : n = 0 ∨ FREE_BLOCK_SIZE ≤ n) (hlt : m + n < 2 ^ 64) :
    FreeList (if FREE_BLOCK_SIZE ≤ n then [⟨m, n⟩] else []) ∧
      ∀ x, Covered (if FREE_BLOCK_SIZE ≤ n then [⟨m, n⟩] else []) x ↔ m ≤ x ∧ x < m + n := by
  rcases hn with rfl | hn
  · rw [if_neg (by decide)]
    exact ⟨FreeList.nil, fun x => iff_of_false covered_nil (by omega)⟩
  · rw [if_pos hn]
    refine ⟨FreeList.cons ⟨h8, hn, hlt⟩ FreeList.nil (fun x hx => absurd hx covered_nil), fun x => ?_⟩
    simp only [covered_cons, covered_nil, or_false, mem_iff, stop]

/-- **Splitting.** The remainders of a block form a free list, and with the allocation they make up the
    block. -/
theorem remainders_spec (hb : Shaped block)
    (h8 : 8 ∣ align) (hsize : 8 ∣ size) (hpos : 0 < size) (hf : Fits block size align a) :
    FreeList (remainders block block.stop a (a + size)) ∧
      (∀ x, Covered (remainders block block.stop a (a + size)) x ∨ x ∈ (⟨a, size⟩ : Segment) ↔ x ∈ block) ∧
      ∀ x ∈ (⟨a, size⟩ : Segment), ¬ Covered (remainders block block.stop a (a + size)) x := by
  obtain ⟨hal, hlower, hupper, hfront, hback⟩ := hf
  have hstop := hb.stop_lt
  have ha8 : 8 ∣ a + size := dvd_add (dvd_trans h8 hal) hsize
  obtain ⟨hF, hcovF⟩ := remainder_spec (n := a - block.start) hb.aligned (by omega) (by omega)
  obtain ⟨hB, hcovB⟩ := remainder_spec (n := block.stop - (a + size)) ha8 (by omega) (by omega)
  simp only [remainders, covered_append, hcovF, hcovB, mem_iff]
  refine ⟨hF.append hB (fun b hb x hx => ?_), fun x => ?_, fun x hx => ?_⟩
  · -- the block in front ends where the allocation starts
    have hx := (hcovB x).mp hx
    split at hb
    · rw [mem_singleton.mp hb]
      simp only [stop]
      omega
    · cases hb
  · simp only [stop] at *
    omega
  · simp only [stop] at *
    omega

/-- **First fit.** The place found is aligned; it is cut out of the free list, and nothing else is. -/
theorem firstFit_spec {e : Nat} {l' : List FreeBlock}
    (hl : FreeList l) (hk3 : 3 ≤ k) (hk : k < 64) (hal : align = 2 ^ k) (hsize : 8 ∣ size) (hpos : 0 < size)
    (h : firstFit size align l = some (some (a, e, l'))) :
    e = a + size ∧ align ∣ a ∧ FreeList l' ∧ (∀ x ∈ (⟨a, size⟩ : Segment), ¬ Covered l' x) ∧
      ∀ x, Covered l' x ∨ x ∈ (⟨a, size⟩ : Segment) ↔ Covered l x := by
  induction l generalizing l' with
  | nil => exact absurd h (by simp [firstFit])
  | cons block rest ih =>
    have hb := hl.shaped block (mem_cons_self ..)
    have h8 : 8 ∣ align := hal ▸ pow_dvd_pow 2 hk3
    obtain ⟨r, hr, h⟩ := Option.bind_eq_some_iff.mp h
    cases r with
    | none =>
      -- not here: the block stays in front of what the search leaves of the rest
      obtain ⟨found, hfound, h⟩ := Option.bind_eq_some_iff.mp h
      cases found with
      | none => exact absurd h (by simp)
      | some r =>
        obtain ⟨rfl, rfl, rfl⟩ := h
        obtain ⟨he, hd, hfl, hout, hcov⟩ := ih hl.tail hfound
        have hbehind : ∀ x, Covered rest x → block.stop < x := fun x hx => hl.canonical.lt_of_covered_tail hx
        refine ⟨he, hd, FreeList.cons hb hfl (fun x hx => hbehind x ((hcov x).mp (.inl hx))),
          fun x hx hc => ?_, fun x => ?_⟩
        · rcases covered_cons.mp hc with hxb | hc
          · have hlt := hbehind x ((hcov x).mp (.inr hx))
            exact absurd hxb.2 (not_lt.mpr (le_of_lt hlt))
          · exact hout x hx hc
        · rw [covered_cons, covered_cons, ← hcov x, or_assoc]
    | some r =>
      obtain ⟨a', e'⟩ := r
      simp only [hb.endAddr_eq] at h
      obtain ⟨rfl, rfl, rfl⟩ := h
      obtain ⟨rfl, hfits⟩ := allocFromBlock_spec hb hk hal hr
      obtain ⟨hrem, hcov, hout⟩ := remainders_spec hb h8 hsize hpos hfits
      have hbehind : ∀ x, Covered rest x → block.stop < x := fun x hx => hl.canonical.lt_of_covered_tail hx
      refine ⟨rfl, hfits.aligned, hrem.append hl.tail (fun c hc x hx => ?_), fun x hx hc => ?_, fun x => ?_⟩
      · -- a remainder ends within the block
        have hpos := (hrem.shaped c hc).size_pos
        have hlast : c.stop - 1 ∈ block := by
          refine (hcov _).mp (.inl ⟨c, hc, ?_, ?_⟩) <;> (simp only [stop]; omega)
        have hlt := hbehind x hx
        have hlast' := hlast.2
        omega
      · rcases covered_append.mp hc with hc | hc
        · exact hout x hx hc
        · have hxb := (hcov x).mp (.inr hx)
          exact absurd hxb.2 (not_lt.mpr (le_of_lt (hbehind x hc)))
      · rw [covered_append, covered_cons, ← hcov x]
        tauto

end OxideOs.Heap

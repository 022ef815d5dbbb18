import OxideOs.Mm.Heap.FreeList

/-!
# `Mm.Heap.Invariant` — free blocks and held blocks tile the regions

`Inv` ties the free list to the blocks that are out (`held`) and to the regions handed over so far. Nothing in
it remembers the order of events, and a canonical list is determined by its cells, so the free list that is
left when every block has come back is the one the regions alone would give (`Inv.freeListOf_eq`).
-/

namespace OxideOs.Heap

open List Option Segment LinkedListAllocator

/-! ## The invariant -/

/-- Memory that can be handed over: not at address zero, with an end that is an address. -/
def ValidRegion (r : Segment) : Prop := 0 < r.start ∧ r.stop < 2 ^ 64

instance (r : Segment) : Decidable (ValidRegion r) := inferInstanceAs (Decidable (_ ∧ _))

/-- Free blocks and held blocks tile the usable parts of the regions. -/
structure Inv (blocks held regions : List Segment) : Prop where
  free : FreeList blocks
  heldShaped : ∀ b ∈ held, Shaped b
  apart : (blocks ++ held).Pairwise Apart
  tiles : ∀ x, Covered (blocks ++ held) x ↔ Covered (regions.flatMap usable) x
  regionsApart : regions.Pairwise Apart
  regionStart : ∀ r ∈ regions, r.start + 8 < 2 ^ 64
  regionStop : ∀ r ∈ regions, r.stop < 2 ^ 64

namespace Inv

variable {blocks blocks' held held' regions : List Segment}

theorem nil : Inv [] [] [] :=
  { free := FreeList.nil
    heldShaped := nofun
    apart := Pairwise.nil
    tiles := fun _ => Iff.rfl
    regionsApart := Pairwise.nil
    regionStart := nofun
    regionStop := nofun }

section

variable (h : Inv blocks held regions)
include h

/-- The order in which held blocks are listed does not matter. -/
theorem perm (hp : held.Perm held') : Inv blocks held' regions :=
  { h with
    heldShaped := fun b hb => h.heldShaped b (hp.mem_iff.mpr hb)
    apart := (hp.append_left blocks).pairwise h.apart (fun hab => hab.symm)
    tiles := fun x => (covered_perm (hp.append_left blocks)).symm.trans (h.tiles x) }

/-- What is covered lies inside the regions. -/
theorem covered_region {x : Nat} (hx : Covered (blocks ++ held) x) : Covered regions x := by
  obtain ⟨s, hs, hxs⟩ := (h.tiles x).mp hx
  obtain ⟨r, hr, hsr⟩ := mem_flatMap.mp hs
  exact ⟨r, hr, covered_usable ⟨s, hsr, hxs⟩⟩

/-- **Growing** by a region disjoint from the ones before. -/
theorem grow {r : Segment} (hv : ValidRegion r)
    (hap : ∀ r' ∈ regions, Apart r r') (ha : addFreeRegion blocks r.start r.size = some blocks') :
    Inv blocks' held (r :: regions) := by
  have hstart : r.start + 8 < 2 ^ 64 := by
    by_contra hc
    rw [addFreeRegion_eq, if_neg hc] at ha
    cases ha
  have hout : ∀ x ∈ r, ¬ Covered (blocks ++ held) x := fun x hx hc => apart_all_iff.mp hap x hx (h.covered_region hc)
  obtain ⟨l', hl', hfl, hcov⟩ := addFreeRegion_spec h.free hstart hv.2
    (fun x hx hc => hout x hx (covered_append.mpr (.inl hc)))
  obtain rfl : l' = blocks' := some.inj (hl'.symm.trans ha)
  obtain ⟨_, hheld, hcross⟩ := pairwise_append.mp h.apart
  refine ⟨hfl, h.heldShaped, pairwise_append.mpr ⟨hfl.canonical.pairwise_apart, hheld, ?_⟩, fun x => ?_,
    pairwise_cons.mpr ⟨hap, h.regionsApart⟩, ?_, ?_⟩
  · intro b hb c hc
    refine apart_iff.mpr fun x hxb hxc => ?_
    rcases (hcov x).mp ⟨b, hb, hxb⟩ with ⟨b', hb', hxb'⟩ | hx
    · exact apart_iff.mp (hcross b' hb' c hc) x hxb' hxc
    · exact hout x (covered_usable hx) (covered_append.mpr (.inr ⟨c, hc, hxc⟩))
  · have ht := h.tiles x
    rw [covered_append] at ht ⊢
    rw [flatMap_cons, covered_append, hcov x]
    tauto
  · exact forall_mem_cons.mpr ⟨hstart, h.regionStart⟩
  · exact forall_mem_cons.mpr ⟨hv.2, h.regionStop⟩

/-- **Taking** the place that first fit finds. -/
theorem take {layout : Layout} {size align a e : Nat}
    (hsz : sizeAlign layout = some (size, align)) (hf : firstFit size align blocks = some (some (a, e, blocks'))) :
    e = a + size ∧ align ∣ a ∧ Inv blocks' (⟨a, size⟩ :: held) regions := by
  obtain ⟨_, hlarge, hsize, _, k, hk3, hk, hal⟩ := sizeAlign_spec hsz
  have hpos : 0 < size := lt_of_lt_of_le (by decide) hlarge
  obtain ⟨he, hd, hfl, hout, hcov⟩ := firstFit_spec h.free hk3 hk hal hsize hpos hf
  have hmem : ∀ x ∈ (⟨a, size⟩ : Segment), Covered blocks x := fun x hx => (hcov x).mp (.inr hx)
  have hshape : Shaped ⟨a, size⟩ := by
    refine ⟨dvd_trans ?_ hd, hlarge, ?_⟩
    · rw [hal]
      exact pow_dvd_pow 2 hk3
    -- its last cell lies in a block that ends at an address
    obtain ⟨b, hb, _, hlt⟩ := hmem (a + size - 1) (mem_mk.mpr ⟨by omega, by omega⟩)
    have hbl := (h.free.shaped b hb).stop_lt
    simp only [stop] at hlt hbl ⊢
    omega
  -- the new blocks and the allocation take the place of the old blocks
  have hnew : (blocks' ++ [(⟨a, size⟩ : Segment)]).Pairwise Apart := by
    refine pairwise_append.mpr ⟨hfl.canonical.pairwise_apart, pairwise_singleton _ _, fun b hb c hc => ?_⟩
    obtain rfl := mem_singleton.mp hc
    exact apart_iff.mpr fun x hxb hxc => hout x hxc ⟨b, hb, hxb⟩
  have hcov' : ∀ x, Covered (blocks' ++ [(⟨a, size⟩ : Segment)]) x ↔ Covered blocks x := by
    intro x
    rw [← hcov x, covered_append]
    simp
  have happ : blocks' ++ (⟨a, size⟩ :: held) = blocks' ++ [⟨a, size⟩] ++ held := by
    rw [append_assoc, singleton_append]
  refine ⟨he, hd, { h with free := hfl, heldShaped := ?_, apart := ?_, tiles := fun x => ?_ }⟩
  · exact forall_mem_cons.mpr ⟨hshape, h.heldShaped⟩
  · rw [happ]
    exact pairwise_replace h.apart hnew (fun x => (hcov' x).mp)
  · rw [happ, covered_append, hcov' x, ← covered_append]
    exact h.tiles x

end

/-- **Giving back** a held block always succeeds. -/
theorem release {b : Segment} (h : Inv blocks (b :: held) regions) :
    ∃ blocks', addFreeRegion blocks b.start b.size = some blocks' ∧ Inv blocks' held regions := by
  have hb := h.heldShaped b (mem_cons_self ..)
  obtain ⟨_, -, hcross⟩ := pairwise_append.mp h.apart
  have hstart : b.start + 8 < 2 ^ 64 := by
    have hl := hb.large
    have hs := hb.stop_lt
    simp only [stop, FREE_BLOCK_SIZE] at hl hs
    omega
  obtain ⟨l', hl', hfl, hcov⟩ := addFreeRegion_spec h.free hstart hb.stop_lt (fun x hx hc => by
    obtain ⟨c, hc, hxc⟩ := hc
    exact apart_iff.mp (hcross c hc b (mem_cons_self ..)) x hxc hx)
  rw [hb.usable_eq] at hcov
  have happ : blocks ++ b :: held = blocks ++ [b] ++ held := by
    rw [append_assoc, singleton_append]
  have hcov' : ∀ x, Covered l' x ↔ Covered (blocks ++ [b]) x := fun x => by rw [hcov x, covered_append]
  refine ⟨l', hl', { h with free := hfl, heldShaped := ?_, apart := ?_, tiles := fun x => ?_ }⟩
  · exact fun c hc => h.heldShaped c (mem_cons_of_mem b hc)
  · have hap := h.apart
    rw [happ] at hap
    exact pairwise_replace hap hfl.canonical.pairwise_apart (fun x => (hcov' x).mp)
  · rw [covered_append, hcov' x, ← covered_append, ← happ]
    exact h.tiles x

end Inv

/-! ## The free list of the regions alone -/

/-- The free list after the regions (the latest first) were handed over, with no allocation in between. -/
def freeListOf : List Segment → Option (List FreeBlock)
  | [] => some []
  | r :: older => (freeListOf older).bind (fun l => addFreeRegion l r.start r.size)

variable {h h' : LinkedListAllocator} {layout : Layout} {p : Option Nat}

theorem freeListOf_spec {regions : List Segment} (hap : regions.Pairwise Apart)
    (hstart : ∀ r ∈ regions, r.start + 8 < 2 ^ 64) (hstop : ∀ r ∈ regions, r.stop < 2 ^ 64) :
    ∃ l, freeListOf regions = some l ∧ FreeList l ∧
      ∀ x, Covered l x ↔ Covered (regions.flatMap usable) x := by
  induction regions with
  | nil => exact ⟨[], rfl, FreeList.nil, fun _ => Iff.rfl⟩
  | cons r older ih =>
    obtain ⟨hr, hold⟩ := pairwise_cons.mp hap
    obtain ⟨l, hl, hfl, hcov⟩ := ih hold (fun r hr => hstart r (mem_cons_of_mem _ hr))
      (fun r hr => hstop r (mem_cons_of_mem _ hr))
    have hout : ∀ x ∈ r, ¬ Covered l x := by
      intro x hx hc
      obtain ⟨s, hs, hxs⟩ := (hcov x).mp hc
      obtain ⟨r', hr', hsr⟩ := mem_flatMap.mp hs
      exact apart_iff.mp (hr r' hr') x hx (covered_usable ⟨s, hsr, hxs⟩)
    obtain ⟨l', hl', hfl', hcov'⟩ := addFreeRegion_spec hfl (hstart r (mem_cons_self ..))
      (hstop r (mem_cons_self ..)) hout
    refine ⟨l', by simp [freeListOf, hl, hl'], hfl', fun x => ?_⟩
    rw [hcov' x, hcov x, flatMap_cons, covered_append]
    exact or_comm

/-- **With nothing held, the free list is that of the regions.** -/
theorem Inv.freeListOf_eq {blocks regions : List Segment} (h : Inv blocks [] regions) :
    freeListOf regions = some blocks := by
  obtain ⟨l, hl, hfl, hcov⟩ := freeListOf_spec h.regionsApart h.regionStart h.regionStop
  have heq : l = blocks := by
    refine hfl.canonical.ext h.free.canonical fun x => ?_
    rw [hcov x, ← h.tiles x, append_nil]
  rw [hl, heq]

/-! ## The operations -/

/-- The region `allocate` adds to the heap, if the search fails, a callback is set and it has one. -/
def grownRegion (h : LinkedListAllocator) (growFn : GrowCallbackFn) (layout : Layout) : Option Segment :=
  match sizeAlign layout with
  | none => none
  | some (size, align) =>
    match firstFit size align h.blocks with
    | some none => if h.growCallback then growFn (growMin size) else none
    | _ => none

/-- The bytes the heap sets aside for a layout. -/
def reserved (layout : Layout) : Nat := ((sizeAlign layout).map Prod.fst).getD 0

/-- How `allocate` can end: with a null pointer, or with an aligned block that is now held. -/
def Allocated (layout : Layout) (held regions : List Segment) : Option Nat → LinkedListAllocator → Prop
  | none, h' => Inv h'.blocks held regions
  | some ptr, h' => layout.align ∣ ptr ∧ layout.size ≤ reserved layout ∧
      Inv h'.blocks (⟨ptr, reserved layout⟩ :: held) regions

theorem take_spec {held regions blocks : List Segment} {size align a e : Nat} (hi : Inv h.blocks held regions)
    (hsz : sizeAlign layout = some (size, align)) (hf : firstFit size align h.blocks = some (some (a, e, blocks)))
    (ht : h.take a e blocks = some (p, h')) : Allocated layout held regions p h' := by
  obtain ⟨_, hd, hinv⟩ := hi.take hsz hf
  obtain ⟨used, _, hr⟩ := map_eq_some_iff.mp ht
  cases hr
  have hres : reserved layout = size := by simp [reserved, hsz]
  obtain ⟨hsize, _, _, halign, _⟩ := sizeAlign_spec hsz
  unfold Allocated
  rw [hres]
  exact ⟨dvd_trans halign hd, hsize, hinv⟩

/-- **What `allocate` does**, when the region it may add is valid and disjoint from those before. -/
theorem allocate_spec {held regions : List Segment} {growFn : GrowCallbackFn} (hi : Inv h.blocks held regions)
    (hgrow : ∀ r ∈ grownRegion h growFn layout, ValidRegion r ∧ ∀ r' ∈ regions, Apart r r')
    (ha : h.allocate growFn layout = some (p, h')) :
    Allocated layout held ((grownRegion h growFn layout).toList ++ regions) p h' := by
  obtain ⟨⟨size, align⟩, hsz, ha⟩ := bind_eq_some_iff.mp ha
  obtain ⟨found, hf, ha⟩ := bind_eq_some_iff.mp ha
  cases found with
  | some r =>
    have hno : grownRegion h growFn layout = none := by simp [grownRegion, hsz, hf]
    rw [hno]
    exact take_spec hi hsz hf ha
  | none =>
    by_cases hcb : h.growCallback
    · have hg : grownRegion h growFn layout = growFn (growMin size) := by
        simp [grownRegion, hsz, hf, if_pos hcb]
      rw [hg] at hgrow ⊢
      cases hreg : growFn (growMin size) with
      | none =>
        simp only [hcb, hreg] at ha
        obtain ⟨rfl, rfl⟩ := ha
        exact hi
      | some r =>
        rw [hreg] at hgrow
        obtain ⟨hv, hap⟩ := hgrow r rfl
        simp only [hcb, hreg] at ha
        -- the heap with the region in it, then the second search
        obtain ⟨_, hh1, ha⟩ := bind_eq_some_iff.mp ha
        obtain ⟨found, hf', ha⟩ := bind_eq_some_iff.mp ha
        obtain ⟨blocks, hb, hh1⟩ := bind_eq_some_iff.mp hh1
        obtain ⟨total, _, hh1⟩ := bind_eq_some_iff.mp hh1
        cases hh1
        have hi1 := hi.grow hv hap hb
        cases found with
        | none =>
          obtain ⟨rfl, rfl⟩ := ha
          exact hi1
        | some r => exact take_spec hi1 hsz hf' ha
    · have hno : grownRegion h growFn layout = none := by
        simp [grownRegion, hsz, hf, if_neg hcb]
      rw [hno]
      simp only [if_neg hcb] at ha
      obtain ⟨rfl, rfl⟩ := ha
      exact hi

/-- **What `deallocate` does** with a held block: it never fails, and the block is free again. -/
theorem deallocate_spec {held regions : List Segment} {ptr : Nat} {sz : Nat × Nat} (hsz : sizeAlign layout = some sz)
    (hi : Inv h.blocks (⟨ptr, reserved layout⟩ :: held) regions) :
    ∃ h', h.deallocate ptr layout = some h' ∧ Inv h'.blocks held regions := by
  obtain ⟨blocks, hb, hinv⟩ := hi.release
  have hres : reserved layout = sz.1 := by simp [reserved, hsz]
  simp only [hres] at hb
  refine ⟨{ h with blocks := blocks, usedSize := h.usedSize - sz.1 }, ?_, hinv⟩
  simp [deallocate, hsz, hb]

end OxideOs.Heap

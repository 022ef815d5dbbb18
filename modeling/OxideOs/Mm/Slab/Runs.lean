import OxideOs.Lib.Run
import OxideOs.Mm.Slab.Objects

/-!
# `Mm.Slab.Runs` — the slab and the heap behind it, over whole runs

`dealloc` tells the two allocators' pointers apart by the static heap range alone. A pointer that the heap
served from a region it grew by lies outside that range: once the slab is on, it is freed into the slab, as an
object of its class. When the class is larger than what is left of the heap block from the pointer on, the
object reaches into the next block, and is handed out over live memory (`straddling_object`). In runs where
every such pointer has room for an object of its class, live allocations stay disjoint
(`reachable_live_disjoint`).

The records `regions`, `pages` and `held` follow the memory handed over to the heap, the pages cut up by the
slab, and the heap blocks that were served and not freed to the heap. A block that was freed into the slab
stays held: its memory has gone over to the slab.
-/

namespace OxideOs.Slab

open List Option Heap Heap.LinkedListAllocator Segment KernelHeap SlabAllocator

/-- Which allocator served a request. -/
inductive Origin where
  | heap
  | slab
  deriving DecidableEq, Repr

/-- A live allocation. -/
structure Allocation where
  ptr : Nat
  layout : Layout
  origin : Origin
  deriving DecidableEq, Repr

namespace Allocation

/-- The bytes the caller may use. -/
def range (a : Allocation) : Segment := ⟨a.ptr, a.layout.size⟩

/-- The memory behind an allocation: the heap block or the slab object it lies in. -/
def extent (hardening : Bool) (a : Allocation) : Segment :=
  match a.origin with
  | .heap => blockOf hardening a.ptr a.layout
  | .slab => ⟨a.ptr, objectSize a.layout⟩

end Allocation

/-- The allocator and the records of a run. -/
structure Sys where
  alloc : SlabAllocator
  live : List Allocation
  regions : List Segment
  pages : List Segment
  held : List Segment

/-- A step of a run. The running CPU and the page allocator's answers are part of the step. -/
inductive Action where
  | setGrowCallback
  | slabInit
  | alloc (cpu page : Option Nat) (growFn : GrowCallbackFn) (layout : Layout)
  | dealloc (cpu : Option Nat) (a : Allocation)

/-- The page a request makes the slab cut up. -/
def refilled (s : SlabAllocator) (cpu page : Option Nat) (layout : Layout) : Option Segment :=
  (refillPage s.caches cpu page layout).map (fun p => ⟨p, PAGE_SIZE⟩)

/-- One step. Callers free live allocations only, with the layout they were asked for with. -/
def step (s : Sys) : Action → Option Sys
  | .setGrowCallback => some { s with alloc := s.alloc.setGrowCallback }
  | .slabInit => some { s with alloc := s.alloc.slabInit }
  | .alloc cpu page growFn layout =>
    (s.alloc.alloc cpu page growFn layout).map (fun r =>
      if (s.alloc.slabPath cpu page layout).isSome then
        { s with
          alloc := r.2
          live := (r.1.map (fun ptr => ⟨ptr, layout, .slab⟩)).toList ++ s.live
          pages := (refilled s.alloc cpu page layout).toList ++ s.pages }
      else
        { s with
          alloc := r.2
          live := (r.1.map (fun ptr => ⟨ptr, layout, .heap⟩)).toList ++ s.live
          regions := (s.alloc.fallback.grown growFn layout).toList ++ s.regions
          held := (r.1.map (fun ptr => blockOf s.alloc.fallback.hardening ptr layout)).toList ++ s.held })
  | .dealloc cpu a =>
    if a ∈ s.live then
      (s.alloc.dealloc cpu a.ptr a.layout).map (fun al =>
        { s with
          alloc := al
          live := s.live.erase a
          held := if s.alloc.toSlab a.ptr a.layout then s.held
            else s.held.erase (blockOf s.alloc.fallback.hardening a.ptr a.layout) })
    else none

/-- Right after `init` and `set_heap_range` over the static heap `r`, with or without hardening, whatever
    memory holds. -/
def Start (s : Sys) : Prop :=
  ∃ r hardening headers, ValidRegion r ∧
    ((SlabAllocator.new hardening headers).init r.start r.size).bind
      (fun al => al.setHeapRange r.start r.size) = some s.alloc ∧
    s.live = [] ∧ s.regions = [r] ∧ s.pages = [] ∧ s.held = []

/-- Pages and regions that the page allocator hands over are valid memory that was not handed over before. -/
def FreshMemory (s : Sys) : Action → Prop
  | .alloc cpu page growFn layout =>
    if (s.alloc.slabPath cpu page layout).isSome then
      ∀ p ∈ refilled s.alloc cpu page layout, ValidRegion p ∧ ∀ r ∈ s.regions ++ s.pages, Apart p r
    else
      ∀ r ∈ s.alloc.fallback.grown growFn layout, ValidRegion r ∧ ∀ r' ∈ s.regions ++ s.pages, Apart r r'
  | _ => True

/-- A pointer of the heap that is freed into the slab has room for an object of its class. -/
def RoomForObject (s : Sys) : Action → Prop
  | .dealloc cpu a => a.origin = .heap → s.alloc.toSlab a.ptr a.layout = true → cpu.getD 0 < MAX_CPUS →
      a.ptr + objectSize a.layout ≤ (blockOf s.alloc.fallback.hardening a.ptr a.layout).stop
  | _ => True

instance (s : Sys) (a : Action) : Decidable (FreshMemory s a) := by
  cases a <;> unfold FreshMemory <;> infer_instance

instance (s : Sys) (a : Action) : Decidable (RoomForObject s a) := by
  cases a <;> unfold RoomForObject <;> infer_instance

/-! ## The invariant -/

/-- The memory behind live allocations. -/
def liveExtents (s : Sys) : List Segment := s.live.map (Allocation.extent s.alloc.fallback.hardening)

/-- The invariant of a run. -/
structure Inv (s : Sys) : Prop where
  heap : Heap.Inv s.alloc.fallback.inner.blocks s.held s.regions
  heapStart : 0 < s.alloc.heapStart
  static : ⟨s.alloc.heapStart, s.alloc.heapEnd - s.alloc.heapStart⟩ ∈ s.regions
  pages : ∀ p ∈ s.pages, ∀ r ∈ s.regions, Apart p r
  served : ∀ a ∈ s.live, a.origin = .heap → s.alloc.fallback.Served a.ptr a.layout ∧
    blockOf s.alloc.fallback.hardening a.ptr a.layout ∈ s.held
  slab : ∀ a ∈ s.live, a.origin = .slab → s.alloc.toSlab a.ptr a.layout = true
  nodes : ∀ b ∈ freeObjects s.alloc.caches, s.alloc.isSlabPointer b.start = true
  /-- Memory behind live allocations, and free objects, are pairwise disjoint. -/
  apart : (liveExtents s ++ freeObjects s.alloc.caches).Pairwise Apart
  /-- They lie in pages of the slab and in blocks the heap has given away. -/
  inside : ∀ x, Covered (liveExtents s ++ freeObjects s.alloc.caches) x → Covered (s.pages ++ s.held) x

namespace Inv

variable {s : Sys}

variable {p : Segment} {a : Allocation} {cpu : Option Nat} {layout : Layout} {ptr : Nat}
   {grown : Option Segment} {fb : KernelHeap}

/-- Memory that was not handed over before holds no part of what exists. -/
theorem fresh (h : Inv s) (hp : ∀ r ∈ s.regions ++ s.pages, Apart p r) :
    ∀ x ∈ p, ¬ Covered (liveExtents s ++ freeObjects s.alloc.caches) x := by
  intro x hx hc
  rcases covered_append.mp (h.inside x hc) with ⟨q, hq, hxq⟩ | hheld
  · exact apart_iff.mp (hp q (mem_append_right _ hq)) x hx hxq
  · obtain ⟨r, hr, hxr⟩ := h.heap.covered_region (covered_append.mpr (.inr hheld))
    exact apart_iff.mp (hp r (mem_append_left _ hr)) x hx hxr

/-- A cell outside the static heap is a slab pointer. -/
theorem isSlabPointer_of_apart (h : Inv s) (hp : ∀ r ∈ s.regions ++ s.pages, Apart p r) {x : Nat}
    (hx : x ∈ p) : s.alloc.isSlabPointer x = true := by
  have hout := apart_iff.mp (hp _ (mem_append_left _ h.static)) x hx
  have hpos := h.heapStart
  unfold isSlabPointer
  rw [if_neg (ne_of_gt hpos), decide_eq_true_iff]
  by_contra hc
  exact hout (mem_mk.mpr ⟨by omega, by omega⟩)

/-- Distinct live allocations lie in disjoint memory. -/
theorem apart_erase (h : Inv s) {b : Allocation} (ha : a ∈ s.live) (hb : b ∈ s.live.erase a) :
    Apart (a.extent s.alloc.fallback.hardening) (b.extent s.alloc.fallback.hardening) := by
  have hlive := (pairwise_append.mp h.apart).1
  have hperm := (perm_cons_erase ha).map (Allocation.extent s.alloc.fallback.hardening)
  have hpair := hperm.pairwise hlive (fun hab => hab.symm)
  exact (pairwise_cons.mp hpair).1 _ (mem_map_of_mem hb)

/-- The memory that exists, with one live allocation in front. -/
theorem perm_live (s : Sys) (ha : a ∈ s.live) : (liveExtents s ++ freeObjects s.alloc.caches).Perm
      ([a.extent s.alloc.fallback.hardening] ++
        ((s.live.erase a).map (Allocation.extent s.alloc.fallback.hardening) ++ freeObjects s.alloc.caches)) := by
  have hp := (perm_cons_erase ha).map (Allocation.extent s.alloc.fallback.hardening)
  rw [singleton_append]
  exact hp.append_right _

/-! ## The steps -/

/-- **The slab serves a request.** -/
theorem allocSlab (h : Inv s) {page : Option Nat} {caches : Caches}
    (hp : s.alloc.slabPath cpu page layout = some (ptr, caches))
    (hfresh : ∀ p ∈ refilled s.alloc cpu page layout, ValidRegion p ∧ ∀ r ∈ s.regions ++ s.pages, Apart p r) :
    Inv { s with
      alloc := { s.alloc with caches := caches }
      live := ⟨ptr, layout, .slab⟩ :: s.live
      pages := (refilled s.alloc cpu page layout).toList ++ s.pages } := by
  unfold slabPath at hp
  by_cases hsmall : classSizeOf layout ≤ 2048 ∧ s.alloc.slabReady = true
  · rw [if_pos hsmall] at hp
    obtain ⟨new, hperm, hapart, hpos, hin, -⟩ := slabAllocFast_spec hp
    -- the new objects lie in the fresh page
    have hpage : ∀ x, Covered new x → ∃ p ∈ refilled s.alloc cpu page layout, x ∈ p := by
      intro x hx
      obtain ⟨p, hp, hxp⟩ := hin x hx
      refine ⟨⟨p, PAGE_SIZE⟩, ?_, hxp⟩
      rw [refilled, hp]
      rfl
    have hptr : ∀ b ∈ new ++ freeObjects s.alloc.caches, s.alloc.isSlabPointer b.start = true := by
      refine forall_mem_append.mpr ⟨fun b hb => ?_, h.nodes⟩
      obtain ⟨p, hp, hxp⟩ := hpage b.start ⟨b, hb, start_mem (hpos b hb)⟩
      exact h.isSlabPointer_of_apart (hfresh p hp).2 hxp
    -- the object handed out changes sides, the rest of the page is new
    have hall : (⟨ptr, objectSize layout⟩ :: liveExtents s ++ freeObjects caches).Perm
        (new ++ (liveExtents s ++ freeObjects s.alloc.caches)) := by
      refine perm_middle.symm.trans ((hperm.append_left _).trans ?_)
      rw [← append_assoc, ← append_assoc]
      exact perm_append_comm.append_right _
    have hsum : (new ++ (liveExtents s ++ freeObjects s.alloc.caches)).Pairwise Apart := by
      refine pairwise_append.mpr ⟨hapart, h.apart, fun b hb c hc => ?_⟩
      refine apart_iff.mpr fun x hxb hxc => ?_
      obtain ⟨p, hp, hxp⟩ := hpage x ⟨b, hb, hxb⟩
      exact h.fresh (hfresh p hp).2 x hxp ⟨c, hc, hxc⟩
    refine
      { h with
        pages := ?_
        served := ?_
        slab := ?_
        nodes := ?_
        apart := hall.symm.pairwise hsum (fun hab => hab.symm)
        inside := ?_ }
    · refine forall_mem_append.mpr ⟨fun p hp r hr => ?_, h.pages⟩
      exact (hfresh p (mem_toList.mp hp)).2 r (mem_append_left _ hr)
    · exact forall_mem_cons.mpr ⟨nofun, h.served⟩
    · refine forall_mem_cons.mpr ⟨fun _ => ?_, h.slab⟩
      have hslab := hptr ⟨ptr, objectSize layout⟩ (hperm.mem_iff.mp (mem_cons_self ..))
      show (decide (classSizeOf layout ≤ 2048) && s.alloc.slabReady && s.alloc.isSlabPointer ptr) = true
      rw [hslab, hsmall.2, decide_eq_true hsmall.1]
      rfl
    · intro b hb
      exact hptr b (hperm.mem_iff.mp (mem_cons_of_mem _ hb))
    · intro x hx
      rcases covered_append.mp ((covered_perm hall).mp hx) with hnew | hold
      · obtain ⟨p, hp, hxp⟩ := hpage x hnew
        exact ⟨p, mem_append_left _ (mem_append_left _ (mem_toList.mpr hp)), hxp⟩
      · rw [append_assoc, covered_append]
        exact .inr (h.inside x hold)
  · rw [if_neg hsmall] at hp
    cases hp

/-- A block of the heap shares no cell with slab pages, nor with what lies in other held blocks. -/
theorem block_fresh {held regions : List Segment} {blocks : List FreeBlock} {b : Segment}
    (hh : Heap.Inv blocks (b :: held) regions) (hpages : ∀ p ∈ s.pages, ∀ r ∈ regions, Apart p r) :
    ∀ x ∈ b, ¬ Covered (s.pages ++ held) x := by
  intro x hx hc
  rcases covered_append.mp hc with ⟨p, hp, hxp⟩ | ⟨c, hc, hxc⟩
  · have hb : Covered (blocks ++ b :: held) x := covered_append.mpr (.inr (covered_cons.mpr (.inl hx)))
    obtain ⟨r, hr, hxr⟩ := hh.covered_region hb
    exact apart_iff.mp (hpages p hp r hr) x hxp hxr
  · have hpair := (pairwise_append.mp hh.apart).2.1
    exact apart_iff.mp ((pairwise_cons.mp hpair).1 c hc) x hx hxc

section

variable (h : Inv s)
include h

section

variable (hfresh : ∀ r ∈ grown, ValidRegion r ∧ ∀ r' ∈ s.regions ++ s.pages, Apart r r')
include hfresh

/-- The slab's pages are disjoint from a region the heap grows by. -/
theorem pages_grown : ∀ q ∈ s.pages, ∀ r ∈ grown.toList ++ s.regions, Apart q r := by
  refine fun q hq => forall_mem_append.mpr ⟨fun r hr => ?_, h.pages q hq⟩
  exact ((hfresh r (mem_toList.mp hr)).2 q (mem_append_right _ hq)).symm

/-- The heap cannot serve a request; it may have grown. -/
theorem refuse (hinv : Heap.Inv fb.inner.blocks s.held (grown.toList ++ s.regions))
    (hhard : fb.hardening = s.alloc.fallback.hardening) (hheaders : fb.headers = s.alloc.fallback.headers) :
    Inv { s with alloc := { s.alloc with fallback := fb }, regions := grown.toList ++ s.regions } := by
  refine
    { h with
      heap := hinv
      static := mem_append_right _ h.static
      pages := h.pages_grown hfresh
      served := ?_
      apart := ?_
      inside := ?_ }
  · intro a ha ho
    obtain ⟨hserved, hmem⟩ := h.served a ha ho
    exact ⟨hserved.congr hhard (fun _ => by rw [hheaders]), hhard ▸ hmem⟩
  · have hap := h.apart
    simp only [liveExtents, hhard] at hap ⊢
    exact hap
  · have hin := h.inside
    simp only [liveExtents, hhard] at hin ⊢
    exact hin

/-- The heap hands out a block: it becomes live, and is held. -/
theorem takeBlock (hinv : Heap.Inv fb.inner.blocks
      (blockOf s.alloc.fallback.hardening ptr layout :: s.held) (grown.toList ++ s.regions))
    (hhard : fb.hardening = s.alloc.fallback.hardening) (hserved : fb.Served ptr layout)
    (hheaders : ∀ base, base ≠ (blockOf s.alloc.fallback.hardening ptr layout).start →
      fb.headers base = s.alloc.fallback.headers base) :
    Inv { s with
      alloc := { s.alloc with fallback := fb }
      live := ⟨ptr, layout, .heap⟩ :: s.live
      regions := grown.toList ++ s.regions
      held := blockOf s.alloc.fallback.hardening ptr layout :: s.held } := by
  generalize hb : blockOf s.alloc.fallback.hardening ptr layout = b at hinv hheaders ⊢
  have hnew := block_fresh hinv (h.pages_grown hfresh)
  have hpair := (pairwise_cons.mp (pairwise_append.mp hinv.apart).2.1).1
  have hlive : liveExtents { s with
      alloc := { s.alloc with fallback := fb }
      live := ⟨ptr, layout, .heap⟩ :: s.live
      regions := grown.toList ++ s.regions
      held := b :: s.held } = b :: liveExtents s := by
    simp only [liveExtents, hhard, ← hb]
    rfl
  refine
    { h with
      heap := hinv
      static := mem_append_right _ h.static
      pages := h.pages_grown hfresh
      served := ?_
      slab := ?_
      apart := ?_
      inside := ?_ }
  · intro a ha ho
    rw [hhard]
    rcases mem_cons.mp ha with rfl | ha
    · exact ⟨hserved, hb ▸ mem_cons_self ..⟩
    obtain ⟨hold, hmem⟩ := h.served a ha ho
    refine ⟨hold.congr hhard (fun ht => hheaders _ (fun heq => ?_)), mem_cons_of_mem _ hmem⟩
    -- two held blocks do not start at one address
    have hstart : (blockOf s.alloc.fallback.hardening a.ptr a.layout).start = a.ptr - USER_OFFSET := by
      rw [← hhard, ht]
      rfl
    have hpos := (hinv.heldShaped b (mem_cons_self ..)).size_pos
    have hpos' := (h.heap.heldShaped _ hmem).size_pos
    refine apart_iff.mp (hpair _ hmem) b.start (start_mem hpos) ?_
    rw [← heq, ← hstart]
    exact start_mem hpos'
  · exact forall_mem_cons.mpr ⟨nofun, h.slab⟩
  · rw [hlive]
    refine pairwise_cons.mpr ⟨fun c hc => apart_iff.mpr fun x hxb hxc => ?_, h.apart⟩
    exact hnew x hxb (h.inside x ⟨c, hc, hxc⟩)
  · rw [hlive]
    intro x hx
    rw [covered_append]
    rcases covered_cons.mp hx with hxb | hx
    · exact .inr (covered_cons.mpr (.inl hxb))
    rcases covered_append.mp (h.inside x hx) with hp | hh
    · exact .inl hp
    · exact .inr (covered_cons.mpr (.inr hh))

end

/-- **A pointer goes back to the slab** that has room for an object of its class. -/
theorem deallocSlab (ha : a ∈ s.live)
    (hto : s.alloc.toSlab a.ptr a.layout = true) (hroom : RoomForObject s (.dealloc cpu a)) :
    Inv { s with
      alloc := { s.alloc with caches := slabDeallocFast s.alloc.caches cpu a.ptr a.layout }
      live := s.live.erase a } := by
  have hto' := hto
  simp only [toSlab, Bool.and_eq_true, decide_eq_true_iff] at hto'
  obtain ⟨⟨hsize, _⟩, hptr⟩ := hto'
  obtain ⟨hpush, hskip⟩ := slabDeallocFast_spec s.alloc.caches cpu a.ptr hsize
  generalize slabDeallocFast s.alloc.caches cpu a.ptr a.layout = caches at hpush hskip ⊢
  -- what the slab gains lies in the memory the allocation leaves
  obtain ⟨zs, hzs, hinside, hstart, hsub⟩ : ∃ zs : List Segment, zs.Pairwise Apart ∧
      (∀ x, Covered zs x → Covered [a.extent s.alloc.fallback.hardening] x) ∧
      (∀ b ∈ zs, s.alloc.isSlabPointer b.start = true) ∧
      (freeObjects caches).Subperm (zs ++ freeObjects s.alloc.caches) := by
    by_cases hcpu : cpu.getD 0 < MAX_CPUS
    · refine ⟨[⟨a.ptr, objectSize a.layout⟩], pairwise_singleton _ _, fun x hx => ?_, fun b hb => ?_, hpush hcpu⟩
      · simp only [covered_cons, covered_nil, or_false] at hx ⊢
        unfold Allocation.extent
        cases ho : a.origin with
        | slab => exact hx
        | heap =>
          have hlt := hroom ho hto hcpu
          refine ⟨le_trans (Nat.sub_le ..) hx.1, lt_of_lt_of_le hx.2 hlt⟩
      · obtain rfl := mem_singleton.mp hb
        exact hptr
    · refine ⟨[], Pairwise.nil, fun x hx => absurd hx covered_nil, by simp, ?_⟩
      rw [hskip hcpu, nil_append]
  generalize hrest : (s.live.erase a).map (Allocation.extent s.alloc.fallback.hardening) = rest
  have hlive := perm_live s ha
  rw [hrest] at hlive
  have hgain : (rest ++ freeObjects caches).Subperm (zs ++ (rest ++ freeObjects s.alloc.caches)) := by
    have hswap : (rest ++ (zs ++ freeObjects s.alloc.caches)).Perm (zs ++ (rest ++ freeObjects s.alloc.caches)) := by
      rw [← append_assoc, ← append_assoc]
      exact perm_append_comm.append_right _
    exact ((subperm_append_left rest).mpr hsub).trans hswap.subperm
  have hcells : ∀ x, Covered (rest ++ freeObjects caches) x →
      Covered (liveExtents s ++ freeObjects s.alloc.caches) x := by
    intro x hx
    refine (covered_perm hlive).mpr (covered_append.mpr ?_)
    rcases covered_append.mp (covered_subperm hgain hx) with hz | hold
    · exact .inl (hinside x hz)
    · exact .inr hold
  refine
    { h with
      served := fun b hb => h.served b (mem_of_mem_erase hb)
      slab := fun b hb => h.slab b (mem_of_mem_erase hb)
      nodes := ?_
      apart := ?_
      inside := ?_ }
  · exact fun b hb => forall_mem_append.mpr ⟨hstart, h.nodes⟩ b (hsub.subset hb)
  · have hap := hlive.pairwise h.apart (fun hab => hab.symm)
    rw [liveExtents, hrest]
    exact pairwise_subperm (pairwise_replace hap hzs hinside) hgain
  · rw [liveExtents, hrest]
    exact fun x hx => h.inside x (hcells x hx)

/-- **A pointer goes back to the heap**: it was served by the heap, and freeing it does not fail. -/
theorem deallocHeap (ha : a ∈ s.live) (hto : ¬ s.alloc.toSlab a.ptr a.layout = true) :
    ∃ fb, s.alloc.fallback.dealloc a.ptr a.layout = some fb ∧
      Inv { s with
        alloc := { s.alloc with fallback := fb }
        live := s.live.erase a
        held := s.held.erase (blockOf s.alloc.fallback.hardening a.ptr a.layout) } := by
  have horigin : a.origin = .heap := by
    cases ho : a.origin with
    | heap => rfl
    | slab => exact absurd (h.slab a ha ho) hto
  obtain ⟨hserved, hmem⟩ := h.served a ha horigin
  have hext : a.extent s.alloc.fallback.hardening = blockOf s.alloc.fallback.hardening a.ptr a.layout := by
    simp [Allocation.extent, horigin]
  have hheld := h.heap.perm (perm_cons_erase hmem)
  obtain ⟨fb, hd, hhard, hheaders, hinv⟩ := dealloc_spec hserved hheld
  refine ⟨fb, hd, ?_⟩
  generalize hrest : (s.live.erase a).map (Allocation.extent s.alloc.fallback.hardening) = rest
  have hlive := perm_live s ha
  rw [hrest, hext] at hlive
  generalize hb : blockOf s.alloc.fallback.hardening a.ptr a.layout = b at hlive hheld hinv hmem ⊢
  have hap := hlive.pairwise h.apart (fun hab => hab.symm)
  obtain ⟨_, hold, hcross⟩ := pairwise_append.mp hap
  refine
    { h with
      heap := hinv
      served := ?_
      slab := fun c hc => h.slab c (mem_of_mem_erase hc)
      apart := ?_
      inside := ?_ }
  · intro c hc ho
    obtain ⟨hs, hm⟩ := h.served c (mem_of_mem_erase hc) ho
    rw [hhard]
    refine ⟨hs.congr hhard (fun _ => by rw [hheaders]), (mem_erase_of_ne fun heq => ?_).mpr hm⟩
    -- two live allocations do not share a block
    have hdis := h.apart_erase ha hc
    have hc' : c.extent s.alloc.fallback.hardening = b := by
      simp only [Allocation.extent, ho]
      exact heq
    rw [hext, hb, hc'] at hdis
    have hpos := (h.heap.heldShaped b hmem).size_pos
    have hcell : b.start ∈ b := start_mem hpos
    exact apart_iff.mp hdis _ hcell hcell
  · simp only [liveExtents, hhard, hrest]
    exact hold
  · simp only [liveExtents, hhard, hrest]
    intro x hx
    have hin := h.inside x ((covered_perm hlive).mpr (covered_append.mpr (.inr hx)))
    rw [covered_append] at hin ⊢
    refine hin.imp id (fun hh => ?_)
    rcases covered_cons.mp ((covered_perm (perm_cons_erase hmem)).mp hh) with hxb | hh
    · obtain ⟨c, hc, hxc⟩ := hx
      exact absurd hxc (apart_iff.mp (hcross b (mem_singleton_self b) c hc) x hxb)
    · exact hh

end

end Inv

/-- One step keeps the invariant. -/
theorem inv_step {s s' : Sys} {act : Action} (h : Inv s) (hok : FreshMemory s act ∧ RoomForObject s act)
    (hs : step s act = some s') : Inv s' := by
  obtain ⟨hfresh, hroom⟩ := hok
  cases act with
  | setGrowCallback =>
    cases hs
    exact
      { h with
        served := fun a ha ho => ⟨(h.served a ha ho).1.congr rfl (fun _ => rfl), (h.served a ha ho).2⟩ }
  | slabInit =>
    cases hs
    refine { h with slab := fun a ha ho => ?_ }
    have hto := h.slab a ha ho
    simp only [toSlab, Bool.and_eq_true] at hto ⊢
    exact ⟨⟨hto.1.1, rfl⟩, hto.2⟩
  | alloc cpu page growFn layout =>
    obtain ⟨⟨p, al⟩, ha, rfl⟩ := map_eq_some_iff.mp hs
    unfold FreshMemory at hfresh
    unfold SlabAllocator.alloc at ha
    cases hpath : s.alloc.slabPath cpu page layout with
    | some r =>
      simp only [hpath] at hfresh ha ⊢
      obtain ⟨rfl, rfl⟩ := ha
      exact h.allocSlab hpath hfresh
    | none =>
      simp only [hpath] at hfresh ha ⊢
      obtain ⟨⟨q, fb⟩, hq, heq⟩ := map_eq_some_iff.mp ha
      cases heq
      have hspec := alloc_spec h.heap
        (fun r hr => ⟨(hfresh r hr).1, fun r' hr' => (hfresh r hr).2 r' (mem_append_left _ hr')⟩) hq
      cases q with
      | none =>
        obtain ⟨hinv, hheaders⟩ := hspec.null rfl
        exact h.refuse hfresh hinv hspec.hardening hheaders
      | some ptr =>
        obtain ⟨hinv, hserved, hheaders⟩ := hspec.block ptr rfl
        exact h.takeBlock hfresh hinv hspec.hardening hserved hheaders
  | dealloc cpu a =>
    by_cases ha : a ∈ s.live
    · simp only [step, if_pos ha] at hs
      obtain ⟨al, hal, rfl⟩ := map_eq_some_iff.mp hs
      unfold SlabAllocator.dealloc at hal
      by_cases hto : s.alloc.toSlab a.ptr a.layout = true
      · rw [if_pos hto] at hal ⊢
        cases hal
        exact h.deallocSlab ha hto hroom
      rw [if_neg hto] at hal ⊢
      obtain ⟨fb, hd, hinv⟩ := h.deallocHeap ha hto
      rw [hd] at hal
      cases hal
      exact hinv
    · simp only [step, if_neg ha, reduceCtorEq] at hs

theorem inv_start {s : Sys} (h : Start s) : Inv s := by
  obtain ⟨r, _, _, hv, hinit, hlive, hregions, hpages, hheld⟩ := h
  obtain ⟨al, hal, hrange⟩ := bind_eq_some_iff.mp hinit
  obtain ⟨fb, hfb, rfl⟩ := map_eq_some_iff.mp hal
  obtain ⟨inner, hinner, rfl⟩ := map_eq_some_iff.mp hfb
  obtain ⟨blocks, hblocks, rfl⟩ := map_eq_some_iff.mp hinner
  obtain ⟨stop, hstop, halloc⟩ := map_eq_some_iff.mp hrange
  obtain ⟨_, rfl⟩ := Word.add64_eq_some.mp hstop
  have hheap := Inv.nil.grow hv nofun hblocks
  have hcaches : s.alloc.caches = fun _ => FreeList.empty := by rw [← halloc]; rfl
  have hnone : freeObjects s.alloc.caches = [] := by
    rw [hcaches, freeObjects, flatMap_eq_nil_iff]
    exact fun _ _ => rfl
  have hext : liveExtents s = [] := by rw [liveExtents, hlive, map_nil]
  constructor
  · rw [← halloc, hheld, hregions]
    exact hheap
  · rw [← halloc]
    exact hv.1
  · rw [← halloc, hregions]
    simp
  · rw [hpages]
    exact nofun
  iterate 2
    · rw [hlive]
      exact nofun
  · rw [hnone]
    exact nofun
  · rw [hnone, hext]
    exact .nil
  · rw [hnone, hext]
    exact fun x hx => absurd hx covered_nil

/-- **Every run in which freed heap pointers have room keeps the invariant.** -/
theorem inv_reachable {s : Sys} (h : Run.Reach step (fun s a => FreshMemory s a ∧ RoomForObject s a) Start s) : Inv s :=
  h.invariant Inv (fun _ => inv_start) (fun _ _ _ => inv_step)

/-- The caller's bytes lie in the memory behind the allocation. -/
theorem Inv.range_inside {s : Sys} (h : Inv s) {a : Allocation} (ha : a ∈ s.live) :
    ∀ x ∈ a.range, x ∈ a.extent s.alloc.fallback.hardening := by
  intro x hx
  unfold Allocation.extent
  cases ho : a.origin with
  | heap =>
    have hin := (h.served a ha ho).1.inside
    exact ⟨le_trans (Nat.sub_le ..) hx.1, lt_of_lt_of_le hx.2 hin⟩
  | slab =>
    have hto := h.slab a ha ho
    simp only [toSlab, Bool.and_eq_true, decide_eq_true_iff] at hto
    have hle := size_le_objectSize hto.1.1
    exact ⟨hx.1, lt_of_lt_of_le hx.2 (Nat.add_le_add_left hle _)⟩

/-- **Live allocations are disjoint.** In every state of a run in which each heap pointer that is freed into
    the slab has room for an object of its class, the bytes of the live allocations are pairwise disjoint. -/
theorem reachable_live_disjoint {s : Sys}
    (h : Run.Reach step (fun s a => FreshMemory s a ∧ RoomForObject s a) Start s) :
    (s.live.map Allocation.range).Pairwise Apart := by
  have hinv := inv_reachable h
  have hlive := pairwise_map.mp (pairwise_append.mp hinv.apart).1
  refine pairwise_map.mpr (hlive.imp_of_mem fun {a b} ha hb hab => ?_)
  refine apart_iff.mpr fun x hxa hxb => ?_
  exact apart_iff.mp hab x (hinv.range_inside ha x hxa) (hinv.range_inside hb x hxb)

/-! ## Runs on given inputs -/

/-- Boot over a static heap and take some steps, each allowed by `ok`. -/
def runFrom (ok : Sys → Action → Prop) [∀ s a, Decidable (ok s a)] (hardening : Bool) (r : Segment)
    (actions : List Action) : Option Sys :=
  (((SlabAllocator.new hardening (fun _ => none)).init r.start r.size).bind
    (fun al => al.setHeapRange r.start r.size)).bind
      (fun al => Run.exec step ok ⟨al, [], [r], [], []⟩ actions)

theorem reach_runFrom {ok : Sys → Action → Prop} [∀ s a, Decidable (ok s a)] {hardening : Bool} {r : Segment}
    {actions : List Action} {s : Sys} (hv : ValidRegion r) (h : runFrom ok hardening r actions = some s) :
    Run.Reach step ok Start s := by
  obtain ⟨al, hal, hr⟩ := bind_eq_some_iff.mp h
  exact Run.Reach.exec (.start ⟨r, hardening, _, hv, hal, rfl, rfl, rfl, rfl⟩) hr

/-- A request for some bytes. -/
def words (size : Nat) (h : size ≤ 256) : Layout := ⟨size, 8, eight_powerOfTwo, small_fits h (Nat.le_add_right 8 8)⟩

/-- Requests for 129, 256, 24 and 32 bytes. -/
def bytes129 : Layout := words 129 (Nat.le_add_right 129 127)

def bytes256 : Layout := words 256 (Nat.le_refl 256)

def bytes24 : Layout := words 24 (Nat.le_add_right 24 232)

def bytes32 : Layout := words 32 (Nat.le_add_right 32 224)

/-- Two blocks from a region the heap grew by; the slab is switched on; the first block is freed, and a block
    of the same class is asked for. -/
def straddle (first second : Layout) (ptr : Nat) : List Action :=
  [.setGrowCallback, .alloc none none (fun _ => some ⟨0x10000, 0x4000⟩) first,
    .alloc none none (fun _ => none) first, .slabInit, .dealloc none ⟨ptr, first, .heap⟩,
    .alloc none none (fun _ => none) second]

/-- **An object straddles two heap blocks.** With hardening, 256 bytes are handed out over a live block of
    129 bytes; without it, 32 bytes over a live block of 24. -/
theorem straddling_object : (∃ s, Run.Reach step FreshMemory Start s ∧ s.alloc.fallback.hardening = true ∧
      s.live.map Allocation.range = [⟨0x10028, 256⟩, ⟨0x100f0, 129⟩] ∧
      ¬ (s.live.map Allocation.range).Pairwise Apart) ∧
    ∃ s, Run.Reach step FreshMemory Start s ∧ s.alloc.fallback.hardening = false ∧
      s.live.map Allocation.range = [⟨0x10000, 32⟩, ⟨0x10018, 24⟩] ∧
      ¬ (s.live.map Allocation.range).Pairwise Apart := by
  constructor
  · obtain ⟨s, hs, hh, hlive⟩ :
      ∃ s, runFrom FreshMemory true ⟨0x1000, 64⟩ (straddle bytes129 bytes256 0x10028) = some s ∧
        s.alloc.fallback.hardening = true ∧ s.live.map Allocation.range = [⟨0x10028, 256⟩, ⟨0x100f0, 129⟩] :=
      Run.exists_of_any (by decide)
    exact ⟨s, reach_runFrom (by decide) hs, hh, hlive, by rw [hlive]; decide⟩
  obtain ⟨s, hs, hh, hlive⟩ : ∃ s, runFrom FreshMemory false ⟨0x1000, 16⟩ (straddle bytes24 bytes32 0x10000) = some s ∧
      s.alloc.fallback.hardening = false ∧ s.live.map Allocation.range = [⟨0x10000, 32⟩, ⟨0x10018, 24⟩] :=
    Run.exists_of_any (by decide)
  exact ⟨s, reach_runFrom (by decide) hs, hh, hlive, by rw [hlive]; decide⟩

/-- The same steps with blocks of a whole class: the object that comes back is the block itself. -/
theorem reachable_live_disjoint_class : ∃ s,
    Run.Reach step (fun s a => FreshMemory s a ∧ RoomForObject s a) Start s ∧
    s.live.map Allocation.range = [⟨0x10000, 32⟩, ⟨0x10020, 32⟩] ∧
    (s.live.map Allocation.range).Pairwise Apart := by
  have hrun : (runFrom (fun s a => FreshMemory s a ∧ RoomForObject s a) false ⟨0x1000, 16⟩
      (straddle bytes32 bytes32 0x10000)).map (fun s => s.live.map Allocation.range) =
      some [⟨0x10000, 32⟩, ⟨0x10020, 32⟩] := by decide
  obtain ⟨s, hs, hlive⟩ := map_eq_some_iff.mp hrun
  have hreach := reach_runFrom (by decide) hs
  exact ⟨s, hreach, hlive, reachable_live_disjoint hreach⟩

end OxideOs.Slab

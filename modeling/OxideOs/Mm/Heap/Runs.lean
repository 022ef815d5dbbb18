import OxideOs.Lib.Run
import OxideOs.Mm.Heap.Invariant

/-!
# `Mm.Heap.Runs` — what holds in every run of the linked-list heap

A run hands one region to the heap and then allocates and frees; the page allocator may hand over further
regions, each disjoint from all before it, when an allocation finds no room. `live` is the record of live
allocations that the callers keep, and `regions` the record of the memory handed over, the latest first.
-/

namespace OxideOs.Heap

open Option Segment LinkedListAllocator List

/-- A live allocation: the pointer returned and the layout it was asked for with. -/
structure Allocation where
  ptr : Nat
  layout : Layout
  deriving DecidableEq, Repr

open Allocation

/-- The bytes set aside for an allocation. -/
def Allocation.extent (a : Allocation) : Segment := ⟨a.ptr, reserved a.layout⟩

/-- The heap, the live allocations and the regions handed over. -/
structure Sys where
  heap : LinkedListAllocator
  live : List Allocation
  regions : List Segment

/-- A step of a run. -/
inductive Action where
  | setGrowCallback
  | allocate (layout : Layout) (growFn : GrowCallbackFn)
  | deallocate (a : Allocation)

/-- One step. Callers free live allocations only, with the layout they were asked for with. -/
def step (s : Sys) : Action → Option Sys
  | .setGrowCallback => some { s with heap := s.heap.setGrowCallback }
  | .allocate layout growFn =>
    (s.heap.allocate growFn layout).map (fun r =>
      { heap := r.2
        live := (r.1.map (fun ptr => ⟨ptr, layout⟩)).toList ++ s.live
        regions := (grownRegion s.heap growFn layout).toList ++ s.regions })
  | .deallocate a =>
    if a ∈ s.live then
      (s.heap.deallocate a.ptr a.layout).map (fun h => { s with heap := h, live := s.live.erase a })
    else none

/-- The heap right after `init` over the region `r`. -/
def Start (r : Segment) (s : Sys) : Prop :=
  ValidRegion r ∧ empty.init r.start r.size = some s.heap ∧ s.live = [] ∧ s.regions = [r]

/-- A region the heap grows by is valid memory that was not handed over before. -/
def FreshGrowth (s : Sys) : Action → Prop
  | .allocate layout growFn => ∀ r ∈ grownRegion s.heap growFn layout, ValidRegion r ∧ ∀ r' ∈ s.regions, Apart r r'
  | _ => True

instance (s : Sys) (a : Action) : Decidable (FreshGrowth s a) := by
  cases a <;> unfold FreshGrowth <;> infer_instance

/-- The invariant of a run: the live allocations are the held blocks, and each is what its caller asked for. -/
structure RunInv (s : Sys) : Prop where
  heap : Inv s.heap.blocks (s.live.map extent) s.regions
  asked : ∀ a ∈ s.live, a.layout.align ∣ a.ptr ∧ a.layout.size ≤ reserved a.layout

variable {a : Allocation} {s : Sys} {r : Segment}

/-- A held block has a working size, so it can be given back. -/
theorem Inv.sizeAlign_isSome {blocks held regions : List Segment} (h : Inv blocks held regions)
    (ha : a.extent ∈ held) : ∃ sz, sizeAlign a.layout = some sz := by
  cases hsz : sizeAlign a.layout with
  | some sz => exact ⟨sz, rfl⟩
  | none =>
    have hlarge := (h.heldShaped _ ha).large
    simp only [extent, reserved, hsz, map_none, getD_none, FREE_BLOCK_SIZE] at hlarge
    omega

/-- Freeing a live allocation never fails and keeps the invariant. -/
theorem RunInv.deallocate (h : RunInv s) (ha : a ∈ s.live) : ∃ s', step s (.deallocate a) = some s' ∧ RunInv s' := by
  obtain ⟨sz, hsz⟩ := h.heap.sizeAlign_isSome (mem_map_of_mem ha)
  have hheld : Inv s.heap.blocks (a.extent :: (s.live.erase a).map extent) s.regions :=
    h.heap.perm ((perm_cons_erase ha).map extent)
  obtain ⟨h', hd, hinv⟩ := deallocate_spec hsz hheld
  refine ⟨{ s with heap := h', live := s.live.erase a }, ?_, hinv, fun b hb => ?_⟩
  · simp [step, if_pos ha, hd]
  · exact h.asked b (mem_of_mem_erase hb)

/-- One step keeps the invariant. -/
theorem runInv_step {s' : Sys} {act : Action} (h : RunInv s) (hok : FreshGrowth s act)
    (hs : step s act = some s') : RunInv s' := by
  cases act with
  | setGrowCallback =>
    cases hs
    exact ⟨h.heap, h.asked⟩
  | allocate layout growFn =>
    obtain ⟨⟨p, _⟩, ha, rfl⟩ := map_eq_some_iff.mp hs
    have hspec := allocate_spec h.heap hok ha
    cases p with
    | none => exact ⟨hspec, h.asked⟩
    | some ptr =>
      obtain ⟨hal, hsize, hinv⟩ := hspec
      exact ⟨hinv, forall_mem_cons.mpr ⟨⟨hal, hsize⟩, h.asked⟩⟩
  | deallocate a =>
    by_cases ha : a ∈ s.live
    · obtain ⟨s'', hs'', hinv⟩ := h.deallocate ha
      obtain rfl := some.inj (hs.symm.trans hs'')
      exact hinv
    · simp only [step, if_neg ha, reduceCtorEq] at hs

theorem runInv_start (h : Start r s) : RunInv s := by
  obtain ⟨hv, hinit, hlive, hregions⟩ := h
  obtain ⟨blocks, hb, hh⟩ := map_eq_some_iff.mp hinit
  have hinv := Inv.nil.grow hv nofun hb
  refine ⟨?_, fun a ha => ?_⟩
  · rw [hlive, hregions, ← hh]
    exact hinv
  · rw [hlive] at ha
    exact absurd ha not_mem_nil

/-- **Every run keeps the invariant.** -/
theorem runInv_reachable (h : Run.Reach step FreshGrowth (Start r) s) : RunInv s :=
  h.invariant RunInv (fun _ => runInv_start) (fun _ _ _ => runInv_step)

/-- **The heap tiles its regions.** In every state of a run, the free list is in strictly increasing address
    order with no two blocks touching; free blocks and live blocks are pairwise disjoint, and their bytes are
    exactly those of the trimmed regions that can hold a header; every live pointer has the alignment and the
    size asked for; any live allocation can be freed; and once all are, the free list is the one the regions
    alone give, which is the list before the first allocation if the heap did not grow. -/
theorem reachable_tiles {r : Segment} {s : Sys} (h : Run.Reach step FreshGrowth (Start r) s) :
    Canonical s.heap.blocks ∧
      (s.heap.blocks ++ s.live.map Allocation.extent).Pairwise Apart ∧
      (∀ x, Covered (s.heap.blocks ++ s.live.map Allocation.extent) x ↔
        Covered (s.regions.flatMap usable) x) ∧
      (∀ a ∈ s.live, a.layout.align ∣ a.ptr ∧ a.layout.size ≤ a.extent.size) ∧
      (∀ a ∈ s.live, ∃ s', step s (.deallocate a) = some s') ∧
      (s.live = [] → freeListOf s.regions = some s.heap.blocks) ∧
      (s.live = [] → s.regions = [r] →
        ∀ h₀, empty.init r.start r.size = some h₀ → s.heap.blocks = h₀.blocks) := by
  have hinv := runInv_reachable h
  have hrestored : s.live = [] → freeListOf s.regions = some s.heap.blocks := by
    intro hnil
    have hh := hinv.heap
    rw [hnil] at hh
    exact hh.freeListOf_eq
  refine ⟨hinv.heap.free.canonical, hinv.heap.apart, hinv.heap.tiles, hinv.asked, fun a ha => ?_, hrestored, ?_⟩
  · obtain ⟨s', hs', _⟩ := hinv.deallocate ha
    exact ⟨s', hs'⟩
  intro hnil hone _ hinit
  obtain ⟨blocks, hb, rfl⟩ := map_eq_some_iff.mp hinit
  have heq := hrestored hnil
  rw [hone] at heq
  exact some.inj (heq.symm.trans hb)

/-! ## Runs on given inputs -/

/-- A heap that was handed a region, and the steps taken on it. -/
def runFrom (r : Segment) (actions : List Action) : Option Sys :=
  (empty.init r.start r.size).bind (fun h => Run.exec step FreshGrowth ⟨h, [], [r]⟩ actions)

theorem reach_runFrom {actions : List Action} (hv : ValidRegion r)
    (h : runFrom r actions = some s) : Run.Reach step FreshGrowth (Start r) s := by
  obtain ⟨_, hh0, hr⟩ := bind_eq_some_iff.mp h
  exact Run.Reach.exec (.start ⟨hv, hh0, rfl, rfl⟩) hr

/-- A request for 24 bytes, and one for 64. -/
def small : Layout := ⟨24, 8, by decide, by decide⟩

def large : Layout := ⟨64, 16, by decide, by decide⟩

/-- The 64-byte region `[4096, 4160)` serves 24 bytes and refuses 64; the heap grows by the 4 KiB from 8192;
    both blocks are then freed. -/
def growing : List Action :=
  [.setGrowCallback, .allocate small (fun _ => none), .allocate large (fun _ => some ⟨8192, 4096⟩),
    .deallocate ⟨8192, large⟩, .deallocate ⟨4096, small⟩]

/-- **Growth stays, and slivers are dropped.** After growth, freeing everything does not lead back to the
    free list before the first allocation; and a region of eight bytes is not tiled by anything. -/
theorem grown_heap_differs : (∃ s, Run.Reach step FreshGrowth (Start ⟨4096, 64⟩) s ∧ s.live = [] ∧
      s.heap.blocks = [⟨4096, 64⟩, ⟨8192, 4096⟩] ∧
      (empty.init 4096 64).map LinkedListAllocator.blocks = some [⟨4096, 64⟩]) ∧
    ∃ s, Run.Reach step FreshGrowth (Start ⟨4096, 8⟩) s ∧ 4096 ∈ trimmed ⟨4096, 8⟩ ∧
      ¬ Covered (s.heap.blocks ++ s.live.map Allocation.extent) 4096 := by
  constructor
  · obtain ⟨s, hs, hlive, hblocks⟩ : ∃ s, runFrom ⟨4096, 64⟩ growing = some s ∧ s.live = [] ∧
        s.heap.blocks = [⟨4096, 64⟩, ⟨8192, 4096⟩] := Run.exists_of_any (by decide)
    exact ⟨s, reach_runFrom (by decide) hs, hlive, hblocks, by decide⟩
  · obtain ⟨s, hs, hlive, hblocks⟩ : ∃ s, runFrom ⟨4096, 8⟩ [] = some s ∧ s.live = [] ∧ s.heap.blocks = [] :=
      Run.exists_of_any (by decide)
    exact ⟨s, reach_runFrom (by decide) hs, by decide, by rw [hlive, hblocks]; decide⟩

/-- The run up to the growth: two live allocations in two regions. -/
theorem reachable_tiles_growing : ∃ s, Run.Reach step FreshGrowth (Start ⟨4096, 64⟩) s ∧
    s.live = [⟨8192, large⟩, ⟨4096, small⟩] ∧
    s.heap.blocks = [⟨4120, 40⟩, ⟨8256, 4032⟩] ∧
    (s.heap.blocks ++ s.live.map Allocation.extent).Pairwise Apart := by
  obtain ⟨s, hs, hlive, hblocks⟩ : ∃ s, runFrom ⟨4096, 64⟩ (growing.take 3) = some s ∧
      s.live = [⟨8192, large⟩, ⟨4096, small⟩] ∧ s.heap.blocks = [⟨4120, 40⟩, ⟨8256, 4032⟩] :=
    Run.exists_of_any (by decide)
  have hreach := reach_runFrom (by decide) hs
  exact ⟨s, hreach, hlive, hblocks, (reachable_tiles hreach).2.1⟩

end OxideOs.Heap

import OxideOs.Lib.Run
import OxideOs.Mm.Buddy.Boot

/-!
# `Mm.Buddy.Runs` — what holds in every run of the allocator

A run boots the allocator over a memory map and then mixes three kinds of steps: `alloc`, `free` of a live
block with the order it was allocated with, and writes of owners anywhere into their live blocks. `live` is
the record of the live blocks that the callers keep.

The free lists run through memory that was, or will be, written by owners. The checks on the headers found
there can be satisfied by bytes an owner left: a block that was never freed then passes for a free buddy
(`forged_run`). Runs without such a forged buddy keep every promise (`reachable_disjoint`).
-/

namespace OxideOs.Buddy

open Option Block List

/-- The allocator and the live blocks. -/
structure Sys where
  state : State
  live : List Block

/-- A step of a run. -/
inductive Action where
  | alloc (req : AllocRequest)
  | free (b : Block)
  | write (frame : Nat) (bytes : FreeBlock)

/-- One step. Callers free live blocks only, and owners write into live blocks only. -/
def step (sys : Sys) : Action → Option Sys
  | .alloc req =>
    match alloc sys.state req with
    | some (.ok addr, s) => some { state := s, live := ⟨addr / 4096, req.order⟩ :: sys.live }
    | some (.error _, s) => some { sys with state := s }
    | none => none
  | .free b =>
    if b ∈ sys.live then
      (free sys.state (4096 * b.base) b.order).map
        (fun r => { state := r.2, live := sys.live.erase b })
    else none
  | .write frame bytes =>
    if ∃ b ∈ sys.live, frame ∈ b then
      some { sys with state := sys.state.setHeader (4096 * frame) bytes }
    else none

/-- The states right after boot: any memory contents, any page database, any disjoint regions. -/
def Start (sys : Sys) : Prop :=
  ∃ s regions, Fresh s ∧ DisjointRegions regions ∧ init s regions = some sys.state ∧ sys.live = []

/-- No block is freed next to a forged buddy. -/
def NoForgedBuddy (sys : Sys) : Action → Prop
  | .free b => ¬ ForgedBuddy sys.state (ZoneType.forAddress (4096 * b.base)) b.base b.order
  | _ => True

instance (sys : Sys) (a : Action) : Decidable (NoForgedBuddy sys a) := by
  cases a <;> unfold NoForgedBuddy <;> infer_instance

/-- The blocks linked in the free lists, read off memory. -/
def linkedBlocks (s : State) : List Block := freeBlocks (fun i => freeList s i.1 i.2)

theorem Inv.linkedBlocks_eq {s : State} {L : Slot → List Nat} {held : List Block} (h : Inv s L held) :
    linkedBlocks s = freeBlocks L := by
  refine flatMap_congr fun i hi => ?_
  show (freeList s i.1 i.2).map _ = _
  rw [h.freeList_eq (mem_slots.mp hi)]

/-- One step keeps the invariant. -/
theorem inv_step {sys sys' : Sys} {a : Action} (hinv : ∃ L, Inv sys.state L sys.live)
    (hok : NoForgedBuddy sys a) (hs : step sys a = some sys') : ∃ L, Inv sys'.state L sys'.live := by
  obtain ⟨L, h⟩ := hinv
  cases a with
  | alloc req =>
    obtain ⟨r, s', ha, _, hout⟩ := alloc_spec h req
    simp only [step, ha] at hs
    cases r with
    | error e =>
      cases hs
      exact hout
    | ok addr =>
      obtain ⟨L', f, rfl, hinv⟩ := hout
      cases hs
      simp only [frame_addr]
      exact ⟨L', hinv⟩
  | free b =>
    simp only [step] at hs
    split at hs
    next hb =>
      obtain ⟨z, hpl⟩ := h.heldPlaced b hb
      have hz := (h.zone z).forAddress_placed hpl
      simp only [NoForgedBuddy, hz] at hok
      obtain ⟨r, s', L', hf, _, hinv⟩ := free_spec (h.perm (perm_cons_erase hb).symm) hpl hok
      rw [hf] at hs
      cases hs
      exact ⟨L', hinv⟩
    · cases hs
  | write frame bytes =>
    simp only [step] at hs
    split at hs
    next hw =>
      obtain ⟨b, hb, hfb⟩ := hw
      cases hs
      exact ⟨L, h.write (h.unlinked_of_held hb hfb) _⟩
    · cases hs

/-- **Every run without a forged buddy keeps the invariant.** -/
theorem inv_reachable {sys : Sys} (h : Run.Reach step NoForgedBuddy Start sys) : ∃ L, Inv sys.state L sys.live := by
  refine h.invariant (fun sys => ∃ L, Inv sys.state L sys.live) ?_ ?_
  · rintro s ⟨s0, regions, hf, hd, hi, hl⟩
    obtain ⟨L, _, hb⟩ := init_spec hf hd hi
    rw [hl]
    exact ⟨L, hb.inv⟩
  · intro s a s' hinv hok hs
    exact inv_step hinv hok hs

/-- **No double allocation.** In every state of a run without a forged buddy, the live blocks and the blocks
    linked in the free lists are pairwise disjoint; a free block of order `o` is aligned to `2 ^ o` frames and
    lies inside its zone; every free list is doubly linked, through valid headers, for exactly as many blocks
    as its count says; and `alloc` answers with a block that shares no frame with a live one. -/
theorem reachable_disjoint {sys : Sys} (h : Run.Reach step NoForgedBuddy Start sys) :
    (linkedBlocks sys.state ++ sys.live).Pairwise Block.Apart ∧
      (∀ z o, o ≤ MAX_ORDER → ∀ f ∈ freeList sys.state z o, 2 ^ o ∣ f ∧
        (sys.state.zones z).base ≤ 4096 * f ∧
        4096 * (f + 2 ^ o) ≤ (sys.state.zones z).base + (sys.state.zones z).size) ∧
      (∀ z o, o ≤ MAX_ORDER →
        Dll (nextOf sys.state) (prevOf sys.state) 0 0 (sys.state.list z o).head (freeList sys.state z o) ∧
        (freeList sys.state z o).length = (sys.state.list z o).count ∧
        ∀ f ∈ freeList sys.state z o, (sys.state.mem f).magic = FREE_BLOCK_MAGIC ∧
          (sys.state.mem f).order = o) ∧
      ∀ req, ∃ r s', alloc sys.state req = some (r, s') ∧
        ∀ addr, r = .ok addr → ∀ b ∈ sys.live, Block.Apart ⟨addr / 4096, req.order⟩ b := by
  obtain ⟨L, hi⟩ := inv_reachable h
  refine ⟨?_, ?_, ?_, ?_⟩
  · rw [hi.linkedBlocks_eq]
    exact hi.apart
  · intro z o ho f hf
    rw [hi.freeList_eq ho] at hf
    have hp := hi.placed _ (mem_slots.mpr ho) f hf
    exact ⟨hp.aligned, hp.lower, hp.upper⟩
  · intro z o ho
    rw [hi.freeList_eq ho]
    exact ⟨hi.chain _ (mem_slots.mpr ho), (hi.count _ (mem_slots.mpr ho)).symm,
      fun f hf => valid_iff.mp (hi.valid _ (mem_slots.mpr ho) f hf)⟩
  · intro req
    obtain ⟨r, s', ha, _, hout⟩ := alloc_spec hi req
    refine ⟨r, s', ha, ?_⟩
    rintro addr rfl b hb
    obtain ⟨L', f, rfl, hinv⟩ := hout
    rw [frame_addr]
    have hp := (pairwise_append.mp hinv.apart).2.1
    exact (pairwise_cons.mp hp).1 b hb

/-- A machine with zeroed memory and no page database. -/
def zeroState : State where
  zones := fun _ => MemoryZone.new
  stats := {}
  mem := fun _ => { magic := 0, next := 0, prev := 0, order := 0 }
  pagedb := none
  watchedFrame := 0

theorem zeroState_fresh : Fresh zeroState := ⟨fun _ => rfl, rfl⟩

/-- Frames 4 to 11. -/
def eightFrames : List Region := [{ start := 0x4000, len := 0x8000, usable := true }]

/-- Boot over some regions and take some steps, each allowed by `ok`. -/
def runFrom (ok : Sys → Action → Prop) [∀ sys a, Decidable (ok sys a)] (regions : List Region)
    (actions : List Action) : Option Sys :=
  (init zeroState regions).bind (fun s => Run.exec step ok { state := s, live := [] } actions)

theorem reach_runFrom {ok : Sys → Action → Prop} [∀ sys a, Decidable (ok sys a)] {Init : Sys → Prop}
    {regions : List Region} {actions : List Action} {sys : Sys}
    (hstart : ∀ s, init zeroState regions = some s → Init { state := s, live := [] })
    (h : runFrom ok regions actions = some sys) : Run.Reach step ok Init sys := by
  obtain ⟨s, hs, hr⟩ := bind_eq_some_iff.mp h
  exact Run.Reach.exec (.start (hstart s hs)) hr

theorem start_eightFrames {s : State} (hs : init zeroState eightFrames = some s) : Start { state := s, live := [] } :=
  ⟨zeroState, eightFrames, zeroState_fresh, pairwise_singleton _ _, hs, rfl⟩

/-- Three frames are allocated; the owners of frames 9 and 10 forge two headers that name each other; then
    frame 8 is freed and two frames are allocated. -/
def forgery : List Action :=
  [.alloc ⟨0, none⟩, .alloc ⟨0, none⟩, .alloc ⟨0, none⟩,
    .write 9 { magic := FREE_BLOCK_MAGIC, next := 0, prev := 10, order := 0 },
    .write 10 { magic := FREE_BLOCK_MAGIC, next := 9, prev := 0, order := 0 },
    .free ⟨8, 0⟩, .alloc ⟨1, none⟩]

/-- **A forged buddy is handed out twice.** Frame 9 is live when `alloc` returns frames 8 and 9. -/
theorem forged_run : ∃ sys, Run.Reach step (fun _ _ => True) Start sys ∧
    sys.live = [⟨8, 1⟩, ⟨10, 0⟩, ⟨9, 0⟩] ∧ ¬ sys.live.Pairwise Block.Apart := by
  have hrun : (runFrom (fun _ _ => True) eightFrames forgery).map Sys.live = some [⟨8, 1⟩, ⟨10, 0⟩, ⟨9, 0⟩] := by decide
  obtain ⟨sys, hsys, hlive⟩ := map_eq_some_iff.mp hrun
  exact ⟨sys, reach_runFrom (fun _ => start_eightFrames) hsys, hlive, by rw [hlive]; decide⟩

/-- The same steps with one forged header only: the buddy is refused and stays apart. -/
theorem reachable_disjoint_refused : ∃ sys, Run.Reach step NoForgedBuddy Start sys ∧
    sys.live = [⟨4, 1⟩, ⟨10, 0⟩, ⟨9, 0⟩] ∧ (linkedBlocks sys.state ++ sys.live).Pairwise Block.Apart := by
  have hrun : (runFrom NoForgedBuddy eightFrames (forgery.eraseIdx 4)).map Sys.live =
      some [⟨4, 1⟩, ⟨10, 0⟩, ⟨9, 0⟩] := by decide
  obtain ⟨sys, hsys, hlive⟩ := map_eq_some_iff.mp hrun
  have hreach := reach_runFrom (fun _ => start_eightFrames) hsys
  exact ⟨sys, hreach, hlive, (reachable_disjoint hreach).1⟩

end OxideOs.Buddy

import OxideOs.Mm.Buddy.Model
import OxideOs.Mm.Paging.Entry

/-!
# `Mm.Cow` — frames and their reference counts (`mm-cow`, `mm-manager`)

What the kernel keeps about physical frames: the buddy allocator's free frames, the page frame database, the
copy-on-write tracker and the swap cache. The physical addresses that occur in page table entries are page
aligned and have 52 bits, so a frame is a 40-bit number.

Seen from above, the buddy allocator hands out some free frame, or none. Which one is not for its callers to
know: the answers it will give are part of the state, and an answer that names a frame that is not free counts
as a refusal.
-/

namespace OxideOs.Vm

open Function Pagedb Paging

/-! ## Frames -/

/-- The number of a frame. -/
abbrev Frame := BitVec 40

instance (f : Frame) (l : List Frame) : Decidable (f ∈ l) := inferInstance

/-- The physical address of a frame. -/
def Frame.addr (f : Frame) : PhysAddr := f.setWidth 64 <<< 12

/-- The address by which the page frame database knows the frame. -/
def Frame.phys (f : Frame) : Nat := 4096 * f.toNat

/-- `SwapEntry`: where a page lies on a swap device. -/
structure SwapEntry where
  area : BitVec 3
  slot : BitVec 32
  deriving DecidableEq, Repr

namespace SwapEntry

def isSwapEntry (pte : BitVec 64) : Bool := !pte.getLsbD 0 && pte.getLsbD 1

/-- `decode`: none for a present entry and for one without the marker bit. -/
def decode (pte : BitVec 64) : Option SwapEntry :=
  if isSwapEntry pte then some { area := pte.extractLsb' 2 3, slot := pte.extractLsb' 5 32 } else none

end SwapEntry

/-- What the kernel keeps about frames. `counts` is the map in `CowTracker`; `answers` are the frame
    allocator's answers to come. -/
structure FrameStore where
  free : List Frame
  pagedb : Option PageDatabase
  counts : Frame → Option Nat
  swapCache : List (SwapEntry × Frame)
  answers : List (Option Frame)

namespace FrameStore

/-! ## The allocator -/

/-- Change the record of a frame, if there is a page database. -/
def updateRecord (s : FrameStore) (f : Frame) (change : PageFrame → PageFrame) : FrameStore :=
  { s with pagedb := s.pagedb.map (fun db => db.put f.phys change) }

/-- The record of a frame, if there is a page database and it covers the frame. -/
def record (s : FrameStore) (f : Frame) : Option PageFrame := s.pagedb.bind (fun db => db.get f.phys)

/-- `alloc_frame`. -/
def allocFrame (s : FrameStore) : Option Frame × FrameStore :=
  match s.answers with
  | [] => (none, s)
  | none :: rest => (none, { s with answers := rest })
  | some f :: rest =>
    if f ∈ s.free then
      (some f, { s with
        answers := rest
        free := s.free.erase f
        pagedb := s.pagedb.map (fun db => db.markAllocated f.phys 0) })
    else (none, { s with answers := rest })

/-- The page database refuses to take the frame back. -/
def freeRefused (s : FrameStore) (f : Frame) : Bool :=
  match s.pagedb with
  | none => false
  | some db => !(db.validateFree f.phys).isOk

/-- `free_frame`; the buddy allocator never lists the frame at address 0. -/
def freeFrame (s : FrameStore) (f : Frame) : FrameStore :=
  if s.freeRefused f then s
  else { s with
    pagedb := s.pagedb.map (fun db => db.markFree f.phys)
    free := if f = 0 then s.free else f :: s.free }

/-- `free_frames`: a block of `2 ^ order` frames, validated at its first frame. -/
def freeFrames (s : FrameStore) (f : Frame) (order : Nat) : FrameStore :=
  if Buddy.MAX_ORDER < order then s
  else if s.freeRefused f then s
  else { s with
    pagedb := s.pagedb.map (fun db => db.markRange PageDatabase.markFree f.phys (2 ^ order))
    free := (List.range (2 ^ order)).map (fun i => f + BitVec.ofNat 40 i) ++ s.free }

/-- `mark_pagetable`. -/
def markPagetable (s : FrameStore) (f : Frame) : FrameStore :=
  { s with pagedb := s.pagedb.map (fun db => db.markPagetable f.phys 0) }

/-! ## The copy-on-write tracker -/

/-- `increment`: an untracked frame counts as one reference before. The count is a `u32`; the machine stops
    when it overflows. -/
def increment (s : FrameStore) (f : Frame) : Option FrameStore :=
  let count := (s.counts f).getD 1 + 1
  if 2 ^ 32 ≤ count then none
  else some { s with
    counts := update s.counts f (some count)
    pagedb := s.pagedb.map (fun db => (db.refInc f.phys).2.put f.phys (fun pf => pf.setFlag PF_COW)) }

/-- The frame was freed behind the tracker's back, or is a page table by now. -/
def staleRecord (db : PageDatabase) (f : Frame) : Bool :=
  match db.get f.phys with
  | some pf => pf.isFree || pf.hasFlag PF_PAGETABLE
  | none => false

/-- `decrement`: the new count; the entry goes away at 0, and an untracked frame counts as 0. -/
def decrement (s : FrameStore) (f : Frame) : Nat × FrameStore :=
  match s.counts f with
  | none => (0, s)
  | some count =>
    let newCount := count - 1
    let mirror := fun (db : PageDatabase) =>
      if staleRecord db f then db
      else
        let db := (db.refDec f.phys).2
        if newCount ≤ 1 then db.put f.phys (fun pf => pf.clearFlag PF_COW) else db
    (newCount, { s with
      counts := update s.counts f (if newCount = 0 then none else some newCount)
      pagedb := s.pagedb.map mirror })

/-- `try_claim_exclusive`: true for the last owner, who is no longer tracked; otherwise one reference less. -/
def tryClaimExclusive (s : FrameStore) (f : Frame) : Bool × FrameStore :=
  match s.counts f with
  | none => (true, s)
  | some count =>
    if count ≤ 1 then
      (true, { s with
        counts := update s.counts f none
        pagedb := s.pagedb.map (fun db => db.put f.phys (fun pf => pf.clearFlag PF_COW)) })
    else
      let newCount := count - 1
      -- unlike in `decrement`, the flag is cleared also when the reference count is left alone
      let mirror := fun (db : PageDatabase) =>
        let db := if staleRecord db f then db else (db.refDec f.phys).2
        if newCount ≤ 1 then db.put f.phys (fun pf => pf.clearFlag PF_COW) else db
      (false, { s with
        counts := update s.counts f (some newCount)
        pagedb := s.pagedb.map mirror })

/-! ## Swap -/

/-- `page_in`: only a page that is still in the swap cache can be brought back. -/
def pageIn (s : FrameStore) (entry : SwapEntry) : Option Frame × FrameStore :=
  match s.swapCache.lookup entry with
  | some f => (some f, { s with swapCache := s.swapCache.filter (fun c => c.1 != entry) })
  | none => (none, s)

end FrameStore
end OxideOs.Vm

import OxideOs.Mm.Cow
import OxideOs.Mm.Paging.Mapper
import OxideOs.Mm.Vma

/-!
# `Proc.AddressSpace` — user address spaces

A user address space owns its page tables: no table is reachable from two places. Its tables are therefore a
function from places in the tree (`Slot`) to entries, and an entry that leads to a table records the frame the
table lies in. Slots below an entry that leads nowhere have no meaning; linking in a table clears them.

Only the user half (PML4 indices below 256) is walked when an address space is cloned or dropped.
-/

namespace OxideOs.Vm

open Pagedb Paging PageTableFlags Vma

/-- The frame an entry points to. -/
def frameOf (e : PageTableEntry) : Frame := e.raw.extractLsb' 12 40

/-! ## Tables -/

abbrev Index := Fin ENTRIES_PER_TABLE

/-- The place of an entry: the indices on the way to it. -/
inductive Slot where
  | pml4 (i : Index)
  | pdpt (i j : Index)
  | pd (i j k : Index)
  | pt (i j k l : Index)
  deriving DecidableEq, Repr

namespace Slot

/-- The entry that leads to the table a slot is in; the PML4 has none. -/
def parent : Slot → Option Slot
  | pml4 _ => none
  | pdpt i _ => some (pml4 i)
  | pd i j _ => some (pdpt i j)
  | pt i j k _ => some (pd i j k)

/-- The slot an address uses at a level. -/
def ofAddr (virt : VirtAddr) : PageLevel → Slot
  | .pml4 => pml4 (PageLevel.pml4.index virt)
  | .pdpt => pdpt (PageLevel.pml4.index virt) (PageLevel.pdpt.index virt)
  | .pd => pd (PageLevel.pml4.index virt) (PageLevel.pdpt.index virt) (PageLevel.pd.index virt)
  | .pt =>
    pt (PageLevel.pml4.index virt) (PageLevel.pdpt.index virt) (PageLevel.pd.index virt)
      (PageLevel.pt.index virt)

end Slot

/-- The entries of an address space. -/
abbrev Tables := Slot → PageTableEntry

namespace Tables

/-- Tables with nothing in them. -/
def empty : Tables := fun _ => PageTableEntry.empty

/-- The entry leads to a table. -/
def leads (t : Tables) (s : Slot) : Bool := (t s).isPresent && !(t s).isHuge

/-- A cleared table in frame `f` is linked in at `s`. -/
def link (t : Tables) (s : Slot) (f : Frame) (flags : PageTableFlags) : Tables := fun s' =>
  if s' = s then PageTableEntry.set f.addr flags
  else if s'.parent = some s then PageTableEntry.empty
  else t s'

/-- The three tables above a page are there. -/
def reaches (t : Tables) (virt : VirtAddr) : Bool :=
  t.leads (.ofAddr virt .pml4) && t.leads (.ofAddr virt .pdpt) && t.leads (.ofAddr virt .pd)

/-! The nested loops of `clone_address_space_cow` and `drop` go through the user half from the lowest address
up: an entry that is not present is passed over, and below a huge page there is nothing. -/

def indices : List Index := List.finRange ENTRIES_PER_TABLE

def userIndices : List Index := indices.filter (fun i => i.val < 256)

def visitsPd (t : Tables) (i j k : Index) : List Slot :=
  if !(t (.pd i j k)).isPresent then []
  else .pd i j k :: (if (t (.pd i j k)).isHuge then [] else indices.map (.pt i j k))

def visitsPdpt (t : Tables) (i j : Index) : List Slot :=
  if !(t (.pdpt i j)).isPresent then []
  else .pdpt i j :: (if (t (.pdpt i j)).isHuge then [] else indices.flatMap (t.visitsPd i j))

def visitsPml4 (t : Tables) (i : Index) : List Slot :=
  if !(t (.pml4 i)).isPresent then [] else .pml4 i :: indices.flatMap (t.visitsPdpt i)

/-- The slots the loops look at, in their order. -/
def visits (t : Tables) : List Slot := userIndices.flatMap t.visitsPml4

/-- A slot that maps memory: an entry of a page table, or a huge page. -/
def isLeaf (t : Tables) : Slot → Bool
  | .pml4 _ => false
  | .pt _ _ _ _ => true
  | s => (t s).isHuge

/-- The present leaf entries of the user half. -/
def leafPtes (t : Tables) : List PageTableEntry := ((t.visits.filter t.isLeaf).map t).filter (fun e => e.isPresent)

/-- The frames of the tables below the PML4. -/
def tableFrames (t : Tables) : List Frame := (t.visits.filter (fun s => !t.isLeaf s)).map (fun s => frameOf (t s))

end Tables

/-! ## Address spaces -/

/-- `MemoryFlags`. -/
structure MemoryFlags where
  read : Bool
  write : Bool
  execute : Bool
  user : Bool
  deriving DecidableEq, Repr

structure UserAddressSpace where
  pml4Phys : Frame
  tables : Tables
  allocatedFrames : List Frame
  vmas : VmAreaList

inductive SpaceError where
  | alreadyMapped
  | outOfMemory
  | invalidAddress
  deriving DecidableEq, Repr

inductive UnmapError where
  | invalidAddress
  | notMapped
  deriving DecidableEq, Repr

def USER_END : VirtAddr := 0x0000800000000000#64

namespace UserAddressSpace

/-- Overwrite one entry. -/
def setEntry (u : UserAddressSpace) (s : Slot) (e : PageTableEntry) : UserAddressSpace :=
  { u with tables := Function.update u.tables s e }

/-- `new_with_kernel`: an empty user half. -/
def newWithKernel (st : FrameStore) : Option UserAddressSpace × FrameStore :=
  match st.allocFrame with
  | (none, st) => (none, st)
  | (some pml4, st) =>
    (some { pml4Phys := pml4, tables := Tables.empty, allocatedFrames := [], vmas := VmAreaList.new }, st)

/-- `get_or_create_table` with the `TrackingAllocator`: a new table is recorded and marked. -/
def getOrCreateTable (u : UserAddressSpace) (st : FrameStore) (s : Slot) :
    Except SpaceError Unit × UserAddressSpace × FrameStore :=
  if (u.tables s).isPresent then
    (if (u.tables s).isHuge then .error .invalidAddress else .ok (), u, st)
  else
    match st.allocFrame with
    | (none, st) => (.error .outOfMemory, u, st)
    | (some f, st) =>
      (.ok (), { u with
        tables := u.tables.link s f TABLE_FLAGS
        allocatedFrames := u.allocatedFrames ++ [f] }, st.markPagetable f)

/-- The flags `map_user_page` gives to a page. -/
def pageFlags (flags : MemoryFlags) : PageTableFlags :=
  let ptFlags := PRESENT ||| USER
  let ptFlags := if flags.write then ptFlags ||| WRITABLE else ptFlags
  if !flags.execute then ptFlags ||| NO_EXECUTE else ptFlags

/-- `map_user_page`. -/
def mapUserPage (u : UserAddressSpace) (st : FrameStore) (virt : VirtAddr) (f : Frame) (flags : MemoryFlags) :
    Except SpaceError Unit × UserAddressSpace × FrameStore :=
  if USER_END ≤ virt then (.error .invalidAddress, u, st)
  else
    match u.getOrCreateTable st (.ofAddr virt .pml4) with
    | (.error e, u, st) => (.error e, u, st)
    | (.ok (), u, st) =>
      match u.getOrCreateTable st (.ofAddr virt .pdpt) with
      | (.error e, u, st) => (.error e, u, st)
      | (.ok (), u, st) =>
        match u.getOrCreateTable st (.ofAddr virt .pd) with
        | (.error e, u, st) => (.error e, u, st)
        | (.ok (), u, st) =>
          if (u.tables (.ofAddr virt .pt)).isPresent then (.error .alreadyMapped, u, st)
          else
            (.ok (), u.setEntry (.ofAddr virt .pt) (PageTableEntry.set f.addr (pageFlags flags ||| PRESENT)), st)

/-- `unmap_user_page`, and `unmap_user_page_no_free`, which does the same. -/
def unmapUserPage (u : UserAddressSpace) (virt : VirtAddr) : Except UnmapError Frame × UserAddressSpace :=
  if USER_END ≤ virt then (.error .invalidAddress, u)
  else if u.tables.reaches virt && (u.tables (.ofAddr virt .pt)).isPresent then
    (.ok (frameOf (u.tables (.ofAddr virt .pt))), u.setEntry (.ofAddr virt .pt) PageTableEntry.empty)
  else (.error .notMapped, u)

/-- The permission bits `set_page_flags` replaces. -/
def PERMISSION_MASK : PageTableFlags := PRESENT ||| WRITABLE ||| USER ||| NO_EXECUTE

/-- `PageMapper::set_page_flags`: an entry that is not present can lose its permissions, but not gain any. -/
def setPageFlags (u : UserAddressSpace) (virt : VirtAddr) (newFlags : PageTableFlags) : Bool × UserAddressSpace :=
  if u.tables.reaches virt then
    let entry := u.tables (.ofAddr virt .pt)
    if !entry.isPresent && newFlags.contains PRESENT then (false, u)
    else
      let preserved := entry.flags.difference PERMISSION_MASK
      (true, u.setEntry (.ofAddr virt .pt) (entry.setFlags (preserved ||| newFlags)))
  else (false, u)

/-- The page table flags `set_user_page_flags` asks for; `PROT_NONE` clears the present bit. -/
def protectionFlags (flags : MemoryFlags) : PageTableFlags :=
  if !flags.read && !flags.write && !flags.execute then ACCESSED ||| NO_EXECUTE
  else
    let ptFlags := PRESENT ||| ACCESSED
    let ptFlags := if flags.user then ptFlags ||| USER else ptFlags
    let ptFlags := if flags.write then ptFlags ||| WRITABLE else ptFlags
    if !flags.execute then ptFlags ||| NO_EXECUTE else ptFlags

/-- `set_user_page_flags`. -/
def setUserPageFlags (u : UserAddressSpace) (virt : VirtAddr) (flags : MemoryFlags) : Bool × UserAddressSpace :=
  if USER_END ≤ virt then (false, u) else u.setPageFlags virt (protectionFlags flags)

/-! ## Allocating pages -/

/-- Return frames, first to last. -/
def freeAll (st : FrameStore) (frames : List Frame) : FrameStore := frames.foldl FrameStore.freeFrame st

/-- The first loop of `allocate_pages`: `n` frames, or none, with those taken so far returned. -/
def allocateFrames : Nat → FrameStore → List Frame → Option (List Frame) × FrameStore
  | 0, st, frames => (some frames, st)
  | n + 1, st, frames =>
    match st.allocFrame with
    | (none, st) => (none, freeAll st frames)
    | (some f, st) => allocateFrames n st (frames ++ [f])

/-- The second loop: mark and map the frames from `virt` on; at the first failure the frame and all that
    follow it are returned. -/
def mapFrames : List Frame → UserAddressSpace → FrameStore → VirtAddr → MemoryFlags →
    Except SpaceError Unit × UserAddressSpace × FrameStore
  | [], u, st, _, _ => (.ok (), u, st)
  | f :: frames, u, st, virt, flags =>
    let st := st.updateRecord f (fun pf => pf.setFlags (PF_ALLOCATED ||| PF_MAPPED))
    match u.mapUserPage st virt f flags with
    | (.error e, u, st) => (.error e, u, freeAll st (f :: frames))
    | (.ok (), u, st) => mapFrames frames u st (virt + 4096#64) flags

/-- `allocate_pages`. -/
def allocatePages (u : UserAddressSpace) (st : FrameStore) (virtStart : VirtAddr) (numPages : Nat)
    (flags : MemoryFlags) : Except SpaceError Unit × UserAddressSpace × FrameStore :=
  match allocateFrames numPages st [] with
  | (none, st) => (.error .outOfMemory, u, st)
  | (some frames, st) => mapFrames frames u st virtStart flags

/-! ## Dropping an address space -/

/-- Give up one reference to a frame; the last owner returns it. -/
def releaseFrame (st : FrameStore) (f : Frame) : FrameStore :=
  match st.decrement f with
  | (0, st) => st.freeFrame f
  | (_, st) => st

/-- A huge page of `2 ^ order` frames is given up. -/
def releaseHuge (st : FrameStore) (f : Frame) (order : Nat) : FrameStore :=
  if (st.record f).any (fun pf => pf.hasFlag PF_RESERVED) then st
  else
    match st.decrement f with
    | (0, st) => st.freeFrames f order
    | (_, st) => st

/-- The guard of the drop loop: the record says that this is not a live page. -/
def dropSkips (st : FrameStore) (f : Frame) : Bool :=
  (st.record f).any (fun pf => pf.hasFlag PF_RESERVED || (pf.isFree || pf.hasFlag PF_PAGETABLE))

/-- What the drop loop does with an entry: entries of swapped-out pages and tables keep no frame of their
    own, pages and huge pages are released. -/
def dropSlot (t : Tables) (st : FrameStore) (s : Slot) : FrameStore :=
  let entry := t s
  match s with
  | .pml4 _ => st
  | .pdpt _ _ => if entry.isHuge then releaseHuge st (frameOf entry) 18 else st
  | .pd _ _ _ => if entry.isHuge then releaseHuge st (frameOf entry) 9 else st
  | .pt _ _ _ _ =>
    if !entry.isPresent then st
    else if dropSkips st (frameOf entry) then st
    else releaseFrame st (frameOf entry)

/-- Return the frame of a table, unless it is reserved or belongs to the kernel. -/
def freeTable (st : FrameStore) (f : Frame) : FrameStore :=
  if (st.record f).any (fun pf => pf.hasFlag PF_RESERVED || pf.hasFlag PF_KERNEL) then st else st.freeFrame f

/-- The frames `drop` returns after the walk: the tables it came across, each once, the PML4, and recorded
    frames that are neither. The source sorts the first of them; their order does not matter. -/
def dropTables (u : UserAddressSpace) : List Frame :=
  let walked := u.tables.tableFrames.dedup
  (walked ++ u.pml4Phys :: u.allocatedFrames.filter (fun f => f ≠ u.pml4Phys ∧ f ∉ walked)).filter (fun f => f ≠ 0)

/-- `Drop for UserAddressSpace`; an address space without a PML4 is an empty husk. -/
def drop (u : UserAddressSpace) (st : FrameStore) : FrameStore :=
  if u.pml4Phys = 0 then st
  else u.dropTables.foldl freeTable (u.tables.visits.foldl (dropSlot u.tables) st)

end UserAddressSpace
end OxideOs.Vm

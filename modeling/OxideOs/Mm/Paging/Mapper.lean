import OxideOs.Lib.Radix
import OxideOs.Mm.Paging.Entry

/-!
# `Mm.Paging.Mapper` — mapping pages through four levels of tables

`PageMapper` walks the tables of an address space in physical memory: PML4, PDPT, PD, PT. Memory is the
contents of the tables by physical address (the direct map adds a constant). `map` creates missing tables on
its way down, with frames from a frame allocator; the allocator is the list of the answers it will give, and
an exhausted list answers `None`.
-/

namespace OxideOs.Paging

open PageTableFlags Radix PageTableEntry

/-! ## Levels -/

abbrev ENTRIES_PER_TABLE : Nat := 512

inductive PageLevel where
  | pml4
  | pdpt
  | pd
  | pt
  deriving DecidableEq, Repr

namespace PageLevel

/-- The level's number. -/
def number : PageLevel → Nat
  | pml4 => 4
  | pdpt => 3
  | pd => 2
  | pt => 1

/-- The index into this level's table for an address. -/
def index (level : PageLevel) (addr : VirtAddr) : Fin ENTRIES_PER_TABLE :=
  ⟨((addr >>> (12 + (level.number - 1) * 9)) &&& 0x1FF#64).toNat, by
    rw [BitVec.toNat_and]
    exact Nat.lt_of_le_of_lt Nat.and_le_right (by decide)⟩

end PageLevel

/-! ## Memory and tables -/

/-- A page table. -/
abbrev PageTable := Fin ENTRIES_PER_TABLE → PageTableEntry

/-- The page tables in physical memory. -/
abbrev PhysMem := PhysAddr → PageTable

/-- A table with nothing in it. -/
def PageTable.cleared : PageTable := fun _ => empty

inductive MapError where
  | alreadyMapped
  | frameAllocationFailed
  | parentIsHugePage
  deriving DecidableEq, Repr

/-- The mapper: the address of its PML4, memory, and the frame allocator's future answers. -/
structure PageMapper where
  pml4Phys : PhysAddr
  mem : PhysMem
  frames : List (Option PhysAddr)

/-- The table an entry leads to, if it is present and not a huge page. -/
def childTable (entry : PageTableEntry) : Option PhysAddr :=
  if entry.isPresent && !entry.isHuge then some entry.addr else none

/-- The flags of entries that lead to tables. -/
def TABLE_FLAGS : PageTableFlags := PRESENT ||| WRITABLE ||| USER

namespace PageMapper

/-- `alloc_frame`: the next answer. -/
def allocFrame (m : PageMapper) : Option PhysAddr × PageMapper :=
  (m.frames.head?.join, { m with frames := m.frames.tail })

/-- The child table in a slot. -/
def getTable (m : PageMapper) (parentPhys : PhysAddr) (index : Fin ENTRIES_PER_TABLE) : Option PhysAddr :=
  childTable (m.mem parentPhys index)

/-- The child table in a slot; a new one when the slot is empty. -/
def getOrCreateTable (m : PageMapper) (parentPhys : PhysAddr) (index : Fin ENTRIES_PER_TABLE) :
    Except MapError PhysAddr × PageMapper :=
  let entry := m.mem parentPhys index
  if entry.isPresent then
    if entry.isHuge then (.error .parentIsHugePage, m) else (.ok entry.addr, m)
  else
    match m.allocFrame with
    | (none, m) => (.error .frameAllocationFailed, m)
    | (some newTable, m) =>
      (.ok newTable,
        { m with
          mem := grow m.mem parentPhys index (set newTable TABLE_FLAGS) newTable
            PageTable.cleared })

/-- The part of `map` below the walk: fill the slot in the page table. -/
def fillSlot (m : PageMapper) (pt : PhysAddr) (virt : VirtAddr) (phys : PhysAddr) (flags : PageTableFlags) :
    Except MapError Unit × PageMapper :=
  if (m.mem pt (PageLevel.pt.index virt)).isPresent then (.error .alreadyMapped, m)
  else
    (.ok (), { m with
      mem := write m.mem pt (PageLevel.pt.index virt) (set phys (flags ||| PRESENT)) })

/-- Map a virtual address to a physical frame. -/
def map (m : PageMapper) (virt : VirtAddr) (phys : PhysAddr) (flags : PageTableFlags) :
    Except MapError Unit × PageMapper :=
  match m.getOrCreateTable m.pml4Phys (PageLevel.pml4.index virt) with
  | (.error e, m) => (.error e, m)
  | (.ok pdpt, m) =>
    match m.getOrCreateTable pdpt (PageLevel.pdpt.index virt) with
    | (.error e, m) => (.error e, m)
    | (.ok pd, m) =>
      match m.getOrCreateTable pd (PageLevel.pd.index virt) with
      | (.error e, m) => (.error e, m)
      | (.ok pt, m) => m.fillSlot pt virt phys flags

/-- The walk that `update_flags`, `remove_flags`, `set_page_flags` and `unmap` share. -/
def walk (m : PageMapper) (virt : VirtAddr) : Option PhysAddr := do
  let pdpt ← m.getTable m.pml4Phys (PageLevel.pml4.index virt)
  let pd ← m.getTable pdpt (PageLevel.pdpt.index virt)
  m.getTable pd (PageLevel.pd.index virt)

/-- Change a present leaf entry; false when the page is not mapped. -/
def changeEntry (m : PageMapper) (virt : VirtAddr) (change : PageTableEntry → PageTableEntry) :
    Bool × PageMapper :=
  match m.walk virt with
  | none => (false, m)
  | some pt =>
    let entry := m.mem pt (PageLevel.pt.index virt)
    if entry.isPresent then
      (true, { m with mem := write m.mem pt (PageLevel.pt.index virt) (change entry) })
    else (false, m)

/-- Add flags to a mapped page. -/
def updateFlags (m : PageMapper) (virt : VirtAddr) (flags : PageTableFlags) : Bool × PageMapper :=
  m.changeEntry virt (fun entry => entry.addFlags flags)

/-- Remove flags from a mapped page. -/
def removeFlags (m : PageMapper) (virt : VirtAddr) (flags : PageTableFlags) : Bool × PageMapper :=
  m.changeEntry virt (fun entry => entry.removeFlags flags)

/-- Unmap a page: the frame it was mapped to. -/
def unmap (m : PageMapper) (virt : VirtAddr) : Option PhysAddr × PageMapper :=
  match m.walk virt with
  | none => (none, m)
  | some pt =>
    let entry := m.mem pt (PageLevel.pt.index virt)
    if entry.isPresent then
      (some entry.addr, { m with mem := write m.mem pt (PageLevel.pt.index virt) empty })
    else (none, m)

/-- Translate a virtual address, through huge pages where the tables have them. -/
def translate (m : PageMapper) (virt : VirtAddr) : Option PhysAddr := do
  let pdpt ← m.getTable m.pml4Phys (PageLevel.pml4.index virt)
  let pdptEntry := m.mem pdpt (PageLevel.pdpt.index virt)
  if !pdptEntry.isPresent then none
  else if pdptEntry.isHuge then some (pdptEntry.addr + (virt &&& 0x3FFFFFFF#64))
  else
    let pdEntry := m.mem pdptEntry.addr (PageLevel.pd.index virt)
    if !pdEntry.isPresent then none
    else if pdEntry.isHuge then some (pdEntry.addr + (virt &&& 0x1FFFFF#64))
    else
      let entry := m.mem pdEntry.addr (PageLevel.pt.index virt)
      if !entry.isPresent then none
      else some (entry.addr + (virt &&& 0xFFF#64))

end PageMapper
end OxideOs.Paging

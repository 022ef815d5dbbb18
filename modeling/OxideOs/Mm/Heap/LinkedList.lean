import OxideOs.Lib.Segment
import OxideOs.Lib.Word

/-!
# `Mm.Heap.LinkedList` — the kernel's linked-list heap

The free blocks of the heap form a list in address order. `allocate` takes the first block that fits and
leaves what remains of it in place; `deallocate` puts the block back by address and merges neighbours. When
nothing fits, a callback may hand over another region, and the search is repeated once.

A free block is its address and size: the chain of `FreeBlock` headers is the list of these. Arithmetic that
overflows stops the machine (`none`), as does the `expect` of `sizeAlign`. A null pointer is an inner `none`.
-/

namespace OxideOs.Heap

open Word

/-! ## Layouts -/

/-- The largest `isize`. -/
def ISIZE_MAX : Nat := 2 ^ 63 - 1

/-- A requested size and alignment: the alignment is a power of two, and the size rounded up to it fits an
    `isize`. -/
structure Layout where
  size : Nat
  align : Nat
  isPowerOfTwo : align = 2 ^ align.log2
  fits : size + (align - 1) ≤ ISIZE_MAX
  deriving DecidableEq, Repr

theorem eight_powerOfTwo : 8 = 2 ^ Nat.log2 8 := by decide

theorem small_fits {size align : Nat} (hs : size ≤ 256) (ha : align ≤ 16) : size + (align - 1) ≤ ISIZE_MAX := by
  unfold ISIZE_MAX
  omega

/-- The size rounded up to a multiple of the alignment. -/
def padTo (size align : Nat) : Nat := align * ((size + align - 1) / align)

/-! ## Blocks -/

/-- A free block: where its header lies, and how many bytes it spans. -/
abbrev FreeBlock := Segment

/-- The bytes of a `FreeBlock` header, and its alignment. -/
def FREE_BLOCK_SIZE : Nat := 16

def FREE_BLOCK_ALIGN : Nat := 8

/-- The address behind a block. -/
def endAddr (block : FreeBlock) : Option Nat := add64 block.start block.size

/-- An address rounded up to `align`. -/
def alignUp (addr align : Nat) : Option Nat :=
  (add64 addr align).map (fun sum => (sum - 1) &&& (2 ^ 64 - 1 - (align - 1)))

/-- The size and alignment the allocator works with. -/
def sizeAlign (layout : Layout) : Option (Nat × Nat) :=
  let align := max layout.align FREE_BLOCK_ALIGN
  if layout.size + (align - 1) ≤ ISIZE_MAX then
    some (max (padTo layout.size align) FREE_BLOCK_SIZE, align)
  else none

/-! ## The free list -/

/-- The inner loop of `merge_adjacent_blocks`, standing at `block`. -/
def mergeFrom (block : FreeBlock) : List FreeBlock → Option (List FreeBlock)
  | [] => (endAddr block).map (fun _ => [block])
  | next :: rest => do
      let blockEnd ← endAddr block
      if blockEnd = next.start then
        -- absorb the next block and look again from the same place
        let size ← add64 block.size next.size
        mergeFrom ⟨block.start, size⟩ rest
      else
        (mergeFrom next rest).map (fun l => block :: l)

/-- Join free blocks that touch. -/
def mergeAdjacentBlocks : List FreeBlock → Option (List FreeBlock)
  | [] => some []
  | block :: rest => mergeFrom block rest

/-- Link a block in behind all blocks with a lower address. -/
def insertByAddr (new : FreeBlock) : List FreeBlock → List FreeBlock
  | [] => [new]
  | block :: rest => if block.start < new.start then block :: insertByAddr new rest else new :: block :: rest

/-- Add a region to the free list: trimmed to the header's alignment, dropped when no header fits. -/
def addFreeRegion (blocks : List FreeBlock) (addr size : Nat) : Option (List FreeBlock) := do
  let alignedAddr ← alignUp addr FREE_BLOCK_ALIGN
  let alignmentLoss := alignedAddr - addr
  if size ≤ alignmentLoss then
    some blocks
  else
    let alignedSize := size - alignmentLoss
    if alignedSize < FREE_BLOCK_SIZE then
      some blocks
    else
      mergeAdjacentBlocks (insertByAddr ⟨alignedAddr, alignedSize⟩ blocks)

/-- Where in `block` an allocation would lie, if the block can hold it with remainders that are empty or
    large enough for a header. -/
def allocFromBlock (block : FreeBlock) (size align : Nat) : Option (Option (Nat × Nat)) := do
  let allocStart ← alignUp block.start align
  let allocEnd := allocStart + size
  -- `checked_add`: no fit, and no overflow
  if 2 ^ 64 ≤ allocEnd then some none
  else
    let blockEnd ← endAddr block
    if blockEnd < allocEnd then some none
    else
      let frontSize := allocStart - block.start
      let backSize := blockEnd - allocEnd
      if 0 < frontSize ∧ frontSize < FREE_BLOCK_SIZE then some none
      else if 0 < backSize ∧ backSize < FREE_BLOCK_SIZE then some none
      else some (some (allocStart, allocEnd))

/-- What remains of `block` around `[allocStart, allocEnd)`. -/
def remainders (block : FreeBlock) (blockEnd allocStart allocEnd : Nat) : List FreeBlock :=
  let frontSize := allocStart - block.start
  let backSize := blockEnd - allocEnd
  (if FREE_BLOCK_SIZE ≤ frontSize then [⟨block.start, frontSize⟩] else []) ++
    (if FREE_BLOCK_SIZE ≤ backSize then [⟨allocEnd, backSize⟩] else [])

/-- The search loop of `allocate`, which the source writes out twice: the first block that fits is replaced
    by its remainders. -/
def firstFit (size align : Nat) : List FreeBlock → Option (Option (Nat × Nat × List FreeBlock))
  | [] => some none
  | block :: rest => do
      match ← allocFromBlock block size align with
      | some (allocStart, allocEnd) =>
        let blockEnd ← endAddr block
        some (some (allocStart, allocEnd, remainders block blockEnd allocStart allocEnd ++ rest))
      | none =>
        let found ← firstFit size align rest
        some (found.map (fun r => (r.1, r.2.1, block :: r.2.2)))

/-! ## The allocator -/

/-- The allocator's state. Of the grow callback only whether it is set is state; its answers come from the
    page allocator. -/
structure LinkedListAllocator where
  blocks : List FreeBlock
  totalSize : Nat
  usedSize : Nat
  growCallback : Bool
  deriving DecidableEq, Repr

namespace LinkedListAllocator

/-- An allocator without memory. -/
def empty : LinkedListAllocator := ⟨[], 0, 0, false⟩

/-- Install the grow callback. -/
def setGrowCallback (h : LinkedListAllocator) : LinkedListAllocator := { h with growCallback := true }

/-- Hand over the first region. -/
def init (h : LinkedListAllocator) (heapStart heapSize : Nat) : Option LinkedListAllocator :=
  (addFreeRegion h.blocks heapStart heapSize).map
    (fun blocks => { h with blocks := blocks, totalSize := heapSize, usedSize := 0 })

/-- Answers of the page allocator to a request for at least so many bytes. -/
abbrev GrowCallbackFn := Nat → Option Segment

/-- What the callback is asked for: room for the allocation, at least 16 KiB. -/
def growMin (size : Nat) : Nat := max size (4096 * 4)

/-- The tail of both search loops: book the bytes taken. -/
def take (h : LinkedListAllocator) (allocStart allocEnd : Nat) (blocks : List FreeBlock) :
    Option (Option Nat × LinkedListAllocator) :=
  (add64 h.usedSize (allocEnd - allocStart)).map
    (fun used => (some allocStart, { h with blocks := blocks, usedSize := used }))

/-- The allocator after a region was added. -/
def grow (h : LinkedListAllocator) (region : Segment) : Option LinkedListAllocator := do
  let blocks ← addFreeRegion h.blocks region.start region.size
  let total ← add64 h.totalSize region.size
  some { h with blocks := blocks, totalSize := total }

/-- Allocate: first fit, else grow once and search again. -/
def allocate (h : LinkedListAllocator) (growFn : GrowCallbackFn) (layout : Layout) :
    Option (Option Nat × LinkedListAllocator) := do
  let (size, align) ← sizeAlign layout
  match ← firstFit size align h.blocks with
  | some (allocStart, allocEnd, blocks) => h.take allocStart allocEnd blocks
  | none =>
    if h.growCallback then
      match growFn (growMin size) with
      | some region =>
        let h ← h.grow region
        match ← firstFit size align h.blocks with
        | some (allocStart, allocEnd, blocks) => h.take allocStart allocEnd blocks
        | none => some (none, h)
      | none => some (none, h)
    else some (none, h)

/-- Give a block back. -/
def deallocate (h : LinkedListAllocator) (ptr : Nat) (layout : Layout) : Option LinkedListAllocator := do
  let (size, _) ← sizeAlign layout
  let blocks ← addFreeRegion h.blocks ptr size
  some { h with blocks := blocks, usedSize := h.usedSize - size }

end LinkedListAllocator
end OxideOs.Heap

import OxideOs.Mm.Heap.KernelHeap

/-!
# `Mm.Slab.Model` — per-CPU slab caches in front of the kernel heap

Small requests are served from per-CPU free lists, one for each size class, refilled by cutting up a page. What
the slab cannot serve, and everything before `slab_init`, goes to the fallback heap. On the way back a pointer
belongs to the slab when it lies outside the static heap range.

A free list is the chain of its nodes. It holds at most 513 of them, so its `u32` count cannot overflow; the
structure carries that the count is the length. The page allocator's answers and the number of the running CPU
are arguments.
-/

namespace OxideOs.Slab

open Heap Heap.LinkedListAllocator Function

def MAX_CPUS : Nat := 256

def PAGE_SIZE : Nat := 4096

/-- A size class. -/
abbrev SizeClass := Fin 8

def SIZE_CLASSES : SizeClass → Nat := ![16, 32, 64, 128, 256, 512, 1024, 2048]

/-- How many objects a free list may hold before half of it is drained. -/
def MAX_CACHED : SizeClass → Nat := ![512, 256, 128, 64, 32, 16, 8, 4]

/-- The class of a size; none above 2048. -/
def sizeClass (size : Nat) : Option SizeClass :=
  if size ≤ 16 then some 0
  else if size ≤ 32 then some 1
  else if size ≤ 64 then some 2
  else if size ≤ 128 then some 3
  else if size ≤ 256 then some 4
  else if size ≤ 512 then some 5
  else if size ≤ 1024 then some 6
  else if size ≤ 2048 then some 7
  else none

/-! ## Free lists -/

/-- The free objects of one class on one CPU. -/
structure FreeList where
  nodes : List Nat
  count : Nat
  counted : count = nodes.length

namespace FreeList

def empty : FreeList := ⟨[], 0, rfl⟩

/-- Take the first object. -/
def pop (fl : FreeList) : Option (Nat × FreeList) :=
  match h : fl.nodes with
  | [] => none
  | node :: next => some (node, ⟨next, fl.count - 1, by rw [fl.counted, h]; rfl⟩)

/-- Put an object in front. -/
def push (fl : FreeList) (ptr : Nat) : FreeList := ⟨ptr :: fl.nodes, fl.count + 1, by rw [fl.counted]; rfl⟩

/-- Cut off the first half of the list. The objects cut off are not used again. -/
def drainHalf (fl : FreeList) : FreeList :=
  ⟨fl.nodes.drop (fl.count / 2), fl.count - fl.count / 2, by rw [List.length_drop, fl.counted]⟩

end FreeList

/-! ## The slab -/

/-- The free lists by CPU and class. -/
abbrev Caches := Nat × SizeClass → FreeList

/-- What decides the class of a request. -/
def classSizeOf (layout : Layout) : Nat := max layout.size layout.align

/-- Cut a page into `n` objects: the first one is the result, the others go onto the list. -/
def carve (page objSize n : Nat) (fl : FreeList) : Option Nat × FreeList :=
  (List.range n).foldl
    (fun acc i =>
      let obj := page + i * objSize
      match acc.1 with
      | none => (some obj, acc.2)
      | some r => (some r, acc.2.push obj))
    (none, fl)

/-- `slab_alloc_fast`, on CPU `cpu`, with `page` the answer of the page allocator. -/
def slabAllocFast (caches : Caches) (cpu : Option Nat) (page : Option Nat) (layout : Layout) :
    Option (Nat × Caches) := do
  let cls ← sizeClass (classSizeOf layout)
  let cpu := cpu.getD 0
  if MAX_CPUS ≤ cpu then none
  else
    let fl := caches (cpu, cls)
    match fl.pop with
    | some (ptr, fl) => some (ptr, update caches (cpu, cls) fl)
    | none =>
      let page ← page
      let objSize := SIZE_CLASSES cls
      let r := carve page objSize (PAGE_SIZE / objSize) fl
      r.1.map (fun ptr => (ptr, update caches (cpu, cls) r.2))

/-- `slab_dealloc_fast`. -/
def slabDeallocFast (caches : Caches) (cpu : Option Nat) (ptr : Nat) (layout : Layout) : Caches :=
  match sizeClass (classSizeOf layout) with
  | none => caches
  | some cls =>
    let cpu := cpu.getD 0
    if MAX_CPUS ≤ cpu then caches
    else
      let fl := (caches (cpu, cls)).push ptr
      update caches (cpu, cls) (if MAX_CACHED cls < fl.count then fl.drainHalf else fl)

/-! ## The allocator -/

/-- The global allocator: the fallback heap, the caches, and the statics `SLAB_READY`, `HEAP_START` and
    `HEAP_END`. -/
structure SlabAllocator where
  fallback : KernelHeap
  caches : Caches
  slabReady : Bool
  heapStart : Nat
  heapEnd : Nat

namespace SlabAllocator

/-- A new allocator over memory with the given headers in it. -/
def new (hardening : Bool) (headers : Nat → Option AllocHeader) : SlabAllocator :=
  ⟨KernelHeap.new hardening headers, fun _ => FreeList.empty, false, 0, 0⟩

/-- Initialise the fallback heap. -/
def init (s : SlabAllocator) (heapStart heapSize : Nat) : Option SlabAllocator :=
  (s.fallback.init heapStart heapSize).map (fun h => { s with fallback := h })

def setGrowCallback (s : SlabAllocator) : SlabAllocator := { s with fallback := s.fallback.setGrowCallback }

/-- Record the static heap range. -/
def setHeapRange (s : SlabAllocator) (start size : Nat) : Option SlabAllocator :=
  (Word.add64 start size).map (fun stop => { s with heapStart := start, heapEnd := stop })

/-- Switch the slab on. -/
def slabInit (s : SlabAllocator) : SlabAllocator := { s with slabReady := true }

/-- Does the pointer lie outside the static heap? -/
def isSlabPointer (s : SlabAllocator) (ptr : Nat) : Bool :=
  if s.heapStart = 0 then false else decide (ptr < s.heapStart ∨ s.heapEnd ≤ ptr)

/-- What the slab fast path yields for a request, if the request takes it. -/
def slabPath (s : SlabAllocator) (cpu page : Option Nat) (layout : Layout) : Option (Nat × Caches) :=
  if classSizeOf layout ≤ 2048 ∧ s.slabReady = true then slabAllocFast s.caches cpu page layout else none

/-- `GlobalAlloc::alloc`. -/
def alloc (s : SlabAllocator) (cpu page : Option Nat) (growFn : GrowCallbackFn) (layout : Layout) :
    Option (Option Nat × SlabAllocator) :=
  match s.slabPath cpu page layout with
  | some (ptr, caches) => some (some ptr, { s with caches := caches })
  | none => (s.fallback.alloc growFn layout).map (fun r => (r.1, { s with fallback := r.2 }))

/-- Does `dealloc` hand the pointer to the slab? -/
def toSlab (s : SlabAllocator) (ptr : Nat) (layout : Layout) : Bool :=
  decide (classSizeOf layout ≤ 2048) && s.slabReady && s.isSlabPointer ptr

/-- `GlobalAlloc::dealloc`. -/
def dealloc (s : SlabAllocator) (cpu : Option Nat) (ptr : Nat) (layout : Layout) : Option SlabAllocator :=
  if s.toSlab ptr layout then
    some { s with caches := slabDeallocFast s.caches cpu ptr layout }
  else
    (s.fallback.dealloc ptr layout).map (fun h => { s with fallback := h })

end SlabAllocator
end OxideOs.Slab

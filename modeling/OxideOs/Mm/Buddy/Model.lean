import OxideOs.Mm.Pagedb

/-!
# `Mm.Buddy.Model` — the buddy allocator (`mm-core`)

`BuddyAllocator` keeps, for each zone and each order, a doubly linked list of free blocks whose nodes live in
the first bytes of the free blocks themselves. The model follows `buddy.rs` function by function.

* Addresses are byte addresses and values of machine words are `Nat`s; a shift that can lose bits (`<< 12` on
  a frame number read from memory) reduces modulo `2 ^ 64`.
* Physical memory is seen through the headers only: `mem f` is what a `FreeBlock` read at the start of frame
  `f` yields, whoever wrote it.
* A store the source makes on purpose to fault (`0xBADBAD`, `0xDEADBEEF`) and a panicking addition stop the
  machine: the result is `none`.
* Log output, the vmstat counters, the watermark callback and the per-zone statistics are written and never
  read back by the allocator; they are left out.
-/

namespace OxideOs.Buddy

open Function Pagedb

abbrev MAX_ORDER : Nat := 10

def FREE_BLOCK_MAGIC : Nat := 0x4652454542304C
def FREE_BLOCK_ORDER_INVALID : Nat := 0xFF

/-- `FreeBlock`: the header at the start of a free block. -/
structure FreeBlock where
  magic : Nat
  next : Nat
  prev : Nat
  order : Nat
  deriving DecidableEq, Repr

namespace FreeBlock

/-- What a block leaves behind when it is taken off its list. -/
def cleared : FreeBlock := { magic := 0, next := 0, prev := 0, order := FREE_BLOCK_ORDER_INVALID }

def withNext (b : FreeBlock) (next : Nat) : FreeBlock := { b with next }
def withPrev (b : FreeBlock) (prev : Nat) : FreeBlock := { b with prev }

/-- The header passes the canary check for a list of this order. -/
def valid (b : FreeBlock) (order : Nat) : Bool := b.magic == FREE_BLOCK_MAGIC && b.order == order

end FreeBlock

/-- `ZoneType`. -/
inductive ZoneType where
  | dma | normal | high
  deriving DecidableEq, Repr

namespace ZoneType

def DMA_ZONE_END : Nat := 16 * 1024 * 1024
def NORMAL_ZONE_END : Nat := 4 * 1024 * 1024 * 1024

/-- `for_address`. -/
def forAddress (addr : Nat) : ZoneType :=
  if addr < DMA_ZONE_END then dma else if addr < NORMAL_ZONE_END then normal else high

def start : ZoneType → Nat
  | dma => 0
  | normal => DMA_ZONE_END
  | high => NORMAL_ZONE_END

/-- `end`. -/
def stop : ZoneType → Nat
  | dma => DMA_ZONE_END
  | normal => NORMAL_ZONE_END
  | high => 2 ^ 64 - 1

end ZoneType

/-- `FreeListHead`. -/
structure FreeListHead where
  head : Nat
  count : Nat
  deriving DecidableEq, Repr

/-- `MemoryZone`. -/
structure MemoryZone where
  base : Nat
  size : Nat
  freeLists : Nat → FreeListHead

namespace MemoryZone

def new : MemoryZone := { base := 0, size := 0, freeLists := fun _ => { head := 0, count := 0 } }

def isEmpty (z : MemoryZone) : Bool := z.size == 0

/-- `init`. -/
def init (z : MemoryZone) (base size : Nat) : MemoryZone := { z with base, size }

/-- `total_free_pages`. -/
def totalFreePages (z : MemoryZone) : Nat :=
  ((List.range (MAX_ORDER + 1)).map (fun order => (z.freeLists order).count * 2 ^ order)).sum

end MemoryZone

/-- `block_in_zone`: both ends are computed with `checked_add`. -/
def blockInZone (z : MemoryZone) (addr order : Nat) : Bool :=
  let size := 4096 * 2 ^ order
  decide (z.base + z.size < 2 ^ 64) && decide (addr + size < 2 ^ 64) &&
    (decide (z.base ≤ addr) && decide (addr + size ≤ z.base + z.size))

/-- `MemoryStats`. -/
structure MemoryStats where
  totalBytes : Nat := 0
  freeBytes : Nat := 0
  allocCount : Nat := 0
  freeCount : Nat := 0
  allocFailures : Nat := 0
  deriving DecidableEq, Repr

namespace MemoryStats

/-- `fetch_add` on a `u64`. -/
def add64 (a b : Nat) : Nat := (a + b) % 2 ^ 64

/-- `fetch_sub` on a `u64`. -/
def sub64 (a b : Nat) : Nat := (a + (2 ^ 64 - b)) % 2 ^ 64

def recordAlloc (m : MemoryStats) (bytes : Nat) : MemoryStats :=
  { m with freeBytes := sub64 m.freeBytes bytes, allocCount := add64 m.allocCount 1 }

def recordFree (m : MemoryStats) (bytes : Nat) : MemoryStats :=
  { m with freeBytes := add64 m.freeBytes bytes, freeCount := add64 m.freeCount 1 }

def recordFailure (m : MemoryStats) : MemoryStats := { m with allocFailures := add64 m.allocFailures 1 }

end MemoryStats

/-- `MmError`. -/
inductive MmError where
  | outOfMemory | invalidAddress | invalidOrder | zoneNotFound | notAligned | doubleFree
  deriving DecidableEq, Repr

/-- The allocator together with what it reads: physical memory, the page database and the watched frame. -/
structure State where
  zones : ZoneType → MemoryZone
  stats : MemoryStats
  mem : Nat → FreeBlock
  pagedb : Option PageDatabase
  watchedFrame : Nat

namespace State

def list (s : State) (z : ZoneType) (order : Nat) : FreeListHead := (s.zones z).freeLists order

def setList (s : State) (z : ZoneType) (order : Nat) (l : FreeListHead) : State :=
  let zone := { s.zones z with freeLists := update (s.zones z).freeLists order l }
  { s with zones := update s.zones z zone }

/-- The header read at the page that `addr` starts. -/
def header (s : State) (addr : Nat) : FreeBlock := s.mem (addr / 4096)

def setHeader (s : State) (addr : Nat) (b : FreeBlock) : State := { s with mem := update s.mem (addr / 4096) b }

end State

/-- `frame << FRAME_SHIFT` on a `u64`. -/
def shlFrame (frame : Nat) : Nat := 4096 * frame % 2 ^ 64

/-- The test of the duplicate and double-free guards: the bytes at the start of the frame look like the
    header of a linked block. -/
def looksLinked (s : State) (z : ZoneType) (addr : Nat) : Bool :=
  let b := s.header addr
  b.magic == FREE_BLOCK_MAGIC && (decide (b.order ≤ MAX_ORDER) &&
    ((s.list z b.order).head == addr / 4096 || b.next != 0 || b.prev != 0))

/-- `add_free_block`. -/
def addFreeBlock (s : State) (z : ZoneType) (order addr : Nat) : Option (Bool × State) :=
  if addr = 0 ∨ blockInZone (s.zones z) addr order = false then some (false, s)
  else if addr / 4096 = 0 then some (false, s)
  else if looksLinked s z addr then some (false, s)
  else
    let old := s.list z order
    let frame := addr / 4096
    let s₁ := s.setHeader addr { magic := FREE_BLOCK_MAGIC, next := old.head, prev := 0, order }
    let added := fun s : State => s.setList z order { head := frame, count := old.count + 1 }
    if old.head = 0 then some (true, added s₁)
    else
      let headAddr := shlFrame old.head
      let h := s₁.header headAddr
      if h.valid order then some (true, added (s₁.setHeader headAddr (h.withPrev frame)))
      else none

/-- The corrupted-head branch of `pop_free_block`: promote the next block if it passes the canary check,
    else sever the chain. -/
def salvage (s : State) (z : ZoneType) (order : Nat) (block : FreeBlock) : State :=
  let candidate := shlFrame block.next
  if block.next ≠ 0 ∧ blockInZone (s.zones z) candidate order = true ∧
      (s.header candidate).valid order = true then
    (s.setHeader candidate ((s.header candidate).withPrev 0)).setList z order
      { head := block.next, count := (s.list z order).count - 1 }
  else s.setList z order { head := 0, count := 0 }

/-- The head update of `pop_free_block`, with the value `initial_count` has afterwards. -/
def relinkHead (s : State) (z : ZoneType) (order next count : Nat) : State × Nat :=
  let nextAddr := shlFrame next
  if next = 0 then (s.setList z order { head := 0, count }, count)
  else if blockInZone (s.zones z) nextAddr order = false ∨ (s.header nextAddr).valid order = false then
    (s.setList z order { head := 0, count := 1 }, 1)
  else
    ((s.setHeader nextAddr ((s.header nextAddr).withPrev 0)).setList z order { head := next, count }, count)

/-- `pop_free_block`. -/
def popFreeBlock (s : State) (z : ZoneType) (order : Nat) : Option (Option Nat × State) :=
  let fl := s.list z order
  if fl.count = 0 then some (none, s)
  else if fl.head = 0 then some (none, s.setList z order { fl with count := 0 })
  else
    let addr := shlFrame fl.head
    if blockInZone (s.zones z) addr order = false then
      some (none, s.setList z order { head := 0, count := 0 })
    else
      let block := s.header addr
      if block.valid order = false then some (none, salvage s z order block)
      else
        let (s', initial) := relinkHead (s.setHeader addr .cleared) z order block.next fl.count
        let current := (s'.list z order).count
        -- the count is read again; a change in between, or zero, stops the machine
        if current ≠ initial ∨ current = 0 then none
        else some (some addr, s'.setList z order { s'.list z order with count := current - 1 })

/-- The interior branch of `remove_from_free_list`: the block's neighbours are joined. -/
def unlinkInterior (s : State) (z : ZoneType) (order addr : Nat) : Bool × State :=
  let fl := s.list z order
  let t := s.header addr
  let prevAddr := shlFrame t.prev
  let p := s.header prevAddr
  if t.valid order = false ∨ t.prev = 0 then (false, s)
  else if p.valid order = false ∨ p.next ≠ addr / 4096 then (false, s)
  else
    let s₁ := s.setHeader prevAddr (p.withNext t.next)
    let removed := fun s : State => (s.setHeader addr .cleared).setList z order { fl with count := fl.count - 1 }
    if t.next = 0 then (true, removed s₁)
    else
      let nextAddr := shlFrame t.next
      let n := s₁.header nextAddr
      -- the predecessor is already rewritten when the successor turns out corrupt
      if n.valid order = false then (false, s₁)
      else (true, removed (s₁.setHeader nextAddr (n.withPrev t.prev)))

/-- `remove_from_free_list`. -/
def removeFromFreeList (s : State) (z : ZoneType) (order addr : Nat) : Option (Bool × State) :=
  if addr = 0 ∨ blockInZone (s.zones z) addr order = false then some (false, s)
  else if addr / 4096 = 0 ∨ (s.list z order).count = 0 then some (false, s)
  else if (s.list z order).head = addr / 4096 then
    (popFreeBlock s z order).map (fun r => (r.1 == some addr, r.2))
  else some (unlinkInterior s z order addr)

/-- The page database, where there is one, has every frame of the block as free. -/
def State.framesFree (s : State) (addr order : Nat) : Bool :=
  match s.pagedb with
  | some db => db.allFree addr (2 ^ order)
  | none => true

/-- The split loop of `alloc_from_zone`: `n` halvings down to `order`, upper halves go back to the lists. -/
def splitBlock (z : ZoneType) (addr order : Nat) : Nat → State → Option State
  | 0, s => some s
  | n + 1, s => do
      let (_, s) ← addFreeBlock s z (order + n) (addr + 4096 * 2 ^ (order + n))
      splitBlock z addr order n s

/-- The rounds of `alloc_from_zone` at one order. A stale block is dropped and the order tried again; every
    successful pop lowers the count, so the count bounds the number of rounds. -/
def allocAtOrder (z : ZoneType) (order cur : Nat) : Nat → State → Option (Option Nat × State)
  | 0, s => some (none, s)
  | fuel + 1, s =>
    if (s.list z cur).count = 0 then some (none, s)
    else do
      let (r, s) ← popFreeBlock s z cur
      match r with
      | none => some (none, s)
      | some addr =>
        if s.framesFree addr cur then do
          let s ← splitBlock z addr order (cur - order) s
          some (some addr, s)
        else allocAtOrder z order cur fuel s

/-- The outer loop of `alloc_from_zone`, over the orders still to try. -/
def allocFromOrders (z : ZoneType) (order : Nat) : List Nat → State → Option (Option Nat × State)
  | [], s => some (none, s)
  | cur :: orders, s => do
      let (r, s) ← allocAtOrder z order cur (s.list z cur).count s
      match r with
      | some addr => some (some addr, s)
      | none => allocFromOrders z order orders s

/-- `alloc_from_zone`. -/
def allocFromZone (s : State) (z : ZoneType) (order : Nat) : Option (Option Nat × State) :=
  allocFromOrders z order (List.range' order (MAX_ORDER + 1 - order)) s

/-- `AllocRequest`; its flags are not read. -/
structure AllocRequest where
  order : Nat
  zone : Option ZoneType
  deriving DecidableEq, Repr

/-- The fallback order of the zones. -/
def zoneOrder : Option ZoneType → List ZoneType
  | some .dma => [.dma, .normal, .high]
  | some .normal => [.normal, .high, .dma]
  | some .high => [.high, .normal, .dma]
  | none => [.normal, .high, .dma]

/-- The bookkeeping of a successful allocation: statistics and page database. -/
def State.recordAlloc (s : State) (addr order : Nat) : State :=
  { s with
    stats := s.stats.recordAlloc (4096 * 2 ^ order)
    pagedb := s.pagedb.map (fun db =>
      PageDatabase.markRange (fun db phys => db.markAllocated phys 0) db addr (2 ^ order)) }

/-- The zone loop of `alloc`. -/
def allocInZones (order : Nat) : List ZoneType → State → Option (Except MmError Nat × State)
  | [], s => some (.error .outOfMemory, { s with stats := s.stats.recordFailure })
  | z :: zs, s =>
    if (s.zones z).isEmpty then allocInZones order zs s
    else do
      let (r, s) ← allocFromZone s z order
      match r with
      | some addr => some (.ok addr, s.recordAlloc addr order)
      | none => allocInZones order zs s

/-- `alloc`. -/
def alloc (s : State) (request : AllocRequest) : Option (Except MmError Nat × State) :=
  if MAX_ORDER < request.order then some (.error .invalidOrder, s)
  else allocInZones request.order (zoneOrder request.zone) s

/-- The coalescing loop of `free_to_zone`, with the number of orders left below `MAX_ORDER`. -/
def coalesce (z : ZoneType) : Nat → State → Nat → Nat → Option (Nat × Nat × State)
  | 0, s, addr, order => some (addr, order, s)
  | n + 1, s, addr, order =>
    let buddyAddr := shlFrame (addr / 4096 ^^^ 2 ^ order)
    if buddyAddr < (s.zones z).base ∨ (s.zones z).base + (s.zones z).size ≤ buddyAddr then
      some (addr, order, s)
    else if s.framesFree buddyAddr order = false then some (addr, order, s)
    else do
      let (removed, s) ← removeFromFreeList s z order buddyAddr
      if removed then coalesce z n s (min addr buddyAddr) (order + 1)
      else some (addr, order, s)

/-- `free_to_zone`. -/
def freeToZone (s : State) (z : ZoneType) (addr order : Nat) : Option State :=
  if addr = 0 then some s
  else if looksLinked s z addr then some s
  else do
    let (addr, order, s) ← coalesce z (MAX_ORDER - order) s addr order
    let (_, s) ← addFreeBlock s z order addr
    some s

/-- The watched frame lies in the block being freed. -/
def State.watchdogHit (s : State) (addr order : Nat) : Bool :=
  s.watchedFrame != 0 && (decide (addr ≤ s.watchedFrame) && decide (s.watchedFrame < addr + 4096 * 2 ^ order))

/-- `free` marks every frame of the block in the page database. -/
def State.markFree (s : State) (addr order : Nat) : State :=
  { s with pagedb := s.pagedb.map (fun db => db.markRange PageDatabase.markFree addr (2 ^ order)) }

/-- The page database refuses the free. -/
def State.freeRefused (s : State) (addr : Nat) : Bool :=
  match s.pagedb with
  | some db =>
    match db.validateFree addr with
    | .ok () => false
    | .error _ => true
  | none => false

/-- `free`. -/
def free (s : State) (addr order : Nat) : Option (Except MmError Unit × State) :=
  if MAX_ORDER < order then some (.error .invalidOrder, s)
  else if addr % 4096 ≠ 0 then some (.error .notAligned, s)
  else if s.watchdogHit addr order then some (.ok (), s)
  else if s.freeRefused addr then some (.error .doubleFree, s)
  else
    let z := ZoneType.forAddress addr
    if (s.zones z).isEmpty then some (.error .zoneNotFound, s)
    else do
      let s ← freeToZone (s.markFree addr order) z addr order
      some (.ok (), { s with stats := s.stats.recordFree (4096 * 2 ^ order) })

/-! ## Boot -/

/-- The order search of `add_to_zone`, from the top. -/
def fitOrder (frame remaining : Nat) : Nat → Nat
  | 0 => 0
  | order + 1 =>
    if 4096 * 2 ^ (order + 1) ≤ remaining ∧ frame &&& (2 ^ (order + 1) - 1) = 0 then order + 1
    else fitOrder frame remaining order

/-- The statistics `add_to_zone` keeps for an added block. -/
def State.recordAdded (s : State) (order : Nat) : State :=
  { s with stats := { s.stats with
      freeBytes := MemoryStats.add64 s.stats.freeBytes (4096 * 2 ^ order)
      totalBytes := MemoryStats.add64 s.stats.totalBytes (4096 * 2 ^ order) } }

/-- The block loop of `add_to_zone`; every round takes at least one frame. -/
def addBlocks (z : ZoneType) : Nat → State → Nat → Nat → Option State
  | 0, s, _, _ => some s
  | fuel + 1, s, addr, remaining =>
    if remaining < 4096 then some s
    else do
      let order := fitOrder (addr / 4096) remaining MAX_ORDER
      let blockSize := 4096 * 2 ^ order
      -- the header area is scrubbed before the block is inserted
      let s := s.setHeader addr { magic := 0, next := 0, prev := 0, order := 0 }
      let (added, s) ← addFreeBlock s z order addr
      addBlocks z fuel (if added then s.recordAdded order else s) (addr + blockSize) (remaining - blockSize)

/-- The range update of `add_to_zone`. -/
def MemoryZone.cover (zone : MemoryZone) (start size : Nat) : MemoryZone :=
  if zone.isEmpty then zone.init start size
  else
    let newEnd := max (start + size) (zone.base + zone.size)
    let newBase := min start zone.base
    { zone with base := newBase, size := newEnd - newBase }

/-- `add_to_zone`: frame 0 is never added, it is the null link. -/
def addToZone (s : State) (z : ZoneType) (start size : Nat) : Option State :=
  let s := { s with zones := update s.zones z ((s.zones z).cover start size) }
  if start = 0 ∧ 4096 ≤ size then addBlocks z (size / 4096) s (start + 4096) (size - 4096)
  else addBlocks z (size / 4096) s start size

/-- The loop of `add_region`: each round finishes a zone, and there are three. -/
def addRegion (stop : Nat) : Nat → State → Nat → Option State
  | 0, s, _ => some s
  | fuel + 1, s, current =>
    if current < stop then do
      let z := ZoneType.forAddress current
      let zoneEnd := min z.stop stop
      let s ← if 4096 ≤ zoneEnd - current then addToZone s z current (zoneEnd - current) else some s
      addRegion stop fuel s zoneEnd
    else some s

/-- A region of the boot memory map. -/
structure Region where
  start : Nat
  len : Nat
  usable : Bool
  deriving DecidableEq, Repr

/-- `page_align_up`, `page_align_down`. -/
def pageAlignUp (addr : Nat) : Nat := 4096 * ((addr + 4095) / 4096)
def pageAlignDown (addr : Nat) : Nat := 4096 * (addr / 4096)

/-- One round of `init`; the two additions panic on overflow. -/
def initRegion (s : State) (r : Region) : Option State :=
  if r.usable = false ∨ r.len = 0 then some s
  else if 2 ^ 64 ≤ r.start + 4096 ∨ 2 ^ 64 ≤ r.start + r.len then none
  else
    let start := pageAlignUp r.start
    let stop := pageAlignDown (r.start + r.len)
    if stop ≤ start then some s
    else addRegion stop 3 s start

/-- `init`. -/
def init (s : State) (regions : List Region) : Option State := regions.foldlM initRegion s

end OxideOs.Buddy

import OxideOs.Proc.AddressSpace

/-!
# `Proc.Fork` — cloning an address space, and copy-on-write faults

`clone_address_space_cow` walks the parent's user half once. For every table it meets it allocates one for the
child; every page is shared: in parent and child the entry loses its write permission and is marked COW, and
the frame's reference count goes up. When no frame is left for a table the child's tables are returned, but
what was done to the parent and to the counts stays.

A write to a COW page faults. `handle_cow_fault` makes the page writable in place for the last owner of the
frame, and gives everybody else a copy.
-/

namespace OxideOs.Vm

open Pagedb Paging PageTableFlags Vma PageTableEntry

/-! ## `clone_address_space_cow` -/

inductive ForkError where
  | outOfMemory
  | parentNotFound
  | internal
  deriving DecidableEq, Repr

/-- The state of the walk; `frames` are the frames held by the `FrameGuard`. -/
structure CloneState where
  parent : Tables
  child : Tables
  frames : List Frame
  store : FrameStore

/-- The flags of a shared page: no write permission, COW. -/
def cowFlags (entry : PageTableEntry) : PageTableFlags :=
  if entry.isWritable then entry.flags.difference WRITABLE ||| COW else entry.flags ||| COW

/-- Share a page: both entries get the same flags, and the frame one more reference. -/
def sharePage (c : CloneState) (s : Slot) : Option CloneState :=
  let entry := c.parent s
  let flags := cowFlags entry
  (c.store.increment (frameOf entry)).map (fun store =>
    { c with
      parent := Function.update c.parent s (entry.setFlags flags)
      child := Function.update c.child s (set (frameOf entry).addr flags)
      store })

/-- The flags of the child's entry for a table: those of the parent without `NO_EXECUTE`. -/
def childTableFlags (entry : PageTableEntry) : PageTableFlags :=
  entry.flags.difference NO_EXECUTE ||| PRESENT ||| WRITABLE ||| USER

/-- Allocate the child's table for an entry of the parent. A frame that is the child's own PML4 means that
    the allocator is broken, and ends the fork. -/
def cloneTable (pml4 : Frame) (c : CloneState) (s : Slot) : Except ForkError Unit × CloneState :=
  match c.store.allocFrame with
  | (none, store) => (.error .outOfMemory, { c with store })
  | (some f, store) =>
    let c := { c with frames := c.frames ++ [f], store }
    if f = pml4 then (.error .internal, c)
    else (.ok (), { c with child := c.child.link s f (childTableFlags (c.parent s)) })

/-- One entry of the walk; `none` when a reference count overflows and the machine stops. -/
def cloneSlot (pml4 : Frame) (c : CloneState) (s : Slot) : Option (Except ForkError Unit × CloneState) :=
  match s with
  | .pml4 _ => some (cloneTable pml4 c s)
  | .pt _ _ _ _ => if (c.parent s).isPresent then (sharePage c s).map (fun c => (.ok (), c)) else some (.ok (), c)
  | _ => if (c.parent s).isHuge then (sharePage c s).map (fun c => (.ok (), c)) else some (cloneTable pml4 c s)

/-- The walk over the rest of the slots, up to the first failure. -/
def cloneSlots (pml4 : Frame) : List Slot → CloneState → Option (Except ForkError Unit × CloneState)
  | [], c => some (.ok (), c)
  | s :: slots, c =>
    match cloneSlot pml4 c s with
    | none => none
    | some (.error e, c) => some (.error e, c)
    | some (.ok (), c) => cloneSlots pml4 slots c

/-- `clone_address_space_cow`: the child or the error, the parent and the store. -/
def cloneAddressSpaceCow (parent : UserAddressSpace) (st : FrameStore) :
    Option (Except ForkError UserAddressSpace × UserAddressSpace × FrameStore) :=
  match st.allocFrame with
  | (none, st) => some (.error .outOfMemory, parent, st)
  | (some pml4, st) =>
    let start : CloneState :=
      { parent := parent.tables
        -- the kernel half is copied as it is
        child := fun
          | .pml4 i => if 256 ≤ i.val then parent.tables (.pml4 i) else empty
          | _ => empty
        frames := [pml4]
        store := st }
    match cloneSlots pml4 parent.tables.visits start with
    | none => none
    | some (.error e, c) =>
      -- the guard returns the frames of the child's tables
      some (.error e, { parent with tables := c.parent }, UserAddressSpace.freeAll c.store c.frames)
    | some (.ok (), c) =>
      let child : UserAddressSpace :=
        { pml4Phys := pml4
          tables := c.child
          allocatedFrames := c.frames.filter (fun f => f ≠ pml4)
          vmas := parent.vmas }
      some (.ok child, { parent with tables := c.parent }, c.frames.foldl FrameStore.markPagetable c.store)

/-- `do_fork`, as far as memory goes: a child for which there is no kernel stack is dropped again. -/
def doFork (parent : UserAddressSpace) (st : FrameStore) (kernelStack : Bool) :
    Option (Except ForkError UserAddressSpace × UserAddressSpace × FrameStore) :=
  match cloneAddressSpaceCow parent st with
  | none => none
  | some (.error e, parent, st) => some (.error e, parent, st)
  | some (.ok child, parent, st) =>
    if kernelStack then some (.ok child, parent, st) else some (.error .outOfMemory, parent, child.drop st)

/-! ## `handle_cow_fault` -/

/-- The allocation loop: the frame to be copied is not accepted as the target of its copy. A source frame the
    page database takes for free is marked as allocated again. -/
def allocCopy (oldPhys : Frame) : Nat → FrameStore → Option Frame × FrameStore
  | 0, st => (none, st)
  | attempts + 1, st =>
    match st.allocFrame with
    | (none, st) => (none, st)
    | (some candidate, st) =>
      if candidate ≠ oldPhys then (some candidate, st)
      else
        allocCopy oldPhys attempts (st.updateRecord oldPhys (fun pf =>
          if pf.isFree then { pf with flags := PF_ALLOCATED ||| PF_MAPPED, refcount := 1 } else pf))

/-- The flags of a page that is private again. -/
def privateFlags (entry : PageTableEntry) : PageTableFlags := (entry.flags ||| WRITABLE).difference COW

/-- The page is present and COW: make it writable in place, or copy it. -/
def resolveCow (u : UserAddressSpace) (st : FrameStore) (s : Slot) : Bool × UserAddressSpace × FrameStore :=
  let entry := u.tables s
  match st.tryClaimExclusive (frameOf entry) with
  | (true, st) => (true, u.setEntry s (entry.setFlags (privateFlags entry)), st)
  | (false, st) =>
    match allocCopy (frameOf entry) 8 st with
    | (none, st) => (false, u, st)
    | (some newPhys, st) => (true, u.setEntry s (set newPhys.addr (privateFlags entry)), st)

/-- `handle_cow_fault`. The PML4 entry is not tested for a huge page. -/
def handleCowFault (u : UserAddressSpace) (st : FrameStore) (faultAddr : VirtAddr) :
    Bool × UserAddressSpace × FrameStore :=
  let entry := u.tables (.ofAddr faultAddr .pt)
  if !(u.tables (.ofAddr faultAddr .pml4)).isPresent then (false, u, st)
  else if !u.tables.leads (.ofAddr faultAddr .pdpt) then (false, u, st)
  else if !u.tables.leads (.ofAddr faultAddr .pd) then (false, u, st)
  else if !entry.isPresent then (false, u, st)
  else if !entry.isCow then (entry.isWritable, u, st)
  else resolveCow u st (.ofAddr faultAddr .pt)

end OxideOs.Vm

import OxideOs.Proc.Fork

/-!
# `Fault` — the page fault handler

A present page that is written to goes to `handle_cow_fault` first; a page that is not present may be on
swap. Only then are the process's areas consulted: missing pages of anonymous memory, heap, bss and data are
supplied on demand, and stacks grow. Whether a lock is free at the moment of the fault is an input
(`FaultEnv`), as are the answers of the frame allocator.
-/

namespace OxideOs.Vm

open Pagedb Paging PageTableFlags Vma PageTableEntry

/-- What a fault meets: the locks it tries and the allocator's answers. -/
structure FaultEnv where
  metaContended : Bool
  growthContended : Bool
  answers : List (Option Frame)

/-- The cause of a fault, from the bits of the error code. -/
structure FaultCode where
  isPresent : Bool
  isWrite : Bool
  isUser : Bool
  deriving DecidableEq, Repr

/-- The page an address lies in. -/
def pageAddr (addr : VirtAddr) : VirtAddr := addr &&& ~~~0xFFF#64

/-! ## Supplying a page -/

/-- A step down the tables in `handle_stack_growth` and `handle_demand_page`: a missing table is created,
    without being recorded in `allocated_frames` or marked. Only the lower levels look for huge pages, and do
    so before they look whether the entry is present. -/
def descend (u : UserAddressSpace) (st : FrameStore) (s : Slot) : Bool × UserAddressSpace × FrameStore :=
  let huge := match s with
    | .pml4 _ => false
    | _ => (u.tables s).isHuge
  if huge then (false, u, st)
  else if (u.tables s).isPresent then (true, u, st)
  else
    match st.allocFrame with
    | (none, st) => (false, u, st)
    | (some f, st) => (true, { u with tables := u.tables.link s f TABLE_FLAGS }, st)

/-- The part the two handlers share: walk down to the page's entry, then `present` decides about a page that
    is there already, and a page that is not gets a zeroed frame with the given flags. -/
def supplyPage (u : UserAddressSpace) (st : FrameStore) (virt : VirtAddr)
    (present : PageTableEntry → Bool) (flags : PageTableFlags) : Bool × UserAddressSpace × FrameStore :=
  match descend u st (.ofAddr virt .pml4) with
  | (false, u, st) => (false, u, st)
  | (true, u, st) =>
    match descend u st (.ofAddr virt .pdpt) with
    | (false, u, st) => (false, u, st)
    | (true, u, st) =>
      match descend u st (.ofAddr virt .pd) with
      | (false, u, st) => (false, u, st)
      | (true, u, st) =>
        let entry := u.tables (.ofAddr virt .pt)
        if entry.isPresent then (present entry, u, st)
        else
          match st.allocFrame with
          | (none, st) => (false, u, st)
          | (some f, st) =>
            (true, u.setEntry (.ofAddr virt .pt) (set f.addr flags),
              st.updateRecord f (fun pf => pf.setFlags (PF_ALLOCATED ||| PF_MAPPED)))

/-- `handle_stack_growth`: a page that is there must be writable, otherwise this is no matter of growth. -/
def handleStackGrowth (u : UserAddressSpace) (st : FrameStore) (contended : Bool) (virt : VirtAddr) :
    Bool × UserAddressSpace × FrameStore :=
  if contended then (false, u, st)
  else supplyPage u st virt (fun entry => entry.isWritable) (PRESENT ||| WRITABLE ||| USER ||| NO_EXECUTE)

/-- The flags of a page supplied on demand. -/
def demandFlags (flags : VmFlags) : PageTableFlags :=
  let dataFlags := PRESENT ||| USER
  let dataFlags := if flags.write then dataFlags ||| WRITABLE else dataFlags
  if !flags.exec then dataFlags ||| NO_EXECUTE else dataFlags

/-- `handle_demand_page`: a page that is there was supplied by another CPU. -/
def handleDemandPage (u : UserAddressSpace) (st : FrameStore) (virt : VirtAddr) (flags : VmFlags) :
    Bool × UserAddressSpace × FrameStore :=
  supplyPage u st virt (fun _ => true) (demandFlags flags)

/-! ## Swap -/

/-- `read_pte_value`; unlike the walk of `handle_cow_fault` it accepts whatever the PML4 entry is. -/
def readPteValue (u : UserAddressSpace) (virt : VirtAddr) : Option (BitVec 64) :=
  if (u.tables (.ofAddr virt .pml4)).isPresent && u.tables.leads (.ofAddr virt .pdpt) &&
      u.tables.leads (.ofAddr virt .pd) then
    some (u.tables (.ofAddr virt .pt)).raw
  else none

/-- A page on swap is brought back, writable. -/
def swapIn (u : UserAddressSpace) (st : FrameStore) (virt : VirtAddr) : Bool × UserAddressSpace × FrameStore :=
  match (readPteValue u virt).bind SwapEntry.decode with
  | none => (false, u, st)
  | some entry =>
    match st.pageIn entry with
    | (none, st) => (false, u, st)
    | (some f, st) =>
      (true, u.setEntry (.ofAddr virt .pt)
        (set f.addr (PRESENT ||| USER ||| WRITABLE ||| NO_EXECUTE)), st)

/-! ## The handler -/

/-- The areas whose missing pages are supplied on demand. -/
def demandPaged : VmType → Bool
  | .anon | .heap | .bss | .data => true
  | _ => false

/-- `access_ok`: what the area's flags allow. -/
def accessOk (flags : VmFlags) (isWrite : Bool) : Bool := if isWrite then flags.write else flags.read || flags.exec

/-- The fault lies in an area: demand paging first, then stack growth. -/
def areaFault (u : UserAddressSpace) (st : FrameStore) (env : FaultEnv) (virt : VirtAddr) (code : FaultCode)
    (area : VmArea) : Bool × UserAddressSpace × FrameStore :=
  let demand :=
    if !code.isPresent && accessOk area.flags code.isWrite && demandPaged area.vmType then
      handleDemandPage u st (pageAddr virt) area.flags
    else (false, u, st)
  match demand with
  | (true, u, st) => (true, u, st)
  | (false, u, st) =>
    if code.isWrite && (area.vmType == .stack && area.flags.growsdown) then
      handleStackGrowth u st env.growthContended (pageAddr virt)
    else (false, u, st)

/-- The part of the handler that consults the areas, for a user address. When the lock is taken, the fault
    counts as handled and will come again. -/
def vmaFault (u : UserAddressSpace) (st : FrameStore) (env : FaultEnv) (faultAddr : VirtAddr)
    (code : FaultCode) : Bool × UserAddressSpace × FrameStore :=
  if env.metaContended then (true, u, st)
  else
    match u.vmas.find faultAddr.toNat with
    | some area => areaFault u st env faultAddr code area
    | none => (false, u, st)

/-- `page_fault_handler` for the process whose tables are loaded. -/
def pageFaultHandler (u : UserAddressSpace) (st : FrameStore) (env : FaultEnv) (faultAddr : VirtAddr)
    (code : FaultCode) : Bool × UserAddressSpace × FrameStore :=
  let st := { st with answers := env.answers }
  let isUserspaceAddr : Bool := faultAddr < USER_END
  if code.isPresent && code.isWrite && !(code.isUser || isUserspaceAddr) then (false, u, st)
  else
    let cow := if code.isPresent && code.isWrite then handleCowFault u st faultAddr else (false, u, st)
    match cow with
    | (true, u, st) => (true, u, st)
    | (false, u, st) =>
      let swap := if !code.isPresent && isUserspaceAddr then swapIn u st (pageAddr faultAddr) else (false, u, st)
      match swap with
      | (true, u, st) => (true, u, st)
      | (false, u, st) => if isUserspaceAddr then vmaFault u st env faultAddr code else (false, u, st)

end OxideOs.Vm

import OxideOs.Fault
import OxideOs.Syscall.Memory

/-!
# `Proc.Machine` — processes and what they do to memory

The processes of the kernel with their address spaces, and the frames behind them. A step is one system call,
one page fault, or the exit of a process; they are serialised by the kernel's locks. Frames the kernel uses for
itself (kernel stacks, heap, slabs, page cache) leave the free list and come back by steps of their own.
-/

namespace OxideOs.Vm

open Paging Vma

structure Machine where
  procs : List (Option ProcessMeta)
  store : FrameStore
  kernelFrames : List Frame

namespace Machine

/-- The process with this id, if it is alive. -/
def proc (m : Machine) (pid : Nat) : Option ProcessMeta := (m.procs[pid]?).join

/-- The address spaces of all live processes. -/
def spaces (m : Machine) : List UserAddressSpace := m.procs.reduceOption.map ProcessMeta.addressSpace

/-- The number of leaf entries that map a frame, over all live address spaces. -/
def mapCount (m : Machine) (f : Frame) : Nat :=
  (m.spaces.flatMap (fun u => u.tables.leafPtes)).countP (fun e => frameOf e = f)

/-- Put a process and the store back after a system call. -/
def commit (m : Machine) (pid : Nat) (p : ProcessMeta) (store : FrameStore) : Machine :=
  { m with procs := m.procs.set pid (some p), store }

end Machine

/-- What a process does next. -/
inductive Call where
  | fork (answers : List (Option Frame)) (kernelStack : Bool)
  | fault (env : FaultEnv) (addr : VirtAddr) (code : FaultCode)
  | mmap (args : MmapArgs) (answers : List (Option Frame))
  | munmap (addr length : Nat)
  | mprotect (addr length : Nat) (prot : BitVec 32)
  | madvise (addr length : Nat) (advice : Int)
  | exit

/-- What a process, or the kernel, does next. -/
inductive Action where
  | call (pid : Nat) (c : Call)
  | kernelAlloc (answer : Option Frame)
  | kernelFree (f : Frame)

/-- What a live process does; `none` when the machine stops. -/
def procStep (m : Machine) (pid : Nat) (p : ProcessMeta) : Call → Option Machine
  | .fork answers kernelStack =>
    match doFork p.addressSpace { m.store with answers } kernelStack with
    | none => none
    | some (.error _, u, store) => some (m.commit pid { p with addressSpace := u } store)
    | some (.ok child, u, store) =>
      let m := m.commit pid { p with addressSpace := u } store
      some { m with procs := m.procs ++ [some { p with addressSpace := child }] }
  | .fault env addr code =>
    let r := pageFaultHandler p.addressSpace m.store env addr code
    some (m.commit pid { p with addressSpace := r.2.1 } r.2.2)
  | .mmap args answers => (sysMmap p { m.store with answers } args).map (fun r => m.commit pid r.2.1 r.2.2)
  | .munmap addr length => (sysMunmap p m.store addr length).map (fun r => m.commit pid r.2.1 r.2.2)
  | .mprotect addr length prot => (sysMprotect p addr length prot).map (fun r => m.commit pid r.2 m.store)
  | .madvise addr length advice => (sysMadvise p m.store addr length advice).map (fun r => m.commit pid r.2.1 r.2.2)
  | .exit => some { m with procs := m.procs.set pid none, store := p.addressSpace.drop m.store }

/-- The kernel takes a frame for itself. -/
def kernelAlloc (m : Machine) (answer : Option Frame) : Machine :=
  match ({ m.store with answers := [answer] }).allocFrame with
  | (none, store) => { m with store }
  | (some f, store) => { m with store, kernelFrames := f :: m.kernelFrames }

/-- The kernel returns one of its own frames. -/
def kernelFree (m : Machine) (f : Frame) : Machine :=
  if f ∈ m.kernelFrames then
    { m with store := m.store.freeFrame f, kernelFrames := m.kernelFrames.erase f }
  else m

/-- One step; a process that does not exist does nothing. -/
def step (m : Machine) : Action → Option Machine
  | .kernelAlloc answer => some (kernelAlloc m answer)
  | .kernelFree f => some (kernelFree m f)
  | .call pid c =>
    match m.proc pid with
    | none => some m
    | some p => procStep m pid p c

end OxideOs.Vm

import OxideOs.Ipc.Shm
import OxideOs.Proc.Machine

/-!
# `Syscall.Ipc` — `shmat`, `shmdt`, and machines with shared memory

`shmat` maps the pages of a segment one by one; when a page cannot be had or mapped it gives up and leaves the
pages before it mapped. `shmdt` unmaps the area at an address, whatever it is; it does not know which segment
that was, and `nattch` stays as it is.

The machine of this file has what belongs to the life of a segment: `shmget`, `shmat`, `shmdt`, `shmctl`, and
of the other system calls `fork`, `munmap` and `exit`.
-/

namespace OxideOs.Vm

open Paging Vma Word

def SHM_RDONLY : BitVec 32 := 0o10000#32
def SHM_RND : BitVec 32 := 0o20000#32

/-- `[shm]`. -/
def shmLabel : List UInt8 := [0x5B, 0x73, 0x68, 0x6D, 0x5D]

/-- Where `shmat` puts the segment; an error is returned as it is. -/
def attachAddr (m : ProcessMeta) (segSize shmaddr : Nat) (shmflg : BitVec 32) : Option (Except Int Nat) :=
  if shmaddr = 0 then
    (m.addressSpace.vmas.findFreeRegion segSize 0 0x700000000000).map (fun region =>
      match region with
      | some addr => .ok addr
      | none => .error Errno.ENOMEM)
  else if has shmflg SHM_RND then some (.ok (VmAreaList.pageDown shmaddr))
  else if shmaddr &&& 0xFFF ≠ 0 then some (.error (-22))
  else some (.ok shmaddr)

/-- The loop of `shmat` over the pages that are left; false when it gave up. -/
def attachPages (addr : Nat) (flags : MemoryFlags) : List Nat → ShmSegment → UserAddressSpace → FrameStore →
    Bool × ShmSegment × UserAddressSpace × FrameStore
  | [], seg, u, st => (true, seg, u, st)
  | pageIdx :: rest, seg, u, st =>
    match seg.getOrAllocFrame pageIdx st with
    | (none, seg, st) => (false, seg, u, st)
    | (some f, seg, st) =>
      match u.mapUserPage st (BitVec.ofNat 64 (addr + pageIdx * 4096)) f flags with
      | (.error _, u, st) => (false, seg, u, st)
      | (.ok (), u, st) => attachPages addr flags rest seg u st

/-- The flags of an attached page. -/
def shmMemFlags (isRdonly : Bool) : MemoryFlags := { read := true, write := !isRdonly, execute := false, user := true }

/-- The flags of the area. -/
def shmVmFlags (isRdonly : Bool) : VmFlags :=
  { read := true, write := !isRdonly, exec := false, shared := true, growsdown := false, stack := false }

/-- `sys_shmat`; `none` when the machine stops. -/
def sysShmat (m : ProcessMeta) (reg : ShmRegistry) (st : FrameStore) (shmid shmaddr : Nat) (shmflg : BitVec 32) :
    Option (Int × ProcessMeta × ShmRegistry × FrameStore) :=
  match reg.get shmid with
  | none => some (-22, m, reg, st)
  | some seg =>
    let segSize := seg.numPages * 4096
    let isRdonly := has shmflg SHM_RDONLY
    (attachAddr m segSize shmaddr shmflg).bind (fun place =>
      match place with
      | .error e => some (e, m, reg, st)
      | .ok addr =>
        match attachPages addr (shmMemFlags isRdonly) (List.range seg.numPages) seg m.addressSpace st with
        | (false, seg, u, st) => some (Errno.ENOMEM, { m with addressSpace := u }, reg.put shmid seg, st)
        | (true, seg, u, st) =>
          (add64 addr segSize).map (fun stop =>
            let m := { m with addressSpace := u }
            let m := m.addVma (VmArea.newNamed addr stop (shmVmFlags isRdonly) .anon shmLabel)
            let seg := { seg with nattch := (seg.nattch + 1) % 2 ^ 32 }
            (addr, m, reg.put shmid seg, st)))

/-- The loop of `shmdt`: unmap `n` pages without giving up their frames. -/
def detachPages : Nat → VirtAddr → UserAddressSpace → UserAddressSpace
  | 0, _, u => u
  | n + 1, virt, u => detachPages n (virt + 4096#64) (u.unmapUserPage virt).2

/-- `sys_shmdt`. -/
def sysShmdt (m : ProcessMeta) (shmaddr : Nat) : Option (Int × ProcessMeta) :=
  if shmaddr &&& 0xFFF ≠ 0 then some (-22, m)
  else
    match m.addressSpace.vmas.find shmaddr with
    | none => some (-22, m)
    | some vma =>
      if vma.stop < vma.start then none
      else
        let u := detachPages ((vma.stop - vma.start) / 4096) (BitVec.ofNat 64 vma.start) m.addressSpace
        some (0, ({ m with addressSpace := u }).removeVmaRange vma.start vma.stop)

/-! ## The machine -/

structure ShmMachine where
  machine : Machine
  registry : ShmRegistry

inductive ShmCall where
  | shmget (key : BitVec 32) (size : Nat) (flags : BitVec 32)
  | shmat (shmid shmaddr : Nat) (shmflg : BitVec 32) (answers : List (Option Frame))
  | shmdt (shmaddr : Nat)
  | shmctl (shmid : Nat) (cmd : BitVec 32)
  | fork (answers : List (Option Frame)) (kernelStack : Bool)
  | munmap (addr length : Nat)
  | exit

namespace ShmMachine

/-- What a live process does; `none` when the machine stops. Segments belong to user and group 0. -/
def procStep (s : ShmMachine) (pid : Nat) (p : ProcessMeta) : ShmCall → Option ShmMachine
  | .shmget key size flags => (s.registry.shmget key size flags 0#32 0#32).map (fun r => { s with registry := r.2 })
  | .shmat shmid shmaddr shmflg answers =>
    (sysShmat p s.registry { s.machine.store with answers } shmid shmaddr shmflg).map (fun r =>
      { machine := s.machine.commit pid r.2.1 r.2.2.2, registry := r.2.2.1 })
  | .shmdt shmaddr => (sysShmdt p shmaddr).map (fun r => { s with machine := s.machine.commit pid r.2 s.machine.store })
  | .shmctl shmid cmd =>
    let r := s.registry.sysShmctl s.machine.store shmid cmd
    some { machine := { s.machine with store := r.2.2 }, registry := r.2.1 }
  | .fork answers kernelStack =>
    (Vm.procStep s.machine pid p (.fork answers kernelStack)).map (fun m => { s with machine := m })
  | .munmap addr length => (Vm.procStep s.machine pid p (.munmap addr length)).map (fun m => { s with machine := m })
  | .exit => (Vm.procStep s.machine pid p .exit).map (fun m => { s with machine := m })

/-- One step; a process that does not exist does nothing. -/
def step (s : ShmMachine) (a : Nat × ShmCall) : Option ShmMachine :=
  match s.machine.proc a.1 with
  | none => some s
  | some p => s.procStep a.1 p a.2

end ShmMachine
end OxideOs.Vm

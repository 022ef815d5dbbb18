import OxideOs.Proc.Fork

/-!
# `Syscall.Memory` — `mmap`, `munmap`, `mprotect`, `madvise`

The system calls run on the memory of the calling process. Lengths are rounded up to pages with checked
arithmetic: `none` is the machine stopping on an overflow. What a file does when it is read into a mapping is an
input (`FileIo`).
-/

namespace OxideOs.Vm

open Pagedb Paging PageTableFlags Vma Word

/-! ## Constants -/

namespace Errno

def EINVAL : Int := -22
def ENOMEM : Int := -12
def EBADF : Int := -9
def EIO : Int := -5

end Errno

def PROT_READ : BitVec 32 := 0x1#32
def PROT_WRITE : BitVec 32 := 0x2#32
def PROT_EXEC : BitVec 32 := 0x4#32

def MAP_SHARED : BitVec 32 := 0x01#32
def MAP_PRIVATE : BitVec 32 := 0x02#32
def MAP_FIXED : BitVec 32 := 0x10#32
def MAP_ANONYMOUS : BitVec 32 := 0x20#32
def MAP_GROWSDOWN : BitVec 32 := 0x0100#32
def MAP_STACK : BitVec 32 := 0x20000#32

def MMAP_MIN_ADDR : Nat := 0x1000
def MMAP_MAX_ADDR : Nat := 0x7FFFFFFFF000

def MADV_DONTNEED : Int := 4

/-- A flag is set. -/
def has (flags flag : BitVec 32) : Bool := flags &&& flag != 0#32

/-- `prot_to_memory_flags`. -/
def protToMemoryFlags (prot : BitVec 32) : MemoryFlags :=
  { read := has prot PROT_READ, write := has prot PROT_WRITE, execute := has prot PROT_EXEC, user := true }

/-- `prot_to_vm_flags`. -/
def protToVmFlags (prot mapFlags : BitVec 32) : VmFlags :=
  { read := has prot PROT_READ
    write := has prot PROT_WRITE
    exec := has prot PROT_EXEC
    shared := has mapFlags MAP_SHARED
    growsdown := has mapFlags MAP_GROWSDOWN
    stack := has mapFlags MAP_STACK }

/-- `(length + 0xFFF) & !0xFFF`. -/
def roundUp (length : Nat) : Option Nat := (add64 length 0xFFF).map VmAreaList.pageDown

/-- The memory of a process. -/
structure ProcessMeta where
  addressSpace : UserAddressSpace
  nextMmapAddr : Nat

namespace ProcessMeta

def setVmas (m : ProcessMeta) (vmas : VmAreaList) : ProcessMeta :=
  { m with addressSpace := { m.addressSpace with vmas } }

/-- `remove_vma_range`, the result ignored. -/
def removeVmaRange (m : ProcessMeta) (start stop : Nat) : ProcessMeta :=
  m.setVmas (m.addressSpace.vmas.remove start stop).2

/-- `add_vma`, the result ignored. -/
def addVma (m : ProcessMeta) (area : VmArea) : ProcessMeta := m.setVmas (m.addressSpace.vmas.insert area).2

end ProcessMeta

/-! ## `munmap` and `madvise` -/

/-- Unmap one page and give up its frame, unless the page database says that the frame is free. -/
def unmapPage (u : UserAddressSpace) (st : FrameStore) (virt : VirtAddr) : UserAddressSpace × FrameStore :=
  match u.unmapUserPage virt with
  | (.error _, u) => (u, st)
  | (.ok f, u) => if (st.record f).any (fun pf => pf.isFree) then (u, st) else (u, UserAddressSpace.releaseFrame st f)

/-- The loop over `n` pages from `virt` on. -/
def unmapPages : Nat → VirtAddr → UserAddressSpace → FrameStore → UserAddressSpace × FrameStore
  | 0, _, u, st => (u, st)
  | n + 1, virt, u, st =>
    let (u, st) := unmapPage u st virt
    unmapPages n (virt + 4096#64) u st

/-- The loop of `munmap` and `madvise` on the calling process. -/
def unmapRange (m : ProcessMeta) (st : FrameStore) (addr length : Nat) : ProcessMeta × FrameStore :=
  let (u, st) := unmapPages (length / 0x1000) (BitVec.ofNat 64 addr) m.addressSpace st
  ({ m with addressSpace := u }, st)

/-- `sys_munmap`. -/
def sysMunmap (m : ProcessMeta) (st : FrameStore) (addr length : Nat) : Option (Int × ProcessMeta × FrameStore) :=
  if addr &&& 0xFFF ≠ 0 then some (Errno.EINVAL, m, st)
  else if length = 0 then some (Errno.EINVAL, m, st)
  else
    (roundUp length).bind (fun length =>
      (add64 addr length).map (fun stop => (0, unmapRange (m.removeVmaRange addr stop) st addr length)))

/-- `sys_madvise`: like `munmap`, but the areas stay. -/
def sysMadvise (m : ProcessMeta) (st : FrameStore) (addr length : Nat) (advice : Int) :
    Option (Int × ProcessMeta × FrameStore) :=
  if advice ≠ MADV_DONTNEED then some (0, m, st)
  else if addr &&& 0xFFF ≠ 0 then some (Errno.EINVAL, m, st)
  else if length = 0 then some (0, m, st)
  else
    (roundUp length).bind (fun length => (add64 addr length).map (fun _ => (0, unmapRange m st addr length)))

/-! ## `mprotect` -/

/-- The first loop of `sys_mprotect`. -/
def protectPages : Nat → VirtAddr → UserAddressSpace → MemoryFlags → UserAddressSpace
  | 0, _, u, _ => u
  | n + 1, virt, u, flags => protectPages n (virt + 4096#64) (u.setUserPageFlags virt flags).2 flags

/-- The second loop: the area of each page gets the new flags, all of the area. -/
def protectAreas : Nat → Nat → VmAreaList → VmFlags → VmAreaList
  | 0, _, vmas, _ => vmas
  | n + 1, addr, vmas, flags =>
    protectAreas n (addr + 0x1000) (vmas.modify addr (fun area => { area with flags })) flags

/-- `sys_mprotect`. -/
def sysMprotect (m : ProcessMeta) (addr length : Nat) (prot : BitVec 32) : Option (Int × ProcessMeta) :=
  if addr &&& 0xFFF ≠ 0 then some (Errno.EINVAL, m)
  else if length = 0 then some (0, m)
  else if USER_END.toNat ≤ addr then some (Errno.ENOMEM, m)
  else
    (roundUp length).bind (fun length =>
      (add64 addr length).map (fun _ =>
        let n := length / 0x1000
        let u := protectPages n (BitVec.ofNat 64 addr) m.addressSpace (protToMemoryFlags prot)
        let vmas := protectAreas n addr u.vmas (protToVmFlags prot 0#32)
        (0, { m with addressSpace := { u with vmas } })))

/-! ## `mmap` -/

/-- What happens to the file of a file-backed mapping: an open descriptor, the seek, the read. -/
structure FileIo where
  isOpen : Bool
  seekOk : Bool
  readOk : Bool
  deriving DecidableEq, Repr

/-- The arguments of `sys_mmap`; the descriptor is replaced by what its file does. -/
structure MmapArgs where
  addr : Nat
  length : Nat
  prot : BitVec 32
  mapFlags : BitVec 32
  file : FileIo
  offset : Int

namespace MmapArgs

def isAnonymous (a : MmapArgs) : Bool := has a.mapFlags MAP_ANONYMOUS

def isPrivate (a : MmapArgs) : Bool := has a.mapFlags MAP_PRIVATE

/-- The area recorded for the mapping. -/
def area (a : MmapArgs) (mapAddr length : Nat) (vmType : VmType) : VmArea :=
  VmArea.new mapAddr (mapAddr + length) (protToVmFlags a.prot a.mapFlags) vmType

end MmapArgs

/-- `allocate_mmap_addr`: bump the process's hint, once around at the end. -/
def allocateMmapAddr (m : ProcessMeta) (length : Nat) : Option (Except Int Nat × ProcessMeta) :=
  (add64 m.nextMmapAddr length).bind (fun stop =>
    if stop ≤ MMAP_MAX_ADDR then some (.ok m.nextMmapAddr, { m with nextMmapAddr := stop })
    else
      (add64 MMAP_MIN_ADDR length).map (fun wrapped =>
        if MMAP_MAX_ADDR < wrapped then (.error Errno.ENOMEM, { m with nextMmapAddr := MMAP_MIN_ADDR })
        else (.ok MMAP_MIN_ADDR, { m with nextMmapAddr := wrapped })))

/-- Where the mapping goes. -/
def mmapAddr (m : ProcessMeta) (a : MmapArgs) (length : Nat) : Option (Except Int Nat × ProcessMeta) :=
  if has a.mapFlags MAP_FIXED then
    if a.addr &&& 0xFFF ≠ 0 then some (.error Errno.EINVAL, m)
    else if a.addr < MMAP_MIN_ADDR then some (.error Errno.ENOMEM, m)
    else
      (add64 a.addr length).map (fun stop =>
        if MMAP_MAX_ADDR < stop then (.error Errno.ENOMEM, m)
        else (.ok a.addr, m.removeVmaRange a.addr stop))
  else
    (if a.addr = 0 then some 0 else roundUp a.addr).bind (fun hint =>
      (m.addressSpace.vmas.findFreeRegion length hint MMAP_MAX_ADDR).bind (fun region =>
        match region with
        | some addr => some (.ok addr, m)
        | none => allocateMmapAddr m length))

/-- `PageMapper::translate` at a page boundary. -/
def translate (t : Tables) (virt : VirtAddr) : Option Frame :=
  if !t.leads (.ofAddr virt .pml4) then none
  else if !(t (.ofAddr virt .pdpt)).isPresent then none
  else if (t (.ofAddr virt .pdpt)).isHuge then
    some (frameOf (t (.ofAddr virt .pdpt)) + ((virt &&& 0x3FFFFFFF#64) >>> 12).setWidth 40)
  else if !(t (.ofAddr virt .pd)).isPresent then none
  else if (t (.ofAddr virt .pd)).isHuge then
    some (frameOf (t (.ofAddr virt .pd)) + ((virt &&& 0x1FFFFF#64) >>> 12).setWidth 40)
  else if !(t (.ofAddr virt .pt)).isPresent then none
  else some (frameOf (t (.ofAddr virt .pt)))

/-- `remove_flags` and `update_flags`, one after the other, on a page that is mapped. -/
def tagCow (u : UserAddressSpace) (virt : VirtAddr) : UserAddressSpace :=
  let entry := u.tables (.ofAddr virt .pt)
  if u.tables.reaches virt && entry.isPresent then
    u.setEntry (.ofAddr virt .pt) ((entry.removeFlags WRITABLE).addFlags COW)
  else u

/-- The last loop of `sys_mmap`: the pages of a private file mapping become COW pages, each with one more
    reference. -/
def cowPages : Nat → VirtAddr → UserAddressSpace → FrameStore → Option (UserAddressSpace × FrameStore)
  | 0, _, u, st => some (u, st)
  | n + 1, virt, u, st =>
    match translate u.tables virt with
    | none => cowPages n (virt + 4096#64) u st
    | some f => (st.increment f).bind (fun st => cowPages n (virt + 4096#64) (tagCow u virt) st)

/-- The file part of `sys_mmap`, on a mapping that is there. -/
def mmapFile (m : ProcessMeta) (st : FrameStore) (a : MmapArgs) (mapAddr length : Nat) :
    Option (Int × ProcessMeta × FrameStore) :=
  if !a.file.seekOk || !a.file.readOk then
    (sysMunmap m st mapAddr length).map (fun r => (Errno.EIO, r.2))
  else if a.isPrivate then
    (cowPages (length / 0x1000) (BitVec.ofNat 64 mapAddr) m.addressSpace st).map (fun r =>
      ((mapAddr : Int), { m with addressSpace := r.1 }, r.2))
  else some (mapAddr, m, st)

/-- `sys_mmap` once the address is known. Only private anonymous memory is left to demand paging. -/
def mmapAt (m : ProcessMeta) (st : FrameStore) (a : MmapArgs) (mapAddr length : Nat) :
    Option (Int × ProcessMeta × FrameStore) :=
  if a.isAnonymous && a.isPrivate then
    some (mapAddr, m.addVma (a.area mapAddr length .anon), st)
  else
    match m.addressSpace.allocatePages st (BitVec.ofNat 64 mapAddr) (length / 0x1000) (protToMemoryFlags a.prot) with
    | (.error _, u, st) => some (Errno.ENOMEM, { m with addressSpace := u }, st)
    | (.ok (), u, st) =>
      let m := { m with addressSpace := u }
      let m := m.addVma (a.area mapAddr length (if a.isAnonymous then .anon else .fileBacked))
      if a.isAnonymous then some (mapAddr, m, st) else mmapFile m st a mapAddr length

/-- `sys_mmap`. -/
def sysMmap (m : ProcessMeta) (st : FrameStore) (a : MmapArgs) : Option (Int × ProcessMeta × FrameStore) :=
  if a.length = 0 then some (Errno.EINVAL, m, st)
  else
    (roundUp a.length).bind (fun length =>
      if !a.isAnonymous && (decide (a.offset < 0) || decide (a.offset % 4096 ≠ 0)) then
        some (Errno.EINVAL, m, st)
      else if !a.isAnonymous && !a.file.isOpen then some (Errno.EBADF, m, st)
      else
        (mmapAddr m a length).bind (fun place =>
          match place with
          | (.error e, m) => some (e, m, st)
          | (.ok mapAddr, m) => mmapAt m st a mapAddr length))

end OxideOs.Vm

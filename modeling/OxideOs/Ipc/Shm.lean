import OxideOs.Proc.AddressSpace

/-!
# `Ipc.Shm` — System V shared memory segments (`shm`)

A segment has one frame for each of its pages, allocated when the page is first attached. The registry keeps
the segments by id; ids go up and are not used again, so the segments are listed in the order of their ids, as
the map of the source has them.
-/

namespace OxideOs.Vm

def IPC_PRIVATE : BitVec 32 := 0#32
def IPC_CREAT : BitVec 32 := 0o1000#32
def IPC_EXCL : BitVec 32 := 0o2000#32
def IPC_RMID : BitVec 32 := 0#32
def IPC_STAT : BitVec 32 := 2#32

def SHM_PERM_MASK : BitVec 32 := 0o777#32

/-- `nattch` is a `u32`. -/
structure ShmSegment where
  id : Nat
  key : BitVec 32
  size : Nat
  uid : BitVec 32
  gid : BitVec 32
  mode : BitVec 32
  nattch : Nat
  frames : List (Option Frame)
  markedForRemoval : Bool

namespace ShmSegment

def new (id : Nat) (key : BitVec 32) (size : Nat) (uid gid mode : BitVec 32) : ShmSegment :=
  { id, key, size, uid, gid, mode, nattch := 0,
    frames := List.replicate ((size + 4095) / 4096) none, markedForRemoval := false }

def numPages (seg : ShmSegment) : Nat := seg.frames.length

/-- `get_or_alloc_frame`. -/
def getOrAllocFrame (seg : ShmSegment) (pageIdx : Nat) (st : FrameStore) :
    Option Frame × ShmSegment × FrameStore :=
  match seg.frames[pageIdx]? with
  | none => (none, seg, st)
  | some (some f) => (some f, seg, st)
  | some none =>
    match st.allocFrame with
    | (none, st) => (none, seg, st)
    | (some f, st) => (some f, { seg with frames := seg.frames.set pageIdx (some f) }, st)

/-- The frames that are allocated. -/
def allocated (seg : ShmSegment) : List Frame := seg.frames.reduceOption

end ShmSegment

structure ShmRegistry where
  segments : List ShmSegment
  nextId : Nat

namespace ShmRegistry

def new : ShmRegistry := { segments := [], nextId := 1 }

def get (reg : ShmRegistry) (id : Nat) : Option ShmSegment := reg.segments.find? (fun seg => seg.id == id)

/-- What was done through `get_mut`: the segment with this id is changed in place. -/
def put (reg : ShmRegistry) (id : Nat) (seg : ShmSegment) : ShmRegistry :=
  { reg with segments := reg.segments.map (fun s => if s.id = id then seg else s) }

/-- `shmget`: the first segment with the key, or a new one. The machine stops when there are no more ids. -/
def shmget (reg : ShmRegistry) (key : BitVec 32) (size : Nat) (flags uid gid : BitVec 32) :
    Option (Except Int Nat × ShmRegistry) :=
  if size = 0 ∨ 256 * 1024 * 1024 < size then some (.error (-22), reg)
  else
    match if key = IPC_PRIVATE then none else reg.segments.find? (fun seg => seg.key == key) with
    | some seg =>
      if flags &&& IPC_EXCL ≠ 0#32 ∧ flags &&& IPC_CREAT ≠ 0#32 then some (.error (-17), reg)
      else some (.ok seg.id, reg)
    | none =>
      if key ≠ IPC_PRIVATE ∧ flags &&& IPC_CREAT = 0#32 then some (.error (-2), reg)
      else if 2 ^ 32 ≤ reg.nextId + 1 then none
      else
        let segment := ShmSegment.new reg.nextId key size uid gid (flags &&& SHM_PERM_MASK)
        some (.ok reg.nextId, { segments := reg.segments ++ [segment], nextId := reg.nextId + 1 })

/-- `remove`: a segment that is attached is only marked. -/
def remove (reg : ShmRegistry) (id : Nat) (st : FrameStore) : Except Int Unit × ShmRegistry × FrameStore :=
  match reg.get id with
  | none => (.error (-22), reg, st)
  | some seg =>
    if 0 < seg.nattch then (.ok (), reg.put id { seg with markedForRemoval := true }, st)
    else
      (.ok (), { reg with segments := reg.segments.filter (fun s => s.id ≠ id) },
        UserAddressSpace.freeAll st seg.allocated)

/-- `sys_shmctl`. -/
def sysShmctl (reg : ShmRegistry) (st : FrameStore) (shmid : Nat) (cmd : BitVec 32) :
    Int × ShmRegistry × FrameStore :=
  if cmd = IPC_RMID then
    match reg.remove shmid st with
    | (.ok (), reg, st) => (0, reg, st)
    | (.error e, reg, st) => (e, reg, st)
  else if cmd = IPC_STAT then (if (reg.get shmid).isSome then 0 else -22, reg, st)
  else (-22, reg, st)

end ShmRegistry
end OxideOs.Vm

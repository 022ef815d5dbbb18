import OxideOs.Vfs.Error

/-!
# `Vfs.Flock` — the advisory lock registry (`vfs::flock`)

One map from inodes to lock states under one lock: each registry function is a single critical section. A lock
state lists the locks held, by owner (an open file description), and the pids of the tasks that wait. The two
`try_lock` functions differ in what they call a conflict and in the kind of lock they leave.
-/

namespace OxideOs.Vfs

open Function List Option

structure InodeId where
  dev : BitVec 64
  ino : BitVec 64
  deriving DecidableEq

inductive LockType where
  | shared
  | exclusive
  deriving DecidableEq

/-- The identity of an open file description, taken from a counter that wraps. -/
abbrev OwnerId := BitVec 64

abbrev WaiterPid := BitVec 32

structure LockEntry where
  ownerId : OwnerId
  lockType : LockType
  deriving DecidableEq

structure InodeLockState where
  locks : List LockEntry
  waiters : List WaiterPid

namespace InodeLockState

def new : InodeLockState := { locks := [], waiters := [] }

def findOwner (s : InodeLockState) (owner : OwnerId) : Option Nat := s.locks.findIdx? (fun e => e.ownerId == owner)

def hasForeignExclusive (s : InodeLockState) (owner : OwnerId) : Bool :=
  s.locks.any (fun e => e.lockType == .exclusive && e.ownerId != owner)

def hasForeignLock (s : InodeLockState) (owner : OwnerId) : Bool := s.locks.any (fun e => e.ownerId != owner)

def isEmpty (s : InodeLockState) : Bool := s.locks.isEmpty && s.waiters.isEmpty

def addWaiter (s : InodeLockState) (pid : WaiterPid) : InodeLockState :=
  if s.waiters.contains pid then s else { s with waiters := s.waiters ++ [pid] }

def removeWaiter (s : InodeLockState) (pid : WaiterPid) : InodeLockState :=
  { s with waiters := s.waiters.filter (fun w => w != pid) }

def drainWaiters (s : InodeLockState) : List WaiterPid × InodeLockState := (s.waiters, { s with waiters := [] })

/-- The end of both `try_lock` functions: change the owner's lock in place, or push a new one. -/
def grant (s : InodeLockState) (owner : OwnerId) (kind : LockType) : InodeLockState :=
  match s.findOwner owner with
  | some idx => { s with locks := s.locks.modify idx (fun e => { e with lockType := kind }) }
  | none => { s with locks := s.locks ++ [{ ownerId := owner, lockType := kind }] }

/-- A request in conflict with a lock that is held. -/
def conflicts (s : InodeLockState) (owner : OwnerId) : LockType → Bool
  | .shared => s.hasForeignExclusive owner
  | .exclusive => s.hasForeignLock owner

end InodeLockState

/-- `FlockRegistry.inner` -/
abbrev FlockRegistry := InodeId → Option InodeLockState

namespace FlockRegistry

def new : FlockRegistry := fun _ => none

/-- `entry(inode_id).or_insert_with(InodeLockState::new)` -/
def entry (reg : FlockRegistry) (inode : InodeId) : InodeLockState := (reg inode).getD InodeLockState.new

/-- Drop the state of an inode that nobody holds or waits for. -/
def prune (reg : FlockRegistry) (inode : InodeId) (s : InodeLockState) : FlockRegistry :=
  update reg inode (if s.isEmpty then none else some s)

/-- `try_lock_shared` and `try_lock_exclusive` -/
def tryLock (kind : LockType) (reg : FlockRegistry) (inode : InodeId) (owner : OwnerId) :
    VfsResult Unit × FlockRegistry :=
  let s := reg.entry inode
  if s.conflicts owner kind then (.error .wouldBlock, update reg inode (some s))
  else (.ok (), update reg inode (some (s.grant owner kind)))

def unlock (reg : FlockRegistry) (inode : InodeId) (owner : OwnerId) : List WaiterPid × FlockRegistry :=
  match reg inode with
  | some s =>
    let drained := { s with locks := s.locks.filter (fun e => e.ownerId != owner) }.drainWaiters
    (drained.1, reg.prune inode drained.2)
  | none => ([], reg)

def registerWaiter (reg : FlockRegistry) (inode : InodeId) (pid : WaiterPid) : FlockRegistry :=
  update reg inode (some ((reg.entry inode).addWaiter pid))

def unregisterWaiter (reg : FlockRegistry) (inode : InodeId) (pid : WaiterPid) : FlockRegistry :=
  match reg inode with
  | some s => reg.prune inode (s.removeWaiter pid)
  | none => reg

end FlockRegistry

/-! ## The locks of one inode -/

namespace InodeLockState

/-- **A readers-writer lock**: one lock per owner, and an exclusive lock is the only one. -/
structure Exclusion (s : InodeLockState) : Prop where
  oneEach : (s.locks.map LockEntry.ownerId).Nodup
  alone : ∀ e ∈ s.locks, e.lockType = .exclusive → s.locks = [e]

variable {s s' : InodeLockState} {owner other : OwnerId} {kind kind' : LockType} {e : LockEntry}

theorem exclusion_new : new.Exclusion where
  oneEach := nodup_nil
  alone := fun _ he => nomatch he

/-- The locks are all shared, or there is one and it is exclusive. -/
theorem Exclusion.shared_or_single (h : s.Exclusion) :
    (∀ e ∈ s.locks, e.lockType = .shared) ∨ ∃ e, s.locks = [e] ∧ e.lockType = .exclusive := by
  by_cases hx : ∃ e ∈ s.locks, e.lockType = .exclusive
  · obtain ⟨e, he, hkind⟩ := hx
    exact .inr ⟨e, h.alone e he hkind, hkind⟩
  refine .inl fun e he => ?_
  cases hkind : e.lockType with
  | shared => rfl
  | exclusive => exact absurd ⟨e, he, hkind⟩ hx

theorem hasForeignLock_iff : s.hasForeignLock owner = true ↔ ∃ e ∈ s.locks, e.ownerId ≠ owner := by
  simp [hasForeignLock]

theorem hasForeignExclusive_iff :
    s.hasForeignExclusive owner = true ↔ ∃ e ∈ s.locks, e.lockType = .exclusive ∧ e.ownerId ≠ owner := by
  simp [hasForeignExclusive]

/-- What a request conflicts with: a lock of someone else, exclusive when the request is for a shared one. -/
theorem conflicts_iff : s.conflicts owner kind = true ↔
    ∃ e ∈ s.locks, e.ownerId ≠ owner ∧ (kind = .shared → e.lockType = .exclusive) := by
  cases kind with
  | shared =>
    refine hasForeignExclusive_iff.trans ⟨?_, ?_⟩
    · rintro ⟨e, he, hkind, ho⟩
      exact ⟨e, he, ho, fun _ => hkind⟩
    · rintro ⟨e, he, ho, hkind⟩
      exact ⟨e, he, hkind rfl, ho⟩
  | exclusive =>
    refine hasForeignLock_iff.trans ⟨?_, ?_⟩
    · rintro ⟨e, he, ho⟩
      exact ⟨e, he, ho, nofun⟩
    · rintro ⟨e, he, ho, -⟩
      exact ⟨e, he, ho⟩

/-! ### Granting a lock -/

theorem findOwner_some {idx : Nat} (h : s.findOwner owner = some idx) :
    ∃ e, s.locks[idx]? = some e ∧ e.ownerId = owner := by
  obtain ⟨hlt, he, -⟩ := findIdx?_eq_some_iff_getElem.mp h
  exact ⟨s.locks[idx], getElem?_eq_getElem hlt, by simpa using he⟩

theorem findOwner_none (h : s.findOwner owner = none) : ∀ e ∈ s.locks, e.ownerId ≠ owner := by
  intro e he ho
  have hfalse := findIdx?_eq_none_iff.mp h e he
  simp [ho] at hfalse

/-- The owners are as before, with the new one added at the end if it had no lock. -/
theorem grant_owners : (s.grant owner kind).locks.map LockEntry.ownerId =
    s.locks.map LockEntry.ownerId ∨
    ((∀ e ∈ s.locks, e.ownerId ≠ owner) ∧
      (s.grant owner kind).locks.map LockEntry.ownerId = s.locks.map LockEntry.ownerId ++ [owner]) := by
  unfold grant
  cases hf : s.findOwner owner with
  | some idx =>
    refine .inl (ext_getElem? fun j => ?_)
    simp only [getElem?_map, getElem?_modify]
    cases s.locks[j]? with
    | none => rfl
    | some e => by_cases hj : idx = j <;> simp [hj]
  | none => exact .inr ⟨findOwner_none hf, by simp⟩

/-- **After a grant the owner has the lock it asked for and everyone else what they had.** -/
theorem Exclusion.mem_grant (h : s.Exclusion) :
    e ∈ (s.grant owner kind).locks ↔ e = { ownerId := owner, lockType := kind } ∨
      (e ∈ s.locks ∧ e.ownerId ≠ owner) := by
  unfold grant
  cases hf : s.findOwner owner with
  | none =>
    have hnone := findOwner_none hf
    simp only [mem_append, mem_singleton]
    constructor
    · rintro (he | he)
      · exact .inr ⟨he, hnone e he⟩
      · exact .inl he
    rintro (he | ⟨he, -⟩)
    · exact .inr he
    · exact .inl he
  | some idx =>
    obtain ⟨d, hd, hown⟩ := findOwner_some hf
    simp only [mem_iff_getElem?, List.getElem?_modify]
    constructor
    · rintro ⟨j, hj⟩
      obtain ⟨a, ha, he⟩ := map_eq_some_iff.mp hj
      by_cases hij : idx = j
      · subst hij
        rw [hd] at ha
        cases ha
        rw [if_pos rfl] at he
        exact .inl (by rw [← he, ← hown])
      rw [if_neg hij] at he
      subst he
      refine .inr ⟨⟨j, ha⟩, fun ho => hij ?_⟩
      -- one entry per owner: the entry at `j` would be the one at `idx`
      have hidx : (s.locks.map LockEntry.ownerId)[idx]? = some owner := by
        rw [List.getElem?_map, hd, map_some, hown]
      have hjdx : (s.locks.map LockEntry.ownerId)[j]? = some owner := by
        rw [List.getElem?_map, ha, map_some, ho]
      have hlt : idx < (s.locks.map LockEntry.ownerId).length := (List.getElem?_eq_some_iff.mp hidx).1
      exact (List.getElem?_inj hlt h.oneEach).mp (hidx.trans hjdx.symm)
    · rintro (rfl | ⟨⟨j, hj⟩, ho⟩)
      · exact ⟨idx, by rw [hd, ← hown]; simp⟩
      refine ⟨j, ?_⟩
      have hij : idx ≠ j := by
        rintro rfl
        rw [hd] at hj
        cases hj
        exact ho hown
      rw [hj]
      simp [hij]

theorem not_conflicting (hfree : s.conflicts owner kind = false) (he : e ∈ s.locks) (ho : e.ownerId ≠ owner) :
    kind = .shared ∧ e.lockType = .shared := by
  have hno : ¬(kind = .shared → e.lockType = .exclusive) := by
    intro hkind
    rw [conflicts_iff.mpr ⟨e, he, ho, hkind⟩] at hfree
    cases hfree
  obtain ⟨hk, hx⟩ := Classical.not_imp.mp hno
  refine ⟨hk, ?_⟩
  cases hkind : e.lockType with
  | shared => rfl
  | exclusive => exact absurd hkind hx

/-- A grant without conflict keeps the lock a readers-writer lock. -/
theorem Exclusion.grant (h : s.Exclusion) (hfree : s.conflicts owner kind = false) :
    (s.grant owner kind).Exclusion := by
  have hnodup : ((s.grant owner kind).locks.map LockEntry.ownerId).Nodup := by
    rcases @grant_owners s owner kind with hsame | ⟨hnew, hsame⟩
    · rw [hsame]
      exact h.oneEach
    rw [hsame, nodup_append]
    refine ⟨h.oneEach, nodup_singleton owner, ?_⟩
    rintro x hx y hy rfl
    obtain ⟨e, he, rfl⟩ := mem_map.mp hx
    exact hnew e he (mem_singleton.mp hy)
  refine ⟨hnodup, fun e he hkind => ?_⟩
  -- an exclusive lock is the one just granted, and then nobody else had any
  have hall : ∀ d ∈ (s.grant owner kind).locks, d = e := by
    intro d hd
    rcases h.mem_grant.mp he with rfl | ⟨he, ho⟩
    · rcases h.mem_grant.mp hd with rfl | ⟨hd, ho⟩
      · rfl
      · cases hkind.symm.trans (not_conflicting hfree hd ho).1
    · cases hkind.symm.trans (not_conflicting hfree he ho).2
  have hrep := eq_replicate_of_mem hall
  have hle : (s.grant owner kind).locks.length ≤ 1 := by
    have hnd := Nodup.of_map _ hnodup
    rw [hrep, nodup_replicate] at hnd
    exact hnd
  have hpos : 0 < (s.grant owner kind).locks.length := length_pos_of_mem he
  rw [hrep, show (s.grant owner kind).locks.length = 1 by omega]
  rfl

/-- **Only a downgrade lets anyone in**: when a grant ends a conflict, the owner had the exclusive lock, took a
    shared one instead, and the request is someone else's for a shared lock. -/
theorem Exclusion.grant_admits (h : s.Exclusion) (hc : s.conflicts other kind' = true)
    (hno : (s.grant owner kind).conflicts other kind' = false) :
    kind = .shared ∧ { ownerId := owner, lockType := .exclusive } ∈ s.locks ∧ other ≠ owner ∧ kind' = .shared := by
  obtain ⟨e, he, ho, hkind⟩ := conflicts_iff.mp hc
  by_cases hown : e.ownerId = owner
  · have hgranted : { ownerId := owner, lockType := kind } ∈ (s.grant owner kind).locks := h.mem_grant.mpr (.inl rfl)
    obtain ⟨hk', hk⟩ := not_conflicting hno hgranted (hown ▸ ho)
    have hentry : e = { ownerId := owner, lockType := .exclusive } := by
      rw [← hown, ← hkind hk']
    exact ⟨hk, hentry ▸ he, fun hoo => ho (hown.trans hoo.symm), hk'⟩
  · have hmem : e ∈ (s.grant owner kind).locks := h.mem_grant.mpr (.inr ⟨he, hown⟩)
    rw [conflicts_iff.mpr ⟨e, hmem, ho, hkind⟩] at hno
    cases hno

/-! ### Releasing a lock, and the waiters -/

theorem Exclusion.filter (h : s.Exclusion) (p : LockEntry → Bool) (ws : List WaiterPid) :
    Exclusion { locks := s.locks.filter p, waiters := ws } where
  oneEach := h.oneEach.sublist (filter_sublist.map _)
  alone := by
    intro e he hkind
    obtain ⟨hmem, hp⟩ := mem_filter.mp he
    rw [h.alone e hmem hkind, filter_singleton, hp, cond_true]

theorem Exclusion.of_locks (h : s.Exclusion) (hl : s'.locks = s.locks) : s'.Exclusion where
  oneEach := hl ▸ h.oneEach
  alone := hl ▸ h.alone

theorem conflicts_of_locks (hl : s'.locks = s.locks) : s'.conflicts owner kind = s.conflicts owner kind := by
  cases kind with
  | shared | exclusive =>
    show s'.locks.any _ = s.locks.any _
    rw [hl]

@[simp] theorem grant_waiters : (s.grant owner kind).waiters = s.waiters := by
  unfold grant
  split <;> rfl

@[simp] theorem addWaiter_locks (pid : WaiterPid) : (s.addWaiter pid).locks = s.locks := by
  unfold addWaiter
  split <;> rfl

theorem mem_addWaiter {pid p : WaiterPid} : p ∈ (s.addWaiter pid).waiters ↔ p ∈ s.waiters ∨ p = pid := by
  unfold addWaiter
  by_cases hp : pid ∈ s.waiters
  · rw [if_pos (contains_iff_mem.mpr hp)]
    constructor
    · exact .inl
    rintro (h | rfl)
    · exact h
    · exact hp
  · rw [if_neg (fun h => hp (contains_iff_mem.mp h))]
    simp

end InodeLockState

/-! ## The registry, inode by inode -/

namespace FlockRegistry

variable {reg : FlockRegistry} {inode other : InodeId} {owner : OwnerId} {kind : LockType} {pid : WaiterPid}

@[simp] theorem entry_update_self (s : InodeLockState) : FlockRegistry.entry (update reg inode (some s)) inode = s := by
  simp [entry]

theorem entry_update_other {o : Option InodeLockState} (h : other ≠ inode) :
    FlockRegistry.entry (update reg inode o) other = reg.entry other := by
  simp [entry, h]

theorem entry_of_some {s : InodeLockState} (h : reg inode = some s) : reg.entry inode = s := by
  simp [entry, h]

theorem isEmpty_iff {s : InodeLockState} : s.isEmpty = true ↔ s = InodeLockState.new := by
  cases s
  simp [InodeLockState.isEmpty, InodeLockState.new]

/-- Forgetting an empty state changes nothing. -/
theorem prune_entry (s : InodeLockState) : (reg.prune inode s).entry inode = s := by
  unfold prune
  by_cases hs : s.isEmpty = true
  · rw [if_pos hs]
    simp [entry, isEmpty_iff.mp hs]
  · rw [if_neg hs, entry_update_self]

theorem tryLock_ok (h : (reg.entry inode).conflicts owner kind = false) :
    tryLock kind reg inode owner = (.ok (), update reg inode (some ((reg.entry inode).grant owner kind))) := by
  simp [tryLock, h]

theorem tryLock_error (h : (reg.entry inode).conflicts owner kind = true) :
    tryLock kind reg inode owner = (.error .wouldBlock, update reg inode (some (reg.entry inode))) := by
  simp [tryLock, h]

/-- **`unlock`** removes the owner's lock and hands out every waiter. -/
theorem unlock_entry : (reg.unlock inode owner).2.entry inode =
    { locks := (reg.entry inode).locks.filter (fun e => e.ownerId != owner), waiters := [] } := by
  unfold unlock
  cases h : reg inode with
  | none => simp [entry, h, InodeLockState.new]
  | some s =>
    rw [entry_of_some h]
    exact prune_entry _

theorem unlock_waiters : (reg.unlock inode owner).1 = (reg.entry inode).waiters := by
  unfold unlock
  cases h : reg inode with
  | none => simp [entry, h, InodeLockState.new]
  | some s => simp [entry, h, InodeLockState.drainWaiters]

theorem unlock_other (h : other ≠ inode) : (reg.unlock inode owner).2.entry other = reg.entry other := by
  unfold unlock
  cases reg inode with
  | none => rfl
  | some s => exact entry_update_other h

theorem unregisterWaiter_entry : (reg.unregisterWaiter inode pid).entry inode = (reg.entry inode).removeWaiter pid := by
  unfold unregisterWaiter
  cases h : reg inode with
  | none => simp [entry, h, InodeLockState.new, InodeLockState.removeWaiter]
  | some s =>
    rw [entry_of_some h]
    exact prune_entry _

theorem unregisterWaiter_other (h : other ≠ inode) :
    (reg.unregisterWaiter inode pid).entry other = reg.entry other := by
  unfold unregisterWaiter
  cases reg inode with
  | none => rfl
  | some s => exact entry_update_other h

end FlockRegistry

end OxideOs.Vfs

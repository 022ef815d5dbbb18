import OxideOs.Lib.Run
import OxideOs.Vfs.Flock

/-!
# `Vfs.FlockCalls` — `sys_flock`, the last close, and who is woken

`sys_flock` works on an open file description in several accesses: to the registry, to the `has_flock` flag of
the description, and to the scheduler. The accesses of the calls of all tasks interleave; `Call` is a call with
the access it does next. A call keeps its description alive, so the last close (`Drop for File`) runs when no
call on it is in flight. The registry functions for waiters may also be called on their own.

`requests` says what the tasks in the waiter lists wait for, and `woken` which pids `wake_up` was called on.
-/

namespace OxideOs.Vfs.Flock

open Function FlockRegistry InodeLockState List

def LOCK_SH : BitVec 32 := 1
def LOCK_EX : BitVec 32 := 2
def LOCK_NB : BitVec 32 := 4
def LOCK_UN : BitVec 32 := 8

/-- A call in flight and the access it does next. -/
inductive Call where
  /-- `LOCK_NB`: try the lock. -/
  | lock (owner : OwnerId) (kind : LockType)
  /-- `sys_flock_blocking`, head of the loop: register as a waiter. -/
  | register (owner : OwnerId) (pid : WaiterPid) (kind : LockType)
  /-- `sys_flock_blocking`: registered, try the lock. -/
  | attempt (owner : OwnerId) (pid : WaiterPid) (kind : LockType)
  /-- `sys_flock_blocking`: look for signals, then sleep. -/
  | asleep (owner : OwnerId) (pid : WaiterPid) (kind : LockType)
  /-- `unregister_waiter`; with the lock (`got`) or without it. -/
  | unregister (owner : OwnerId) (pid : WaiterPid) (got : Bool)
  /-- The lock was taken: `mark_flock_held`. -/
  | mark (owner : OwnerId)
  /-- `LOCK_UN` -/
  | unlock (owner : OwnerId)
  /-- The lock was released: `clear_flock_held`, then wake what `unlock` returned. -/
  | clear (owner : OwnerId) (waiters : List WaiterPid)
  /-- `register_waiter` on its own. -/
  | enlist (owner : OwnerId) (pid : WaiterPid) (kind : LockType)
  deriving DecidableEq

def Call.owner : Call → OwnerId
  | .lock owner _ => owner
  | .register owner _ _ => owner
  | .attempt owner _ _ => owner
  | .asleep owner _ _ => owner
  | .unregister owner _ _ => owner
  | .mark owner => owner
  | .unlock owner => owner
  | .clear owner _ => owner
  | .enlist owner _ _ => owner

/-- `sys_flock` up to its first access to the registry; `none` is `EINVAL`. -/
def sysFlock (owner : OwnerId) (pid : WaiterPid) (operation : BitVec 32) : Option Call :=
  let nonBlocking := decide (operation &&& LOCK_NB ≠ 0)
  let op := operation &&& ~~~LOCK_NB
  if op = LOCK_UN then some (.unlock owner)
  else if op = LOCK_SH then some (if nonBlocking then .lock owner .shared else .register owner pid .shared)
  else if op = LOCK_EX then some (if nonBlocking then .lock owner .exclusive else .register owner pid .exclusive)
  else none

/-- What a task in a waiter list waits for. -/
structure Request where
  inode : InodeId
  pid : WaiterPid
  owner : OwnerId
  kind : LockType
  deriving DecidableEq

/-- The part of an open `File` that locking uses: the inode its vnode is, and the flag. -/
structure OpenFile where
  inode : InodeId
  hasFlock : Bool

structure World where
  registry : FlockRegistry
  files : OwnerId → Option OpenFile
  nextOwnerId : OwnerId
  calls : List Call
  requests : List Request
  woken : List WaiterPid

namespace World

def init : World :=
  { registry := FlockRegistry.new, files := fun _ => none, nextOwnerId := 1, calls := [], requests := [], woken := [] }

/-- What an access leaves behind, with the rest of the call. -/
structure Effect where
  registry : FlockRegistry
  hasFlock : Bool
  requests : List Request
  woken : List WaiterPid
  next : Option Call

/-- An access that touches nothing shared. -/
def goOn (w : World) (f : OpenFile) (next : Option Call) : Effect :=
  { registry := w.registry, hasFlock := f.hasFlock, requests := w.requests, woken := w.woken, next := next }

/-- One access of a call on the file `f`; `signal` says whether a signal is pending. -/
def access (w : World) (f : OpenFile) (signal : Bool) : Call → Effect
  | .lock owner kind =>
    match tryLock kind w.registry f.inode owner with
    | (.ok _, reg) => { w.goOn f (some (.mark owner)) with registry := reg }
    | (.error _, reg) => { w.goOn f none with registry := reg }
  | .register owner pid kind =>
    { w.goOn f (some (.attempt owner pid kind)) with
      registry := w.registry.registerWaiter f.inode pid
      requests := { inode := f.inode, pid := pid, owner := owner, kind := kind } :: w.requests }
  | .attempt owner pid kind =>
    match tryLock kind w.registry f.inode owner with
    | (.ok _, reg) => { w.goOn f (some (.unregister owner pid true)) with registry := reg }
    | (.error .wouldBlock, reg) => { w.goOn f (some (.asleep owner pid kind)) with registry := reg }
    | (.error _, reg) => { w.goOn f (some (.unregister owner pid false)) with registry := reg }
  | .asleep owner pid kind => w.goOn f (some (if signal then .unregister owner pid false else .register owner pid kind))
  | .unregister owner pid got =>
    { w.goOn f (if got then some (.mark owner) else none) with
      registry := w.registry.unregisterWaiter f.inode pid
      requests := w.requests.filter (fun r => !(r.inode == f.inode && r.pid == pid)) }
  | .mark _ => { w.goOn f none with hasFlock := true }
  | .unlock owner =>
    { w.goOn f (some (.clear owner (w.registry.unlock f.inode owner).1)) with
      registry := (w.registry.unlock f.inode owner).2
      -- the waiters are in the hands of the call from here on
      requests := w.requests.filter (fun r => r.inode != f.inode) }
  | .clear _ waiters => { w.goOn f none with hasFlock := false, woken := w.woken ++ waiters }
  | .enlist owner pid kind =>
    { w.goOn f none with
      registry := w.registry.registerWaiter f.inode pid
      requests := { inode := f.inode, pid := pid, owner := owner, kind := kind } :: w.requests }

/-- The calls after the `k`-th of them has done an access. -/
def callsAfter (w : World) (k : Nat) : Option Call → List Call
  | some c => w.calls.set k c
  | none => w.calls.eraseIdx k

def advance (w : World) (k : Nat) (owner : OwnerId) (f : OpenFile) (eff : Effect) : World :=
  { w with
    registry := eff.registry
    files := update w.files owner (some { f with hasFlock := eff.hasFlock })
    requests := eff.requests
    woken := eff.woken
    calls := w.callsAfter k eff.next }

/-- `Drop for File`: what `unlock` returns is dropped with it. `statOk` says whether `stat` succeeds. -/
def dropFile (w : World) (owner : OwnerId) (f : OpenFile) (statOk : Bool) : World :=
  { w with
    files := update w.files owner none
    registry := if f.hasFlock ∧ statOk then (w.registry.unlock f.inode owner).2 else w.registry }

/-- What a task may start. -/
inductive Entry where
  | flock (owner : OwnerId) (pid : WaiterPid) (operation : BitVec 32)
  | registerWaiter (owner : OwnerId) (pid : WaiterPid) (kind : LockType)
  | unregisterWaiter (owner : OwnerId) (pid : WaiterPid)

def Entry.call : Entry → Option Call
  | .flock owner pid operation => sysFlock owner pid operation
  | .registerWaiter owner pid kind => some (.enlist owner pid kind)
  | .unregisterWaiter owner pid => some (.unregister owner pid false)

inductive Action where
  /-- `File::new` on a vnode with this inode. -/
  | open (inode : InodeId)
  | call (entry : Entry)
  /-- The `k`-th call in flight does its next access. -/
  | advance (k : Nat) (signal : Bool)
  /-- The last reference to a file goes. -/
  | drop (owner : OwnerId) (statOk : Bool)

def step (w : World) : Action → Option World
  | .open inode => some { w with
      files := update w.files w.nextOwnerId (some { inode := inode, hasFlock := false })
      nextOwnerId := w.nextOwnerId + 1 }
  | .call entry =>
    match entry.call with
    | some c => if (w.files c.owner).isSome then some { w with calls := w.calls ++ [c] } else none
    | none => none
  | .advance k signal =>
    match w.calls[k]? with
    | some c =>
      match w.files c.owner with
      | some f => some (w.advance k c.owner f (w.access f signal c))
      | none => none
    | none => none
  | .drop owner statOk =>
    match w.files owner with
    | some f => if ∀ c ∈ w.calls, c.owner ≠ owner then some (w.dropFile owner f statOk) else none
    | none => none

/-! ## The condition -/

/-- The lock state of an inode. -/
def locksOf (w : World) (inode : InodeId) : List LockEntry := (w.registry.entry inode).locks

/-- **A shared lock in place of the exclusive one is taken only when nobody else waits for a shared lock** there. -/
def Quiet (w : World) (f : OpenFile) (owner : OwnerId) (kind : LockType) : Prop :=
  kind = .shared → { ownerId := owner, lockType := .exclusive } ∈ w.locksOf f.inode →
    ∀ r ∈ w.requests, r.inode = f.inode → r.owner ≠ owner → r.kind = .exclusive

/-- What an access must find. -/
def Careful (w : World) (f : OpenFile) : Call → Prop
  | .lock owner kind => w.Quiet f owner kind
  | .attempt owner _ kind => w.Quiet f owner kind
  -- the flag is not cleared under a lock that another call on the same file has taken meanwhile
  | .clear owner _ => ∀ e ∈ w.locksOf f.inode, e.ownerId ≠ owner
  | _ => True

/-- **Nobody waits when the last close releases a lock**, and `stat` does not fail under it. -/
def QuietDrop (w : World) (owner : OwnerId) (f : OpenFile) (statOk : Bool) : Prop :=
  ((∃ e ∈ w.locksOf f.inode, e.ownerId = owner) → statOk = true) ∧
    (f.hasFlock = true → statOk = true → (w.registry.entry f.inode).waiters = [])

/-- The counter of files does not wrap, and accesses and last closes find what they must. -/
def Tame (w : World) : Action → Prop
  | .open _ => w.nextOwnerId.toNat + 1 < 2 ^ 64
  | .advance k _ =>
    match w.calls[k]? with
    | some c =>
      match w.files c.owner with
      | some f => w.Careful f c
      | none => True
    | none => True
  | .drop owner statOk =>
    match w.files owner with
    | some f => w.QuietDrop owner f statOk
    | none => True
  | _ => True

instance (w : World) (f : OpenFile) (owner : OwnerId) (kind : LockType) : Decidable (w.Quiet f owner kind) := by
  delta Quiet
  infer_instance

instance (w : World) (f : OpenFile) (c : Call) : Decidable (w.Careful f c) := by
  delta Careful
  cases c <;> infer_instance

instance (w : World) (owner : OwnerId) (f : OpenFile) (statOk : Bool) : Decidable (w.QuietDrop owner f statOk) := by
  delta QuietDrop
  infer_instance

instance (w : World) (a : Action) : Decidable (w.Tame a) := by
  delta Tame
  repeat' split
  all_goals infer_instance

/-! ## What a step does -/

variable {w w' : World}

/-- **The steps**, with the file they are about. -/
theorem step_cases {a : Action} (h : w.step a = some w') : (∃ inode, a = .open inode ∧ w' = { w with
        files := update w.files w.nextOwnerId (some { inode := inode, hasFlock := false })
        nextOwnerId := w.nextOwnerId + 1 }) ∨
      (∃ c f, w.files c.owner = some f ∧ w' = { w with calls := w.calls ++ [c] }) ∨
      (∃ k signal c f, a = .advance k signal ∧ w.calls[k]? = some c ∧ w.files c.owner = some f ∧
        w' = w.advance k c.owner f (w.access f signal c)) ∨
      ∃ owner statOk f, a = .drop owner statOk ∧ w.files owner = some f ∧ (∀ c ∈ w.calls, c.owner ≠ owner) ∧
        w' = w.dropFile owner f statOk := by
  cases a with
  | «open» inode =>
    cases h
    exact .inl ⟨inode, rfl, rfl⟩
  | call entry =>
    unfold step at h
    dsimp only at h
    split at h
    next c _ =>
      split at h
      next hsome =>
        obtain ⟨f, hf⟩ := Option.isSome_iff_exists.mp hsome
        cases h
        exact .inr (.inl ⟨c, f, hf, rfl⟩)
      · cases h
    · cases h
  | advance k signal =>
    unfold step at h
    dsimp only at h
    split at h
    next c hc =>
      split at h
      next f hf =>
        cases h
        exact .inr (.inr (.inl ⟨k, signal, c, f, rfl, hc, hf, rfl⟩))
      · cases h
    · cases h
  | drop owner statOk =>
    unfold step at h
    dsimp only at h
    split at h
    next f hf =>
      split at h
      next hnone =>
        cases h
        exact .inr (.inr (.inr ⟨owner, statOk, f, rfl, hf, hnone, rfl⟩))
      · cases h
    · cases h

end World

/-- The kind of lock a call tries to take with its next access. -/
def Call.tries : Call → Option LockType
  | .lock _ kind => some kind
  | .attempt _ _ kind => some kind
  | _ => none

/-- A call that has taken a lock and will set the flag. -/
def Call.marks : Call → Bool
  | .mark _ => true
  | .unregister _ _ got => got
  | _ => false

namespace World

variable {w w' : World} {f : OpenFile} {signal : Bool} {c : Call}

/-! ### One access -/

variable {owner : OwnerId} {kind : LockType} {pid : WaiterPid}

/-- **What a try does**: it is granted, and the call goes on to mark the file, or it leaves the locks alone. -/
theorem access_try (w : World) (f : OpenFile) (signal : Bool) (h : c.tries = some kind) :
    ((w.registry.entry f.inode).conflicts c.owner kind = false ∧ ∃ n : Call, n.owner = c.owner ∧ n.marks = true ∧
      w.access f signal c = { w.goOn f (some n) with
        registry := update w.registry f.inode (some ((w.registry.entry f.inode).grant c.owner kind)) }) ∨
    ∃ n : Option Call, (∀ c', n = some c' → c'.owner = c.owner) ∧
      w.access f signal c = { w.goOn f n with
        registry := update w.registry f.inode (some (w.registry.entry f.inode)) } := by
  cases hc : (w.registry.entry f.inode).conflicts c.owner kind with
  | false =>
    refine .inl ⟨rfl, ?_⟩
    cases c with
    | lock owner k =>
      cases h
      refine ⟨.mark owner, rfl, rfl, ?_⟩
      simp only [Call.owner] at hc ⊢
      simp [access, tryLock_ok hc]
    | attempt owner pid k =>
      cases h
      refine ⟨.unregister owner pid true, rfl, rfl, ?_⟩
      simp only [Call.owner] at hc ⊢
      simp [access, tryLock_ok hc]
    | _ => cases h
  | true =>
    refine .inr ?_
    cases c with
    | lock owner k =>
      cases h
      refine ⟨none, nofun, ?_⟩
      simp only [Call.owner] at hc
      simp [access, tryLock_error hc]
    | attempt owner pid k =>
      cases h
      refine ⟨some (.asleep owner pid kind), fun c' hc' => ?_, ?_⟩
      · cases hc'
        rfl
      · simp only [Call.owner] at hc
        simp [access, tryLock_error hc]
    | _ => cases h

theorem update_entry (reg : FlockRegistry) (inode other : InodeId) :
    FlockRegistry.entry (update reg inode (some (reg.entry inode))) other = reg.entry other := by
  by_cases h : other = inode
  · rw [h, entry_update_self]
  · exact entry_update_other h

/-- An access changes the lock state of the file's own inode only. -/
theorem access_other {inode : InodeId} (h : inode ≠ f.inode) :
    (w.access f signal c).registry.entry inode = w.registry.entry inode := by
  cases ht : c.tries with
  | some kind =>
    rcases access_try w f signal ht with ⟨-, n, -, -, he⟩ | ⟨n, -, he⟩ <;> rw [he]
    all_goals exact entry_update_other h
  | none =>
  cases c with
  | lock | attempt => cases ht
  | register | enlist => exact entry_update_other h
  | unregister => exact unregisterWaiter_other h
  | unlock => exact unlock_other h
  | asleep | mark | clear => rfl

/-- **What an access does to the locks of its inode**: it takes one for the owner, releases the owner's and takes
    all waiters with it, or leaves them. -/
theorem access_locks : (∃ kind n, c.tries = some kind ∧ (w.registry.entry f.inode).conflicts c.owner kind = false ∧
      (w.access f signal c).registry.entry f.inode = (w.registry.entry f.inode).grant c.owner kind ∧
      (w.access f signal c).next = some n ∧ n.marks = true) ∨
    (∃ owner, c = .unlock owner ∧ (w.access f signal c).registry.entry f.inode =
      { locks := (w.locksOf f.inode).filter (fun e => e.ownerId != owner), waiters := [] }) ∨
    ((w.access f signal c).registry.entry f.inode).locks = w.locksOf f.inode := by
  cases ht : c.tries with
  | some kind =>
    rcases access_try w f signal ht with ⟨hc, n, -, hn, he⟩ | ⟨n, -, he⟩ <;> rw [he]
    · exact .inl ⟨kind, n, rfl, hc, entry_update_self _, rfl, hn⟩
    · exact .inr (.inr (congrArg locks (entry_update_self _)))
  | none =>
  cases c with
  | lock | attempt => cases ht
  | unlock owner => exact .inr (.inl ⟨owner, rfl, unlock_entry⟩)
  | register | enlist =>
    refine .inr (.inr ?_)
    show (entry (registerWaiter _ _ _) f.inode).locks = _
    rw [registerWaiter, entry_update_self, addWaiter_locks]
    rfl
  | unregister =>
    refine .inr (.inr ?_)
    show (entry (unregisterWaiter _ _ _) f.inode).locks = _
    rw [unregisterWaiter_entry]
    rfl
  | asleep | mark | clear => exact .inr (.inr rfl)

/-- What a call does next is for the same file. -/
theorem access_next_owner {n : Call} (h : (w.access f signal c).next = some n) : n.owner = c.owner := by
  cases ht : c.tries with
  | some kind =>
    rcases access_try w f signal ht with ⟨-, n', ho, -, he⟩ | ⟨n', ho, he⟩ <;> rw [he] at h
    · cases h
      exact ho
    · exact ho n h
  | none =>
  cases c with
  | lock | attempt => cases ht
  | register | unlock => cases h; rfl
  | unregister owner pid got =>
    cases got with
    | false => cases h
    | true => cases h; rfl
  | asleep =>
    cases signal with
    | false | true => cases h; rfl
  | enlist | mark | clear => cases h

/-- A call that has a lock to mark goes on to mark it, or does. -/
theorem access_marks (h : c.marks = true) :
    (w.access f signal c).hasFlock = true ∨ ∃ n, (w.access f signal c).next = some n ∧ n.marks = true := by
  cases c with
  | mark owner => exact .inl rfl
  | unregister owner pid got =>
    cases h
    exact .inr ⟨.mark owner, rfl, rfl⟩
  | _ => cases h

/-- Only `clear_flock_held` clears the flag. -/
theorem access_flag (h : f.hasFlock = true) :
    (w.access f signal c).hasFlock = true ∨ ∃ owner waiters, c = .clear owner waiters := by
  cases ht : c.tries with
  | some kind =>
    refine .inl ?_
    rcases access_try w f signal ht with ⟨-, n, -, -, he⟩ | ⟨n, -, he⟩ <;> rw [he] <;> exact h
  | none =>
  cases c with
  | lock | attempt => cases ht
  | clear owner waiters => exact .inr ⟨owner, waiters, rfl⟩
  | mark => exact .inl rfl
  | register | enlist | unregister | unlock | asleep => exact .inl h

/-- **Whoever waits stays in the list** until it unregisters or an `unlock` hands it out. -/
theorem access_requests (h : ∀ r ∈ w.requests, r.pid ∈ (w.registry.entry r.inode).waiters) :
    ∀ r ∈ (w.access f signal c).requests, r.pid ∈ ((w.access f signal c).registry.entry r.inode).waiters := by
  have henlist : ∀ owner pid kind, ∀ r ∈ (⟨f.inode, pid, owner, kind⟩ : Request) :: w.requests,
      r.pid ∈ ((w.registry.registerWaiter f.inode pid).entry r.inode).waiters := by
    intro owner pid kind r hr
    by_cases hi : r.inode = f.inode
    · rw [registerWaiter, hi, entry_update_self, mem_addWaiter]
      rcases mem_cons.mp hr with rfl | hr
      · exact .inr rfl
      · exact .inl (hi ▸ h r hr)
    rw [registerWaiter, entry_update_other hi]
    rcases mem_cons.mp hr with rfl | hr
    · exact absurd rfl hi
    · exact h r hr
  have htry : ∀ owner kind, ∀ r ∈ w.requests, r.pid ∈ (entry (update w.registry f.inode
      (some ((w.registry.entry f.inode).grant owner kind))) r.inode).waiters := by
    intro owner kind r hr
    by_cases hi : r.inode = f.inode
    · rw [hi, entry_update_self, grant_waiters]
      exact hi ▸ h r hr
    · rw [entry_update_other hi]
      exact h r hr
  intro r hr
  cases ht : c.tries with
  | some kind =>
    rcases access_try w f signal ht with ⟨-, n, -, -, he⟩ | ⟨n, -, he⟩ <;> rw [he] at hr ⊢
    · exact htry _ _ r hr
    · exact (update_entry w.registry f.inode r.inode).symm ▸ h r hr
  | none =>
  cases c with
  | lock | attempt => cases ht
  | register owner pid kind | enlist owner pid kind => exact henlist owner pid kind r hr
  | unregister owner pid got =>
    obtain ⟨hmem, hne⟩ := mem_filter.mp hr
    show r.pid ∈ (entry (unregisterWaiter _ _ _) r.inode).waiters
    by_cases hi : r.inode = f.inode
    · have hpid : r.pid ≠ pid := by
        intro hp
        simp [hi, hp] at hne
      rw [hi, unregisterWaiter_entry]
      refine mem_filter.mpr ⟨hi ▸ h r hmem, ?_⟩
      simpa using hpid
    · rw [unregisterWaiter_other hi]
      exact h r hmem
  | unlock owner =>
    obtain ⟨hmem, hne⟩ := mem_filter.mp hr
    have hi : r.inode ≠ f.inode := by simpa using hne
    show r.pid ∈ (entry (unlock _ _ _).2 r.inode).waiters
    rw [unlock_other hi]
    exact h r hmem
  | asleep | mark | clear => exact h r hr

end World
end OxideOs.Vfs.Flock

import OxideOs.Lib.Placed
import OxideOs.Lib.Run
import OxideOs.Proc.Futex

/-!
# `Proc.FutexCalls` — `sys_futex` between processes

`sys_futex` as one call after another, by threads of several processes. The queues are one map for all processes, and
its key is the virtual address of the call: two processes that use one address for two words share a queue.
`val` and `timeout` are counts in the calls that take waiters, and are read as signed 32-bit numbers.

A thread leaves its wait with `futex_wait_cancel` and the address it waited on. A requeue moves the entry of a waiter
to another address, and the waiter is not told.

The state remembers for each thread the word it waits on, the address it gave, and whether it has left its wait; the
code has none of these. A signal ends a wait at any time and leaves the entry, so any thread may call in any state.
-/

namespace OxideOs.Futex

open Function List Option Checked FutexWaiter Run Bool

/-! ## `sys_futex` -/

def EFAULT : Int := -14
def EAGAIN : Int := -11
def EINVAL : Int := -22
def EINTR : Int := -4
def ENOSYS : Int := -38
def ETIMEDOUT : Int := -110

/-- The operations of `futex_op` that `sys_futex` knows. -/
inductive Command where
  | wait
  | wake
  | requeue
  | cmpRequeue
  | waitBitset
  | wakeBitset
  deriving DecidableEq

def FUTEX_PRIVATE_FLAG : BitVec 32 := 128

def command (op : BitVec 32) : Option Command :=
  let masked := op &&& ~~~ FUTEX_PRIVATE_FLAG
  if masked = 0 then some .wait
  else if masked = 1 then some .wake
  else if masked = 9 then some .waitBitset
  else if masked = 10 then some .wakeBitset
  else if masked = 3 then some .requeue
  else if masked = 4 then some .cmpRequeue
  else none

/-- What a call does: the value it returns, the queues behind it, the threads it wakes, and whether it blocks. -/
structure Outcome where
  ret : Int
  queues : Queues
  woken : List Nat := []
  blocks : Bool := false

def waitErrno : FutexError → Int
  | .wouldBlock => EAGAIN
  | .invalidAddress => EFAULT
  | .timedOut => ETIMEDOUT
  | .interrupted => EINTR
  | .invalidOp => EINVAL

/-- The errors of `FUTEX_WAIT_BITSET` and `FUTEX_CMP_REQUEUE`. -/
def compareErrno : FutexError → Int
  | .wouldBlock => EAGAIN
  | .invalidAddress => EFAULT
  | _ => EINVAL

def wakeErrno : FutexError → Int
  | .invalidAddress => EFAULT
  | _ => EINVAL

/-- The end of a call that waits. -/
def waitOutcome (q : Queues) (errno : FutexError → Int) : Except FutexError (FutexWaitResult × Queues) → Outcome
  | .ok (.valueMismatch, queues) => { ret := EAGAIN, queues := queues }
  | .ok (.shouldBlock, queues) => { ret := 0, queues := queues, blocks := true }
  | .error e => { ret := errno e, queues := q }

/-- The end of a call that wakes. -/
def wakeOutcome (q : Queues) (errno : FutexError → Int) : Except FutexError (List Nat × Queues) → Outcome
  | .ok (pids, queues) => { ret := pids.length, queues := queues, woken := pids }
  | .error e => { ret := errno e, queues := q }

/-- The arguments of a call. -/
structure CallArgs where
  addr : Nat
  op : BitVec 32
  val : BitVec 32 := 0
  timeout : Nat := 0
  addr2 : Nat := 0
  val3 : BitVec 32 := 0

/-- `val as i32` -/
def CallArgs.count (c : CallArgs) : Int := c.val.toInt

/-- `timeout as i32` -/
def CallArgs.requeueCount (c : CallArgs) : Int := asI32 c.timeout

def sysFutex (q : Queues) (word : Nat → Option (BitVec 32)) (current : Nat) (c : CallArgs) : Checked Outcome :=
  if !userAddr c.addr then .ok { ret := EFAULT, queues := q }
  else
    match command c.op with
    | some .wait => waitOutcome q waitErrno <$> futexWaitPrepare q word current c.addr c.val
    | some .wake => wakeOutcome q wakeErrno <$> futexWake q c.addr c.count
    | some .waitBitset => waitOutcome q compareErrno <$> futexWaitBitsetPrepare q word current c.addr c.val c.val3
    | some .wakeBitset => .ok (wakeOutcome q wakeErrno (futexWakeBitset q c.addr c.count c.val3))
    | some .requeue => wakeOutcome q wakeErrno <$> futexRequeue q c.addr c.count c.addr2 c.requeueCount
    | some .cmpRequeue =>
      wakeOutcome q compareErrno <$> futexCmpRequeue q word c.addr c.count c.addr2 c.requeueCount c.val3
    | none => .ok { ret := ENOSYS, queues := q }

/-! ## The machine -/

structure CallState where
  queues : Queues := fun _ => []
  /-- The physical words. -/
  mem : Nat → BitVec 32 := fun _ => 0
  /-- What word an address of a process names, if it is mapped. -/
  space : Nat → Nat → Option Nat := fun _ _ => none
  /-- The word a thread waits on. -/
  waitsOn : Nat → Option Nat := fun _ => none
  /-- The address of a thread's last wait. -/
  waitAddr : Nat → Option Nat := fun _ => none
  /-- The thread has cancelled its last wait. -/
  left : Nat → Bool := fun _ => false

open CallState

inductive CallOp where
  | call (t : Nat) (c : CallArgs)
  /-- `futex_wait_cancel` -/
  | cancel (t addr : Nat)
  | store (word : Nat) (value : BitVec 32)
  | map (p addr : Nat) (word : Option Nat)

/-- The memory as a process sees it. -/
def CallState.view (s : CallState) (p addr : Nat) : Option (BitVec 32) := (s.space p addr).map s.mem

/-- The call has moved the entry of the thread away from its address. -/
def movedAway (q : Queues) (c : CallArgs) (out : Outcome) (u : Nat) : Bool :=
  u ∈ (q c.addr).map pid ∧ u ∉ (out.queues c.addr).map pid ∧ u ∉ out.woken

variable (owner : Nat → Nat)

/-- A call by thread `t` of process `owner t`. -/
def CallState.sys (s : CallState) (t : Nat) (c : CallArgs) : Checked Outcome := sysFutex s.queues (s.view (owner t)) t c

/-- A panic stops the machine. -/
def CallState.step (s : CallState) : CallOp → Option CallState
  | .call t c =>
    match s.sys owner t c with
    | .error _ => none
    | .ok out =>
      some
        { s with
          queues := out.queues
          waitsOn := fun u =>
            if out.blocks ∧ u = t then s.space (owner t) c.addr
            else if movedAway s.queues c out u then s.space (owner t) c.addr2
            else s.waitsOn u
          waitAddr := fun u => if out.blocks ∧ u = t then some c.addr else s.waitAddr u
          left := fun u => if out.blocks ∧ u = t then false else s.left u }
  | .cancel t addr =>
    some
      { s with
        queues := futexWaitCancel s.queues t addr
        left := fun u => s.left u || decide (u = t ∧ s.waitAddr t = some addr) }
  | .store word value => some { s with mem := update s.mem word value }
  | .map p addr word => some { s with space := update s.space p (update (s.space p) addr word) }

/-- The thread waits on the word that `addr` names in the process. -/
def CallState.Shares (s : CallState) (p addr u : Nat) : Prop :=
  ∃ word, s.waitsOn u = some word ∧ s.space p addr = some word

/-! ## The condition -/

/-- The call gets to the section that takes waiters. -/
def takesWaiters (word : Nat → Option (BitVec 32)) (c : CallArgs) : Prop :=
  userAddr c.addr = true ∧
  match command c.op with
  | some .wake => True
  | some .wakeBitset => c.val3 ≠ 0
  | some .requeue => userAddr c.addr2 = true
  | some .cmpRequeue => userAddr c.addr2 = true ∧ word c.addr = some c.val3
  | _ => False

/-- The call moves waiters. -/
def requeues (c : CallArgs) : Prop := command c.op = some .requeue ∨ command c.op = some .cmpRequeue

/-- **The calls that do not meet a defect.** A word that is read is aligned and mapped; waiters are taken with counts
    that are not negative, and those of other processes wait on the caller's word; and a thread that cancels its wait
    was not moved to another address. -/
def Guarded (s : CallState) : CallOp → Prop
  | .call t c =>
    userAddr c.addr = true →
    (command c.op = some .wait → checkWait c.addr = .ok () → (s.space (owner t) c.addr).isSome) ∧
    (command c.op = some .waitBitset → checkWaitBitset c.addr c.val3 = .ok () →
      (s.space (owner t) c.addr).isSome) ∧
    (command c.op = some .cmpRequeue → c.addr % 4 = 0 ∧ (s.space (owner t) c.addr).isSome) ∧
    (takesWaiters (s.view (owner t)) c → s.queues c.addr ≠ [] →
      0 ≤ c.count ∧ (requeues c → 0 ≤ c.requeueCount) ∧ (s.queues c.addr).length < 2 ^ 31 ∧
      ∀ w ∈ s.queues c.addr, owner w.pid ≠ owner t → s.Shares (owner t) c.addr w.pid)
  | .cancel t addr => s.waitAddr t = some addr → ∀ a, a ≠ addr → ∀ w ∈ s.queues a, w.pid ≠ t
  | _ => True

/-! ## What a call does -/

/-- The most waiters that a call may move. -/
def CallArgs.moveLimit (c : CallArgs) : Nat :=
  match command c.op with
  | some .requeue | some .cmpRequeue => c.requeueCount.toNat
  | _ => 0

/-- **What a call does to the queues.** Entries come from the queues, or are the caller's own; only the queue of the
    call's address loses entries, no more than the counts allow, and only in the section that takes waiters. -/
structure CallEffect (q : Queues) (word : Nat → Option (BitVec 32)) (t : Nat) (c : CallArgs) (out : Outcome) :
    Prop where
  origin : ∀ a, ∀ w ∈ out.queues a, w ∈ q a ∨ (w ∈ q c.addr ∧ takesWaiters word c) ∨ (out.blocks = true ∧ w.pid = t)
  woken_queued : ∀ u ∈ out.woken, ∃ w ∈ q c.addr, w.pid = u
  woken_takes : out.woken ≠ [] → takesWaiters word c
  kept : ∀ a, ∀ w ∈ q a, w ∉ out.queues a → a = c.addr ∧ takesWaiters word c
  count : out.woken.length ≤ c.count.toNat
  taken : (q c.addr).length ≤ (out.queues c.addr).length + out.woken.length + c.moveLimit

open CallEffect

section Effects

variable {q : Queues} {word : Nat → Option (BitVec 32)} {t : Nat} {c : CallArgs}

/-- A call that leaves the queues. -/
theorem CallEffect.same (ret : Int) : CallEffect q word t c { ret := ret, queues := q } where
  origin := fun _ _ hw => .inl hw
  woken_queued := nofun
  woken_takes := fun h => absurd rfl h
  kept := fun _ _ hw hnot => absurd hw hnot
  count := Nat.zero_le _
  taken := by
    change (q c.addr).length ≤ (q c.addr).length + 0 + c.moveLimit
    omega

/-- A call that queues its thread. -/
theorem CallEffect.enqueue (ret : Int) (bitset : BitVec 32) :
    CallEffect q word t c { ret := ret, queues := Futex.enqueue q t c.addr bitset, blocks := true } where
  origin := by
    intro a w hw
    change w ∈ update q c.addr (q c.addr ++ [⟨t, bitset⟩]) a at hw
    rcases mem_update.mp hw with ⟨rfl, hnew⟩ | ⟨-, hw⟩
    · rw [mem_append, mem_singleton] at hnew
      rcases hnew with hw | rfl
      · exact .inl hw
      · exact .inr (.inr ⟨rfl, rfl⟩)
    · exact .inl hw
  woken_queued := nofun
  woken_takes := fun h => absurd rfl h
  kept := by
    intro a w hw hnot
    refine absurd ?_ hnot
    change w ∈ update q c.addr (q c.addr ++ [⟨t, bitset⟩]) a
    by_cases ha : a = c.addr
    · subst ha
      rw [update_self]
      exact mem_append_left _ hw
    · rw [update_of_ne ha]
      exact hw
  count := Nat.zero_le _
  taken := by
    change (q c.addr).length ≤ (update q c.addr (q c.addr ++ [⟨t, bitset⟩]) c.addr).length + 0 + c.moveLimit
    rw [update_self, length_append]
    omega

/-- A call that takes waiters from the queue. -/
theorem CallEffect.take (ret : Int) {taken rest : List FutexWaiter} (htakes : takesWaiters word c)
    (hsplit : (taken ++ rest).Perm (q c.addr)) (hcount : taken.length ≤ c.count.toNat) :
    CallEffect q word t c { ret := ret, queues := update q c.addr rest, woken := taken.map pid } where
  origin := by
    intro a w hw
    change w ∈ update q c.addr rest a at hw
    rcases mem_update.mp hw with ⟨rfl, hkept⟩ | ⟨-, hw⟩
    · exact .inl (hsplit.mem_iff.mp (mem_append_right _ hkept))
    · exact .inl hw
  woken_queued := by
    intro u hu
    obtain ⟨w, hw, rfl⟩ := mem_map.mp hu
    exact ⟨w, hsplit.mem_iff.mp (mem_append_left _ hw), rfl⟩
  woken_takes := fun _ => htakes
  kept := by
    intro a w hw hnot
    refine ⟨?_, htakes⟩
    by_contra ha
    exact hnot (mem_update.mpr (.inr ⟨ha, hw⟩))
  count := by
    rw [length_map]
    exact hcount
  taken := by
    have hlen := hsplit.length_eq
    rw [length_append] at hlen
    change _ ≤ (update q c.addr rest c.addr).length + (taken.map pid).length + _
    rw [update_self, length_map]
    omega

/-- A call that takes waiters and moves others behind another queue. -/
theorem CallEffect.requeue (ret : Int) {taken moved rest : List FutexWaiter} (htakes : takesWaiters word c)
    (hsplit : q c.addr = taken ++ (moved ++ rest)) (hcount : taken.length ≤ c.count.toNat)
    (hmoved : moved.length ≤ c.moveLimit) :
    CallEffect q word t c
      { ret := ret
        queues := update (update q c.addr rest) c.addr2
          (update q c.addr rest c.addr2 ++ moved)
        woken := taken.map pid } := by
  have hrest : ∀ w ∈ rest, w ∈ q c.addr := fun w hw => by
    rw [hsplit]
    exact mem_append_right _ (mem_append_right _ hw)
  have hcut : ∀ a, ∀ w ∈ update q c.addr rest a, w ∈ q a := by
    intro a w hw
    rcases mem_update.mp hw with ⟨rfl, hkept⟩ | ⟨-, hw⟩
    · exact hrest w hkept
    · exact hw
  have hgrow : ∀ a, (update q c.addr rest a).Sublist (update (update q c.addr rest) c.addr2
      (update q c.addr rest c.addr2 ++ moved) a) := by
    intro a
    by_cases ha : a = c.addr2
    · subst ha
      rw [update_self]
      exact sublist_append_left _ _
    · rw [update_of_ne ha]
  constructor
  · intro a w hw
    change w ∈ update (update q c.addr rest) c.addr2 _ a at hw
    rcases mem_update.mp hw with ⟨rfl, hnew⟩ | ⟨-, hw⟩
    · rcases mem_append.mp hnew with hw | hw
      · exact .inl (hcut _ w hw)
      refine .inr (.inl ⟨?_, htakes⟩)
      rw [hsplit]
      exact mem_append_right _ (mem_append_left _ hw)
    · exact .inl (hcut _ w hw)
  · intro u hu
    obtain ⟨w, hw, rfl⟩ := mem_map.mp hu
    exact ⟨w, by rw [hsplit]; exact mem_append_left _ hw, rfl⟩
  · exact fun _ => htakes
  · intro a w hw hnot
    refine ⟨?_, htakes⟩
    by_contra ha
    exact hnot ((hgrow a).subset (mem_update.mpr (.inr ⟨ha, hw⟩)))
  · rw [length_map]
    exact hcount
  · have hkept := (hgrow c.addr).length_le
    rw [update_self] at hkept
    have hlen := congrArg length hsplit
    rw [length_append, length_append] at hlen
    rw [length_map]
    change _ ≤ length (update (update q c.addr rest) c.addr2 _ c.addr) + _ + _
    omega

end Effects

/-! ## Calls that meet no defect -/

section Calls

variable {owner} {s : CallState} {t : Nat} {c : CallArgs}

variable {addr : Nat} {bitset : BitVec 32}

theorem readWord_of_mapped {word : Nat → Option (BitVec 32)} (haligned : addr % 4 = 0)
    (hmapped : (word addr).isSome) : ∃ value, word addr = some value ∧ readWord word addr = .ok value := by
  obtain ⟨value, hvalue⟩ := isSome_iff_exists.mp hmapped
  refine ⟨value, hvalue, ?_⟩
  unfold readWord
  rw [if_neg (not_not.mpr haligned), hvalue]

theorem view_isSome {p : Nat} (h : (s.space p addr).isSome) : (s.view p addr).isSome := by
  unfold view
  rw [isSome_map]
  exact h

theorem checkWait_aligned (h : checkWait addr = .ok ()) : addr % 4 = 0 := by
  unfold checkWait at h
  split at h
  · cases h
  split at h
  · cases h
  next haligned =>
    exact not_not.mp haligned

theorem checkWaitBitset_checkWait (h : checkWaitBitset addr bitset = .ok ()) : checkWait addr = .ok () := by
  unfold checkWaitBitset at h
  cases hcheck : checkWait addr with
  | ok u => rfl
  | error e =>
    rw [hcheck] at h
    cases h

/-- A wait whose address is mapped. -/
theorem waitPrepare_effect {q : Queues} {word : Nat → Option (BitVec 32)} (errno : FutexError → Int)
    (haligned : c.addr % 4 = 0) (hmapped : (word c.addr).isSome) :
    ∃ r, waitPrepare q word t c.addr c.val bitset = .ok r ∧ CallEffect q word t c (waitOutcome q errno (.ok r)) := by
  obtain ⟨value, -, hread⟩ := readWord_of_mapped haligned hmapped
  unfold waitPrepare
  rw [hread]
  refine ⟨_, rfl, ?_⟩
  split
  · exact same EAGAIN
  · exact CallEffect.enqueue 0 bitset

theorem count_lt (c : CallArgs) : c.count < 2 ^ 64 := by
  have h := BitVec.toInt_lt (x := c.val)
  unfold CallArgs.count
  omega

/-- A requeue whose counts are not negative. -/
theorem futexRequeue_effect {q : Queues} {word : Nat → Option (BitVec 32)} (errno : FutexError → Int)
    (haddr : userAddr c.addr = true) (hlimit : c.moveLimit = c.requeueCount.toNat)
    (htakes : userAddr c.addr2 = true → takesWaiters word c)
    (hguard : takesWaiters word c → q c.addr ≠ [] → 0 ≤ c.count ∧ 0 ≤ c.requeueCount ∧ (q c.addr).length < 2 ^ 31) :
    ∃ r, futexRequeue q c.addr c.count c.addr2 c.requeueCount = .ok r ∧
      CallEffect q word t c (wakeOutcome q errno r) := by
  by_cases haddr2 : userAddr c.addr2 = true
  · have hguard := hguard (htakes haddr2)
    have hlen : (q c.addr).length < 2 ^ 31 := by
      by_cases hempty : q c.addr = []
      · rw [hempty]
        decide
      · exact (hguard hempty).2.2
    obtain ⟨taken, moved, rest, hsplit, hcount, hmoved, heq⟩ :=
      futexRequeue_ok haddr haddr2 (fun hne => ⟨(hguard hne).1, (hguard hne).2.1⟩) hlen
    exact ⟨_, heq, requeue _ (htakes haddr2) hsplit hcount (hlimit ▸ hmoved)⟩
  · refine ⟨.error .invalidAddress, ?_, same _⟩
    unfold futexRequeue
    rw [haddr, not_eq_true _ |>.mp haddr2]
    rfl

/-- **A call that meets no defect returns**, and does what `CallEffect` says. -/
theorem sys_effect (hguard : Guarded owner s (.call t c)) :
    ∃ out, s.sys owner t c = .ok out ∧ CallEffect s.queues (s.view (owner t)) t c out := by
  unfold sys sysFutex
  by_cases haddr : userAddr c.addr = true
  swap
  · rw [not_eq_true _ |>.mp haddr]
    exact ⟨_, rfl, same EFAULT⟩
  rw [haddr]
  obtain ⟨hwait, hwaitBitset, hcmp, htake⟩ := hguard haddr
  cases hcommand : command c.op with
  | none => exact ⟨_, rfl, same ENOSYS⟩
  | some k =>
    cases k with
    | wait =>
      unfold futexWaitPrepare
      cases hcheck : checkWait c.addr with
      | error e => exact ⟨_, rfl, same _⟩
      | ok u =>
        obtain ⟨r, hr, heffect⟩ := waitPrepare_effect waitErrno (checkWait_aligned hcheck)
          (view_isSome (hwait hcommand hcheck))
        exact ⟨_, by rw [hr]; rfl, heffect⟩
    | waitBitset =>
      unfold futexWaitBitsetPrepare
      cases hcheck : checkWaitBitset c.addr c.val3 with
      | error e => exact ⟨_, rfl, same _⟩
      | ok u =>
        obtain ⟨r, hr, heffect⟩ := waitPrepare_effect compareErrno
          (checkWait_aligned (checkWaitBitset_checkWait hcheck)) (view_isSome (hwaitBitset hcommand hcheck))
        exact ⟨_, by rw [hr]; rfl, heffect⟩
    | wake =>
      have htakes : takesWaiters (s.view (owner t)) c := by
        refine ⟨haddr, ?_⟩
        rw [hcommand]
        trivial
      have hlen : (s.queues c.addr).length < 2 ^ 31 := by
        by_cases hempty : s.queues c.addr = []
        · rw [hempty]
          decide
        · exact (htake htakes hempty).2.2.1
      rw [futexWake_eq haddr (fun hne => (htake htakes hne).1) hlen]
      exact ⟨_, rfl, take _ htakes (by rw [take_append_drop]) (length_take_le _ _)⟩
    | wakeBitset =>
      by_cases hbits : c.val3 = 0
      · have herror : futexWakeBitset s.queues c.addr c.count c.val3 = .error .invalidOp := by
          unfold futexWakeBitset
          rw [haddr, if_neg (by decide), if_pos hbits]
        rw [herror]
        exact ⟨_, rfl, same EINVAL⟩
      have htakes : takesWaiters (s.view (owner t)) c := by
        refine ⟨haddr, ?_⟩
        rw [hcommand]
        exact hbits
      obtain ⟨taken, stay, heq, hsplit, hlen⟩ := futexWakeBitset_ok haddr hbits
        (fun hne => (htake htakes hne).1) (count_lt c)
      rw [heq]
      exact ⟨_, rfl, take _ htakes hsplit hlen⟩
    | requeue =>
      have htakes : userAddr c.addr2 = true → takesWaiters (s.view (owner t)) c := by
        intro haddr2
        refine ⟨haddr, ?_⟩
        rw [hcommand]
        exact haddr2
      have hlimit : c.moveLimit = c.requeueCount.toNat := by
        unfold CallArgs.moveLimit
        rw [hcommand]
      obtain ⟨r, hr, heffect⟩ := futexRequeue_effect wakeErrno haddr hlimit htakes
        (fun h hne => ⟨(htake h hne).1, (htake h hne).2.1 (.inl hcommand), (htake h hne).2.2.1⟩)
      exact ⟨_, by rw [hr]; rfl, heffect⟩
    | cmpRequeue =>
      obtain ⟨haligned, hmapped⟩ := hcmp hcommand
      obtain ⟨value, hvalue, hread⟩ := readWord_of_mapped haligned (view_isSome hmapped)
      have hlimit : c.moveLimit = c.requeueCount.toNat := by
        unfold CallArgs.moveLimit
        rw [hcommand]
      unfold futexCmpRequeue checkCmpRequeue
      rw [haddr, hread]
      by_cases hexpected : value = c.val3
      · have htakes : userAddr c.addr2 = true → takesWaiters (s.view (owner t)) c := by
          intro haddr2
          refine ⟨haddr, ?_⟩
          rw [hcommand]
          exact ⟨haddr2, hexpected ▸ hvalue⟩
        obtain ⟨r, hr, heffect⟩ := futexRequeue_effect compareErrno haddr hlimit htakes
          (fun h hne => ⟨(htake h hne).1, (htake h hne).2.1 (.inr hcommand), (htake h hne).2.2.1⟩)
        refine ⟨_, ?_, heffect⟩
        simp only [bind, Except.bind, hexpected, ne_eq, hr]
        rfl
      · refine ⟨_, ?_, same (compareErrno .wouldBlock)⟩
        simp only [bind, Except.bind, ne_eq, hexpected]
        rfl

/-! ## Runs of calls -/

/-- A thread that has left its wait is on no queue. -/
def LeftOk (s : CallState) : Prop := ∀ u, s.left u = true → ∀ a, ∀ w ∈ s.queues a, w.pid ≠ u

/-- No thread waits. -/
def CallState.Start (s : CallState) : Prop := ∀ addr, s.queues addr = []

theorem CallState.Start.leftOk (h : s.Start) : LeftOk s := by
  intro u _ a w hw
  rw [h a] at hw
  cases hw

theorem LeftOk.call {out : Outcome} (h : LeftOk s) (heffect : CallEffect s.queues (s.view (owner t)) t c out) :
    ∀ u, (if out.blocks ∧ u = t then false else s.left u) = true → ∀ a, ∀ w ∈ out.queues a, w.pid ≠ u := by
  intro u hleft a w hw
  split at hleft
  · cases hleft
  rename_i hother
  rcases heffect.origin a w hw with hold | ⟨hold, -⟩ | ⟨hblocks, hpid⟩
  · exact h u hleft a w hold
  · exact h u hleft c.addr w hold
  · rintro rfl
    exact hother ⟨hblocks, hpid⟩

theorem LeftOk.cancel (h : LeftOk s) (hguard : Guarded owner s (.cancel t addr)) :
    ∀ u, (s.left u || decide (u = t ∧ s.waitAddr t = some addr)) = true →
      ∀ a, ∀ w ∈ futexWaitCancel s.queues t addr a, w.pid ≠ u := by
  intro u hleft a w hw
  unfold futexWaitCancel at hw
  have hold : w ∈ s.queues a ∧ (a = addr → w.pid ≠ t) := by
    rcases mem_update.mp hw with ⟨rfl, hkept⟩ | ⟨ha, hw⟩
    · rw [mem_filter] at hkept
      exact ⟨hkept.1, fun _ => of_decide_eq_true hkept.2⟩
    · exact ⟨hw, fun h => absurd h ha⟩
  rcases or_eq_true_iff.mp hleft with hleft | hleft
  · exact h u hleft a w hold.1
  obtain ⟨rfl, haddr⟩ := of_decide_eq_true hleft
  by_cases ha : a = addr
  · exact hold.2 ha
  · exact hguard haddr a ha w hold.1

/-- **One step keeps those who left off the queues.** -/
theorem LeftOk.step {s' : CallState} {op : CallOp} (h : LeftOk s) (hguard : Guarded owner s op)
    (hstep : s.step owner op = some s') : LeftOk s' := by
  cases op with
  | call t c =>
    obtain ⟨out, hout, heffect⟩ := sys_effect hguard
    simp only [CallState.step, hout, some.injEq] at hstep
    subst hstep
    exact h.call heffect
  | cancel t addr =>
    simp only [CallState.step, some.injEq] at hstep
    subst hstep
    exact h.cancel hguard
  | store word value | map p addr word =>
    simp only [CallState.step, some.injEq] at hstep
    subst hstep
    exact h

/-- What a call may do to the threads of other processes and to those that have left. -/
structure Isolated (owner : Nat → Nat) (s : CallState) (t : Nat) (c : CallArgs) (out : Outcome) : Prop where
  /-- No more are woken than the count says, and no more are moved. -/
  count : out.woken.length ≤ c.count.toNat
  taken : (s.queues c.addr).length ≤ (out.queues c.addr).length + out.woken.length + c.moveLimit
  /-- A thread of another process that is woken, taken from its queue or put on another one waits on the word that the
      caller's address names. -/
  woken_shares : ∀ u ∈ out.woken, owner u ≠ owner t → s.Shares (owner t) c.addr u
  taken_shares : ∀ a, ∀ w ∈ s.queues a, w ∉ out.queues a → owner w.pid ≠ owner t → s.Shares (owner t) c.addr w.pid
  moved_shares : ∀ a, ∀ w ∈ out.queues a, w ∉ s.queues a → owner w.pid ≠ owner t → s.Shares (owner t) c.addr w.pid
  /-- Nobody is woken who has left the wait. -/
  woken_waits : ∀ u ∈ out.woken, s.left u = false

/-- **`sys_futex` isolates processes** in runs whose calls meet no defect: every call returns, takes no more waiters
    than its counts say, touches threads of other processes only if they wait on the caller's word, and wakes nobody
    who has left the wait. -/
theorem sys_futex_isolates (h : Run.Reach (CallState.step owner) (Guarded owner) CallState.Start s)
    (hguard : Guarded owner s (.call t c)) : ∃ out, s.sys owner t c = .ok out ∧ Isolated owner s t c out := by
  have hleft : LeftOk s :=
    h.invariant LeftOk (fun _ => Start.leftOk) (fun _ _ _ => LeftOk.step)
  obtain ⟨out, hout, heffect⟩ := sys_effect hguard
  have haddr : takesWaiters (s.view (owner t)) c → ∀ w ∈ s.queues c.addr, owner w.pid ≠ owner t →
      s.Shares (owner t) c.addr w.pid := by
    intro htakes w hw hother
    exact ((hguard htakes.1).2.2.2 htakes (ne_nil_of_mem hw)).2.2.2 w hw hother
  refine ⟨out, hout, heffect.count, heffect.taken, ?_, ?_, ?_, ?_⟩
  · intro u hu hother
    obtain ⟨w, hw, rfl⟩ := heffect.woken_queued u hu
    exact haddr (heffect.woken_takes (ne_nil_of_mem hu)) w hw hother
  · intro a w hw hnot hother
    obtain ⟨rfl, htakes⟩ := heffect.kept a w hw hnot
    exact haddr htakes w hw hother
  · intro a w hw hnot hother
    rcases heffect.origin a w hw with hold | ⟨hold, htakes⟩ | ⟨-, hpid⟩
    · exact absurd hold hnot
    · exact haddr htakes w hold hother
    · exact absurd (congrArg owner hpid) hother
  · intro u hu
    obtain ⟨w, hw, rfl⟩ := heffect.woken_queued u hu
    by_contra hgone
    exact hleft w.pid (not_eq_false _ |>.mp hgone) c.addr w hw rfl

end Calls

/-- Threads `1` and `2` are processes of their own and share the word `7`; thread `1` waits. -/
def sharedWait : List CallOp := [.map 1 0x1000 (some 7), .map 2 0x1000 (some 7), .call 1 { addr := 0x1000, op := 0 }]

/-- The state after some steps, each thread a process of its own; a step that panics is skipped. -/
def called (ops : List CallOp) : CallState := ops.foldl (fun s op => (s.step id op).getD s) {}

/-- Thread `2` wakes thread `1`. -/
theorem sys_futex_isolates_shared : ∃ out,
    (called sharedWait).sys id 2 { addr := 0x1000, op := 1, val := 5 } = .ok out ∧ out.woken = [1] ∧
    Isolated id (called sharedWait) 2 { addr := 0x1000, op := 1, val := 5 } out := by
  have hstart : Reach (step id) (Guarded id) Start {} := Reach.start (fun _ => rfl)
  have hmap₁ : Reach (step id) (Guarded id) Start (called (sharedWait.take 1)) :=
    Reach.next (a := .map 1 0x1000 _) hstart trivial rfl
  have hmap₂ : Reach (step id) (Guarded id) Start (called (sharedWait.take 2)) :=
    Reach.next (a := .map 2 0x1000 _) hmap₁ trivial rfl
  have hmapped : Guarded id (called (sharedWait.take 2)) (.call 1 { addr := 0x1000, op := 0 }) :=
    fun _ => ⟨fun _ _ => rfl, fun h => absurd h (by decide), fun h => absurd h (by decide), fun h => h.2.elim⟩
  have hwait : Reach (step id) (Guarded id) Start (called sharedWait) := Reach.next hmap₂ hmapped rfl
  have hguard : Guarded id (called sharedWait) (.call 2 { addr := 0x1000, op := 1, val := 5 }) := by
    refine fun _ => ⟨fun h => absurd h (by decide), fun h => absurd h (by decide), fun h => absurd h (by decide), ?_⟩
    refine fun _ _ => ⟨by decide, fun _ => by decide, by decide, ?_⟩
    intro w hw _
    cases mem_singleton.mp hw
    exact ⟨7, rfl, rfl⟩
  obtain ⟨out, hout, hisolated⟩ := sys_futex_isolates hwait hguard
  refine ⟨out, hout, ?_, hisolated⟩
  rw [← Except.ok.inj hout]
  rfl

/-- **Three ways to abuse the queues.** A `WAKE` with the count `-1` panics as soon as somebody waits. A `WAKE` by
    process `2` wakes a thread of process `1` that waits on another word at the same address. And thread `1`, moved to
    another address, cancels its wait with the address it gave, and is woken all the same. -/
theorem sys_futex_does_not_isolate : (∃ s, Run.exec (CallState.step id) (fun _ _ => True) {} sharedWait = some s ∧
      s.sys id 2 { addr := 0x1000, op := 1, val := 0xFFFFFFFF } = .error .outOfBounds) ∧
    (∃ s out, exec (step id) (fun _ _ => True) {} [.map 1 0x1000 (some 7), .map 2 0x1000 (some 8),
        .call 1 { addr := 0x1000, op := 0 }] = some s ∧
      s.sys id 2 { addr := 0x1000, op := 1, val := 1 } = .ok out ∧ out.woken = [1] ∧
      s.waitsOn 1 = some 7 ∧ s.space 2 0x1000 = some 8) ∧
    ∃ s out, exec (step id) (fun _ _ => True) {} (sharedWait ++
        [.call 2 { addr := 0x1000, op := 3, val := 0, timeout := 1, addr2 := 0x2000 }, .cancel 1 0x1000]) = some s ∧
      s.sys id 2 { addr := 0x2000, op := 1, val := 1 } = .ok out ∧ out.woken = [1] ∧ s.left 1 = true :=
  ⟨⟨_, rfl, rfl⟩, ⟨_, _, rfl, rfl, rfl, rfl, rfl⟩, ⟨_, _, rfl, rfl, rfl, rfl⟩⟩

end OxideOs.Futex

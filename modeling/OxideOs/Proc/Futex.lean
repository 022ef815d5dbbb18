import OxideOs.Lib.Bytes

/-!
# `Proc.Futex` — wait queues of user words

The queues of `proc/futex`: for each address a list of waiters, first come first; an address without an entry in the
map is one with an empty list. The key is the virtual address that the call was given. `futex_wake` and
`futex_requeue` take from the front of a queue, `futex_wake_bitset` takes the waiters that match, in order.

Counts come from the user as 32-bit words and are read as signed. `drain(..n)` is the only place that looks at the
length `n` it is given, and a negative count arrives there as a length near `2 ^ 64`.
-/

namespace OxideOs.Futex

open Function List Checked

inductive FutexError where
  | wouldBlock
  | invalidAddress
  | timedOut
  | interrupted
  | invalidOp
  deriving DecidableEq

/-- A waiter on a futex. -/
structure FutexWaiter where
  pid : Nat
  bitset : BitVec 32
  deriving DecidableEq

/-- `FUTEX_QUEUES` -/
abbrev Queues := Nat → List FutexWaiter

def FUTEX_BITSET_MATCH_ANY : BitVec 32 := 0xFFFFFFFF

/-- An address that is not null and in user space. -/
def userAddr (addr : Nat) : Bool := addr ≠ 0 ∧ addr < 0x800000000000

inductive FutexWaitResult where
  | valueMismatch
  | shouldBlock
  deriving DecidableEq

/-! ## Waiting -/

/-- The check of `futex_wait_prepare` on its address. -/
def checkWait (addr : Nat) : Except FutexError Unit :=
  if !userAddr addr then .error .invalidAddress else if addr % 4 ≠ 0 then .error .invalidAddress else .ok ()

/-- The checks of `futex_wait_bitset_prepare`. -/
def checkWaitBitset (addr : Nat) (bitset : BitVec 32) : Except FutexError Unit := do
  checkWait addr
  if bitset = 0 then .error .invalidOp else .ok ()

/-- The locked section of both. -/
def enqueue (q : Queues) (pid addr : Nat) (bitset : BitVec 32) : Queues := update q addr (q addr ++ [⟨pid, bitset⟩])

/-- `read_volatile` through the caller's pointer; `word` is the memory the caller sees. -/
def readWord (word : Nat → Option (BitVec 32)) (addr : Nat) : Checked (BitVec 32) :=
  if addr % 4 ≠ 0 then .error .misaligned
  else
    match word addr with
    | some value => .ok value
    | none => .error .pageFault

/-- The part of both behind the checks: read the word, and queue up when it is the expected one. -/
def waitPrepare (q : Queues) (word : Nat → Option (BitVec 32)) (pid addr : Nat) (expected bitset : BitVec 32) :
    Checked (FutexWaitResult × Queues) := do
  let value ← readWord word addr
  .ok (if value ≠ expected then (.valueMismatch, q) else (.shouldBlock, enqueue q pid addr bitset))

def futexWaitPrepare (q : Queues) (word : Nat → Option (BitVec 32)) (pid addr : Nat) (expected : BitVec 32) :
    Checked (Except FutexError (FutexWaitResult × Queues)) :=
  match checkWait addr with
  | .error e => .ok (.error e)
  | .ok () => .ok <$> waitPrepare q word pid addr expected FUTEX_BITSET_MATCH_ANY

def futexWaitBitsetPrepare (q : Queues) (word : Nat → Option (BitVec 32)) (pid addr : Nat)
    (expected bitset : BitVec 32) : Checked (Except FutexError (FutexWaitResult × Queues)) :=
  match checkWaitBitset addr bitset with
  | .error e => .ok (.error e)
  | .ok () => .ok <$> waitPrepare q word pid addr expected bitset

/-- Remove a waiter from the futex queue (e.g., on timeout or signal). -/
def futexWaitCancel (q : Queues) (pid addr : Nat) : Queues := update q addr ((q addr).filter (fun w => w.pid ≠ pid))

/-! ## Waking -/

/-- `n as i32` -/
def asI32 (n : Nat) : Int := (BitVec.ofNat 32 n).toInt

/-- `n as usize` -/
def asUsize (n : Int) : Nat := (n % 2 ^ 64).toNat

/-- `l.drain(..n)`: what is taken and what stays. -/
def drain {α : Type} (l : List α) (n : Nat) : Checked (List α × List α) :=
  if n ≤ l.length then .ok (l.take n, l.drop n) else .error .outOfBounds

/-- `count.min(waiters.len() as i32) as usize` -/
def toTake (count : Int) (waiters : List FutexWaiter) : Nat := asUsize (min count (asI32 waiters.length))

def futexWake (q : Queues) (addr : Nat) (count : Int) : Checked (Except FutexError (List Nat × Queues)) :=
  if !userAddr addr then .ok (.error .invalidAddress)
  else
    match q addr with
    | [] => .ok (.ok ([], q))
    | w :: ws => do
        let (waking, rest) ← drain (w :: ws) (toTake count (w :: ws))
        .ok (.ok (waking.map FutexWaiter.pid, update q addr rest))

/-- The loop of `futex_wake_bitset` after `woken` waiters were taken: who is taken and who stays. -/
def splitWake (count : Nat) (bitset : BitVec 32) : List FutexWaiter → Nat → List FutexWaiter × List FutexWaiter
  | [], _ => ([], [])
  | w :: ws, woken =>
    if woken < count ∧ w.bitset &&& bitset ≠ 0 then
      let (taken, stay) := splitWake count bitset ws (woken + 1)
      (w :: taken, stay)
    else
      let (taken, stay) := splitWake count bitset ws woken
      (taken, w :: stay)

def futexWakeBitset (q : Queues) (addr : Nat) (count : Int) (bitset : BitVec 32) :
    Except FutexError (List Nat × Queues) :=
  if !userAddr addr then .error .invalidAddress
  else if bitset = 0 then .error .invalidOp
  else
    let (taken, stay) := splitWake (asUsize count) bitset (q addr) 0
    .ok (taken.map FutexWaiter.pid, update q addr stay)

/-! ## Requeueing -/

def futexRequeue (q : Queues) (addr : Nat) (wakeCount : Int) (addr2 : Nat) (requeueCount : Int) :
    Checked (Except FutexError (List Nat × Queues)) :=
  if !userAddr addr then .ok (.error .invalidAddress)
  else if !userAddr addr2 then .ok (.error .invalidAddress)
  else
    match q addr with
    | [] => .ok (.ok ([], q))
    | w :: ws => do
        let (woken, left) ← drain (w :: ws) (toTake wakeCount (w :: ws))
        let (requeued, rest) ← drain left (toTake requeueCount left)
        let q' := update q addr rest
        .ok (.ok (woken.map FutexWaiter.pid, if requeued = [] then q' else update q' addr2 (q' addr2 ++ requeued)))

/-- The value check of `futex_cmp_requeue`; the address is read as it is. -/
def checkCmpRequeue (word : Nat → Option (BitVec 32)) (addr : Nat) (expected : BitVec 32) :
    Checked (Except FutexError Unit) :=
  if !userAddr addr then .ok (.error .invalidAddress)
  else do
    let value ← readWord word addr
    .ok (if value ≠ expected then .error .wouldBlock else .ok ())

def futexCmpRequeue (q : Queues) (word : Nat → Option (BitVec 32)) (addr : Nat) (wakeCount : Int) (addr2 : Nat)
    (requeueCount : Int) (expected : BitVec 32) : Checked (Except FutexError (List Nat × Queues)) := do
  match ← checkCmpRequeue word addr expected with
  | .error e => .ok (.error e)
  | .ok () => futexRequeue q addr wakeCount addr2 requeueCount

/-! ## What the sections do -/

variable {q q' : Queues} {addr addr2 : Nat} {count wakeCount requeueCount : Int} {bitset : BitVec 32}
  {pids : List Nat}

theorem drain_eq_ok {α : Type} {l taken rest : List α} {n : Nat} (h : drain l n = .ok (taken, rest)) :
    l = taken ++ rest := by
  unfold drain at h
  split at h
  · cases h
    exact (take_append_drop n l).symm
  · cases h

/-- `futex_wake` takes the front of one queue. -/
theorem futexWake_eq_ok (h : futexWake q addr count = .ok (.ok (pids, q'))) :
    ∃ taken rest, q addr = taken ++ rest ∧ pids = taken.map FutexWaiter.pid ∧ q' = update q addr rest := by
  unfold futexWake at h
  split at h
  · cases h
  split at h
  next hempty =>
    cases h
    refine ⟨[], [], hempty, rfl, ?_⟩
    rw [← hempty, update_eq_self]
  rename_i w ws hqueue
  obtain ⟨⟨taken, rest⟩, hdrain, h⟩ := bind_eq_ok h
  cases h
  exact ⟨taken, rest, by rw [hqueue, drain_eq_ok hdrain], rfl, rfl⟩

/-- The loop of `futex_wake_bitset` takes the first waiters that match. -/
theorem splitWake_fst (limit : Nat) (ws : List FutexWaiter) (woken : Nat) :
    (splitWake limit bitset ws woken).1 = (ws.filter (fun w => w.bitset &&& bitset ≠ 0)).take (limit - woken) := by
  induction ws generalizing woken with
  | nil =>
    rw [filter_nil, take_nil]
    rfl
  | cons w ws ih =>
    unfold splitWake
    by_cases hmatch : w.bitset &&& bitset ≠ 0
    · rw [filter_cons_of_pos (by simpa using hmatch)]
      by_cases hroom : woken < limit
      · obtain ⟨k, hk⟩ : ∃ k, limit - woken = k + 1 := ⟨limit - woken - 1, by omega⟩
        rw [if_pos ⟨hroom, hmatch⟩, hk, take_succ_cons]
        change w :: (splitWake limit bitset ws (woken + 1)).1 = _
        rw [ih, show limit - _ = k by omega]
      have hzero : limit - woken = 0 := by omega
      rw [if_neg (fun h => hroom h.1), hzero, take_zero]
      rw [ih, hzero, take_zero]
    · rw [filter_cons_of_neg (by simpa using hmatch), if_neg (fun h => hmatch h.2)]
      exact ih woken

theorem splitWake_perm (limit : Nat) (ws : List FutexWaiter) (woken : Nat) :
    ((splitWake limit bitset ws woken).1 ++ (splitWake limit bitset ws woken).2).Perm ws := by
  induction ws generalizing woken with
  | nil => exact .refl _
  | cons w ws ih =>
    unfold splitWake
    split
    · exact (ih _).cons w
    · exact perm_middle.trans ((ih woken).cons w)

theorem futexWakeBitset_eq_ok (h : futexWakeBitset q addr count bitset = .ok (pids, q')) :
    ∃ taken stay, (taken ++ stay).Perm (q addr) ∧ pids = taken.map FutexWaiter.pid ∧
      q' = update q addr stay ∧
      taken = ((q addr).filter (fun w => w.bitset &&& bitset ≠ 0)).take (asUsize count) := by
  unfold futexWakeBitset at h
  split at h
  · cases h
  split at h
  · cases h
  · cases h
    exact ⟨_, _, splitWake_perm _ _ 0, rfl, rfl, splitWake_fst _ _ 0⟩

/-- `futex_requeue` takes the front of one queue and moves what comes next to the end of another. -/
theorem futexRequeue_eq_ok (h : futexRequeue q addr wakeCount addr2 requeueCount = .ok (.ok (pids, q'))) :
    ∃ taken moved rest, q addr = taken ++ (moved ++ rest) ∧ pids = taken.map FutexWaiter.pid ∧
      q' = update (update q addr rest) addr2 (update q addr rest addr2 ++ moved) := by
  unfold futexRequeue at h
  split at h
  · cases h
  split at h
  · cases h
  split at h
  next hempty =>
    cases h
    refine ⟨[], [], [], hempty, rfl, ?_⟩
    rw [append_nil, update_eq_self, ← hempty, update_eq_self]
  rename_i w ws hqueue
  obtain ⟨⟨taken, left⟩, hdrain, h⟩ := bind_eq_ok h
  obtain ⟨⟨moved, rest⟩, hdrain', h⟩ := bind_eq_ok h
  cases h
  refine ⟨taken, moved, rest, ?_, rfl, ?_⟩
  · rw [hqueue, drain_eq_ok hdrain, drain_eq_ok hdrain']
  split
  next hnil =>
    rw [hnil, append_nil, update_eq_self]
  · rfl

/-! ## Counts that are not negative -/

theorem asI32_of_lt {n : Nat} (h : n < 2 ^ 31) : asI32 n = n := by
  unfold asI32
  rw [BitVec.toInt_eq_toNat_of_lt (by rw [BitVec.toNat_ofNat]; omega), BitVec.toNat_ofNat]
  omega

theorem asUsize_of_nonneg {n : Int} (h : 0 ≤ n) (h' : n < 2 ^ 64) : asUsize n = n.toNat := by
  unfold asUsize
  rw [Int.emod_eq_of_lt h h']

theorem toTake_of_nonneg {waiters : List FutexWaiter} (hcount : 0 ≤ count) (hlen : waiters.length < 2 ^ 31) :
    toTake count waiters = min count.toNat waiters.length := by
  unfold toTake
  rw [asI32_of_lt hlen, asUsize_of_nonneg (by omega) (by omega)]
  omega

theorem drain_toTake {waiters : List FutexWaiter} (hcount : 0 ≤ count) (hlen : waiters.length < 2 ^ 31) :
    drain waiters (toTake count waiters) = .ok (waiters.take count.toNat, waiters.drop count.toNat) := by
  unfold drain
  rw [toTake_of_nonneg hcount hlen, if_pos (min_le_right _ _)]
  rcases le_total count.toNat waiters.length with hle | hle
  · rw [min_eq_left hle]
  · rw [min_eq_right hle, take_of_length_le hle, drop_of_length_le hle, take_length, drop_length]

/-- With a count that is not negative, `futex_wake` takes the first `count` waiters. -/
theorem futexWake_eq (haddr : userAddr addr = true) (hcount : q addr ≠ [] → 0 ≤ count)
    (hlen : (q addr).length < 2 ^ 31) :
    futexWake q addr count = .ok (.ok (((q addr).take count.toNat).map FutexWaiter.pid,
      update q addr ((q addr).drop count.toNat))) := by
  unfold futexWake
  rw [haddr]
  cases hqueue : q addr with
  | nil =>
    have hself : update q addr ((q addr).drop count.toNat) = q := by
      rw [hqueue, drop_nil, ← hqueue, update_eq_self]
    rw [hqueue] at hself
    simp only [take_nil, hself]
    rfl
  | cons w ws =>
    have hcount := hcount (by rw [hqueue]; exact cons_ne_nil w ws)
    rw [hqueue] at hlen
    simp only
    rw [drain_toTake hcount hlen]
    rfl

/-- With a count that is not negative, `futex_wake_bitset` takes at most `count` waiters. -/
theorem futexWakeBitset_ok (haddr : userAddr addr = true) (hbits : bitset ≠ 0) (hcount : q addr ≠ [] → 0 ≤ count)
    (hlt : count < 2 ^ 64) :
    ∃ taken stay, futexWakeBitset q addr count bitset
        = .ok (taken.map FutexWaiter.pid, update q addr stay) ∧
      (taken ++ stay).Perm (q addr) ∧ taken.length ≤ count.toNat := by
  refine ⟨(splitWake _ bitset _ 0).1, (splitWake (asUsize count) bitset _ 0).2, ?_, splitWake_perm _ _ 0, ?_⟩
  · unfold futexWakeBitset
    rw [haddr, if_neg (by decide), if_neg hbits]
  rw [splitWake_fst]
  by_cases hempty : q addr = []
  · rw [hempty, filter_nil, take_nil]
    exact Nat.zero_le _
  · rw [asUsize_of_nonneg (hcount hempty) hlt]
    exact length_take_le _ _

/-- With counts that are not negative, `futex_requeue` returns. -/
theorem futexRequeue_ok (haddr : userAddr addr = true) (haddr2 : userAddr addr2 = true)
    (hcount : q addr ≠ [] → 0 ≤ wakeCount ∧ 0 ≤ requeueCount) (hlen : (q addr).length < 2 ^ 31) :
    ∃ taken moved rest, q addr = taken ++ (moved ++ rest) ∧ taken.length ≤ wakeCount.toNat ∧
      moved.length ≤ requeueCount.toNat ∧
      futexRequeue q addr wakeCount addr2 requeueCount = .ok (.ok (taken.map FutexWaiter.pid,
        update (update q addr rest) addr2 (update q addr rest addr2 ++ moved))) := by
  refine ⟨(q addr).take wakeCount.toNat, ((q addr).drop wakeCount.toNat).take requeueCount.toNat,
    ((q addr).drop wakeCount.toNat).drop requeueCount.toNat, ?_, length_take_le _ _, length_take_le _ _, ?_⟩
  · rw [take_append_drop, take_append_drop]
  unfold futexRequeue
  rw [haddr, haddr2]
  cases hqueue : q addr with
  | nil =>
    have hself : update q addr [] = q := by rw [← hqueue, update_eq_self]
    simp only [take_nil, drop_nil, append_nil, hself, update_eq_self]
    rfl
  | cons w ws =>
    obtain ⟨hwake, hrequeue⟩ := hcount (by rw [hqueue]; exact cons_ne_nil w ws)
    rw [hqueue] at hlen
    have hlen' : ((w :: ws).drop wakeCount.toNat).length < 2 ^ 31 := by
      rw [length_drop]
      omega
    simp only [Bool.not_true, Bool.false_eq_true, if_false]
    rw [drain_toTake hwake hlen]
    simp only [bind, Except.bind]
    rw [drain_toTake hrequeue hlen']
    dsimp only
    split
    next hnil =>
      simp [hnil]
    · rfl

end OxideOs.Futex

import OxideOs.Lib.Run

/-!
# `Waitqueue.Queue` — lock-free wait queues (`waitqueue`)

A queue is sixteen atomic slots and an atomic length. A call is a sequence of atomic accesses, and the calls of
all CPUs interleave between any two of them: `Call` is a call with the access it does next, and `Call.step` does
it. The slot and the length are two accesses, so the length lags behind the slots while a call is between them.
-/

namespace OxideOs.Waitqueue

abbrev Pid := BitVec 32

/-- The mark of an empty slot; no task has this pid. -/
def PID_NONE : Pid := BitVec.allOnes 32

def MAX_WAITERS : Nat := 16

abbrev Slot := Fin MAX_WAITERS

def firstSlot : Slot := ⟨0, by decide⟩

structure WaitQueue where
  slots : Slot → Pid
  len : BitVec 32

namespace WaitQueue

def new : WaitQueue := { slots := fun _ => PID_NONE, len := 0#32 }

/-- `swap` on a slot. -/
def swap (q : WaitQueue) (i : Slot) (pid : Pid) : Pid × WaitQueue :=
  (q.slots i, { q with slots := Function.update q.slots i pid })

/-- `compare_exchange` on a slot; `true` when it took place. -/
def compareExchange (q : WaitQueue) (i : Slot) (expected pid : Pid) : Bool × WaitQueue :=
  if q.slots i = expected then (true, { q with slots := Function.update q.slots i pid }) else (false, q)

/-- `len.fetch_add(1)` -/
def fetchAdd (q : WaitQueue) : WaitQueue := { q with len := q.len + 1#32 }

/-- `len.fetch_sub(1)` -/
def fetchSub (q : WaitQueue) : WaitQueue := { q with len := q.len - 1#32 }

/-- The number of slots that hold a pid. -/
def occupied (q : WaitQueue) : Nat := (Finset.univ.filter (fun i => q.slots i ≠ PID_NONE)).card

end WaitQueue

/-! ## Calls -/

/-- A call and the atomic access it does next. -/
inductive Call where
  /-- `register`: try slot `i`. -/
  | register (pid : Pid) (i : Slot)
  /-- `register`: the slot is taken, the length is next. -/
  | registered (pid : Pid) (i : Slot)
  /-- `unregister` of a slot number by the task `pid`. -/
  | unregister (pid : Pid) (slot : Nat)
  /-- `unregister_pid`: try slot `i`. -/
  | unregisterPid (pid : Pid) (i : Slot)
  /-- `unregister` or `unregister_pid`: a slot was emptied, the length is next. -/
  | unregistered
  /-- `wake_all` (`all`) or `wake_one`: empty slot `i`. -/
  | wake (all : Bool) (i : Slot)
  /-- A waiter was taken out of slot `i`, the length is next. -/
  | took (all : Bool) (i : Slot) (pid : Pid)
  /-- The wake callback is next. -/
  | waking (all : Bool) (i : Slot) (pid : Pid)
  deriving DecidableEq

/-- The slot a loop over the slots looks at after this one. -/
def nextSlot (i : Slot) : Option Slot := if h : i.val + 1 < MAX_WAITERS then some ⟨i.val + 1, h⟩ else none

/-- What one access does: the queue after it, the rest of the call, and what the call lets be seen. -/
structure Effect where
  queue : WaitQueue
  rest : Option Call
  granted : Option (Pid × Slot) := none
  taken : Option Pid := none
  woken : Option Pid := none

namespace Call

/-- The access a call does next. -/
def step (q : WaitQueue) : Call → Effect
  | .register pid i =>
    match q.compareExchange i PID_NONE pid with
    | (true, q) => { queue := q, rest := some (.registered pid i) }
    | (false, q) => { queue := q, rest := (nextSlot i).map (fun j => .register pid j) }
  | .registered pid i => { queue := q.fetchAdd, rest := none, granted := some (pid, i) }
  | .unregister _ slot =>
    if h : slot < MAX_WAITERS then
      { queue := (q.swap ⟨slot, h⟩ PID_NONE).2,
        rest := if (q.swap ⟨slot, h⟩ PID_NONE).1 ≠ PID_NONE then some .unregistered else none }
    else { queue := q, rest := none }
  | .unregisterPid pid i =>
    match q.compareExchange i pid PID_NONE with
    | (true, q) => { queue := q, rest := some .unregistered }
    | (false, q) => { queue := q, rest := (nextSlot i).map (fun j => .unregisterPid pid j) }
  | .unregistered => { queue := q.fetchSub, rest := none }
  | .wake all i =>
    if (q.swap i PID_NONE).1 ≠ PID_NONE then
      { queue := (q.swap i PID_NONE).2, rest := some (.took all i (q.swap i PID_NONE).1),
        taken := some (q.swap i PID_NONE).1 }
    else { queue := (q.swap i PID_NONE).2, rest := (nextSlot i).map (fun j => .wake all j) }
  | .took all i pid => { queue := q.fetchSub, rest := some (.waking all i pid) }
  | .waking all i pid =>
    { queue := q,
      rest := if all then (nextSlot i).map (fun j => .wake all j) else none,
      woken := some pid }

end Call

/-! ## All calls together -/

/-- How a call starts. -/
inductive Entry where
  | register (pid : Pid)
  | unregister (pid : Pid) (slot : Nat)
  | unregisterPid (pid : Pid)
  | wakeAll
  | wakeOne

def Entry.call : Entry → Call
  | .register pid => .register pid firstSlot
  | .unregister pid slot => .unregister pid slot
  | .unregisterPid pid => .unregisterPid pid firstSlot
  | .wakeAll => .wake true firstSlot
  | .wakeOne => .wake false firstSlot

/-- A queue, the calls in flight on it, and what has been seen so far: the slots `register` has returned, the
    pids wake calls have taken out of slots, and the pids they have woken. -/
structure World where
  queue : WaitQueue
  calls : List Call
  granted : List (Pid × Slot)
  taken : List Pid
  woken : List Pid

inductive Action where
  /-- Some task starts a call. -/
  | call (e : Entry)
  /-- A call in flight does its next access. -/
  | advance (k : Nat)

namespace World

def init : World := { queue := WaitQueue.new, calls := [], granted := [], taken := [], woken := [] }

/-- Tasks have pids, and the slot a task passes to `unregister` is one it got from `register`. -/
def Proper (w : World) : Entry → Prop
  | .register pid => pid ≠ PID_NONE
  | .unregister pid slot => ∃ g ∈ w.granted, g.1 = pid ∧ g.2.val = slot
  | .unregisterPid pid => pid ≠ PID_NONE
  | .wakeAll => True
  | .wakeOne => True

instance (w : World) (e : Entry) : Decidable (w.Proper e) := by
  delta Proper
  cases e <;> infer_instance

/-- Let the effect of an access be seen. -/
def observe (w : World) (k : Nat) (e : Effect) : World :=
  { queue := e.queue,
    calls := match e.rest with
      | some c => w.calls.set k c
      | none => w.calls.eraseIdx k,
    granted := w.granted ++ e.granted.toList,
    taken := w.taken ++ e.taken.toList,
    woken := w.woken ++ e.woken.toList }

def step (w : World) : Action → Option World
  | .call e => if w.Proper e then some { w with calls := w.calls ++ [e.call] } else none
  | .advance k => (w.calls[k]?).map (fun c => w.observe k (c.step w.queue))

end World
end OxideOs.Waitqueue

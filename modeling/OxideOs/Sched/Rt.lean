import OxideOs.Sched.Task
import OxideOs.Lib.Slots

/-!
# `Sched.Rt` — the real-time run queue (`sched::rt`)

One FIFO queue for each of 99 priority levels, each of at most eight tasks, a bit map of the levels that are
not empty, and a count. A level is the list of its occupied places.
-/

namespace OxideOs.Sched

open Function List Nat

def RT_PRIO_LEVELS : Nat := 99

def MAX_RT_PER_PRIO : Nat := 8

/-- `priority_to_index`. -/
def priorityToIndex (priority : Nat) : Nat := max 1 (min priority RT_PRIO_MAX) - 1

structure RtRunQueue where
  queues : Nat → List Pid
  bitmap : Nat
  nrRunning : Nat

namespace RtRunQueue

def new : RtRunQueue := { queues := fun _ => [], bitmap := 0, nrRunning := 0 }

/-- `bitmap |= 1 << idx`. -/
def setBit (bitmap idx : Nat) : Nat := bitmap ||| 1 <<< idx

/-- `bitmap &= !(1 << idx)`, on 128 bits. -/
def clearBit (bitmap idx : Nat) : Nat := bitmap &&& ((2 ^ 128 - 1) ^^^ 1 <<< idx)

/-- `127 - bitmap.leading_zeros()`, the highest bit that is set. -/
def highestBit (bitmap : Nat) : Nat := bitmap.log2

/-- Replace the queue of one level by a shorter one, and clear its bit when nothing is left. -/
def shrink (rt : RtRunQueue) (idx : Nat) (queue : List Pid) : RtRunQueue :=
  { queues := update rt.queues idx queue,
    bitmap := if queue.length = 0 then clearBit rt.bitmap idx else rt.bitmap,
    nrRunning := rt.nrRunning - 1 }

/-- `enqueue`: a task for a level that is full is dropped. -/
def enqueue (rt : RtRunQueue) (pid : Pid) (priority : Nat) : RtRunQueue :=
  let idx := priorityToIndex priority
  if (rt.queues idx).length < MAX_RT_PER_PRIO then
    { queues := update rt.queues idx (rt.queues idx ++ [pid]), bitmap := setBit rt.bitmap idx,
      nrRunning := rt.nrRunning + 1 }
  else rt

def dequeue (rt : RtRunQueue) (pid : Pid) (priority : Nat) : RtRunQueue × Bool :=
  let idx := priorityToIndex priority
  if pid ∈ rt.queues idx then (rt.shrink idx ((rt.queues idx).erase pid), true) else (rt, false)

def popNext (rt : RtRunQueue) : Option Pid × RtRunQueue :=
  if rt.bitmap = 0 then (none, rt)
  else
    match rt.queues (highestBit rt.bitmap) with
    | [] => (none, rt)
    | pid :: rest => (some pid, rt.shrink (highestBit rt.bitmap) rest)

/-! ## What the queue keeps -/

/-- The tasks of all levels. -/
def tasks (rt : RtRunQueue) : List Pid := (range RT_PRIO_LEVELS).flatMap rt.queues

/-- The bit map and the count agree with the levels, whatever the callers do. -/
structure Wf (rt : RtRunQueue) : Prop where
  bit : ∀ i, rt.bitmap.testBit i = !(rt.queues i).isEmpty
  levels : ∀ i, RT_PRIO_LEVELS ≤ i → rt.queues i = []
  count : rt.nrRunning = rt.tasks.length

theorem wf_new : Wf new := by
  refine ⟨fun i => ?_, fun i _ => rfl, ?_⟩
  · simp [new]
  · simp [new, tasks]

theorem priorityToIndex_lt (priority : Nat) : priorityToIndex priority < RT_PRIO_LEVELS := by
  unfold priorityToIndex RT_PRIO_LEVELS RT_PRIO_MAX
  omega

@[simp] theorem testBit_setBit (bitmap idx i : Nat) :
    (setBit bitmap idx).testBit i = (bitmap.testBit i || decide (i = idx)) := by
  unfold setBit
  rw [testBit_or, one_shiftLeft, testBit_two_pow]
  simp [eq_comm]

theorem testBit_clearBit {bitmap idx i : Nat} (hi : i < 128) :
    (clearBit bitmap idx).testBit i = (bitmap.testBit i && decide (i ≠ idx)) := by
  unfold clearBit
  rw [testBit_and, testBit_xor, testBit_two_pow_sub_one, one_shiftLeft]
  by_cases h : i = idx
  · subst h
    simp [hi]
  · simp [hi, h, Ne.symm h]

variable {rt : RtRunQueue} {pid : Pid} {priority : Nat}

theorem enqueue_room (h : (rt.queues (priorityToIndex priority)).length < MAX_RT_PER_PRIO) :
    (rt.enqueue pid priority).queues =
      update rt.queues (priorityToIndex priority) (rt.queues (priorityToIndex priority) ++ [pid]) := by
  unfold enqueue
  rw [if_pos h]

theorem enqueue_full (h : ¬(rt.queues (priorityToIndex priority)).length < MAX_RT_PER_PRIO) :
    rt.enqueue pid priority = rt := by
  unfold enqueue
  rw [if_neg h]

/-- One more task is one more in the count. -/
theorem enqueue_nrRunning (h : (rt.queues (priorityToIndex priority)).length < MAX_RT_PER_PRIO) :
    (rt.enqueue pid priority).nrRunning = rt.nrRunning + 1 := by
  unfold enqueue
  rw [if_pos h]

theorem Wf.enqueue (hwf : rt.Wf) (pid : Pid) (priority : Nat) : (rt.enqueue pid priority).Wf := by
  by_cases hroom : (rt.queues (priorityToIndex priority)).length < MAX_RT_PER_PRIO
  · have hq := @enqueue_room rt pid priority hroom
    have hlt := priorityToIndex_lt priority
    refine ⟨fun i => ?_, fun i hi => ?_, ?_⟩
    · have hb : (rt.enqueue pid priority).bitmap = setBit rt.bitmap (priorityToIndex priority) := by
        unfold RtRunQueue.enqueue
        rw [if_pos hroom]
      rw [hb, hq, testBit_setBit, hwf.bit]
      by_cases he : i = priorityToIndex priority
      · subst he
        simp
      · simp [he]
    · rw [hq, update_of_ne (by omega)]
      exact hwf.levels i hi
    · have hp : (rt.enqueue pid priority).tasks.Perm (pid :: rt.tasks) := by
        unfold tasks
        rw [hq]
        refine Slots.flatMap_perm_cons nodup_range (mem_range.mpr hlt) (fun j hj => update_of_ne hj _ _) ?_
        rw [update_self]
        exact perm_append_singleton pid _
      rw [enqueue_nrRunning hroom, hwf.count, hp.length_eq, length_cons]
  · rw [enqueue_full hroom]
    exact hwf

theorem Wf.shrink (hwf : rt.Wf) {idx : Nat} {queue : List Pid}
    (hp : (rt.queues idx).Perm (pid :: queue)) : (rt.shrink idx queue).Wf := by
  have hlt : idx < RT_PRIO_LEVELS := by
    by_contra hge
    have h0 := hwf.levels idx (by omega)
    rw [h0] at hp
    exact absurd hp.length_eq (by simp)
  have hne : rt.queues idx ≠ [] := by
    intro h0
    rw [h0] at hp
    exact absurd hp.length_eq (by simp)
  refine ⟨fun i => ?_, fun i hi => ?_, ?_⟩
  · have hb := hwf.bit i
    show (if queue.length = 0 then clearBit rt.bitmap idx else rt.bitmap).testBit i =
      !(update rt.queues idx queue i).isEmpty
    by_cases he : i = idx
    · subst he
      cases queue with
      | nil =>
        rw [if_pos length_nil, testBit_clearBit (by unfold RT_PRIO_LEVELS at hlt; omega)]
        simp
      | cons q qs =>
        rw [if_neg (by simp), hb]
        simp [hne]
    rw [update_of_ne he, ← hb]
    split
    · by_cases h128 : i < 128
      · rw [testBit_clearBit h128]
        simp [he]
      -- no level lies beyond the 128 bits
      have h0 : rt.bitmap.testBit i = false := by
        rw [hb, hwf.levels i (by unfold RT_PRIO_LEVELS; omega)]
        rfl
      unfold clearBit
      rw [testBit_and, h0, Bool.false_and]
    · rfl
  · show update rt.queues idx queue i = []
    rw [update_of_ne (by omega)]
    exact hwf.levels i hi
  · have hq : rt.tasks.Perm (pid :: (rt.shrink idx queue).tasks) := by
      refine Slots.flatMap_perm_cons nodup_range (mem_range.mpr hlt) (fun j hj => (update_of_ne hj _ _).symm) ?_
      show (rt.queues idx).Perm (pid :: update rt.queues idx queue idx)
      rw [update_self]
      exact hp
    show rt.nrRunning - 1 = _
    rw [hwf.count, hq.length_eq, length_cons, Nat.add_sub_cancel]

/-- **`pop_next`** takes the head of a level that has one, and answers `None` only when all are empty. -/
theorem Wf.popNext (hwf : rt.Wf) : (rt.popNext = (none, rt) ∧ ∀ i, rt.queues i = []) ∨
      ∃ i pid rest, rt.queues i = pid :: rest ∧ rt.popNext = (some pid, rt.shrink i rest) := by
  by_cases h0 : rt.bitmap = 0
  · refine .inl ⟨?_, fun i => ?_⟩
    · unfold RtRunQueue.popNext
      rw [if_pos h0]
    have hb := hwf.bit i
    rw [h0] at hb
    simpa using hb.symm
  have hb := hwf.bit (highestBit rt.bitmap)
  rw [highestBit, testBit_log2 h0] at hb
  cases hq : rt.queues (highestBit rt.bitmap) with
  | nil =>
    rw [highestBit] at hq
    rw [hq] at hb
    cases hb
  | cons pid rest =>
    refine .inr ⟨_, pid, rest, hq, ?_⟩
    unfold RtRunQueue.popNext
    rw [if_neg h0, hq]

end RtRunQueue
end OxideOs.Sched

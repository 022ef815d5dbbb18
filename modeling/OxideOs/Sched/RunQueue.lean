import OxideOs.Sched.Rt
import OxideOs.Sched.Fair

/-!
# `Sched.RunQueue` — the run queue of one CPU (`sched::runqueue`)

The tasks of a CPU sit in 256 slots. A table shared by all CPUs gives the slot of a pid; an entry may be
stale, so a lookup checks the pid of the task it finds. `PidToSlot` is that table, passed in and, where an
operation writes it, passed back. Log output and the copy of the run time in the process metadata are left
out.
-/

namespace OxideOs.Sched

open Function

def MAX_TASKS_PER_RQ : Nat := 256

def MAX_PIDS : Nat := 4096

def SLOT_NONE : Nat := 65535

/-- `PID_TO_SLOT`. -/
abbrev PidToSlot := Pid → Nat

/-- `free_stack` has its top first. -/
structure RunQueue where
  cpu : Nat
  curr : Option Pid
  idle : Pid
  nrRunning : Nat
  rtRq : RtRunQueue
  cfsRq : CfsRunQueue
  clock : Nat
  slots : Nat → Option Task
  freeStack : List Nat
  needResched : Bool

namespace RunQueue

def new (cpu : Nat) (idle : Pid) : RunQueue :=
  { cpu, curr := none, idle, nrRunning := 0, rtRq := RtRunQueue.new, cfsRq := CfsRunQueue.new, clock := 0,
    slots := fun _ => none, freeStack := List.range MAX_TASKS_PER_RQ, needResched := false }

/-- `slot_get`, `get_task`. -/
def slotGet (rq : RunQueue) (pts : PidToSlot) (pid : Pid) : Option Task :=
  if MAX_PIDS ≤ pid then none
  else if MAX_TASKS_PER_RQ ≤ pts pid then none
  else (rq.slots (pts pid)).filter (fun t => t.pid == pid)

/-- What is done through `slot_get_mut`: nothing when the task is not here. -/
def modify (rq : RunQueue) (pts : PidToSlot) (pid : Pid) (f : Task → Task) : RunQueue :=
  match rq.slotGet pts pid with
  | none => rq
  | some t => { rq with slots := update rq.slots (pts pid) (some (f t)) }

/-- `enqueue_task`. A task of the idle policy goes into no queue, and is marked as queued all the same. -/
def enqueueTask (rq : RunQueue) (pts : PidToSlot) (pid : Pid) : RunQueue :=
  match rq.slotGet pts pid with
  | none => rq
  | some task =>
    if task.onRq then rq
    else
      let queued :=
        if task.policy.isRealtime then
          { rq with rtRq := rq.rtRq.enqueue pid task.rtPriority, nrRunning := rq.nrRunning + 1 }
        else if task.policy.isFair then
          let (cfs, adjusted) := rq.cfsRq.enqueue pid task.vruntime task.weight
          { rq with cfsRq := cfs, nrRunning := rq.nrRunning + 1 }.modify pts pid
            (fun t => { t with vruntime := adjusted })
        else rq
      queued.modify pts pid (fun t => { t with onRq := true })

/-- `dequeue_task`. -/
def dequeueTask (rq : RunQueue) (pts : PidToSlot) (pid : Pid) : RunQueue :=
  match rq.slotGet pts pid with
  | none => rq
  | some task =>
    if task.onRq then
      let dequeued :=
        if task.policy.isRealtime then
          { rq with rtRq := (rq.rtRq.dequeue pid task.rtPriority).1, nrRunning := rq.nrRunning - 1 }
        else if task.policy.isFair then
          { rq with cfsRq := (rq.cfsRq.dequeue pid task.weight).1, nrRunning := rq.nrRunning - 1 }
        else rq
      dequeued.modify pts pid (fun t => { t with onRq := false })
    else rq

/-- `add_task`: without a free slot the task is dropped. `now` is the time of day. -/
def addTask (rq : RunQueue) (pts : PidToSlot) (task : Task) (now : Nat) : RunQueue × PidToSlot :=
  let task := if task.startTime = 0 then { task with startTime := now } else task
  match rq.freeStack with
  | [] => (rq, pts)
  | slot :: rest =>
    let pts := if task.pid < MAX_PIDS then update pts task.pid slot else pts
    ({ rq with slots := update rq.slots slot (some task), freeStack := rest }.enqueueTask pts task.pid, pts)

/-- Take a task that is marked as queued out of the queue its policy names now, and out of the count. -/
def unqueue (rq : RunQueue) (task : Task) : RunQueue :=
  if task.onRq then
    { rq with
      rtRq := if task.policy.isRealtime then (rq.rtRq.dequeue task.pid task.rtPriority).1 else rq.rtRq,
      cfsRq :=
        if task.policy.isRealtime then rq.cfsRq
        else if task.policy.isFair then (rq.cfsRq.dequeue task.pid task.weight).1
        else rq.cfsRq,
      nrRunning := rq.nrRunning - 1 }
  else rq

/-- `remove_task`. -/
def removeTask (rq : RunQueue) (pts : PidToSlot) (pid : Pid) : Option Task × RunQueue × PidToSlot :=
  match rq.slotGet pts pid with
  | none => (none, rq, pts)
  | some task =>
    (some { task with onRq := false },
      { rq.unqueue task with
        slots := update rq.slots (pts pid) none, freeStack := pts pid :: rq.freeStack },
      update pts pid SLOT_NONE)

/-- `pop_next_task`: real-time tasks before fair ones, the idle task when there are neither. -/
def popNextTask (rq : RunQueue) (pts : PidToSlot) : Pid × RunQueue :=
  match rq.rtRq.popNext with
  | (some pid, rt) =>
    let popped := { rq with rtRq := rt }.modify pts pid (fun t => { t with onRq := false })
    (pid, { popped with nrRunning := popped.nrRunning - 1 })
  | (none, rt) =>
    match rq.cfsRq.pickNext with
    | none => (rq.idle, { rq with rtRq := rt })
    | some pid =>
      let weight := ((rq.slotGet pts pid).map Task.weight).getD NICE_0_WEIGHT
      match rq.cfsRq.popNext weight with
      | (none, cfs) => (rq.idle, { rq with rtRq := rt, cfsRq := cfs })
      | (some pid, cfs) =>
        let popped := { rq with rtRq := rt, cfsRq := cfs }.modify pts pid (fun t => { t with onRq := false })
        (pid, { popped with nrRunning := popped.nrRunning - 1 })

/-- `put_prev_task`: idle-policy and dead tasks are not put back. -/
def putPrevTask (rq : RunQueue) (pts : PidToSlot) (pid : Pid) : RunQueue :=
  match rq.slotGet pts pid with
  | none => rq
  | some task => if task.policy = .idle ∨ task.state.isDead = true then rq else rq.enqueueTask pts pid

/-- A task another CPU may take: queued, of the normal policy, alive, not running, allowed there. -/
def stealable (rq : RunQueue) (destCpu : Nat) (t : Task) : Bool :=
  some t.pid != rq.curr && t.policy == .normal && t.onRq && !t.state.isDead && t.canRunOn destCpu

/-- One round of the scan of `steal_task`: the best task so far, by the highest virtual run time. -/
def stealRound (rq : RunQueue) (destCpu : Nat) (best : Option Task) (slot : Nat) : Option Task :=
  match rq.slots slot with
  | none => best
  | some t =>
    if rq.stealable destCpu t then
      match best with
      | none => some t
      | some b => if b.vruntime < t.vruntime then some t else best
    else best

/-- The task `steal_task` settles on. -/
def victim (rq : RunQueue) (destCpu : Nat) : Option Task :=
  (List.range MAX_TASKS_PER_RQ).foldl (rq.stealRound destCpu) none

/-- `steal_task`. -/
def stealTask (rq : RunQueue) (pts : PidToSlot) (destCpu : Nat) : Option Task × RunQueue × PidToSlot :=
  if rq.nrRunning ≤ 1 then (none, rq, pts)
  else
    match rq.victim destCpu with
    | none => (none, rq, pts)
    | some t => rq.removeTask pts t.pid

/-- What a tick charges to the running task of a fair policy. -/
def chargeTick (clock : Nat) (inBlockingWait : Bool) (t : Task) : Task :=
  { t.updateVruntime TICK_NS with
    vruntimeChargedThisTick := true,
    sumExecRuntime := if inBlockingWait then t.sumExecRuntime else t.sumExecRuntime + TICK_NS,
    execStart := clock }

/-- The run queue after the charge, with the minimal virtual run time brought up. -/
def chargeCurr (rq : RunQueue) (pts : PidToSlot) (currPid : Pid) (inBlockingWait : Bool) : RunQueue :=
  let rq := rq.modify pts currPid (chargeTick rq.clock inBlockingWait)
  { rq with cfsRq := rq.cfsRq.updateMinVruntime (((rq.slotGet pts currPid).map Task.vruntime).getD 0) }

/-- The first task of the fair queue is well behind the running one. -/
def outran (rq : RunQueue) (pts : PidToSlot) (currPid : Pid) : Bool :=
  match rq.cfsRq.pickNext with
  | none => false
  | some nextPid =>
    nextPid != currPid &&
      decide (((rq.slotGet pts nextPid).map Task.vruntime).getD 0 + 1000000 <
        ((rq.slotGet pts currPid).map Task.vruntime).getD 0)

/-- `scheduler_tick`, without the copy of the run time into the process metadata. -/
def schedulerTick (rq : RunQueue) (pts : PidToSlot) (inBlockingWait : Bool) : Bool × RunQueue :=
  match rq.curr with
  | none => (false, rq)
  | some currPid =>
    match rq.slotGet pts currPid with
    | none => (false, rq)
    | some task =>
      match task.policy with
      | .fifo => (false, rq)
      | .roundRobin =>
        if 0 < task.timeSlice then
          if task.timeSlice - 1 = 0 then
            (true, { rq.modify pts currPid
              (fun t => { t with timeSlice := SchedPolicy.roundRobin.defaultTimeSlice }) with
              needResched := true })
          else (false, rq.modify pts currPid (fun t => { t with timeSlice := t.timeSlice - 1 }))
        else (false, rq)
      | .normal | .batch =>
        let rq := rq.chargeCurr pts currPid inBlockingWait
        (rq.outran pts currPid, { rq with needResched := rq.needResched || rq.outran pts currPid })
      | .idle => (decide (0 < rq.nrRunning), rq)

end RunQueue
end OxideOs.Sched

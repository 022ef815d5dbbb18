import OxideOs.Sched.RunQueue
import OxideOs.Lib.Run

/-!
# `Sched.Core` — the scheduler entry points (`sched::core`)

Every entry point works on run queues under their locks, one lock at a time. `Op` lists the lock sections that
stay within one run queue; `Action` adds those that move tasks, between which a task is in the hands of the
code that took it. A run of actions is an interleaving of the entry points, called by any CPU on any pid at
any time. An entry point that looks for its task on several CPUs changes at most the queue it finds it on, so
the whole call is one such section.
-/

namespace OxideOs.Sched

open Function

/-! ## Lock sections on one run queue -/

namespace RunQueue

/-- `should_preempt`. -/
def shouldPreempt (rq : RunQueue) (pts : PidToSlot) (waking curr : Pid) : Bool :=
  match rq.slotGet pts waking with
  | none => false
  | some w =>
    match rq.slotGet pts curr with
    | none => true
    | some c =>
      if w.policy.isRealtime && !c.policy.isRealtime then true
      else if w.policy.isRealtime && c.policy.isRealtime then decide (c.rtPriority < w.rtPriority)
      else if c.policy == .idle && w.policy != .idle then true
      else if w.policy.isFair && c.policy.isFair then decide (w.vruntime + 1000000 < c.vruntime)
      else false

/-- The section of `wake_up` and `try_wake_up` on the CPU that has the task, `none` when this is not it. The
    CPUs they scan last set `need_resched` without a comparison (`always`), and `wake_up` then also moves a
    fair task up to the minimal virtual run time (`refresh`). -/
def wake (rq : RunQueue) (pts : PidToSlot) (pid : Pid) (always refresh : Bool) : Option RunQueue :=
  match rq.slotGet pts pid with
  | none => none
  | some _ =>
    let woken := (rq.modify pts pid (fun t =>
      { t with
        vruntime := if refresh && t.policy.isFair then rq.cfsRq.minVruntime else t.vruntime,
        state := TASK_RUNNING })).enqueueTask pts pid
    some { woken with
      needResched := woken.needResched || always ||
        (woken.curr.map (fun curr => woken.shouldPreempt pts pid curr)).getD false }

/-- `block_current`. -/
def blockCurrent (rq : RunQueue) (pts : PidToSlot) (state : TaskState) : RunQueue :=
  match rq.curr with
  | none => rq
  | some pid => { (rq.modify pts pid (fun t => { t with state })).dequeueTask pts pid with needResched := true }

/-- `yield_current`. -/
def yieldCurrent (rq : RunQueue) (pts : PidToSlot) : RunQueue :=
  match rq.curr with
  | none => rq
  | some pid => { rq.putPrevTask pts pid with needResched := true }

/-- The accounting `pick_next_task` does for the task that was running. -/
def accountPrev (now : Nat) (t : Task) : Task :=
  let (delta, stopped) := t.accountStop now
  let delta := if delta = 0 ∧ t.policy.isFair = true ∧ t.vruntimeChargedThisTick = false then TICK_NS else delta
  { stopped with vruntimeChargedThisTick := false }.updateVruntime delta

/-- Put the task that was running back if it can still run, else make sure it is on no queue. -/
def settlePrev (rq : RunQueue) (pts : PidToSlot) (prev : Pid) : RunQueue :=
  match rq.slotGet pts prev with
  | none => rq.dequeueTask pts prev
  | some t => if t.state.isRunnable && !t.isIdle then rq.putPrevTask pts prev else rq.dequeueTask pts prev

/-- What `pick_next_task` and `switch_to` write into the task that runs next. -/
def markRunning (cpu now : Nat) (t : Task) : Task := { t with state := TASK_RUNNING, lastCpu := cpu, execStart := now }

/-- The run queue as `pick_next_task` has it before it pops: the clock is set, and the task that was running is
    accounted for and settled. -/
def prepared (rq : RunQueue) (pts : PidToSlot) (now : Nat) : RunQueue :=
  match rq.curr with
  | none => { rq with clock := now }
  | some prev => ({ rq with clock := now }.modify pts prev (accountPrev now)).settlePrev pts prev

/-- `pick_next_task`. -/
def pickNextTask (rq : RunQueue) (pts : PidToSlot) (now : Nat) : Pid × RunQueue :=
  let popped := (rq.prepared pts now).popNextTask pts
  (popped.1, { popped.2.modify pts popped.1 (markRunning rq.cpu now) with curr := some popped.1, needResched := false })

/-- `undo_pick_next`. -/
def undoPickNext (rq : RunQueue) (pts : PidToSlot) (old next : Pid) : RunQueue :=
  { { rq with curr := some old }.enqueueTask pts next with needResched := true }

/-- Put the task that was running back, as `switch_to` and `context_switch_transaction` do. -/
def requeue (rq : RunQueue) (pts : PidToSlot) (prev : Pid) : RunQueue :=
  match rq.slotGet pts prev with
  | none => rq
  | some t => if t.state.isRunnable && !t.isIdle then rq.putPrevTask pts prev else rq

/-- Make `new` the running task. -/
def enter (rq : RunQueue) (pts : PidToSlot) (new : Pid) (now : Nat) : RunQueue :=
  { (rq.dequeueTask pts new).modify pts new (fun t => { markRunning rq.cpu now t with onRq := false }) with
    clock := now, curr := some new, needResched := false }

/-- `switch_to`. -/
def switchTo (rq : RunQueue) (pts : PidToSlot) (new : Pid) (now : Nat) : RunQueue :=
  match rq.curr with
  | none => rq.enter pts new now
  | some prev => (rq.requeue pts prev).enter pts new now

/-- `context_switch_transaction`, `false` when it fails. A failure after the outgoing context has been saved
    leaves it saved. -/
def contextSwitch (rq : RunQueue) (pts : PidToSlot) (old new : Pid) (ctx : TaskContext) (now : Nat) :
    Bool × RunQueue :=
  match rq.slotGet pts old with
  | none => (false, rq)
  | some _ =>
    let saved := rq.modify pts old (fun t => { t with context := ctx })
    match saved.slotGet pts new with
    | none => (false, saved)
    | some n => if n.context.isSchedulable then (true, (saved.requeue pts old).enter pts new now) else (false, saved)

/-- What `set_scheduler` writes into the task. -/
def reclassify (policy : SchedPolicy) (priority : Nat) (t : Task) : Task :=
  if policy.isRealtime then (t.setPolicy policy).setRtPriority priority else t.setPolicy policy

/-- `set_scheduler`. -/
def setScheduler (rq : RunQueue) (pts : PidToSlot) (pid : Pid) (policy : SchedPolicy) (priority : Nat) :
    RunQueue :=
  match rq.slotGet pts pid with
  | none => rq
  | some t =>
    if t.onRq then
      ((rq.dequeueTask pts pid).modify pts pid (reclassify policy priority)).enqueueTask pts pid
    else rq.modify pts pid (reclassify policy priority)

/-- `set_task_exit_status`. -/
def exitTask (rq : RunQueue) (pts : PidToSlot) (pid : Pid) (status : Int) : RunQueue :=
  (rq.modify pts pid (fun t => t.exit status)).dequeueTask pts pid

end RunQueue

/-- The lock sections that stay within one run queue. -/
inductive Op where
  | enqueueTask (pid : Pid)
  | dequeueTask (pid : Pid)
  | putPrevTask (pid : Pid)
  | wake (pid : Pid) (always refresh : Bool)
  | blockCurrent (state : TaskState)
  | yieldCurrent
  | schedulerTick (inBlockingWait : Bool) (now : Nat)
  | pickNextTask (now : Nat)
  | undoPickNext (old next : Pid)
  | switchTo (new : Pid) (now : Nat)
  | contextSwitch (old new : Pid) (ctx : TaskContext) (now : Nat)
  | setScheduler (pid : Pid) (policy : SchedPolicy) (priority : Nat)
  | setTaskPolicy (pid : Pid) (policy : SchedPolicy)
  | setTaskRtPriority (pid : Pid) (priority : Nat)
  | setTaskNice (pid : Pid) (nice : Int)
  | setTaskAffinity (pid : Pid) (mask : CpuSet)
  | setTaskExitStatus (pid : Pid) (status : Int)
  | setTaskWaiting (pid : Pid) (child : Int)
  | clearTaskWaiting (pid : Pid)

/-- What a section does to the queue it runs on. `Op.setTaskAffinity` is also the first section of
    `set_affinity`. -/
def Op.run (o : Op) (pts : PidToSlot) (rq : RunQueue) : RunQueue :=
  match o with
  | .enqueueTask pid => rq.enqueueTask pts pid
  | .dequeueTask pid => rq.dequeueTask pts pid
  | .putPrevTask pid => rq.putPrevTask pts pid
  | .wake pid always refresh => (rq.wake pts pid always refresh).getD rq
  | .blockCurrent state => rq.blockCurrent pts state
  | .yieldCurrent => rq.yieldCurrent pts
  | .schedulerTick inBlockingWait now => ({ rq with clock := now }.schedulerTick pts inBlockingWait).2
  | .pickNextTask now => (rq.pickNextTask pts now).2
  | .undoPickNext old next => rq.undoPickNext pts old next
  | .switchTo new now => rq.switchTo pts new now
  | .contextSwitch old new ctx now => (rq.contextSwitch pts old new ctx now).2
  | .setScheduler pid policy priority => rq.setScheduler pts pid policy priority
  | .setTaskPolicy pid policy => rq.modify pts pid (fun t => { t with policy })
  | .setTaskRtPriority pid priority => rq.modify pts pid (fun t => { t with rtPriority := priority })
  | .setTaskNice pid nice => rq.modify pts pid (fun t => t.setNice nice)
  | .setTaskAffinity pid mask => rq.modify pts pid (fun t => { t with cpuAffinity := mask })
  | .setTaskExitStatus pid status => rq.exitTask pts pid status
  | .setTaskWaiting pid child => rq.modify pts pid (fun t => t.waitForChild child)
  | .clearTaskWaiting pid => rq.modify pts pid (fun t => t.clearWaiting)

/-! ## The machine -/

/-- The run queues, the two shared tables, and the tasks that are off every queue because some CPU's code is
    moving them, each with the CPU it is for. -/
structure Scheduler where
  runQueues : Nat → Option RunQueue
  pidToSlot : PidToSlot
  pidToCpu : Pid → Option Nat
  activeCpus : Nat
  moving : List (Nat × Task)

namespace Scheduler

def init : Scheduler :=
  { runQueues := fun _ => none, pidToSlot := fun _ => SLOT_NONE, pidToCpu := fun _ => none, activeCpus := 0,
    moving := [] }

/-- Write the run queue of a CPU back. -/
def put (s : Scheduler) (cpu : Nat) (rq : RunQueue) : Scheduler :=
  { s with runQueues := update s.runQueues cpu (some rq) }

/-- `init_cpu`. -/
def initCpu (s : Scheduler) (cpu : Nat) (idle : Pid) : Scheduler :=
  { s.put cpu (RunQueue.new cpu idle) with
    activeCpus := s.activeCpus + 1,
    pidToCpu := update s.pidToCpu idle (some cpu) }

/-- `select_task_rq`, run on `thisCpu`. `load` is what `nr_running` was on each CPU when it was asked. -/
def selectTaskRq (s : Scheduler) (thisCpu : Nat) (load : Nat → Nat) (t : Task) : Nat :=
  if t.cpuAffinity.isSet t.lastCpu then t.lastCpu
  else if t.cpuAffinity.isSet thisCpu then thisCpu
  else
    ((List.range s.activeCpus).foldl
      (fun (best : Nat × Nat) cpu =>
        if t.cpuAffinity.isSet cpu && decide (load cpu < best.2) then (cpu, load cpu) else best)
      (t.cpuAffinity.firstSet.getD 0, 2 ^ 32 - 1)).1

/-- `add_task_to_cpu`. A CPU that is not up loses the task. -/
def addTaskToCpu (s : Scheduler) (t : Task) (cpu now : Nat) : Scheduler :=
  match s.runQueues cpu with
  | none => { s with pidToCpu := update s.pidToCpu t.pid (some cpu) }
  | some rq =>
    { s.put cpu (rq.addTask s.pidToSlot t now).1 with
      pidToSlot := (rq.addTask s.pidToSlot t now).2,
      pidToCpu := update s.pidToCpu t.pid (some cpu) }

/-- Take a task off the queue of a CPU; the task goes to the caller. -/
def takeFrom (s : Scheduler) (cpu : Nat) (pid : Pid) : Option Task × Scheduler :=
  match s.runQueues cpu with
  | none => (none, s)
  | some rq =>
    ((rq.removeTask s.pidToSlot pid).1,
      { s.put cpu (rq.removeTask s.pidToSlot pid).2.1 with
        pidToSlot := (rq.removeTask s.pidToSlot pid).2.2 })

/-- The second section of `set_affinity`, on the CPU that had the task: unless it runs there, it is taken off
    to be added again elsewhere. -/
def evict (s : Scheduler) (cpu : Nat) (pid : Pid) : Option Task × Scheduler :=
  match s.runQueues cpu with
  | none => (none, s)
  | some rq =>
    if rq.curr = some pid then (none, s.put cpu { rq with needResched := true })
    else (s.put cpu (rq.dequeueTask s.pidToSlot pid)).takeFrom cpu pid

/-- `set_affinity` for a task that was found on `cpu`, without a step of another CPU in between. -/
def setAffinity (s : Scheduler) (thisCpu cpu : Nat) (pid : Pid) (mask : CpuSet) (load : Nat → Nat) (now : Nat) :
    Scheduler :=
  match s.runQueues cpu with
  | none => s
  | some rq =>
    let s := s.put cpu (Op.run (.setTaskAffinity pid mask) s.pidToSlot rq)
    if mask.isSet cpu then s
    else
      match s.evict cpu pid with
      | (none, s) => s
      | (some t, s) => s.addTaskToCpu t (s.selectTaskRq thisCpu load t) now

/-- `steal_task` as `idle_try_steal` calls it. -/
def steal (s : Scheduler) (victimCpu myCpu : Nat) : Option Task × Scheduler :=
  match s.runQueues victimCpu with
  | none => (none, s)
  | some rq =>
    ((rq.stealTask s.pidToSlot myCpu).1,
      { s.put victimCpu (rq.stealTask s.pidToSlot myCpu).2.1 with
        pidToSlot := (rq.stealTask s.pidToSlot myCpu).2.2 })

end Scheduler

/-- One atomic step of the machine. -/
inductive Action where
  /-- A CPU comes up. -/
  | initCpu (cpu : Nat) (idle : Pid)
  | op (cpu : Nat) (o : Op)
  /-- `add_task` and `add_task_to_cpu` with a new task. -/
  | addTask (t : Task) (cpu now : Nat)
  /-- `remove_task` of a task that is reaped. -/
  | removeTask (cpu : Nat) (pid : Pid)
  /-- The victim's section of `idle_try_steal`. -/
  | steal (victimCpu myCpu : Nat)
  /-- The second section of `set_affinity`, on its own. -/
  | evict (thisCpu cpu : Nat) (pid : Pid) (load : Nat → Nat)
  /-- The section that adds a task in motion to the queue it is for. -/
  | land (i now : Nat)
  /-- `set_affinity` in one go. -/
  | setAffinity (thisCpu cpu : Nat) (pid : Pid) (mask : CpuSet) (load : Nat → Nat) (now : Nat)

namespace Scheduler

/-- A section on a CPU that is not up does nothing and is no step. -/
def step (s : Scheduler) : Action → Option Scheduler
  | .initCpu cpu idle => if (s.runQueues cpu).isNone then some (s.initCpu cpu idle) else none
  | .op cpu o => (s.runQueues cpu).map (fun rq => s.put cpu (o.run s.pidToSlot rq))
  | .addTask t cpu now => some (s.addTaskToCpu t cpu now)
  | .removeTask cpu pid => some { (s.takeFrom cpu pid).2 with pidToCpu := update s.pidToCpu pid none }
  | .steal victimCpu myCpu =>
    match s.steal victimCpu myCpu with
    | (none, s') => some s'
    | (some t, s') => some { s' with moving := s'.moving ++ [(myCpu, t)] }
  | .evict thisCpu cpu pid load =>
    match s.evict cpu pid with
    | (none, s') => some s'
    | (some t, s') =>
      some { s' with
        pidToCpu := update s'.pidToCpu pid none,
        moving := s'.moving ++ [(s'.selectTaskRq thisCpu load t, t)] }
  | .land i now =>
    match s.moving[i]? with
    | none => none
    | some (cpu, t) => some ({ s with moving := s.moving.eraseIdx i }.addTaskToCpu t cpu now)
  | .setAffinity thisCpu cpu pid mask load now => some (s.setAffinity thisCpu cpu pid mask load now)

/-- The task an action hands to a CPU: the one `pick_next_task` picks, the one `steal_task` takes. -/
def handed (s : Scheduler) : Action → Option (Nat × Task)
  | .op cpu (.pickNextTask now) =>
    (s.runQueues cpu).bind (fun rq =>
      ((rq.pickNextTask s.pidToSlot now).2.slotGet s.pidToSlot (rq.pickNextTask s.pidToSlot now).1).map
        (fun t => (cpu, t)))
  | .steal victimCpu myCpu => (s.steal victimCpu myCpu).1.map (fun t => (myCpu, t))
  | _ => none

/-! ## Entry points that look for their task -/

/-- Try a list of sections, each on its CPU, until one finds the task. -/
def firstOf (s : Scheduler) : List (Nat × (RunQueue → Option RunQueue)) → Scheduler × Bool
  | [] => (s, false)
  | (cpu, f) :: rest =>
    match (s.runQueues cpu).bind f with
    | some rq => (s.put cpu rq, true)
    | none => s.firstOf rest

/-- The other CPUs, in the order of the scan. -/
def others (s : Scheduler) (thisCpu : Nat) : List Nat := (List.range s.activeCpus).filter (fun c => c != thisCpu)

/-- The CPU the table names for the pid, when that is another one. -/
def hint (s : Scheduler) (thisCpu : Nat) (pid : Pid) : List Nat :=
  if pid < MAX_PIDS then ((s.pidToCpu pid).filter (fun c => c != thisCpu)).toList else []

/-- `wake_up`. -/
def wakeUp (s : Scheduler) (thisCpu : Nat) (pid : Pid) : Scheduler :=
  (s.firstOf
    ((thisCpu, fun rq => rq.wake s.pidToSlot pid false false) ::
      ((s.hint thisCpu pid).map (fun c => (c, fun rq => rq.wake s.pidToSlot pid true false)) ++
        ((s.others thisCpu).filter (fun c => c ∉ s.hint thisCpu pid)).map
          (fun c => (c, fun rq => rq.wake s.pidToSlot pid true true))))).1

/-- `try_wake_up`, where the lock of a CPU in `contended` is held by somebody: the call then gives up. -/
def tryWakeUp (s : Scheduler) (thisCpu : Nat) (contended : Nat → Bool) (pid : Pid) : Scheduler × Bool :=
  s.firstOf
    (((thisCpu, fun rq => rq.wake s.pidToSlot pid false false) ::
      ((s.hint thisCpu pid).map (fun c => (c, fun rq => rq.wake s.pidToSlot pid false false)) ++
        (s.others thisCpu).map (fun c => (c, fun rq => rq.wake s.pidToSlot pid true false)))).takeWhile
      (fun p => !contended p.1 && (s.runQueues p.1).isSome))

end Scheduler
end OxideOs.Sched

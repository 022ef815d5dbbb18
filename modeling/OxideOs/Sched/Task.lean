import Mathlib

/-!
# `Sched.Task` — tasks and their scheduling attributes (`sched-traits`, `sched::task`)

The part of a task that the scheduler reads or writes. Times are nanoseconds; the saturating `u64` sums of
the source are kept, its plain sums stay far below the range and are not wrapped.
-/

namespace OxideOs.Sched

abbrev Pid := Nat

def U64_MAX : Nat := 2 ^ 64 - 1

def saturatingAdd (a b : Nat) : Nat := min (a + b) U64_MAX

/-! ## Task states -/

/-- A bit mask; `TASK_RUNNING` is the mask without bits. -/
structure TaskState where
  bits : Nat
  deriving DecidableEq, Repr

def TASK_RUNNING : TaskState := ⟨0⟩
def TASK_INTERRUPTIBLE : TaskState := ⟨1⟩
def TASK_DEAD : TaskState := ⟨16⟩
def TASK_ZOMBIE : TaskState := ⟨32⟩

namespace TaskState

def isRunnable (s : TaskState) : Bool := s.bits == TASK_RUNNING.bits

/-- `is_dead`: dead or zombie. -/
def isDead (s : TaskState) : Bool := s.bits &&& (TASK_DEAD.bits ||| TASK_ZOMBIE.bits) != 0

end TaskState

/-! ## Policies -/

inductive SchedPolicy where
  | normal
  | fifo
  | roundRobin
  | batch
  | idle
  deriving DecidableEq, Repr

namespace SchedPolicy

def isRealtime : SchedPolicy → Bool
  | fifo | roundRobin => true
  | _ => false

def isFair : SchedPolicy → Bool
  | normal | batch => true
  | _ => false

def defaultTimeSlice : SchedPolicy → Nat
  | roundRobin => 10
  | _ => 0

end SchedPolicy

/-! ## CPU sets -/

/-- The four words of the mask, the low word first. -/
structure CpuSet where
  bits : BitVec 256
  deriving DecidableEq

namespace CpuSet

def empty : CpuSet := ⟨0⟩

def all : CpuSet := ⟨BitVec.allOnes 256⟩

def single (cpu : Nat) : CpuSet := if cpu < 256 then ⟨BitVec.twoPow 256 cpu⟩ else empty

/-- No CPU from 256 on is in a set. -/
def isSet (s : CpuSet) (cpu : Nat) : Bool := s.bits.getLsbD cpu

def isEmpty (s : CpuSet) : Bool := s.bits == 0

def firstSet (s : CpuSet) : Option Nat := (List.range 256).find? s.isSet

end CpuSet

/-! ## Weights -/

def NICE_0_WEIGHT : Nat := 1024

def TICK_NS : Nat := 10000000

def RT_PRIO_MAX : Nat := 99

def NICE_TO_WEIGHT : List Nat :=
  [88761, 71755, 56483, 46273, 36291, 29154, 23254, 18705, 14949, 11916, 9548, 7620, 6100, 4904, 3906, 3121,
    2501, 1991, 1586, 1277, 1024, 820, 655, 526, 423, 335, 272, 215, 172, 137, 110, 87, 70, 56, 45, 36, 29, 23,
    18, 15]

/-- `nice_to_weight`: the index is clamped into the table. -/
def niceToWeight (nice : Int) : Nat := NICE_TO_WEIGHT.getD (min (nice + 20).toNat 39) 15

/-! ## Tasks -/

/-- The registers that decide whether a context can be switched to. -/
structure TaskContext where
  rip : Nat
  rsp : Nat
  cs : Nat
  deriving DecidableEq

namespace TaskContext

def default : TaskContext := { rip := 0, rsp := 0, cs := 0x08 }

def isSchedulable (c : TaskContext) : Bool := c.rip != 0 && c.rsp != 0 && (c.cs == 0x08 || c.cs == 0x23)

end TaskContext

structure Task where
  pid : Pid
  state : TaskState
  policy : SchedPolicy
  context : TaskContext
  rtPriority : Nat
  timeSlice : Nat
  nice : Int
  weight : Nat
  vruntime : Nat
  cpuAffinity : CpuSet
  lastCpu : Nat
  execStart : Nat
  sumExecRuntime : Nat
  startTime : Nat
  vruntimeChargedThisTick : Bool
  onRq : Bool
  exitStatus : Int
  waitingForChild : Int
  deriving DecidableEq

namespace Task

/-- `Task::new`, and `new_with_meta`, which differs in fields that are left out here. -/
def new (pid : Pid) : Task :=
  { pid, state := TASK_RUNNING, policy := .normal, context := TaskContext.default, rtPriority := 0,
    timeSlice := 0, nice := 0, weight := NICE_0_WEIGHT, vruntime := 0, cpuAffinity := CpuSet.all, lastCpu := 0,
    execStart := 0, sumExecRuntime := 0, startTime := 0, vruntimeChargedThisTick := false, onRq := false,
    exitStatus := 0, waitingForChild := 0 }

def setPolicy (t : Task) (policy : SchedPolicy) : Task :=
  { t with
    policy,
    timeSlice := if policy = .roundRobin then policy.defaultTimeSlice else t.timeSlice }

def setNice (t : Task) (nice : Int) : Task :=
  { t with nice := max (-20) (min nice 19), weight := niceToWeight (max (-20) (min nice 19)) }

def setRtPriority (t : Task) (prio : Nat) : Task := { t with rtPriority := max 1 (min prio 99) }

def isIdle (t : Task) : Bool := t.policy == .idle

def canRunOn (t : Task) (cpu : Nat) : Bool := t.cpuAffinity.isSet cpu

/-- `account_stop`: the time since the task started running, and the task with it accounted. -/
def accountStop (t : Task) (now : Nat) : Nat × Task :=
  (now - t.execStart, { t with sumExecRuntime := saturatingAdd t.sumExecRuntime (now - t.execStart), execStart := 0 })

/-- `update_vruntime`. -/
def updateVruntime (t : Task) (delta : Nat) : Task :=
  let weighted := if 0 < t.weight then delta * NICE_0_WEIGHT / t.weight % 2 ^ 64 else delta
  { t with vruntime := saturatingAdd t.vruntime weighted }

/-- `wait_for_child`: `-1` is any child, `0` none. -/
def waitForChild (t : Task) (childPid : Int) : Task :=
  { t with
    waitingForChild := childPid,
    state := if childPid ≠ 0 then TASK_INTERRUPTIBLE else t.state }

def clearWaiting (t : Task) : Task := { t with waitingForChild := 0, state := TASK_RUNNING }

def exit (t : Task) (status : Int) : Task := { t with exitStatus := status, state := TASK_ZOMBIE }

end Task

end OxideOs.Sched

import OxideOs.Sched.Queued

/-!
# `Sched.Effects` — what a lock section does to the tasks of its queue

Queueing changes a task's mark and its clocks. Its state, policy, priority and affinity, its `Attr`, change only
where a section is about them. `Op.after` says how, for every section and every pid, and `view_run` that it is
so; what other modules prove about states and masks starts there.
-/

namespace OxideOs.Sched

/-- What a task is to the rest of the kernel, apart from queues and clocks. -/
structure Attr where
  state : TaskState
  policy : SchedPolicy
  rtPriority : Nat
  cpuAffinity : CpuSet

def Task.attr (t : Task) : Attr :=
  { state := t.state, policy := t.policy, rtPriority := t.rtPriority, cpuAffinity := t.cpuAffinity }

namespace RunQueue

variable {pts : PidToSlot} {rq : RunQueue} {pid p : Pid} {f : Task → Task}

/-- The current task is one the queue may have. -/
def runningAttr (a : Attr) : Attr := { a with state := TASK_RUNNING }

end RunQueue

/-- What a section writes into the attributes of the task of `p`. -/
def Op.after (o : Op) (pts : PidToSlot) (rq : RunQueue) (p : Pid) (a : Attr) : Attr :=
  match o with
  | .wake pid _ _ => if p = pid then RunQueue.runningAttr a else a
  | .blockCurrent state => if rq.curr = some p then { a with state } else a
  | .pickNextTask now => if p = (rq.pickNextTask pts now).1 then RunQueue.runningAttr a else a
  | .switchTo new _ => if p = new then RunQueue.runningAttr a else a
  | .contextSwitch old new ctx now =>
    if p = new ∧ (rq.contextSwitch pts old new ctx now).1 = true then RunQueue.runningAttr a else a
  | .setScheduler pid policy priority =>
    if p = pid then
      { a with
        policy,
        rtPriority := if policy.isRealtime then max 1 (min priority 99) else a.rtPriority }
    else a
  | .setTaskPolicy pid policy => if p = pid then { a with policy } else a
  | .setTaskRtPriority pid priority => if p = pid then { a with rtPriority := priority } else a
  | .setTaskAffinity pid mask => if p = pid then { a with cpuAffinity := mask } else a
  | .setTaskExitStatus pid _ => if p = pid then { a with state := TASK_ZOMBIE } else a
  | .setTaskWaiting pid child => if p = pid ∧ child ≠ 0 then { a with state := TASK_INTERRUPTIBLE } else a
  | .clearTaskWaiting pid => if p = pid then RunQueue.runningAttr a else a
  | _ => a

namespace RunQueue

variable {pts : PidToSlot} {rq : RunQueue} {p : Pid}

/-- `context_switch_transaction` fails before it saves the outgoing context, fails after that, or switches. -/
theorem contextSwitch_cases (rq : RunQueue) (pts : PidToSlot) (old new : Pid) (ctx : TaskContext) (now : Nat) :
    rq.contextSwitch pts old new ctx now = (false, rq) ∨
      rq.contextSwitch pts old new ctx now = (false, rq.modify pts old (fun t => { t with context := ctx })) ∨
      rq.contextSwitch pts old new ctx now =
        (true, ((rq.modify pts old (fun t => { t with context := ctx })).requeue pts old).enter pts new now) := by
  unfold contextSwitch
  split
  · exact .inl rfl
  dsimp only
  split
  · exact .inr (.inl rfl)
  split
  · exact .inr (.inr rfl)
  · exact .inr (.inl rfl)

theorem reclassify_pid (policy : SchedPolicy) (priority : Nat) (t : Task) :
    (reclassify policy priority t).pid = t.pid := by
  unfold reclassify
  split <;> rfl

theorem reclassify_onRq (policy : SchedPolicy) (priority : Nat) (t : Task) :
    (reclassify policy priority t).onRq = t.onRq := by
  unfold reclassify
  split <;> rfl

/-! ## What no section changes -/

/-- The parts of a run queue that belong to the CPU. -/
structure SameCpu (rq rq' : RunQueue) : Prop where
  cpu : rq'.cpu = rq.cpu
  idle : rq'.idle = rq.idle
  freeStack : rq'.freeStack = rq.freeStack

theorem SameCpu.refl (rq : RunQueue) : SameCpu rq rq := ⟨rfl, rfl, rfl⟩

theorem SameCpu.trans {a b c : RunQueue} (h : SameCpu a b) (h' : SameCpu b c) : SameCpu a c :=
  ⟨h'.cpu.trans h.cpu, h'.idle.trans h.idle, h'.freeStack.trans h.freeStack⟩

theorem sameCpu_modify {pid : Pid} {f : Task → Task} : SameCpu rq (rq.modify pts pid f) := by
  unfold modify
  split
  · exact .refl rq
  · exact ⟨rfl, rfl, rfl⟩

theorem sameCpu_enqueueTask (pid : Pid) : SameCpu rq (rq.enqueueTask pts pid) := by
  obtain ⟨v, -, hcpu, hidle, hfree⟩ := enqueueTask_frame rq pts pid
  exact ⟨hcpu, hidle, hfree⟩

theorem sameCpu_dequeueTask (pid : Pid) : SameCpu rq (rq.dequeueTask pts pid) := by
  obtain ⟨-, hcpu, hidle, hfree⟩ := dequeueTask_frame rq pts pid
  exact ⟨hcpu, hidle, hfree⟩

theorem sameCpu_putPrevTask (pid : Pid) : SameCpu rq (rq.putPrevTask pts pid) := by
  unfold putPrevTask
  split
  · exact .refl rq
  split
  · exact .refl rq
  · exact sameCpu_enqueueTask pid

theorem sameCpu_settlePrev (pid : Pid) : SameCpu rq (rq.settlePrev pts pid) := by
  unfold settlePrev
  split
  · exact sameCpu_dequeueTask pid
  split
  · exact sameCpu_putPrevTask pid
  · exact sameCpu_dequeueTask pid

theorem sameCpu_requeue (pid : Pid) : SameCpu rq (rq.requeue pts pid) := by
  unfold requeue
  split
  · exact .refl rq
  split
  · exact sameCpu_putPrevTask pid
  · exact .refl rq

theorem sameCpu_popNextTask : SameCpu rq (rq.popNextTask pts).2 := by
  unfold popNextTask
  split
  next pid rt hpop =>
    exact .trans (.trans (b := { rq with rtRq := rt }) ⟨rfl, rfl, rfl⟩ sameCpu_modify) ⟨rfl, rfl, rfl⟩
  rename_i rt hpop
  split
  · exact ⟨rfl, rfl, rfl⟩
  dsimp only
  split
  · exact ⟨rfl, rfl, rfl⟩
  rename_i pid cfs _
  exact .trans (.trans (b := { rq with rtRq := rt, cfsRq := cfs }) ⟨rfl, rfl, rfl⟩ sameCpu_modify) ⟨rfl, rfl, rfl⟩

theorem sameCpu_enter (new : Pid) (now : Nat) : SameCpu rq (rq.enter pts new now) :=
  ((sameCpu_dequeueTask new).trans sameCpu_modify).trans ⟨rfl, rfl, rfl⟩

theorem sameCpu_prepared (now : Nat) : SameCpu rq (rq.prepared pts now) := by
  unfold prepared
  split
  · exact ⟨rfl, rfl, rfl⟩
  · refine .trans (SameCpu.trans (b := { rq with clock := now }) ⟨rfl, rfl, rfl⟩ sameCpu_modify)
      (sameCpu_settlePrev _)

theorem sameCpu_pickNextTask (now : Nat) : SameCpu rq (rq.pickNextTask pts now).2 :=
  (((sameCpu_prepared now).trans sameCpu_popNextTask).trans sameCpu_modify).trans ⟨rfl, rfl, rfl⟩

theorem sameCpu_schedulerTick (b : Bool) : SameCpu rq (rq.schedulerTick pts b).2 := by
  have hcharge : ∀ cur, SameCpu rq (rq.chargeCurr pts cur b) := fun cur => sameCpu_modify.trans ⟨rfl, rfl, rfl⟩
  unfold schedulerTick
  split
  · exact .refl rq
  rename_i cur _
  split
  · exact .refl rq
  split
  · exact .refl rq
  · split
    · split
      · exact sameCpu_modify.trans ⟨rfl, rfl, rfl⟩
      · exact sameCpu_modify
    · exact .refl rq
  iterate 2
    · exact (hcharge cur).trans ⟨rfl, rfl, rfl⟩
  · exact .refl rq

theorem sameCpu_run (o : Op) : SameCpu rq (o.run pts rq) := by
  cases o with
  | enqueueTask pid => exact sameCpu_enqueueTask pid
  | dequeueTask pid => exact sameCpu_dequeueTask pid
  | putPrevTask pid => exact sameCpu_putPrevTask pid
  | wake pid always refresh =>
    show SameCpu rq ((rq.wake pts pid always refresh).getD rq)
    unfold wake
    split
    · exact .refl rq
    · refine .trans (sameCpu_modify.trans (sameCpu_enqueueTask _)) ⟨rfl, rfl, rfl⟩
  | blockCurrent state =>
    show SameCpu rq (rq.blockCurrent pts state)
    unfold blockCurrent
    split
    · exact .refl rq
    · exact .trans (sameCpu_modify.trans (sameCpu_dequeueTask _)) ⟨rfl, rfl, rfl⟩
  | yieldCurrent =>
    show SameCpu rq (rq.yieldCurrent pts)
    unfold yieldCurrent
    split
    · exact .refl rq
    · exact .trans (sameCpu_putPrevTask _) ⟨rfl, rfl, rfl⟩
  | schedulerTick b now => exact .trans (b := { rq with clock := now }) ⟨rfl, rfl, rfl⟩ (sameCpu_schedulerTick b)
  | pickNextTask now => exact sameCpu_pickNextTask now
  | undoPickNext old next =>
    exact .trans (.trans (b := { rq with curr := some old }) ⟨rfl, rfl, rfl⟩ (sameCpu_enqueueTask _)) ⟨rfl, rfl, rfl⟩
  | switchTo new now =>
    show SameCpu rq (rq.switchTo pts new now)
    unfold switchTo
    split
    · exact sameCpu_enter new now
    · exact (sameCpu_requeue _).trans (sameCpu_enter new now)
  | contextSwitch old new ctx now =>
    show SameCpu rq (rq.contextSwitch pts old new ctx now).2
    rcases contextSwitch_cases rq pts old new ctx now with h | h | h <;> rw [h]
    · exact .refl rq
    · exact sameCpu_modify
    · exact (sameCpu_modify.trans (sameCpu_requeue _)).trans (sameCpu_enter _ _)
  | setScheduler pid policy priority =>
    show SameCpu rq (rq.setScheduler pts pid policy priority)
    unfold setScheduler
    split
    · exact .refl rq
    split
    · exact ((sameCpu_dequeueTask _).trans sameCpu_modify).trans (sameCpu_enqueueTask _)
    · exact sameCpu_modify
  | setTaskExitStatus pid status => exact sameCpu_modify.trans (sameCpu_dequeueTask _)
  | _ => exact sameCpu_modify

end RunQueue
end OxideOs.Sched

import OxideOs.Sched.Origins

/-!
# `Sched.Consistency` — marks, queues and counts of a run queue

Membership is stored three times: in the mark of the task, in the class queues and in `nr_running`. A run queue
is `Consistent` when they agree and when no task that could run is left behind. Runs keep this as long as no
step does one of three things. A real-time level that is full drops the task that is put on it, and the task is
marked and counted all the same. `set_task_policy` and `set_task_rt_priority` change the class of a queued task
in place, where `set_scheduler` takes it off its queue and puts it on the other. And a task of the idle policy
has no queue to be in, but is marked when it is added or woken.
-/

namespace OxideOs.Sched

open Option Attr Run

/-- The pid of a task occurs once in the queue its policy and priority name, and in no other. -/
def RunQueue.InItsQueue (rq : RunQueue) (t : Task) : Prop :=
  ∃ q, t.home = some q ∧ ∀ q', (rq.members q').count t.pid = if q' = q then 1 else 0

/-- What a run queue says about its tasks is so. -/
structure RunQueue.Consistent (rq : RunQueue) : Prop where
  marked : ∀ i t, rq.slots i = some t → (t.onRq = true ↔ rq.InItsQueue t)
  total : rq.nrRunning = rq.rtRq.nrRunning + rq.cfsRq.nrRunning
  rtCount : rq.rtRq.nrRunning = rq.rtRq.tasks.length
  fairCount : rq.cfsRq.nrRunning = rq.cfsRq.tasks.length
  ready : ∀ i t, rq.slots i = some t → t.state.isRunnable = true → rq.curr ≠ some t.pid → t.onRq = true

namespace RunQueue

variable {pts : PidToSlot} {rq : RunQueue} {p : Pid} {t : Task}

/-- With nothing out of step, the queues hold what is due. -/
theorem Coherent.count_eq (hc : Coherent True pts rq) (q : QueueId) (p : Pid) :
    (rq.members q).count p = rq.due pts p q := le_antisymm (hc.most q p) (hc.least trivial q p)

/-- With nothing out of step, a task is marked exactly when it is in its queue. -/
theorem Coherent.onRq_iff (hc : Coherent True pts rq) (hg : rq.slotGet pts p = some t) (hpol : t.policy ≠ .idle) :
    t.onRq = true ↔ rq.InItsQueue t := by
  have hpid := slotGet_pid hg
  have hcount : ∀ q, (rq.members q).count t.pid = t.due q := by
    intro q
    rw [hpid, hc.count_eq, due_some hg]
  refine ⟨fun hon => ?_, ?_⟩
  · obtain ⟨q, hq⟩ := ne_none_iff_exists'.mp (fun h => hpol (Task.home_eq_none.mp h))
    exact ⟨q, hq, fun q' => by rw [hcount, Task.due_home hon hq]⟩
  rintro ⟨q, hq, hall⟩
  have hone := hall q
  rw [hcount, if_pos rfl] at hone
  by_contra hoff
  rw [Task.due_off q ((Bool.not_eq_true _).mp hoff)] at hone
  cases hone

end RunQueue

/-! ## No task is left behind -/

/-- What a section needs so that it leaves no runnable task behind: it does not take one off its queue, does not
    put another task in the place of the current one without queueing that, and does not make a task runnable
    without queueing it. -/
def Op.Keeps (pts : PidToSlot) (rq : RunQueue) : Op → Prop
  | .dequeueTask pid => ∀ t, rq.slotGet pts pid = some t → t.attr.stays = true → rq.curr = some pid
  | .undoPickNext old next =>
    ∀ cur t, rq.curr = some cur → rq.slotGet pts cur = some t → t.attr.stays = true → t.onRq = false →
      cur = old ∨ cur = next
  | .contextSwitch old new _ _ =>
    ∀ cur t, rq.curr = some cur → rq.slotGet pts cur = some t → t.attr.stays = true → t.onRq = false →
      cur = old ∨ cur = new
  | .clearTaskWaiting pid => ∀ t, rq.slotGet pts pid = some t → t.policy ≠ .idle → t.onRq = true ∨ rq.curr = some pid
  | _ => True

theorem Attr.stays_iff {a : Attr} : a.stays = true ↔ a.state.isRunnable = true ∧ a.policy ≠ .idle := by
  unfold stays
  rw [Bool.and_eq_true, bne_iff_ne]

/-- A task that a section takes from the CPU: it is the one the section puts back. -/
theorem Op.ready_replaced {rq : RunQueue} {p old next : Pid} {t : Task}
    (hk : rq.curr = some p → t.onRq = false → p = old ∨ p = next) (hready : rq.curr ≠ some p → t.onRq = true) :
    t.onRq = true ∨ p = old ∨ p = next := by
  by_cases hc : rq.curr = some p
  · cases hon : t.onRq with
    | true => exact .inl rfl
    | false => exact .inr (hk hc hon)
  · exact .inl (hready hc)

/-- **No section leaves a runnable task behind.** -/
theorem Op.ready {o : Op} {pts : PidToSlot} {rq : RunQueue} {p : Pid} {t : Task} (hk : o.Keeps pts rq)
    (hg : rq.slotGet pts p = some t) (hclass : t.policy ≠ .idle)
    (hready : t.attr.stays = true → rq.curr ≠ some p → t.onRq = true)
    (hstays : (o.after pts rq p t.attr).stays = true) (hcurr : o.running pts rq ≠ some p) :
    o.mark pts rq p t.attr t.onRq = true := by
  cases o with
  | enqueueTask | putPrevTask | yieldCurrent => exact Bool.or_eq_true_iff.mpr (.inl (hready hstays hcurr))
  | dequeueTask pid =>
    have hne : p ≠ pid := fun he => hcurr (he ▸ hk t (he ▸ hg) hstays)
    exact Bool.and_eq_true_iff.mpr ⟨hready hstays hcurr, decide_eq_true hne⟩
  | wake pid always refresh =>
    show (t.onRq || decide (p = pid)) = true
    by_cases hp : p = pid
    · rw [decide_eq_true hp, Bool.or_true]
    simp only [after, if_neg hp] at hstays
    rw [hready hstays hcurr, Bool.true_or]
  | blockCurrent state =>
    have hne : rq.curr ≠ some p := hcurr
    simp only [after, if_neg hne] at hstays
    exact Bool.and_eq_true_iff.mpr ⟨hready hstays hne, decide_eq_true hne⟩
  | schedulerTick | setTaskNice => exact hready hstays hcurr
  | pickNextTask now =>
    have hne : p ≠ (rq.pickNextTask pts now).1 := fun he => hcurr (congrArg some he.symm)
    simp only [after, if_neg hne] at hstays
    show (if p = (rq.pickNextTask pts now).1 ∧ _ then false else if rq.curr = some p then _ else _) = true
    rw [if_neg (fun h => hne h.1)]
    by_cases hc : rq.curr = some p
    · rw [if_pos hc]
      exact hstays
    · rw [if_neg hc]
      exact hready hstays hc
  | undoPickNext old next =>
    have hold : p ≠ old := fun he => hcurr (congrArg some he.symm)
    show (t.onRq || decide (p = next)) = true
    rcases Op.ready_replaced (fun hc => hk p t hc hg hstays) (hready hstays) with hon | he | hn
    · rw [hon, Bool.true_or]
    · exact absurd he hold
    · rw [decide_eq_true hn, Bool.or_true]
  | switchTo new now =>
    have hne : p ≠ new := fun he => hcurr (congrArg some he.symm)
    simp only [after, if_neg hne] at hstays
    show (decide (p ≠ new) && (t.onRq || (decide (rq.curr = some p) && t.attr.stays))) = true
    rw [decide_eq_true hne, hstays, Bool.true_and, Bool.and_true]
    by_cases hc : rq.curr = some p
    · rw [decide_eq_true hc, Bool.or_true]
    · rw [hready hstays hc, Bool.true_or]
  | contextSwitch old new ctx now =>
    simp only [after, Op.running, Op.mark] at hstays hcurr ⊢
    by_cases hok : (rq.contextSwitch pts old new ctx now).1 = true
    · rw [if_pos hok] at hcurr ⊢
      have hne : p ≠ new := fun he => hcurr (congrArg some he.symm)
      rw [if_neg (fun h => hne h.1)] at hstays
      rw [decide_eq_true hne, hstays, Bool.true_and, Bool.and_true]
      rcases Op.ready_replaced (fun hc => hk p t hc hg hstays) (hready hstays) with hon | hold | he
      · rw [hon, Bool.true_or]
      · rw [decide_eq_true hold, Bool.or_true]
      · exact absurd he hne
    · rw [if_neg hok] at hcurr ⊢
      rw [if_neg (fun h => hok h.2)] at hstays
      exact hready hstays hcurr
  | setScheduler pid | setTaskPolicy pid =>
    by_cases hp : p = pid
    · simp only [after, if_pos hp] at hstays
      exact hready (stays_iff.mpr ⟨(stays_iff.mp hstays).1, hclass⟩) hcurr
    · simp only [after, if_neg hp] at hstays
      exact hready hstays hcurr
  | setTaskRtPriority | setTaskAffinity =>
    simp only [after] at hstays
    split at hstays <;> exact hready hstays hcurr
  | setTaskExitStatus pid status =>
    simp only [after] at hstays
    have hne : p ≠ pid := by
      intro hp
      rw [if_pos hp] at hstays
      cases (stays_iff.mp hstays).1
    rw [if_neg hne] at hstays
    exact Bool.and_eq_true_iff.mpr ⟨hready hstays hcurr, decide_eq_true hne⟩
  | setTaskWaiting pid child =>
    simp only [after] at hstays
    split at hstays
    · cases (stays_iff.mp hstays).1
    · exact hready hstays hcurr
  | clearTaskWaiting pid =>
    simp only [after] at hstays
    by_cases hp : p = pid
    · rw [if_pos hp] at hstays
      exact (hk t (hp ▸ hg) (stays_iff.mp hstays).2).resolve_right (hp ▸ hcurr)
    · rw [if_neg hp] at hstays
      exact hready hstays hcurr

/-- The policy a step gives a task. -/
def Action.newPolicy : Action → Option SchedPolicy
  | .addTask t _ _ => some t.policy
  | .op _ (.setScheduler _ policy _) | .op _ (.setTaskPolicy _ policy) => some policy
  | _ => none

/-- No task gets the policy that names no queue. -/
def Action.Classes (a : Action) : Prop := a.newPolicy ≠ some .idle

instance (a : Action) : Decidable a.Classes := inferInstanceAs (Decidable (_ ≠ _))

theorem Op.after_classed {o : Op} {cpu : Nat} {pts : PidToSlot} {rq : RunQueue} {p : Pid} {a : Attr}
    (ha : a.policy ≠ .idle) (ho : Action.Classes (.op cpu o)) : (o.after pts rq p a).policy ≠ .idle := by
  cases o with
  | setScheduler | setTaskPolicy =>
    unfold after
    dsimp only
    split
    · exact mt (congrArg some) ho
    · exact ha
  | _ =>
    unfold after
    first
      | exact ha
      | (dsimp only; split <;> exact ha)

namespace Scheduler

variable {s s' : Scheduler}

/-- A runnable task that is not running is marked. -/
def Ready (s : Scheduler) : Prop :=
  ∀ c rq p t, s.runQueues c = some rq → s.find c p = some t → t.attr.stays = true → rq.curr ≠ some p →
    t.onRq = true

/-- Every task has a policy that names a queue. -/
structure Classed (s : Scheduler) : Prop where
  seated : ∀ c p t, s.find c p = some t → t.policy ≠ .idle
  moving : ∀ m ∈ s.moving, m.2.policy ≠ .idle

/-- What a step must respect so that marks, queues and counts agree after it. -/
def Tidy (s : Scheduler) (a : Action) : Prop :=
  a.Orderly True s ∧ a.Classes ∧ ∀ cpu o rq, a = .op cpu o → s.runQueues cpu = some rq → o.Keeps s.pidToSlot rq

theorem Classed.step (hs : Sound True s) (hcl : Classed s) {a : Action} (ho : Tidy s a) (h : s.step a = some s') :
    Classed s' := by
  refine ⟨fun c p t' hf => ?_, fun m hm => ?_⟩
  · cases hs.origin ho.1 h hf with
    | kept ha hk => exact hcl.seated c p t' hk
    | ran ha hq hft hattr hmark =>
      rename_i o rq t
      subst ha
      have hpol : t'.policy = _ := congrArg Attr.policy hattr
      rw [hpol]
      exact Op.after_classed (hcl.seated c p t hft) ho.2.1
    | added ha hp harr =>
      subst ha
      rw [harr.policy]
      exact mt (congrArg some) ho.2.1
    | landed ha hm hp harr =>
      rw [harr.policy]
      exact hcl.moving _ (List.mem_of_getElem? hm)
    | masked ha hq hft he hstay =>
      have hpol := hcl.seated c p _ hft
      rw [he]
      exact hpol
    | moved ha hq hft _ _ _ harr =>
      have hpol := hcl.seated _ p _ hft
      rw [harr.policy]
      exact hpol
  · rcases hs.moving_origin ho.1 h hm with hold | ⟨cpu, dest, rq, t, -, -, hft, rfl⟩
    · exact hcl.moving m hold
    · exact hcl.seated cpu t.pid t hft

theorem Ready.step (hs : Sound True s) (hcl : Classed s) (hr : Ready s) {a : Action} (ho : Tidy s a)
    (h : s.step a = some s') :
    Ready s' := by
  intro c rq' p t' hq' hf hstays hcurr
  -- where no section ran on this CPU, its current task is the one it was
  have hback : (∀ o, a ≠ .op c o) → ∀ t, s.find c p = some t → t.attr.stays = true → t.onRq = true := by
    intro hno t ht hst
    obtain ⟨rq, hq, -⟩ := bind_eq_some_iff.mp ht
    rw [(hs.curr_origin ho.1 h hq hq').2.1 hno] at hcurr
    exact hr c rq p t hq ht hst hcurr
  cases hs.origin ho.1 h hf with
  | kept ha hk => exact hback ha t' hk hstays
  | ran ha hq hft hattr hmark =>
    rename_i o rq t
    rw [(hs.curr_origin ho.1 h hq hq').2.2 o ha] at hcurr
    rw [hattr] at hstays
    rw [hmark]
    exact Op.ready (ho.2.2 c o rq ha hq) ((find_eq hq p).symm.trans hft) (hcl.seated c p t hft) (hr c rq p t hq hft)
      hstays hcurr
  | added ha hp harr | landed ha _ hp harr => exact harr.onRq
  | masked ha hq hft he hstay =>
    rename_i thisCpu mask load now rq t
    rw [he] at hstays ⊢
    exact hback (fun o hx => by rw [ha] at hx; cases hx) t hft hstays
  | moved ha hq hft _ hc _ harr => exact harr.onRq

/-- **Run-queue consistency.** In every state of a run whose steps are tidy, every run queue is consistent. -/
theorem runQueue_consistent {s : Scheduler} (h : Run.Reach Scheduler.step Tidy (fun s => s = Scheduler.init) s)
    {cpu : Nat} {rq : RunQueue} (hq : s.runQueues cpu = some rq) : rq.Consistent := by
  have hinv : Sound True s ∧ Classed s ∧ Ready s := by
    refine Steps.invariant (fun s => Sound True s ∧ Classed s ∧ Ready s) ?_ h ⟨sound_init True, ⟨nofun, nofun⟩, nofun⟩
    rintro s a s' ⟨hs, hcl, hr⟩ ho hstep
    exact ⟨hs.step ho.1 hstep, hcl.step hs ho hstep, hr.step hs hcl ho hstep⟩
  obtain ⟨hs, hcl, hr⟩ := hinv
  have hc := hs.queue cpu rq hq
  have hpol : ∀ i t, rq.slots i = some t → t.policy ≠ .idle := fun i t ht => hcl.seated cpu t.pid t (hs.found hq ht)
  refine ⟨fun i t ht => hc.onRq_iff (hc.lookup ht) (hpol i t ht), hc.total trivial, hc.rt.count, ?_,
    fun i t ht hrun hcurr => ?_⟩
  · rw [hc.fairCount trivial]
    exact (List.length_map _).symm
  · exact hr cpu rq t.pid t hq (hs.found hq ht) (stays_iff.mpr ⟨hrun, hpol i t ht⟩) hcurr

/-- A FIFO task with priority 50. -/
def fifoTask (pid : Pid) : Task := { Task.new pid with policy := .fifo, rtPriority := 50 }

instance (pts : PidToSlot) (rq : RunQueue) (o : Op) : Decidable (o.Keeps pts rq) :=
  match o with
  | .dequeueTask pid => inferInstanceAs (Decidable (∀ t, rq.slotGet pts pid = some t → _ → _))
  | .undoPickNext old next | .contextSwitch old next _ _ =>
    decidable_of_iff (∀ cur, rq.curr = some cur → ∀ t, rq.slotGet pts cur = some t → t.attr.stays = true →
      t.onRq = false → cur = old ∨ cur = next) ⟨fun h cur t hc => h cur hc t, fun h cur hc t => h cur t hc⟩
  | .clearTaskWaiting pid => inferInstanceAs (Decidable (∀ t, rq.slotGet pts pid = some t → _ → _))
  | .enqueueTask _ | .putPrevTask _ | .wake _ _ _ | .yieldCurrent | .blockCurrent _ | .schedulerTick _ _
  | .pickNextTask _ | .switchTo _ _ | .setScheduler _ _ _ | .setTaskNice _ _ | .setTaskPolicy _ _
  | .setTaskRtPriority _ _ | .setTaskAffinity _ _ | .setTaskExitStatus _ _ | .setTaskWaiting _ _ => .isTrue trivial

theorem keeps_op_iff {cpu : Nat} {o : Op} : (∀ rq, s.runQueues cpu = some rq → o.Keeps s.pidToSlot rq) ↔
    ∀ c o' rq, Action.op cpu o = .op c o' → s.runQueues c = some rq → o'.Keeps s.pidToSlot rq :=
  ⟨fun h _ _ rq he hq => by cases he; exact h rq hq, fun h rq => h cpu o rq rfl⟩

instance (s : Scheduler) (a : Action) :
    Decidable (∀ cpu o rq, a = .op cpu o → s.runQueues cpu = some rq → o.Keeps s.pidToSlot rq) :=
  match a with
  | .op _ _ => decidable_of_iff _ keeps_op_iff
  | .addTask _ _ _ | .initCpu _ _ | .removeTask _ _ | .steal _ _ | .evict _ _ _ _ | .land _ _
  | .setAffinity _ _ _ _ _ _ => .isTrue nofun

/-- A tidy run with both classes: a FIFO task runs, blocks and is woken, the fair task that ran meanwhile is back on
    its queue, and a second fair task has got the FIFO policy by `set_scheduler`. -/
theorem runQueue_consistent_classes : ∃ s rq, Run.Reach step Tidy (fun s => s = init) s ∧ s.runQueues 0 = some rq ∧
    rq.curr = some 5 ∧ rq.members .fair = [6] ∧ rq.members (.rt (priorityToIndex 60)) = [7] ∧ rq.nrRunning = 2 ∧
    rq.Consistent := by
  obtain ⟨s, hs, hq⟩ : ∃ s, Reach step Tidy (fun s => s = init) s ∧ (s.runQueues 0).any (fun rq => decide
      (rq.curr = some 5 ∧ rq.members .fair = [6] ∧ rq.members (.rt (priorityToIndex 60)) = [7] ∧ rq.nrRunning = 2)) =
        true :=
    reach_tested (fun s a => a.Classes ∧ ∀ cpu o rq, a = .op cpu o → s.runQueues cpu = some rq →
        o.Keeps s.pidToSlot rq) (fun _ _ ho hk => ⟨ho True, hk⟩)
      [.initCpu 0 0, .addTask (fifoTask 5) 0 0, .addTask (Task.new 6) 0 0, .addTask (Task.new 7) 0 0,
        .op 0 (.pickNextTask 0), .op 0 (.blockCurrent TASK_INTERRUPTIBLE), .op 0 (.pickNextTask 0),
        .op 0 (.wake 5 true true), .op 0 (.pickNextTask 0), .op 0 (.setScheduler 7 .fifo 60)]
      (by decide +kernel)
  obtain ⟨rq, hq, hcurr, hfair, hrt, hcount⟩ := exists_of_any hq
  exact ⟨s, rq, hs, hq, hcurr, hfair, hrt, hcount, runQueue_consistent hs hq⟩

/-- Nine FIFO tasks of one priority are added: a level holds eight. -/
def crowd : List Action := .initCpu 0 0 :: (List.range 9).map (fun i => .addTask (fifoTask (i + 1)) 0 0)

/-- A queued task of the normal policy is given the FIFO policy by `set_task_policy`. -/
def demoted : List Action := [.initCpu 0 0, .addTask (Task.new 5) 0 0, .op 0 (.setTaskPolicy 5 .fifo)]

/-- The run queue of CPU 0 after some calls, without any condition on them. -/
def queueAfter (as : List Action) : Option RunQueue :=
  (exec Scheduler.step (fun _ _ => True) Scheduler.init as).bind (fun s => s.runQueues 0)

/-- **Without the conditions the run queue is not consistent.** After nine FIFO tasks of one priority
    `nr_running` is 9 and the queues count 8; after `set_task_policy` the task is marked and not in the queue of
    its policy. -/
theorem runQueue_not_consistent :
    (∃ rq, queueAfter crowd = some rq ∧ rq.nrRunning = 9 ∧ rq.rtRq.nrRunning + rq.cfsRq.nrRunning = 8 ∧
      ¬rq.Consistent) ∧
    ∃ rq t, queueAfter demoted = some rq ∧ rq.slots 0 = some t ∧ t.onRq = true ∧ t.policy = .fifo ∧
      rq.rtRq.queues (priorityToIndex t.rtPriority) = [] ∧ ¬rq.Consistent := by
  refine ⟨?_, ?_⟩
  · obtain ⟨rq, hq, h9, h8⟩ : ∃ rq, queueAfter crowd = some rq ∧ rq.nrRunning = 9 ∧
        rq.rtRq.nrRunning + rq.cfsRq.nrRunning = 8 := exists_of_any (by decide +kernel)
    refine ⟨rq, hq, h9, h8, fun hc => ?_⟩
    have htotal := hc.total
    omega
  obtain ⟨rq, hq, hslot⟩ : ∃ rq, queueAfter demoted = some rq ∧ (rq.slots 0).any (fun t => decide (t.onRq = true ∧
      t.policy = .fifo ∧ rq.rtRq.queues (priorityToIndex t.rtPriority) = [])) = true :=
    exists_of_any (by decide +kernel)
  obtain ⟨t, ht, hon, hpol, hlevel⟩ := exists_of_any hslot
  refine ⟨rq, t, hq, ht, hon, hpol, hlevel, fun hc => ?_⟩
  obtain ⟨q, hhome, hcount⟩ := (hc.marked 0 t ht).mp hon
  rw [Task.home_realtime (by rw [hpol]; rfl)] at hhome
  cases hhome
  have hone : (rq.rtRq.queues (priorityToIndex t.rtPriority)).count t.pid = 1 := (hcount _).trans (if_pos rfl)
  rw [hlevel] at hone
  cases hone

end Scheduler

/-! ## A pick that is undone -/

namespace RunQueue

variable {pts : PidToSlot} {rq rq' : RunQueue} {old p : Pid} {ctx : TaskContext} {now later : Nat}

/-- Run queues with the same entries count the same tasks. -/
theorem Coherent.nrRunning_eq (hc : Coherent True pts rq) (hc' : Coherent True pts rq')
    (hcount : ∀ q p, (rq'.members q).count p = (rq.members q).count p) : rq'.nrRunning = rq.nrRunning := by
  have hlen : ∀ q, (rq'.members q).length = (rq.members q).length := fun q =>
    (List.perm_iff_count.mpr (hcount q)).length_eq
  have hrt : rq'.rtRq.nrRunning = rq.rtRq.nrRunning := by
    rw [hc'.rt.count, hc.rt.count]
    simp only [RtRunQueue.tasks, List.length_flatMap]
    exact congrArg (fun f => ((List.range RT_PRIO_LEVELS).map f).sum) (funext fun level => hlen (.rt level))
  have hfair : rq'.cfsRq.heap.length = rq.cfsRq.heap.length := by
    simpa [members, CfsRunQueue.tasks] using hlen .fair
  rw [hc'.total trivial, hc.total trivial, hrt, hc'.fairCount trivial, hc.fairCount trivial, hfair]

/-- What the undo is for: the old task runs and is on no queue, the task that was picked is in its queue again, and
    queues and count are those from before the pick. -/
structure Undone (pts : PidToSlot) (rq rq' : RunQueue) (old next : Pid) : Prop where
  curr : rq'.curr = some old
  off : ∀ q, old ∉ rq'.members q
  back : ∀ t, rq'.slotGet pts next = some t → t.policy ≠ .idle → rq'.InItsQueue t
  same : ∀ q p, (rq'.members q).count p = (rq.members q).count p
  count : rq'.nrRunning = rq.nrRunning

variable {next : Pid} {picked tried : RunQueue} (hpick : rq.pickNextTask pts now = (next, picked))
  (hfail : picked.contextSwitch pts old next ctx later = (false, tried)) (hundo : tried.undoPickNext pts old next = rq')
include hpick hfail hundo

/-- The undo gives the picked task its mark back, and leaves the others as the pick has left them. -/
theorem viewOf_undo (p : Pid) : rq'.viewOf pts p = (rq.viewOf pts p).map (fun v =>
      if p = next then (runningAttr v.1, true) else (v.1, if rq.curr = some p then v.1.stays else v.2)) := by
  have hpicked := @viewOf_pickNextTask pts rq p now
  have htried := @view_run pts picked p (.contextSwitch old next ctx later)
  simp only [hpick, Op.run, Op.after, Op.mark, hfail] at hpicked htried
  subst hundo
  refine (view_run (.undoPickNext old next)).trans ?_
  rw [htried, hpicked, Option.map_map, Option.map_map]
  refine map_congr (fun v _ => ?_)
  by_cases hp : p = next <;> simp [Op.after, Op.mark, hp]

/-- A task keeps its class. -/
theorem slotGet_undo {t : Task} (hg : rq.slotGet pts p = some t) :
    ∃ t', rq'.slotGet pts p = some t' ∧ t'.policy = t.policy ∧ t'.home = t.home ∧
      t'.onRq = if p = next then true else if rq.curr = some p then t.attr.stays else t.onRq := by
  have hview := viewOf_undo hpick hfail hundo p
  simp only [viewOf, hg, map_some] at hview
  obtain ⟨t', ht', hv⟩ := map_eq_some_iff.mp hview
  have hpol : t'.policy = t.policy := (congrArg (fun v => v.1.policy) hv).trans (by split <;> rfl)
  refine ⟨t', ht', hpol, home_congr hpol ((congrArg (fun v => v.1.rtPriority) hv).trans (by split <;> rfl)), ?_⟩
  exact (congrArg Prod.snd hv).trans (by split <;> rfl)

variable (hc : Coherent True pts rq) (hcurr : rq.curr = some old) (hfit : rq.Fits pts old)
include hc hcurr hfit

theorem coherent_undo (hroom : tried.Fits pts next) : Coherent True pts rq' := by
  have hpicked : Coherent True pts picked := by
    have h := hc.pickNextTask now (fun _ prev hprev => by cases hcurr.symm.trans hprev; exact hfit)
    rwa [hpick] at h
  have htried : Coherent True pts tried := by
    rcases contextSwitch_cases picked pts old next ctx later with h | h | h <;> cases hfail.symm.trans h
    · exact hpicked
    · exact hpicked.write old (fun _ => ⟨rfl, rfl, rfl, rfl⟩)
  exact hundo ▸ htried.run (.undoPickNext old next) (fun _ => hroom)

variable (hleaves : ∀ t, rq.slotGet pts old = some t → t.attr.stays = false)
  (hidle : ∀ t, rq.slotGet pts rq.idle = some t → t.policy = .idle)
include hleaves hidle

omit hfail hundo in
/-- When the old task leaves, the task that is picked was marked, unless it is the idle task. -/
theorem picked_marked {t : Task} (hg : rq.slotGet pts next = some t) : t.onRq = true ∨ t.home = none := by
  have hnext : ((rq.prepared pts now).popNextTask pts).1 = next := congrArg Prod.fst hpick
  rcases (hc.prepared now (fun _ prev hprev => by cases hcurr.symm.trans hprev; exact hfit)).popNextTask with
    ⟨hpop, -⟩ | ⟨pid, u, q, hpid, hu, hon, -⟩
  · have he : rq.idle = next := (sameCpu_prepared now).idle.symm.trans ((congrArg Prod.fst hpop).symm.trans hnext)
    exact .inr (Task.home_eq_none.mpr (hidle t (he ▸ hg)))
  · cases hnext.symm.trans hpid
    have hview := @viewOf_prepared pts rq next now
    simp only [viewOf, hu, hg, map_some, Option.some.injEq] at hview
    have hmark : u.onRq = if rq.curr = some next then t.attr.stays else t.onRq := congrArg Prod.snd hview
    refine .inl ?_
    split at hmark
    next hx =>
      cases hcurr.symm.trans hx
      rw [hon, hleaves t hg] at hmark
      cases hmark
    · rw [← hmark, hon]

/-- Then every task is due where it was before the pick. -/
theorem due_undo (hoff : ∀ q, rq.due pts old q = 0) (q : QueueId) (p : Pid) : rq'.due pts p q = rq.due pts p q := by
  cases hg : rq.slotGet pts p with
  | none =>
    have hview := viewOf_undo hpick hfail hundo p
    simp only [viewOf, hg, map_none, map_eq_none_iff] at hview
    rw [due_none hview, due_none hg]
  | some t =>
    obtain ⟨t', ht', -, hhome, hon⟩ := slotGet_undo hpick hfail hundo hg
    rw [due_some ht', due_some hg]
    unfold Task.due
    rw [hhome, hon]
    split
    next hp =>
      subst hp
      rcases picked_marked hpick hc hcurr hfit hleaves hidle hg with h | h <;> simp [h]
    split
    next hx =>
      cases hcurr.symm.trans hx
      rw [hleaves t hg, ← Task.due, ← due_some hg, hoff, if_neg (fun h => Bool.false_ne_true h.1)]
    · rfl

omit hleaves in
/-- **A failed switch is undone exactly when the old task leaves**: it can no longer run, or is the idle task. The old
    task is on no queue before the pick, and there is room on the real-time levels of both tasks. -/
theorem undone_iff (hoff : ∀ q, old ∉ rq.members q) (hroom : tried.Fits pts next) :
    Undone pts rq rq' old next ↔ ∀ t, rq.slotGet pts old = some t → t.attr.stays = false := by
  have hc' := coherent_undo hpick hfail hundo hc hcurr hfit hroom
  constructor
  · -- a task that stays has been put back on its queue
    intro hu t ht
    by_contra hstays
    rw [Bool.not_eq_false] at hstays
    obtain ⟨t', ht', hpol, -, hon⟩ := slotGet_undo hpick hfail hundo ht
    rw [hcurr, if_pos rfl, hstays, ite_self] at hon
    obtain ⟨q, -, hcount⟩ := (hc'.onRq_iff ht' (hpol ▸ (stays_iff.mp hstays).2)).mp hon
    refine hu.off q (List.count_pos_iff.mp ?_)
    rw [← slotGet_pid ht', hcount q, if_pos rfl]
    exact Nat.one_pos
  · intro hleaves
    have hnot : ∀ q, rq.due pts old q = 0 := fun q => by rw [← hc.count_eq, List.count_eq_zero.mpr (hoff q)]
    have hcount : ∀ q p, (rq'.members q).count p = (rq.members q).count p := by
      intro q p
      rw [hc'.count_eq, due_undo hpick hfail hundo hc hcurr hfit hleaves hidle hnot, hc.count_eq]
    refine ⟨hundo ▸ curr_run (.undoPickNext old next), fun q => ?_, fun t ht hpol => ?_, hcount,
      hc.nrRunning_eq hc' hcount⟩
    · rw [← List.count_eq_zero, hcount, List.count_eq_zero]
      exact hoff q
    · obtain ⟨v, -, hv⟩ := map_eq_some_iff.mp
        ((viewOf_undo hpick hfail hundo next).symm.trans (congrArg (Option.map Task.view) ht))
      rw [if_pos rfl] at hv
      exact (hc'.onRq_iff ht hpol).mp (congrArg Prod.snd hv).symm

end RunQueue

namespace Scheduler

/-- The pick, the attempt to switch and the undo: the task that is picked, whether the switch is made, and the queue. -/
def pickAndUndo (pts : PidToSlot) (rq : RunQueue) (old : Pid) : Pid × Bool × RunQueue :=
  let picked := rq.pickNextTask pts 1
  let tried := picked.2.contextSwitch pts old picked.1 TaskContext.default 1
  (picked.1, tried.1, tried.2.undoPickNext pts old picked.1)

/-- Task 1 runs on CPU 0 and has blocked, tasks 2 and 3 are queued. Task 2 is picked, the switch fails, and the undo
    puts it back. -/
theorem undone_iff_blocked : ∃ s rq, Run.Reach step (Action.Orderly True) (fun s => s = init) s ∧
    s.runQueues 0 = some rq ∧ rq.curr = some 1 ∧ (s.find 0 1).any (fun t => t.state = TASK_INTERRUPTIBLE) = true ∧
    rq.members .fair = [2, 3] ∧ (pickAndUndo s.pidToSlot rq 1).1 = 2 ∧ (pickAndUndo s.pidToSlot rq 1).2.1 = false ∧
    RunQueue.Undone s.pidToSlot rq (pickAndUndo s.pidToSlot rq 1).2.2 1 2 := by
  obtain ⟨s, hs, hq⟩ : ∃ s, Reach step (Action.Orderly True) (fun s => s = init) s ∧ (s.runQueues 0).any (fun rq =>
      decide ((rq.curr = some 1 ∧ (s.find 0 1).any (fun t => t.state = TASK_INTERRUPTIBLE) = true ∧
        rq.members .fair = [2, 3] ∧ (pickAndUndo s.pidToSlot rq 1).1 = 2 ∧ (pickAndUndo s.pidToSlot rq 1).2.1 = false) ∧
      rq.Fits s.pidToSlot 1 ∧ (∀ t, rq.slotGet s.pidToSlot rq.idle = some t → t.policy = .idle) ∧
      (∀ t, rq.slotGet s.pidToSlot 1 = some t → t.attr.stays = false ∧ t.onRq = false) ∧
      ((rq.pickNextTask s.pidToSlot 1).2.contextSwitch s.pidToSlot 1 2 TaskContext.default 1).2.Fits s.pidToSlot 2)) =
        true :=
    reach_tested (fun _ _ => True) (fun _ _ h _ => h True)
      [.initCpu 0 0, .addTask (Task.new 1) 0 0, .addTask (Task.new 2) 0 0, .addTask (Task.new 3) 0 0,
        .op 0 (.pickNextTask 0), .op 0 (.blockCurrent TASK_INTERRUPTIBLE)] (by decide +kernel)
  obtain ⟨rq, hq, ⟨hcurr, hblocked, hfair, hnext, hfail⟩, hfit, hidle, hold, hroom⟩ := exists_of_any hq
  refine ⟨s, rq, hs, hq, hcurr, hblocked, hfair, hnext, hfail, ?_⟩
  have hc : RunQueue.Coherent True s.pidToSlot rq :=
    (Steps.invariant (Sound True) (fun _ _ _ hs => hs.step) hs (sound_init True)).queue 0 rq hq
  have hpick : rq.pickNextTask s.pidToSlot 1 = (2, (rq.pickNextTask s.pidToSlot 1).2) := Prod.ext hnext rfl
  simp only [pickAndUndo, show (rq.pickNextTask s.pidToSlot 1).1 = 2 from hnext] at hfail ⊢
  refine (RunQueue.undone_iff hpick (Prod.ext hfail rfl) rfl hc hcurr hfit hidle (fun q hmem => ?_) hroom).mpr
    (fun t ht => (hold t ht).1)
  obtain ⟨t, ht, hon, -⟩ := hc.of_mem hmem
  rw [(hold t ht).2] at hon
  cases hon

/-- CPU 0 runs task 1 and has task 2 queued. -/
def twoTasks : List Action :=
  [.initCpu 0 0, .addTask (Task.new 1) 0 0, .addTask (Task.new 2) 0 0, .op 0 (.pickNextTask 0)]

/-- **The old task stays queued.** Task 1 can still run when task 2 is picked and the switch fails; after the undo
    task 1 is current and in the fair queue, and one more task is counted. -/
theorem undo_leaves_queued : ∃ s rq, exec Scheduler.step (fun _ _ => True) Scheduler.init twoTasks = some s ∧
    (s.find 0 1).any (fun t => t.attr.stays) = true ∧ s.runQueues 0 = some rq ∧ rq.curr = some 1 ∧
    rq.members .fair = [2] ∧ rq.nrRunning = 1 ∧ (pickAndUndo s.pidToSlot rq 1).1 = 2 ∧
    (pickAndUndo s.pidToSlot rq 1).2.1 = false ∧ 1 ∈ (pickAndUndo s.pidToSlot rq 1).2.2.members .fair ∧
    (pickAndUndo s.pidToSlot rq 1).2.2.nrRunning = 2 := exists_two_of_any (by decide +kernel)

end Scheduler
end OxideOs.Sched

import OxideOs.Sched.Effects

/-!
# `Sched.Marks` — what a lock section does to the marks and to the current task

The companion of `Sched.Effects`: `Op.mark` says which tasks are marked as queued after a section, by their
attributes and mark before it, and `Op.running` which task is then the current one. `view_run` and `curr_run`
say that it is so.
-/

namespace OxideOs.Sched

open Option

namespace Attr

/-- `put_prev_task` puts a task with these attributes back. -/
def returns (a : Attr) : Bool := a.policy != .idle && !a.state.isDead

/-- The schedule paths put a task with these attributes back. -/
def stays (a : Attr) : Bool := a.state.isRunnable && a.policy != .idle

/-- A runnable task is not dead. -/
theorem isDead_of_isRunnable {s : TaskState} (h : s.isRunnable = true) : s.isDead = false := by
  unfold TaskState.isDead
  rw [beq_iff_eq.mp h]
  rfl

theorem stays_returns {a : Attr} (h : a.stays = true) : a.returns = true := by
  obtain ⟨hr, hp⟩ := Bool.and_eq_true_iff.mp h
  unfold returns
  rw [hp, isDead_of_isRunnable hr]
  rfl

end Attr

/-- What a section sees of a task when it decides whether to queue it. -/
def Task.view (t : Task) : Attr × Bool := (t.attr, t.onRq)

namespace RunQueue

/-- The attributes and the mark of the task of a pid. -/
def viewOf (rq : RunQueue) (pts : PidToSlot) (pid : Pid) : Option (Attr × Bool) := (rq.slotGet pts pid).map Task.view

variable {pts : PidToSlot} {rq : RunQueue} {pid p : Pid} {f : Task → Task}

theorem viewOf_congr {rq' : RunQueue} (h : rq'.slots = rq.slots) : rq'.viewOf pts p = rq.viewOf pts p := by
  unfold viewOf
  rw [slotGet_congr h]

theorem viewOf_modify (hpid : ∀ t, (f t).pid = t.pid) (g : Attr × Bool → Attr × Bool)
    (hf : ∀ t, (f t).view = g t.view) :
    (rq.modify pts pid f).viewOf pts p = (rq.viewOf pts p).map (fun v => if p = pid then g v else v) := by
  unfold viewOf
  rw [slotGet_modify (fun t _ => hpid t)]
  by_cases hp : p = pid
  · subst hp
    simp only [if_true, map_map]
    exact map_congr (fun t _ => hf t)
  · simp only [if_neg hp, map_id']

/-- A write that leaves the attributes and the mark alone. -/
theorem viewOf_modify_quiet (hpid : ∀ t, (f t).pid = t.pid) (hf : ∀ t, (f t).view = t.view) :
    (rq.modify pts pid f).viewOf pts p = rq.viewOf pts p := by
  rw [viewOf_modify hpid id hf]
  simp

theorem viewOf_self : rq.viewOf pts p = (rq.viewOf pts p).map (fun v => v) := map_id'.symm

/-- Two maps agree on what is seen at `p` when they agree off `pid` and at the task of `pid`. -/
theorem map_viewOf {t : Task} (ht : rq.slotGet pts pid = some t) {g h : Attr × Bool → Attr × Bool}
    (hne : p ≠ pid → ∀ v, g v = h v) (heq : p = pid → g t.view = h t.view) :
    (rq.viewOf pts p).map g = (rq.viewOf pts p).map h := by
  by_cases hp : p = pid
  · have hv : rq.viewOf pts p = some t.view := by
      unfold viewOf
      rw [hp, ht]
      rfl
    rw [hv]
    exact congrArg some (heq hp)
  · exact map_congr (fun v _ => hne hp v)

/-- Where `pid` has no task, what happens to it is not seen. -/
theorem viewOf_absent (ht : rq.slotGet pts pid = none) {g : Attr × Bool → Attr × Bool}
    (hne : p ≠ pid → ∀ v, v = g v) : rq.viewOf pts p = (rq.viewOf pts p).map g := by
  by_cases hp : p = pid
  · unfold viewOf
    rw [hp, ht]
    rfl
  · exact viewOf_self.trans (map_congr (fun v _ => hne hp v))

/-! ## The pieces of the sections -/

theorem viewOf_enqueueTask : (rq.enqueueTask pts pid).viewOf pts p =
      (rq.viewOf pts p).map (fun v => (v.1, v.2 || decide (p = pid))) := by
  obtain ⟨v, hslots, -⟩ := enqueueTask_frame rq pts pid
  rw [viewOf_congr hslots, viewOf_modify ?_ (fun v => (v.1, true)) ?_]
  · by_cases hp : p = pid <;> simp [hp]
  all_goals exact fun _ => rfl

theorem viewOf_dequeueTask : (rq.dequeueTask pts pid).viewOf pts p =
      (rq.viewOf pts p).map (fun v => (v.1, v.2 && decide (p ≠ pid))) := by
  rw [viewOf_congr (dequeueTask_frame rq pts pid).1, viewOf_modify ?_ (fun v => (v.1, false)) ?_]
  · by_cases hp : p = pid <;> simp [hp]
  all_goals exact fun _ => rfl

theorem viewOf_putPrevTask : (rq.putPrevTask pts pid).viewOf pts p =
      (rq.viewOf pts p).map (fun v => (v.1, v.2 || (decide (p = pid) && v.1.returns))) := by
  have hret : ∀ t : Task, t.attr.returns = !decide (t.policy = .idle ∨ t.state.isDead = true) := by
    intro t
    show (t.policy != .idle && !t.state.isDead) = _
    cases t.policy <;> cases t.state.isDead <;> rfl
  unfold putPrevTask
  split
  next hnone =>
    refine viewOf_absent hnone (fun hp v => ?_)
    simp [hp]
  rename_i t hg
  split
  next hd =>
    refine viewOf_self.trans (map_viewOf hg (fun hp v => ?_) (fun _ => ?_))
    · simp [hp]
    · show (t.attr, t.onRq) = (t.attr, t.onRq || (decide (p = pid) && t.attr.returns))
      rw [hret, decide_eq_true hd, Bool.not_true, Bool.and_false, Bool.or_false]
  rename_i hd
  refine viewOf_enqueueTask.trans (map_viewOf hg (fun hp v => ?_) (fun _ => ?_))
  · simp [hp]
  · show (t.attr, t.onRq || decide (p = pid)) = (t.attr, t.onRq || (decide (p = pid) && t.attr.returns))
    rw [hret, decide_eq_false hd, Bool.not_false, Bool.and_true]

theorem viewOf_settlePrev : (rq.settlePrev pts pid).viewOf pts p =
      (rq.viewOf pts p).map (fun v => (v.1, if p = pid then v.1.stays else v.2)) := by
  unfold settlePrev
  split
  next hnone =>
    rw [dequeueTask_none hnone]
    refine viewOf_absent hnone (fun hp v => ?_)
    rw [if_neg hp]
  rename_i t hg
  have hstays : (t.state.isRunnable && !t.isIdle) = t.attr.stays := rfl
  rw [hstays]
  split
  next hs =>
    refine viewOf_putPrevTask.trans (map_viewOf hg (fun hp v => ?_) (fun hp => ?_))
    · simp [hp]
    · show (t.attr, t.onRq || (decide (p = pid) && t.attr.returns)) = (t.attr, if p = pid then t.attr.stays else t.onRq)
      rw [if_pos hp, decide_eq_true hp, hs, Attr.stays_returns hs, Bool.and_true, Bool.or_true]
  rename_i hs
  refine viewOf_dequeueTask.trans (map_viewOf hg (fun hp v => ?_) (fun hp => ?_))
  · simp [hp]
  · show (t.attr, t.onRq && decide (p ≠ pid)) = (t.attr, if p = pid then t.attr.stays else t.onRq)
    rw [if_pos hp, decide_eq_false (fun h => h hp), Bool.and_false, (Bool.not_eq_true _).mp hs]

theorem viewOf_requeue : (rq.requeue pts pid).viewOf pts p =
      (rq.viewOf pts p).map (fun v => (v.1, v.2 || (decide (p = pid) && v.1.stays))) := by
  unfold requeue
  split
  next hnone =>
    refine viewOf_absent hnone (fun hp v => ?_)
    simp [hp]
  rename_i t hg
  have hstays : (t.state.isRunnable && !t.isIdle) = t.attr.stays := rfl
  rw [hstays]
  split
  next hs =>
    refine viewOf_putPrevTask.trans (map_viewOf hg (fun hp v => ?_) (fun _ => ?_))
    · simp [hp]
    show (t.attr, t.onRq || (decide (p = pid) && t.attr.returns)) =
      (t.attr, t.onRq || (decide (p = pid) && t.attr.stays))
    rw [hs, Attr.stays_returns hs]
  next hs =>
    refine viewOf_self.trans (map_viewOf hg (fun hp v => ?_) (fun _ => ?_))
    · simp [hp]
    · show (t.attr, t.onRq) = (t.attr, t.onRq || (decide (p = pid) && t.attr.stays))
      rw [(Bool.not_eq_true _).mp hs, Bool.and_false, Bool.or_false]

theorem viewOf_enter (new : Pid) (now : Nat) : (rq.enter pts new now).viewOf pts p =
      (rq.viewOf pts p).map (fun v => if p = new then (runningAttr v.1, false) else v) := by
  refine (viewOf_congr rfl).trans ((viewOf_modify ?_ (fun v => (runningAttr v.1, false)) ?_).trans ?_)
  · exact fun _ => rfl
  · exact fun _ => rfl
  rw [viewOf_dequeueTask, map_map]
  refine map_congr (fun v _ => ?_)
  by_cases hp : p = new <;> simp [hp]

/-- Some task is queued, so `pop_next_task` does not fall back on the idle task. -/
def pops (rq : RunQueue) : Bool := rq.rtRq.popNext.1.isSome || rq.cfsRq.pickNext.isSome

theorem viewOf_popNextTask : (rq.popNextTask pts).2.viewOf pts p =
      (rq.viewOf pts p).map (fun v => (v.1, if p = (rq.popNextTask pts).1 ∧ rq.pops = true then false else v.2)) := by
  have hoff : ∀ (rq' : RunQueue) (pid' : Pid), rq'.slots = rq.slots →
      (rq'.modify pts pid' (fun t => { t with onRq := false })).viewOf pts p =
        (rq.viewOf pts p).map (fun v => (v.1, if p = pid' ∧ true = true then false else v.2)) := by
    intro rq' pid' h
    refine (viewOf_modify ?_ (fun v => (v.1, false)) ?_).trans ?_
    · exact fun _ => rfl
    · exact fun _ => rfl
    rw [viewOf_congr h]
    by_cases hp : p = pid' <;> simp [hp]
  have hidle : ∀ rq' : RunQueue, rq'.slots = rq.slots → ∀ pid', rq'.viewOf pts p =
      (rq.viewOf pts p).map (fun v => (v.1, if p = pid' ∧ false = true then false else v.2)) := by
    intro rq' h pid'
    rw [viewOf_congr h]
    simp
  unfold popNextTask pops
  cases hrt : rq.rtRq.popNext with
  | mk first rt =>
    cases first with
    | some pid' => exact (viewOf_congr rfl).trans (hoff { rq with rtRq := rt } pid' rfl)
    | none =>
      rcases CfsRunQueue.popNext_tasks rq.cfsRq
        (((rq.cfsRq.pickNext.bind (rq.slotGet pts)).map Task.weight).getD NICE_0_WEIGHT) with
        ⟨hnone, -⟩ | ⟨pid', cfs', hpick, hpop, -⟩
      · simp only [hnone]
        exact hidle _ rfl rq.idle
      rw [hpick] at hpop
      change rq.cfsRq.popNext (((rq.slotGet pts pid').map Task.weight).getD NICE_0_WEIGHT) = _ at hpop
      simp only [hpick, hpop]
      exact (viewOf_congr rfl).trans (hoff { rq with rtRq := rt, cfsRq := cfs' } pid' rfl)

theorem viewOf_prepared (now : Nat) : (rq.prepared pts now).viewOf pts p =
      (rq.viewOf pts p).map (fun v => (v.1, if rq.curr = some p then v.1.stays else v.2)) := by
  unfold prepared
  cases hcurr : rq.curr with
  | none =>
    refine (@viewOf_congr pts rq p _ rfl).trans ?_
    simp
  | some prev =>
    have hacc : (modify { rq with clock := now } pts prev (accountPrev now)).viewOf pts p = rq.viewOf pts p := by
      refine (viewOf_modify_quiet ?_ ?_).trans (viewOf_congr rfl) <;> exact fun _ => rfl
    refine viewOf_settlePrev.trans ?_
    rw [← hcurr, hacc, hcurr]
    simp [eq_comm]

theorem viewOf_pickNextTask (now : Nat) : (rq.pickNextTask pts now).2.viewOf pts p =
      (rq.viewOf pts p).map (fun v =>
        (if p = (rq.pickNextTask pts now).1 then runningAttr v.1 else v.1,
          if p = (rq.pickNextTask pts now).1 ∧ (rq.prepared pts now).pops = true then false
          else if rq.curr = some p then v.1.stays else v.2)) := by
  unfold pickNextTask
  refine (viewOf_congr rfl).trans ((viewOf_modify ?_ (fun v => (runningAttr v.1, v.2)) ?_).trans ?_)
  · exact fun _ => rfl
  · exact fun _ => rfl
  rw [viewOf_popNextTask, viewOf_prepared, map_map, map_map]
  refine map_congr (fun v _ => ?_)
  by_cases hp : p = ((rq.prepared pts now).popNextTask pts).1 <;> simp [hp]

theorem viewOf_schedulerTick (b : Bool) : (rq.schedulerTick pts b).2.viewOf pts p = rq.viewOf pts p := by
  have hcharge : ∀ cur, (rq.chargeCurr pts cur b).viewOf pts p = rq.viewOf pts p := by
    intro cur
    refine (viewOf_congr rfl).trans (viewOf_modify_quiet ?_ ?_) <;> exact fun _ => rfl
  unfold schedulerTick
  split
  · rfl
  split
  · rfl
  split
  · rfl
  · split
    · split
      · refine (viewOf_congr rfl).trans (viewOf_modify_quiet ?_ ?_) <;> exact fun _ => rfl
      refine viewOf_modify_quiet ?_ ?_ <;> exact fun _ => rfl
    · rfl
  · exact (viewOf_congr rfl).trans (hcharge _)
  · exact (viewOf_congr rfl).trans (hcharge _)
  · rfl

end RunQueue

/-- Which tasks are marked after a section. -/
def Op.mark (o : Op) (pts : PidToSlot) (rq : RunQueue) (p : Pid) (a : Attr) (b : Bool) : Bool :=
  match o with
  | .enqueueTask pid => b || decide (p = pid)
  | .dequeueTask pid => b && decide (p ≠ pid)
  | .putPrevTask pid => b || (decide (p = pid) && a.returns)
  | .wake pid _ _ => b || decide (p = pid)
  | .blockCurrent _ => b && decide (rq.curr ≠ some p)
  | .yieldCurrent => b || (decide (rq.curr = some p) && a.returns)
  | .pickNextTask now =>
    if p = (rq.pickNextTask pts now).1 ∧ (rq.prepared pts now).pops = true then false
    else if rq.curr = some p then a.stays else b
  | .undoPickNext _ next => b || decide (p = next)
  | .switchTo new _ => decide (p ≠ new) && (b || (decide (rq.curr = some p) && a.stays))
  | .contextSwitch old new ctx now =>
    if (rq.contextSwitch pts old new ctx now).1 = true then
      decide (p ≠ new) && (b || (decide (p = old) && a.stays))
    else b
  | .setTaskExitStatus pid _ => b && decide (p ≠ pid)
  | _ => b

/-- The current task after a section. -/
def Op.running (o : Op) (pts : PidToSlot) (rq : RunQueue) : Option Pid :=
  match o with
  | .pickNextTask now => some (rq.pickNextTask pts now).1
  | .undoPickNext old _ => some old
  | .switchTo new _ => some new
  | .contextSwitch old new ctx now => if (rq.contextSwitch pts old new ctx now).1 = true then some new else rq.curr
  | _ => rq.curr

namespace RunQueue

variable {pts : PidToSlot} {rq : RunQueue} {p : Pid}

/-- The section writes its attributes and leaves the mark alone. -/
theorem viewOf_modify_attr {pid : Pid} {f : Task → Task} (o : Op) (g : Attr → Attr)
    (hpid : ∀ t, (f t).pid = t.pid) (hf : ∀ t, (f t).view = (g t.attr, t.onRq))
    (hafter : ∀ a, o.after pts rq p a = if p = pid then g a else a) (hmark : ∀ a b, o.mark pts rq p a b = b) :
    (rq.modify pts pid f).viewOf pts p =
      (rq.viewOf pts p).map (fun v => (o.after pts rq p v.1, o.mark pts rq p v.1 v.2)) := by
  rw [viewOf_modify hpid (fun v => (g v.1, v.2)) hf]
  refine map_congr (fun v _ => ?_)
  rw [hafter, hmark]
  by_cases hp : p = pid
  · rw [if_pos hp, if_pos hp]
  · rw [if_neg hp, if_neg hp]

theorem viewOf_setScheduler {pid : Pid} (policy : SchedPolicy) (priority : Nat) :
    (rq.setScheduler pts pid policy priority).viewOf pts p =
      (rq.viewOf pts p).map (fun v => (Op.after (.setScheduler pid policy priority) pts rq p v.1, v.2)) := by
  have hview : ∀ t : Task, (reclassify policy priority t).view =
      ({ t.attr with
        policy, rtPriority := if policy.isRealtime then max 1 (min priority 99) else t.attr.rtPriority }, t.onRq) := by
    intro t
    unfold reclassify
    cases policy.isRealtime <;> rfl
  have hmod : ∀ rq' : RunQueue, (rq'.modify pts pid (reclassify policy priority)).viewOf pts p =
      (rq'.viewOf pts p).map (fun v => (Op.after (.setScheduler pid policy priority) pts rq p v.1, v.2)) := by
    intro rq'
    rw [viewOf_modify (reclassify_pid policy priority) (fun v => ({ v.1 with
      policy, rtPriority := if policy.isRealtime then max 1 _ else v.1.rtPriority }, v.2)) hview]
    unfold Op.after
    by_cases hp : p = pid
    · simp [if_pos hp]
    · simp only [if_neg hp]
  unfold setScheduler
  split
  next hnone =>
    refine viewOf_absent hnone (fun hp v => ?_)
    unfold Op.after
    simp only [if_neg hp]
  rename_i t hg
  split
  · -- off the queue, reclassified, and on again: the task is marked as before
    rename_i hon
    rw [viewOf_enqueueTask, hmod, viewOf_dequeueTask, map_map, map_map]
    refine map_viewOf hg (fun hp v => ?_) (fun hp => ?_)
    · simp [hp]
    · show (_, (t.onRq && decide (p ≠ pid)) || decide (p = pid)) = (_, t.onRq)
      rw [hon, decide_eq_true hp, Bool.or_true]
  · exact hmod rq

/-- The task that was running is put back, and the new one enters. -/
theorem view_switchTo (new : Pid) (now : Nat) : (rq.switchTo pts new now).viewOf pts p = (rq.viewOf pts p).map
      (fun v => (Op.after (.switchTo new now) pts rq p v.1, Op.mark (.switchTo new now) pts rq p v.1 v.2)) := by
  unfold switchTo
  split
  next hcurr =>
    refine (viewOf_enter new now).trans (map_congr (fun v _ => ?_))
    unfold Op.after Op.mark
    by_cases hp : p = new <;> simp [hp, hcurr]
  rename_i prev hcurr
  rw [viewOf_enter, viewOf_requeue, map_map]
  refine map_congr (fun v _ => ?_)
  unfold Op.after Op.mark
  by_cases hp : p = new
  · simp [hp]
  · simp [hp, hcurr, eq_comm]

theorem view_contextSwitch (old new : Pid) (ctx : TaskContext) (now : Nat) :
    (rq.contextSwitch pts old new ctx now).2.viewOf pts p =
      (rq.viewOf pts p).map (fun v => (Op.after (.contextSwitch old new ctx now) pts rq p v.1,
        Op.mark (.contextSwitch old new ctx now) pts rq p v.1 v.2)) := by
  have hsaved : (rq.modify pts old (fun t => { t with context := ctx })).viewOf pts p = rq.viewOf pts p := by
    refine viewOf_modify_quiet ?_ ?_ <;> exact fun _ => rfl
  rcases contextSwitch_cases rq pts old new ctx now with h | h | h
  · refine trans ?_ (viewOf_self.trans (map_congr (fun v _ => ?_)))
    · rw [h]
    · unfold Op.after Op.mark
      simp [h]
  · refine trans ?_ (viewOf_self.trans (map_congr (fun v _ => ?_)))
    · rw [h]
      exact hsaved
    · unfold Op.after Op.mark
      simp [h]
  have hview : (rq.contextSwitch pts old new ctx now).2.viewOf pts p = (rq.viewOf pts p).map (fun v =>
      if p = new then (runningAttr v.1, false) else (v.1, v.2 || (decide (p = old) && v.1.stays))) := by
    rw [h]
    refine (viewOf_enter new now).trans ?_
    rw [viewOf_requeue, hsaved, map_map]
    refine map_congr (fun v _ => ?_)
    by_cases hp : p = new <;> simp
  refine hview.trans (map_congr (fun v _ => ?_))
  unfold Op.after Op.mark
  by_cases hp : p = new <;> simp [hp, h]

/-- **What a section does to attributes and marks.** -/
theorem view_run (o : Op) : (o.run pts rq).viewOf pts p =
      (rq.viewOf pts p).map (fun v => (o.after pts rq p v.1, o.mark pts rq p v.1 v.2)) := by
  have hid := @viewOf_self pts rq p
  cases o with
  | enqueueTask pid => exact viewOf_enqueueTask
  | dequeueTask pid => exact viewOf_dequeueTask
  | putPrevTask pid => exact viewOf_putPrevTask
  | wake pid always refresh =>
    show ((rq.wake pts pid always refresh).getD rq).viewOf pts p = _
    unfold wake
    split
    next hnone =>
      refine viewOf_absent hnone (fun hp v => ?_)
      unfold Op.after Op.mark
      simp [hp]
    refine (viewOf_congr rfl).trans (viewOf_enqueueTask.trans ?_)
    rw [viewOf_modify ?_ (fun v => (runningAttr v.1, v.2)) ?_, map_map]
    · refine map_congr (fun v _ => ?_)
      unfold Op.after Op.mark
      by_cases hp : p = pid <;> simp [hp]
    all_goals exact fun _ => rfl
  | blockCurrent state =>
    show (rq.blockCurrent pts state).viewOf pts p = _
    unfold blockCurrent
    split
    next hcurr =>
      unfold Op.after Op.mark
      simp [hcurr]
    rename_i cur hcurr
    refine (viewOf_congr rfl).trans (viewOf_dequeueTask.trans ?_)
    rw [viewOf_modify ?_ (fun v => ({ v.1 with state }, v.2)) ?_, map_map]
    · refine map_congr (fun v _ => ?_)
      unfold Op.after Op.mark
      by_cases hp : p = cur
      · simp [hcurr, hp]
      · simp [hcurr, hp, Ne.symm hp]
    all_goals exact fun _ => rfl
  | yieldCurrent =>
    show (rq.yieldCurrent pts).viewOf pts p = _
    unfold yieldCurrent
    split
    next hcurr =>
      refine hid.trans (map_congr (fun v _ => ?_))
      unfold Op.after Op.mark
      simp [hcurr]
    rename_i cur hcurr
    refine (viewOf_congr rfl).trans (viewOf_putPrevTask.trans ?_)
    unfold Op.after Op.mark
    simp [hcurr, eq_comm]
  | schedulerTick b now => exact (viewOf_schedulerTick b).trans ((viewOf_congr rfl).trans hid)
  | pickNextTask now => exact viewOf_pickNextTask now
  | undoPickNext old next =>
    refine (viewOf_congr rfl).trans (viewOf_enqueueTask.trans ?_)
    rfl
  | switchTo new now => exact view_switchTo new now
  | contextSwitch old new ctx now => exact view_contextSwitch old new ctx now
  | setScheduler pid policy priority => exact viewOf_setScheduler policy priority
  | setTaskPolicy pid policy =>
    exact viewOf_modify_attr _ (fun a => { a with policy }) (fun _ => rfl)
      (fun _ => rfl) (fun _ => rfl) (fun _ _ => rfl)
  | setTaskRtPriority pid priority =>
    exact viewOf_modify_attr (.setTaskRtPriority pid priority) (fun a => { a with rtPriority := priority })
      (fun _ => rfl) (fun _ => rfl) (fun _ => rfl) (fun _ _ => rfl)
  | setTaskNice pid nice => refine (viewOf_modify_quiet ?_ ?_).trans hid <;> exact fun _ => rfl
  | setTaskAffinity pid mask =>
    exact viewOf_modify_attr _ (fun a => { a with cpuAffinity := mask })
      (fun _ => rfl) (fun _ => rfl) (fun _ => rfl) (fun _ _ => rfl)
  | setTaskExitStatus pid status =>
    refine viewOf_dequeueTask.trans ?_
    rw [viewOf_modify ?_ (fun v => ({ v.1 with state := TASK_ZOMBIE }, v.2)) ?_, map_map]
    · refine map_congr (fun v _ => ?_)
      unfold Op.after Op.mark
      by_cases hp : p = pid <;> simp [hp]
    all_goals exact fun _ => rfl
  | setTaskWaiting pid child =>
    refine viewOf_modify_attr _ (fun a => { a with state := if child ≠ 0 then TASK_INTERRUPTIBLE else a.state })
      (fun _ => rfl) (fun _ => rfl) (fun a => ?_) (fun _ _ => rfl)
    unfold Op.after
    by_cases hp : p = pid
    · by_cases hc : child = 0 <;> simp [hc]
    · simp [hp]
  | clearTaskWaiting pid =>
    exact viewOf_modify_attr _ runningAttr (fun _ => rfl) (fun _ => rfl) (fun _ => rfl) (fun _ _ => rfl)

/-! ## The current task -/

variable {pid : Pid}

@[simp] theorem modify_curr {f : Task → Task} : (rq.modify pts pid f).curr = rq.curr := by
  unfold modify
  split <;> rfl

@[simp] theorem enqueueTask_curr : (rq.enqueueTask pts pid).curr = rq.curr := by
  unfold enqueueTask
  split
  · rfl
  split
  · rfl
  rw [modify_curr]
  split
  · rfl
  split
  · exact modify_curr
  · rfl

@[simp] theorem dequeueTask_curr : (rq.dequeueTask pts pid).curr = rq.curr := by
  unfold dequeueTask
  split
  · rfl
  split
  · rw [modify_curr]
    split
    · rfl
    · split <;> rfl
  · rfl

@[simp] theorem putPrevTask_curr : (rq.putPrevTask pts pid).curr = rq.curr := by
  unfold putPrevTask
  split
  · rfl
  split
  · rfl
  · exact enqueueTask_curr

theorem schedulerTick_curr (b : Bool) : (rq.schedulerTick pts b).2.curr = rq.curr := by
  unfold schedulerTick
  split
  · rfl
  split
  · rfl
  split
  · rfl
  · split
    · split <;> exact modify_curr
    · rfl
  · exact modify_curr
  · exact modify_curr
  · rfl

/-- **Which task is current after a section.** -/
theorem curr_run (o : Op) : (o.run pts rq).curr = o.running pts rq := by
  cases o with
  | enqueueTask pid | undoPickNext old next => exact enqueueTask_curr
  | dequeueTask pid => exact dequeueTask_curr
  | putPrevTask pid => exact putPrevTask_curr
  | wake pid always refresh =>
    show ((rq.wake pts pid always refresh).getD rq).curr = rq.curr
    unfold wake
    split
    · rfl
    · exact enqueueTask_curr.trans modify_curr
  | blockCurrent state =>
    show (rq.blockCurrent pts state).curr = rq.curr
    unfold blockCurrent
    split
    · rfl
    · exact dequeueTask_curr.trans modify_curr
  | yieldCurrent =>
    show (rq.yieldCurrent pts).curr = rq.curr
    unfold yieldCurrent
    split
    · rfl
    · exact putPrevTask_curr
  | schedulerTick b now => exact schedulerTick_curr b
  | pickNextTask now => rfl
  | switchTo new now =>
    show (rq.switchTo pts new now).curr = some new
    unfold switchTo
    split <;> rfl
  | contextSwitch old new ctx now =>
    show (rq.contextSwitch pts old new ctx now).2.curr = Op.running (.contextSwitch old new ctx now) pts rq
    unfold Op.running
    rcases contextSwitch_cases rq pts old new ctx now with h | h | h
    · simp [h]
    · simp [h]
    · simp only [h]
      rfl
  | setScheduler pid policy priority =>
    show (rq.setScheduler pts pid policy priority).curr = rq.curr
    unfold setScheduler
    split
    · rfl
    split
    · rw [enqueueTask_curr, modify_curr, dequeueTask_curr]
    · exact modify_curr
  | setTaskExitStatus pid status => exact dequeueTask_curr.trans modify_curr
  | _ => exact modify_curr

end RunQueue
end OxideOs.Sched

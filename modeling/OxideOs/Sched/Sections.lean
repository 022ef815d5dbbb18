import OxideOs.Sched.Effects

/-!
# `Sched.Sections` — the lock sections keep marks and queues in step

`Op.Orderly` is what a section needs of the queue it runs on so that marks and queues still agree afterwards.
Two things can go wrong: a real-time level is full when a task is put on it (this matters under `strict` only),
and the policy or priority of a queued task is changed in place, to one that names another queue.
-/

namespace OxideOs.Sched
namespace RunQueue

open Function

variable {strict : Prop} {pts : PidToSlot} {rq : RunQueue} {pid : Pid} {t : Task}

/-- There is room for the task of a pid, should it be put on its queue. -/
def Fits (rq : RunQueue) (pts : PidToSlot) (pid : Pid) : Prop :=
  ∀ t, rq.slotGet pts pid = some t → t.onRq = false → rq.HasRoom t

/-- There is room for a task on a real-time level, its own place there not counted. -/
def RoomBeside (rq : RunQueue) (t : Task) : Prop :=
  t.policy.isRealtime = true →
    ((rq.rtRq.queues (priorityToIndex t.rtPriority)).filter (fun p => p != t.pid)).length < MAX_RT_PER_PRIO

theorem home_congr {u : Task} (hp : u.policy = t.policy) (hr : u.rtPriority = t.rtPriority) : u.home = t.home := by
  unfold Task.home
  rw [hp, hr]

/-- A write that leaves the mark, the policy and the priority alone. -/
theorem Coherent.write (hc : Coherent strict pts rq) (pid : Pid) {f : Task → Task}
    (hf : ∀ t, (f t).pid = t.pid ∧ (f t).onRq = t.onRq ∧ (f t).policy = t.policy ∧
      (f t).rtPriority = t.rtPriority) : Coherent strict pts (rq.modify pts pid f) :=
  hc.modify pid (fun t _ => (hf t).1) (fun t _ => (hf t).2.1) (fun t _ _ => home_congr (hf t).2.2.1 (hf t).2.2.2)

theorem modify_rtRq {f : Task → Task} : (rq.modify pts pid f).rtRq = rq.rtRq := by
  unfold modify
  split <;> rfl

theorem Fits.write {f : Task → Task} (h : rq.Fits pts pid) (p : Pid)
    (hf : ∀ t, (f t).pid = t.pid ∧ (f t).onRq = t.onRq ∧ (f t).policy = t.policy ∧
      (f t).rtPriority = t.rtPriority) : (rq.modify pts p f).Fits pts pid := by
  intro u hu hoff
  have hroom : ∀ v, rq.slotGet pts pid = some v → v.onRq = false → u.policy = v.policy →
      u.rtPriority = v.rtPriority → (rq.modify pts p f).HasRoom u := by
    intro v hv hvoff hpol hprio hrt
    rw [modify_rtRq, hprio]
    exact h v hv hvoff (by rw [← hpol]; exact hrt)
  rw [slotGet_modify (fun t _ => (hf t).1)] at hu
  split at hu
  next hp =>
    obtain ⟨v, hv, rfl⟩ := Option.map_eq_some_iff.mp hu
    rw [← hp] at hv
    exact hroom v hv (by rw [← (hf v).2.1]; exact hoff) (hf v).2.2.1 (hf v).2.2.2
  · exact hroom u hu hoff rfl rfl

/-- The pop and the marks of the task that runs next. -/
theorem Coherent.popped {now : Nat} (hp : Coherent strict pts (rq.prepared pts now)) :
    Coherent strict pts (rq.pickNextTask pts now).2 := by
  have hpop : Coherent strict pts ((rq.prepared pts now).popNextTask pts).2 := by
    rcases hp.popNextTask with ⟨h, -⟩ | ⟨pid, t, q, -, -, -, -, -, h, -⟩
    · rw [h]
      exact hp
    · exact h
  have hm : Coherent strict pts (((rq.prepared pts now).popNextTask pts).2.modify pts
      ((rq.prepared pts now).popNextTask pts).1 (markRunning rq.cpu now)) :=
    hpop.write _ (fun t => ⟨rfl, rfl, rfl, rfl⟩)
  exact hm.congr rfl rfl rfl rfl rfl rfl

section

variable (hc : Coherent strict pts rq)
include hc

section

variable (hfit : strict → rq.Fits pts pid)
include hfit

theorem Coherent.putPrevTask : Coherent strict pts (rq.putPrevTask pts pid) := by
  unfold RunQueue.putPrevTask
  split
  · exact hc
  split
  · exact hc
  · exact hc.enqueueTask pid hfit

theorem Coherent.settlePrev : Coherent strict pts (rq.settlePrev pts pid) := by
  unfold RunQueue.settlePrev
  split
  · exact hc.dequeueTask pid
  split
  · exact hc.putPrevTask hfit
  · exact hc.dequeueTask pid

theorem Coherent.requeue : Coherent strict pts (rq.requeue pts pid) := by
  unfold RunQueue.requeue
  split
  · exact hc
  split
  · exact hc.putPrevTask hfit
  · exact hc

end

theorem Coherent.enter (new : Pid) (now : Nat) : Coherent strict pts (rq.enter pts new now) := by
  have hm : Coherent strict pts ((rq.dequeueTask pts new).modify pts new
      (fun t => { markRunning rq.cpu now t with onRq := false })) := by
    refine (hc.dequeueTask new).modify new (fun _ _ => rfl) (fun t ht => ?_) (fun _ _ _ => rfl)
    -- the mark was taken away before
    rw [slotGet_dequeueTask, if_pos rfl] at ht
    obtain ⟨u, -, rfl⟩ := Option.map_eq_some_iff.mp ht
    rfl
  exact hm.congr rfl rfl rfl rfl rfl rfl

section

variable (now : Nat) (hfit : strict → ∀ prev, rq.curr = some prev → rq.Fits pts prev)
include now hfit

/-- Before the pop nothing is out of step. -/
theorem Coherent.prepared : Coherent strict pts (rq.prepared pts now) := by
  unfold RunQueue.prepared
  have hclock : Coherent strict pts { rq with clock := now } := hc.congr rfl rfl rfl rfl rfl rfl
  split
  · exact hclock
  rename_i prev hcurr
  have hacc : ∀ t, (accountPrev now t).pid = t.pid ∧ (accountPrev now t).onRq = t.onRq ∧
      (accountPrev now t).policy = t.policy ∧ (accountPrev now t).rtPriority = t.rtPriority :=
    fun t => ⟨rfl, rfl, rfl, rfl⟩
  refine (hclock.write prev hacc).settlePrev (fun hs => ?_)
  have hf : Fits { rq with clock := now } pts prev := hfit hs prev hcurr
  exact hf.write prev hacc

theorem Coherent.pickNextTask : Coherent strict pts (rq.pickNextTask pts now).2 := (hc.prepared now hfit).popped

end

/-- What is left on a level once a task has been taken off its queue. -/
theorem Coherent.dequeueTask_queues (hg : rq.slotGet pts pid = some t) (level : Nat) :
    (rq.dequeueTask pts pid).rtRq.queues level = (rq.rtRq.queues level).filter (fun p => p != pid) := by
  have hnd : (rq.rtRq.queues level).Nodup := List.nodup_iff_count_le_one.mpr (hc.count_le_one (.rt level))
  have hsame : pid ∉ rq.rtRq.queues level →
      rq.rtRq.queues level = (rq.rtRq.queues level).filter (fun p => p != pid) := by
    intro h
    refine (List.filter_eq_self.mpr (fun p hp => ?_)).symm
    exact bne_iff_ne.mpr (fun he => h (he ▸ hp))
  cases hon : t.onRq with
  | false =>
    rw [dequeueTask_unmarked hg hon]
    exact hsame (hc.not_mem (q := .rt level) hg hon)
  | true =>
    have hother : t.home ≠ some (.rt level) → pid ∉ rq.rtRq.queues level := fun h =>
      List.count_eq_zero.mp (hc.count_elsewhere hg h)
    rcases policy_cases t.policy with hrt | hfair | hidle
    · rw [dequeueTask_realtime hg hon hrt]
      unfold RtRunQueue.dequeue
      by_cases hmem : pid ∈ rq.rtRq.queues (priorityToIndex t.rtPriority)
      · rw [if_pos hmem]
        show update rq.rtRq.queues _ _ level = _
        by_cases hl : level = priorityToIndex t.rtPriority
        · subst hl
          rw [update_self, hnd.erase_eq_filter]
        rw [update_of_ne hl]
        refine hsame (hother ?_)
        rw [Task.home_realtime hrt]
        exact fun hx => hl (QueueId.rt.inj (Option.some.inj hx)).symm
      · rw [if_neg hmem]
        by_cases hl : level = priorityToIndex t.rtPriority
        · subst hl
          exact hsame hmem
        refine hsame (hother ?_)
        rw [Task.home_realtime hrt]
        exact fun hx => hl (QueueId.rt.inj (Option.some.inj hx)).symm
    · rw [dequeueTask_fair hg hon hfair]
      exact hsame (hother (by rw [Task.home_fair hfair]; simp))
    · rw [dequeueTask_idle hg hon hidle]
      exact hsame (hother (by rw [Task.home_eq_none.mpr hidle]; simp))

theorem Coherent.setScheduler (policy : SchedPolicy) (priority : Nat)
    (hroom : strict → ∀ t, rq.slotGet pts pid = some t → t.onRq = true →
      rq.RoomBeside (reclassify policy priority t)) :
    Coherent strict pts (rq.setScheduler pts pid policy priority) := by
  unfold RunQueue.setScheduler
  split
  · exact hc
  rename_i t hg
  split
  next hon =>
    have hd := hc.dequeueTask pid
    have hgd : (rq.dequeueTask pts pid).slotGet pts pid = some { t with onRq := false } := by
      rw [slotGet_dequeueTask, if_pos rfl, hg]
      rfl
    have hm : Coherent strict pts ((rq.dequeueTask pts pid).modify pts pid (reclassify policy priority)) := by
      refine hd.modify pid (fun t _ => reclassify_pid policy priority t)
        (fun t _ => reclassify_onRq policy priority t) (fun u hu hon' => ?_)
      rw [hgd] at hu
      cases hu
      cases hon'
    refine hm.enqueueTask pid (fun hs u hu _ => ?_)
    rw [slotGet_modify (fun t _ => reclassify_pid policy priority t), if_pos rfl, hgd] at hu
    cases hu
    -- the class of the task does not depend on the mark
    have hpol : ∀ b : Bool, (reclassify policy priority { t with onRq := b }).policy =
        (reclassify policy priority t).policy ∧ (reclassify policy priority { t with onRq := b }).rtPriority =
        (reclassify policy priority t).rtPriority := by
      intro b
      unfold reclassify
      split <;> exact ⟨rfl, rfl⟩
    intro hrt
    rw [(hpol false).1] at hrt
    have hlen := hroom hs t hg hon hrt
    rw [reclassify_pid, slotGet_pid hg] at hlen
    rw [modify_rtRq, (hpol false).2, hc.dequeueTask_queues hg]
    exact hlen
  next hoff =>
    refine hc.modify pid (fun t _ => reclassify_pid policy priority t)
      (fun t _ => reclassify_onRq policy priority t) (fun u hu hon => ?_)
    rw [hg] at hu
    cases hu
    exact absurd hon hoff

end

end RunQueue

/-- What a section needs of the queue it runs on. -/
def Op.Orderly (strict : Prop) (pts : PidToSlot) (rq : RunQueue) : Op → Prop
  | .enqueueTask pid => strict → rq.Fits pts pid
  | .putPrevTask pid => strict → rq.Fits pts pid
  | .wake pid _ _ => strict → rq.Fits pts pid
  | .yieldCurrent => strict → ∀ prev, rq.curr = some prev → rq.Fits pts prev
  | .pickNextTask _ => strict → ∀ prev, rq.curr = some prev → rq.Fits pts prev
  | .switchTo _ _ => strict → ∀ prev, rq.curr = some prev → rq.Fits pts prev
  | .undoPickNext _ next => strict → rq.Fits pts next
  | .contextSwitch old _ _ _ => strict → rq.Fits pts old
  | .setScheduler pid policy priority =>
    strict → ∀ t, rq.slotGet pts pid = some t → t.onRq = true →
      rq.RoomBeside (RunQueue.reclassify policy priority t)
  | .setTaskPolicy pid policy => ∀ t, rq.slotGet pts pid = some t → t.onRq = true → Task.home { t with policy } = t.home
  | .setTaskRtPriority pid priority =>
    ∀ t, rq.slotGet pts pid = some t → t.onRq = true → Task.home { t with rtPriority := priority } = t.home
  | _ => True

namespace RunQueue

variable {strict : Prop} {pts : PidToSlot} {rq : RunQueue}

section

variable (hc : Coherent strict pts rq)
include hc

theorem Coherent.schedulerTick (b : Bool) : Coherent strict pts (rq.schedulerTick pts b).2 := by
  have hcharge : ∀ cur, Coherent strict pts (rq.chargeCurr pts cur b) := by
    intro cur
    have hw : Coherent strict pts (rq.modify pts cur (chargeTick rq.clock b)) :=
      hc.write cur (fun t => ⟨rfl, rfl, rfl, rfl⟩)
    exact hw.congr rfl rfl rfl rfl rfl rfl
  unfold RunQueue.schedulerTick
  split
  · exact hc
  rename_i cur _
  split
  · exact hc
  split
  · exact hc
  · split
    · split
      · exact (hc.write cur (f := fun t =>
          { t with timeSlice := SchedPolicy.roundRobin.defaultTimeSlice }) (fun t => ⟨rfl, rfl, rfl, rfl⟩)).congr
          rfl rfl rfl rfl rfl rfl
      · exact hc.write cur (fun t => ⟨rfl, rfl, rfl, rfl⟩)
    · exact hc
  iterate 2
    · exact (hcharge cur).congr rfl rfl rfl rfl rfl rfl
  · exact hc

theorem Coherent.wake {pid : Pid} (always refresh : Bool)
    (hfit : strict → rq.Fits pts pid) : Coherent strict pts ((rq.wake pts pid always refresh).getD rq) := by
  unfold RunQueue.wake
  split
  · exact hc
  have hf : ∀ t : Task, ({ t with
      vruntime := if refresh && t.policy.isFair then rq.cfsRq.minVruntime else t.vruntime,
      state := TASK_RUNNING } : Task).pid = t.pid ∧ t.onRq = t.onRq ∧ t.policy = t.policy ∧
      t.rtPriority = t.rtPriority := fun t => ⟨rfl, rfl, rfl, rfl⟩
  exact ((hc.write pid hf).enqueueTask pid (fun hs => (hfit hs).write pid hf)).congr rfl rfl rfl rfl rfl rfl

/-- **The lock sections keep marks and queues in step.** -/
theorem Coherent.run (o : Op) (h : o.Orderly strict pts rq) : Coherent strict pts (o.run pts rq) := by
  cases o with
  | enqueueTask pid => exact hc.enqueueTask pid h
  | dequeueTask pid => exact hc.dequeueTask pid
  | putPrevTask pid => exact hc.putPrevTask h
  | wake pid always refresh => exact hc.wake always refresh h
  | blockCurrent state =>
    show Coherent strict pts (rq.blockCurrent pts state)
    unfold blockCurrent
    split
    · exact hc
    rename_i cur hcur
    have hw : Coherent strict pts (rq.modify pts cur (fun t => { t with state })) :=
      hc.write cur (fun t => ⟨rfl, rfl, rfl, rfl⟩)
    exact (hw.dequeueTask cur).congr rfl rfl rfl rfl rfl rfl
  | yieldCurrent =>
    show Coherent strict pts (rq.yieldCurrent pts)
    unfold yieldCurrent
    split
    · exact hc
    next cur hcur =>
      exact (hc.putPrevTask (fun hs => h hs cur hcur)).congr rfl rfl rfl rfl rfl rfl
  | schedulerTick b now =>
    exact (hc.congr rfl rfl rfl rfl rfl rfl : Coherent strict pts { rq with clock := now }).schedulerTick b
  | pickNextTask now => exact hc.pickNextTask now h
  | undoPickNext old next =>
    have hcur : Coherent strict pts { rq with curr := some old } := hc.congr rfl rfl rfl rfl rfl rfl
    exact (hcur.enqueueTask next h).congr rfl rfl rfl rfl rfl rfl
  | switchTo new now =>
    show Coherent strict pts (rq.switchTo pts new now)
    unfold switchTo
    split
    · exact hc.enter new now
    next prev hcur =>
      exact (hc.requeue (fun hs => h hs prev hcur)).enter new now
  | contextSwitch old new ctx now =>
    show Coherent strict pts (rq.contextSwitch pts old new ctx now).2
    have hf : ∀ t : Task, ({ t with context := ctx } : Task).pid = t.pid ∧ t.onRq = t.onRq ∧
        t.policy = t.policy ∧ t.rtPriority = t.rtPriority := fun t => ⟨rfl, rfl, rfl, rfl⟩
    have hsaved : Coherent strict pts (rq.modify pts old (fun t => { t with context := ctx })) := hc.write old hf
    rcases contextSwitch_cases rq pts old new ctx now with hcs | hcs | hcs
    · rw [hcs]
      exact hc
    · rw [hcs]
      exact hsaved
    · rw [hcs]
      exact (hsaved.requeue (fun hs => (h hs).write old hf)).enter new now
  | setScheduler pid policy priority => exact hc.setScheduler policy priority h
  | setTaskPolicy pid policy
  | setTaskRtPriority pid priority => exact hc.modify pid (fun _ _ => rfl) (fun _ _ => rfl) h
  | setTaskNice pid nice | setTaskAffinity pid mask | setTaskWaiting pid child
  | clearTaskWaiting pid => exact hc.write pid (fun t => ⟨rfl, rfl, rfl, rfl⟩)
  | setTaskExitStatus pid status =>
    have hw : Coherent strict pts (rq.modify pts pid (fun t => t.exit status)) :=
      hc.write pid (fun t => ⟨rfl, rfl, rfl, rfl⟩)
    exact hw.dequeueTask pid

end

end RunQueue
end OxideOs.Sched

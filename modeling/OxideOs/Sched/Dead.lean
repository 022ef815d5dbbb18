import OxideOs.Sched.Origins

/-!
# `Sched.Dead` — a dead task never runs again

Nothing in `wake_up`, `try_wake_up` and `clear_task_waiting` looks at the state of the task: a late wakeup makes
a zombie runnable and queues it, where `put_prev_task` and `steal_task` leave dead tasks alone. `Spares` says
that a step does not do this to a dead task, nor move it to another CPU, which queues it there. Along steps that
spare the dead, a dead task stays dead and off every queue, and no CPU is handed it, until its slot is removed.
-/

namespace OxideOs.Sched

open Option Attr Bool RunQueue Run

/-- The task of a pid, if there is one, is alive. -/
def RunQueue.Alive (rq : RunQueue) (pts : PidToSlot) (pid : Pid) : Prop :=
  ∀ t, rq.slotGet pts pid = some t → t.state.isDead = false

/-- A section does not make a dead task anything else, nor the idle task dead. -/
def Op.Spares (pts : PidToSlot) (rq : RunQueue) : Op → Prop
  | .enqueueTask pid => rq.Alive pts pid
  | .wake pid _ _ => rq.Alive pts pid
  | .undoPickNext _ next => rq.Alive pts next
  | .switchTo new _ => rq.Alive pts new
  | .contextSwitch _ new _ _ => rq.Alive pts new
  | .clearTaskWaiting pid => rq.Alive pts pid
  | .setTaskWaiting pid child => child ≠ 0 → rq.Alive pts pid
  | .blockCurrent state =>
    ∀ cur, rq.curr = some cur → (state.isDead = false → rq.Alive pts cur) ∧ (state.isDead = true → cur ≠ rq.idle)
  | .setTaskExitStatus pid _ => pid ≠ rq.idle
  | _ => True

theorem Attr.stays_of_dead {a : Attr} (h : a.state.isDead = true) : a.stays = false := by
  unfold stays
  cases hr : a.state.isRunnable with
  | false => rfl
  | true =>
    rw [isDead_of_isRunnable hr] at h
    cases h

theorem Attr.returns_of_dead {a : Attr} (h : a.state.isDead = true) : a.returns = false := by
  unfold returns
  rw [h]
  exact and_false _

theorem isDead_running : TASK_RUNNING.isDead = false := by decide

theorem isDead_interruptible : TASK_INTERRUPTIBLE.isDead = false := by decide

theorem isDead_zombie : TASK_ZOMBIE.isDead = true := by decide

namespace Op

variable {pts : PidToSlot} {rq : RunQueue} {p pid : Pid} {t : Task} {o : Op}

/-- A task that a section may write to as it does not to dead ones is not dead. -/
theorem spared_ne (halive : rq.Alive pts pid) (hg : rq.slotGet pts p = some t) (hdead : t.state.isDead = true) :
    p ≠ pid := by
  intro he
  subst he
  rw [halive t hg] at hdead
  cases hdead

section

variable (hsp : o.Spares pts rq) (hg : rq.slotGet pts p = some t) (hdead : t.state.isDead = true)
include hsp hg hdead

/-- **A section leaves a dead task dead.** -/
theorem dead_after (hpick : ∀ now, o = .pickNextTask now → p ≠ (rq.pickNextTask pts now).1) :
    (o.after pts rq p t.attr).state.isDead = true := by
  cases o with
  | wake pid always refresh | switchTo new now | clearTaskWaiting pid =>
    unfold after
    simp only [if_neg (spared_ne hsp hg hdead)]
    exact hdead
  | blockCurrent state =>
    unfold after
    by_cases hc : rq.curr = some p
    · simp only [if_pos hc]
      by_contra hs
      exact spared_ne ((hsp p hc).1 ((not_eq_true _).mp hs)) hg hdead rfl
    · simp only [if_neg hc]
      exact hdead
  | pickNextTask now =>
    unfold after
    simp only [if_neg (hpick now rfl)]
    exact hdead
  | contextSwitch old new ctx now =>
    unfold after
    simp only [if_neg (fun h : _ ∧ _ => spared_ne hsp hg hdead h.1)]
    exact hdead
  | setTaskExitStatus pid status =>
    unfold after
    dsimp only
    split
    · exact isDead_zombie
    · exact hdead
  | setTaskWaiting pid child =>
    unfold after
    simp only [if_neg (fun h : _ ∧ _ => spared_ne (hsp h.2) hg hdead h.1)]
    exact hdead
  | _ =>
    unfold after
    first
      | exact hdead
      | (dsimp only; split <;> exact hdead)

theorem mark_of_dead (hoff : t.onRq = false) : o.mark pts rq p t.attr t.onRq = false := by
  have hstay : t.attr.stays = false := stays_of_dead hdead
  have hret : t.attr.returns = false := returns_of_dead hdead
  rw [hoff]
  cases o with
  | enqueueTask pid | wake pid always refresh
  | undoPickNext old next => exact decide_eq_false (spared_ne hsp hg hdead)
  | _ =>
    unfold mark
    simp [hstay, hret]

end

/-- **A task dies** by blocking in a dead state, or by its exit status. -/
theorem died {a : Attr} (halive : a.state.isDead = false) (hdead : (o.after pts rq p a).state.isDead = true) :
    (∃ state, o = .blockCurrent state ∧ rq.curr = some p ∧ state.isDead = true) ∨
      ∃ status, o = .setTaskExitStatus p status := by
  cases o with
  | blockCurrent state =>
    unfold after at hdead
    dsimp only at hdead
    split at hdead
    · exact .inl ⟨state, rfl, ‹_›, hdead⟩
    · cases halive.symm.trans hdead
  | setTaskExitStatus pid status =>
    unfold after at hdead
    dsimp only at hdead
    split at hdead
    next hp =>
      exact .inr ⟨status, by rw [hp]⟩
    · cases halive.symm.trans hdead
  | _ =>
    unfold after at hdead
    first
      | cases halive.symm.trans hdead
      | (dsimp only at hdead
         split at hdead <;> first
           | cases halive.symm.trans hdead
           | exact Bool.noConfusion (isDead_running.symm.trans hdead)
           | exact Bool.noConfusion (isDead_interruptible.symm.trans hdead))

/-- **A section does not mark a dead task**, nor one that it makes dead. -/
theorem dead_unmarked (hsp : o.Spares pts rq) (hg : rq.slotGet pts p = some t)
    (hoff : t.state.isDead = true → t.onRq = false) (hdead : (o.after pts rq p t.attr).state.isDead = true) :
    o.mark pts rq p t.attr t.onRq = false := by
  by_cases hd : t.state.isDead = true
  · exact mark_of_dead hsp hg hd (hoff hd)
  have halive : t.attr.state.isDead = false := (not_eq_true _).mp hd
  rcases died halive hdead with ⟨state, rfl, hc, -⟩ | ⟨status, rfl⟩
  · show (t.onRq && decide (rq.curr ≠ some p)) = false
    rw [decide_eq_false (fun h => h hc), Bool.and_false]
  · show (t.onRq && decide (p ≠ p)) = false
    rw [decide_eq_false (fun h => h rfl), Bool.and_false]

/-- **A section leaves the idle task alive.** -/
theorem idle_alive (hsp : o.Spares pts rq) (a : Attr) (halive : a.state.isDead = false) :
    (o.after pts rq rq.idle a).state.isDead = false := by
  by_contra hx
  rcases died halive ((not_eq_false _).mp hx) with ⟨state, rfl, hc, hd⟩ | ⟨status, rfl⟩
  · exact (hsp rq.idle hc).2 hd rfl
  · exact hsp rfl

end Op

/-- An action does not wake, move or revive a dead task. -/
def Action.Spares (s : Scheduler) : Action → Prop
  | .op cpu o => ∀ rq, s.runQueues cpu = some rq → o.Spares s.pidToSlot rq
  | .addTask t _ _ => t.state.isDead = false
  | .evict _ cpu pid _ =>
    ∀ rq t, s.runQueues cpu = some rq → s.find cpu pid = some t → rq.curr ≠ some pid → t.state.isDead = false
  | .setAffinity _ cpu pid mask _ _ =>
    ∀ rq t, s.runQueues cpu = some rq → s.find cpu pid = some t → mask.isSet cpu = false →
      rq.curr ≠ some pid → t.state.isDead = false
  | _ => True

namespace Scheduler

variable {strict : Prop} {s s' : Scheduler}

/-- Dead tasks are off the queues, and neither idle tasks nor tasks in motion are dead. -/
structure Quiet (s : Scheduler) : Prop where
  off : ∀ c p t, s.find c p = some t → t.state.isDead = true → t.onRq = false
  idle : ∀ c rq t, s.runQueues c = some rq → s.find c rq.idle = some t → t.state.isDead = false
  moving : ∀ m ∈ s.moving, m.2.state.isDead = false

/-- What a step must respect so that the dead stay dead. -/
def Respects (s : Scheduler) (a : Action) : Prop := a.Orderly False s ∧ a.Spares s

variable {a : Action} {c : Nat}

/-- Only the living are put in motion. -/
theorem Carries.alive {cpu dest : Nat} {rq : RunQueue} {t : Task} (h : Carries s a cpu rq t dest)
    (ho : Respects s a) (hq : s.runQueues cpu = some rq) (hf : s.find cpu t.pid = some t) : t.state.isDead = false := by
  cases h with
  | stolen hst => exact (stealable_iff.mp hst).2.2.2.1
  | evicted hcurr => exact ho.2 rq t hq hf hcurr

section

variable (hqt : Quiet s)
include hqt

/-- **`pick_next_task`** does not pick a dead task. -/
theorem Quiet.picked_alive (hs : Sound strict s) {rq : RunQueue} (hq : s.runQueues c = some rq) (now : Nat)
    (hfit : strict → ∀ prev, rq.curr = some prev → rq.Fits s.pidToSlot prev) {t : Task}
    (hf : s.find c (rq.pickNextTask s.pidToSlot now).1 = some t) : t.state.isDead = false := by
  have hprep := (hs.queue c rq hq).prepared now hfit
  have hpick : (rq.pickNextTask s.pidToSlot now).1 = ((rq.prepared s.pidToSlot now).popNextTask s.pidToSlot).1 := rfl
  rw [hpick] at hf
  rcases hprep.popNextTask with ⟨hidle, -⟩ | ⟨pid, u, q, hpid, hu, hon, -⟩
  · rw [hidle] at hf
    rw [(sameCpu_prepared now).idle] at hf
    exact hqt.idle c rq t hq hf
  rw [hpid] at hf
  -- the task as it was before the one that ran was settled
  have hview := @viewOf_prepared s.pidToSlot rq pid now
  unfold viewOf at hview
  rw [hu, (find_eq hq pid).symm.trans hf] at hview
  have hmark : u.onRq = if rq.curr = some pid then t.attr.stays else t.onRq := congrArg Prod.snd (some.inj hview)
  by_contra hdead
  have hd := (not_eq_false _).mp hdead
  have hstay : t.attr.stays = false := stays_of_dead hd
  rw [hon, hstay, hqt.off c pid t hf hd, ite_self] at hmark
  cases hmark

/-- A task that did not sit there in the same state, and that no section has changed, is alive. -/
theorem Quiet.origin (ho : Respects s a) {p : Pid} {t' : Task} (h : Origin s a c p t') :
    (∃ t, s.find c p = some t ∧ t'.state = t.state ∧ t'.onRq = t.onRq) ∨
      (∃ o rq t, a = .op c o ∧ s.runQueues c = some rq ∧ s.find c p = some t ∧
        t'.attr = o.after s.pidToSlot rq p t.attr ∧ t'.onRq = o.mark s.pidToSlot rq p t.attr t.onRq) ∨
      t'.state.isDead = false := by
  cases h with
  | kept ha hk => exact .inl ⟨t', hk, rfl, rfl⟩
  | ran ha hq hft hattr hmark => exact .inr (.inl ⟨_, _, _, ha, hq, hft, hattr, hmark⟩)
  | added ha hp harr =>
    subst ha
    rw [harr.state]
    exact .inr (.inr ho.2)
  | landed ha hm hp harr =>
    rw [harr.state]
    exact .inr (.inr (hqt.moving _ (List.mem_of_getElem? hm)))
  | masked ha hq hft he _ =>
    subst he
    exact .inl ⟨_, hft, rfl, rfl⟩
  | moved ha hq hft hmask hcurr hdest harr =>
    rename_i t
    subst ha
    rw [harr.state]
    exact .inr (.inr (ho.2 _ t hq hft hmask hcurr))

section

variable (hs : Sound False s)
include hs

theorem Quiet.step (ho : Respects s a) (h : s.step a = some s') : Quiet s' := by
  refine ⟨fun c p t' hf hdead => ?_, fun c rq' t' hq' hf => ?_, fun m hm => ?_⟩
  · rcases hqt.origin ho (hs.origin ho.1 h hf) with
      ⟨t, hft, hst, hon⟩ | ⟨o, rq, t, rfl, hq, hft, hattr, hmark⟩ | halive
    · rw [hst] at hdead
      exact hon.trans (hqt.off c p t hft hdead)
    · rw [hmark]
      have hd : t'.attr.state.isDead = true := hdead
      rw [hattr] at hd
      exact Op.dead_unmarked (ho.2 rq hq) ((find_eq hq p).symm.trans hft) (hqt.off c p t hft) hd
    · cases halive.symm.trans hdead
  · have hidle : ∀ rq, s.runQueues c = some rq → rq'.idle = rq.idle := fun rq hq => (hs.curr_origin ho.1 h hq hq').1
    rcases hqt.origin ho (hs.origin ho.1 h hf) with
      ⟨t, hft, hst, -⟩ | ⟨o, rq, t, rfl, hq, hft, hattr, -⟩ | halive
    · obtain ⟨rq, hq, -⟩ := bind_eq_some_iff.mp hft
      rw [hidle rq hq] at hft
      rw [hst]
      exact hqt.idle c rq t hq hft
    · rw [hidle rq hq] at hft hattr
      have hafter := Op.idle_alive (ho.2 rq hq) t.attr (hqt.idle c rq t hq hft)
      rw [← hattr] at hafter
      exact hafter
    · exact halive
  · rcases hs.moving_origin ho.1 h hm with hold | ⟨cpu, dest, rq, t, hcar, hq, hft, rfl⟩
    · exact hqt.moving m hold
    · exact hcar.alive ho hq hft

/-- **A dead task stays dead** and where it is, along a step that spares the dead and does not remove it. -/
theorem Quiet.dead_step (ho : Respects s a) (h : s.step a = some s') {p : Pid} {t : Task} (hf : s.find c p = some t)
    (hdead : t.state.isDead = true) (hkeep : a ≠ .removeTask c p) :
    ∃ t', s'.find c p = some t' ∧ t'.state.isDead = true := by
  have hstays : ∃ t', s'.find c p = some t' := by
    rcases hs.survives ho.1 h hf with hx | hx | ⟨dest, rq, hcar, hq⟩ | ⟨th, mask, load, now, rq, ha, hq, hmask, hcurr⟩
    · exact hx
    · exact absurd hx hkeep
    · have hft : s.find c t.pid = some t := by rw [find_pid hf]; exact hf
      cases (hcar.alive ho hq hft).symm.trans hdead
    · subst ha
      cases (ho.2 rq t hq hf hmask hcurr).symm.trans hdead
  obtain ⟨t', hf'⟩ := hstays
  refine ⟨t', hf', ?_⟩
  cases hs.origin ho.1 h hf' with
  | kept ha hk =>
    rw [hf] at hk
    cases hk
    exact hdead
  | ran ha hq hft hattr hmark =>
    rename_i o rq t0
    subst ha
    rw [hf] at hft
    cases hft
    have hafter := Op.dead_after (ho.2 rq hq) ((find_eq hq p).symm.trans hf) hdead (fun now he hp => ?_)
    · rw [← hattr] at hafter
      exact hafter
    have halive := hqt.picked_alive hs hq now (fun hx => hx.elim) (by rw [← hp]; exact hf)
    rw [halive] at hdead
    cases hdead
  | added ha hp harr =>
    -- the pid of a new task is not here yet
    subst ha
    subst hp
    have hnew := ho.1.new
    rw [hf] at hnew
    cases hnew
  | landed ha hm hp harr =>
    have hnone := (hs.moving _ (List.mem_of_getElem? hm)).2.2 c
    rw [← hp, hf] at hnone
    cases hnone
  | masked ha hq hft he _ =>
    rw [hf] at hft
    cases hft
    rw [he]
    exact hdead
  | moved ha hq hft hmask hcurr hdest harr =>
    rename_i thisCpu cpu mask load now rq u
    subst ha
    rcases hs.alone cpu c p rq u t hq hft hf with hc | hc
    · subst hc
      rw [ho.2 rq t hq hf hmask hcurr] at hdead
      cases hdead
    · exact absurd hc (ho.1 rq hq).1

/-- **No CPU is handed a dead task.** -/
theorem Quiet.handed_alive {c' : Nat} {p : Pid} {t u : Task}
    (hf : s.find c p = some t) (hdead : t.state.isDead = true) (hh : s.handed a = some (c', u)) : u.pid ≠ p := by
  intro hp
  subst hp
  obtain ⟨rqc, hqc, -⟩ := bind_eq_some_iff.mp hf
  rcases hs.handed_cases hh with ⟨now, rq, w, rfl, hq, hw, hpid, -⟩ | ⟨v, rq, w, -, hq, hw, hst, hne, rfl⟩
  · -- the task that is picked is here, so it is the dead one, or an idle one
    have halive := hqt.picked_alive hs hq now (fun hx => hx.elim) (by rw [hpid]; exact hw)
    rcases hs.alone c c' u.pid rqc t w hqc hf hw with hc | hc
    · subst hc
      rw [hf] at hw
      cases hw
      cases halive.symm.trans hdead
    · rw [hc] at hf
      cases (hqt.idle c rqc t hqc hf).symm.trans hdead
  · have hft : s.find c w.pid = some t := hf
    rcases hs.alone v c w.pid rq w t hq hw hft with hc | hc
    · subst hc
      rw [hft] at hw
      cases hw
      cases (stealable_iff.mp hst).2.2.2.1.symm.trans hdead
    · exact hne hc

/-- What is said of a task that died: it is still there and dead, marked nowhere and in no queue, and nothing
    hands it to a CPU. -/
structure Rests (s : Scheduler) (c : Nat) (p : Pid) (t : Task) : Prop where
  found : s.find c p = some t
  dead : t.state.isDead = true
  notRunnable : t.state.isRunnable = false
  unmarked : t.onRq = false
  unqueued : ∀ cpu rq q, s.runQueues cpu = some rq → p ∉ rq.members q
  unhanded : ∀ a cpu u, s.handed a = some (cpu, u) → u.pid ≠ p

theorem Quiet.rests {p : Pid} {t : Task} (hf : s.find c p = some t)
    (hdead : t.state.isDead = true) : Rests s c p t := by
  refine ⟨hf, hdead, ?_, hqt.off c p t hf hdead, fun cpu rq q hq hmem => ?_,
    fun a cpu u hh => hqt.handed_alive hs hf hdead hh⟩
  · cases hr : t.state.isRunnable with
    | false => rfl
    | true =>
      rw [isDead_of_isRunnable hr] at hdead
      cases hdead
  obtain ⟨u, hu, hon, -⟩ := (hs.queue cpu rq hq).of_mem hmem
  rw [← find_eq hq] at hu
  obtain ⟨rqc, hqc, -⟩ := bind_eq_some_iff.mp hf
  rcases hs.alone c cpu p rqc t u hqc hf hu with hc | hc
  · subst hc
    rw [hf] at hu
    cases hu
    rw [hqt.off c p t hf hdead] at hon
    cases hon
  · rw [hqt.idle c rqc t hqc (by rw [← hc]; exact hf)] at hdead
    cases hdead

end

end

theorem quiet_of_reach (h : Reach Scheduler.step Respects (fun s => s = Scheduler.init) s) :
    Sound False s ∧ Quiet s := by
  refine Steps.invariant (fun s => Sound False s ∧ Quiet s) ?_ h ⟨sound_init False, nofun, nofun, nofun⟩
  rintro s a s' ⟨hs, hqt⟩ ho hstep
  exact ⟨hs.step ho.1 hstep, hqt.step hs ho hstep⟩

/-- **A dead task never runs again.** From any state a run of steps that spare the dead can reach, and along any
    further such steps that do not remove its slot, a task that is dead rests. -/
theorem dead_rests {s s' : Scheduler} (h : Run.Reach Scheduler.step Respects (fun s => s = Scheduler.init) s)
    {c : Nat} {p : Pid} {t : Task} (hf : s.find c p = some t) (hdead : t.state.isDead = true)
    (hrun : Run.Steps Scheduler.step (fun s a => Respects s a ∧ a ≠ .removeTask c p) s s') : ∃ t', Rests s' c p t' := by
  have hinv : Sound False s' ∧ Quiet s' ∧ ∃ t', s'.find c p = some t' ∧ t'.state.isDead = true := by
    obtain ⟨hs, hqt⟩ := quiet_of_reach h
    refine hrun.invariant (fun s => Sound False s ∧ Quiet s ∧ ∃ t', s.find c p = some t' ∧ t'.state.isDead = true)
      ?_ ⟨hs, hqt, t, hf, hdead⟩
    rintro s a s' ⟨hs, hqt, u, hu, hd⟩ ⟨ho, hne⟩ hstep
    exact ⟨hs.step ho.1 hstep, hqt.step hs ho hstep, hqt.dead_step hs ho hstep hu hd hne⟩
  obtain ⟨hs, hqt, t', hf', hd'⟩ := hinv
  exact ⟨t', hqt.rests hs hf' hd'⟩

instance (rq : RunQueue) (pts : PidToSlot) (pid : Pid) : Decidable (rq.Alive pts pid) :=
  inferInstanceAs (Decidable (∀ t, rq.slotGet pts pid = some t → _))

instance (pts : PidToSlot) (rq : RunQueue) (o : Op) : Decidable (o.Spares pts rq) :=
  match o with
  | .enqueueTask pid | .wake pid _ _ | .undoPickNext _ pid | .switchTo pid _ | .contextSwitch _ pid _ _
  | .clearTaskWaiting pid => inferInstanceAs (Decidable (rq.Alive pts pid))
  | .setTaskWaiting pid child => inferInstanceAs (Decidable (child ≠ 0 → rq.Alive pts pid))
  | .blockCurrent _ =>
    inferInstanceAs (Decidable (∀ cur, rq.curr = some cur → (_ → rq.Alive pts cur) ∧ (_ → cur ≠ rq.idle)))
  | .setTaskExitStatus pid _ => inferInstanceAs (Decidable (pid ≠ rq.idle))
  | .dequeueTask _ | .putPrevTask _ | .yieldCurrent | .schedulerTick _ _ | .pickNextTask _ | .setScheduler _ _ _
  | .setTaskNice _ _ | .setTaskPolicy _ _ | .setTaskRtPriority _ _ | .setTaskAffinity _ _ => .isTrue trivial

instance (s : Scheduler) (a : Action) : Decidable (a.Spares s) :=
  match a with
  | .op cpu o => inferInstanceAs (Decidable (∀ rq, s.runQueues cpu = some rq → o.Spares s.pidToSlot rq))
  | .addTask t _ _ => inferInstanceAs (Decidable (t.state.isDead = false))
  | .evict _ cpu pid _ =>
    decidable_of_iff (∀ rq, s.runQueues cpu = some rq → ∀ t, s.find cpu pid = some t → rq.curr ≠ some pid →
      t.state.isDead = false) ⟨fun h rq t hq => h rq hq t, fun h rq hq t => h rq t hq⟩
  | .setAffinity _ cpu pid mask _ _ =>
    decidable_of_iff (∀ rq, s.runQueues cpu = some rq → ∀ t, s.find cpu pid = some t → mask.isSet cpu = false →
      rq.curr ≠ some pid → t.state.isDead = false) ⟨fun h rq t hq => h rq hq t, fun h rq hq t => h rq t hq⟩
  | .initCpu _ _ | .removeTask _ _ | .steal _ _ | .land _ _ => .isTrue trivial

/-- Two tasks on CPU 0; the one that runs exits, and CPU 0 picks again. -/
theorem dead_rests_picked : ∃ s s' t t', Run.Reach step Respects (fun s => s = init) s ∧ s.find 0 5 = some t ∧
    t.state = TASK_ZOMBIE ∧ s.step (.op 0 (.pickNextTask 0)) = some s' ∧ (s.find 0 6).isSome = true ∧
    Rests s' 0 5 t' := by
  obtain ⟨s, hs, hf, hsix⟩ : ∃ s, Reach step Respects (fun s => s = init) s ∧
      (s.find 0 5).any (fun t => decide (t.state = TASK_ZOMBIE)) = true ∧ (s.find 0 6).isSome = true :=
    reach_tested (fun s a => a.Spares s) (fun _ _ ho hk => ⟨ho False, hk⟩)
      [.initCpu 0 0, .addTask (Task.new 5) 0 0, .addTask (Task.new 6) 0 0, .op 0 (.pickNextTask 0),
        .op 0 (.setTaskExitStatus 5 7)] (by decide +kernel)
  obtain ⟨t, ht, hzombie⟩ := exists_of_any hf
  obtain ⟨rq, hq, -⟩ := bind_eq_some_iff.mp ht
  have hpick : s.step (.op 0 (.pickNextTask 0)) = some (s.put 0 (Op.run (.pickNextTask 0) s.pidToSlot rq)) := by
    show (s.runQueues 0).map _ = _
    rw [hq]
    rfl
  obtain ⟨t', ht'⟩ := dead_rests hs ht (hzombie ▸ isDead_zombie) (Steps.single (.op 0 (.pickNextTask 0))
    ⟨⟨fun rq hq => ⟨fun hx => hx.elim, nofun⟩, fun rq hq => trivial⟩, nofun⟩ hpick)
  exact ⟨s, _, t, t', hs, ht, hzombie, hpick, hsix, ht'⟩

/-- CPU 0 comes up and gets a task, which exits. -/
def exited : List Action := [.initCpu 0 0, .addTask (Task.new 5) 0 0, .op 0 (.setTaskExitStatus 5 7)]

/-- **A late `wake_up` revives a zombie.** The task has exited and is off the queue; `wake_up` makes it runnable
    and queues it, and `pick_next_task` picks it. -/
theorem zombie_picked_after_wake :
    ∃ s t u v, Run.exec Scheduler.step (fun _ _ => True) Scheduler.init exited = some s ∧
      s.find 0 5 = some t ∧ t.state = TASK_ZOMBIE ∧ t.onRq = false ∧
      (s.wakeUp 0 5).find 0 5 = some u ∧ u.state = TASK_RUNNING ∧ u.onRq = true ∧
      (s.wakeUp 0 5).handed (.op 0 (.pickNextTask 0)) = some (0, v) ∧ v.pid = 5 := by
  have hrun : (exec step (fun _ _ => True) init exited).bind (fun s =>
      (s.find 0 5).bind (fun t => ((s.wakeUp 0 5).find 0 5).bind (fun u =>
        ((s.wakeUp 0 5).handed (.op 0 (.pickNextTask 0))).map (fun r =>
          (t.state, t.onRq, u.state, u.onRq, r.1, r.2.pid))))) =
      some (TASK_ZOMBIE, false, TASK_RUNNING, true, 0, 5) := by
    decide +kernel
  obtain ⟨s, hs, h⟩ := bind_eq_some_iff.mp hrun
  obtain ⟨t, ht, h⟩ := bind_eq_some_iff.mp h
  obtain ⟨u, hu, h⟩ := bind_eq_some_iff.mp h
  obtain ⟨⟨cpu, v⟩, hv, he⟩ := map_eq_some_iff.mp h
  simp only [Prod.mk.injEq] at he
  obtain ⟨h1, h2, h3, h4, rfl, h6⟩ := he
  exact ⟨s, t, u, v, hs, ht, h1, h2, hu, h3, h4, hv, h6⟩

end Scheduler
end OxideOs.Sched

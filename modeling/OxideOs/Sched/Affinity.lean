import OxideOs.Sched.Origins

/-!
# `Sched.Affinity` — tasks run where their masks allow

`select_task_rq` and `steal_task` look at the mask, and the rest of the scheduler does not: a task that is on a
CPU is picked there. So masks are respected as long as every task sits on a CPU of its mask, which is what
`set_affinity` is for. It moves a task that waits; for the task that is running it only asks for a reschedule,
and `pick_next_task` puts that task back on the same queue. `set_task_affinity` writes the mask and no more.
-/

namespace OxideOs.Sched

open CpuSet Run OxideOs.Sched.Task Option

/-- A set with a CPU in it has a first one. -/
theorem CpuSet.firstSet_isSet {mask : CpuSet} (h : mask.isEmpty = false) :
    ∃ cpu, mask.firstSet = some cpu ∧ mask.isSet cpu = true := by
  have hex : ∃ i, i < 256 ∧ mask.isSet i = true := by
    by_contra hnone
    have hzero : mask.bits = 0#256 := by
      refine BitVec.eq_of_getLsbD_eq (fun i hi => ?_)
      rw [BitVec.getLsbD_zero]
      by_contra hset
      exact hnone ⟨i, hi, (Bool.not_eq_false _).mp hset⟩
    unfold isEmpty at h
    rw [hzero] at h
    cases h
  obtain ⟨i, hi, hset⟩ := hex
  unfold firstSet
  cases hf : (List.range 256).find? mask.isSet with
  | none =>
    have hnot := List.find?_eq_none.mp hf i (List.mem_range.mpr hi)
    exact absurd hset hnot
  | some cpu => exact ⟨cpu, rfl, List.find?_some hf⟩

namespace Scheduler

variable {s s' : Scheduler}

/-- **`select_task_rq`** chooses a CPU of the mask, when there is one. -/
theorem selectTaskRq_isSet (s : Scheduler) (thisCpu : Nat) (load : Nat → Nat) {t : Task}
    (h : t.cpuAffinity.isEmpty = false) : t.cpuAffinity.isSet (s.selectTaskRq thisCpu load t) = true := by
  obtain ⟨first, hfirst, hset⟩ := firstSet_isSet h
  unfold selectTaskRq
  split
  · assumption
  split
  · assumption
  -- the scan starts with a CPU of the mask and only ever moves on to another
  refine List.foldlRecOn (motive := fun best : _ × _ => t.cpuAffinity.isSet best.1 = true) _ _ ?_
    (fun best hbest cpu _ => ?_)
  · rw [hfirst]
    exact hset
  · split
    next hc =>
      exact (Bool.and_eq_true_iff.mp hc).1
    · exact hbest

/-- Every task is on a CPU of its mask, or on its way to one. -/
structure Placed (s : Scheduler) : Prop where
  seated : ∀ c p t, s.find c p = some t → t.cpuAffinity.isSet c = true
  moving : ∀ m ∈ s.moving, m.2.cpuAffinity.isSet m.1 = true

end Scheduler

/-- No section but the one that writes the mask changes it. -/
theorem Op.after_cpuAffinity (o : Op) (pts : PidToSlot) (rq : RunQueue) (p : Pid) (a : Attr) :
    (o.after pts rq p a).cpuAffinity = a.cpuAffinity ∨
      ∃ mask, o = .setTaskAffinity p mask ∧ (o.after pts rq p a).cpuAffinity = mask := by
  cases o with
  | setTaskAffinity pid mask =>
    unfold after
    by_cases hp : p = pid
    · right
      refine ⟨mask, by rw [hp], ?_⟩
      simp [if_pos hp]
    · left
      simp [if_neg hp]
  | _ =>
    left
    unfold after
    first
      | rfl
      | (dsimp only; split <;> rfl)

/-- A step leaves every task on a CPU of its mask: a mask that is written keeps the CPU, or the whole of
    `set_affinity` moves the task, which it does when the task is not running and the mask is not empty. -/
def Action.Places (s : Scheduler) : Action → Prop
  | .op cpu (.setTaskAffinity pid mask) => ∀ t, s.find cpu pid = some t → mask.isSet cpu = true
  | .addTask t cpu _ => t.cpuAffinity.isSet cpu = true
  | .setAffinity _ cpu pid mask _ _ =>
    ∀ rq t, s.runQueues cpu = some rq → s.find cpu pid = some t →
      mask.isSet cpu = true ∨ (rq.curr ≠ some pid ∧ mask.isEmpty = false)
  | _ => True

namespace Scheduler

variable {strict : Prop} {s s' : Scheduler}

/-- What a step must respect so that tasks stay where their masks allow. -/
def Confines (s : Scheduler) (a : Action) : Prop := a.Orderly False s ∧ a.Places s

theorem Placed.step (hp : Placed s) (hs : Sound False s) {a : Action} (ho : Confines s a)
    (h : s.step a = some s') : Placed s' := by
  refine ⟨fun c p t' hf => ?_, fun m hm => ?_⟩
  · cases hs.origin ho.1 h hf with
    | kept ha hk => exact hp.seated c p t' hk
    | ran ha hq hft hattr hmark =>
      rename_i o rq t
      subst ha
      have haff : t'.cpuAffinity = (o.after s.pidToSlot rq p t.attr).cpuAffinity := congrArg Attr.cpuAffinity hattr
      rw [haff]
      rcases Op.after_cpuAffinity o s.pidToSlot rq p t.attr with he | ⟨mask, rfl, he⟩
      · rw [he]
        exact hp.seated c p t hft
      · rw [he]
        exact ho.2 t hft
    | added ha hpid harr =>
      subst ha
      rw [harr.cpuAffinity]
      exact ho.2
    | landed ha hm hpid harr =>
      rw [harr.cpuAffinity]
      exact hp.moving _ (List.mem_of_getElem? hm)
    | masked ha hq hft he hstay =>
      rename_i thisCpu mask load now rq t
      subst ha
      rw [he]
      rcases ho.2 rq t hq hft with hset | ⟨hcurr, -⟩
      · exact hset
      · exact hstay.resolve_right hcurr
    | moved ha hq hft hmask hcurr hdest harr =>
      rename_i thisCpu cpu mask load now rq t
      subst ha
      rw [harr.cpuAffinity, hdest]
      rcases ho.2 rq t hq hft with hset | ⟨-, hne⟩
      · rw [hmask] at hset
        cases hset
      · exact selectTaskRq_isSet s thisCpu load hne
  · rcases hs.moving_origin ho.1 h hm with hold | ⟨cpu, dest, rq, t, hcar, -, hft, rfl⟩
    · exact hp.moving m hold
    cases hcar with
    | stolen hst => exact (stealable_iff.mp hst).2.2.2.2
    | evicted hcurr =>
      refine selectTaskRq_isSet s _ _ ?_
      -- the mask has the CPU the task was on
      have hset := hp.seated cpu t.pid t hft
      cases he : t.cpuAffinity.isEmpty with
      | false => rfl
      | true =>
        unfold isSet at hset
        rw [beq_iff_eq.mp he] at hset
        simp at hset

/-- **CPU affinity is respected.** In every state of a run whose steps leave tasks on the CPUs of their masks,
    `pick_next_task` and `steal_task` hand a CPU only tasks whose mask contains it. -/
theorem handed_isSet {s : Scheduler} (h : Run.Reach Scheduler.step Confines (fun s => s = Scheduler.init) s)
    {a : Action} {c : Nat} {t : Task} (hh : s.handed a = some (c, t)) : t.cpuAffinity.isSet c = true := by
  have hinv : Sound False s ∧ Placed s := by
    refine Steps.invariant (fun s => Sound False s ∧ Placed s) ?_ h ⟨sound_init False, nofun, nofun⟩
    rintro s a s' ⟨hs, hp⟩ ho hstep
    exact ⟨hs.step ho.1 hstep, hp.step hs ho hstep⟩
  obtain ⟨hs, hp⟩ := hinv
  rcases hs.handed_cases hh with ⟨now, rq, w, rfl, -, hw, -, hattr⟩ | ⟨v, rq, w, -, -, -, hst, -, rfl⟩
  · have haff : t.cpuAffinity = _ := congrArg Attr.cpuAffinity hattr
    rcases Op.after_cpuAffinity _ s.pidToSlot rq t.pid w.attr with hsame | ⟨mask, hx, -⟩
    · rw [haff, hsame]
      exact hp.seated c _ w hw
    · cases hx
  · exact (stealable_iff.mp hst).2.2.2.2

instance (s : Scheduler) (a : Action) : Decidable (a.Places s) :=
  match a with
  | .op cpu o => by
    cases o with
    | setTaskAffinity pid => exact inferInstanceAs (Decidable (∀ t, s.find cpu pid = some t → _))
    | _ => exact .isTrue trivial
  | .addTask _ _ _ => inferInstanceAs (Decidable (_ = _))
  | .setAffinity _ cpu pid mask _ _ =>
    decidable_of_iff (∀ rq, s.runQueues cpu = some rq → ∀ t, s.find cpu pid = some t →
      mask.isSet cpu = true ∨ (rq.curr ≠ some pid ∧ mask.isEmpty = false))
      ⟨fun h rq t hq => h rq hq t, fun h rq hq t => h rq t hq⟩
  | .initCpu _ _ | .removeTask _ _ | .steal _ _ | .evict _ _ _ _ | .land _ _ => .isTrue trivial

/-- Task 6 waits on CPU 0 while task 5 runs there; `set_affinity` gives it a mask with only CPU 1, and moves it. CPU 1
    picks it. -/
theorem handed_isSet_moved : ∃ s t, Reach step Confines (fun s => s = init) s ∧
    s.handed (.op 1 (.pickNextTask 0)) = some (1, t) ∧ t.pid = 6 ∧ t.cpuAffinity.isSet 0 = false ∧
    t.cpuAffinity.isSet 1 = true := by
  obtain ⟨s, hs, hh⟩ : ∃ s, Reach step Confines (fun s => s = init) s ∧
      (s.handed (.op 1 (.pickNextTask 0))).any (fun r => decide (r.1 = 1 ∧ r.2.pid = 6 ∧
        r.2.cpuAffinity.isSet 0 = false)) = true :=
    reach_tested (fun s a => a.Places s) (fun _ _ ho hp => ⟨ho False, hp⟩)
      [.initCpu 0 0, .initCpu 1 1, .addTask (new 5) 0 0, .addTask (new 6) 0 0, .op 0 (.pickNextTask 0),
        .setAffinity 0 0 6 (single 1) (fun _ => 0) 0] (by decide +kernel)
  obtain ⟨⟨c, t⟩, ht, rfl, hpid, hzero⟩ := exists_of_any hh
  exact ⟨s, t, hs, ht, hpid, hzero, handed_isSet hs ht⟩

/-- Two CPUs; a task runs on the first, and `set_affinity` gives it a mask with only the second. -/
def pinnedAway : List Action :=
  [.initCpu 0 0, .initCpu 1 0, .addTask (new 5) 0 0, .op 0 (.pickNextTask 0),
    .setAffinity 1 0 5 (single 1) (fun _ => 0) 0]

/-- Two CPUs; a task waits on the first, and `set_task_affinity` gives it a mask with only the second. -/
def maskedAway : List Action :=
  [.initCpu 0 0, .initCpu 1 0, .addTask (new 5) 0 0, .op 0 (.setTaskAffinity 5 (single 1))]

theorem handed_of_exec {calls : List Action}
    (h : ((exec Scheduler.step (fun _ _ => True) Scheduler.init calls).bind (fun s =>
      s.handed (.op 0 (.pickNextTask 0)))).map (fun r => (r.1, r.2.pid, r.2.cpuAffinity.isSet 0)) =
      some (0, 5, false)) :
    ∃ s t, exec Scheduler.step (fun _ _ => True) Scheduler.init calls = some s ∧
      s.handed (.op 0 (.pickNextTask 0)) = some (0, t) ∧ t.pid = 5 ∧ t.cpuAffinity.isSet 0 = false := by
  obtain ⟨⟨cpu, t⟩, h, he⟩ := map_eq_some_iff.mp h
  obtain ⟨s, hs, hh⟩ := bind_eq_some_iff.mp h
  simp only [Prod.mk.injEq] at he
  obtain ⟨rfl, hpid, hset⟩ := he
  exact ⟨s, t, hs, hh, hpid, hset⟩

/-- **A task runs outside its mask.** The next pick of CPU 0 hands it the task again that `set_affinity` has
    pinned to CPU 1, and the one `set_task_affinity` has. -/
theorem handed_outside_mask : (∃ s t, Run.exec Scheduler.step (fun _ _ => True) Scheduler.init pinnedAway = some s ∧
      s.handed (.op 0 (.pickNextTask 0)) = some (0, t) ∧ t.pid = 5 ∧ t.cpuAffinity.isSet 0 = false) ∧
    ∃ s t, Run.exec Scheduler.step (fun _ _ => True) Scheduler.init maskedAway = some s ∧
      s.handed (.op 0 (.pickNextTask 0)) = some (0, t) ∧ t.pid = 5 ∧ t.cpuAffinity.isSet 0 = false :=
  ⟨handed_of_exec (by decide +kernel), handed_of_exec (by decide +kernel)⟩

end Scheduler
end OxideOs.Sched

import OxideOs.Sched.Machine

/-!
# `Sched.Steps` — the steps of the machine keep it sound

The actions that move tasks (`steal_task`, `set_affinity`) are taken apart into taking a task off and adding it
elsewhere. `Action.Orderly` is what an action needs beyond what its lock sections need: new tasks come with a
new pid, and idle tasks stay what and where they are. The last section ties the entry points that look for
their task on several CPUs to the sections they are made of.
-/

namespace OxideOs.Sched
namespace Scheduler

open RunQueue Option

variable {strict : Prop} {s s' : Scheduler} {cpu c : Nat} {rq : RunQueue} {pid p : Pid} {t : Task}

/-! ## Stealing -/

/-- The task `steal_task` settles on sits in a slot, and may be stolen. -/
theorem victim_stealable {dest : Nat} (h : rq.victim dest = some t) :
    (∃ i, rq.slots i = some t) ∧ rq.stealable dest t = true := by
  refine List.foldlRecOn (motive := fun best => ∀ b, best = some b → (∃ i, rq.slots i = some b) ∧
    rq.stealable dest b = true) _ (rq.stealRound dest) (b := none) nofun (fun best hbest i _ b hb => ?_) t h
  unfold stealRound at hb
  split at hb
  · exact hbest b hb
  rename_i u hu
  split at hb
  next hsteal =>
    iterate 2
      split at hb
      · cases hb
        exact ⟨⟨i, hu⟩, hsteal⟩
    · exact hbest b hb
  · exact hbest b hb

/-- What `steal_task` may take. -/
theorem stealable_iff {dest : Nat} : rq.stealable dest t = true ↔
    some t.pid ≠ rq.curr ∧ t.policy = .normal ∧ t.onRq = true ∧ t.state.isDead = false ∧
      t.cpuAffinity.isSet dest = true := by
  unfold stealable Task.canRunOn
  simp [and_assoc]

/-- Every run queue has the current and the idle task it had. -/
def SameCurr (s s' : Scheduler) : Prop :=
  ∀ c rq, s.runQueues c = some rq → ∃ rq', s'.runQueues c = some rq' ∧ rq'.curr = rq.curr ∧ rq'.idle = rq.idle

theorem SameCurr.refl (s : Scheduler) : SameCurr s s := fun _ rq h => ⟨rq, h, rfl, rfl⟩

theorem SameCurr.trans {s1 s2 s3 : Scheduler} (h : SameCurr s1 s2) (h' : SameCurr s2 s3) : SameCurr s1 s3 := by
  intro c rq1 h1
  obtain ⟨rq2, h2, he2, hi2⟩ := h c rq1 h1
  obtain ⟨rq3, h3, he3, hi3⟩ := h' c rq2 h2
  exact ⟨rq3, h3, he3.trans he2, hi3.trans hi2⟩

theorem sameCurr_put {rq' : RunQueue} (hq : s.runQueues cpu = some rq) (hcurr : rq'.curr = rq.curr)
    (hidle : rq'.idle = rq.idle) : SameCurr s (s.put cpu rq') := by
  intro c r h
  by_cases hc : c = cpu
  · subst hc
    rw [hq] at h
    cases h
    exact ⟨rq', put_self s c rq', hcurr, hidle⟩
  · exact ⟨r, (put_ne s rq' hc).trans h, rfl, rfl⟩

theorem sameCurr_addTaskToCpu (s : Scheduler) (t : Task) (cpu now : Nat) : SameCurr s (s.addTaskToCpu t cpu now) := by
  cases hq : s.runQueues cpu with
  | none =>
    unfold addTaskToCpu
    rw [hq]
    exact .refl s
  | some rq =>
    rw [addTaskToCpu_up hq]
    exact sameCurr_put hq addTask_frame.2.2 addTask_frame.2.1

/-- What a lock section leaves behind that takes a task off its queue and its slot. -/
structure TakenOff (strict : Prop) (s : Scheduler) (pid : Pid) (t : Task) (e : Option Task × Scheduler) : Prop where
  fst : e.1 = some { t with onRq := false }
  sound : Sound strict e.2
  same : SameCurr s e.2
  moving : e.2.moving = s.moving
  activeCpus : e.2.activeCpus = s.activeCpus
  find : ∀ c p, e.2.find c p = if p = pid then none else s.find c p

theorem Sound.takenOff (hs : Sound strict s) (hq : s.runQueues cpu = some rq) (hf : s.find cpu pid = some t)
    (hne : pid ≠ rq.idle) (hmark : strict → t.onRq = true → t.policy ≠ .idle) :
    TakenOff strict s pid t (s.takeFrom cpu pid) := by
  refine ⟨takeFrom_fst hq hf, hs.take hq hf hne hmark, ?_, ?_, ?_, hs.find_take hq hf hne⟩
  · rw [takeFrom_some hq, removeTask_some ((find_eq hq pid).symm.trans hf)]
    exact sameCurr_put hq (unqueue_frame _ _).1 (unqueue_frame _ _).2.2.1
  · rw [takeFrom_some hq]
    rfl
  · rw [takeFrom_some hq]
    rfl

/-- What an earlier section did to the task alone does not show once the task is off. -/
theorem TakenOff.back {t' : Task} {e : Option Task × Scheduler} (h : TakenOff strict s' pid t' e)
    (ht : ({ t' with onRq := false } : Task) = { t with onRq := false }) (hsame : SameCurr s s')
    (hmoving : s'.moving = s.moving) (hactive : s'.activeCpus = s.activeCpus)
    (hfind : ∀ c p, p ≠ pid → s'.find c p = s.find c p) : TakenOff strict s pid t e := by
  refine ⟨h.fst.trans (congrArg some ht), h.sound, hsame.trans h.same, h.moving.trans hmoving,
    h.activeCpus.trans hactive, fun c p => ?_⟩
  rw [h.find]
  by_cases hp : p = pid
  · rw [if_pos hp, if_pos hp]
  · rw [if_neg hp, if_neg hp, hfind c p hp]

/-- **`steal_task`** takes nothing, or it takes a task off that may be stolen. -/
theorem Sound.steal_cases (hs : Sound strict s) (cpu dest : Nat) :
    s.steal cpu dest = (none, s) ∨
      ∃ rq t, s.runQueues cpu = some rq ∧ s.find cpu t.pid = some t ∧ rq.stealable dest t = true ∧ t.pid ≠ rq.idle ∧
        TakenOff strict s t.pid t (s.steal cpu dest) := by
  unfold steal stealTask
  cases hq : s.runQueues cpu with
  | none => exact .inl rfl
  | some rq =>
    have hnone : ({ s.put cpu rq with pidToSlot := s.pidToSlot } : Scheduler) = s := put_same hq
    dsimp only
    split
    · left
      rw [hnone]
    cases hv : rq.victim dest with
    | none =>
      left
      simp [hnone]
    | some t =>
      right
      obtain ⟨⟨i, hi⟩, hsteal⟩ := victim_stealable hv
      have hf := hs.found hq hi
      have hnormal := (stealable_iff.mp hsteal).2.1
      have hne : t.pid ≠ rq.idle := by
        intro he
        rw [hs.idle cpu rq t hq (by rw [← he]; exact hf)] at hnormal
        cases hnormal
      have htaken := hs.takenOff hq hf hne (fun _ _ => by rw [hnormal]; exact nofun)
      rw [takeFrom_some hq] at htaken
      exact ⟨rq, t, rfl, hf, hsteal, hne, htaken⟩

/-! ## The steps -/

/-- Whoever sits on a CPU is not in motion. -/
theorem Sound.not_moving (hs : Sound strict s) (hf : s.find cpu pid = some t) : ∀ m ∈ s.moving, m.2.pid ≠ pid := by
  intro m hm he
  have hnone := (hs.moving m hm).2.2 cpu
  rw [he, hf] at hnone
  cases hnone

theorem pid_lt (hf : s.find cpu pid = some t) : t.pid < MAX_PIDS := by
  obtain ⟨rq, -, hg⟩ := bind_eq_some_iff.mp hf
  obtain ⟨hlt, -, -, hpid⟩ := slotGet_eq_some.mp hg
  rw [hpid]
  exact hlt

/-- The task that was taken off is in motion. -/
theorem TakenOff.carry {o : Option Task} (h : TakenOff strict s pid t (o, s')) (hs : Sound strict s)
    (hf : s.find cpu pid = some t) (dest : Nat) :
    Sound strict { s' with moving := s'.moving ++ [(dest, { t with onRq := false })] } := by
  have hlt : t.pid < MAX_PIDS := pid_lt hf
  have hpid := find_pid hf
  refine h.sound.carry (t := { t with onRq := false }) hlt rfl (fun c => ?_) (fun m hm he => ?_) dest
  · exact (h.find c t.pid).trans (if_pos hpid)
  · have hold : m ∈ s.moving := h.moving ▸ hm
    exact hs.not_moving hf m hold (he.trans hpid)

/-- The state of `set_affinity` and of its second section once the task is off its queue. -/
def dequeued (s : Scheduler) (cpu : Nat) (rq : RunQueue) (pid : Pid) : Scheduler :=
  s.put cpu (Op.run (.dequeueTask pid) s.pidToSlot rq)

theorem evict_running (hq : s.runQueues cpu = some rq) (hcurr : rq.curr = some pid) :
    s.evict cpu pid = (none, s.put cpu { rq with needResched := true }) := by
  unfold evict
  simp only [hq]
  exact if_pos hcurr

theorem evict_waiting (hq : s.runQueues cpu = some rq) (hcurr : rq.curr ≠ some pid) :
    s.evict cpu pid = (s.dequeued cpu rq pid).takeFrom cpu pid := by
  unfold evict
  simp only [hq]
  exact if_neg hcurr

theorem Sound.dequeued (hs : Sound strict s) (hq : s.runQueues cpu = some rq) (pid : Pid) :
    Sound strict (s.dequeued cpu rq pid) := hs.op hq (.dequeueTask pid) trivial nofun

/-- A section that rewrites the task of one pid, seen from all CPUs. -/
theorem find_put_task {rq' : RunQueue} {g : Task → Task} (hq : s.runQueues cpu = some rq)
    (hg : ∀ p, rq'.slotGet s.pidToSlot p =
      if p = pid then (rq.slotGet s.pidToSlot pid).map g else rq.slotGet s.pidToSlot p) (c : Nat) (p : Pid) :
    (s.put cpu rq').find c p = if c = cpu ∧ p = pid then (s.find c p).map g else s.find c p := by
  rw [find_put]
  by_cases hc : c = cpu
  · subst hc
    rw [if_pos rfl, find_eq hq, hg]
    by_cases hp : p = pid
    · rw [if_pos hp, if_pos ⟨rfl, hp⟩, hp]
    · rw [if_neg hp, if_neg (fun h => hp h.2)]
  · rw [if_neg hc, if_neg (fun h => hc h.1)]

theorem dequeued_up : (s.dequeued cpu rq pid).runQueues cpu = some (Op.run (.dequeueTask pid) s.pidToSlot rq) :=
  put_self s cpu _

/-- Off the queue, the task is the same but for the mark. -/
theorem find_dequeued (hq : s.runQueues cpu = some rq) (pid : Pid) (c : Nat) (p : Pid) :
    (s.dequeued cpu rq pid).find c p =
      if c = cpu ∧ p = pid then (s.find c p).map (fun t => { t with onRq := false }) else s.find c p :=
  find_put_task hq (slotGet_dequeueTask rq s.pidToSlot pid) c p

/-- **The second section of `set_affinity`** finds no task, asks the CPU to reschedule, or takes the task off. -/
theorem Sound.evict_cases (hs : Sound strict s) (hne : ∀ rq, s.runQueues cpu = some rq → pid ≠ rq.idle) :
    (s.find cpu pid = none ∧ s.evict cpu pid = (none, s)) ∨
      (∃ rq, s.runQueues cpu = some rq ∧ rq.curr = some pid ∧
        s.evict cpu pid = (none, s.put cpu { rq with needResched := true })) ∨
      ∃ rq t, s.runQueues cpu = some rq ∧ rq.curr ≠ some pid ∧ s.find cpu pid = some t ∧
        TakenOff strict s pid t (s.evict cpu pid) := by
  cases hq : s.runQueues cpu with
  | none =>
    left
    unfold find evict
    rw [hq]
    exact ⟨rfl, rfl⟩
  | some rq =>
    by_cases hcurr : rq.curr = some pid
    · exact .inr (.inl ⟨rq, rfl, hcurr, evict_running hq hcurr⟩)
    rw [evict_waiting hq hcurr]
    cases hf : s.find cpu pid with
    | none =>
      left
      have hrun : Op.run (.dequeueTask pid) s.pidToSlot rq = rq := dequeueTask_none ((find_eq hq pid).symm.trans hf)
      have hsame : s.dequeued cpu rq pid = s := by
        unfold Scheduler.dequeued
        rw [hrun]
        exact put_same hq
      rw [hsame]
      exact ⟨rfl, takeFrom_none hf⟩
    | some t =>
      have hf' : (s.dequeued cpu rq pid).find cpu pid = some { t with onRq := false } := by
        rw [find_dequeued hq, if_pos ⟨rfl, rfl⟩, hf]
        rfl
      have hidle := @sameCpu_dequeueTask s.pidToSlot rq pid
      have htaken := (hs.dequeued hq pid).takenOff dequeued_up hf'
        (fun he => hne rq hq (he.trans hidle.idle)) (fun _ => nofun)
      refine .inr (.inr ⟨rq, t, rfl, hcurr, rfl, htaken.back rfl ?_ rfl rfl (fun c p hp => ?_)⟩)
      · exact sameCurr_put hq dequeueTask_curr hidle.idle
      · rw [find_dequeued hq, if_neg (fun h => hp h.2)]

/-- What is left on the real-time levels of all CPUs once a task has been taken off. -/
theorem Sound.evicted_queues (hs : Sound strict s) (hq : s.runQueues cpu = some rq)
    (hf : s.find cpu pid = some t) (hne : pid ≠ rq.idle) (hcurr : rq.curr ≠ some pid) {rq' : RunQueue}
    (h : (s.evict cpu pid).2.runQueues c = some rq') :
    ∃ rq0, s.runQueues c = some rq0 ∧ rq'.idle = rq0.idle ∧
      ∀ level, rq'.rtRq.queues level = (rq0.rtRq.queues level).filter (fun p => p != pid) := by
  have hg := (find_eq hq pid).symm.trans hf
  have hg' : (Op.run (.dequeueTask pid) s.pidToSlot rq).slotGet s.pidToSlot pid = some { t with onRq := false } := by
    refine (slotGet_dequeueTask rq s.pidToSlot pid pid).trans ?_
    rw [if_pos rfl, hg]
    rfl
  rw [evict_waiting hq hcurr, takeFrom_some dequeued_up] at h
  rcases put_eq_some h with ⟨rfl, hput⟩ | ⟨hc, h⟩
  · obtain rfl : _ = rq' := (congrArg (fun r => r.2.1) (removeTask_some hg')).symm.trans hput
    refine ⟨rq, hq, ?_, fun level => ?_⟩
    · refine (unqueue_frame _ _).2.2.1.trans ?_
      exact (sameCpu_run _).idle
    · -- the mark is gone, so only `dequeue_task` has touched the levels
      exact (hs.queue c rq hq).dequeueTask_queues hg level
  · have h' : s.runQueues c = some rq' := (put_ne s _ hc).symm.trans h
    refine ⟨rq', h', rfl, fun level => ?_⟩
    refine (List.filter_eq_self.mpr (fun p hp => ?_)).symm
    refine bne_iff_ne.mpr (fun he => ?_)
    obtain ⟨u, hu, -⟩ := (hs.queue c rq' h').of_mem (q := .rt level) hp
    rw [he, ← find_eq h', hs.elsewhere hq hf hne hc] at hu
    cases hu

/-- The state of `set_affinity` once the mask is written. -/
def masked (s : Scheduler) (cpu : Nat) (rq : RunQueue) (pid : Pid) (mask : CpuSet) : Scheduler :=
  s.put cpu (Op.run (.setTaskAffinity pid mask) s.pidToSlot rq)

theorem Sound.masked (hs : Sound strict s) (hq : s.runQueues cpu = some rq) (pid : Pid) (mask : CpuSet) :
    Sound strict (s.masked cpu rq pid mask) := hs.op hq (.setTaskAffinity pid mask) trivial nofun

theorem masked_up {mask : CpuSet} :
    (s.masked cpu rq pid mask).runQueues cpu = some (Op.run (.setTaskAffinity pid mask) s.pidToSlot rq) :=
  put_self s cpu _

theorem find_masked (hq : s.runQueues cpu = some rq) (pid : Pid) (mask : CpuSet) (c : Nat) (p : Pid) :
    (s.masked cpu rq pid mask).find c p =
      if c = cpu ∧ p = pid then (s.find c p).map (fun t => { t with cpuAffinity := mask }) else s.find c p :=
  find_put_task hq (slotGet_modify (f := fun t => { t with cpuAffinity := mask }) (fun _ _ => rfl)) c p

/-- Where `set_affinity` puts the task that it has taken off its CPU. -/
def rehome (thisCpu : Nat) (load : Nat → Nat) (now : Nat) : Option Task × Scheduler → Scheduler
  | (none, s) => s
  | (some t, s) => s.addTaskToCpu t (s.selectTaskRq thisCpu load t) now

/-- **`set_affinity`** writes the mask. Where the mask excludes the CPU, it then asks the CPU to reschedule if the
    task is running, and moves the task if it is not. -/
theorem Sound.setAffinity_cases (hs : Sound strict s) (hq : s.runQueues cpu = some rq) (hne : pid ≠ rq.idle)
    (thisCpu : Nat) (mask : CpuSet) (load : Nat → Nat) (now : Nat) :
    (s.setAffinity thisCpu cpu pid mask load now = s.masked cpu rq pid mask ∧
        (mask.isSet cpu = true ∨ s.find cpu pid = none)) ∨
      (mask.isSet cpu = false ∧ rq.curr = some pid ∧ s.setAffinity thisCpu cpu pid mask load now =
        (s.masked cpu rq pid mask).put cpu
          { Op.run (.setTaskAffinity pid mask) s.pidToSlot rq with needResched := true }) ∨
      ∃ t, mask.isSet cpu = false ∧ rq.curr ≠ some pid ∧ s.find cpu pid = some t ∧
        TakenOff strict s pid { t with cpuAffinity := mask } ((s.masked cpu rq pid mask).evict cpu pid) ∧
        s.setAffinity thisCpu cpu pid mask load now =
          ((s.masked cpu rq pid mask).evict cpu pid).2.addTaskToCpu { t with cpuAffinity := mask, onRq := false }
            (s.selectTaskRq thisCpu load { t with cpuAffinity := mask }) now := by
  have hcurr' : (Op.run (.setTaskAffinity pid mask) s.pidToSlot rq).curr = rq.curr := curr_run _
  have hidle' : (Op.run (.setTaskAffinity pid mask) s.pidToSlot rq).idle = rq.idle := (sameCpu_run _).idle
  have hdef : s.setAffinity thisCpu cpu pid mask load now = if mask.isSet cpu then s.masked cpu rq pid mask
      else rehome thisCpu load now ((s.masked cpu rq pid mask).evict cpu pid) := by
    unfold setAffinity
    simp only [hq]
    rfl
  have hfind := find_masked hq pid mask cpu pid
  rw [if_pos ⟨rfl, rfl⟩] at hfind
  rw [hdef]
  by_cases hmask : mask.isSet cpu = true
  · rw [if_pos hmask]
    exact .inl ⟨rfl, .inl hmask⟩
  have hmask' := (Bool.not_eq_true _).mp hmask
  rw [if_neg hmask]
  have hne' : ∀ rq', (s.masked cpu rq pid mask).runQueues cpu = some rq' → pid ≠ rq'.idle := by
    intro rq' h
    rw [masked_up] at h
    cases h
    rw [hidle']
    exact hne
  rcases (hs.masked hq pid mask).evict_cases hne' with
    ⟨hnone, hev⟩ | ⟨rq', hq', hcurr, hev⟩ | ⟨rq', u, hq', hcurr, hu, htaken⟩
  · rw [hfind, map_eq_none_iff] at hnone
    rw [hev]
    exact .inl ⟨rfl, .inr hnone⟩
  · rw [masked_up] at hq'
    cases hq'
    rw [hev]
    exact .inr (.inl ⟨hmask', hcurr'.symm.trans hcurr, rfl⟩)
  rw [masked_up] at hq'
  cases hq'
  rw [hfind] at hu
  obtain ⟨t, ht, rfl⟩ := map_eq_some_iff.mp hu
  have hdest : ((s.masked cpu rq pid mask).evict cpu pid).2.selectTaskRq thisCpu load
      { t with cpuAffinity := mask, onRq := false } =
      s.selectTaskRq thisCpu load { t with cpuAffinity := mask } := by
    unfold selectTaskRq
    rw [htaken.activeCpus]
    rfl
  refine .inr (.inr ⟨t, hmask', fun h => hcurr (hcurr'.trans h), ht,
    htaken.back rfl (sameCurr_put hq hcurr' hidle') rfl rfl (fun c p hp => ?_), ?_⟩)
  · rw [find_masked hq, if_neg (fun h => hp h.2)]
  have hfst := htaken.fst
  generalize (s.masked cpu rq pid mask).evict cpu pid = e at hfst hdest ⊢
  obtain ⟨o, s'⟩ := e
  cases hfst
  rw [rehome, ← hdest]

end Scheduler

/-- What an action needs of the machine. -/
def Action.Orderly (strict : Prop) (s : Scheduler) : Action → Prop
  | .initCpu _ _ => True
  | .op cpu o => ∀ rq, s.runQueues cpu = some rq → o.Orderly strict s.pidToSlot rq ∧ o.repolicied ≠ some rq.idle
  | .addTask t cpu _ => s.Admits strict t cpu
  | .removeTask cpu pid =>
    ∀ rq, s.runQueues cpu = some rq → pid ≠ rq.idle ∧
      (strict → ∀ t, s.find cpu pid = some t → t.onRq = true → t.policy ≠ .idle)
  | .steal _ _ => True
  | .evict _ cpu pid _ => ∀ rq, s.runQueues cpu = some rq → pid ≠ rq.idle
  | .land i _ =>
    ∀ dest t rq, s.moving[i]? = some (dest, t) → s.runQueues dest = some rq →
      (strict → rq.HasRoom t) ∧ (t.pid = rq.idle → t.policy = .idle)
  | .setAffinity thisCpu cpu pid mask load _ =>
    ∀ rq, s.runQueues cpu = some rq → pid ≠ rq.idle ∧
      ∀ t rq', s.find cpu pid = some t → mask.isSet cpu = false → rq.curr ≠ some pid →
        s.runQueues (s.selectTaskRq thisCpu load { t with cpuAffinity := mask }) = some rq' →
          (strict → rq'.RoomBeside t) ∧ (pid = rq'.idle → t.policy = .idle)

namespace Scheduler

variable {strict : Prop} {s s' : Scheduler} {cpu : Nat} {t : Task}

/-- The task that `set_affinity` moves is welcome where it goes. -/
theorem Sound.admits_moved (hs : Sound strict s) {thisCpu cpu : Nat} {pid : Pid} {mask : CpuSet} {load : Nat → Nat}
    {rq : RunQueue} {t : Task} {now : Nat} (hq : s.runQueues cpu = some rq)
    (ho : (Action.setAffinity thisCpu cpu pid mask load now).Orderly strict s) (hmask : mask.isSet cpu = false)
    (hcurr : rq.curr ≠ some pid) (hf : s.find cpu pid = some t)
    (htaken : TakenOff strict s pid { t with cpuAffinity := mask } ((s.masked cpu rq pid mask).evict cpu pid)) :
    Admits strict ((s.masked cpu rq pid mask).evict cpu pid).2 { t with cpuAffinity := mask, onRq := false }
      (s.selectTaskRq thisCpu load { t with cpuAffinity := mask }) := by
  obtain ⟨hne, hroom⟩ := ho rq hq
  have hpid := find_pid hf
  have habs : ∀ c, ((s.masked cpu rq pid mask).evict cpu pid).2.find c t.pid = none := by
    intro c
    rw [htaken.find, if_pos hpid]
  have hf' : (s.masked cpu rq pid mask).find cpu pid = some { t with cpuAffinity := mask } := by
    rw [find_masked hq, if_pos ⟨rfl, rfl⟩, hf]
    rfl
  -- a queue after the task has left, and the queue it was before
  have hback : ∀ rq', ((s.masked cpu rq pid mask).evict cpu pid).2.runQueues
      (s.selectTaskRq thisCpu load { t with cpuAffinity := mask }) = some rq' →
      ∃ rq0, s.runQueues (s.selectTaskRq thisCpu load { t with cpuAffinity := mask }) = some rq0 ∧ rq'.idle = rq0.idle ∧
        ∀ level, rq'.rtRq.queues level = (rq0.rtRq.queues level).filter (fun p => p != pid) := by
    intro rq' h
    obtain ⟨rq1, h1, hidle, hlevels⟩ := (hs.masked hq pid mask).evicted_queues masked_up hf'
      (by rw [(RunQueue.sameCpu_run _).idle]; exact hne)
      (by rw [RunQueue.curr_run]; exact hcurr) h
    unfold Scheduler.masked at h1
    by_cases hc : s.selectTaskRq thisCpu load { t with cpuAffinity := mask } = cpu
    · rw [hc, put_self] at h1
      cases h1
      refine ⟨rq, by rw [hc]; exact hq, hidle.trans (RunQueue.sameCpu_run _).idle, fun level => ?_⟩
      rw [hlevels]
      have hrt : (Op.run (.setTaskAffinity pid mask) s.pidToSlot rq).rtRq = rq.rtRq := RunQueue.modify_rtRq
      rw [hrt]
    · rw [put_ne _ _ hc] at h1
      exact ⟨rq1, h1, hidle, hlevels⟩
  have hlt : t.pid < MAX_PIDS := pid_lt hf
  refine ⟨hlt, rfl, ?_, habs _, fun hst rq' h => ?_, fun rq' h he => ?_, fun rq' c rq'' u _ _ hu => ?_⟩
  · rw [htaken.moving]
    intro m hm he
    exact hs.not_moving hf m hm (he.trans hpid)
  · obtain ⟨rq0, h0, -, hlevels⟩ := hback rq' h
    intro hrt
    have hlen := ((hroom t rq0 hf hmask hcurr h0).1 hst) hrt
    rw [hpid] at hlen
    rw [hlevels]
    exact hlen
  · obtain ⟨rq0, h0, hidle, -⟩ := hback rq' h
    exact (hroom t rq0 hf hmask hcurr h0).2 (by rw [← hpid, ← hidle]; exact he)
  · rw [habs] at hu
    cases hu

/-- A task in motion is welcome where it goes. -/
theorem Sound.admits_landed (hs : Sound strict s) {i now dest : Nat} {t : Task}
    (ho : (Action.land i now).Orderly strict s) (hm : s.moving[i]? = some (dest, t)) :
    Admits strict { s with moving := s.moving.eraseIdx i } t dest := by
  obtain ⟨hlt, hoff, hgone⟩ := hs.moving _ (List.mem_of_getElem? hm)
  refine ⟨hlt, hoff, hs.dropped_ne hm, hgone dest, fun hst rq hq => (ho dest t rq hm hq).1 hst,
    fun rq hq => (ho dest t rq hm hq).2, fun rq c rq' u _ _ hu => ?_⟩
  have hnone : s.find c t.pid = some u := hu
  rw [hgone c] at hnone
  cases hnone

/-- Whom an action takes off a CPU to put them in motion, and where they go. -/
inductive Carries (s : Scheduler) : Action → Nat → RunQueue → Task → Nat → Prop
  | stolen {victimCpu myCpu : Nat} {rq : RunQueue} {t : Task} (h : rq.stealable myCpu t = true) :
      Carries s (.steal victimCpu myCpu) victimCpu rq t myCpu
  | evicted {thisCpu cpu : Nat} {load : Nat → Nat} {rq : RunQueue} {t : Task} (h : rq.curr ≠ some t.pid) :
      Carries s (.evict thisCpu cpu t.pid load) cpu rq t (s.selectTaskRq thisCpu load t)

/-- Whom an action adds to a CPU. -/
inductive Brings (s : Scheduler) : Action → Nat → Task → Prop
  | added {t : Task} {cpu now : Nat} : Brings s (.addTask t cpu now) cpu t
  | landed {i now dest : Nat} {t : Task} (h : s.moving[i]? = some (dest, t)) : Brings s (.land i now) dest t

/-- What an action other than a lock section does to the tasks on the CPUs and to those in motion. -/
inductive Change (s : Scheduler) (a : Action) (s' : Scheduler) : Prop where
  | quiet (hfind : ∀ c p, s'.find c p = s.find c p) (hmoving : ∀ m ∈ s'.moving, m ∈ s.moving)
  | removed {cpu : Nat} {pid : Pid} {rq : RunQueue} {t : Task} (ha : a = .removeTask cpu pid)
      (hq : s.runQueues cpu = some rq) (hne : pid ≠ rq.idle) (hf : s.find cpu pid = some t)
      (hfind : ∀ c p, s'.find c p = if p = pid then none else s.find c p) (hmoving : s'.moving = s.moving)
  | carried {cpu dest : Nat} {rq : RunQueue} {t : Task} (ha : Carries s a cpu rq t dest)
      (hq : s.runQueues cpu = some rq) (hne : t.pid ≠ rq.idle) (hf : s.find cpu t.pid = some t)
      (hfind : ∀ c p, s'.find c p = if p = t.pid then none else s.find c p)
      (hmoving : s'.moving = s.moving ++ [(dest, { t with onRq := false })])
  | brought {cpu : Nat} {t : Task} (ha : Brings s a cpu t) (hnew : s.find cpu t.pid = none)
      (hfind : ∀ c p, ¬(c = cpu ∧ p = t.pid) → s'.find c p = s.find c p)
      (harr : ∀ u, s'.find cpu t.pid = some u → Arrived t u) (hmoving : ∀ m ∈ s'.moving, m ∈ s.moving)
  | masked {thisCpu cpu : Nat} {pid : Pid} {mask : CpuSet} {load : Nat → Nat} {now : Nat} {rq : RunQueue}
      (ha : a = .setAffinity thisCpu cpu pid mask load now) (hq : s.runQueues cpu = some rq)
      (hstay : mask.isSet cpu = true ∨ rq.curr = some pid ∨ s.find cpu pid = none)
      (hfind : ∀ c p, s'.find c p =
        if c = cpu ∧ p = pid then (s.find c p).map (fun t => { t with cpuAffinity := mask }) else s.find c p)
      (hmoving : s'.moving = s.moving)
  | moved {thisCpu cpu : Nat} {pid : Pid} {mask : CpuSet} {load : Nat → Nat} {now : Nat} {rq : RunQueue} {t : Task}
      (ha : a = .setAffinity thisCpu cpu pid mask load now) (hq : s.runQueues cpu = some rq) (hne : pid ≠ rq.idle)
      (hf : s.find cpu pid = some t) (hmask : mask.isSet cpu = false) (hcurr : rq.curr ≠ some pid)
      (hfind : ∀ c p, p ≠ pid → s'.find c p = s.find c p)
      (harr : ∀ c u, s'.find c pid = some u →
        c = s.selectTaskRq thisCpu load { t with cpuAffinity := mask } ∧ Arrived { t with cpuAffinity := mask } u)
      (hmoving : s'.moving = s.moving)

/-- A step is a lock section, or it leaves the current tasks of the CPUs alone. -/
inductive Effect (s : Scheduler) (a : Action) (s' : Scheduler) : Prop where
  | ran {cpu : Nat} {o : Op} {rq : RunQueue} (ha : a = .op cpu o) (hq : s.runQueues cpu = some rq)
      (hs : s' = s.put cpu (o.run s.pidToSlot rq))
  | changed (ha : ∀ c o, a ≠ .op c o) (hsame : SameCurr s s') (h : Change s a s')

@[simp] theorem addTaskToCpu_moving (s : Scheduler) (t : Task) (cpu now : Nat) :
    (s.addTaskToCpu t cpu now).moving = s.moving := by
  unfold addTaskToCpu
  split <;> rfl

/-- The task that is added is there afterwards, or lost. -/
theorem Sound.find_added (hs : Sound strict s) (ha : Admits strict s t cpu) (now : Nat) :
    (∀ c p, ¬(c = cpu ∧ p = t.pid) → (s.addTaskToCpu t cpu now).find c p = s.find c p) ∧
      ∀ u, (s.addTaskToCpu t cpu now).find cpu t.pid = some u → Arrived t u := by
  rcases hs.find_add ha now with hlost | ⟨rq, slot, rest, v, -, -, -, harr, hadd⟩
  · rw [hlost]
    refine ⟨fun c p _ => rfl, fun u hu => ?_⟩
    cases ha.new.symm.trans hu
  refine ⟨fun c p hne => (hadd c p).trans (if_neg hne), fun u hu => ?_⟩
  rw [hadd, if_pos ⟨rfl, rfl⟩] at hu
  cases hu
  exact harr

/-- An action that finds nothing to do. -/
theorem Sound.nothing (hs : Sound strict s) {a : Action} (ha : ∀ c o, a ≠ .op c o) : Sound strict s ∧ Effect s a s :=
  ⟨hs, .changed ha (SameCurr.refl s) (.quiet (fun _ _ => rfl) (fun _ hm => hm))⟩

section

variable {a : Action} (hs : Sound strict s) (ho : a.Orderly strict s) (h : s.step a = some s')
include hs ho h

/-- The task leaves its CPU, or the running one is flagged to leave. -/
theorem Sound.effect_evict {thisCpu : Nat} {pid : Pid} {load : Nat → Nat} (ha : a = .evict thisCpu cpu pid load) :
    Sound strict s' ∧ Effect s a s' := by
  subst ha
  simp only [step] at h
  rcases hs.evict_cases ho with ⟨-, hev⟩ | ⟨rq, hq, -, hev⟩ | ⟨rq, t, hq, hcurr, hf, htaken⟩
  · rw [hev] at h
    cases h
    exact hs.nothing nofun
  · rw [hev] at h
    cases h
    exact ⟨hs.flag hq, .changed nofun (sameCurr_put hq rfl rfl) (.quiet (find_flag hq) (fun _ hm => hm))⟩
  have hne := ho rq hq
  have hfst := htaken.fst
  have hactive := htaken.activeCpus
  generalize s.evict cpu pid = e at h htaken hfst hactive
  obtain ⟨o, s1⟩ := e
  cases hfst
  cases h
  obtain rfl := find_pid hf
  refine ⟨(htaken.carry hs hf _).hinted _, .changed nofun htaken.same
    (.carried (.evicted hcurr) hq hne hf htaken.find ?_)⟩
  have hdest : s1.selectTaskRq thisCpu load { t with onRq := false } = s.selectTaskRq thisCpu load t := by
    unfold selectTaskRq
    rw [hactive]
  rw [← htaken.moving, ← hdest]

/-- The task gets its mask, and moves if the mask leaves its CPU out. -/
theorem Sound.effect_setAffinity {thisCpu now : Nat} {pid : Pid} {mask : CpuSet} {load : Nat → Nat}
    (ha : a = .setAffinity thisCpu cpu pid mask load now) : Sound strict s' ∧ Effect s a s' := by
  subst ha
  cases h
  cases hq : s.runQueues cpu with
  | none =>
    unfold setAffinity
    rw [hq]
    exact hs.nothing nofun
  | some rq =>
    have hne := (ho rq hq).1
    have hmasked := hs.masked hq pid mask
    have hsame : SameCurr s (s.masked cpu rq pid mask) :=
      sameCurr_put hq (RunQueue.curr_run _) (RunQueue.sameCpu_run _).idle
    rcases hs.setAffinity_cases hq hne thisCpu mask load now with
      ⟨he, hwhy⟩ | ⟨-, hcurr, he⟩ | ⟨t, hmask, hcurr, hf, htaken, he⟩
    · rw [he]
      refine ⟨hmasked, .changed nofun hsame (.masked rfl hq ?_ (find_masked hq pid mask) rfl)⟩
      exact hwhy.imp_right .inr
    · rw [he]
      refine ⟨hmasked.flag masked_up, .changed nofun (hsame.trans (sameCurr_put masked_up rfl rfl))
        (.masked rfl hq (.inr (.inl hcurr)) (fun c p => ?_) rfl)⟩
      rw [find_flag masked_up, find_masked hq]
    have hadmits := hs.admits_moved hq ho hmask hcurr hf htaken
    rw [he]
    refine ⟨htaken.sound.add hadmits now, .changed nofun (htaken.same.trans (sameCurr_addTaskToCpu _ _ _ _)) ?_⟩
    obtain ⟨hfind, harr⟩ := htaken.sound.find_added hadmits now
    have hpid : t.pid = pid := find_pid hf
    refine .moved rfl hq hne hf hmask hcurr (fun c p hp => ?_) (fun c u hu => ?_) ?_
    · rw [hfind c p (fun h => hp (h.2.trans hpid)), htaken.find, if_neg hp]
    · by_cases hc : c = s.selectTaskRq thisCpu load { t with cpuAffinity := mask }
      · subst hc
        have harr := harr u (hpid ▸ hu)
        exact ⟨rfl, harr.pid, harr.onRq, harr.state, harr.policy, harr.cpuAffinity⟩
      · rw [hfind c pid (fun h => hc h.1), htaken.find, if_pos rfl] at hu
        cases hu
    · rw [addTaskToCpu_moving]
      exact htaken.moving

/-- **Every orderly step keeps the machine sound**, and what it does to the tasks. -/
theorem Sound.effect : Sound strict s' ∧ Effect s a s' := by
  cases a with
  | initCpu cpu idle =>
    simp only [step] at h
    split at h
    next hnone =>
      have hdown := Option.isNone_iff_eq_none.mp hnone
      cases h
      obtain ⟨hsound, hfind⟩ := hs.initCpu hdown idle
      refine ⟨hsound, .changed nofun (fun c rq hq => ?_) (.quiet hfind (fun _ hm => hm))⟩
      have hc : c ≠ cpu := fun he => by rw [he, hdown] at hq; cases hq
      exact ⟨rq, (put_ne s _ hc).trans hq, rfl, rfl⟩
    · cases h
  | op cpu o =>
    obtain ⟨rq, hq, rfl⟩ := Option.map_eq_some_iff.mp h
    obtain ⟨ho, hpol⟩ := ho rq hq
    exact ⟨hs.op hq o ho hpol, .ran rfl hq rfl⟩
  | addTask t cpu now =>
    cases h
    exact ⟨hs.add ho now, .changed nofun (sameCurr_addTaskToCpu s t cpu now)
      (.brought .added ho.new (hs.find_added ho now).1 (hs.find_added ho now).2 (by simp))⟩
  | removeTask cpu pid =>
    cases h
    cases hf : s.find cpu pid with
    | none =>
      rw [takeFrom_none hf]
      exact ⟨hs.hinted _, .changed nofun (SameCurr.refl s) (.quiet (fun _ _ => rfl) (fun _ hm => hm))⟩
    | some t =>
      obtain ⟨rq, hq, -⟩ := Option.bind_eq_some_iff.mp hf
      obtain ⟨hne, hmark⟩ := ho rq hq
      have htaken := hs.takenOff hq hf hne (fun hst => hmark hst t hf)
      exact ⟨htaken.sound.hinted _, .changed nofun htaken.same (.removed rfl hq hne hf htaken.find htaken.moving)⟩
  | steal victimCpu myCpu =>
    simp only [step] at h
    rcases hs.steal_cases victimCpu myCpu with hsteal | ⟨rq, t, hq, hf, hst, hne, htaken⟩
    · rw [hsteal] at h
      cases h
      exact hs.nothing nofun
    have hfst := htaken.fst
    generalize s.steal victimCpu myCpu = e at h htaken hfst
    obtain ⟨o, s1⟩ := e
    cases hfst
    cases h
    exact ⟨htaken.carry hs hf myCpu, .changed nofun htaken.same
      (.carried (.stolen hst) hq hne hf htaken.find (by rw [← htaken.moving]))⟩
  | evict => exact hs.effect_evict ho h rfl
  | land i now =>
    simp only [step] at h
    split at h
    · cases h
    rename_i dest t hm
    cases h
    have hadmits := hs.admits_landed ho hm
    obtain ⟨hfind, harr⟩ := (hs.drop i).find_added hadmits now
    refine ⟨(hs.drop i).add hadmits now, .changed nofun
      (sameCurr_addTaskToCpu { s with moving := s.moving.eraseIdx i } t dest now)
      (.brought (.landed hm) hadmits.new hfind harr (fun m hm => ?_))⟩
    rw [addTaskToCpu_moving] at hm
    exact List.mem_of_mem_eraseIdx hm
  | setAffinity => exact hs.effect_setAffinity ho h rfl

theorem Sound.step :
    Sound strict s' := (hs.effect ho h).1

end

end Scheduler

/-! ## Runs on two CPUs -/

section

open Option

variable {strict : Prop} {s s' : Scheduler} {a : Action}

/-- What must hold of the value of an option can be tested. -/
scoped instance decidableForallSome {α : Type} (o : Option α) (p : α → Prop) [DecidablePred p] :
    Decidable (∀ a, o = some a → p a) := inferInstanceAs (Decidable (∀ a ∈ o, p a))

instance (rq : RunQueue) (pts : PidToSlot) (pid : Pid) : Decidable (rq.Fits pts pid) :=
  inferInstanceAs (Decidable (∀ t, rq.slotGet pts pid = some t → t.onRq = false → rq.HasRoom t))

instance (rq : RunQueue) (t : Task) : Decidable (rq.RoomBeside t) := inferInstanceAs (Decidable (_ → _))

instance (pts : PidToSlot) (rq : RunQueue) (o : Op) : Decidable (o.Orderly True pts rq) :=
  match o with
  | .enqueueTask _ | .putPrevTask _ | .wake _ _ _ | .undoPickNext _ _ | .contextSwitch _ _ _ _ =>
    inferInstanceAs (Decidable (True → rq.Fits pts _))
  | .yieldCurrent | .pickNextTask _ | .switchTo _ _ =>
    inferInstanceAs (Decidable (True → ∀ prev, rq.curr = some prev → rq.Fits pts prev))
  | .setScheduler _ _ _ =>
    inferInstanceAs (Decidable (True → ∀ t, rq.slotGet pts _ = some t → t.onRq = true → rq.RoomBeside _))
  | .setTaskPolicy _ _ | .setTaskRtPriority _ _ =>
    inferInstanceAs (Decidable (∀ t, rq.slotGet pts _ = some t → t.onRq = true → _ = _))
  | .dequeueTask _ | .blockCurrent _ | .schedulerTick _ _ | .setTaskNice _ _ | .setTaskAffinity _ _
  | .setTaskExitStatus _ _ | .setTaskWaiting _ _ | .clearTaskWaiting _ => .isTrue trivial

theorem Op.Orderly.of_true {pts : PidToSlot} {rq : RunQueue} {o : Op} (h : o.Orderly True pts rq) :
    o.Orderly strict pts rq := by
  cases o
  all_goals
    first
      | exact h
      | exact fun _ => h trivial

/-- What an action needs on a machine with CPUs 0 and 1. This can be tested, where `Action.Orderly` asks all CPUs
    whether they know a pid. -/
def Action.Tested (s : Scheduler) : Action → Prop
  | .initCpu cpu _ => cpu < 2
  | .op cpu o => ∀ rq, s.runQueues cpu = some rq → o.Orderly True s.pidToSlot rq ∧ o.repolicied ≠ some rq.idle
  | .addTask t cpu _ =>
    t.pid < MAX_PIDS ∧ t.onRq = false ∧ s.moving = [] ∧ (∀ c < 2, (s.find c t.pid).isNone = true) ∧
      ∀ rq, s.runQueues cpu = some rq → t.pid ≠ rq.idle ∧ rq.HasRoom t
  | .steal _ _ => True
  | .setAffinity thisCpu cpu pid mask load _ =>
    ∀ rq, s.runQueues cpu = some rq → pid ≠ rq.idle ∧ ∀ t, s.find cpu pid = some t →
      ∀ rq', s.runQueues (s.selectTaskRq thisCpu load { t with cpuAffinity := mask }) = some rq' →
        rq'.RoomBeside t ∧ pid ≠ rq'.idle
  | _ => False

instance (s : Scheduler) (a : Action) : Decidable (a.Tested s) :=
  match a with
  | .initCpu _ _ => inferInstanceAs (Decidable (_ < 2))
  | .op cpu _ => inferInstanceAs (Decidable (∀ rq, s.runQueues cpu = some rq → _ ∧ _))
  | .addTask t cpu _ =>
    have : Decidable (s.moving = []) := decidable_of_iff (s.moving.isEmpty = true) List.isEmpty_iff
    inferInstanceAs (Decidable (_ ∧ _ ∧ _ ∧ (∀ c < 2, (s.find c t.pid).isNone = true) ∧
      ∀ rq, s.runQueues cpu = some rq → _ ∧ _))
  | .steal _ _ => .isTrue trivial
  | .setAffinity thisCpu cpu pid mask load _ =>
    inferInstanceAs (Decidable (∀ rq, s.runQueues cpu = some rq → _ ∧ ∀ t, s.find cpu pid = some t → ∀ rq',
      s.runQueues (s.selectTaskRq thisCpu load { t with cpuAffinity := mask }) = some rq' → _ ∧ _))
  | .removeTask _ _ | .evict _ _ _ _ | .land _ _ => .isFalse id

/-- No CPU from 2 on is up. -/
def Scheduler.TwoUp (s : Scheduler) : Prop := ∀ c, 2 ≤ c → s.runQueues c = none

theorem Action.Tested.orderly (hup : s.TwoUp) (h : a.Tested s) : a.Orderly strict s := by
  cases a with
  | initCpu | steal => trivial
  | op cpu o => exact fun rq hq => ⟨(h rq hq).1.of_true, (h rq hq).2⟩
  | addTask t cpu now =>
    obtain ⟨hpid, hoff, hmoving, hnew, hroom⟩ := h
    have hnone : ∀ c, s.find c t.pid = none := by
      intro c
      by_cases hc : c < 2
      · exact isNone_iff_eq_none.mp (hnew c hc)
      · unfold Scheduler.find
        rw [hup c (not_lt.mp hc)]
        rfl
    refine ⟨hpid, hoff, fun m hm => ?_, hnone cpu, fun _ rq hq => (hroom rq hq).2,
      fun rq hq he => absurd he (hroom rq hq).1, fun rq c rq' u _ _ hu => ?_⟩
    · rw [hmoving] at hm
      cases hm
    · rw [hnone c] at hu
      cases hu
  | setAffinity thisCpu cpu pid mask load now =>
    refine fun rq hq => ⟨(h rq hq).1, fun t rq' ht _ _ hq' => ?_⟩
    obtain ⟨hroom, hne⟩ := (h rq hq).2 t ht rq' hq'
    exact ⟨fun _ => hroom, fun he => absurd he hne⟩
  | _ => exact h.elim

namespace Scheduler

/-- A CPU that is down stays so. -/
def Down (s s' : Scheduler) : Prop := ∀ c, s.runQueues c = none → s'.runQueues c = none

theorem down_put {cpu : Nat} {rq : RunQueue} (hq : s.runQueues cpu = some rq) (rq' : RunQueue) :
    Down s (s.put cpu rq') := by
  intro c hc
  have hne : c ≠ cpu := by
    rintro rfl
    cases hc.symm.trans hq
  exact (Function.update_of_ne hne ..).trans hc

theorem down_addTaskToCpu (t : Task) (cpu now : Nat) : Down s (s.addTaskToCpu t cpu now) := by
  unfold addTaskToCpu
  split
  · exact fun _ => id
  next hq => exact down_put hq _

theorem down_evict (cpu : Nat) (pid : Pid) : Down s (s.evict cpu pid).2 := by
  unfold evict takeFrom
  split
  · exact fun _ => id
  next hq =>
    split
    · exact down_put hq _
    split
    · exact down_put hq _
    next hq' => exact fun c hc => down_put hq' _ c (down_put hq _ c hc)

theorem down_steal (victimCpu myCpu : Nat) : Down s (s.steal victimCpu myCpu).2 := by
  unfold steal
  split
  · exact fun _ => id
  next hq => exact down_put hq _

theorem TwoUp.step (hup : s.TwoUp) (ha : a.Tested s) (h : s.step a = some s') : s'.TwoUp := by
  have hdown : (∀ cpu idle, a ≠ .initCpu cpu idle) → Down s s' := by
    intro hne
    cases a with
    | initCpu cpu idle => exact absurd rfl (hne cpu idle)
    | op cpu o =>
      obtain ⟨rq, hq, rfl⟩ := map_eq_some_iff.mp h
      exact down_put hq _
    | addTask t cpu now =>
      cases h
      exact down_addTaskToCpu t cpu now
    | steal victimCpu myCpu =>
      have hsteal := down_steal (s := s) victimCpu myCpu
      simp only [Scheduler.step] at h
      generalize s.steal victimCpu myCpu = r at hsteal h
      obtain ⟨_ | t, s1⟩ := r
      all_goals
        cases h
        exact hsteal
    | setAffinity thisCpu cpu pid mask load now =>
      cases h
      unfold setAffinity
      split
      · exact fun _ => id
      next rq hq =>
        dsimp only
        split
        · exact down_put hq _
        intro c hc
        have hevict := down_evict cpu pid c (down_put hq (Op.run (.setTaskAffinity pid mask) s.pidToSlot rq) c hc)
        generalize (s.put cpu _).evict cpu pid = r at hevict ⊢
        obtain ⟨_ | t, s1⟩ := r
        · exact hevict
        · exact down_addTaskToCpu t _ now c hevict
    | _ => exact ha.elim
  cases a with
  | initCpu cpu idle =>
    simp only [Scheduler.step] at h
    split at h
    · cases h
      exact fun c hc => (Function.update_of_ne (by have hlt : cpu < 2 := ha; omega) ..).trans (hup c hc)
    · cases h
  | _ => exact fun c hc => hdown nofun c (hup c hc)

/-- A run on two CPUs whose steps pass a test is a run whose steps meet the condition that the test is for. -/
theorem reach_tested {ok : Scheduler → Action → Prop} (test : Scheduler → Action → Prop) [∀ s a, Decidable (test s a)]
    (hok : ∀ s a, (∀ strict, a.Orderly strict s) → test s a → ok s a)
    {p : Scheduler → Prop} [DecidablePred p] (as : List Action)
    (h : (Run.exec step (fun s a => a.Tested s ∧ test s a) init as).any p = true) :
    ∃ s, Run.Reach step ok (fun s => s = init) s ∧ p s := by
  obtain ⟨s, hs, hp⟩ : ∃ s, Run.Reach step (fun s a => a.Tested s ∧ test s a) (fun s => s = init) s ∧ p s :=
    Run.Reach.exists_exec as rfl h
  refine ⟨s, (?_ : s.TwoUp ∧ _).2, hp⟩
  clear hp
  induction hs with
  | start h0 => exact ⟨h0 ▸ fun _ _ => rfl, .start h0⟩
  | next _ ha hstep ih => exact ⟨ih.1.step ha.1 hstep, ih.2.next (hok _ _ (fun _ => ha.1.orderly ih.1) ha.2) hstep⟩

end Scheduler

end

namespace Scheduler

variable {s : Scheduler}

/-- **A task is in one place** in every state of an orderly run: no pid but an idle task's is on two CPUs, and none
    that is on its way between CPUs is on one. -/
theorem task_in_one_place (h : Run.Reach step (Action.Orderly False) (fun s => s = init) s) :
    (∀ c c' p rq t t', s.runQueues c = some rq → s.find c p = some t → s.find c' p = some t' → c = c' ∨ p = rq.idle) ∧
      (∀ m ∈ s.moving, ∀ c, s.find c m.2.pid = none) ∧ (s.moving.map (fun m => m.2.pid)).Nodup := by
  have hs : Sound False s := Run.Steps.invariant (Sound False) (fun _ _ _ hs => hs.step) h (sound_init False)
  exact ⟨hs.alone, fun m hm => (hs.moving m hm).2.2, hs.movingNodup⟩

/-- Of three tasks on CPU 0 one runs, and one is on its way to CPU 1, which has stolen it. -/
theorem task_in_one_place_stolen : ∃ s, Run.Reach step (Action.Orderly False) (fun s => s = init) s ∧
    s.moving.map (fun m => (m.1, m.2.pid)) = [(1, 6)] ∧ (s.find 0 5).isSome = true ∧ (s.find 0 7).isSome = true ∧
    ∀ c, s.find c 6 = none := by
  obtain ⟨s, hs, hmoving, hfive, hseven⟩ : ∃ s, Run.Reach step (Action.Orderly False) (fun s => s = init) s ∧
      s.moving.map (fun m => (m.1, m.2.pid)) = [(1, 6)] ∧ (s.find 0 5).isSome = true ∧ (s.find 0 7).isSome = true :=
    reach_tested (fun _ _ => True) (fun _ _ h _ => h False)
      [.initCpu 0 0, .initCpu 1 1, .addTask (Task.new 5) 0 0, .addTask (Task.new 6) 0 0, .addTask (Task.new 7) 0 0,
        .op 0 (.pickNextTask 0), .steal 0 1] (by decide +kernel)
  refine ⟨s, hs, hmoving, hfive, hseven, fun c => ?_⟩
  have hmem : (1, 6) ∈ s.moving.map (fun m => (m.1, m.2.pid)) := hmoving ▸ List.mem_singleton_self _
  obtain ⟨m, hm, he⟩ := List.mem_map.mp hmem
  have hpid : m.2.pid = 6 := congrArg Prod.snd he
  exact hpid ▸ (task_in_one_place hs).2.1 m hm c

/-! ## Entry points that look for their task -/

/-- Nothing happens, or one wake section. -/
def Woken (s : Scheduler) (pid : Pid) (s' : Scheduler) : Prop :=
  s' = s ∨ ∃ cpu always refresh, s.step (.op cpu (.wake pid always refresh)) = some s'

/-- A scan with wake sections is at most one of them. -/
theorem firstOf_wake {pid : Pid} {scan : List (Nat × (RunQueue → Option RunQueue))}
    (hscan : ∀ p ∈ scan, ∃ always refresh, p.2 = fun rq => rq.wake s.pidToSlot pid always refresh) :
    s.Woken pid (s.firstOf scan).1 := by
  induction scan with
  | nil => exact .inl rfl
  | cons first rest ih =>
    obtain ⟨⟨always, refresh, hfirst⟩, hrest⟩ := List.forall_mem_cons.mp hscan
    unfold firstOf
    split
    next rq' h =>
      obtain ⟨rq, hq, hf⟩ := Option.bind_eq_some_iff.mp h
      simp only [hfirst] at hf
      exact .inr ⟨first.1, always, refresh, by simp [step, Op.run, hq, hf]⟩
    · exact ih hrest

/-- **`wake_up`** is at most one wake section. -/
theorem wakeUp_step (s : Scheduler) (thisCpu : Nat) (pid : Pid) : s.Woken pid (s.wakeUp thisCpu pid) := by
  refine firstOf_wake (List.forall_mem_cons.mpr ⟨⟨_, _, rfl⟩, List.forall_mem_append.mpr ⟨?_, ?_⟩⟩)
  all_goals exact List.forall_mem_map.mpr (fun _ _ => ⟨_, _, rfl⟩)

/-- **`try_wake_up`** is at most one wake section. -/
theorem tryWakeUp_step (s : Scheduler) (thisCpu : Nat) (contended : Nat → Bool) (pid : Pid) :
    s.Woken pid (s.tryWakeUp thisCpu contended pid).1 := by
  refine firstOf_wake (fun p hp => ?_)
  replace hp := (List.takeWhile_sublist _).mem hp
  revert p
  refine List.forall_mem_cons.mpr ⟨⟨_, _, rfl⟩, List.forall_mem_append.mpr ⟨?_, ?_⟩⟩
  all_goals exact List.forall_mem_map.mpr (fun _ _ => ⟨_, _, rfl⟩)

end Scheduler
end OxideOs.Sched

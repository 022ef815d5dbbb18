import OxideOs.Sched.Core

/-!
# `Sched.Queued` — which task is on which queue

Membership in a queue is stored twice: as the mark `on_rq` of the task and as the entry in a class queue.
`due` reads it off the task, `members` off the queues, and `Coherent` compares the two. A full real-time level
drops tasks, so in general a queue holds at most what the marks say; `Coherent` takes a proposition `strict`
under which it holds exactly that. This module proves what each primitive of a run queue does to `Coherent`.
-/

namespace OxideOs.Sched

open Function List Option RtRunQueue Bool CfsRunQueue

/-- The queues of a CPU: one for each real-time level, and the fair one. -/
inductive QueueId where
  | rt (level : Nat)
  | fair
  deriving DecidableEq

/-- The queue a task's policy and priority name. The idle policy has none. -/
def Task.home (t : Task) : Option QueueId :=
  if t.policy.isRealtime then some (.rt (priorityToIndex t.rtPriority))
  else if t.policy.isFair then some .fair
  else none

theorem Task.home_realtime {t : Task} (h : t.policy.isRealtime = true) :
    t.home = some (.rt (priorityToIndex t.rtPriority)) := if_pos h

theorem Task.home_fair {t : Task} (h : t.policy.isFair = true) : t.home = some .fair := by
  unfold home
  cases hp : t.policy <;> rw [hp] at h <;> first | rfl | cases h

theorem Task.home_eq_none {t : Task} : t.home = none ↔ t.policy = .idle := by
  unfold home
  cases t.policy <;> simp [SchedPolicy.isRealtime, SchedPolicy.isFair]

/-- How often a task should occur in a queue, by its own marks. -/
def Task.due (t : Task) (q : QueueId) : Nat := if t.onRq = true ∧ t.home = some q then 1 else 0

theorem Task.due_off {t : Task} (q : QueueId) (h : t.onRq = false) : t.due q = 0 := by
  unfold due
  rw [if_neg (by simp [h])]

namespace RunQueue

/-- The tasks a queue holds. -/
def members (rq : RunQueue) : QueueId → List Pid
  | .rt level => rq.rtRq.queues level
  | .fair => rq.cfsRq.tasks

/-- How often a pid should occur in a queue. -/
def due (rq : RunQueue) (pts : PidToSlot) (pid : Pid) (q : QueueId) : Nat :=
  ((rq.slotGet pts pid).map (fun t => t.due q)).getD 0

/-! ## Lookups -/

section Lookups

variable {rq : RunQueue} {pts : PidToSlot} {pid : Pid} {q : QueueId} {t : Task}

theorem slotGet_eq_some : rq.slotGet pts pid = some t ↔
      pid < MAX_PIDS ∧ pts pid < MAX_TASKS_PER_RQ ∧ rq.slots (pts pid) = some t ∧ t.pid = pid := by
  unfold slotGet
  by_cases h1 : MAX_PIDS ≤ pid
  · rw [if_pos h1]
    exact ⟨nofun, (fun h => absurd h.1 (not_lt.mpr h1))⟩
  rw [if_neg h1]
  by_cases h2 : MAX_TASKS_PER_RQ ≤ pts pid
  · rw [if_pos h2]
    exact ⟨nofun, (fun h => absurd h.2.1 (not_lt.mpr h2))⟩
  · rw [if_neg h2, filter_eq_some_iff, beq_iff_eq]
    exact ⟨fun h => ⟨not_le.mp h1, not_le.mp h2, h.1, h.2⟩, fun h => h.2.2⟩

theorem slotGet_pid (h : rq.slotGet pts pid = some t) : t.pid = pid := (slotGet_eq_some.mp h).2.2.2

theorem slotGet_congr {rq' : RunQueue} (h : rq'.slots = rq.slots) : rq'.slotGet pts pid = rq.slotGet pts pid := by
  unfold slotGet
  rw [h]

theorem due_none (h : rq.slotGet pts pid = none) : rq.due pts pid q = 0 := by
  unfold due
  rw [h]
  rfl

theorem due_some (h : rq.slotGet pts pid = some t) : rq.due pts pid q = t.due q := by
  unfold due
  rw [h]
  rfl

theorem due_le_one : rq.due pts pid q ≤ 1 := by
  cases h : rq.slotGet pts pid with
  | none => rw [due_none h]; exact Nat.zero_le 1
  | some t =>
    rw [due_some h]
    unfold Task.due
    split <;> omega

/-- Only a task that is here, marked, and of this queue is due in it. -/
theorem due_pos (h : 0 < rq.due pts pid q) : ∃ t, rq.slotGet pts pid = some t ∧ t.onRq = true ∧ t.home = some q := by
  cases hg : rq.slotGet pts pid with
  | none =>
    rw [due_none hg] at h
    exact absurd h (lt_irrefl 0)
  | some t =>
    rw [due_some hg] at h
    unfold Task.due at h
    split at h
    next hc =>
      exact ⟨t, rfl, hc.1, hc.2⟩
    · exact absurd h (lt_irrefl 0)

theorem modify_none (f : Task → Task) (h : rq.slotGet pts pid = none) : rq.modify pts pid f = rq := by
  unfold modify
  rw [h]

theorem modify_some (f : Task → Task) (h : rq.slotGet pts pid = some t) :
    rq.modify pts pid f = { rq with slots := update rq.slots (pts pid) (some (f t)) } := by
  unfold modify
  rw [h]

/-- A pid that has a task in the slot neither before nor after does not see the write. -/
theorem slotGet_update {rq' : RunQueue} {pts' : PidToSlot} {i : Nat} {o : Option Task}
    (hslots : rq'.slots = update rq.slots i o) (hpts : pts' pid = pts pid)
    (hold : ∀ u, rq.slots i = some u → u.pid ≠ pid) (hnew : ∀ u, o = some u → u.pid ≠ pid) :
    rq'.slotGet pts' pid = rq.slotGet pts pid := by
  ext u
  rw [slotGet_eq_some, slotGet_eq_some, hpts, hslots]
  by_cases hs : pts pid = i
  · rw [hs, update_self]
    exact ⟨fun h => absurd h.2.2.2 (hnew u h.2.2.1), fun h => absurd h.2.2.2 (hold u h.2.2.1)⟩
  · rw [update_of_ne hs]

/-- Writing to one task changes the lookup of that task only. -/
theorem slotGet_modify {f : Task → Task} (hf : ∀ t, rq.slotGet pts pid = some t → (f t).pid = t.pid) (p : Pid) :
    (rq.modify pts pid f).slotGet pts p = if p = pid then (rq.slotGet pts pid).map f else rq.slotGet pts p := by
  cases hg : rq.slotGet pts pid with
  | none =>
    rw [modify_none f hg]
    by_cases hp : p = pid
    · subst hp
      rw [if_pos rfl, hg]
      rfl
    · rw [if_neg hp]
  | some t =>
    obtain ⟨h1, h2, h3, h4⟩ := slotGet_eq_some.mp hg
    rw [modify_some f hg]
    by_cases hp : p = pid
    · subst hp
      rw [if_pos rfl]
      exact slotGet_eq_some.mpr ⟨h1, h2, update_self _ _ _, (hf t hg).trans h4⟩
    rw [if_neg hp]
    refine slotGet_update rfl rfl (fun u hu => ?_) (fun u hu => ?_)
    · rw [h3] at hu
      cases hu
      exact fun h => hp (h.symm.trans h4)
    · cases hu
      exact fun h => hp (h.symm.trans ((hf t hg).trans h4))

theorem modify_modify {f g : Task → Task} (hf : ∀ t, rq.slotGet pts pid = some t → (f t).pid = t.pid) :
    (rq.modify pts pid f).modify pts pid g = rq.modify pts pid (fun t => g (f t)) := by
  cases hg : rq.slotGet pts pid with
  | none => rw [modify_none f hg, modify_none g hg, modify_none _ hg]
  | some t =>
    have hget : (rq.modify pts pid f).slotGet pts pid = some (f t) := by
      rw [slotGet_modify hf, if_pos rfl, hg]
      rfl
    rw [modify_some g hget, modify_some f hg, modify_some _ hg]
    simp

end Lookups

/-! ## The comparison -/

/-- The marks of the tasks and the contents of the queues agree; under `strict` exactly, else up to tasks that
    a full level dropped. -/
structure Coherent (strict : Prop) (pts : PidToSlot) (rq : RunQueue) : Prop where
  seat : ∀ i t, rq.slots i = some t → i < MAX_TASKS_PER_RQ ∧ t.pid < MAX_PIDS ∧ pts t.pid = i
  freeNodup : rq.freeStack.Nodup
  free : ∀ i, i ∈ rq.freeStack → i < MAX_TASKS_PER_RQ ∧ rq.slots i = none
  rt : rq.rtRq.Wf
  most : ∀ q pid, (rq.members q).count pid ≤ rq.due pts pid q
  least : strict → ∀ q pid, rq.due pts pid q ≤ (rq.members q).count pid
  fairCount : strict → rq.cfsRq.nrRunning = rq.cfsRq.heap.length
  total : strict → rq.nrRunning = rq.rtRq.nrRunning + rq.cfsRq.nrRunning

theorem coherent_new (strict : Prop) (pts : PidToSlot) (cpu : Nat) (idle : Pid) :
    Coherent strict pts (RunQueue.new cpu idle) := by
  have hfree : (new cpu idle).freeStack = range MAX_TASKS_PER_RQ := by
    simp [new]
  refine ⟨nofun, ?_, fun i hi => ?_, wf_new, fun q pid => ?_, fun _ q pid => ?_,
    fun _ => rfl, fun _ => rfl⟩
  · rw [hfree]
    exact nodup_range
  · rw [hfree] at hi
    exact ⟨mem_range.mp hi, rfl⟩
  · cases q <;> exact Nat.zero_le _
  have hg : (new cpu idle).slotGet pts pid = none := by
    by_contra hne
    obtain ⟨t, ht⟩ := ne_none_iff_exists'.mp hne
    cases (slotGet_eq_some.mp ht).2.2.1
  rw [due_none hg]
  exact Nat.zero_le _

variable {strict : Prop} {pts : PidToSlot} {rq rq' : RunQueue} {pid : Pid} {t : Task}

section

variable (hc : Coherent strict pts rq)
include hc

/-- What is not compared may change freely. -/
theorem Coherent.congr (hslots : rq'.slots = rq.slots)
    (hfree : rq'.freeStack = rq.freeStack) (hrt : rq'.rtRq = rq.rtRq) (hheap : rq'.cfsRq.heap = rq.cfsRq.heap)
    (hnr : rq'.cfsRq.nrRunning = rq.cfsRq.nrRunning) (htot : rq'.nrRunning = rq.nrRunning) :
    Coherent strict pts rq' := by
  have hm : ∀ q, rq'.members q = rq.members q := by
    intro q
    cases q with
    | rt level => show rq'.rtRq.queues level = _; rw [hrt]; rfl
    | fair => show rq'.cfsRq.heap.map _ = _; rw [hheap]; rfl
  have hd : ∀ p q, rq'.due pts p q = rq.due pts p q := by
    intro p q
    unfold due
    rw [slotGet_congr hslots]
  refine ⟨by rw [hslots]; exact hc.seat, by rw [hfree]; exact hc.freeNodup, ?_, by rw [hrt]; exact hc.rt,
    fun q p => ?_, fun hs q p => ?_, fun hs => ?_, fun hs => ?_⟩
  · rw [hfree, hslots]
    exact hc.free
  · rw [hm, hd]
    exact hc.most q p
  · rw [hm, hd]
    exact hc.least hs q p
  · rw [hnr, hheap]
    exact hc.fairCount hs
  · rw [htot, hrt, hnr]
    exact hc.total hs

/-- A task in a slot is the one its pid finds. -/
theorem Coherent.lookup {i : Nat} (h : rq.slots i = some t) : rq.slotGet pts t.pid = some t := by
  obtain ⟨h1, h2, h3⟩ := hc.seat i t h
  exact slotGet_eq_some.mpr ⟨h2, by rw [h3]; exact h1, by rw [h3]; exact h, rfl⟩

/-- Whoever is in a queue is a task of this CPU, marked, in the queue of its policy, and only once. -/
theorem Coherent.of_mem {q : QueueId} (h : pid ∈ rq.members q) :
    ∃ t, rq.slotGet pts pid = some t ∧ t.onRq = true ∧ t.home = some q :=
  due_pos (lt_of_lt_of_le (count_pos_iff.mpr h) (hc.most q pid))

/-- A task that is not marked is in no queue. -/
theorem Coherent.not_mem {q : QueueId} (hg : rq.slotGet pts pid = some t)
    (hoff : t.onRq = false) : pid ∉ rq.members q := by
  intro hmem
  obtain ⟨u, hu, hon, -⟩ := hc.of_mem hmem
  rw [hg] at hu
  cases hu
  rw [hoff] at hon
  cases hon

/-- **One task and its own entries change.** The frame of every primitive below: the task of `pid` becomes
    `t'`, the other pids keep their places in every queue. -/
theorem Coherent.rewrite (hg : rq.slotGet pts pid = some t) (t' : Task)
    (hpid : t'.pid = t.pid) (hslots : rq'.slots = update rq.slots (pts pid) (some t'))
    (hfree : rq'.freeStack = rq.freeStack) (hrt : rq'.rtRq.Wf)
    (hother : ∀ q p, p ≠ pid → (rq'.members q).count p = (rq.members q).count p)
    (hmost : ∀ q, (rq'.members q).count pid ≤ t'.due q) (hleast : strict → ∀ q, t'.due q ≤ (rq'.members q).count pid)
    (hfair : strict → rq'.cfsRq.nrRunning = rq'.cfsRq.heap.length)
    (htotal : strict → rq'.nrRunning = rq'.rtRq.nrRunning + rq'.cfsRq.nrRunning) : Coherent strict pts rq' := by
  rw [slotGet_pid hg] at hpid
  obtain ⟨h1, h2, h3, -⟩ := slotGet_eq_some.mp hg
  have hget : ∀ p, rq'.slotGet pts p = if p = pid then some t' else rq.slotGet pts p := by
    intro p
    have hm := @slotGet_modify rq pts pid (fun _ => t') (fun u hu => hpid.trans (slotGet_pid hu).symm) p
    rw [modify_some _ hg, hg] at hm
    exact (slotGet_congr hslots).trans hm
  have hdue : ∀ q p, p ≠ pid → rq'.due pts p q = rq.due pts p q := by
    intro q p hp
    unfold due
    rw [hget p, if_neg hp]
  have hself : ∀ q, rq'.due pts pid q = t'.due q := fun q => due_some (by rw [hget, if_pos rfl])
  refine ⟨fun i u hu => ?_, by rw [hfree]; exact hc.freeNodup, fun i hi => ?_, hrt, fun q p => ?_,
    fun hs q p => ?_, hfair, htotal⟩
  · rw [hslots] at hu
    by_cases hi : i = pts pid
    · subst hi
      rw [update_self] at hu
      cases hu
      rw [hpid]
      exact ⟨h2, h1, rfl⟩
    · rw [update_of_ne hi] at hu
      exact hc.seat i u hu
  · rw [hfree] at hi
    obtain ⟨hlt, hnone⟩ := hc.free i hi
    have hne : i ≠ pts pid := by
      rintro rfl
      rw [h3] at hnone
      cases hnone
    rw [hslots, update_of_ne hne]
    exact ⟨hlt, hnone⟩
  · by_cases hp : p = pid
    · subst hp
      rw [hself]
      exact hmost q
    · rw [hother q p hp, hdue q p hp]
      exact hc.most q p
  · by_cases hp : p = pid
    · subst hp
      rw [hself]
      exact hleast hs q
    · rw [hother q p hp, hdue q p hp]
      exact hc.least hs q p

/-- Writing to a task is harmless as long as a marked task keeps its queue. -/
theorem Coherent.modify (pid : Pid) {f : Task → Task} (hpid : ∀ t, rq.slotGet pts pid = some t → (f t).pid = t.pid)
    (hon : ∀ t, rq.slotGet pts pid = some t → (f t).onRq = t.onRq)
    (hhome : ∀ t, rq.slotGet pts pid = some t → t.onRq = true → (f t).home = t.home) :
    Coherent strict pts (rq.modify pts pid f) := by
  cases hg : rq.slotGet pts pid with
  | none =>
    rw [modify_none f hg]
    exact hc
  | some t =>
    have hdue : ∀ q, (f t).due q = t.due q := by
      intro q
      unfold Task.due
      rw [hon t hg]
      by_cases h : t.onRq = true
      · rw [hhome t hg h]
      · rw [if_neg (fun hx => h hx.1), if_neg (fun hx => h hx.1)]
    rw [modify_some f hg]
    refine hc.rewrite hg _ (hpid t hg) rfl rfl hc.rt (fun _ _ _ => rfl) (fun q => ?_)
      (fun hs q => ?_) hc.fairCount hc.total
    · rw [hdue, ← due_some hg]
      exact hc.most q pid
    · rw [hdue, ← due_some hg]
      exact hc.least hs q pid

end

/-! ## Enqueueing -/

theorem isRealtime_of_fair {p : SchedPolicy} (h : p.isFair = true) : p.isRealtime = false := by
  revert h
  cases p <;> decide

theorem enqueueTask_none (hg : rq.slotGet pts pid = none) : rq.enqueueTask pts pid = rq := by
  unfold enqueueTask
  rw [hg]

section

variable (hg : rq.slotGet pts pid = some t)
include hg

theorem enqueueTask_marked (hon : t.onRq = true) : rq.enqueueTask pts pid = rq := by
  unfold enqueueTask
  simp [hg, hon]

theorem enqueueTask_realtime (hoff : t.onRq = false) (hrt : t.policy.isRealtime = true) :
    rq.enqueueTask pts pid =
      { rq with
        rtRq := rq.rtRq.enqueue pid t.rtPriority,
        nrRunning := rq.nrRunning + 1,
        slots := update rq.slots (pts pid) (some { t with onRq := true }) } := by
  unfold enqueueTask
  simp only [hg, hoff, hrt]
  exact modify_some _ hg

theorem enqueueTask_fair (hoff : t.onRq = false) (hfair : t.policy.isFair = true) :
    rq.enqueueTask pts pid =
      { rq with
        cfsRq := (rq.cfsRq.enqueue pid t.vruntime t.weight).1,
        nrRunning := rq.nrRunning + 1,
        slots := update rq.slots (pts pid)
          (some { t with vruntime := (rq.cfsRq.enqueue pid t.vruntime t.weight).2, onRq := true }) } := by
  have hrt := isRealtime_of_fair hfair
  unfold enqueueTask
  simp only [hg, hoff, hrt, hfair]
  refine (modify_modify ?_).trans (modify_some _ hg)
  intro _ _
  rfl

theorem enqueueTask_idle (hoff : t.onRq = false) (hidle : t.policy = .idle) :
    rq.enqueueTask pts pid =
      { rq with slots := update rq.slots (pts pid) (some { t with onRq := true }) } := by
  have hrt : t.policy.isRealtime = false := hidle ▸ rfl
  have hfair : t.policy.isFair = false := hidle ▸ rfl
  unfold enqueueTask
  simp only [hg, hoff, hrt, hfair]
  exact modify_some _ hg

end

/-- There is room in the level of a real-time task. -/
def HasRoom (rq : RunQueue) (t : Task) : Prop :=
  t.policy.isRealtime = true → (rq.rtRq.queues (priorityToIndex t.rtPriority)).length < MAX_RT_PER_PRIO

instance (rq : RunQueue) (t : Task) : Decidable (rq.HasRoom t) := by
  delta HasRoom
  infer_instance

/-- **A heap never fills up.** The queued tasks sit in different slots, and the one that is about to be queued
    sits in one of its own. -/
theorem Coherent.heap_room (hc : Coherent strict pts rq) (hg : rq.slotGet pts pid = some t)
    (hoff : t.onRq = false) : rq.cfsRq.heap.length < MAX_CFS_TASKS := by
  have hslot : ∀ p ∈ pid :: rq.cfsRq.tasks, pts p < MAX_TASKS_PER_RQ ∧ ∃ u, rq.slots (pts p) = some u ∧ u.pid = p := by
    intro p hp
    have hex : ∃ u, rq.slotGet pts p = some u := by
      rcases mem_cons.mp hp with rfl | hp
      · exact ⟨t, hg⟩
      · obtain ⟨u, hu, -⟩ := hc.of_mem (q := .fair) hp
        exact ⟨u, hu⟩
    obtain ⟨u, hu⟩ := hex
    obtain ⟨-, h2, h3, h4⟩ := slotGet_eq_some.mp hu
    exact ⟨h2, u, h3, h4⟩
  have hnd : (pid :: rq.cfsRq.tasks).Nodup := by
    refine nodup_cons.mpr ⟨hc.not_mem (q := .fair) hg hoff, nodup_iff_count_le_one.mpr (fun p => ?_)⟩
    exact (hc.most .fair p).trans due_le_one
  have hinj : ((pid :: rq.cfsRq.tasks).map pts).Nodup := by
    refine hnd.map_on (fun p hp p' hp' he => ?_)
    obtain ⟨-, u, hu, hup⟩ := hslot p hp
    obtain ⟨-, u', hu', hup'⟩ := hslot p' hp'
    rw [he, hu'] at hu
    cases hu
    exact hup.symm.trans hup'
  have hsub : (pid :: rq.cfsRq.tasks).map pts ⊆ range MAX_TASKS_PER_RQ := by
    intro i hi
    obtain ⟨p, hp, rfl⟩ := mem_map.mp hi
    exact mem_range.mpr (hslot p hp).1
  have hle := (subperm_of_subset hinj hsub).length_le
  have hlen : rq.cfsRq.tasks.length = rq.cfsRq.heap.length := length_map _
  simp only [length_map, length_cons, length_range] at hle
  unfold MAX_CFS_TASKS
  unfold MAX_TASKS_PER_RQ at hle
  omega

theorem Task.due_home {q : QueueId} (hon : t.onRq = true) (hhome : t.home = some q) (q' : QueueId) :
    t.due q' = if q' = q then 1 else 0 := by
  unfold Task.due
  rw [hhome]
  by_cases h : q' = q
  · rw [if_pos h, if_pos ⟨hon, by rw [h]⟩]
  · rw [if_neg h, if_neg (fun hx => h (some.inj hx.2).symm)]

section

variable (hc : Coherent strict pts rq)
include hc

section

variable (hg : rq.slotGet pts pid = some t)
include hg

section

variable (hoff : t.onRq = false)
include hoff

/-- A task that was in no queue gets its mark and its entry. -/
theorem Coherent.join (t' : Task) (hpid : t'.pid = t.pid) (hon : t'.onRq = true) (q0 : QueueId)
    (hhome : t'.home = some q0)
    (hslots : rq'.slots = update rq.slots (pts pid) (some t')) (hfree : rq'.freeStack = rq.freeStack)
    (hrt : rq'.rtRq.Wf)
    (hcount : ∀ q p, (rq'.members q).count p = (rq.members q).count p + if p = pid ∧ q = q0 then 1 else 0)
    (hfair : strict → rq'.cfsRq.nrRunning = rq'.cfsRq.heap.length)
    (htotal : strict → rq'.nrRunning = rq'.rtRq.nrRunning + rq'.cfsRq.nrRunning) : Coherent strict pts rq' := by
  have hnew : ∀ q, (rq'.members q).count pid = t'.due q := by
    intro q
    rw [hcount, count_eq_zero.mpr (hc.not_mem hg hoff), Task.due_home hon hhome]
    simp
  refine hc.rewrite hg t' hpid hslots hfree hrt (fun q p hp => ?_) (fun q => (hnew q).le)
    (fun _ q => (hnew q).ge) hfair htotal
  rw [hcount, if_neg (fun hx => hp hx.1), add_zero]

theorem Coherent.enqueue_realtime (hrt : t.policy.isRealtime = true) (hroom : strict → rq.HasRoom t) :
    Coherent strict pts (rq.enqueueTask pts pid) := by
  rw [enqueueTask_realtime hg hoff hrt]
  by_cases hfull : (rq.rtRq.queues (priorityToIndex t.rtPriority)).length < MAX_RT_PER_PRIO
  · refine hc.join hg hoff { t with onRq := true } rfl rfl _ (Task.home_realtime hrt) rfl rfl
      (hc.rt.enqueue _ _) (fun q p => ?_) hc.fairCount (fun hs => ?_)
    · cases q with
      | fair => rw [if_neg (by simp)]; rfl
      | rt level =>
        show ((rq.rtRq.enqueue pid t.rtPriority).queues level).count p = (rq.rtRq.queues level).count p + _
        rw [enqueue_room hfull]
        by_cases hl : level = priorityToIndex t.rtPriority
        · subst hl
          by_cases hp : p = pid
          · simp [hp]
          · simp [hp, Ne.symm hp]
        · rw [update_of_ne hl, if_neg (fun hx => hl (QueueId.rt.inj hx.2))]
          rfl
    · show rq.nrRunning + 1 = (rq.rtRq.enqueue pid t.rtPriority).nrRunning + rq.cfsRq.nrRunning
      rw [enqueue_nrRunning hfull, hc.total hs]
      omega
  · -- the level is full and drops the task, which strictness excludes
    rw [enqueue_full hfull]
    refine hc.rewrite hg { t with onRq := true } rfl rfl rfl hc.rt (fun _ _ _ => rfl) (fun q => ?_)
      (fun hs => absurd (hroom hs hrt) hfull) hc.fairCount (fun hs => absurd (hroom hs hrt) hfull)
    show (rq.members q).count pid ≤ _
    rw [count_eq_zero.mpr (hc.not_mem hg hoff)]
    exact Nat.zero_le _

theorem Coherent.enqueue_fair (hfair : t.policy.isFair = true) : Coherent strict pts (rq.enqueueTask pts pid) := by
  have hlen := hc.heap_room hg hoff
  have hperm : ((rq.cfsRq.enqueue pid t.vruntime t.weight).1.tasks).Perm (pid :: rq.cfsRq.tasks) := enqueue_tasks hlen
  rw [enqueueTask_fair hg hoff hfair]
  refine hc.join hg hoff { t with vruntime := (rq.cfsRq.enqueue pid t.vruntime t.weight).2, onRq := true }
    rfl rfl .fair (Task.home_fair hfair) rfl rfl hc.rt (fun q p => ?_) (fun hs => ?_) (fun hs => ?_)
  · cases q with
    | rt level => rw [if_neg (by simp)]; rfl
    | fair =>
      show (rq.cfsRq.enqueue pid t.vruntime t.weight).1.tasks.count p = rq.cfsRq.tasks.count p + _
      rw [hperm.count_eq]
      by_cases hp : p = pid
      · simp [hp]
      · simp [hp, Ne.symm hp]
  · show rq.cfsRq.nrRunning + 1 = (rq.cfsRq.enqueue pid t.vruntime t.weight).1.heap.length
    have hheap := hperm.length_eq
    rw [hc.fairCount hs]
    simpa [CfsRunQueue.tasks] using hheap.symm
  · show rq.nrRunning + 1 = rq.rtRq.nrRunning + (rq.cfsRq.nrRunning + 1)
    rw [hc.total hs]
    omega

/-- The idle policy has no queue; the task is marked only. -/
theorem Coherent.enqueue_idle (hidle : t.policy = .idle) : Coherent strict pts (rq.enqueueTask pts pid) := by
  have hzero : ∀ q, (rq.members q).count pid = 0 := fun q => count_eq_zero.mpr (hc.not_mem hg hoff)
  have hnone : ∀ q, ({ t with onRq := true } : Task).due q = 0 := by
    intro q
    have hhome : ({ t with onRq := true } : Task).home = none := Task.home_eq_none.mpr hidle
    unfold Task.due
    rw [hhome, if_neg (fun hx => by cases hx.2)]
  rw [enqueueTask_idle hg hoff hidle]
  refine hc.rewrite hg { t with onRq := true } rfl rfl rfl hc.rt (fun _ _ _ => rfl) (fun q => ?_)
    (fun _ q => ?_) hc.fairCount hc.total
  · exact (hzero q).trans_le (Nat.zero_le _)
  · exact (hnone q).trans_le (Nat.zero_le _)

end

end

end

theorem policy_cases (p : SchedPolicy) : p.isRealtime = true ∨ p.isFair = true ∨ p = .idle := by
  cases p <;> decide

/-- **`enqueue_task`** keeps the comparison, exactly when the level has room. -/
theorem Coherent.enqueueTask (hc : Coherent strict pts rq) (pid : Pid)
    (hroom : strict → ∀ t, rq.slotGet pts pid = some t → t.onRq = false → rq.HasRoom t) :
    Coherent strict pts (rq.enqueueTask pts pid) := by
  cases hg : rq.slotGet pts pid with
  | none =>
    rw [enqueueTask_none hg]
    exact hc
  | some t =>
    cases hon : t.onRq with
    | true =>
      rw [enqueueTask_marked hg hon]
      exact hc
    | false =>
      rcases policy_cases t.policy with hrt | hfair | hidle
      · exact hc.enqueue_realtime hg hon hrt (fun hs => hroom hs t hg hon)
      · exact hc.enqueue_fair hg hon hfair
      · exact hc.enqueue_idle hg hon hidle

/-! ## Dequeueing -/

theorem dequeueTask_none (hg : rq.slotGet pts pid = none) : rq.dequeueTask pts pid = rq := by
  unfold dequeueTask
  rw [hg]

section

variable (hg : rq.slotGet pts pid = some t)
include hg

theorem dequeueTask_unmarked (hoff : t.onRq = false) : rq.dequeueTask pts pid = rq := by
  unfold dequeueTask
  simp [hg, hoff]

theorem dequeueTask_realtime (hon : t.onRq = true) (hrt : t.policy.isRealtime = true) :
    rq.dequeueTask pts pid =
      { rq with
        rtRq := (rq.rtRq.dequeue pid t.rtPriority).1,
        nrRunning := rq.nrRunning - 1,
        slots := update rq.slots (pts pid) (some { t with onRq := false }) } := by
  unfold dequeueTask
  simp only [hg, hon, hrt]
  exact modify_some _ hg

theorem dequeueTask_fair (hon : t.onRq = true) (hfair : t.policy.isFair = true) :
    rq.dequeueTask pts pid =
      { rq with
        cfsRq := (rq.cfsRq.dequeue pid t.weight).1,
        nrRunning := rq.nrRunning - 1,
        slots := update rq.slots (pts pid) (some { t with onRq := false }) } := by
  have hrt := isRealtime_of_fair hfair
  unfold dequeueTask
  simp only [hg, hon, hrt, hfair]
  exact modify_some _ hg

theorem dequeueTask_idle (hon : t.onRq = true) (hidle : t.policy = .idle) :
    rq.dequeueTask pts pid =
      { rq with slots := update rq.slots (pts pid) (some { t with onRq := false }) } := by
  have hrt : t.policy.isRealtime = false := hidle ▸ rfl
  have hfair : t.policy.isFair = false := hidle ▸ rfl
  unfold dequeueTask
  simp only [hg, hon, hrt, hfair]
  exact modify_some _ hg

end

section

variable (hc : Coherent strict pts rq)
include hc

/-- A task loses its mark, and its entries are gone. -/
theorem Coherent.leave (hg : rq.slotGet pts pid = some t)
    (hslots : rq'.slots = update rq.slots (pts pid) (some { t with onRq := false }))
    (hfree : rq'.freeStack = rq.freeStack) (hrt : rq'.rtRq.Wf)
    (hother : ∀ q p, p ≠ pid → (rq'.members q).count p = (rq.members q).count p)
    (hgone : ∀ q, (rq'.members q).count pid = 0) (hfair : strict → rq'.cfsRq.nrRunning = rq'.cfsRq.heap.length)
    (htotal : strict → rq'.nrRunning = rq'.rtRq.nrRunning + rq'.cfsRq.nrRunning) : Coherent strict pts rq' := by
  refine hc.rewrite hg { t with onRq := false } rfl hslots hfree hrt hother (fun q => ?_) (fun _ q => ?_) hfair htotal
  · rw [hgone]
    exact Nat.zero_le _
  · rw [Task.due_off q rfl]
    exact Nat.zero_le _

/-- The entries of a marked task are those of its queue. -/
theorem Coherent.count_elsewhere (hg : rq.slotGet pts pid = some t) {q : QueueId}
    (h : t.home ≠ some q) : (rq.members q).count pid = 0 := by
  have hm := hc.most q pid
  rw [due_some hg, Task.due, if_neg (fun hx => h hx.2)] at hm
  omega

theorem Coherent.count_le_one (q : QueueId) (pid : Pid) :
    (rq.members q).count pid ≤ 1 := (hc.most q pid).trans due_le_one

/-- Under `strict` a marked task is in its queue. -/
theorem Coherent.mem_home (hs : strict) (hg : rq.slotGet pts pid = some t)
    (hon : t.onRq = true) {q : QueueId} (hhome : t.home = some q) : pid ∈ rq.members q := by
  have hl := hc.least hs q pid
  rw [due_some hg, Task.due, if_pos ⟨hon, hhome⟩] at hl
  exact count_pos_iff.mp hl

section

variable (hg : rq.slotGet pts pid = some t)
include hg

/-- Take a task out of the real-time level it is in. -/
theorem Coherent.take_realtime {level : Nat} {rest : List Pid} (hhome : t.home = some (.rt level))
    (hperm : (rq.rtRq.queues level).Perm (pid :: rest)) :
    Coherent strict pts { rq with
        rtRq := rq.rtRq.shrink level rest,
        nrRunning := rq.nrRunning - 1,
        slots := update rq.slots (pts pid) (some { t with onRq := false }) } := by
  refine hc.leave hg rfl rfl (hc.rt.shrink hperm) (fun q p hp => ?_) (fun q => ?_) hc.fairCount (fun hs => ?_)
  · cases q with
    | fair => rfl
    | rt l =>
      show (update rq.rtRq.queues level rest l).count p = (rq.rtRq.queues l).count p
      by_cases hl : l = level
      · subst hl
        rw [update_self, hperm.count_eq, count_cons_of_ne (symm hp)]
      · rw [update_of_ne hl]
  · cases q with
    | fair => exact hc.count_elsewhere (q := .fair) hg (by rw [hhome]; simp)
    | rt l =>
      show (update rq.rtRq.queues level rest l).count pid = 0
      by_cases hl : l = level
      · subst hl
        have hle : (rq.rtRq.queues l).count pid ≤ 1 := hc.count_le_one (.rt l) pid
        rw [hperm.count_eq, count_cons_self] at hle
        rw [update_self]
        omega
      · rw [update_of_ne hl]
        exact hc.count_elsewhere hg (by rw [hhome]; exact fun hx => hl (QueueId.rt.inj (some.inj hx)).symm)
  · have hmem : pid ∈ rq.rtRq.queues level := hperm.symm.subset (mem_cons_self ..)
    have hlt : level < RT_PRIO_LEVELS := by
      by_contra hge
      rw [hc.rt.levels level (not_lt.mp hge)] at hmem
      cases hmem
    have hpos : 0 < rq.rtRq.nrRunning := by
      rw [hc.rt.count]
      exact length_pos_of_mem (mem_flatMap.mpr ⟨level, mem_range.mpr hlt, hmem⟩)
    show rq.nrRunning - 1 = rq.rtRq.nrRunning - 1 + rq.cfsRq.nrRunning
    rw [hc.total hs]
    omega

/-- Take a task out of the fair queue. -/
theorem Coherent.take_fair (hhome : t.home = some .fair) {cfs' : CfsRunQueue}
    (hperm : rq.cfsRq.tasks.Perm (pid :: cfs'.tasks)) (hnr : cfs'.nrRunning = rq.cfsRq.nrRunning - 1) :
    Coherent strict pts { rq with
        cfsRq := cfs',
        nrRunning := rq.nrRunning - 1,
        slots := update rq.slots (pts pid) (some { t with onRq := false }) } := by
  have hlen : rq.cfsRq.heap.length = cfs'.heap.length + 1 := by
    have := hperm.length_eq
    simpa [CfsRunQueue.tasks] using this
  refine hc.leave hg rfl rfl hc.rt (fun q p hp => ?_) (fun q => ?_) (fun hs => ?_) (fun hs => ?_)
  · cases q with
    | rt level => rfl
    | fair =>
      show cfs'.tasks.count p = rq.cfsRq.tasks.count p
      rw [hperm.count_eq, count_cons_of_ne (symm hp)]
  · cases q with
    | rt level => exact hc.count_elsewhere (q := .rt level) hg (by rw [hhome]; simp)
    | fair =>
      have hle : rq.cfsRq.tasks.count pid ≤ 1 := hc.count_le_one .fair pid
      rw [hperm.count_eq, count_cons_self] at hle
      show cfs'.tasks.count pid = 0
      omega
  · show cfs'.nrRunning = cfs'.heap.length
    rw [hnr, hc.fairCount hs, hlen, Nat.add_sub_cancel]
  · show rq.nrRunning - 1 = rq.rtRq.nrRunning + cfs'.nrRunning
    have h1 := hc.fairCount hs
    have h2 := hc.total hs
    omega

/-- Take the mark of a task away that is in no queue: it was dropped by a full level, or has no queue. -/
theorem Coherent.take_absent (habs : ∀ q, t.home = some q → pid ∉ rq.members q) (nr : Nat)
    (hnr : strict → nr = rq.nrRunning) :
    Coherent strict pts { rq with
        nrRunning := nr,
        slots := update rq.slots (pts pid) (some { t with onRq := false }) } := by
  refine hc.leave hg rfl rfl hc.rt (fun _ _ _ => rfl) (fun q => ?_)
    hc.fairCount (fun hs => (hnr hs).trans (hc.total hs))
  by_cases hq : t.home = some q
  · exact count_eq_zero.mpr (habs q hq)
  · exact hc.count_elsewhere hg hq

theorem Coherent.dequeue_realtime (hon : t.onRq = true) (hrt : t.policy.isRealtime = true) :
    Coherent strict pts (rq.dequeueTask pts pid) := by
  have hhome := Task.home_realtime hrt
  rw [dequeueTask_realtime hg hon hrt]
  unfold RtRunQueue.dequeue
  by_cases hmem : pid ∈ rq.rtRq.queues (priorityToIndex t.rtPriority)
  · rw [if_pos hmem]
    exact hc.take_realtime hg hhome (perm_cons_erase hmem)
  rw [if_neg hmem]
  refine hc.take_absent hg (fun q hq => ?_) _ (fun hs => absurd (hc.mem_home hs hg hon hhome) hmem)
  rw [hhome] at hq
  cases hq
  exact hmem

theorem Coherent.dequeue_fair (hon : t.onRq = true) (hfair : t.policy.isFair = true) :
    Coherent strict pts (rq.dequeueTask pts pid) := by
  have hhome := Task.home_fair hfair
  rw [dequeueTask_fair hg hon hfair]
  by_cases hmem : pid ∈ rq.cfsRq.tasks
  · obtain ⟨hperm, hnr⟩ := @dequeue_tasks rq.cfsRq pid t.weight hmem
    exact hc.take_fair hg hhome hperm hnr
  rw [dequeue_of_not_mem hmem]
  refine hc.take_absent hg (fun q hq => ?_) _ (fun hs => absurd (hc.mem_home hs hg hon hhome) hmem)
  rw [hhome] at hq
  cases hq
  exact hmem

end

/-- **`dequeue_task`** keeps the comparison. -/
theorem Coherent.dequeueTask (pid : Pid) : Coherent strict pts (rq.dequeueTask pts pid) := by
  cases hg : rq.slotGet pts pid with
  | none =>
    rw [dequeueTask_none hg]
    exact hc
  | some t =>
    cases hon : t.onRq with
    | false =>
      rw [dequeueTask_unmarked hg hon]
      exact hc
    | true =>
      rcases policy_cases t.policy with hrt | hfair | hidle
      · exact hc.dequeue_realtime hg hon hrt
      · exact hc.dequeue_fair hg hon hfair
      rw [dequeueTask_idle hg hon hidle]
      refine hc.take_absent hg (fun q hq => ?_) _ (fun _ => rfl)
      rw [Task.home_eq_none.mpr hidle] at hq
      cases hq

end

/-- A write that changes nothing. -/
theorem modify_same {f : Task → Task} (hg : rq.slotGet pts pid = some t) (hf : f t = t) : rq.modify pts pid f = rq := by
  obtain ⟨-, -, hslot, -⟩ := slotGet_eq_some.mp hg
  rw [modify_some f hg, hf, ← hslot, update_eq_self]

/-- Besides its queues, `dequeue_task` only takes the mark from its task. -/
theorem dequeueTask_frame (rq : RunQueue) (pts : PidToSlot) (pid : Pid) :
    (rq.dequeueTask pts pid).slots = (rq.modify pts pid (fun t => { t with onRq := false })).slots ∧
      (rq.dequeueTask pts pid).cpu = rq.cpu ∧ (rq.dequeueTask pts pid).idle = rq.idle ∧
      (rq.dequeueTask pts pid).freeStack = rq.freeStack := by
  cases hg : rq.slotGet pts pid with
  | none =>
    rw [dequeueTask_none hg, modify_none _ hg]
    exact ⟨rfl, rfl, rfl, rfl⟩
  | some t =>
    cases hon : t.onRq with
    | false =>
      rw [dequeueTask_unmarked hg hon, modify_same hg (by rw [← hon])]
      exact ⟨rfl, rfl, rfl, rfl⟩
    | true =>
      rw [modify_some _ hg]
      rcases policy_cases t.policy with h | h | h
      · rw [dequeueTask_realtime hg hon h]
        exact ⟨rfl, rfl, rfl, rfl⟩
      · rw [dequeueTask_fair hg hon h]
        exact ⟨rfl, rfl, rfl, rfl⟩
      · rw [dequeueTask_idle hg hon h]
        exact ⟨rfl, rfl, rfl, rfl⟩

/-- After `dequeue_task` the task is as before, but not marked. -/
theorem slotGet_dequeueTask (rq : RunQueue) (pts : PidToSlot) (pid p : Pid) : (rq.dequeueTask pts pid).slotGet pts p =
      if p = pid then (rq.slotGet pts pid).map (fun t => { t with onRq := false }) else rq.slotGet pts p := by
  rw [slotGet_congr (dequeueTask_frame rq pts pid).1, slotGet_modify]
  intro _ _
  rfl

/-- Besides its queues, `enqueue_task` only marks its task, perhaps with more virtual run time. -/
theorem enqueueTask_frame (rq : RunQueue) (pts : PidToSlot) (pid : Pid) : ∃ v : Task → Nat,
    (rq.enqueueTask pts pid).slots = (rq.modify pts pid (fun t => { t with onRq := true, vruntime := v t })).slots ∧
      (rq.enqueueTask pts pid).cpu = rq.cpu ∧ (rq.enqueueTask pts pid).idle = rq.idle ∧
      (rq.enqueueTask pts pid).freeStack = rq.freeStack := by
  cases hg : rq.slotGet pts pid with
  | none =>
    refine ⟨Task.vruntime, ?_⟩
    rw [enqueueTask_none hg, modify_none _ hg]
    exact ⟨rfl, rfl, rfl, rfl⟩
  | some t =>
    cases hon : t.onRq with
    | true =>
      refine ⟨Task.vruntime, ?_⟩
      rw [enqueueTask_marked hg hon, modify_same hg (by rw [← hon])]
      exact ⟨rfl, rfl, rfl, rfl⟩
    | false =>
      simp only [modify_some _ hg]
      rcases policy_cases t.policy with h | h | h
      · rw [enqueueTask_realtime hg hon h]
        exact ⟨Task.vruntime, rfl, rfl, rfl, rfl⟩
      · rw [enqueueTask_fair hg hon h]
        exact ⟨fun u => (rq.cfsRq.enqueue pid u.vruntime u.weight).2, rfl, rfl, rfl, rfl⟩
      · rw [enqueueTask_idle hg hon h]
        exact ⟨Task.vruntime, rfl, rfl, rfl, rfl⟩

/-- After `enqueue_task` the task is as before, but marked, and perhaps with more virtual run time. -/
theorem slotGet_enqueueTask (rq : RunQueue) (pts : PidToSlot) (pid p : Pid) :
    ∃ v : Task → Nat, (rq.enqueueTask pts pid).slotGet pts p =
      if p = pid then (rq.slotGet pts pid).map (fun t => { t with onRq := true, vruntime := v t })
      else rq.slotGet pts p := by
  obtain ⟨v, hslots, -⟩ := enqueueTask_frame rq pts pid
  refine ⟨v, ?_⟩
  rw [slotGet_congr hslots, slotGet_modify]
  intro _ _
  rfl

/-! ## Popping -/

/-- **`pop_next_task`** answers the idle task when every queue is empty; else it takes a task out of the queue
    it is in, and takes its mark away. -/
theorem Coherent.popNextTask (hc : Coherent strict pts rq) :
    ((rq.popNextTask pts) = (rq.idle, rq) ∧ ∀ q, rq.members q = []) ∨
      ∃ pid t q, (rq.popNextTask pts).1 = pid ∧ rq.slotGet pts pid = some t ∧ t.onRq = true ∧
        t.home = some q ∧ pid ∈ rq.members q ∧ Coherent strict pts (rq.popNextTask pts).2 ∧
        (rq.popNextTask pts).2.curr = rq.curr ∧ (rq.popNextTask pts).2.cpu = rq.cpu ∧
        (rq.popNextTask pts).2.idle = rq.idle ∧
        (rq.popNextTask pts).2.slots = update rq.slots (pts pid) (some { t with onRq := false }) := by
  unfold RunQueue.popNextTask
  rcases hc.rt.popNext with ⟨hpop, hempty⟩ | ⟨level, pid, rest, hq, hpop⟩
  · rcases popNext_tasks rq.cfsRq
      (((rq.slotGet pts (rq.cfsRq.pickNext.getD 0)).map Task.weight).getD NICE_0_WEIGHT) with
      ⟨hpick, hheap⟩ | ⟨pid, cfs', hpick, hcpop, hperm, hnr⟩
    · refine .inl ⟨by simp [hpop, hpick], fun q => ?_⟩
      cases q with
      | rt level => exact hempty level
      | fair => exact map_eq_nil_iff.mpr hheap
    have hmem : pid ∈ rq.members .fair := hperm.symm.subset (mem_cons_self ..)
    obtain ⟨t, hg, hon, hhome⟩ := hc.of_mem hmem
    rw [hpick, getD_some] at hcpop
    refine .inr ⟨pid, t, .fair, ?_, hg, hon, hhome, hmem, ?_⟩
    · simp [hpop, hpick, hcpop]
    have hg' : slotGet { rq with cfsRq := cfs' } pts pid = some t := hg
    simp only [hpop, hpick, hcpop, modify_some _ hg']
    exact ⟨hc.take_fair hg hhome hperm hnr, trivial, trivial, trivial, trivial⟩
  · have hperm : (rq.rtRq.queues level).Perm (pid :: rest) := by rw [hq]
    have hmem : pid ∈ rq.members (.rt level) := hperm.symm.subset (mem_cons_self ..)
    obtain ⟨t, hg, hon, hhome⟩ := hc.of_mem hmem
    refine .inr ⟨pid, t, .rt level, ?_, hg, hon, hhome, hmem, ?_⟩
    · simp [hpop]
    have hg' : slotGet { rq with rtRq := rq.rtRq.shrink level rest } pts pid = some t := hg
    simp only [hpop, modify_some _ hg']
    exact ⟨hc.take_realtime hg hhome hperm, trivial, trivial, trivial, trivial⟩

/-! ## Adding and removing -/

theorem slotGet_eq_none (h : ∀ i u, rq.slots i = some u → u.pid ≠ pid) : rq.slotGet pts pid = none := by
  by_contra hne
  obtain ⟨u, hu⟩ := ne_none_iff_exists'.mp hne
  obtain ⟨-, -, hslot, hpid⟩ := slotGet_eq_some.mp hu
  exact h _ u hslot hpid

/-- Entries of the table may change for the pids that have no task here. -/
theorem Coherent.retarget (hc : Coherent strict pts rq) {pts' : PidToSlot}
    (h : ∀ p, pts' p = pts p ∨ ∀ i u, rq.slots i = some u → u.pid ≠ p) : Coherent strict pts' rq := by
  have hget : ∀ p, rq.slotGet pts' p = rq.slotGet pts p := by
    intro p
    rcases h p with he | hno
    · unfold slotGet
      rw [he]
    · rw [slotGet_eq_none hno, slotGet_eq_none hno]
  have hdue : ∀ p q, rq.due pts' p q = rq.due pts p q := by
    intro p q
    unfold due
    rw [hget]
  refine ⟨fun i u hu => ?_, hc.freeNodup, hc.free, hc.rt, fun q p => ?_, fun hs q p => ?_, hc.fairCount, hc.total⟩
  · obtain ⟨h1, h2, h3⟩ := hc.seat i u hu
    rcases h u.pid with he | hno
    · exact ⟨h1, h2, he.trans h3⟩
    · exact absurd rfl (hno i u hu)
  · rw [hdue]
    exact hc.most q p
  · rw [hdue]
    exact hc.least hs q p

/-- What the lookups find once a task has been put into a free slot. -/
theorem slotGet_place {slot : Nat} (rest : List Nat) (hslot : slot < MAX_TASKS_PER_RQ)
    (hempty : rq.slots slot = none) (hlt : t.pid < MAX_PIDS) (p : Pid) :
    RunQueue.slotGet { rq with slots := update rq.slots slot (some t), freeStack := rest }
      (update pts t.pid slot) p = if p = t.pid then some t else rq.slotGet pts p := by
  by_cases hp : p = t.pid
  · rw [if_pos hp, hp]
    refine slotGet_eq_some.mpr ⟨hlt, ?_, ?_, rfl⟩
    · rw [update_self]
      exact hslot
    · rw [update_self]
      exact update_self _ _ _
  rw [if_neg hp]
  refine slotGet_update rfl (update_of_ne hp _ _) (fun u hu => ?_) (fun u hu => ?_)
  · rw [hempty] at hu
    cases hu
  · cases hu
    exact Ne.symm hp

section

variable (hc : Coherent strict pts rq)
include hc

/-- A task with a new pid takes the free slot on top of the stack. -/
theorem Coherent.place {slot : Nat} {rest : List Nat}
    (hstack : rq.freeStack = slot :: rest) (hlt : t.pid < MAX_PIDS) (hoff : t.onRq = false)
    (hfresh : ∀ i u, rq.slots i = some u → u.pid ≠ t.pid) :
    Coherent strict (update pts t.pid slot) { rq with slots := update rq.slots slot (some t), freeStack := rest } := by
  obtain ⟨hslot, hempty⟩ := hc.free slot (by rw [hstack]; exact mem_cons_self ..)
  have hnd := hc.freeNodup
  rw [hstack] at hnd
  have hget := fun p => @slotGet_place pts rq t slot rest hslot hempty hlt p
  have hdue : ∀ p q, due { rq with slots := update rq.slots slot (some t), freeStack := rest }
      (update pts t.pid slot) p q = rq.due pts p q := by
    intro p q
    by_cases hp : p = t.pid
    · rw [due_some ((hget p).trans (if_pos hp)), Task.due_off q hoff, hp, due_none (slotGet_eq_none hfresh)]
    · unfold due
      rw [hget, if_neg hp]
  refine ⟨fun i u hu => ?_, (nodup_cons.mp hnd).2, fun i hi => ?_, hc.rt, fun q p => ?_, fun hs q p => ?_,
    hc.fairCount, hc.total⟩
  · change update rq.slots slot (some t) i = some u at hu
    by_cases hi : i = slot
    · subst hi
      rw [update_self] at hu
      cases hu
      exact ⟨hslot, hlt, update_self _ _ _⟩
    · rw [update_of_ne hi] at hu
      rw [update_of_ne (hfresh i u hu)]
      exact hc.seat i u hu
  · have hne : i ≠ slot := fun he => (nodup_cons.mp hnd).1 (he ▸ hi)
    obtain ⟨h1, h2⟩ := hc.free i (by rw [hstack]; exact mem_cons_of_mem _ hi)
    exact ⟨h1, (update_of_ne hne _ _).trans h2⟩
  · rw [hdue]
    exact hc.most q p
  · rw [hdue]
    exact hc.least hs q p

/-- **`add_task`** of a task whose pid is not here yet. -/
theorem Coherent.addTask (now : Nat) (hlt : t.pid < MAX_PIDS) (hoff : t.onRq = false)
    (hfresh : ∀ i u, rq.slots i = some u → u.pid ≠ t.pid) (hroom : strict → rq.HasRoom t) :
    Coherent strict (rq.addTask pts t now).2 (rq.addTask pts t now).1 := by
  unfold RunQueue.addTask
  have hpid : (if t.startTime = 0 then { t with startTime := now } else t).pid = t.pid := by split <;> rfl
  have hoff' : (if t.startTime = 0 then { t with startTime := now } else t).onRq = false := by
    split <;> exact hoff
  have hroom' : strict → rq.HasRoom (if t.startTime = 0 then { t with startTime := now } else t) := by
    intro hs
    split <;> exact hroom hs
  generalize (if t.startTime = 0 then { t with startTime := now } else t) = u at hpid hoff' hroom'
  cases hstack : rq.freeStack with
  | nil => exact hc
  | cons slot rest =>
    have hlt' : u.pid < MAX_PIDS := by rw [hpid]; exact hlt
    simp only [if_pos hlt']
    refine (hc.place hstack hlt' hoff' (by rw [hpid]; exact hfresh)).enqueueTask u.pid (fun hs v hv _ => ?_)
    obtain ⟨-, -, hslot, -⟩ := slotGet_eq_some.mp hv
    rw [update_self] at hslot
    have : some u = some v := (update_self slot _ rq.slots).symm.trans hslot
    cases this
    exact hroom' hs

/-- In a slot other than its own a pid has no task. -/
theorem Coherent.elsewhere {i : Nat} {u : Task} (hu : rq.slots i = some u) (hi : i ≠ pts pid) : u.pid ≠ pid := by
  intro he
  obtain ⟨-, -, hseat⟩ := hc.seat i u hu
  rw [he] at hseat
  exact hi hseat.symm

/-- What the lookups find once a slot has been emptied. -/
theorem Coherent.slotGet_vacate (hg : rq.slotGet pts pid = some t)
    (mid : RunQueue) (hmid : mid.slots = update rq.slots (pts pid) none) (p : Pid) :
    mid.slotGet (update pts pid SLOT_NONE) p = if p = pid then none else rq.slotGet pts p := by
  obtain ⟨-, -, hin, hpid⟩ := slotGet_eq_some.mp hg
  by_cases hp : p = pid
  · rw [if_pos hp]
    refine slotGet_eq_none (fun i u hu => ?_)
    rw [hmid] at hu
    by_cases hi : i = pts pid
    · rw [hi, update_self] at hu
      cases hu
    rw [update_of_ne hi] at hu
    rw [hp]
    exact hc.elsewhere hu hi
  rw [if_neg hp]
  refine slotGet_update hmid (update_of_ne hp _ _) (fun u hu => ?_) nofun
  rw [hin] at hu
  cases hu
  exact fun h => hp (h.symm.trans hpid)

/-- A task without a mark gives its slot back. -/
theorem Coherent.vacate (hg : rq.slotGet pts pid = some t) (hoff : t.onRq = false) :
    Coherent strict (update pts pid SLOT_NONE)
      { rq with slots := update rq.slots (pts pid) none, freeStack := pts pid :: rq.freeStack } := by
  obtain ⟨-, hslot, hin, -⟩ := slotGet_eq_some.mp hg
  have hget := hc.slotGet_vacate hg { rq with
    slots := update rq.slots _ none, freeStack := pts pid :: rq.freeStack } rfl
  have hdue : ∀ p q, due { rq with
      slots := update rq.slots (pts pid) none, freeStack := pts pid :: rq.freeStack }
      (update pts pid SLOT_NONE) p q = rq.due pts p q := by
    intro p q
    by_cases hp : p = pid
    · rw [due_none (by rw [hget, if_pos hp]), hp, due_some hg, Task.due_off q hoff]
    · unfold due
      rw [hget, if_neg hp]
  refine ⟨fun i u hu => ?_, ?_, fun i hi => ?_, hc.rt, fun q p => ?_, fun hs q p => ?_, hc.fairCount, hc.total⟩
  · change update rq.slots (pts pid) none i = some u at hu
    by_cases hi : i = pts pid
    · rw [hi, update_self] at hu
      cases hu
    rw [update_of_ne hi] at hu
    rw [update_of_ne (hc.elsewhere hu hi)]
    exact hc.seat i u hu
  · refine nodup_cons.mpr ⟨fun hmem => ?_, hc.freeNodup⟩
    have hnone := (hc.free _ hmem).2
    rw [hin] at hnone
    cases hnone
  · show i < MAX_TASKS_PER_RQ ∧ update rq.slots (pts pid) none i = none
    by_cases he : i = pts pid
    · rw [he, update_self]
      exact ⟨hslot, rfl⟩
    · rw [update_of_ne he]
      exact hc.free i ((mem_cons.mp hi).resolve_left he)
  · rw [hdue]
    exact hc.most q p
  · rw [hdue]
    exact hc.least hs q p

end

theorem removeTask_none (hg : rq.slotGet pts pid = none) : rq.removeTask pts pid = (none, rq, pts) := by
  unfold removeTask
  rw [hg]

theorem removeTask_some (hg : rq.slotGet pts pid = some t) :
    rq.removeTask pts pid =
      (some { t with onRq := false },
        { rq.unqueue t with
          slots := update rq.slots (pts pid) none, freeStack := pts pid :: rq.freeStack },
        update pts pid SLOT_NONE) := by
  unfold removeTask
  rw [hg]

theorem unqueue_frame (rq : RunQueue) (t : Task) :
    (rq.unqueue t).curr = rq.curr ∧ (rq.unqueue t).cpu = rq.cpu ∧ (rq.unqueue t).idle = rq.idle ∧
      (rq.unqueue t).freeStack = rq.freeStack := by
  unfold unqueue
  split <;> exact ⟨rfl, rfl, rfl, rfl⟩

/-- **`add_task`** drops the task when there is no slot; else the task is there, marked. -/
theorem Coherent.addTask_slotGet (hc : Coherent strict pts rq) (now : Nat) (hlt : t.pid < MAX_PIDS) :
    (rq.addTask pts t now = (rq, pts) ∧ rq.freeStack = []) ∨
      ∃ slot rest u, rq.freeStack = slot :: rest ∧ (rq.addTask pts t now).2 = update pts t.pid slot ∧
        u.pid = t.pid ∧ u.onRq = true ∧ u.state = t.state ∧ u.policy = t.policy ∧
        u.cpuAffinity = t.cpuAffinity ∧
        ∀ p, (rq.addTask pts t now).1.slotGet (rq.addTask pts t now).2 p =
          if p = t.pid then some u else rq.slotGet pts p := by
  unfold RunQueue.addTask
  have hkeep : ∀ v : Task, v = (if t.startTime = 0 then { t with startTime := now } else t) →
      v.pid = t.pid ∧ v.state = t.state ∧ v.policy = t.policy ∧ v.cpuAffinity = t.cpuAffinity := by
    rintro v rfl
    split <;> exact ⟨rfl, rfl, rfl, rfl⟩
  generalize hv : (if t.startTime = 0 then { t with startTime := now } else t) = v
  obtain ⟨hpid, hst, hpol, haff⟩ := hkeep v hv.symm
  have hlt' : v.pid < MAX_PIDS := by rw [hpid]; exact hlt
  cases hstack : rq.freeStack with
  | nil => exact .inl ⟨rfl, rfl⟩
  | cons slot rest =>
    obtain ⟨hslot, hempty⟩ := hc.free slot (by rw [hstack]; exact mem_cons_self ..)
    have hget := fun p => @slotGet_place pts rq v slot rest hslot hempty hlt' p
    simp only [if_pos hlt']
    obtain ⟨r, hr⟩ := slotGet_enqueueTask
      { rq with slots := update rq.slots slot _, freeStack := rest }
      _ v.pid v.pid
    rw [if_pos rfl, hget, if_pos rfl] at hr
    refine .inr ⟨slot, rest, { v with onRq := true, vruntime := r v }, rfl, by rw [hpid], hpid, rfl, hst, hpol,
      haff, fun p => ?_⟩
    by_cases hp : p = t.pid
    · rw [if_pos hp, hp, ← hpid]
      exact hr
    rw [if_neg hp]
    obtain ⟨r', hr'⟩ := slotGet_enqueueTask
      { rq with slots := update rq.slots slot _, freeStack := rest }
      _ v.pid p
    have hne : p ≠ v.pid := by rw [hpid]; exact hp
    rw [hr', if_neg hne, hget, if_neg hne]

/-- **`remove_task`** keeps the comparison. It counts a marked task of the idle policy as one that was in a
    queue, so strictness excludes that. -/
theorem Coherent.removeTask (hc : Coherent strict pts rq) (hg : rq.slotGet pts pid = some t)
    (hidle : strict → t.onRq = true → t.policy ≠ .idle) :
    Coherent strict (rq.removeTask pts pid).2.2 (rq.removeTask pts pid).2.1 := by
  obtain ⟨hlt, hslot, hin, hpid⟩ := slotGet_eq_some.mp hg
  have hmid : ∀ mid : RunQueue, Coherent strict pts mid →
      mid.slots = update rq.slots (pts pid) (some { t with onRq := false }) →
      Coherent strict (update pts pid SLOT_NONE)
        { mid with slots := update rq.slots (pts pid) none, freeStack := pts pid :: mid.freeStack } := by
    intro mid hm hslots
    have hgm : mid.slotGet pts pid = some { t with onRq := false } := by
      refine slotGet_eq_some.mpr ⟨hlt, hslot, ?_, hpid⟩
      rw [hslots, update_self]
    have hv := hm.vacate hgm rfl
    rw [hslots, update_idem] at hv
    exact hv
  rw [removeTask_some hg]
  unfold unqueue
  cases hon : t.onRq with
  | false =>
    have hsame : ({ t with onRq := false } : Task) = t := by rw [← hon]
    refine hmid rq hc ?_
    rw [hsame, ← hin, update_eq_self]
  | true =>
    rw [if_pos rfl, hpid]
    rcases policy_cases t.policy with hrt | hfair | hidle'
    · have hd := hc.dequeueTask pid
      rw [dequeueTask_realtime hg hon hrt] at hd
      simp only [hrt]
      exact hmid _ hd rfl
    · have hrt := isRealtime_of_fair hfair
      have hd := hc.dequeueTask pid
      rw [dequeueTask_fair hg hon hfair] at hd
      simp only [hrt, hfair]
      exact hmid _ hd rfl
    · have hrt : t.policy.isRealtime = false := by rw [hidle']; rfl
      have hfair : t.policy.isFair = false := by rw [hidle']; rfl
      have hd := hc.take_absent hg (fun q hq => by rw [Task.home_eq_none.mpr hidle'] at hq; cases hq)
        (rq.nrRunning - 1) (fun hs => absurd hidle' (hidle hs hon))
      simp only [hrt, hfair]
      exact hmid _ hd rfl

end RunQueue
end OxideOs.Sched

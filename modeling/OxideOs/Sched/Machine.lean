import OxideOs.Sched.Marks
import OxideOs.Sched.Sections

/-!
# `Sched.Machine` — the run queues of all CPUs together

The table of slots is shared, so a task put on one CPU can take the entry of a task on another. `Sound` says
that this does not happen: apart from the idle tasks, which may have one pid on all CPUs, a pid is on one CPU at
most, and a task in motion is on none. Everything is said about `find`, the lookup on a given CPU: the lemmas
here say what a lock section, taking a task off and adding one do to it, and that they keep `Sound`.
-/

namespace OxideOs.Sched
namespace Scheduler

open Option RunQueue Function

/-- The task a CPU has for a pid. -/
def find (s : Scheduler) (cpu : Nat) (pid : Pid) : Option Task :=
  (s.runQueues cpu).bind (fun rq => rq.slotGet s.pidToSlot pid)

/-- Every run queue is in step with the shared table, and pids do not collide. -/
structure Sound (strict : Prop) (s : Scheduler) : Prop where
  queue : ∀ cpu rq, s.runQueues cpu = some rq → rq.Coherent strict s.pidToSlot
  cpu : ∀ cpu rq, s.runQueues cpu = some rq → rq.cpu = cpu
  idle : ∀ cpu rq t, s.runQueues cpu = some rq → s.find cpu rq.idle = some t → t.policy = .idle
  alone : ∀ c c' p rq t t', s.runQueues c = some rq → s.find c p = some t → s.find c' p = some t' →
    c = c' ∨ p = rq.idle
  moving : ∀ m ∈ s.moving, m.2.pid < MAX_PIDS ∧ m.2.onRq = false ∧ ∀ c, s.find c m.2.pid = none
  movingNodup : (s.moving.map (fun m => m.2.pid)).Nodup

theorem sound_init (strict : Prop) : Sound strict init := by
  refine ⟨?_, ?_, ?_, ?_, ?_, List.nodup_nil⟩
  · nofun
  · nofun
  · nofun
  · intro c c' p rq t t' h
    cases h
  · nofun

variable {strict : Prop} {s s' : Scheduler} {cpu c : Nat} {rq : RunQueue} {pid p : Pid} {t : Task}

theorem find_eq (hq : s.runQueues cpu = some rq) (p : Pid) : s.find cpu p = rq.slotGet s.pidToSlot p := by
  unfold find
  rw [hq]
  rfl

theorem find_pid (h : s.find c p = some t) : t.pid = p := by
  obtain ⟨rq, -, hg⟩ := bind_eq_some_iff.mp h
  exact slotGet_pid hg

/-- The task in a slot is the one its pid finds. -/
theorem Sound.found (hs : Sound strict s) (hq : s.runQueues cpu = some rq) {i : Nat} (h : rq.slots i = some t) :
    s.find cpu t.pid = some t := (find_eq hq t.pid).trans ((hs.queue cpu rq hq).lookup h)

theorem Sound.absent (hs : Sound strict s) (hq : s.runQueues cpu = some rq) (h : s.find cpu p = none) :
    ∀ i u, rq.slots i = some u → u.pid ≠ p := by
  intro i u hu he
  have hf := hs.found hq hu
  rw [he, h] at hf
  cases hf

@[simp] theorem put_self (s : Scheduler) (cpu : Nat) (rq : RunQueue) : (s.put cpu rq).runQueues cpu = some rq :=
  update_self _ _ _

theorem put_ne (s : Scheduler) (rq : RunQueue) (h : c ≠ cpu) : (s.put cpu rq).runQueues c = s.runQueues c :=
  update_of_ne h _ _

/-- A run queue after a write is the one written, or one that was there. -/
theorem put_eq_some {rq' : RunQueue} (h : (s.put cpu rq).runQueues c = some rq') :
    c = cpu ∧ rq = rq' ∨ c ≠ cpu ∧ s.runQueues c = some rq' := by
  by_cases hc : c = cpu
  · subst hc
    exact .inl ⟨rfl, some.inj ((put_self s c rq).symm.trans h)⟩
  · exact .inr ⟨hc, (put_ne s rq hc).symm.trans h⟩

/-- The tasks of the other CPUs are where they were. -/
theorem find_put (s : Scheduler) (cpu : Nat) (rq : RunQueue) (c : Nat) (p : Pid) :
    (s.put cpu rq).find c p = if c = cpu then rq.slotGet s.pidToSlot p else s.find c p := by
  split
  next hc =>
    subst hc
    exact find_eq (put_self s c rq) p
  rename_i hc
  unfold find
  rw [put_ne _ _ hc]
  rfl

theorem put_same (hq : s.runQueues cpu = some rq) : s.put cpu rq = s := by
  unfold put
  rw [← hq, update_eq_self]

/-- An action that brings no task anywhere. -/
theorem Sound.of_found (hs : Sound strict s)
    (hup : ∀ c rq', s'.runQueues c = some rq' → rq'.Coherent strict s'.pidToSlot ∧
      ∃ rq, s.runQueues c = some rq ∧ rq'.cpu = rq.cpu ∧ rq'.idle = rq.idle)
    (hfound : ∀ c p t', s'.find c p = some t' → ∃ t, s.find c p = some t)
    (hidle : ∀ c rq t', s.runQueues c = some rq → s'.find c rq.idle = some t' → t'.policy = .idle)
    (hmoving : s'.moving = s.moving) : Sound strict s' := by
  refine ⟨fun c rq' h => (hup c rq' h).1, fun c rq' h => ?_, fun c rq' t' h ht => ?_,
    fun c c' p rq' t1 t2 h h₁ h₂ => ?_, fun m hm => ?_, by rw [hmoving]; exact hs.movingNodup⟩
  · obtain ⟨-, rq, hq, hcpu, -⟩ := hup c rq' h
    exact hcpu.trans (hs.cpu c rq hq)
  · obtain ⟨-, rq, hq, -, hid⟩ := hup c rq' h
    rw [hid] at ht
    exact hidle c rq t' hq ht
  · obtain ⟨-, rq, hq, -, hid⟩ := hup c rq' h
    obtain ⟨u1, hu1⟩ := hfound c p t1 h₁
    obtain ⟨u2, hu2⟩ := hfound c' p t2 h₂
    rw [hid]
    exact hs.alone c c' p rq u1 u2 hq hu1 hu2
  · rw [hmoving] at hm
    obtain ⟨h1, h2, h3⟩ := hs.moving m hm
    refine ⟨h1, h2, fun c => ?_⟩
    by_contra hne
    obtain ⟨t', ht'⟩ := ne_none_iff_exists'.mp hne
    obtain ⟨t, ht⟩ := hfound c _ t' ht'
    rw [h3 c] at ht
    cases ht

/-! ## Lock sections -/

/-- The task a section leaves on a CPU, and the one it found there. -/
theorem find_op (hq : s.runQueues cpu = some rq) (o : Op) {t' : Task}
    (h : (s.put cpu (o.run s.pidToSlot rq)).find c p = some t') :
    ∃ t, s.find c p = some t ∧
      (c = cpu → t'.attr = o.after s.pidToSlot rq p t.attr ∧ t'.onRq = o.mark s.pidToSlot rq p t.attr t.onRq) ∧
      (c ≠ cpu → t' = t) := by
  by_cases hc : c = cpu
  · subst hc
    rw [find_eq (put_self s c _)] at h
    have hv := @view_run s.pidToSlot rq p o
    unfold viewOf at hv
    change (o.run s.pidToSlot rq).slotGet s.pidToSlot p = some t' at h
    rw [h] at hv
    obtain ⟨v, hbefore, hafter⟩ := map_eq_some_iff.mp hv.symm
    obtain ⟨t, ht, rfl⟩ := map_eq_some_iff.mp hbefore
    refine ⟨t, (find_eq hq p).trans ht, fun _ => ?_, absurd rfl⟩
    exact ⟨(congrArg Prod.fst hafter).symm, (congrArg Prod.snd hafter).symm⟩
  · rw [find_put, if_neg hc] at h
    exact ⟨t', h, fun he => absurd he hc, fun _ => rfl⟩

/-- No section makes a task disappear. -/
theorem find_op_of (hq : s.runQueues cpu = some rq) (o : Op) (hf : s.find c p = some t) :
    ∃ t', (s.put cpu (o.run s.pidToSlot rq)).find c p = some t' := by
  by_cases hc : c = cpu
  · subst hc
    rw [find_eq (put_self s c _)]
    have hv := @view_run s.pidToSlot rq p o
    unfold viewOf at hv
    rw [← find_eq hq, hf] at hv
    obtain ⟨t', ht', -⟩ := map_eq_some_iff.mp hv
    exact ⟨t', ht'⟩
  · rw [find_put, if_neg hc]
    exact ⟨t, hf⟩

end Scheduler

/-- The task a section gives another policy. -/
def Op.repolicied : Op → Option Pid
  | .setScheduler pid _ _ => some pid
  | .setTaskPolicy pid _ => some pid
  | _ => none

theorem Op.after_policy {o : Op} {p : Pid} (h : o.repolicied ≠ some p) (pts : PidToSlot) (rq : RunQueue)
    (a : Attr) : (o.after pts rq p a).policy = a.policy := by
  cases o with
  | setScheduler pid policy priority | setTaskPolicy pid policy =>
    have hne : p ≠ pid := fun he => h (by rw [he]; rfl)
    unfold after
    simp only [if_neg hne]
  | _ =>
    unfold after
    first
      | rfl
      | (dsimp only; split <;> rfl)

namespace Scheduler

open RunQueue

variable {strict : Prop} {s s' : Scheduler} {cpu c : Nat} {rq : RunQueue} {pid p : Pid} {t : Task}

theorem Sound.op (hs : Sound strict s) (hq : s.runQueues cpu = some rq) (o : Op)
    (ho : o.Orderly strict s.pidToSlot rq) (hpol : o.repolicied ≠ some rq.idle) :
    Sound strict (s.put cpu (o.run s.pidToSlot rq)) := by
  refine hs.of_found (fun c rq' h => ?_) (fun c p t' h => ?_) (fun c rq' t' h ht => ?_) rfl
  · rcases put_eq_some h with ⟨rfl, rfl⟩ | ⟨-, h⟩
    · have hsame := @sameCpu_run s.pidToSlot rq o
      exact ⟨(hs.queue c rq hq).run o ho, rq, hq, hsame.cpu, hsame.idle⟩
    · exact ⟨hs.queue c rq' h, rq', h, rfl, rfl⟩
  · obtain ⟨t, ht, -⟩ := find_op hq o h
    exact ⟨t, ht⟩
  obtain ⟨t, hf, hin, hout⟩ := find_op hq o ht
  have hold := hs.idle c rq' t h hf
  by_cases hc : c = cpu
  · subst hc
    rw [hq] at h
    cases h
    have he := congrArg Attr.policy (hin rfl).1
    rw [Op.after_policy hpol] at he
    exact he.trans hold
  · rw [hout hc]
    exact hold

/-! ## Taking a task off -/

theorem takeFrom_none (hg : s.find cpu pid = none) : s.takeFrom cpu pid = (none, s) := by
  unfold takeFrom
  cases hq : s.runQueues cpu with
  | none => rfl
  | some rq =>
    rw [find_eq hq] at hg
    simp only [removeTask_none hg]
    have he := put_same hq
    rw [he]

theorem takeFrom_some (hq : s.runQueues cpu = some rq) :
    s.takeFrom cpu pid = ((rq.removeTask s.pidToSlot pid).1,
      { s.put cpu (rq.removeTask s.pidToSlot pid).2.1 with pidToSlot := (rq.removeTask s.pidToSlot pid).2.2 }) := by
  unfold takeFrom
  rw [hq]

section

variable (hs : Sound strict s) (hq : s.runQueues cpu = some rq) (hf : s.find cpu pid = some t)
  (hne : pid ≠ rq.idle)
include hs hq hf hne

/-- Apart from idle tasks, a pid that is on one CPU is on no other. -/
theorem Sound.elsewhere (hc : c ≠ cpu) : s.find c pid = none := by
  by_contra hx
  obtain ⟨u, hu⟩ := Option.ne_none_iff_exists'.mp hx
  rcases hs.alone cpu c pid rq t u hq hf hu with h | h
  · exact hc h.symm
  · exact hne h

/-- **Taking a task off** takes it off its CPU, and changes no other task. -/
theorem Sound.find_take (c : Nat) (p : Pid) :
    (s.takeFrom cpu pid).2.find c p = if p = pid then none else s.find c p := by
  have hg := (find_eq hq pid).symm.trans hf
  rw [takeFrom_some hq, removeTask_some hg]
  by_cases hc : c = cpu
  · subst hc
    unfold find
    simp only [put_self, hq]
    exact (hs.queue c rq hq).slotGet_vacate hg _ rfl p
  unfold find
  simp only [put_ne _ _ hc]
  cases hqc : s.runQueues c with
  | none => simp only [Option.bind_none, ite_self]
  | some rqc =>
    by_cases hp : p = pid
    · rw [if_pos hp, hp]
      exact slotGet_eq_none (hs.absent hqc (hs.elsewhere hq hf hne hc))
    rw [if_neg hp]
    unfold slotGet
    rw [Function.update_of_ne hp]

end

theorem takeFrom_fst (hq : s.runQueues cpu = some rq) (hf : s.find cpu pid = some t) :
    (s.takeFrom cpu pid).1 = some { t with onRq := false } := by
  rw [takeFrom_some hq, removeTask_some ((find_eq hq pid).symm.trans hf)]

theorem Sound.take (hs : Sound strict s) (hq : s.runQueues cpu = some rq) (hf : s.find cpu pid = some t)
    (hne : pid ≠ rq.idle) (hmark : strict → t.onRq = true → t.policy ≠ .idle) :
    Sound strict (s.takeFrom cpu pid).2 := by
  have hg := (find_eq hq pid).symm.trans hf
  have hfind := hs.find_take hq hf hne
  have hold : ∀ c p t', (s.takeFrom cpu pid).2.find c p = some t' → s.find c p = some t' := by
    intro c p t' h
    rw [hfind] at h
    split at h
    · cases h
    · exact h
  refine hs.of_found (fun c rq' h => ?_) (fun c p t' h => ⟨t', hold c p t' h⟩)
    (fun c rq' t' h ht => hs.idle c rq' t' h (hold c _ t' ht)) (by rw [takeFrom_some hq]; rfl)
  rw [takeFrom_some hq] at h ⊢
  rcases put_eq_some h with ⟨rfl, rfl⟩ | ⟨hc, h'⟩
  · refine ⟨(hs.queue c rq hq).removeTask hg hmark, rq, hq, ?_, ?_⟩
    · rw [removeTask_some hg]
      exact (unqueue_frame rq t).2.1
    · rw [removeTask_some hg]
      exact (unqueue_frame rq t).2.2.1
  refine ⟨?_, rq', h', rfl, rfl⟩
  rw [removeTask_some hg]
  refine (hs.queue c rq' h').retarget (fun p => ?_)
  by_cases hp : p = pid
  · right
    rw [hp]
    exact hs.absent h' (hs.elsewhere hq hf hne hc)
  · exact .inl (Function.update_of_ne hp _ _)

/-- A task that was taken off is in motion now. -/
theorem Sound.carry (hs : Sound strict s) (hlt : t.pid < MAX_PIDS) (hoff : t.onRq = false)
    (hgone : ∀ c, s.find c t.pid = none) (hnew : ∀ m ∈ s.moving, m.2.pid ≠ t.pid) (dest : Nat) :
    Sound strict { s with moving := s.moving ++ [(dest, t)] } := by
  refine { hs with moving := ?_, movingNodup := ?_ }
  · exact List.forall_mem_append.mpr ⟨hs.moving, List.forall_mem_singleton.mpr ⟨hlt, hoff, hgone⟩⟩
  rw [List.map_append]
  refine List.nodup_append.mpr ⟨hs.movingNodup, List.nodup_singleton _, ?_⟩
  intro a ha b hb
  obtain ⟨m, hm, rfl⟩ := List.mem_map.mp ha
  rw [List.mem_singleton.mp hb]
  exact hnew m hm

/-! ## Adding a task -/

/-- A CPU can be given this task: the pid is new, except that idle tasks share one, and then share the slot. -/
structure Admits (strict : Prop) (s : Scheduler) (t : Task) (cpu : Nat) : Prop where
  pid : t.pid < MAX_PIDS
  off : t.onRq = false
  still : ∀ m ∈ s.moving, m.2.pid ≠ t.pid
  new : s.find cpu t.pid = none
  room : strict → ∀ rq, s.runQueues cpu = some rq → rq.HasRoom t
  idle : ∀ rq, s.runQueues cpu = some rq → t.pid = rq.idle → t.policy = .idle
  shared : ∀ rq c rq' u, s.runQueues cpu = some rq → s.runQueues c = some rq' → s.find c t.pid = some u →
    t.pid = rq.idle ∧ t.pid = rq'.idle ∧ rq.freeStack.head? = some (s.pidToSlot t.pid)

theorem addTaskToCpu_up (hq : s.runQueues cpu = some rq) (t : Task) (now : Nat) :
    s.addTaskToCpu t cpu now =
      { s.put cpu (rq.addTask s.pidToSlot t now).1 with
        pidToSlot := (rq.addTask s.pidToSlot t now).2,
        pidToCpu := Function.update s.pidToCpu t.pid (some cpu) } := by
  unfold addTaskToCpu
  rw [hq]

/-- Without a free slot, or on a CPU that is not up, `add_task_to_cpu` adds nothing. -/
theorem addTaskToCpu_lost (h : ∀ rq, s.runQueues cpu = some rq → rq.freeStack = []) (t : Task) (now : Nat) :
    s.addTaskToCpu t cpu now = { s with pidToCpu := Function.update s.pidToCpu t.pid (some cpu) } := by
  cases hq : s.runQueues cpu with
  | none =>
    unfold addTaskToCpu
    rw [hq]
  | some rq =>
    have hnone : ∀ u : Task, rq.addTask s.pidToSlot u now = (rq, s.pidToSlot) := by
      intro u
      unfold addTask
      rw [h rq hq]
    rw [addTaskToCpu_up hq, hnone]
    rw [put_same hq]

/-- A task as it is once it has been added. -/
structure Arrived (t t' : Task) : Prop where
  pid : t'.pid = t.pid
  onRq : t'.onRq = true
  state : t'.state = t.state
  policy : t'.policy = t.policy
  cpuAffinity : t'.cpuAffinity = t.cpuAffinity

/-- **Adding a task** puts it on the CPU, marked, and changes no other task; or the task is lost. -/
theorem Sound.find_add (hs : Sound strict s) (ha : Admits strict s t cpu) (now : Nat) :
    s.addTaskToCpu t cpu now = { s with pidToCpu := Function.update s.pidToCpu t.pid (some cpu) } ∨
      ∃ rq slot rest u, s.runQueues cpu = some rq ∧ rq.freeStack = slot :: rest ∧
        (rq.addTask s.pidToSlot t now).2 = Function.update s.pidToSlot t.pid slot ∧ Arrived t u ∧
        ∀ c p, (s.addTaskToCpu t cpu now).find c p = if c = cpu ∧ p = t.pid then some u else s.find c p := by
  cases hq : s.runQueues cpu with
  | none => exact .inl (addTaskToCpu_lost (fun rq h => by rw [hq] at h; cases h) t now)
  | some rq =>
    rcases (hs.queue cpu rq hq).addTask_slotGet now ha.pid with ⟨-, hnil⟩ | hadd
    · refine .inl (addTaskToCpu_lost (fun rq' h => ?_) t now)
      rw [hq] at h
      cases h
      exact hnil
    obtain ⟨slot, rest, u, hstack, hpts, hpid, hon, hst, hpol, haff, hget⟩ := hadd
    refine .inr ⟨rq, slot, rest, u, rfl, hstack, hpts, ⟨hpid, hon, hst, hpol, haff⟩, fun c p => ?_⟩
    rw [addTaskToCpu_up hq]
    by_cases hc : c = cpu
    · subst hc
      unfold find
      simp only [put_self, hq, true_and]
      exact hget p
    unfold find
    simp only [put_ne _ _ hc, hc, false_and, if_false]
    cases hqc : s.runQueues c with
    | none => rfl
    | some rqc =>
      simp only [Option.bind_some]
      -- the entry of the pid changes, but not if this CPU has a task there
      by_cases hp : p = t.pid
      · subst hp
        cases hfc : s.find c t.pid with
        | none =>
          have habs := hs.absent hqc hfc
          rw [slotGet_eq_none habs, slotGet_eq_none habs]
        | some v =>
          obtain ⟨-, -, hhead⟩ := ha.shared rq c rqc v hq hqc hfc
          rw [hstack] at hhead
          have hslot : slot = s.pidToSlot t.pid := Option.some.inj hhead
          rw [hpts, hslot, Function.update_eq_self]
      · unfold slotGet
        rw [hpts, Function.update_of_ne hp]

theorem addTask_frame {pts : PidToSlot} {now : Nat} :
    (rq.addTask pts t now).1.cpu = rq.cpu ∧ (rq.addTask pts t now).1.idle = rq.idle ∧
      (rq.addTask pts t now).1.curr = rq.curr := by
  unfold RunQueue.addTask
  dsimp only
  split
  · exact ⟨rfl, rfl, rfl⟩
  · rw [enqueueTask_curr]
    exact ⟨(sameCpu_enqueueTask _).cpu, (sameCpu_enqueueTask _).idle, rfl⟩

section

variable (hs : Sound strict s)
include hs

theorem Sound.add (ha : Admits strict s t cpu) (now : Nat) : Sound strict (s.addTaskToCpu t cpu now) := by
  rcases hs.find_add ha now with hlost | ⟨rq, slot, rest, u, hq, hstack, hpts, harr, hfind⟩
  · rw [hlost]
    exact { hs with }
  have hup : ∀ c rq', (s.addTaskToCpu t cpu now).runQueues c = some rq' →
      rq'.Coherent strict (s.addTaskToCpu t cpu now).pidToSlot ∧
        ∃ rq, s.runQueues c = some rq ∧ rq'.cpu = rq.cpu ∧ rq'.idle = rq.idle := by
    intro c rq' h
    rw [addTaskToCpu_up hq] at h ⊢
    rcases put_eq_some h with ⟨rfl, rfl⟩ | ⟨hc, h'⟩
    · exact ⟨(hs.queue c rq hq).addTask now ha.pid ha.off (hs.absent hq ha.new) (fun hst => ha.room hst rq hq),
        rq, hq, addTask_frame.1, addTask_frame.2.1⟩
    refine ⟨?_, rq', h', rfl, rfl⟩
    show RunQueue.Coherent strict (rq.addTask s.pidToSlot t now).2 rq'
    rw [hpts]
    refine (hs.queue c rq' h').retarget (fun p => ?_)
    by_cases hp : p = t.pid
    · subst hp
      cases hfc : s.find c t.pid with
      | none => exact .inr (hs.absent h' hfc)
      | some v =>
        obtain ⟨-, -, hhead⟩ := ha.shared rq c rq' v hq h' hfc
        rw [hstack] at hhead
        left
        rw [Function.update_self]
        exact Option.some.inj hhead
    · exact .inl (Function.update_of_ne hp _ _)
  have hmoving : (s.addTaskToCpu t cpu now).moving = s.moving := by rw [addTaskToCpu_up hq]; rfl
  refine ⟨fun c rq' h => (hup c rq' h).1, fun c rq' h => ?_, fun c rq' v h hv => ?_,
    fun c c' p rq' v v' h hv hv' => ?_, fun m hm => ?_, by rw [hmoving]; exact hs.movingNodup⟩
  · obtain ⟨-, rq0, hq0, hcpu, -⟩ := hup c rq' h
    exact hcpu.trans (hs.cpu c rq0 hq0)
  · obtain ⟨-, rq0, hq0, -, hid⟩ := hup c rq' h
    rw [hid, hfind] at hv
    split at hv
    next hcp =>
      cases hv
      obtain ⟨rfl, hp⟩ := hcp
      exact harr.policy.trans (ha.idle rq0 hq0 hp.symm)
    · exact hs.idle c rq0 v hq0 hv
  · obtain ⟨-, rq0, hq0, -, hid⟩ := hup c rq' h
    rw [hid]
    rw [hfind] at hv hv'
    split at hv
    next hcp =>
      obtain ⟨rfl, rfl⟩ := hcp
      split at hv'
      next hcp' =>
        exact .inl hcp'.1.symm
      -- the pid was on another CPU, so it is the idle task's
      obtain ⟨rqc, hqc, -⟩ := Option.bind_eq_some_iff.mp hv'
      exact .inr (ha.shared rq0 c' rqc v' hq0 hqc hv').1
    · split at hv'
      next hcp' =>
        obtain ⟨rfl, rfl⟩ := hcp'
        exact .inr (ha.shared rq c rq0 v hq hq0 hv).2.1
      · exact hs.alone c c' p rq0 v v' hq0 hv hv'
  · rw [hmoving] at hm
    obtain ⟨h1, h2, h3⟩ := hs.moving m hm
    refine ⟨h1, h2, fun c => ?_⟩
    rw [hfind, if_neg (fun hx => ha.still m hm hx.2)]
    exact h3 c

/-! ## Small changes -/

/-- The table of CPUs is only a hint. -/
theorem Sound.hinted (hints : Pid → Option Nat) : Sound strict { s with pidToCpu := hints } :=
  { hs with }

/-- A task in motion is forgotten. -/
theorem Sound.drop (i : Nat) : Sound strict { s with moving := s.moving.eraseIdx i } := by
  refine { hs with moving := fun m hm => hs.moving m (List.mem_of_mem_eraseIdx hm), movingNodup := ?_ }
  exact hs.movingNodup.sublist ((List.eraseIdx_sublist s.moving i).map _)

/-- Nothing else that is in motion has the pid of the task in motion that is dropped. -/
theorem Sound.dropped_ne {i : Nat} {m : Nat × Task} (hm : s.moving[i]? = some m) :
    ∀ m' ∈ s.moving.eraseIdx i, m'.2.pid ≠ m.2.pid := by
  intro m' hm' he
  obtain ⟨j, hj, hget⟩ := List.mem_eraseIdx_iff_getElem?.mp hm'
  have hi : i < (s.moving.map (fun m => m.2.pid)).length := by
    rw [List.length_map]
    exact (List.getElem?_eq_some_iff.mp hm).1
  have heq : (s.moving.map (fun m => m.2.pid))[i]? = (s.moving.map (fun m => m.2.pid))[j]? := by
    rw [List.getElem?_map, List.getElem?_map, hm, hget]
    exact congrArg some he.symm
  exact hj ((List.getElem?_inj hi hs.movingNodup).mp heq).symm

end

theorem find_flag (hq : s.runQueues cpu = some rq) (c : Nat) (p : Pid) :
    (s.put cpu { rq with needResched := true }).find c p = s.find c p := by
  rw [find_put]
  split
  next hc =>
    subst hc
    rw [find_eq hq]
    exact slotGet_congr rfl
  · rfl

theorem Sound.flag (hs : Sound strict s) (hq : s.runQueues cpu = some rq) :
    Sound strict (s.put cpu { rq with needResched := true }) := by
  refine hs.of_found (fun c rq' h => ?_) (fun c p t' h => ?_) (fun c rq' t' h ht => ?_) rfl
  · rcases put_eq_some h with ⟨rfl, rfl⟩ | ⟨-, h⟩
    · exact ⟨(hs.queue c rq hq).congr rfl rfl rfl rfl rfl rfl, rq, hq, rfl, rfl⟩
    · exact ⟨hs.queue c rq' h, rq', h, rfl, rfl⟩
  · rw [find_flag hq] at h
    exact ⟨t', h⟩
  · rw [find_flag hq] at ht
    exact hs.idle c rq' t' h ht

theorem Sound.initCpu (hs : Sound strict s) (hq : s.runQueues cpu = none) (idle : Pid) :
    Sound strict (s.initCpu cpu idle) ∧ ∀ c p, (s.initCpu cpu idle).find c p = s.find c p := by
  have hfind : ∀ c p, (s.initCpu cpu idle).find c p = s.find c p := by
    intro c p
    refine (find_put s cpu _ c p).trans ?_
    split
    next hc =>
      subst hc
      unfold find
      rw [hq]
      exact slotGet_eq_none nofun
    · rfl
  have hne : ∀ {c p t}, s.find c p = some t → c ≠ cpu := by
    rintro c p t h rfl
    obtain ⟨rq, hup, -⟩ := Option.bind_eq_some_iff.mp h
    rw [hq] at hup
    cases hup
  refine ⟨⟨fun c rq' h => ?_, fun c rq' h => ?_, fun c rq' t h ht => ?_, fun c c' p rq' t t' h ht ht' => ?_,
    fun m hm => ?_, hs.movingNodup⟩, hfind⟩
  · rcases put_eq_some h with ⟨rfl, rfl⟩ | ⟨-, h⟩
    · exact coherent_new strict _ c idle
    · exact hs.queue c rq' h
  · rcases put_eq_some h with ⟨rfl, rfl⟩ | ⟨-, h⟩
    · rfl
    · exact hs.cpu c rq' h
  · rw [hfind] at ht
    exact hs.idle c rq' t ((put_ne s _ (hne ht)).symm.trans h) ht
  · rw [hfind] at ht ht'
    exact hs.alone c c' p rq' t t' ((put_ne s _ (hne ht)).symm.trans h) ht ht'
  · obtain ⟨h1, h2, h3⟩ := hs.moving m hm
    exact ⟨h1, h2, fun c => (hfind c _).trans (h3 c)⟩

end Scheduler
end OxideOs.Sched

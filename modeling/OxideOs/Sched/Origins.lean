import OxideOs.Sched.Steps

/-!
# `Sched.Origins` — where the tasks of a state come from

The inversion lemmas of the machine's step. `Sound.origin` says for a task on a CPU how it came to be there and
what the action did to it, `Sound.moving_origin` the same for a task in motion, `Sound.survives` how a task can
leave its CPU, and `curr_origin` how the current task of a CPU changes. The invariants of the modules that
follow are read off these.
-/

namespace OxideOs.Sched.Scheduler

open Option RunQueue

variable {strict : Prop} {s s' : Scheduler}

/-- How a CPU came to have a task after an action. -/
inductive Origin (s : Scheduler) (a : Action) (c : Nat) (p : Pid) (t' : Task) : Prop where
  /-- It was there before, and the action is no lock section on that CPU. -/
  | kept (ha : ∀ o, a ≠ .op c o) (h : s.find c p = some t')
  /-- It was there, and the action is a lock section on that CPU. -/
  | ran {o : Op} {rq : RunQueue} {t : Task} (ha : a = .op c o) (hq : s.runQueues c = some rq)
      (hf : s.find c p = some t) (hattr : t'.attr = o.after s.pidToSlot rq p t.attr)
      (hmark : t'.onRq = o.mark s.pidToSlot rq p t.attr t.onRq)
  /-- It is new. -/
  | added {t : Task} {now : Nat} (ha : a = .addTask t c now) (hp : p = t.pid) (h : Arrived t t')
  /-- It was in motion. -/
  | landed {i now : Nat} {t : Task} (ha : a = .land i now) (hm : s.moving[i]? = some (c, t)) (hp : p = t.pid)
      (h : Arrived t t')
  /-- Its mask was written, and it may stay, or is running. -/
  | masked {thisCpu : Nat} {mask : CpuSet} {load : Nat → Nat} {now : Nat} {rq : RunQueue} {t : Task}
      (ha : a = .setAffinity thisCpu c p mask load now) (hq : s.runQueues c = some rq) (hf : s.find c p = some t)
      (h : t' = { t with cpuAffinity := mask }) (hstay : mask.isSet c = true ∨ rq.curr = some p)
  /-- Its mask was written, and it was moved here. -/
  | moved {thisCpu cpu : Nat} {mask : CpuSet} {load : Nat → Nat} {now : Nat} {rq : RunQueue} {t : Task}
      (ha : a = .setAffinity thisCpu cpu p mask load now) (hq : s.runQueues cpu = some rq)
      (hf : s.find cpu p = some t) (hmask : mask.isSet cpu = false) (hcurr : rq.curr ≠ some p)
      (hdest : c = s.selectTaskRq thisCpu load { t with cpuAffinity := mask })
      (h : Arrived { t with cpuAffinity := mask } t')

variable {a : Action} {c : Nat} {p : Pid}

section

variable (hs : Sound strict s)
include hs

section

variable (ho : a.Orderly strict s)
include ho

section

variable (h : s.step a = some s')
include h

/-- **Every task of the next state has an origin.** -/
theorem Sound.origin {t' : Task} (hf : s'.find c p = some t') : Origin s a c p t' := by
  cases (hs.effect ho h).2 with
  | ran ha hq he =>
    rename_i cpu o rq
    subst he
    obtain ⟨t, ht, hin, hout⟩ := find_op hq o hf
    by_cases hc : c = cpu
    · subst hc
      exact .ran ha hq ht (hin rfl).1 (hin rfl).2
    rw [hout hc]
    refine .kept (fun o' he => hc ?_) ht
    rw [ha] at he
    cases he
    rfl
  | changed hno _ hch =>
    cases hch with
    | quiet hfind hm => exact .kept (hno c) ((hfind c p).symm.trans hf)
    | removed ha hq hne hft hfind hm | carried ha hq hne hft hfind hm =>
      rw [hfind] at hf
      split at hf
      · cases hf
      · exact .kept (hno c) hf
    | brought ha hnew hfind harr hm =>
      rename_i cpu t
      by_cases hcp : c = cpu ∧ p = t.pid
      · obtain ⟨rfl, rfl⟩ := hcp
        cases ha with
        | added => exact .added rfl rfl (harr t' hf)
        | landed hm => exact .landed rfl hm rfl (harr t' hf)
      · exact .kept (hno c) ((hfind c p hcp).symm.trans hf)
    | masked ha hq hstay hfind hm =>
      rw [hfind] at hf
      split at hf
      next hcp =>
        obtain ⟨rfl, rfl⟩ := hcp
        obtain ⟨t, ht, rfl⟩ := map_eq_some_iff.mp hf
        refine .masked ha hq ht rfl (hstay.imp_right (fun hw => hw.resolve_right (fun hw => ?_)))
        cases hw.symm.trans ht
      · exact .kept (hno c) hf
    | moved ha hq hne hft hmask hcurr hfind harr hm =>
      rename_i pid _ _ _ _ _
      by_cases hp : p = pid
      · subst hp
        exact .moved ha hq hft hmask hcurr (harr c t' hf).1 (harr c t' hf).2
      · exact .kept (hno c) ((hfind c p hp).symm.trans hf)

/-- The tasks in motion after an action, and how they came to be. -/
theorem Sound.moving_origin {m : Nat × Task} (hm : m ∈ s'.moving) :
    m ∈ s.moving ∨ ∃ cpu dest rq t, Carries s a cpu rq t dest ∧ s.runQueues cpu = some rq ∧
      s.find cpu t.pid = some t ∧ m = (dest, { t with onRq := false }) := by
  cases (hs.effect ho h).2 with
  | ran ha hq he =>
    subst he
    exact .inl hm
  | changed _ _ hch =>
    cases hch with
    | quiet hfind hmoving | brought ha _ hfind harr hmoving => exact .inl (hmoving m hm)
    | removed ha hq hne hft hfind hmoving | masked ha hq _ hfind hmoving
    | moved ha hq hne hft _ _ hfind harr hmoving => exact .inl (hmoving ▸ hm)
    | carried ha hq hne hft hfind hmoving =>
      rw [hmoving] at hm
      rcases List.mem_append.mp hm with hm | hm
      · exact .inl hm
      · exact .inr ⟨_, _, _, _, ha, hq, hft, List.mem_singleton.mp hm⟩

/-- **A task leaves its CPU** only by `remove_task`, `steal_task` and `set_affinity`. -/
theorem Sound.survives {t : Task} (hf : s.find c p = some t) : (∃ t', s'.find c p = some t') ∨ a = .removeTask c p ∨
      (∃ dest rq, Carries s a c rq t dest ∧ s.runQueues c = some rq) ∨
      ∃ thisCpu mask load now rq, a = .setAffinity thisCpu c p mask load now ∧ s.runQueues c = some rq ∧
        mask.isSet c = false ∧ rq.curr ≠ some p := by
  -- the CPU that loses the pid is the one that has it
  have hwhere : ∀ cpu rq u, s.runQueues cpu = some rq → s.find cpu p = some u → p ≠ rq.idle → cpu = c ∧ u = t := by
    intro cpu rq u hq hu hne
    have hc : cpu = c := (hs.alone cpu c p rq u t hq hu hf).resolve_right hne
    subst hc
    exact ⟨rfl, some.inj (hu.symm.trans hf)⟩
  cases (hs.effect ho h).2 with
  | ran ha hq he =>
    subst he
    exact .inl (find_op_of hq _ hf)
  | changed _ _ hch =>
    cases hch with
    | quiet hfind hm => exact .inl ⟨t, (hfind c p).trans hf⟩
    | removed ha hq hne hft hfind hm =>
      rename_i cpu pid rq u
      by_cases hp : p = pid
      · subst hp
        obtain ⟨rfl, -⟩ := hwhere cpu rq u hq hft hne
        exact .inr (.inl ha)
      · exact .inl ⟨t, (hfind c p).trans ((if_neg hp).trans hf)⟩
    | carried ha hq hne hft hfind hm =>
      rename_i cpu dest rq u
      by_cases hp : p = u.pid
      · subst hp
        obtain ⟨rfl, rfl⟩ := hwhere cpu rq u hq hft hne
        exact .inr (.inr (.inl ⟨dest, rq, ha, hq⟩))
      · exact .inl ⟨t, (hfind c p).trans ((if_neg hp).trans hf)⟩
    | brought ha hnew hfind harr hm =>
      refine .inl ⟨t, (hfind c p (fun hcp => ?_)).trans hf⟩
      rw [hcp.1, hcp.2, hnew] at hf
      cases hf
    | masked ha hq _ hfind hm =>
      left
      rw [hfind, hf]
      split
      · exact ⟨_, rfl⟩
      · exact ⟨t, rfl⟩
    | moved ha hq hne hft hmask hcurr hfind harr hm =>
      rename_i thisCpu cpu pid mask load now rq u
      by_cases hp : p = pid
      · subst hp
        obtain ⟨rfl, -⟩ := hwhere cpu rq u hq hft hne
        exact .inr (.inr (.inr ⟨thisCpu, mask, load, now, rq, ha, hq, hmask, hcurr⟩))
      · exact .inl ⟨t, (hfind c p hp).trans hf⟩

/-- The current task of a CPU changes in its own lock sections only. -/
theorem Sound.curr_origin {rq rq' : RunQueue} (hq : s.runQueues c = some rq) (hq' : s'.runQueues c = some rq') :
    rq'.idle = rq.idle ∧ ((∀ o, a ≠ .op c o) → rq'.curr = rq.curr) ∧
      ∀ o, a = .op c o → rq'.curr = o.running s.pidToSlot rq := by
  cases (hs.effect ho h).2 with
  | ran ha hqc he =>
    rename_i cpu o rqc
    subst he
    by_cases hc : c = cpu
    · subst hc
      rw [hq] at hqc
      cases hqc
      rw [put_self] at hq'
      cases hq'
      refine ⟨(sameCpu_run o).idle, fun hno => absurd ha (hno o), fun o' ho => ?_⟩
      rw [ha] at ho
      cases ho
      exact curr_run o
    · rw [put_ne _ _ hc, hq] at hq'
      cases hq'
      refine ⟨rfl, fun _ => rfl, fun o' ho => ?_⟩
      rw [ha] at ho
      cases ho
      exact absurd rfl hc
  | changed hno hsame _ =>
    obtain ⟨r, hr, hcurr, hidle⟩ := hsame c rq hq
    rw [hq'] at hr
    cases hr
    exact ⟨hidle, fun _ => hcurr, fun o ho => absurd ho (hno c o)⟩

end

end

/-- **The task an action hands to a CPU** was on that CPU and has been picked, or was stolen from another. -/
theorem Sound.handed_cases {u : Task} (hh : s.handed a = some (c, u)) :
    (∃ now rq w, a = .op c (.pickNextTask now) ∧ s.runQueues c = some rq ∧ s.find c u.pid = some w ∧
        (rq.pickNextTask s.pidToSlot now).1 = u.pid ∧
        u.attr = Op.after (.pickNextTask now) s.pidToSlot rq u.pid w.attr) ∨
      ∃ victimCpu rq w, a = .steal victimCpu c ∧ s.runQueues victimCpu = some rq ∧
        s.find victimCpu w.pid = some w ∧ rq.stealable c w = true ∧ w.pid ≠ rq.idle ∧ u = { w with onRq := false } := by
  cases a with
  | op cpu o =>
    cases o with
    | pickNextTask now =>
      obtain ⟨rq, hq, hmap⟩ := bind_eq_some_iff.mp hh
      obtain ⟨v, hv, he⟩ := map_eq_some_iff.mp hmap
      cases he
      have hpid := slotGet_pid hv
      rw [← hpid] at hv
      have hup : (s.put c (Op.run (.pickNextTask now) s.pidToSlot rq)).find c u.pid = some u :=
        (find_eq (put_self s c _) _).trans hv
      obtain ⟨w, hw, hin, -⟩ := find_op hq _ hup
      exact .inl ⟨now, rq, w, rfl, hq, hw, hpid.symm, (hin rfl).1⟩
    | _ => cases hh
  | steal victimCpu myCpu =>
    obtain ⟨v, hv, he⟩ := map_eq_some_iff.mp hh
    cases he
    rcases hs.steal_cases victimCpu c with hsteal | ⟨rq, w, hq, hf, hst, hne, htaken⟩
    · rw [hsteal] at hv
      cases hv
    rw [htaken.fst] at hv
    cases hv
    exact .inr ⟨victimCpu, rq, w, rfl, hq, hf, hst, hne, rfl⟩
  | _ => cases hh

end

end OxideOs.Sched.Scheduler

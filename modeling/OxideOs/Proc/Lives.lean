import OxideOs.Proc.FaultSpec
import OxideOs.Proc.ForkSpec
import OxideOs.Proc.Machine
import OxideOs.Syscall.MemorySpec

/-!
# `Proc.Lives` — steps of the machine in the lives of frames

The ledger of a machine has the entries and tables of all live processes and the frames the kernel keeps for
itself. `step_sim`: seen from any frame, a step is a sequence of events. Which events depends on the step only
in a few places, and `StepAllowed` lists them.
-/

namespace OxideOs.Vm

open Option Paging Ledger UserAddressSpace Multiset Event

/-! ## The ledger of a machine -/

namespace Machine

/-- What all live processes contribute. -/
def total {β : Type} (F : UserAddressSpace → Multiset β) (procs : List (Option ProcessMeta)) : Multiset β :=
  (procs.map (fun o => o.elim 0 (fun p => F p.addressSpace))).sum

def ledger (m : Machine) : Ledger where
  ptes := total leaves m.procs
  tables := total tabs m.procs
  held := ↑m.kernelFrames
  pins := 0
  store := m.store

/-- The ledger when some frames belong to shared memory segments. -/
def ledgerWith (m : Machine) (S : Multiset Frame) : Ledger := { m.ledger with pins := S }

variable {m : Machine} {pid : Nat} {p : ProcessMeta}

theorem proc_eq_some (h : m.proc pid = some p) : m.procs[pid]? = some (some p) := by
  unfold proc at h
  cases hp : m.procs[pid]? with
  | none =>
    rw [hp] at h
    cases h
  | some o =>
    rw [hp] at h
    exact congrArg some h

section

variable {β : Type} (F : UserAddressSpace → Multiset β) (procs : List (Option ProcessMeta))
include F procs

/-- One process set apart from the others. -/
theorem total_split {pid : Nat} {p : ProcessMeta} (h : procs[pid]? = some (some p)) :
    ∃ R, total F procs = F p.addressSpace + R ∧
      ∀ o : Option ProcessMeta, total F (procs.set pid o) = o.elim 0 (fun q => F q.addressSpace) + R := by
  induction procs generalizing pid with
  | nil => cases h
  | cons o procs ih =>
    cases pid with
    | zero =>
      cases h
      exact ⟨total F procs, rfl, fun o => rfl⟩
    | succ pid =>
      obtain ⟨R, hR, hset⟩ := ih h
      refine ⟨o.elim 0 (fun q => F q.addressSpace) + R, ?_, fun o' => ?_⟩
      · show o.elim 0 _ + total F procs = _
        rw [hR, add_left_comm]
      · show o.elim 0 _ + total F (procs.set pid o') = _
        rw [hset, add_left_comm]

theorem total_append (o : Option ProcessMeta) :
    total F (procs ++ [o]) = total F procs + o.elim 0 (fun q => F q.addressSpace) := by
  unfold total
  rw [List.map_append, List.sum_append, List.map_singleton, List.sum_singleton]

end

/-- The live processes contribute what their address spaces list. -/
theorem coe_flatMap_spaces {β : Type} (F : UserAddressSpace → List β) (procs : List (Option ProcessMeta)) :
    (↑((procs.reduceOption.map ProcessMeta.addressSpace).flatMap F) : Multiset β) = total (fun u => ↑(F u)) procs := by
  induction procs with
  | nil => rfl
  | cons o procs ih =>
    cases o with
    | none =>
      rw [List.reduceOption_cons_of_none, ih]
      exact (zero_add _).symm
    | some q =>
      rw [List.reduceOption_cons_of_some, List.map_cons, List.flatMap_cons, ← coe_add, ih]
      rfl

/-- The entries of the ledger are those `mapCount` counts. -/
theorem mapCount_eq (m : Machine) (f : Frame) : m.mapCount f = (m.ledger.view f).maps :=
  congrArg (countP _) (coe_flatMap_spaces (fun u => u.tables.leafPtes) m.procs)

theorem tabs_count (m : Machine) (f : Frame) :
    (m.spaces.flatMap (fun u => u.pml4Phys :: u.tables.tableFrames)).count f = (m.ledger.view f).tables :=
  (coe_count f _).symm.trans (congrArg (count f) (coe_flatMap_spaces _ m.procs))

/-- Every live address space and the store are well formed. -/
structure Ok (m : Machine) : Prop where
  spaces : ∀ pid p, m.proc pid = some p → SpaceOk p.addressSpace
  store : StoreOk m.store

theorem proc_set {o : Option ProcessMeta} {pid' : Nat} {q : ProcessMeta} {store : FrameStore}
    {kernelFrames : List Frame} (h : (⟨m.procs.set pid o, store, kernelFrames⟩ : Machine).proc pid' = some q) :
    o = some q ∨ m.proc pid' = some q := by
  have h' := proc_eq_some h
  simp only [List.getElem?_set] at h'
  split at h'
  · split at h'
    · exact .inl (some.inj h')
    · cases h'
  · exact .inr (congrArg Option.join h')

end Machine

/-! ## Steps -/

/-- The events every step may consist of. -/
def Event.ordinary : Event → Bool
  | .forget _ | .overcount _ | .protect _ true | .pin | .unpin | .attach _ => false
  | _ => true

/-- What must hold of the events of a step beyond that. An entry is forgotten by a fork that fails and by
    `mprotect` without any permission, a frame is overcounted by private file mappings, write permission is
    given by `mprotect`; and copies that are needed can be had. -/
def StepAllowed (A : Frame → FrameView → Event → Prop) (m : Machine) : Action → Prop
  | .call pid (.fork answers kernelStack) =>
    ∀ p e u store, m.proc pid = some p →
      doFork p.addressSpace { m.store with answers } kernelStack = some (.error e, u, store) →
      ∀ f v w, A f v (.forget w)
  | .call pid (.fault env addr code) =>
    ∀ p, m.proc pid = some p → code.isPresent = true → code.isWrite = true →
      (p.addressSpace.tables (.ofAddr addr .pt)).isCow = true →
      copyReady { m.store with answers := env.answers } (frameOf (p.addressSpace.tables (.ofAddr addr .pt))) = true
  | .call _ (.mmap args _) => args.isAnonymous = false → args.isPrivate = true → ∀ f v w, A f v (.overcount w)
  | .call pid (.mprotect addr length prot) =>
    ((protToMemoryFlags prot).isNone = true → ∀ f v w, A f v (.forget w)) ∧
      ∀ p len, m.proc pid = some p → has prot PROT_WRITE = true → roundUp length = some len →
        PagesAll (fun f => m.mapCount f ≤ 1 ∨ ∀ v w, A f v (.protect w true)) p.addressSpace.tables
          (len / 0x1000) (BitVec.ofNat 64 addr)
  | _ => True

namespace Machine

variable {m m' : Machine} {pid : Nat} {p : ProcessMeta} {A : Frame → FrameView → Event → Prop}

/-- One process set apart: `P` and `T` are the entries and tables of the others. -/
structure Apart (m : Machine) (pid : Nat) (p : ProcessMeta) (P : Multiset PageTableEntry) (T : Multiset Frame) :
    Prop where
  ledger : ∀ S, m.ledgerWith S = ⟨p.addressSpace.leaves + P, p.addressSpace.tabs + T, ↑m.kernelFrames, S, m.store⟩
  commit : ∀ q store S, (m.commit pid q store).ledgerWith S =
    ⟨q.addressSpace.leaves + P, q.addressSpace.tabs + T, ↑m.kernelFrames, S, store⟩
  exit : ∀ store S, ({ m with procs := m.procs.set pid none, store } : Machine).ledgerWith S =
    ⟨P, T, ↑m.kernelFrames, S, store⟩

variable {q : ProcessMeta} {store : FrameStore}

theorem exists_apart (hp : m.proc pid = some p) : ∃ P T, m.Apart pid p P T := by
  obtain ⟨P, hP, hPset⟩ := total_split leaves m.procs (proc_eq_some hp)
  obtain ⟨T, hT, hTset⟩ := total_split tabs m.procs (proc_eq_some hp)
  refine ⟨P, T, fun S => ?_, fun q store S => ?_, fun store S => ?_⟩
  · show (⟨total leaves m.procs, total tabs m.procs, _, _, _⟩ : Ledger) = _
    rw [hP, hT]
    rfl
  · show (⟨total leaves (m.procs.set pid (some q)), total tabs (m.procs.set pid (some q)), _, _, _⟩ : Ledger) = _
    rw [hPset, hTset]
    rfl
  · show (⟨total leaves (m.procs.set pid none), total tabs (m.procs.set pid none), _, _, _⟩ : Ledger) = _
    rw [hPset, hTset, elim_none, elim_none, zero_add, zero_add]
    rfl

theorem Ok.commit (hm : m.Ok) (hq : SpaceOk q.addressSpace) (hst : StoreOk store) : (m.commit pid q store).Ok := by
  refine ⟨fun pid' q' hq' => ?_, hst⟩
  rcases proc_set hq' with heq | hq'
  · rw [← some.inj heq]
    exact hq
  · exact hm.spaces pid' q' hq'

/-- A process whose memory has changed is put back. -/
theorem Apart.carried {P : Multiset PageTableEntry} {T S : Multiset Frame} (h : m.Apart pid p P T) (hm : m.Ok)
    (hc : Carried A P T ↑m.kernelFrames S p.addressSpace m.store q.addressSpace store) :
    Sim A (m.ledgerWith S) ((m.commit pid q store).ledgerWith S) ∧ (m.commit pid q store).Ok := by
  refine ⟨?_, hm.commit hc.space hc.store⟩
  rw [h.ledger, h.commit]
  exact hc.sim

/-- The allocator's answers to come are put in place. -/
theorem Ok.answers (hm : m.Ok) (answers : List (Option Frame)) : StoreOk { m.store with answers } :=
  ⟨hm.store.swap, hm.store.zero⟩

/-- A new process is put at the end. -/
theorem proc_append {o : Option ProcessMeta} {procs : List (Option ProcessMeta)} {kernelFrames : List Frame}
    (h : (⟨procs ++ [o], store, kernelFrames⟩ : Machine).proc pid = some q) :
    o = some q ∨ (⟨procs, store, kernelFrames⟩ : Machine).proc pid = some q := by
  have h' := proc_eq_some h
  rw [List.getElem?_append] at h'
  split at h'
  · exact .inr (congrArg Option.join h')
  cases hk : pid - procs.length with
  | zero =>
    rw [hk] at h'
    exact .inl (some.inj h')
  | succ k =>
    rw [hk] at h'
    cases h'

section Segments

variable {S : Multiset Frame}

section

variable (hm : m.Ok) (hp : m.proc pid = some p)
include hm hp

/-- **Fork** by a process that maps no frame of a segment. -/
theorem fork_sim {answers : List (Option Frame)} {kernelStack : Bool} (hS : ∀ e ∈ p.addressSpace.leaves, frameOf e ∉ S)
    (hok : ∀ f v e, forking e = true → (guarded e = true → v.pinned = 0) → A f v e)
    (hfail : ∀ e u store, doFork p.addressSpace { m.store with answers } kernelStack = some (.error e, u, store) →
      ∀ f v e, unforking e = true → (guarded e = true → v.pinned = 0) → A f v e)
    (h : procStep m pid p (.fork answers kernelStack) = some m') :
    Sim A (m.ledgerWith S) (m'.ledgerWith S) ∧ m'.Ok := by
  obtain ⟨P, T, hap⟩ := exists_apart hp
  have hu := hm.spaces pid p hp
  have hst := hm.answers answers
  simp only [procStep] at h
  split at h
  · cases h
  next e u store hfk =>
    cases h
    have hc : Carried A P T ↑m.kernelFrames S p.addressSpace { m.store with answers } u store :=
      doFork_error hu hst hS (hfail e u store hfk) hfk
    exact hap.carried hm ⟨hc.sim, hc.space, hc.store⟩
  rename_i child u store hfk
  cases h
  obtain ⟨hu', hchild, hst', hsim⟩ := doFork_ok hu hst hS hok hfk
  have hok' : (m.commit pid { p with addressSpace := u } store).Ok := hm.commit hu' hst'
  have hl := hap.commit { p with addressSpace := u } store S
  refine ⟨?_, fun pid' q hq => ?_, hst'⟩
  · rw [hap.ledger]
    show Sim A _ ⟨total leaves (m.procs.set pid _ ++ [some _]), total tabs (m.procs.set pid _ ++ [some _]), _, _, _⟩
    have hP := congrArg ptes hl
    have hT := congrArg Ledger.tables hl
    rw [total_append, total_append, show total leaves (m.procs.set pid _) = _ from hP,
      show total tabs (m.procs.set pid _) = _ from hT,
      add_assoc, add_assoc, add_comm P, add_comm T]
    exact hsim
  · rcases proc_append hq with heq | hq
    · rw [← some.inj heq]
      exact hchild
    · exact hok'.spaces pid' q hq

/-- **`munmap`** of pages in frames of no segment. -/
theorem munmap_sim {addr length : Nat} (hS : ∀ len, roundUp length = some len →
      PagesAll (fun f => f ∉ S) p.addressSpace.tables (len / 0x1000) (BitVec.ofNat 64 addr))
    (hok : ∀ f v w, v.pinned = 0 → A f v (.unmap w)) (h : procStep m pid p (.munmap addr length) = some m') :
    Sim A (m.ledgerWith S) (m'.ledgerWith S) ∧ m'.Ok := by
  obtain ⟨P, T, hap⟩ := exists_apart hp
  obtain ⟨⟨r, q, store⟩, hr, rfl⟩ := map_eq_some_iff.mp h
  exact hap.carried hm (sysMunmap_spec (hm.spaces pid p hp) hm.store hok hS hr)

/-- **The exit** of a process that maps no frame of a segment. -/
theorem exit_sim (hS : ∀ e ∈ p.addressSpace.leaves, frameOf e ∉ S)
    (hok : ∀ f v w, v.pinned = 0 → A f v (.dropPage w)) (htab : ∀ f v, A f v .dropTable)
    (hdup : ∀ f v, A f v .dupTable) (h : procStep m pid p .exit = some m') :
    Sim A (m.ledgerWith S) (m'.ledgerWith S) ∧ m'.Ok := by
  obtain ⟨P, T, hap⟩ := exists_apart hp
  cases h
  obtain ⟨hdrop, hst⟩ := drop_spec (hm.spaces pid p hp) hm.store hok htab hdup hS
  refine ⟨?_, fun pid' q hq => ?_, hst⟩
  · rw [hap.ledger, hap.exit]
    exact hdrop
  rcases proc_set hq with heq | hq
  · cases heq
  · exact hm.spaces pid' q hq

end

end Segments

section Step

variable (hok : ∀ f v e, ordinary e = true → A f v e)

include hok

variable (hsole : ∀ f v w, v.maps ≤ 1 → A f v (.protect w true))

include hsole

/-- **System calls and faults.** -/
theorem procStep_sim {c : Call} (hm : m.Ok) (hp : m.proc pid = some p)
    (hall : StepAllowed A m (.call pid c)) (h : procStep m pid p c = some m') : Sim A m.ledger m'.ledger ∧ m'.Ok := by
  obtain ⟨P, T, hap⟩ := exists_apart hp
  have hu := hm.spaces pid p hp
  have hmap : ∀ f v e, mapping e = true → A f v e := by
    intro f v e he
    cases e <;> first | exact hok f v _ rfl | cases he
  have hunmap : ∀ f v w, v.pinned = 0 → A f v (.unmap w) := fun f v w _ => hok f v _ rfl
  have hnone : ∀ e ∈ p.addressSpace.leaves, frameOf e ∉ (0 : Multiset Frame) := fun e _ => notMem_zero _
  have hpages : ∀ t : Tables, ∀ n virt, PagesAll (fun f => f ∉ (0 : Multiset Frame)) t n virt :=
    fun t n virt => PagesAll.of_all notMem_zero
  cases c with
  | fork answers kernelStack =>
    refine fork_sim hm hp hnone (fun f v e he _ => ?_) (fun e u store hfk f v e he _ => ?_) h
    · cases e <;> first | exact hok f v _ rfl | cases he
    cases e with
    | forget w => exact hall p _ u store hp hfk f v w
    | _ => first | exact hok f v _ rfl | cases he
  | fault env addr code =>
    cases h
    refine hap.carried hm (pageFaultHandler_spec hu hm.store (hall p hp) (fun f v e he => ?_))
    cases e <;> first | exact hok f v _ rfl | cases he
  | mmap args answers =>
    obtain ⟨⟨r, q, store⟩, hr, rfl⟩ := map_eq_some_iff.mp h
    have hplace : ∀ f v e, placing e = true → v.pinned = 0 → A f v e := by
      intro f v e he _
      cases e <;> first | exact hok f v _ rfl | cases he
    have hc : Carried A P T ↑m.kernelFrames 0 p.addressSpace { m.store with answers } q.addressSpace store :=
      sysMmap_spec hplace hmap (fun hf hpr f v w _ => hall hf hpr f v w) hu (hm.answers answers) hr
    exact hap.carried hm ⟨hc.sim, hc.space, hc.store⟩
  | munmap addr length => exact munmap_sim hm hp (fun len _ => hpages _ _ _) hunmap h
  | mprotect addr length prot =>
    obtain ⟨⟨r, q⟩, hr, rfl⟩ := map_eq_some_iff.mp h
    refine hap.carried hm ?_
    refine sysMprotect_spec (D := fun f => ¬ ∀ v w, A f v (.protect w true)) hu hm.store hall.1
      (fun f v w => hok f v _ rfl) ?_ ?_ hr
    · intro _ f v w hone
      by_cases hany : ∀ v w, A f v (.protect w true)
      · exact hany v w
      · exact hsole f v w (hone hany)
    intro hw len hlen
    refine (hall.2 p len hp hw hlen).mono (fun f hf hnot => ?_)
    have hone : m.mapCount f ≤ 1 := hf.resolve_right hnot
    rw [mapCount_eq] at hone
    have hview : (m.ledger.view f).maps = ((m.ledgerWith 0).view f).maps := rfl
    rw [hview, hap.ledger] at hone
    exact hone
  | madvise addr length advice =>
    obtain ⟨⟨r, q, store⟩, hr, rfl⟩ := map_eq_some_iff.mp h
    exact hap.carried hm (sysMadvise_spec hu hm.store hunmap (fun len _ => hpages _ _ _) hr)
  | exit =>
    exact exit_sim hm hp hnone (fun f v w _ => hok f v _ rfl) (fun f v => hok f v _ rfl) (fun f v => hok f v _ rfl) h

/-- **A step of the machine.** -/
theorem step_sim {a : Action} (hm : m.Ok) (hall : StepAllowed A m a) (h : step m a = some m') :
    Sim A m.ledger m'.ledger ∧ m'.Ok := by
  cases a with
  | call pid c =>
    simp only [step] at h
    split at h
    · cases h
      exact ⟨Sim.refl _, hm⟩
    next p hp =>
      exact procStep_sim hok hsole hm hp hall h
  | kernelAlloc answer =>
    cases h
    have ha := FrameStore.allocFrame_spec { m.store with answers := [answer] }
    have hst := hm.answers [answer]
    have hasked : Sim A m.ledger
        ⟨total leaves m.procs, total tabs m.procs, ↑m.kernelFrames, 0, { m.store with answers := [answer] }⟩ :=
      Sim.ofView (fun _ => rfl)
    unfold kernelAlloc
    split
    next store hal =>
      rw [hal] at ha
      refine ⟨?_, hm.spaces, hst.allocated ha⟩
      exact hasked.trans (sim_refused ha)
    rename_i f store hal
    rw [hal] at ha
    refine ⟨?_, hm.spaces, hst.allocated ha⟩
    exact hasked.trans (sim_take ha (fun f v => hok f v _ rfl))
  | kernelFree f =>
    cases h
    unfold kernelFree
    split
    next hf =>
      refine ⟨?_, hm.spaces, hm.store.freeFrame f⟩
      have hheld : (m.kernelFrames : Multiset Frame) = f ::ₘ ↑(m.kernelFrames.erase f) := by
        rw [← coe_erase, cons_erase hf]
      show Sim A ⟨_, _, ↑m.kernelFrames, _, _⟩ _
      rw [hheld]
      exact sim_giveBack f (fun f v => hok f v _ rfl)
    · exact ⟨Sim.refl _, hm⟩

end Step

/-! ## Machines with one process -/

/-- A machine whose only process has pages from `virt` on. -/
def withProcess (st : FrameStore) (virt : VirtAddr) (numPages : Nat) (flags : MemoryFlags) : Machine :=
  match newWithKernel st with
  | (none, st) => { procs := [], store := st, kernelFrames := [] }
  | (some u, st) =>
    let r := u.allocatePages st virt numPages flags
    { procs := [some { addressSpace := r.2.1, nextMmapAddr := MMAP_MIN_ADDR }], store := r.2.2, kernelFrames := [] }

/-- From a store nobody has frames of, a process with pages comes about by mapping. -/
theorem withProcess_spec {st : FrameStore} (hst : StoreOk st) (hok : ∀ f v e, mapping e = true → A f v e)
    (virt : VirtAddr) (numPages : Nat) (flags : MemoryFlags) :
    Sim A ⟨0, 0, 0, 0, st⟩ (withProcess st virt numPages flags).ledger ∧
      (withProcess st virt numPages flags).Ok := by
  unfold withProcess
  split
  next st1 h =>
    obtain ⟨hst1, hsim, -⟩ := newWithKernel_spec hst hok h
    exact ⟨hsim rfl, fun pid p hp => by simp [proc] at hp, hst1⟩
  rename_i u st1 h
  obtain ⟨hst1, -, hsome⟩ := newWithKernel_spec hst hok h
  obtain ⟨hu, hsim⟩ := hsome u rfl
  obtain ⟨hc, -⟩ := allocatePages_spec hu hst1 hok (rfl : u.allocatePages st1 virt numPages flags = _)
  refine ⟨hsim.trans hc.sim, fun pid p hp => ?_, hc.store⟩
  cases pid with
  | zero =>
    cases hp
    exact hc.space
  | succ pid => simp [proc] at hp

/-- Mapping pages does not touch the tracker. -/
theorem apply_mapping_count {e : Event} {v v' : FrameView} (he : e.mapping = true) (h : v.apply e = some v') :
    v'.count = v.count := by
  cases e with
  | take | markData | markTable =>
    rw [← some.inj (ite_none_right_eq_some.mp h).2]
    rfl
  | giveBack =>
    obtain ⟨u, hu, rfl⟩ := map_eq_some_iff.mp h
    obtain ⟨-, rfl⟩ := FrameView.unhold_eq_some hu
    unfold FrameView.giveBack
    split <;> rfl
  | link | mapNew =>
    obtain ⟨u, hu, rfl⟩ := map_eq_some_iff.mp h
    obtain ⟨-, rfl⟩ := FrameView.unhold_eq_some hu
    rfl
  | _ => cases he

theorem withProcess_counts {st : FrameStore} (hst : StoreOk st) (virt : VirtAddr) (numPages : Nat)
    (flags : MemoryFlags) : (withProcess st virt numPages flags).store.counts = st.counts := by
  funext f
  have hsim := (withProcess_spec hst (fun _ _ _ he => he) virt numPages flags).1
  exact (hsim f).invariant (fun v => v.count = st.counts f)
    (fun v e v' hv he happ => (apply_mapping_count he happ).trans hv) rfl

end Machine

end OxideOs.Vm

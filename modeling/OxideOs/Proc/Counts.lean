import OxideOs.Mm.FrameCounts
import OxideOs.Proc.Isolation

/-!
# `Proc.Counts` — the tracker counts the entries

For every frame the copy-on-write tracker keeps the number of leaf entries that map it, and a frame is free
exactly when nobody has it. This holds in every run of forks and copy-on-write faults that succeed, of `mmap`,
`munmap`, `madvise`, and of processes that exit, as long as no file is mapped privately: `sys_mmap` counts the
pages of a private file mapping twice, though nobody else maps them.
-/

namespace OxideOs.Vm

open Paging Ledger UserAddressSpace FrameView Option

namespace Machine

/-- The start of a run: nothing is tracked, and every frame of the pool has exactly one owner. -/
structure Fresh (pool : Frame → Bool) (m : Machine) : Prop where
  ok : m.Ok
  untracked : ∀ f, m.store.counts f = none
  exact : ∀ f, (m.ledger.view f).Exact (pool f)

/-- Forks and copy-on-write faults succeed, and no page loses all its permissions. -/
def Succeeds (m : Machine) : Action → Prop
  | .call pid (.fork answers kernelStack) =>
    ∀ p, m.proc pid = some p →
      ∃ child u store, doFork p.addressSpace { m.store with answers } kernelStack = some (.ok child, u, store)
  | .call pid (.fault env addr code) =>
    ∀ p, m.proc pid = some p → code.isPresent = true → code.isWrite = true →
      (p.addressSpace.tables (.ofAddr addr .pt)).isCow = true →
      copyReady { m.store with answers := env.answers } (frameOf (p.addressSpace.tables (.ofAddr addr .pt))) = true
  | .call _ (.mprotect _ _ prot) => (protToMemoryFlags prot).isNone = false
  | _ => True

/-- No file is mapped privately. -/
def MapsNoPrivateFile : Action → Prop
  | .call _ (.mmap args _) => args.isAnonymous = true ∨ args.isPrivate = false
  | _ => True

variable {pool : Frame → Bool} {m m' : Machine}

/-- The invariant. -/
structure Counted (pool : Frame → Bool) (m : Machine) : Prop where
  ok : m.Ok
  exact : ∀ f, (m.ledger.view f).Exact (pool f)

/-- Every step of such a run consists of events that keep counts exact. -/
theorem Succeeds.allowed {a : Action} (h : Succeeds m a) (hfile : MapsNoPrivateFile a) :
    StepAllowed (fun _ _ e => KeepsExact e) m a := by
  cases a with
  | call pid c =>
    cases c with
    | fork answers kernelStack =>
      intro p e u store hp hfail
      obtain ⟨child, u', store', hok⟩ := h p hp
      rw [hok] at hfail
      cases hfail
    | fault env addr code => exact h
    | mmap args answers =>
      intro hanon hpriv
      rcases hfile with hf | hf
      · rw [hanon] at hf
        cases hf
      · rw [hpriv] at hf
        cases hf
    | mprotect addr length prot =>
      refine ⟨fun hn => ?_, fun p len hp _ _ => PagesAll.of_all (fun f => .inr fun _ _ => trivial)⟩
      have hs : (protToMemoryFlags prot).isNone = false := h
      rw [hs] at hn
      cases hn
    | _ => trivial
  | _ => trivial

/-- **The invariant is kept by every step.** -/
theorem Counted.step {a : Action} (h : Counted pool m) (ha : Succeeds m a ∧ MapsNoPrivateFile a)
    (hs : Vm.step m a = some m') : Counted pool m' := by
  have hord : ∀ (f : Frame) (v : FrameView) e, Event.ordinary e = true → KeepsExact e := by
    intro f v e _
    cases e <;> trivial
  obtain ⟨hsim, hok⟩ := step_sim hord (fun _ _ _ _ => trivial) h.ok (ha.1.allowed ha.2) hs
  refine ⟨hok, fun f => ?_⟩
  exact (hsim f).invariant (fun v => v.Exact (pool f)) (fun v e v' hv hev happ => hv.apply hev happ) (h.exact f)

end Machine

open Machine

variable {pool : Frame → Bool} {m : Machine}

/-- **The tracker counts the entries**: the count of a tracked frame is the number of leaf entries that map it, an
    untracked frame that is mapped is mapped once, and a frame of the pool is free, once, exactly when no entry
    maps it and neither a table nor the kernel has it. -/
theorem cow_counts_exact
    (h : Run.Reach step (fun m a => Succeeds m a ∧ MapsNoPrivateFile a) (Fresh pool) m) (f : Frame) :
    (∀ n, m.store.counts f = some n → n = m.mapCount f) ∧
      (m.store.counts f = none → 1 ≤ m.mapCount f → m.mapCount f = 1) ∧
      (pool f = true → m.store.free.count f ≤ 1 ∧
        (f ∈ m.store.free ↔ m.mapCount f = 0 ∧
          f ∉ m.spaces.flatMap (fun u => u.pml4Phys :: u.tables.tableFrames) ∧ f ∉ m.kernelFrames)) := by
  have hinv : Counted pool m := h.invariant _ (fun m hm => ⟨hm.ok, hm.exact⟩) (fun _ _ _ => Counted.step)
  have hex := hinv.exact f
  have howner := hex.owner
  rw [mapCount_eq]
  refine ⟨fun n hn => (hex.tracked n hn).1, fun hn h1 => le_antisymm (hex.untracked hn) h1, fun hpool => ?_⟩
  rw [hpool, Bool.toNat_true] at howner
  have hfree : (m.ledger.view f).free = m.store.free.count f := rfl
  have hheld : (m.ledger.view f).held = m.kernelFrames.count f := Multiset.coe_count f m.kernelFrames
  have htabs := tabs_count m f
  rw [← List.count_pos_iff, ← List.count_eq_zero, ← List.count_eq_zero]
  omega

/-! ## A private file mapping -/

section

variable {st : FrameStore} (hst : StoreOk st) (hcounts : ∀ f, st.counts f = none)
  (hfree : ∀ f, st.free.count f = (pool f).toNat) (hrec : ∀ f ∈ st.free, st.recordView f ≠ some none)
include hst hcounts hfree hrec

/-- Before anything is allocated, the frames of the pool are free and nobody has any other. -/
theorem Ledger.view_start (f : Frame) : ((⟨0, 0, 0, 0, st⟩ : Ledger).view f).Exact (pool f) := by
  have hmem : 1 ≤ (pool f).toNat → f ∈ st.free := by
    intro h1
    rw [← hfree f] at h1
    exact List.count_pos_iff.mp h1
  have hview : (⟨0, 0, 0, 0, st⟩ : Ledger).view f =
      ⟨0, 0, 0, 0, 0, (pool f).toNat, decide (f ≠ 0), none, st.recordView f⟩ := by
    unfold view
    simp [hfree, hcounts]
  rw [hview]
  refine ⟨by simp, fun hp => ?_, rfl, nofun, (fun _ => Nat.zero_le _), (fun h1 => absurd h1 (Nat.not_lt_zero 0)),
    (fun h1 => absurd h1 (Nat.not_lt_zero 0)), (fun h1 => absurd h1 (Nat.not_lt_zero 0)), fun h1 => hrec f (hmem h1)⟩
  refine decide_eq_true (fun h0 => hst.zero ?_)
  rw [← h0]
  exact hmem (by rw [hp]; decide)

/-- A process made from free frames is a start. -/
theorem Machine.withProcess_fresh (virt : VirtAddr) (numPages : Nat) (flags : MemoryFlags) :
    Fresh pool (withProcess st virt numPages flags) := by
  obtain ⟨hsim, hok⟩ := withProcess_spec hst (fun _ _ _ he => he) virt numPages flags
  refine ⟨hok, fun f => ?_, fun f => ?_⟩
  · rw [withProcess_counts hst]
    exact hcounts f
  have hkeep : ∀ v e v', v.Exact (pool f) → Event.mapping e = true → apply v e = some v' → v'.Exact (pool f) := by
    intro v e v' hv he happ
    refine hv.apply ?_ happ
    cases e <;> trivial
  exact (hsim f).invariant (fun v => v.Exact (pool f)) hkeep (view_start hst hcounts hfree hrec f)

end

def tenPool (f : Frame) : Bool := decide (f ∈ tenFrames.free)

theorem onePage_fresh : Fresh tenPool onePage := by
  refine withProcess_fresh ⟨rfl, by decide⟩ (fun f => rfl) (fun f => ?_) (fun f _ hnone => by cases hnone) _ _ _
  show tenFrames.free.count f = (decide (f ∈ tenFrames.free)).toNat
  by_cases hf : f ∈ tenFrames.free
  · rw [decide_eq_true hf]
    exact List.count_eq_one_of_mem (by decide) hf
  · rw [decide_eq_false hf]
    exact List.count_eq_zero.mpr hf

/-- A fork of the first process succeeds. -/
def Machine.forks (m : Machine) (answers : List (Option Frame)) : Bool :=
  (m.proc 0).all (fun p =>
    match doFork p.addressSpace { m.store with answers } true with
    | some (.ok _, _, _) => true
    | _ => false)

theorem Machine.succeeds_of_forks {m : Machine} {answers : List (Option Frame)} (h : m.forks answers = true) :
    Succeeds m (.call 0 (.fork answers true)) := by
  intro p hp
  unfold forks at h
  rw [hp, all_some] at h
  split at h
  next child u store heq =>
    exact ⟨child, u, store, heq⟩
  · cases h

set_option maxRecDepth 100000 in
/-- After a fork the page is counted twice, and two entries map it. -/
theorem cow_counts_after_fork :
    ∃ m, Run.Reach step (fun m a => Succeeds m a ∧ MapsNoPrivateFile a) (Fresh tenPool) m ∧
      m.store.counts 2 = some 2 ∧ m.mapCount 2 = 2 := by
  have hrun : (step onePage forkAction).map (fun m => m.store.counts 2) = some (some 2) := by decide +kernel
  obtain ⟨m, hm, hc⟩ := map_eq_some_iff.mp hrun
  have hforks : onePage.forks [some 6, some 7, some 8, some 9] = true := by decide +kernel
  have hreach : Run.Reach step (fun m a => Succeeds m a ∧ MapsNoPrivateFile a) (Fresh tenPool) m :=
    (Run.Reach.start onePage_fresh).next (a := forkAction) ⟨succeeds_of_forks hforks, trivial⟩ hm
  exact ⟨m, hreach, hc, ((cow_counts_exact hreach 2).1 2 hc).symm⟩

/-- One page of a file, mapped privately. -/
def mapFileAction : Action :=
  .call 0 (.mmap
    { addr := 0x401000
      length := 0x1000
      prot := PROT_READ
      mapFlags := MAP_PRIVATE ||| MAP_FIXED
      file := { isOpen := true, seekOk := true, readOk := true }
      offset := 0 } [some 6])

set_option maxRecDepth 100000 in
/-- **A private file mapping is counted twice**: one entry maps the frame, and the tracker says two. -/
theorem mmap_file_overcounts :
    ∃ m, Run.Reach step Succeeds (Fresh tenPool) m ∧ m.store.counts 6 = some 2 ∧ m.mapCount 6 = 1 := by
  have hrun : (step onePage mapFileAction).map (fun m => (m.store.counts 6, m.mapCount 6)) =
      some (some 2, 1) := by decide +kernel
  obtain ⟨m, hm, hv⟩ := map_eq_some_iff.mp hrun
  exact ⟨m, (Run.Reach.start onePage_fresh).next (a := mapFileAction) trivial hm, congrArg Prod.fst hv,
    congrArg Prod.snd hv⟩

end OxideOs.Vm

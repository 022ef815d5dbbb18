import OxideOs.Proc.Mapping

/-!
# `Proc.FaultSpec` — page faults in the lives of frames

A copy-on-write fault is a claim or a split, provided that there is a frame for the copy (`copyReady`): without
one the reference is lost although the entry stays. All other faults at most supply a page.
-/

namespace OxideOs.Vm

open Multiset Pagedb Paging PageTableFlags Ledger UserAddressSpace Vma PageTableEntry BitVec FrameStore Event Bool

variable {u u' : UserAddressSpace} {st st' : FrameStore} {s : Slot} {f : Frame} {virt : VirtAddr}
variable {A : Frame → FrameView → Event → Prop} {P : Multiset PageTableEntry} {T H S : Multiset Frame}

/-! ## Copy-on-write faults -/

/-- A copy of the frame can be had if one is needed: the allocator's first answer is a free frame. -/
def copyReady (st : FrameStore) (f : Frame) : Bool :=
  match st.counts f with
  | none => true
  | some c =>
    decide (c ≤ 1) ||
      match st.answers with
      | some g :: _ => decide (g ∈ st.free) && decide (g ≠ f)
      | _ => false

/-- The events of a copy-on-write fault. -/
def Event.copying : Event → Bool
  | .claim _ | .split _ => true
  | e => e.mapping

theorem privateFlags_present (entry : PageTableEntry) : (privateFlags entry).bits.getLsbD 0 = entry.isPresent := by
  rw [isPresent_eq]
  show (((entry.raw &&& ALL_FLAGS) ||| WRITABLE.bits) &&& ~~~COW.bits).getLsbD 0 = _
  rw [getLsbD_and, getLsbD_or, getLsbD_and, getLsbD_not]
  rw [show ALL_FLAGS.getLsbD 0 = true by decide, show WRITABLE.bits.getLsbD 0 = false by decide,
    show COW.bits.getLsbD 0 = false by decide]
  simp

theorem privateFlags_writable (entry : PageTableEntry) : (privateFlags entry).bits.getLsbD 1 = true := by
  show (((entry.raw &&& ALL_FLAGS) ||| WRITABLE.bits) &&& ~~~COW.bits).getLsbD 1 = _
  rw [getLsbD_and, getLsbD_or, getLsbD_not, show WRITABLE.bits.getLsbD 1 = true by decide,
    show COW.bits.getLsbD 1 = false by decide]
  simp

/-- `try_claim_exclusive` does not touch the allocator. -/
theorem tryClaimExclusive_frame {b : Bool} (h : st.tryClaimExclusive f = (b, st')) :
    st'.answers = st.answers ∧ st'.free = st.free := by
  unfold tryClaimExclusive at h
  split at h
  · cases h
    exact ⟨rfl, rfl⟩
  split at h
  all_goals
    cases h
    exact ⟨rfl, rfl⟩

/-- A frame found shared is tracked with more than one reference. -/
theorem tryClaimExclusive_shared (h : st.tryClaimExclusive f = (false, st')) : ∃ c, st.counts f = some c ∧ ¬ c ≤ 1 := by
  unfold tryClaimExclusive at h
  split at h
  · cases (Prod.mk.inj h).1
  rename_i c hc
  split at h
  · cases (Prod.mk.inj h).1
  next hle =>
    exact ⟨c, hc, hle⟩

/-- With a willing allocator the first attempt gives the frame for the copy. -/
theorem allocCopy_ready {g : Frame} {rest : List (Option Frame)} {n : Nat} (ha : st.answers = some g :: rest)
    (hg : g ∈ st.free) (hne : g ≠ f) : ∃ st', allocCopy f (n + 1) st = (some g, st') ∧ st.Allocated (some g) st' := by
  have hspec := allocFrame_spec st
  have hfst : st.allocFrame.1 = some g := by
    unfold allocFrame
    rw [ha]
    simp [hg]
  rw [hfst] at hspec
  refine ⟨st.allocFrame.2, ?_, hspec⟩
  have hal : st.allocFrame = (some g, st.allocFrame.2) := Prod.ext hfst rfl
  unfold allocCopy
  rw [hal]
  simp [hne]

/-- **A write to a COW page.** -/
theorem resolveCow_spec (hu : SpaceOk u) (hst : StoreOk st) (hs : s.isPt = true) (hv : u.tables.Visited s)
    (hp : (u.tables s).isPresent = true) (hready : copyReady st (frameOf (u.tables s)) = true)
    (hok : ∀ f v e, copying e = true → A f v e) : (resolveCow u st s).1 = true ∧
      Carried A P T H S u st (resolveCow u st s).2.1 (resolveCow u st s).2.2 := by
  have hold := leaves_present hs hv hp
  have hset : ∀ g : Frame, (set g.addr (privateFlags (u.tables s))).isPresent = true := by
    intro g
    rw [isPresent_eq, getLsbD_set _ _ (by decide), privateFlags_present, hp]
  simp only [resolveCow]
  split
  · -- the last owner
    rename_i st1 hclaim
    have hpres : ((u.tables s).setFlags (privateFlags (u.tables s))).isPresent = true := by
      rw [isPresent_eq, getLsbD_setFlags _ _ (by decide), privateFlags_present, hp]
    have hwrite : ((u.tables s).setFlags (privateFlags (u.tables s))).isWritable = true := by
      rw [isWritable_eq, getLsbD_setFlags _ _ (by decide), privateFlags_writable]
    refine ⟨rfl, ?_, hu.setEntry hs hv.first_lt _, hst.tryClaimExclusive hclaim⟩
    rw [hold, leaves_setEntry hs hv hpres, tabs_setEntry hs, cons_add, cons_add]
    exact sim_claim hclaim (frameOf_setFlags _ _) hwrite (fun f v w => hok f v _ rfl)
  -- one of several owners
  rename_i st1 hclaim
  obtain ⟨hans, hfree⟩ := tryClaimExclusive_frame hclaim
  obtain ⟨c, hc, hmany⟩ := tryClaimExclusive_shared hclaim
  obtain ⟨g, rest, ha, hg, hne⟩ : ∃ g rest, st1.answers = some g :: rest ∧ g ∈ st1.free ∧ g ≠ frameOf (u.tables s) := by
    unfold copyReady at hready
    rw [hc] at hready
    simp only [decide_eq_false hmany, Bool.false_or] at hready
    rw [hans, hfree]
    split at hready
    next g rest ha =>
      simp only [and_eq_true, decide_eq_true_eq] at hready
      exact ⟨g, rest, ha, hready⟩
    · cases hready
  obtain ⟨st2, hcopy, halloc⟩ := allocCopy_ready ha hg hne
  rw [hcopy]
  have hst1 := hst.tryClaimExclusive hclaim
  refine ⟨rfl, ?_, hu.setEntry hs hv.first_lt _, hst1.allocated halloc⟩
  rw [hold, leaves_setEntry hs hv (hset g), tabs_setEntry hs, cons_add, cons_add]
  refine (sim_split hclaim (fun f v w => hok f v _ rfl)).trans ?_
  refine (sim_take halloc (fun f v => hok f v _ rfl)).trans ?_
  have hnew := sim_mapNew ((u.setEntry s empty).leaves + P) (u.tabs + T) H S st2
    (set g.addr (privateFlags (u.tables s))) (fun f v w => hok f v _ rfl)
  rwa [frameOf_set] at hnew

/-- **`handle_cow_fault`.** -/
theorem handleCowFault_spec (hu : SpaceOk u) (hst : StoreOk st) (hready : (u.tables (.ofAddr virt .pt)).isCow = true →
      copyReady st (frameOf (u.tables (.ofAddr virt .pt))) = true) (hok : ∀ f v e, copying e = true → A f v e) :
    Carried A P T H S u st (handleCowFault u st virt).2.1 (handleCowFault u st virt).2.2 := by
  simp only [handleCowFault]
  split
  · exact .refl hu hst
  rename_i h4
  split
  · exact .refl hu hst
  rename_i h3
  split
  · exact .refl hu hst
  rename_i h2
  split
  · exact .refl hu hst
  rename_i hp
  split
  · exact .refl hu hst
  rename_i hcow
  simp only [not_eq_true', not_eq_false] at h4 h3 h2 hp hcow
  -- a COW page lies in the user half
  have huser : (PageLevel.pml4.index virt).val < 256 := by
    refine Nat.lt_of_not_le (fun hge => ?_)
    have := hu.kernelHalf (.ofAddr virt .pt) rfl hge
    rw [hcow] at this
    cases this
  exact (resolveCow_spec hu hst rfl (visited_ofAddr_pt huser h4 h3 h2) hp (hready hcow) hok).2

/-! ## The handler -/

theorem isPresent_stack (f : Frame) : (set f.addr (PRESENT ||| WRITABLE ||| USER ||| NO_EXECUTE)).isPresent = true := by
  rw [isPresent_eq, getLsbD_set _ _ (by decide)]
  decide

theorem isPresent_demand (flags : VmFlags) (f : Frame) : (set f.addr (demandFlags flags)).isPresent = true := by
  rw [isPresent_eq, getLsbD_set _ _ (by decide)]
  unfold demandFlags
  cases flags.write <;> cases flags.exec <;> decide

theorem pageAddr_user (h : virt < USER_END) : (PageLevel.pml4.index (pageAddr virt)).val < 256 := by
  refine index_pml4_lt (lt_def.mpr (lt_of_le_of_lt ?_ (lt_def.mp h)))
  exact Nat.and_le_left

/-- The handlers that consult the areas at most supply a page. -/
theorem areaFault_spec {env : FaultEnv} {code : FaultCode} (area : VmArea) (hu : SpaceOk u) (hst : StoreOk st)
    (hvirt : virt < USER_END) (hok : ∀ f v e, mapping e = true → A f v e) :
    Carried A P T H S u st (areaFault u st env virt code area).2.1 (areaFault u st env virt code area).2.2 := by
  have hdemand : ∀ b u1 st1, (if !code.isPresent && accessOk area.flags code.isWrite && demandPaged area.vmType then
      handleDemandPage u st (pageAddr virt) area.flags else (false, u, st)) = (b, u1, st1) →
      Carried A P T H S u st u1 st1 := by
    intro b u1 st1 h
    split at h
    · have hspec : Carried A P T H S u st (handleDemandPage u st (pageAddr virt) area.flags).2.1
          (handleDemandPage u st (pageAddr virt) area.flags).2.2 :=
        supplyPage_spec hu hst hok (pageAddr_user hvirt) (isPresent_demand area.flags)
      rw [h] at hspec
      exact hspec
    · cases h
      exact .refl hu hst
  simp only [areaFault]
  split
  next u1 st1 h =>
    exact hdemand _ _ _ h
  rename_i u1 st1 h
  have hc := hdemand _ _ _ h
  split
  · unfold handleStackGrowth
    split
    · exact hc
    · exact hc.trans (supplyPage_spec hc.space hc.store hok (pageAddr_user hvirt) isPresent_stack)
  · exact hc

/-- With nothing on swap, nothing is brought back. -/
theorem swapIn_eq (hst : StoreOk st) : swapIn u st virt = (false, u, st) := by
  unfold swapIn
  split
  · rfl
  unfold pageIn
  rw [hst.swap]
  rfl

/-- **`page_fault_handler`**, where a copy can be had whenever one is needed. -/
theorem pageFaultHandler_spec {env : FaultEnv} {code : FaultCode} (hu : SpaceOk u) (hst : StoreOk st)
    (hready : code.isPresent = true → code.isWrite = true → (u.tables (.ofAddr virt .pt)).isCow = true →
      copyReady { st with answers := env.answers } (frameOf (u.tables (.ofAddr virt .pt))) = true)
    (hok : ∀ f v e, copying e = true → A f v e) :
    Carried A P T H S u st (pageFaultHandler u st env virt code).2.1
      (pageFaultHandler u st env virt code).2.2 := by
  have hst0 : StoreOk { st with answers := env.answers } := ⟨hst.swap, hst.zero⟩
  have hstart : Carried A P T H S u st u { st with answers := env.answers } := ⟨Sim.ofView (fun _ => rfl), hu, hst0⟩
  have hmap : ∀ f v e, mapping e = true → A f v e := by
    intro f v e he
    refine hok f v e ?_
    cases e <;> first | rfl | exact he
  have hcow : ∀ b u1 st1, (if code.isPresent && code.isWrite then
      handleCowFault u { st with answers := env.answers } virt
      else (false, u, { st with answers := env.answers })) = (b, u1, st1) → Carried A P T H S u st u1 st1 := by
    intro b u1 st1 h
    split at h
    next hcode =>
      obtain ⟨hpr, hwr⟩ := and_eq_true_iff.mp hcode
      have hspec := handleCowFault_spec (P := P) (T := T) (H := H) (S := S) hu hst0 (hready hpr hwr) hok
      rw [h] at hspec
      exact hstart.trans hspec
    · cases h
      exact hstart
  simp only [pageFaultHandler]
  split
  · exact hstart
  split
  next u1 st1 h =>
    exact hcow _ _ _ h
  rename_i u1 st1 h
  have hc := hcow _ _ _ h
  rw [swapIn_eq hc.store, ite_self]
  simp only
  split
  next hvirt =>
    unfold vmaFault
    split
    · exact hc
    split
    · exact hc.trans (areaFault_spec _ hc.space hc.store (by simpa using hvirt) hmap)
    · exact hc
  · exact hc

end OxideOs.Vm

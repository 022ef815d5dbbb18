import OxideOs.Proc.Isolation

/-!
# `Proc.Permissions` — what a fork does to read-only pages

`clone_address_space_cow` marks every page COW, also a page that was never writable, and `handle_cow_fault`
makes every COW page writable: what the page allowed before the fork is recorded nowhere in its entry, and the
areas are not asked. After a fork, parent and child can write to the program text. Each write either makes the
page writable or costs the frame a reference, so writing to it again and again is enough, whatever the frame
allocator answers.
-/

namespace OxideOs.Vm

open Function Pagedb Paging PageTableFlags Ledger UserAddressSpace Vma BitVec Slot Bool Tables PageTableEntry

variable {u u' child : UserAddressSpace} {st st' : FrameStore} {virt : VirtAddr} {f : Frame} {env : FaultEnv}

/-! ## Faults of one process -/

/-- Faults of a process, one after the other: what the handler reported each time, and what is left. -/
def pageFaults : List (FaultEnv × VirtAddr × FaultCode) → UserAddressSpace → FrameStore →
    List Bool × UserAddressSpace × FrameStore
  | [], u, st => ([], u, st)
  | (env, addr, code) :: faults, u, st =>
    let (handled, u, st) := pageFaultHandler u st env addr code
    let (reports, u, st) := pageFaults faults u st
    (handled :: reports, u, st)

/-- A write from user mode to a page that is present. -/
def userWrite : FaultCode := { isPresent := true, isWrite := true, isUser := true }

/-- The process writes to the same address `n` times. -/
def writes (virt : VirtAddr) (envs : Nat → FaultEnv) (n : Nat) : List (FaultEnv × VirtAddr × FaultCode) :=
  (List.range n).map (fun i => (envs i, virt, userWrite))

theorem writes_succ (envs : Nat → FaultEnv) (n : Nat) :
    writes virt envs (n + 1) = (envs 0, virt, userWrite) :: writes virt (fun i => envs (i + 1)) n := by
  unfold writes
  rw [List.range_succ_eq_map, List.map_cons, List.map_map]
  rfl

/-- A page of a process that is marked COW. -/
structure CowPage (u : UserAddressSpace) (virt : VirtAddr) : Prop where
  user : virt < USER_END
  visited : u.tables.Visited (.ofAddr virt .pt)
  present : (u.tables (.ofAddr virt .pt)).isPresent = true
  cow : (u.tables (.ofAddr virt .pt)).isCow = true

/-! ## One write -/

theorem pageAddr_ushiftRight {k : Nat} (hk : 12 ≤ k) : pageAddr virt >>> k = virt >>> k := by
  refine eq_of_getLsbD_eq (fun i _ => ?_)
  have hmask : Nat.testBit 0xFFF (k + i) = false :=
    Nat.testBit_lt_two_pow (lt_of_lt_of_le (by decide : 0xFFF < 2 ^ 12) (Nat.pow_le_pow_right (by decide) (by omega)))
  simp only [pageAddr, getLsbD_ushiftRight, getLsbD_and, getLsbD_not, getLsbD_ofNat, hmask]
  by_cases hlt : k + i < 64
  · simp [hlt]
  · simp [getLsbD_of_ge virt (k + i) (by omega)]

/-- The offset in the page does not matter for the walk. -/
theorem index_pageAddr (level : PageLevel) : level.index (pageAddr virt) = level.index virt := by
  refine Fin.ext ?_
  show (pageAddr virt >>> (12 + (level.number - 1) * 9) &&& 0x1FF#64).toNat = _
  rw [pageAddr_ushiftRight (by omega)]
  rfl

theorem ofAddr_pageAddr (level : PageLevel) : ofAddr (pageAddr virt) level = ofAddr virt level := by
  cases level <;> simp [ofAddr, index_pageAddr]

/-- Where the tables are there already, a step down changes nothing. -/
theorem descend_present {s : Slot} (hp : (u.tables s).isPresent = true)
    (hh : (∃ i, s = .pml4 i) ∨ (u.tables s).isHuge = false) : descend u st s = (true, u, st) := by
  unfold descend
  rw [if_pos hp]
  rcases hh with ⟨i, rfl⟩ | hh
  · rfl
  · cases s <;> simp [hh]

/-- A page that is there is not supplied. -/
theorem supplyPage_present {present : PageTableEntry → Bool} {flags : PageTableFlags}
    (hv : u.tables.Visited (.ofAddr virt .pt)) (hp : (u.tables (.ofAddr virt .pt)).isPresent = true) :
    supplyPage u st virt present flags = (present (u.tables (.ofAddr virt .pt)), u, st) := by
  obtain ⟨⟨⟨-, h4⟩, h3⟩, h2⟩ := hv
  obtain ⟨h3, hh3⟩ := leads_iff.mp h3
  obtain ⟨h2, hh2⟩ := leads_iff.mp h2
  unfold supplyPage
  rw [descend_present (s := .ofAddr virt .pml4) h4 (.inl ⟨_, rfl⟩)]
  simp only
  rw [descend_present (s := .ofAddr virt .pdpt) h3 (.inr hh3)]
  simp only
  rw [descend_present (s := .ofAddr virt .pd) h2 (.inr hh2)]
  simp only
  rw [if_pos hp]

/-- The areas supply nothing to a page that is there. -/
theorem vmaFault_present (st : FrameStore) (env : FaultEnv) {code : FaultCode} (hcode : code.isPresent = true)
    (hv : u.tables.Visited (.ofAddr virt .pt)) (hp : (u.tables (.ofAddr virt .pt)).isPresent = true) :
    (vmaFault u st env virt code).2 = (u, st) := by
  unfold vmaFault
  split
  · rfl
  split
  swap
  · rfl
  unfold areaFault
  simp only [hcode, Bool.not_true, Bool.false_and, false_eq_true, if_false]
  split
  · unfold handleStackGrowth
    split
    · rfl
    · rw [supplyPage_present (by rwa [ofAddr_pageAddr]) (by rwa [ofAddr_pageAddr])]
  · rfl

theorem FrameStore.Allocated.counts_eq {r : Option Frame} (h : st.Allocated r st') : st'.counts = st.counts := by
  cases h <;> rfl

/-- The tracker is not asked when a frame for the copy is sought. -/
theorem allocCopy_counts (f : Frame) (n : Nat) (st : FrameStore) : (allocCopy f n st).2.counts = st.counts := by
  induction n generalizing st with
  | zero => rfl
  | succ n ih =>
    have ha := (FrameStore.allocFrame_spec st).counts_eq
    unfold allocCopy
    split
    next st1 hal =>
      rw [hal] at ha
      exact ha
    rename_i g st1 hal
    rw [hal] at ha
    split
    · exact ha
    · rw [ih]
      exact ha

/-- One owner less, where there are several. -/
theorem tryClaimExclusive_count (h : st.tryClaimExclusive f = (false, st')) :
    ∃ c, st.counts f = some (c + 1) ∧ st'.counts f = some c := by
  unfold FrameStore.tryClaimExclusive at h
  split at h
  · cases (Prod.mk.inj h).1
  rename_i c hc
  split at h
  · cases (Prod.mk.inj h).1
  cases h
  refine ⟨c - 1, ?_, update_self _ _ _⟩
  rw [hc, Nat.sub_add_cancel (by omega)]

/-- The page can be written to. -/
def CanWrite (u : UserAddressSpace) (virt : VirtAddr) : Prop :=
  (u.tables (.ofAddr virt .pt)).isPresent = true ∧ (u.tables (.ofAddr virt .pt)).isWritable = true

/-- **A write to a COW page** makes it writable, or costs its frame a reference and changes nothing else. -/
theorem resolveCow_cases (st : FrameStore) {s : Slot} (hp : (u.tables s).isPresent = true) :
    ((resolveCow u st s).1 = true ∧ ((resolveCow u st s).2.1.tables s).isPresent = true ∧
        ((resolveCow u st s).2.1.tables s).isWritable = true) ∨
      ((resolveCow u st s).1 = false ∧ (resolveCow u st s).2.1 = u ∧
        ∃ c, st.counts (frameOf (u.tables s)) = some (c + 1) ∧
          (resolveCow u st s).2.2.counts (frameOf (u.tables s)) = some c) := by
  simp only [resolveCow]
  split
  · left
    refine ⟨rfl, ?_⟩
    show (update u.tables s _ s).isPresent = true ∧ (update u.tables s _ s).isWritable = true
    rw [update_self, isPresent_eq, isWritable_eq, getLsbD_setFlags _ _ (by decide), getLsbD_setFlags _ _ (by decide)]
    exact ⟨(privateFlags_present _).trans hp, privateFlags_writable _⟩
  rename_i st1 hclaim
  have hcounts := allocCopy_counts (frameOf (u.tables s)) 8 st1
  split
  next st2 hcopy =>
    right
    rw [hcopy] at hcounts
    rw [hcounts]
    exact ⟨rfl, rfl, tryClaimExclusive_count hclaim⟩
  left
  refine ⟨rfl, ?_⟩
  show (update u.tables s _ s).isPresent = true ∧ (update u.tables s _ s).isWritable = true
  rw [update_self, isPresent_eq, isWritable_eq, getLsbD_set _ _ (by decide), getLsbD_set _ _ (by decide)]
  exact ⟨(privateFlags_present _).trans hp, privateFlags_writable _⟩

theorem CowPage.handleCowFault_eq (h : CowPage u virt) :
    handleCowFault u st virt = resolveCow u st (.ofAddr virt .pt) := by
  obtain ⟨⟨⟨-, h4⟩, h3⟩, h2⟩ := h.visited
  have h4 : (u.tables (.ofAddr virt .pml4)).isPresent = true := h4
  have h3 : u.tables.leads (.ofAddr virt .pdpt) = true := h3
  have h2 : u.tables.leads (.ofAddr virt .pd) = true := h2
  simp [handleCowFault, h4, h3, h2, h.present, h.cow]

/-- **A write to a COW page from user mode.** When no copy can be made, the areas are asked in vain. -/
theorem CowPage.write (h : CowPage u virt) (st : FrameStore) (env : FaultEnv) :
    ((pageFaultHandler u st env virt userWrite).1 = true ∧
        CanWrite (pageFaultHandler u st env virt userWrite).2.1 virt) ∨
      ((pageFaultHandler u st env virt userWrite).2.1 = u ∧
        ∃ c, st.counts (frameOf (u.tables (.ofAddr virt .pt))) = some (c + 1) ∧
          (pageFaultHandler u st env virt userWrite).2.2.counts (frameOf (u.tables (.ofAddr virt .pt))) = some c) := by
  have huser : decide (virt < USER_END) = true := decide_eq_true h.user
  have hcases := resolveCow_cases { st with answers := env.answers } h.present
  simp only [pageFaultHandler, userWrite, huser, Bool.or_self, Bool.not_true, Bool.and_false, false_eq_true,
    if_false, Bool.and_self, if_true, h.handleCowFault_eq, Bool.false_and]
  split
  next u1 st1 hr =>
    rw [hr] at hcases
    rcases hcases with ⟨-, hw⟩ | ⟨hf, -⟩
    · exact .inl ⟨rfl, hw⟩
    · cases hf
  rename_i u1 st1 hr
  rw [hr] at hcases
  rcases hcases with ⟨hf, -⟩ | ⟨-, hu, c, hc, hc'⟩
  · cases hf
  right
  obtain rfl : u1 = u := hu
  have hnone := vmaFault_present st1 env (rfl : userWrite.isPresent = true) h.visited h.present
  rw [show (vmaFault u1 st1 env virt ⟨true, true, true⟩).2 = _ from hnone]
  exact ⟨rfl, c, hc, hc'⟩

/-! ## Write after write -/

/-- The last of the writes was reported as handled, and the page can be written to now. -/
def Succeeded (r : List Bool × UserAddressSpace × FrameStore) (virt : VirtAddr) : Prop :=
  r.1.getLast? = some true ∧ CanWrite r.2.1 virt

/-- **Whatever the allocator answers, some write goes through**, by induction on the references to the frame. -/
theorem CowPage.writes_succeed (h : CowPage u virt) (c : Nat)
    (hc : ∀ n, st.counts (frameOf (u.tables (.ofAddr virt .pt))) = some n → n ≤ c) (envs : Nat → FaultEnv) :
    ∃ n, Succeeded (pageFaults (writes virt envs n) u st) virt := by
  induction c using Nat.strong_induction_on generalizing st envs with
  | _ c ih =>
    rcases h.write st _ with ⟨hr, hw⟩ | ⟨hu, c', hcount, hcount'⟩
    · refine ⟨1, ?_⟩
      exact ⟨congrArg some hr, hw⟩
    -- nothing but the count has changed: go on with one reference less
    have hle := hc _ hcount
    obtain ⟨n, hn⟩ : ∃ n, Succeeded (pageFaults (writes virt (fun i => envs (i + 1)) n) u
        (pageFaultHandler u st (envs 0) virt userWrite).2.2) virt := by
      refine ih c' hle (fun n hn => ?_) _
      rw [hcount'] at hn
      have := Option.some.inj hn
      omega
    refine ⟨n + 1, ?_⟩
    rw [writes_succ]
    simp only [pageFaults, hu]
    refine ⟨?_, hn.2⟩
    have hlast := hn.1
    rw [List.getLast?_cons, hlast]
    rfl

/-! ## After a fork -/

/-- A page from which the process may read, and no more: present, neither writable nor COW. -/
structure ReadOnlyPage (u : UserAddressSpace) (virt : VirtAddr) : Prop where
  user : virt < USER_END
  reaches : u.tables.reaches virt = true
  present : (u.tables (.ofAddr virt .pt)).isPresent = true
  readOnly : (u.tables (.ofAddr virt .pt)).isWritable = false
  notCow : (u.tables (.ofAddr virt .pt)).isCow = false

/-- **A fork marks every page COW**, in the parent and in the child. -/
theorem CowPage.of_fork (hu : SpaceOk u) (hst : StoreOk st) (huser : virt < USER_END)
    (hv : u.tables.Visited (.ofAddr virt .pt)) (hp : (u.tables (.ofAddr virt .pt)).isPresent = true)
    (h : cloneAddressSpaceCow u st = some (.ok child, u', st')) : CowPage u' virt ∧ CowPage child virt := by
  rcases cloneAddressSpaceCow_cases h with ⟨e, hr, -⟩ | ⟨pml4, st1, c, ha, ⟨e, -, hr, -⟩ | ⟨hc, hr, rfl, rfl⟩⟩
  · cases hr
  · cases hr
  cases hr
  have hstep := cloneSlots_start (A := fun _ _ _ => True) (P := 0) (T := 0) (H := 0) hu hst
    (fun e _ => Multiset.notMem_zero _) (fun _ _ => trivial) (fun _ _ _ _ => trivial) ha hc
  have hinv := hstep.1.inv rfl
  have hin : ofAddr virt .pt ∈ u.tables.visits := mem_visits.mpr hv
  have hparent : c.parent (.ofAddr virt .pt) = sharedParent (u.tables (.ofAddr virt .pt)) :=
    hinv.parentDone _ hin rfl hp
  have hchild : c.child (.ofAddr virt .pt) = sharedChild (u.tables (.ofAddr virt .pt)) := by
    rw [hinv.page _ hin rfl, childEntry, if_pos hp]
  constructor
  · -- the tables of the parent are where they were
    have hup : ∀ s, s.isPt = false → c.parent s = u.tables s := fun s hs => hinv.parentRest s (.inr (.inl hs))
    refine ⟨huser, ?_, ?_, ?_⟩
    · rw [← mem_visits, visits_congr hup]
      exact hin
    · show (c.parent _).isPresent = true
      rw [hparent, sharedParent, isPresent_eq, getLsbD_setFlags _ _ (by decide), cowFlags_present, hp]
    · show (c.parent _).isCow = true
      rw [hparent, sharedParent, isCow_eq, getLsbD_setFlags _ _ (by decide), cowFlags_cow]
  · refine ⟨huser, hinv.visited _ hin, ?_, ?_⟩
    · show (c.child _).isPresent = true
      rw [hchild, sharedChild, isPresent_eq, getLsbD_set _ _ (by decide), cowFlags_present, hp]
    · show (c.child _).isCow = true
      rw [hchild, sharedChild, isCow_eq, getLsbD_set _ _ (by decide), cowFlags_cow]

/-- **A fork lets both processes write to read-only pages**: whichever of the two writes to such a page, and
    whatever its faults meet, after finitely many writes the handler reports success and the page is writable. -/
theorem fork_grants_write {kernelStack : Bool} {q : UserAddressSpace} (hu : SpaceOk u) (hst : StoreOk st)
    (hpage : ReadOnlyPage u virt) (hfork : doFork u st kernelStack = some (.ok child, u', st'))
    (hq : q = u' ∨ q = child) (envs : Nat → FaultEnv) :
    ∃ n, Succeeded (pageFaults (writes virt envs n) q st') virt := by
  rcases doFork_cases hfork with ⟨e, hr, -⟩ | ⟨_, _, hr, -⟩ | ⟨child', hr, hclone⟩
  · cases hr
  · cases hr
  cases hr
  obtain ⟨hparent, hchild⟩ :=
    CowPage.of_fork hu hst hpage.user (visited_of_reaches hpage.user hpage.reaches) hpage.present hclone
  have hcow : CowPage q virt := by
    rcases hq with rfl | rfl
    · exact hparent
    · exact hchild
  refine hcow.writes_succeed ((st'.counts (frameOf (q.tables (.ofAddr virt .pt)))).getD 0) (fun n hn => ?_) envs
  rw [hn]
  exact le_refl n

/-- No frame is free. -/
def emptyStore : FrameStore := { free := [], pagedb := none, counts := fun _ => none, swapCache := [], answers := [] }

/-- An address space with one page, in frame `f`. -/
def UserAddressSpace.single (virt : VirtAddr) (f : Frame) (flags : PageTableFlags) : UserAddressSpace :=
  { pml4Phys := 1
    tables := fun s =>
      if s = .ofAddr virt .pml4 then set (Frame.addr 2) TABLE_FLAGS
      else if s = .ofAddr virt .pdpt then set (Frame.addr 3) TABLE_FLAGS
      else if s = .ofAddr virt .pd then set (Frame.addr 4) TABLE_FLAGS
      else if s = .ofAddr virt .pt then set f.addr flags
      else PageTableEntry.empty
    allocatedFrames := [2, 3, 4]
    vmas := ⟨[VmArea.new virt.toNat (virt.toNat + 0x1000) { read := true, write := true } .anon]⟩ }

/-- One process with one page of program text. -/
def textPage : Machine :=
  Machine.withProcess tenFrames 0x400000#64 1 { read := true, write := false, execute := true, user := true }

/-- The page at an address that the process may only read. -/
def UserAddressSpace.isReadOnly (u : UserAddressSpace) (virt : VirtAddr) : Bool :=
  let entry := u.tables (.ofAddr virt .pt)
  decide (virt < USER_END) && u.tables.reaches virt && entry.isPresent && !entry.isWritable && !entry.isCow

theorem ReadOnlyPage.of_isReadOnly (h : u.isReadOnly virt = true) : ReadOnlyPage u virt := by
  simp only [isReadOnly, and_eq_true, not_eq_true', decide_eq_true_eq] at h
  obtain ⟨⟨⟨⟨huser, hreach⟩, hp⟩, hw⟩, hc⟩ := h
  exact ⟨huser, hreach, hp, hw, hc⟩

/-- Fork the first process and let the child write: the page was read-only, the fork has succeeded, the handler
    reports success, and the child's page is present and writable. -/
def forkThenWrite (m : Machine) (virt : VirtAddr) (answers : List (Option Frame)) (env : FaultEnv) : Bool :=
  match m.proc 0 with
  | none => false
  | some p =>
    match doFork p.addressSpace { m.store with answers } true with
    | some (.ok child, _, st) =>
      let (handled, child, _) := pageFaultHandler child st env virt userWrite
      let entry := child.tables (.ofAddr virt .pt)
      p.addressSpace.isReadOnly virt && handled && entry.isPresent && entry.isWritable
    | _ => false

theorem forkThenWrite_spec {m : Machine} {answers : List (Option Frame)} (h : forkThenWrite m virt answers env = true) :
    ∃ p child parent st, m.proc 0 = some p ∧ ReadOnlyPage p.addressSpace virt ∧
      doFork p.addressSpace { m.store with answers } true = some (.ok child, parent, st) ∧
      (pageFaultHandler child st env virt userWrite).1 = true ∧
      CanWrite (pageFaultHandler child st env virt userWrite).2.1 virt := by
  unfold forkThenWrite at h
  split at h
  · cases h
  rename_i p hp
  split at h
  next child parent st hfork =>
    simp only [and_eq_true] at h
    obtain ⟨⟨⟨hro, hhandled⟩, hpres⟩, hwrite⟩ := h
    exact ⟨p, child, parent, st, hp, .of_isReadOnly hro, hfork, hhandled, hpres, hwrite⟩
  · cases h

/-- A fault that meets no contention, and an allocator that gives out frame 10. -/
def quietEnv : FaultEnv := { metaContended := false, growthContended := false, answers := [some 10] }

set_option maxRecDepth 100000 in
theorem textPage_forkThenWrite :
    forkThenWrite textPage 0x400000#64 [some 6, some 7, some 8, some 9] quietEnv = true := by
  decide +kernel

/-- The page of program text, written to by the parent. -/
theorem fork_grants_write_text :
    ∃ p child parent st n, textPage.proc 0 = some p ∧ ReadOnlyPage p.addressSpace 0x400000#64 ∧
      doFork p.addressSpace { textPage.store with answers := [some 6, some 7, some 8, some 9] } true =
        some (.ok child, parent, st) ∧
      Succeeded (pageFaults (writes 0x400000#64 (fun _ => quietEnv) n) parent st) 0x400000#64 := by
  obtain ⟨p, child, parent, st, hp, hro, hfork, -⟩ := forkThenWrite_spec textPage_forkThenWrite
  have hst : StoreOk tenFrames := ⟨rfl, by decide⟩
  have hok : textPage.Ok := (Machine.withProcess_spec hst (fun _ _ _ _ => trivial) _ _ _).2
  have hstore : StoreOk { textPage.store with answers := [some 6, some 7, some 8, some 9] } :=
    { swap := hok.store.swap, zero := hok.store.zero }
  obtain ⟨n, hn⟩ := fork_grants_write (hok.spaces 0 p hp) hstore hro hfork (.inl rfl) (fun _ => quietEnv)
  exact ⟨p, child, parent, st, n, hp, hro, hfork, hn⟩

/-- **The child of a fork writes to its program text**: one fault, reported as handled, and the page is writable. -/
theorem text_writable_after_fork :
    ∃ p child parent st, textPage.proc 0 = some p ∧ ReadOnlyPage p.addressSpace 0x400000#64 ∧
      doFork p.addressSpace { textPage.store with answers := [some 6, some 7, some 8, some 9] } true =
        some (.ok child, parent, st) ∧
      (pageFaultHandler child st quietEnv 0x400000#64 userWrite).1 = true ∧
      CanWrite (pageFaultHandler child st quietEnv 0x400000#64 userWrite).2.1 0x400000#64 :=
  forkThenWrite_spec textPage_forkThenWrite

end OxideOs.Vm

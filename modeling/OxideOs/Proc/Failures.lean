import OxideOs.Proc.Permissions

/-!
# `Proc.Failures` — what a fork or a copy leaves behind when no frame is left

Neither `clone_address_space_cow` nor `handle_cow_fault` undoes what it did to the reference counts. A fork that
fails has given one more reference to every page it went over, for a child that does not exist; a fault that
fails has given up the reference of a page that is still mapped. The frames for tables do come back.
-/

namespace OxideOs.Vm

open Pagedb Paging PageTableFlags UserAddressSpace Vma Bool Function List Option

variable {u u' : UserAddressSpace} {st st' : FrameStore} {virt : VirtAddr}

/-! ## A fault without a frame for the copy -/

/-- The walk of `handle_cow_fault` ends at a page that is present and COW. -/
def isCowFault (u : UserAddressSpace) (virt : VirtAddr) : Bool :=
  (u.tables (.ofAddr virt .pml4)).isPresent && u.tables.leads (.ofAddr virt .pdpt) &&
    u.tables.leads (.ofAddr virt .pd) && (u.tables (.ofAddr virt .pt)).isPresent && (u.tables (.ofAddr virt .pt)).isCow

theorem handleCowFault_cow (h : isCowFault u virt = true) :
    handleCowFault u st virt = resolveCow u st (.ofAddr virt .pt) := by
  simp only [isCowFault, and_eq_true] at h
  obtain ⟨⟨⟨⟨h4, h3⟩, h2⟩, hp⟩, hc⟩ := h
  simp [handleCowFault, h4, h3, h2, hp, hc]

/-- A page that is COW stays so only when it is shared and no frame is found. -/
theorem resolveCow_false {s : Slot} (h : resolveCow u st s = (false, u', st')) :
    (st.tryClaimExclusive (frameOf (u.tables s))).1 = false ∧
      (allocCopy (frameOf (u.tables s)) 8 (st.tryClaimExclusive (frameOf (u.tables s))).2).1 = none := by
  unfold resolveCow at h
  simp only at h
  split at h
  · cases (Prod.mk.inj h).1
  rename_i st1 hclaim
  rw [hclaim]
  split at h
  next st2 hcopy =>
    rw [hcopy]
    exact ⟨rfl, rfl⟩
  · cases (Prod.mk.inj h).1

/-- **A copy that cannot be made always costs a reference.** When the fault on a COW page is not handled, no frame
    was found for the copy; the page is mapped as before, but its frame has one reference less. -/
theorem failed_cow_fault (hcow : isCowFault u virt = true) (h : handleCowFault u st virt = (false, u', st')) :
    (allocCopy (frameOf (u.tables (.ofAddr virt .pt))) 8
        (st.tryClaimExclusive (frameOf (u.tables (.ofAddr virt .pt)))).2).1 = none ∧
      u' = u ∧ ∃ c, st.counts (frameOf (u.tables (.ofAddr virt .pt))) = some (c + 1) ∧
        st'.counts (frameOf (u.tables (.ofAddr virt .pt))) = some c := by
  have hp : (u.tables (.ofAddr virt .pt)).isPresent = true := by
    simp only [isCowFault, and_eq_true] at hcow
    exact hcow.1.2
  have hcases := resolveCow_cases st hp
  rw [handleCowFault_cow hcow] at h
  rw [h] at hcases
  rcases hcases with ⟨hf, -⟩ | ⟨-, hu, hcount⟩
  · cases hf
  · exact ⟨(resolveCow_false h).2, hu, hcount⟩

/-- Frame 5 is shared by two processes, and no frame is free. -/
def sharedFive : FrameStore := { emptyStore with counts := update emptyStore.counts 5 (some 2) }

/-- The page of each of them. -/
def cowPage : UserAddressSpace := .single 0x1000#64 5 (PRESENT ||| USER ||| COW)

/-- The count of frame 5 goes from 2 to 1. -/
theorem failed_cow_fault_five :
    ∃ u' st', handleCowFault cowPage sharedFive 0x1000#64 = (false, u', st') ∧
      u' = cowPage ∧ st'.counts 5 = some 1 := by
  have hr : (handleCowFault cowPage sharedFive 0x1000#64).1 = false := by decide
  have hframe : frameOf (cowPage.tables (.ofAddr 0x1000#64 .pt)) = 5 := by decide
  obtain ⟨-, hu, c, hc, hc'⟩ := failed_cow_fault (u := cowPage) (by decide) (Prod.ext hr rfl)
  rw [hframe] at hc hc'
  cases hc
  exact ⟨_, _, Prod.ext hr rfl, hu, hc'⟩

/-- **A copy that cannot be made costs a reference**: the page is mapped as before, but its frame has one
    reference less, and the other process then takes the frame for its own and may write to it. -/
theorem failed_copy_gives_up_reference :
    ∃ u₁ st₁ u₂ st₂, handleCowFault cowPage sharedFive 0x1000#64 = (false, u₁, st₁) ∧
      u₁.tables (.ofAddr 0x1000#64 .pt) = cowPage.tables (.ofAddr 0x1000#64 .pt) ∧
      sharedFive.counts 5 = some 2 ∧ st₁.counts 5 = some 1 ∧
      handleCowFault cowPage st₁ 0x1000#64 = (true, u₂, st₂) ∧
      frameOf (u₂.tables (.ofAddr 0x1000#64 .pt)) = 5 ∧ (u₂.tables (.ofAddr 0x1000#64 .pt)).isWritable = true :=
  ⟨_, _, _, _, Prod.ext (by decide) rfl, by decide, by decide, by decide, Prod.ext (by decide) rfl, by decide,
    by decide⟩

/-! ## A fork without a frame for a table -/

/-- The walk shares what the entry maps. -/
def shares (t : Tables) : Slot → Bool
  | .pml4 _ => false
  | s@(.pt _ _ _ _) => (t s).isPresent
  | s => (t s).isHuge

theorem isLeaf_of_shares {t : Tables} {s : Slot} (h : shares t s = true) : t.isLeaf s = true := by
  cases s with
  | pml4 i => cases h
  | pt i j k l => rfl
  | pdpt i j | pd i j k => exact h

/-- The tables the walk copies before it comes to the first page it shares. -/
def tablesBefore (t : Tables) : List Slot → Nat
  | [] => 0
  | s :: slots => if shares t s then 0 else tablesBefore t slots + if t.isLeaf s then 0 else 1

/-- How many of the allocator's answers are frames before the first refusal. -/
def grants : List (Option Frame) → List Frame → Nat
  | some f :: answers, free => if f ∈ free then grants answers (free.erase f) + 1 else 0
  | _, _ => 0

/-- The frames that can be had before the allocator refuses for the first time. -/
def FrameStore.granted (st : FrameStore) : Nat := grants st.answers st.free

theorem FrameStore.granted_of_refused (h : st.allocFrame = (none, st')) : st.granted = 0 := by
  unfold FrameStore.allocFrame at h
  unfold FrameStore.granted grants
  split at h
  next ha => rw [ha]
  next ha => rw [ha]
  next ha =>
    rw [ha]
    split at h
    · cases h
    next hf => exact if_neg hf

theorem FrameStore.granted_of_frame {f : Frame} (h : st.allocFrame = (some f, st')) : st.granted = st'.granted + 1 := by
  unfold FrameStore.allocFrame at h
  split at h
  · cases h
  · cases h
  next ha =>
    split at h
    next hf =>
      cases h
      unfold FrameStore.granted
      rw [ha, grants, if_pos hf]
    · cases h

/-- One more reference to a frame. -/
def oneMore (counts : Frame → Option Nat) (f : Frame) : Frame → Option Nat :=
  update counts f (some ((counts f).getD 1 + 1))

theorem lt_oneMore (counts : Frame → Option Nat) (f : Frame) : (counts f).getD 1 < (oneMore counts f f).getD 1 := by
  rw [oneMore, update_self]
  exact Nat.lt_succ_self _

theorem le_oneMore (counts : Frame → Option Nat) (f g : Frame) : (counts g).getD 1 ≤ (oneMore counts f g).getD 1 := by
  by_cases hg : g = f
  · subst hg
    exact (lt_oneMore counts g).le
  · rw [oneMore, update_of_ne hg]

section Fork

variable {c c' : CloneState} {pml4 : Frame} {slots : List Slot} {s : Slot} {r : Except ForkError Unit}

/-- What the walk does at an entry. -/
inductive Visit (pml4 : Frame) (c : CloneState) (s : Slot) : Except ForkError Unit → CloneState → Prop where
  | share (child : Tables) (store : FrameStore) : shares c.parent s = true →
      c.store.increment (frameOf (c.parent s)) = some store →
      Visit pml4 c s (.ok ()) { c with parent := update c.parent s (sharedParent (c.parent s)), child, store }
  | skip : shares c.parent s = false → c.parent.isLeaf s = true → Visit pml4 c s (.ok ()) c
  | refused (store : FrameStore) : c.parent.isLeaf s = false → c.store.allocFrame = (none, store) →
      Visit pml4 c s (.error .outOfMemory) { c with store }
  | root (f : Frame) (store : FrameStore) : c.store.allocFrame = (some f, store) →
      Visit pml4 c s (.error .internal) { c with frames := c.frames ++ [f], store }
  | table (f : Frame) (child : Tables) (store : FrameStore) : c.parent.isLeaf s = false →
      c.store.allocFrame = (some f, store) → Visit pml4 c s (.ok ()) { c with child, frames := c.frames ++ [f], store }

theorem cloneTable_visit (hs : c.parent.isLeaf s = false) (h : cloneTable pml4 c s = (r, c')) :
    Visit pml4 c s r c' := by
  unfold cloneTable at h
  split at h
  next store hal =>
    cases h
    exact .refused store hs hal
  next f store hal =>
    simp only at h
    split at h
    · cases h
      exact .root f store hal
    · cases h
      exact .table f _ store hs hal

theorem sharePage_visit (hs : shares c.parent s = true)
    (h : (sharePage c s).map (fun c => (Except.ok (), c)) = some (r, c')) : Visit pml4 c s r c' := by
  obtain ⟨c1, hc, he⟩ := map_eq_some_iff.mp h
  obtain ⟨store, hinc, rfl⟩ := map_eq_some_iff.mp hc
  cases he
  exact .share _ store hs hinc

/-- **One entry of the walk.** -/
theorem cloneSlot_visit (h : cloneSlot pml4 c s = some (r, c')) : Visit pml4 c s r c' := by
  unfold cloneSlot at h
  split at h
  · exact cloneTable_visit rfl (some.inj h)
  · split at h
    next hp => exact sharePage_visit hp h
    next hp =>
      cases h
      exact .skip (eq_false_iff.mpr hp) rfl
  -- the levels in between share huge pages and copy tables
  rename_i hpml4 hpt
  have hhuge : shares c.parent s = (c.parent s).isHuge ∧ c.parent.isLeaf s = (c.parent s).isHuge := by
    cases s with
    | pml4 i => exact absurd rfl (hpml4 i)
    | pt a b d i => exact absurd rfl (hpt a b d i)
    | pdpt i j | pd i j k => exact ⟨rfl, rfl⟩
  split at h
  next hh => exact sharePage_visit (hhuge.1.trans hh) h
  next hh => exact cloneTable_visit (hhuge.2.trans (eq_false_iff.mpr hh)) (some.inj h)

theorem increment_counts {f : Frame} (h : st.increment f = some st') :
    st'.counts = oneMore st.counts f ∧ st'.free = st.free ∧ st'.answers = st.answers := by
  obtain ⟨-, ⟨⟩⟩ := ite_none_left_eq_some.mp h
  exact ⟨rfl, rfl, rfl⟩

theorem allocFrame_counts {f : Option Frame} (h : st.allocFrame = (f, st')) : st'.counts = st.counts := by
  have ha := FrameStore.allocFrame_spec st
  rw [h] at ha
  exact ha.counts_eq

/-! ### The counts -/

/-- Counts only grow. -/
theorem Visit.counts_le (h : Visit pml4 c s r c') (f : Frame) :
    (c.store.counts f).getD 1 ≤ (c'.store.counts f).getD 1 := by
  cases h with
  | share child store hs hinc =>
    show _ ≤ (store.counts f).getD 1
    rw [(increment_counts hinc).1]
    exact le_oneMore _ _ _
  | skip => exact le_rfl
  | refused store _ hal | root _ store hal | table _ _ store _ hal =>
    show _ ≤ (store.counts f).getD 1
    rw [allocFrame_counts hal]

theorem cloneSlots_counts_le (h : cloneSlots pml4 slots c = some (r, c')) (f : Frame) :
    (c.store.counts f).getD 1 ≤ (c'.store.counts f).getD 1 := by
  induction slots generalizing c with
  | nil =>
    cases h
    exact le_rfl
  | cons s slots ih =>
    unfold cloneSlots at h
    split at h
    · cases h
    next hc =>
      cases h
      exact (cloneSlot_visit hc).counts_le f
    next hc => exact ((cloneSlot_visit hc).counts_le f).trans (ih h)

/-- **A walk that ends for want of a frame** has shared nothing exactly if the frames that could be had do not reach
    up to the first page to share. -/
theorem cloneSlots_counts_iff (h : cloneSlots pml4 slots c = some (.error .outOfMemory, c')) :
    (c'.store.counts = c.store.counts ↔ c.store.granted < tablesBefore c.parent slots) ∧
      (c.store.granted < tablesBefore c.parent slots → c'.parent = c.parent) := by
  induction slots generalizing c with
  | nil => cases h
  | cons s slots ih =>
    unfold cloneSlots at h
    unfold tablesBefore
    split at h
    · cases h
    next hc =>
      cases h
      cases cloneSlot_visit hc with
      | refused store hs hal =>
        have hno : shares c.parent s ≠ true := fun hsh => absurd (isLeaf_of_shares hsh) (by simp [hs])
        simp [hno, hs, FrameStore.granted_of_refused hal, allocFrame_counts hal]
    next c1 hc =>
      cases cloneSlot_visit hc with
      | share child store hs hinc =>
        -- what was counted here stays
        have hle := cloneSlots_counts_le h (frameOf (c.parent s))
        have hlt := lt_oneMore c.store.counts (frameOf (c.parent s))
        rw [← (increment_counts hinc).1] at hlt
        have hne : c'.store.counts ≠ c.store.counts := by
          intro he
          rw [he] at hle
          exact absurd hle (Nat.not_le.mpr hlt)
        simp [hs, hne]
      | skip hs hleaf => simpa [hs, hleaf] using ih h
      | table f child store hleaf hal =>
        have hno : shares c.parent s ≠ true := fun hsh => absurd (isLeaf_of_shares hsh) (by simp [hleaf])
        have hrest := ih h
        rw [allocFrame_counts hal] at hrest
        simpa [hno, hleaf, FrameStore.granted_of_frame hal] using hrest

/-! ### The frames -/

/-- Whether a frame is taken back depends on its record alone. -/
theorem freeRefused_congr {f : Frame} (h : st'.recordView f = st.recordView f) :
    st'.freeRefused f = st.freeRefused f := by
  rw [Ledger.freeRefused_eq ⟨0, 0, 0, 0, st'⟩, Ledger.freeRefused_eq ⟨0, 0, 0, 0, st⟩]
  have hrecord : (Ledger.view ⟨0, 0, 0, 0, st'⟩ f).record = (Ledger.view ⟨0, 0, 0, 0, st⟩ f).record := h
  unfold FrameView.refused
  rw [hrecord]

/-- The frames the guard holds and those that are free are the frames that were free; the page database takes
    back the former and covers the latter. -/
structure Guarded (free : List Frame) (c : CloneState) : Prop where
  frames : (c.frames ++ c.store.free).Perm free
  accepted : ∀ f ∈ c.frames, c.store.freeRefused f = false
  covered : ∀ f ∈ c.store.free, c.store.recordView f ≠ some none

variable {free : List Frame}

/-- A frame more for the guard. -/
theorem Guarded.take (hg : Guarded free c) (hnd : free.Nodup) {f : Frame} {store : FrameStore}
    (hal : c.store.allocFrame = (some f, store)) (child : Tables) :
    Guarded free { c with child, frames := c.frames ++ [f], store } := by
  have ha := FrameStore.allocFrame_spec c.store
  rw [hal] at ha
  cases ha with
  | frame _ answers hf =>
    have hview (g : Frame) := FrameStore.recordView_of_get (s := c.store) (f := g)
      (t := { c.store with
        answers, free := c.store.free.erase f, pagedb := c.store.pagedb.map (fun db => db.markAllocated f.phys 0) })
      (fun db => FrameStore.changesRecord_put db f (fun _ => { flags := PF_ALLOCATED, refcount := 1, owner := 0 })) rfl
    refine ⟨?_, fun g hgm => ?_, fun g hgm => ?_⟩
    · refine Perm.trans ?_ hg.frames
      rw [append_assoc]
      exact (perm_cons_erase hf).symm.append_left _
    · rcases mem_append.mp hgm with hold | hnew
      · have hne : g ≠ f := by
          rintro rfl
          exact (nodup_append.mp (hg.frames.nodup_iff.mpr hnd)).2.2 g hold g hf rfl
        rw [freeRefused_congr ((hview g).trans (if_neg hne))]
        exact hg.accepted g hold
      · obtain rfl := mem_singleton.mp hnew
        rw [Ledger.freeRefused_eq ⟨0, 0, 0, 0, _⟩]
        unfold FrameView.refused Ledger.view
        simp only [hview, if_true]
        have hcov := hg.covered g hf
        cases hr : c.store.recordView g with
        | none => rfl
        | some pf =>
          cases pf with
          | none => exact absurd hr hcov
          | some pf =>
            simp only [Option.map_some]
            decide
    · have hin := mem_of_mem_erase hgm
      rw [hview]
      split
      · have hcov := hg.covered g hin
        cases hr : c.store.recordView g with
        | none => nofun
        | some pf =>
          cases pf with
          | none => exact absurd hr hcov
          | some pf => nofun
      · exact hg.covered g hin

/-- A page is shared whose frame is not one of them. -/
theorem Guarded.share (hg : Guarded free c) {f : Frame} (hf : f ∉ free) {store : FrameStore}
    (hinc : c.store.increment f = some store) (parent child : Tables) :
    Guarded free { c with parent, child, store } := by
  have hview : ∀ g ∈ free, store.recordView g = c.store.recordView g := by
    intro g hgm
    have hne : g ≠ f := by
      rintro rfl
      exact hf hgm
    obtain ⟨-, ⟨⟩⟩ := ite_none_left_eq_some.mp hinc
    exact (FrameStore.recordView_of_get (fun _ => FrameStore.changesRecord_addRef f) rfl).trans (if_neg hne)
  have hfree := (increment_counts hinc).2.1
  refine ⟨?_, fun g hgm => ?_, fun g hgm => ?_⟩
  · show (c.frames ++ store.free).Perm free
    rw [hfree]
    exact hg.frames
  · rw [freeRefused_congr (hview g (hg.frames.subset (mem_append_left _ hgm)))]
    exact hg.accepted g hgm
  · have hgm : g ∈ c.store.free := hfree ▸ hgm
    show store.recordView g ≠ some none
    rw [hview g (hg.frames.subset (mem_append_right _ hgm))]
    exact hg.covered g hgm

/-- No page to be shared lies in one of the frames. -/
def Apart (free : List Frame) (t : Tables) (slots : List Slot) : Prop :=
  ∀ s ∈ slots, shares t s = true → frameOf (t s) ∉ free

/-- Sharing a page moves none. -/
theorem Apart.share {t : Tables} (ha : Apart free t (s :: slots)) (hs : shares t s = true) :
    Apart free (update t s (sharedParent (t s))) slots := by
  intro s' hs' hsh
  by_cases he : s' = s
  · subst he
    rw [update_self, sharedParent, frameOf_setFlags]
    exact ha s' mem_cons_self hs
  · have hsame : shares (update t s (sharedParent (t s))) s' = shares t s' := by
      cases s' <;> simp only [shares, update_of_ne he]
    rw [update_of_ne he]
    exact ha s' (mem_cons_of_mem s hs') (hsame ▸ hsh)

theorem Visit.guarded (h : Visit pml4 c s r c') (hnd : free.Nodup) (ha : Apart free c.parent (s :: slots))
    (hg : Guarded free c) : Guarded free c' ∧ Apart free c'.parent slots := by
  have hrest : Apart free c.parent slots := fun s' hs' => ha s' (mem_cons_of_mem s hs')
  cases h with
  | share child store hs hinc =>
    exact ⟨hg.share (ha s mem_cons_self hs) hinc _ child, ha.share hs⟩
  | skip => exact ⟨hg, hrest⟩
  | refused store _ hal =>
    have hspec := FrameStore.allocFrame_spec c.store
    rw [hal] at hspec
    cases hspec
    exact ⟨⟨hg.frames, hg.accepted, hg.covered⟩, hrest⟩
  | root f store hal => exact ⟨hg.take hnd hal c.child, hrest⟩
  | table f child store _ hal => exact ⟨hg.take hnd hal child, hrest⟩

theorem cloneSlots_guarded (hnd : free.Nodup) (ha : Apart free c.parent slots) (hg : Guarded free c)
    (h : cloneSlots pml4 slots c = some (r, c')) : Guarded free c' := by
  induction slots generalizing c with
  | nil =>
    cases h
    exact hg
  | cons s slots ih =>
    unfold cloneSlots at h
    split at h
    · cases h
    next hc =>
      cases h
      exact ((cloneSlot_visit hc).guarded hnd ha hg).1
    next hc =>
      obtain ⟨hg, ha⟩ := (cloneSlot_visit hc).guarded hnd ha hg
      exact ih ha hg h

theorem freeAll_counts (st : FrameStore) (frames : List Frame) : (freeAll st frames).counts = st.counts := by
  induction frames generalizing st with
  | nil => rfl
  | cons f frames ih =>
    refine (ih _).trans ?_
    unfold FrameStore.freeFrame
    split <;> rfl

/-- Frames the page database accepts are free again, once each. -/
theorem freeAll_free {frames : List Frame} (hnd : frames.Nodup) (h0 : 0 ∉ frames)
    (hacc : ∀ f ∈ frames, st.freeRefused f = false) : (freeAll st frames).free.Perm (frames ++ st.free) := by
  induction frames generalizing st with
  | nil => exact .refl _
  | cons f frames ih =>
    obtain ⟨hf, hnd⟩ := nodup_cons.mp hnd
    obtain ⟨hf0, h0⟩ := not_or.mp (mt mem_cons.mpr h0)
    have hfree : st.freeFrame f = { st with
        pagedb := st.pagedb.map (fun db => db.markFree f.phys)
        free := f :: st.free } := by
      unfold FrameStore.freeFrame
      rw [hacc f mem_cons_self, if_neg Bool.false_ne_true, if_neg (Ne.symm hf0)]
    refine (@ih (st.freeFrame f) hnd h0 (fun g hgm => ?_)).trans ?_
    · have hne : g ≠ f := by
        rintro rfl
        exact hf hgm
      have hview : (st.freeFrame f).recordView g = st.recordView g := by
        rw [hfree]
        exact (FrameStore.recordView_of_get (fun db => FrameStore.changesRecord_put db f _) rfl).trans (if_neg hne)
      rw [freeRefused_congr hview]
      exact hacc g (mem_cons_of_mem f hgm)
    · rw [hfree]
      exact perm_middle

/-- What is free is listed once, covered by the page database, and mapped by nobody. -/
structure Forkable (u : UserAddressSpace) (st : FrameStore) : Prop where
  nodup : st.free.Nodup
  nonzero : 0 ∉ st.free
  covered : ∀ f ∈ st.free, st.recordView f ≠ some none
  apart : Apart st.free u.tables u.tables.visits

/-- **A fork that fails for want of a frame** gives back every frame it was given. The counts are as they were
    exactly if the frames that could be had do not reach up to the first page the walk would share. -/
theorem failed_fork (hu : Forkable u st) (h : cloneAddressSpaceCow u st = some (.error .outOfMemory, u', st')) :
    st'.free.Perm st.free ∧
      (st'.counts = st.counts ↔ st.granted ≤ tablesBefore u.tables u.tables.visits) ∧
      (st.granted ≤ tablesBefore u.tables u.tables.visits → u' = u) := by
  unfold cloneAddressSpaceCow at h
  split at h
  next store hal =>
    -- there was not even a frame for the root
    cases h
    have hspec := FrameStore.allocFrame_spec st
    rw [hal] at hspec
    refine ⟨?_, ?_, fun _ => rfl⟩
    · cases hspec
      exact .refl _
    · simp [FrameStore.granted_of_refused hal, allocFrame_counts hal]
  next pml4 store hal =>
    have hstart : Guarded st.free ⟨u.tables, u.tables, [], st⟩ := ⟨.refl _, nofun, hu.covered⟩
    have hgranted := FrameStore.granted_of_frame hal
    have hcounts := allocFrame_counts hal
    simp only at h
    split at h
    · cases h
    next c hc =>
      cases h
      have hg := cloneSlots_guarded hu.nodup hu.apart (hstart.take hu.nodup hal _) hc
      have hwalk : (c.store.counts = store.counts ↔ store.granted < tablesBefore u.tables u.tables.visits) ∧
          (store.granted < tablesBefore u.tables u.tables.visits → c.parent = u.tables) := cloneSlots_counts_iff hc
      rw [hgranted]
      refine ⟨?_, ?_, fun hle => ?_⟩
      · have hnd := hg.frames.nodup_iff.mpr hu.nodup
        refine (freeAll_free (nodup_append.mp hnd).1 (fun h0 => ?_) hg.accepted).trans hg.frames
        exact hu.nonzero (hg.frames.subset (mem_append_left _ h0))
      · rw [freeAll_counts, ← hcounts]
        exact hwalk.1
      · rw [hwalk.2 hle]
    · cases h

end Fork

/-- A page at 0x1000, and a second page table with nothing in it. -/
def twoTables : UserAddressSpace :=
  let u := single 0x1000#64 5 (PRESENT ||| WRITABLE ||| USER)
  u.setEntry (.ofAddr 0x200000#64 .pd) (PageTableEntry.set (Frame.addr 6) TABLE_FLAGS)

/-- A store that gives out some frames, and then no more. -/
def givesOut (frames : List Frame) : FrameStore := { emptyStore with free := frames, answers := frames.map some }

/-- A store with frame 7 free, and a page database. -/
def oneFree : FrameStore := { givesOut [7] with pagedb := some { count := 16, frames := fun _ => PageFrame.new } }

set_option maxRecDepth 100000 in
/-- The frames of the pages that a fork would share. -/
theorem twoTables_shared :
    (twoTables.tables.visits.filter (shares twoTables.tables)).map (fun s => frameOf (twoTables.tables s)) = [5] := by
  decide +kernel

theorem oneFree_forkable : Forkable twoTables oneFree where
  nodup := nodup_singleton 7
  nonzero := by decide
  covered := by
    intro f hf
    rw [mem_singleton.mp hf]
    nofun
  apart := by
    intro s hs hsh
    have hmem := mem_map_of_mem (f := fun s => frameOf (twoTables.tables s)) (mem_filter.mpr ⟨hs, hsh⟩)
    rw [twoTables_shared, mem_singleton] at hmem
    show _ ∉ [(7 : Frame)]
    rw [hmem]
    decide

set_option maxRecDepth 100000 in
/-- The first table cannot be had: the frame of the root is free again. -/
theorem failed_fork_early :
    ∃ u' st', cloneAddressSpaceCow twoTables oneFree = some (.error .outOfMemory, u', st') ∧
      st'.free.Perm [7] ∧ st'.counts = oneFree.counts ∧ u' = twoTables := by
  have hfail : (cloneAddressSpaceCow twoTables oneFree).map (fun r =>
      match r.1 with
      | .error .outOfMemory => true
      | _ => false) = some true := by decide +kernel
  obtain ⟨⟨r, u', st'⟩, hr, herr⟩ := map_eq_some_iff.mp hfail
  match r, herr with
  | .error .outOfMemory, _ =>
    have hfew : oneFree.granted ≤ tablesBefore twoTables.tables twoTables.tables.visits := by decide +kernel
    obtain ⟨hfree, hcounts, hsame⟩ := failed_fork oneFree_forkable hr
    exact ⟨u', st', hr, hfree, hcounts.mpr hfew, hsame hfew⟩

set_option maxRecDepth 100000 in
/-- **A failed fork leaves a reference behind**: no child maps the page, but its frame now counts two references;
    the parent's `munmap` of the page does not free the frame. -/
theorem failed_fork_leaks : (cloneAddressSpaceCow twoTables (givesOut [7, 8, 9, 10])).map (fun r =>
        (r.1.isOk, r.2.2.counts 5, (unmapPage r.2.1 r.2.2 0x1000#64).2.free.contains 5)) =
      some (false, some 2, false) ∧
    (unmapPage twoTables (givesOut [7, 8, 9, 10]) 0x1000#64).2.free.contains 5 = true := by
  decide +kernel

end OxideOs.Vm

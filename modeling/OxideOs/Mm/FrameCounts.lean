import OxideOs.Mm.FrameLife

/-!
# `Mm.FrameCounts` — exact reference counts

`Exact` is an invariant of the lives of frames: the tracker's count is the number of entries that map the
frame, and the frame is free exactly when nobody has it. The page frame database takes part in it, because the
kernel asks it before it gives up a reference and before it takes a frame back: the record of a mapped frame is
`Live`, with as many references as there are entries.
-/

namespace OxideOs.Vm.FrameView

open Pagedb Option Nat Bool

/-! ## Live records -/

/-- The flags that no page and no frame in the kernel's hands has. -/
def PAGE_MASK : Nat := PF_RESERVED ||| PF_PAGETABLE ||| PF_KERNEL

/-- The flags that no page table has. -/
def TABLE_MASK : Nat := PF_RESERVED ||| PF_KERNEL

/-- The record of an allocated frame with `n` references and none of the flags in `mask`. -/
structure Live (mask n : Nat) (pf : PageFrame) : Prop where
  refs : pf.refcount = n
  allocated : pf.flags &&& PF_ALLOCATED = PF_ALLOCATED
  clean : pf.flags &&& mask = 0

/-- Without a database there is nothing to ask; with one, the frame is covered and its record is live. -/
def LiveRecord (mask n : Nat) (r : Option (Option PageFrame)) : Prop :=
  ∀ p, r = some p → ∃ pf, p = some pf ∧ Live mask n pf

variable {mask n k : Nat} {pf : PageFrame} {r : Option (Option PageFrame)}

theorem and_setCow (x : Nat) (hk : PF_COW &&& k = 0) : (x ||| PF_COW) &&& k = x &&& k := by
  rw [Nat.and_or_distrib_right, hk, or_zero]

theorem and_clearCow (x : Nat) (hk : (0xFFFFFFFF ^^^ PF_COW) &&& k = k) :
    (x &&& (0xFFFFFFFF ^^^ PF_COW)) &&& k = x &&& k := by
  rw [Nat.and_assoc, hk]

theorem Live.not_free (h : Live mask n pf) : pf.isFree = false := by
  have hne : pf.flags ≠ 0 := by
    intro h0
    have := h.allocated
    rw [h0] at this
    exact absurd this (by decide)
  simp [PageFrame.isFree, PF_FREE, beq_eq_false_iff_ne.mpr hne]

/-- A flag of the mask is not set. -/
theorem Live.hasFlag (h : Live mask n pf) (hk : mask &&& k = k) : pf.hasFlag k = false := by
  have h0 : pf.flags &&& k = 0 := by
    rw [← hk, ← Nat.and_assoc, h.clean, zero_and]
  simp [PageFrame.hasFlag, h0]

theorem Live.not_stale (h : Live PAGE_MASK n pf) : isStale pf = false := by
  simp [isStale, h.not_free, h.hasFlag (k := PF_PAGETABLE) (by decide)]

theorem Live.clearCow (h : Live PAGE_MASK n pf) : Live PAGE_MASK n (pf.clearFlag PF_COW) :=
  ⟨h.refs, (and_clearCow _ (by decide)).trans h.allocated, (and_clearCow _ (by decide)).trans h.clean⟩

theorem Live.addRef (h : Live PAGE_MASK n pf) (hn : n + 1 < 2 ^ 32) : Live PAGE_MASK (n + 1) (addRef pf) := by
  refine ⟨?_, (and_setCow _ (by decide)).trans h.allocated, (and_setCow _ (by decide)).trans h.clean⟩
  show (pf.refcount + 1) % 2 ^ 32 = n + 1
  rw [h.refs, mod_eq_of_lt hn]

section

variable (h : Live PAGE_MASK (n + 1) pf)
include h

theorem Live.subRef : Live PAGE_MASK n (subRef pf) := by
  unfold Vm.subRef
  rw [if_neg (by rw [h.refs]; exact succ_ne_zero n)]
  refine ⟨?_, h.allocated, h.clean⟩
  rw [h.refs, Nat.add_sub_cancel]

theorem Live.decRecord : Live PAGE_MASK n (decRecord k pf) := by
  unfold Vm.decRecord
  rw [h.not_stale, if_neg Bool.false_ne_true]
  split
  · exact h.subRef.clearCow
  · exact h.subRef

theorem Live.splitRecord : Live PAGE_MASK n (splitRecord k pf) := by
  unfold Vm.splitRecord
  rw [h.not_stale]
  simp only
  split
  · exact h.subRef.clearCow
  · exact h.subRef

end

/-- A live record under a change of the record. -/
theorem LiveRecord.map {mask' n' : Nat} {g : PageFrame → PageFrame} (h : LiveRecord mask n r)
    (hg : ∀ pf, Live mask n pf → Live mask' n' (g pf)) : LiveRecord mask' n' (r.map (Option.map g)) := by
  intro p hp
  obtain ⟨q, hq, rfl⟩ := map_eq_some_iff.mp hp
  obtain ⟨pf, rfl, hpf⟩ := h q hq
  exact ⟨g pf, rfl, hg pf hpf⟩

/-- A live record cannot stand for a frame outside the database. -/
theorem LiveRecord.covered (h : LiveRecord mask n r) : r ≠ some none := by
  intro hr
  obtain ⟨pf, hpf, _⟩ := h none hr
  cases hpf

/-- What a live record says about a property of records. -/
theorem LiveRecord.anyRecord {v : FrameView} (h : LiveRecord mask n v.record) {p : PageFrame → Bool}
    (hp : ∀ pf, Live mask n pf → p pf = false) : v.anyRecord p = false := by
  unfold FrameView.anyRecord
  cases hr : v.record with
  | none => rfl
  | some q =>
    obtain ⟨pf, rfl, hpf⟩ := h q hr
    exact hp pf hpf

/-- **A live frame with at most one reference can be returned.** -/
theorem LiveRecord.not_refused {v : FrameView} (h : LiveRecord mask n v.record) (hn : n ≤ 1)
    (hm : mask &&& PF_RESERVED = PF_RESERVED) : v.refused = false := by
  unfold refused
  cases hr : v.record with
  | none => rfl
  | some q =>
    obtain ⟨pf, rfl, hpf⟩ := h q hr
    have hrefs : ¬ 1 < pf.refcount := by rw [hpf.refs]; omega
    simp [hpf.not_free, hpf.hasFlag hm, decide_eq_false hrefs]

/-! ## Exact counts -/

variable {v v' : FrameView} {w : Bool} {pool : Bool}

/-- **The count is the number of entries, and a frame of the pool has exactly one owner**: it is free, or a
    page table, or in the hands of kernel code, or mapped. -/
structure Exact (pool : Bool) (v : FrameView) : Prop where
  owner : v.free + v.held + v.tables + min v.maps 1 = pool.toNat
  listed : pool = true → v.listable = true
  unpinned : v.pinned = 0
  tracked : ∀ n, v.count = some n → n = v.maps ∧ 1 ≤ n
  untracked : v.count = none → v.maps ≤ 1
  page : 1 ≤ v.maps → LiveRecord PAGE_MASK v.maps v.record
  inHand : 1 ≤ v.held → LiveRecord PAGE_MASK 1 v.record
  table : 1 ≤ v.tables → LiveRecord TABLE_MASK 1 v.record
  covered : 1 ≤ v.free → v.record ≠ some none

open Exact

/-- The events that keep counts exact: none in which an entry or a reference comes or goes alone. -/
def KeepsExact : Event → Prop
  | .forget _ => False
  | .overcount _ => False
  | .pin => False
  | .unpin => False
  | .attach _ => False
  | _ => True

/-- With an owner that is no entry, the frame is in the pool, nothing maps it and it is not tracked. -/
theorem Exact.owned (h : v.Exact pool) (h1 : 1 ≤ v.free + v.held + v.tables) :
    pool = true ∧ v.maps = 0 ∧ v.count = none ∧ v.free + v.held + v.tables = 1 := by
  have howner := h.owner
  cases pool with
  | false =>
    rw [toNat_false] at howner
    omega
  | true =>
    rw [toNat_true] at howner
    have hm : v.maps = 0 := by omega
    refine ⟨rfl, hm, ?_, by omega⟩
    cases hc : v.count with
    | none => rfl
    | some n =>
      have := h.tracked n hc
      omega

/-- With an entry, the frame is in the pool and has no other owner. -/
theorem Exact.mapped (h : v.Exact pool) (h1 : 1 ≤ v.maps) : pool = true ∧ v.free = 0 ∧ v.held = 0 ∧ v.tables = 0 := by
  have howner := h.owner
  cases pool with
  | false =>
    rw [toNat_false] at howner
    omega
  | true =>
    rw [toNat_true] at howner
    refine ⟨rfl, ?_, ?_, ?_⟩ <;> omega

/-- The number of entries, as the tracker sees it. -/
theorem Exact.count_getD (h : v.Exact pool) (h1 : 1 ≤ v.maps) : v.count.getD 1 = v.maps := by
  cases hc : v.count with
  | none =>
    have := h.untracked hc
    rw [getD_none]
    omega
  | some n => exact (h.tracked n hc).1

/-- A frame of the pool that has no owner at the moment. -/
structure Ownerless (v : FrameView) : Prop where
  free : v.free = 0
  held : v.held = 0
  tables : v.tables = 0
  maps : v.maps = 0
  pinned : v.pinned = 0
  listable : v.listable = true
  count : v.count = none

theorem Ownerless.of_sum (howner : v.free + v.held + v.tables = 0) (hm : v.maps = 0) (hp : v.pinned = 0)
    (hl : v.listable = true) (hc : v.count = none) : v.Ownerless :=
  ⟨by omega, by omega, by omega, hm, hp, hl, hc⟩

/-- The view of an owner that is no entry and has the frame for itself. -/
theorem Exact.ofOwned (hpool : pool = true) (hl : v.listable = true) (hp : v.pinned = 0) (hm : v.maps = 0)
    (hc : v.count = none) (howner : v.free + v.held + v.tables = 1)
    (hheld : 1 ≤ v.held → LiveRecord PAGE_MASK 1 v.record) (htable : 1 ≤ v.tables → LiveRecord TABLE_MASK 1 v.record)
    (hcov : 1 ≤ v.free → v.record ≠ some none) : v.Exact pool := by
  refine ⟨?_, fun _ => hl, hp, ?_, ?_, ?_, hheld, htable, hcov⟩
  · rw [howner, hm, hpool]
    rfl
  · intro n hn
    rw [hc] at hn
    cases hn
  · intro _
    omega
  · intro _
    omega

/-- **A frame without an owner that is returned is free.** -/
theorem Ownerless.giveBack (h : v.Ownerless) (hr : v.refused = false) : v.giveBack.Exact true := by
  rcases giveBack_cases v with ⟨_, ht⟩ | ⟨_, he⟩
  · rw [hr] at ht
    exact absurd ht false_ne_true
  rw [he]
  refine ofOwned rfl h.listable h.pinned h.maps h.count ?_ (fun h1 => ?_) (fun h1 => ?_) (fun _ hn => ?_)
  · show (if v.listable then v.free + 1 else v.free) + v.held + v.tables = 1
    rw [if_pos h.listable, h.free, h.held, h.tables]
  · exact absurd h.held (one_le_iff_ne_zero.mp h1)
  · exact absurd h.tables (one_le_iff_ne_zero.mp h1)
  -- a frame outside the database would have been refused
  obtain ⟨q, hq, hmap⟩ := map_eq_some_iff.mp hn
  cases q with
  | none =>
    rw [refused, hq] at hr
    cases hr
  | some pf => exact absurd hmap (by simp)

/-- The view of a frame that only entries own. -/
theorem Exact.ofMapped (hpool : pool = true) (hl : v.listable = true) (hp : v.pinned = 0) (hm : 1 ≤ v.maps)
    (howner : v.free + v.held + v.tables = 0) (hc : ∀ n, v.count = some n → n = v.maps)
    (hu : v.count = none → v.maps ≤ 1) (hrec : LiveRecord PAGE_MASK v.maps v.record) : v.Exact pool := by
  refine ⟨?_, fun _ => hl, hp, ?_, hu, fun _ => hrec, ?_, ?_, ?_⟩
  · rw [howner, hpool, min_eq_right hm]
    rfl
  · intro n hn
    exact ⟨hc n hn, hc n hn ▸ hm⟩
  · intro h1
    omega
  · intro h1
    omega
  · intro h1
    omega

theorem live_of_page (h : LiveRecord PAGE_MASK n r) : LiveRecord TABLE_MASK n r := by
  intro p hp
  obtain ⟨pf, rfl, hpf⟩ := h p hp
  refine ⟨pf, rfl, hpf.refs, hpf.allocated, ?_⟩
  rw [show TABLE_MASK = PAGE_MASK &&& TABLE_MASK by decide, ← Nat.and_assoc, hpf.clean, zero_and]

/-- Overwriting the record of a covered frame by a live one. -/
theorem live_const (hr : r ≠ some none) (hpf : Live mask n pf) :
    LiveRecord mask n (r.map (Option.map (fun _ => pf))) := by
  intro p hp
  obtain ⟨q, hq, rfl⟩ := map_eq_some_iff.mp hp
  cases q with
  | none => exact absurd hq hr
  | some _ => exact ⟨pf, rfl, hpf⟩

/-- The frame of an entry: it is in the pool and has no owner that is no entry. -/
theorem Exact.plugged (h : (v.plug w).Exact pool) :
    pool = true ∧ v.listable = true ∧ v.free + v.held + v.tables = 0 ∧ LiveRecord PAGE_MASK (v.maps + 1) v.record := by
  have h1 : 1 ≤ (v.plug w).maps := le_add_left 1 _
  obtain ⟨hpool, hf, hh, ht⟩ := h.mapped h1
  refine ⟨hpool, h.listed hpool, ?_, h.page h1⟩
  have hf' : v.free = 0 := hf
  have hh' : v.held = 0 := hh
  have ht' : v.tables = 0 := ht
  omega

/-- **A reference is given up together with its entry**, and the last one returns the frame. -/
theorem Exact.release (h : (v.plug w).Exact pool) : v.release.Exact pool := by
  obtain ⟨hpool, hl, howner, hrec⟩ := h.plugged
  unfold FrameView.release
  cases hc : v.count with
  | none =>
    have hm : v.maps = 0 := by
      have : v.maps + 1 ≤ 1 := h.untracked hc
      omega
    rw [hm] at hrec
    rw [hpool]
    exact (Ownerless.of_sum howner hm h.unpinned hl hc).giveBack (hrec.not_refused (le_refl 1) (by decide))
  | some c =>
    have hcm : c = v.maps + 1 := (h.tracked c hc).1
    have hdec : LiveRecord PAGE_MASK v.maps (v.record.map (Option.map (decRecord (c - 1)))) :=
      hrec.map (fun pf hpf => hpf.decRecord)
    simp only
    by_cases h0 : c - 1 = 0
    · rw [if_pos h0, hpool]
      have hm : v.maps = 0 := by omega
      refine Ownerless.giveBack (.of_sum howner hm h.unpinned hl (if_pos h0)) ?_
      exact LiveRecord.not_refused hdec (by omega) (by decide)
    rw [if_neg h0]
    have hm : 1 ≤ v.maps := by omega
    have hcount : (v.decCount c).count = some (c - 1) := if_neg h0
    refine ofMapped hpool hl h.unpinned hm howner ?_ ?_ hdec
    · intro n hn
      rw [hcount] at hn
      have : c - 1 = n := Option.some.inj hn
      show n = v.maps
      omega
    · intro hn
      rw [hcount] at hn
      cases hn

/-- An entry is shared, together with a reference. -/
theorem Exact.share (h : (v.plug w).Exact pool) (hb : ((v.plug false).plug false).addCount = some v') :
    v'.Exact pool := by
  obtain ⟨hpool, hl, howner, hrec⟩ := h.plugged
  have hcount : v.count.getD 1 = v.maps + 1 := h.count_getD (le_add_left 1 _)
  obtain ⟨hlt, rfl⟩ := addCount_eq_some hb
  have hlt' : v.count.getD 1 + 1 < 2 ^ 32 := hlt
  refine ofMapped hpool hl h.unpinned (le_add_left 1 _) howner (fun n hn => ?_)
    (fun hn => absurd hn (by simp)) (hrec.map (fun pf hpf => hpf.addRef (by omega)))
  have hn' : v.count.getD 1 + 1 = n := some.inj hn
  show n = v.maps + 1 + 1
  omega

/-- The last owner claims the frame. -/
theorem Exact.claim (h : (v.plug w).Exact pool) (hb : (v.plug true).claimCount = some v') : v'.Exact pool := by
  have h1 : 1 ≤ (v.plug w).maps := le_add_left 1 _
  obtain ⟨hpool, hl, howner, hrec⟩ := h.plugged
  unfold claimCount at hb
  split at hb
  next hc =>
    cases hb
    refine ofMapped hpool hl h.unpinned h1 howner (fun n hn => ?_) (fun _ => h.untracked hc) hrec
    rw [hc] at hn
    cases hn
  rename_i c hc
  have hcm : c = v.maps + 1 := (h.tracked c hc).1
  split at hb
  · cases hb
    refine ofMapped hpool hl h.unpinned h1 howner (fun n hn => absurd hn (by simp)) (fun _ => ?_)
      (hrec.map (fun pf hpf => hpf.clearCow))
    show v.maps + 1 ≤ 1
    omega
  · cases hb

/-- One of several owners leaves, with its entry. -/
theorem Exact.split (h : (v.plug w).Exact pool) (hb : v.splitCount = some v') : v'.Exact pool := by
  obtain ⟨hpool, hl, howner, hrec⟩ := h.plugged
  unfold splitCount at hb
  split at hb
  · cases hb
  rename_i c hc
  have hcm : c = v.maps + 1 := (h.tracked c hc).1
  split at hb
  · cases hb
  cases hb
  have hm : 1 ≤ v.maps := by omega
  refine ofMapped hpool hl h.unpinned hm howner (fun n hn => ?_) (fun hn => absurd hn (by simp))
    (hrec.map (fun pf hpf => hpf.splitRecord))
  have : c - 1 = n := some.inj hn
  show n = v.maps
  omega

/-- **Exact counts are kept** by every event that changes entries and references together. -/
theorem Exact.apply {e : Event} (h : v.Exact pool) (hok : KeepsExact e) (ha : v.apply e = some v') : v'.Exact pool := by
  cases e with
  | take =>
    obtain ⟨h1, ⟨⟩⟩ := ite_none_right_eq_some.mp ha
    obtain ⟨hpool, hm, hc, howner⟩ := h.owned (by omega)
    refine ofOwned hpool (h.listed hpool) h.unpinned hm hc ?_ (fun _ => ?_) (fun h2 => ?_) (fun h2 => ?_)
    · show v.free - 1 + (v.held + 1) + v.tables = 1
      omega
    · exact live_const (h.covered h1) ⟨rfl, by decide, by decide⟩
    · have : 1 ≤ v.tables := h2
      omega
    · have : 1 ≤ v.free - 1 := h2
      omega
  | giveBack =>
    obtain ⟨h1, rfl⟩ := unhold_map ha
    obtain ⟨hpool, hm, hc, howner⟩ := h.owned (by omega)
    rw [hpool]
    refine Ownerless.giveBack (.of_sum ?_ hm h.unpinned (h.listed hpool) hc)
      (LiveRecord.not_refused (h.inHand h1) (le_refl 1) (by decide))
    show v.free + (v.held - 1) + v.tables = 0
    omega
  | link =>
    obtain ⟨h1, rfl⟩ := unhold_map ha
    obtain ⟨hpool, hm, hc, howner⟩ := h.owned (by omega)
    refine ofOwned hpool (h.listed hpool) h.unpinned hm hc ?_ (fun h2 => ?_) (fun _ => ?_) (fun h2 => ?_)
    · show v.free + (v.held - 1) + (v.tables + 1) = 1
      omega
    · have : 1 ≤ v.held - 1 := h2
      omega
    · exact live_of_page (h.inHand h1)
    · have : 1 ≤ v.free := h2
      omega
  | dropTable =>
    obtain ⟨h1, ⟨⟩⟩ := ite_none_right_eq_some.mp ha
    obtain ⟨hpool, hm, hc, howner⟩ := h.owned (by omega)
    have hrec := h.table h1
    have hany : anyRecord { v with tables := v.tables - 1 }
        (fun pf => pf.hasFlag PF_RESERVED || pf.hasFlag PF_KERNEL) = false := by
      refine LiveRecord.anyRecord hrec fun pf hpf => ?_
      rw [hpf.hasFlag (by decide), hpf.hasFlag (by decide), Bool.or_self]
    rw [hany, h.listed hpool, Bool.not_true, Bool.or_self, hpool]
    refine Ownerless.giveBack (.of_sum ?_ hm h.unpinned rfl hc) (LiveRecord.not_refused hrec (le_refl 1) (by decide))
    show v.free + v.held + (v.tables - 1) = 0
    omega
  | dupTable =>
    simp only [FrameView.apply] at ha
    split at ha
    · obtain ⟨_, _, _, howner⟩ := h.owned (by omega)
      omega
    · cases ha
  | markData =>
    obtain ⟨h1, ⟨⟩⟩ := ite_none_right_eq_some.mp ha
    obtain ⟨hpool, hm, hc, howner⟩ := h.owned (by omega)
    have halloc : (PF_ALLOCATED ||| PF_MAPPED) &&& PF_ALLOCATED = PF_ALLOCATED := by decide
    have hclean : (PF_ALLOCATED ||| PF_MAPPED) &&& PAGE_MASK = 0 := by decide
    have hrec : LiveRecord PAGE_MASK 1 (v.onRecord (fun pf => pf.setFlags (PF_ALLOCATED ||| PF_MAPPED))).record :=
      (h.inHand h1).map (fun pf hpf => ⟨hpf.refs, halloc, hclean⟩)
    exact ofOwned hpool (h.listed hpool) h.unpinned hm hc howner (fun _ => hrec)
      (fun _ => live_of_page hrec) (fun _ => hrec.covered)
  | markTable =>
    obtain ⟨h1, ⟨⟩⟩ := ite_none_right_eq_some.mp ha
    obtain ⟨hpool, hm, hc, howner⟩ := h.owned (by omega)
    have hrec : LiveRecord TABLE_MASK 1 (v.onRecord (fun _ => tableRecord)).record :=
      live_const (h.table h1).covered ⟨rfl, by decide, by decide⟩
    refine ofOwned hpool (h.listed hpool) h.unpinned hm hc howner (fun h2 => ?_) (fun _ => hrec) (fun _ => hrec.covered)
    have : 1 ≤ v.held := h2
    omega
  | pin | unpin | attach w | forget w | overcount w => exact absurd hok (by simp [KeepsExact])
  | mapNew w =>
    obtain ⟨h1, rfl⟩ := unhold_map ha
    obtain ⟨hpool, hm, hc, howner⟩ := h.owned (by omega)
    refine ofMapped hpool (h.listed hpool) h.unpinned (le_add_left 1 _) ?_ (fun n hn => ?_) (fun _ => ?_) ?_
    · show v.free + (v.held - 1) + v.tables = 0
      omega
    · have hn' : v.count = some n := hn
      rw [hc] at hn'
      cases hn'
    · show v.maps + 1 ≤ 1
      omega
    · show LiveRecord PAGE_MASK (v.maps + 1) v.record
      rw [hm]
      exact h.inHand h1
  | share w =>
    obtain ⟨u, rfl, -, hb⟩ := unplug_bind ha
    exact h.share hb
  | unmap w =>
    obtain ⟨u, rfl, hw, rfl⟩ := unplug_map ha
    have hrec : LiveRecord PAGE_MASK (u.maps + 1) u.record := h.page (le_add_left 1 _)
    rw [hrec.anyRecord (fun pf hpf => hpf.not_free)]
    exact h.release
  | dropPage w =>
    obtain ⟨u, rfl, hw, rfl⟩ := unplug_map ha
    have hrec : LiveRecord PAGE_MASK (u.maps + 1) u.record := h.page (le_add_left 1 _)
    have hany : u.anyRecord (fun pf => pf.hasFlag PF_RESERVED || (pf.isFree || pf.hasFlag PF_PAGETABLE)) = false := by
      refine hrec.anyRecord fun pf hpf => ?_
      rw [hpf.hasFlag (by decide), hpf.not_free, hpf.hasFlag (by decide)]
      rfl
    rw [hany]
    exact h.release
  | claim w =>
    obtain ⟨u, rfl, -, hb⟩ := unplug_bind ha
    exact h.claim hb
  | split w =>
    obtain ⟨u, rfl, -, hb⟩ := unplug_bind ha
    exact h.split hb
  | protect w w' =>
    obtain ⟨u, rfl, hw, rfl⟩ := unplug_map ha
    exact { h with }

end OxideOs.Vm.FrameView

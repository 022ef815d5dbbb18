import OxideOs.Lib.Run
import OxideOs.Mm.Pagedb

/-!
# `Mm.FrameLife` — the life of a frame

Everything the kernel's memory management does can be told as the story of single frames. `FrameView` is what
can be seen of one frame: how many page table entries map it and how many of them are writable, whether it is
on the free list, holds a page table, belongs to a shared memory segment or is held by running kernel code, the
count the copy-on-write tracker keeps for it and its record in the page frame database. An `Event` is one thing
that can happen to it.

`Isolated` is an invariant of such lives: a frame that is mapped writable is mapped once.
-/

namespace OxideOs.Vm

open Pagedb Option

/-! ## Records -/

/-- The record of a frame just handed out. -/
def allocatedRecord : PageFrame := { flags := PF_ALLOCATED, refcount := 1, owner := 0 }

/-- The record of a frame marked as a page table. -/
def tableRecord : PageFrame := { flags := PF_ALLOCATED ||| PF_PAGETABLE, refcount := 1, owner := 0 }

/-- The record after one more reference. -/
def addRef (pf : PageFrame) : PageFrame :=
  { pf with flags := pf.flags ||| PF_COW, refcount := (pf.refcount + 1) % 2 ^ 32 }

/-- The tracker leaves the reference count of such a record alone. -/
def isStale (pf : PageFrame) : Bool := pf.isFree || pf.hasFlag PF_PAGETABLE

/-- The record after one reference less. -/
def subRef (pf : PageFrame) : PageFrame := if pf.refcount = 0 then pf else { pf with refcount := pf.refcount - 1 }

/-- The record after `decrement` to `n`. -/
def decRecord (n : Nat) (pf : PageFrame) : PageFrame :=
  if isStale pf then pf else if n ≤ 1 then (subRef pf).clearFlag PF_COW else subRef pf

/-- The record after `try_claim_exclusive` has found a frame shared and left `n` references. -/
def splitRecord (n : Nat) (pf : PageFrame) : PageFrame :=
  let pf := if isStale pf then pf else subRef pf
  if n ≤ 1 then pf.clearFlag PF_COW else pf

/-! ## Views -/

/-- What can be seen of one frame. `listable` is false for the frame at address 0, which the buddy allocator
    never lists. The record is absent without a page database, and empty when the database does not cover the
    frame. -/
structure FrameView where
  maps : Nat
  writable : Nat
  tables : Nat
  held : Nat
  pinned : Nat
  free : Nat
  listable : Bool
  count : Option Nat
  record : Option (Option PageFrame)
  deriving DecidableEq

namespace FrameView

variable (v : FrameView)

def onRecord (g : PageFrame → PageFrame) : FrameView := { v with record := v.record.map (Option.map g) }

/-- The record, if there is one, satisfies `p`. -/
def anyRecord (p : PageFrame → Bool) : Bool := v.record.join.any p

/-- The page database refuses to take the frame back. -/
def refused : Bool :=
  match v.record with
  | none => false
  | some none => true
  | some (some pf) => pf.isFree || (pf.hasFlag PF_RESERVED || decide (1 < pf.refcount))

/-- The frame is returned. -/
def giveBack : FrameView :=
  if v.refused then v
  else { v.onRecord (fun _ => PageFrame.new) with free := if v.listable then v.free + 1 else v.free }

/-- `decrement` of a frame that counts `c`. -/
def decCount (c : Nat) : FrameView :=
  { v.onRecord (decRecord (c - 1)) with count := if c - 1 = 0 then none else some (c - 1) }

/-- One reference is given up; the last owner returns the frame. -/
def release : FrameView :=
  match v.count with
  | none => v.giveBack
  | some c => if c - 1 = 0 then (v.decCount c).giveBack else v.decCount c

/-- One entry more that maps the frame. -/
def plug (w : Bool) : FrameView := { v with maps := v.maps + 1, writable := v.writable + w.toNat }

/-- One entry less. -/
def unplug (w : Bool) : Option FrameView :=
  if 1 ≤ v.maps ∧ w.toNat ≤ v.writable ∧ v.writable - w.toNat ≤ v.maps - 1 then
    some { v with maps := v.maps - 1, writable := v.writable - w.toNat }
  else none

/-- `increment`. -/
def addCount : Option FrameView :=
  let count := v.count.getD 1 + 1
  if 2 ^ 32 ≤ count then none else some { v.onRecord addRef with count := some count }

/-- The last owner claims the frame. -/
def claimCount : Option FrameView :=
  match v.count with
  | none => some v
  | some c => if c ≤ 1 then some { v.onRecord (fun pf => pf.clearFlag PF_COW) with count := none } else none

/-- One of several owners leaves. -/
def splitCount : Option FrameView :=
  match v.count with
  | none => none
  | some c => if c ≤ 1 then none else some { v.onRecord (splitRecord (c - 1)) with count := some (c - 1) }

/-- One holder less. -/
def unhold : Option FrameView := if 1 ≤ v.held then some { v with held := v.held - 1 } else none

end FrameView

/-! ## Events -/

/-- What can happen to a frame. The `Bool` of an event about an entry says whether the entry is writable. -/
inductive Event where
  /-- the allocator hands the frame out -/
  | take
  /-- kernel code returns a frame it holds -/
  | giveBack
  /-- a frame becomes a page table -/
  | link
  /-- a page table is returned when its address space is dropped -/
  | dropTable
  /-- the frame was found twice among the tables of an address space -/
  | dupTable
  | markData
  | markTable
  /-- a frame becomes part of a shared memory segment -/
  | pin
  /-- a segment is removed -/
  | unpin
  /-- a frame of a segment is mapped -/
  | attach (w : Bool)
  /-- a frame becomes a page -/
  | mapNew (w : Bool)
  /-- fork maps the page once more -/
  | share (w : Bool)
  /-- an entry goes away and the frame is not given up -/
  | forget (w : Bool)
  /-- `munmap` -/
  | unmap (w : Bool)
  /-- the address space is dropped -/
  | dropPage (w : Bool)
  /-- a copy-on-write fault of the last owner -/
  | claim (w : Bool)
  /-- a copy-on-write fault of one of several owners, who gets a copy -/
  | split (w : Bool)
  /-- the permissions of a page change -/
  | protect (w w' : Bool)
  /-- a page becomes a copy-on-write page without being shared -/
  | overcount (w : Bool)
  deriving DecidableEq

/-- The view after an event; `none` when the event cannot happen. -/
def FrameView.apply (v : FrameView) : Event → Option FrameView
  | .take =>
    if 1 ≤ v.free then
      some { v.onRecord (fun _ => allocatedRecord) with free := v.free - 1, held := v.held + 1 }
    else none
  | .giveBack => v.unhold.map FrameView.giveBack
  | .link => v.unhold.map (fun v => { v with tables := v.tables + 1 })
  | .dropTable =>
    if 1 ≤ v.tables then
      let v := { v with tables := v.tables - 1 }
      some (if !v.listable || v.anyRecord (fun pf => pf.hasFlag PF_RESERVED || pf.hasFlag PF_KERNEL) then v
        else v.giveBack)
    else none
  | .dupTable => if 2 ≤ v.tables then some { v with tables := v.tables - 1 } else none
  | .markData => if 1 ≤ v.held then some (v.onRecord (fun pf => pf.setFlags (PF_ALLOCATED ||| PF_MAPPED))) else none
  | .markTable => if 1 ≤ v.tables then some (v.onRecord (fun _ => tableRecord)) else none
  | .pin => v.unhold.map (fun v => { v with pinned := v.pinned + 1 })
  | .unpin => if 1 ≤ v.pinned then some { v with pinned := v.pinned - 1, held := v.held + 1 } else none
  | .attach w => if 1 ≤ v.pinned then some (v.plug w) else none
  | .mapNew w => v.unhold.map (FrameView.plug · w)
  | .share w => (v.unplug w).bind (fun v => ((v.plug false).plug false).addCount)
  | .forget w => v.unplug w
  | .unmap w => (v.unplug w).map (fun v => if v.anyRecord (fun pf => pf.isFree) then v else v.release)
  | .dropPage w =>
    (v.unplug w).map (fun v =>
      if v.anyRecord (fun pf => pf.hasFlag PF_RESERVED || (pf.isFree || pf.hasFlag PF_PAGETABLE)) then v
      else v.release)
  | .claim w => (v.unplug w).bind (fun v => (v.plug true).claimCount)
  | .split w => (v.unplug w).bind FrameView.splitCount
  | .protect w w' => (v.unplug w).map (FrameView.plug · w')
  | .overcount w => (v.unplug w).bind (fun v => (v.plug false).addCount)

namespace FrameView

variable {v v' : FrameView} {w : Bool}

/-! ## What the parts of an event do -/

theorem unplug_eq_some (h : v.unplug w = some v') : v = v'.plug w ∧ v'.writable ≤ v'.maps := by
  obtain ⟨hc, ⟨⟩⟩ := ite_none_right_eq_some.mp h
  refine ⟨?_, hc.2.2⟩
  have hm : v.maps - 1 + 1 = v.maps := Nat.sub_add_cancel hc.1
  have hw : v.writable - w.toNat + w.toNat = v.writable := Nat.sub_add_cancel hc.2.1
  simp [plug, hm, hw]

theorem unplug_plug (h : v.writable ≤ v.maps) : (v.plug w).unplug w = some v := by
  unfold unplug plug
  rw [if_pos ⟨Nat.le_add_left 1 _, Nat.le_add_left _ _, by simpa using h⟩]
  simp

theorem unhold_eq_some (h : v.unhold = some v') : 1 ≤ v.held ∧ v' = { v with held := v.held - 1 } := by
  obtain ⟨hc, ⟨⟩⟩ := ite_none_right_eq_some.mp h
  exact ⟨hc, rfl⟩

theorem unhold_map {f : FrameView → FrameView} (h : v.unhold.map f = some v') :
    1 ≤ v.held ∧ v' = f { v with held := v.held - 1 } := by
  obtain ⟨u, hu, rfl⟩ := map_eq_some_iff.mp h
  obtain ⟨h1, rfl⟩ := unhold_eq_some hu
  exact ⟨h1, rfl⟩

theorem unplug_bind {f : FrameView → Option FrameView} (h : (v.unplug w).bind f = some v') :
    ∃ u : FrameView, v = u.plug w ∧ u.writable ≤ u.maps ∧ f u = some v' := by
  obtain ⟨u, hu, hf⟩ := bind_eq_some_iff.mp h
  obtain ⟨hv, hw⟩ := unplug_eq_some hu
  exact ⟨u, hv, hw, hf⟩

theorem unplug_map {f : FrameView → FrameView} (h : (v.unplug w).map f = some v') :
    ∃ u : FrameView, v = u.plug w ∧ u.writable ≤ u.maps ∧ f u = v' := by
  obtain ⟨u, hu, hf⟩ := map_eq_some_iff.mp h
  obtain ⟨hv, hw⟩ := unplug_eq_some hu
  exact ⟨u, hv, hw, hf⟩

theorem addCount_eq_some (h : v.addCount = some v') :
    v.count.getD 1 + 1 < 2 ^ 32 ∧ v' = { v.onRecord addRef with count := some (v.count.getD 1 + 1) } := by
  simp only [addCount] at h
  split at h
  · cases h
  next hc =>
    exact ⟨not_le.mp hc, (some.inj h).symm⟩

/-- What returning a frame can change. -/
theorem giveBack_cases (v : FrameView) :
    v.giveBack = v ∧ v.refused = true ∨
      v.refused = false ∧ v.giveBack = { v.onRecord (fun _ => PageFrame.new) with
        free := if v.listable then v.free + 1 else v.free } := by
  unfold giveBack
  cases hr : v.refused with
  | true => exact .inl ⟨if_pos rfl, rfl⟩
  | false => exact .inr ⟨rfl, if_neg Bool.false_ne_true⟩

/-! ## Isolation -/

/-- **A frame that is mapped writable is mapped once.** What keeps it so: a frame has at most one owner other
    than page table entries, and then it is not tracked and no entry maps it; and there are at most as many
    entries as the tracker counts, where an untracked frame counts as one. Frames of shared memory segments are
    mapped as often as their users like. -/
structure Isolated (v : FrameView) : Prop where
  owner : v.free + v.held + v.tables + v.pinned ≤ 1
  idle : 1 ≤ v.free + v.held + v.tables → v.maps = 0
  untracked : 1 ≤ v.free + v.held + v.tables + v.pinned → v.count = none
  bound : v.pinned = 0 → v.maps ≤ v.count.getD 1
  single : v.pinned = 0 → 1 ≤ v.writable → v.maps ≤ 1

open Isolated

/-- Where an event keeps a frame isolated. A write permission is only given to the one entry that maps the
    frame, and frames of segments are not shared or unmapped like private pages, nor returned while they are
    mapped. -/
def KeepsIsolated (v : FrameView) : Event → Prop
  | .protect _ w' => w' = true → v.maps ≤ 1
  | .share _ => v.pinned = 0
  | .overcount _ => v.pinned = 0
  | .unmap _ => v.pinned = 0
  | .dropPage _ => v.pinned = 0
  | .unpin => v.maps = 0
  | _ => True

/-- The record does not matter for isolation. -/
theorem Isolated.onRecord (h : v.Isolated) (g : PageFrame → PageFrame) : (v.onRecord g).Isolated :=
  { h with }

/-- The view of an owner that is no entry and has the frame for itself. -/
theorem Isolated.ofOwned (howner : v.free + v.held + v.tables + v.pinned ≤ 1) (hm : v.maps = 0)
    (hc : v.count = none) : v.Isolated := by
  refine ⟨howner, fun _ => hm, fun _ => hc, fun _ => ?_, fun _ _ => ?_⟩
  all_goals
    rw [hm]
    exact Nat.zero_le _

/-- With an owner that is no entry, nothing maps the frame and it is not tracked. -/
theorem Isolated.owned (h : v.Isolated) (h1 : 1 ≤ v.free + v.held + v.tables) :
    v.maps = 0 ∧ v.count = none ∧ v.free + v.held + v.tables + v.pinned = 1 := by
  have howner := h.owner
  exact ⟨h.idle h1, h.untracked (le_trans h1 (Nat.le_add_right _ _)), by omega⟩

/-- A frame nobody has can be returned. -/
theorem Isolated.giveBack (h0 : v.free + v.held + v.tables + v.pinned = 0) (hm : v.maps = 0)
    (hc : v.count = none) : v.giveBack.Isolated := by
  rcases giveBack_cases v with ⟨he, _⟩ | ⟨_, he⟩
  · rw [he]
    exact ofOwned (by omega) hm hc
  rw [he]
  refine ofOwned ?_ hm hc
  show (if v.listable then v.free + 1 else v.free) + v.held + v.tables + v.pinned ≤ 1
  split <;> omega

section

variable (h : (v.plug w).Isolated)
include h

/-- A frame that is mapped has no other owner but a segment. -/
theorem Isolated.unowned : v.free + v.held + v.tables = 0 := by
  have hidle := h.idle
  simp only [plug] at hidle
  omega

/-- An entry can go away. -/
theorem Isolated.unplug (hw : v.writable ≤ v.maps) : v.Isolated := by
  have h0 := h.unowned
  refine ⟨h.owner, fun h1 => ?_, h.untracked, fun hp => ?_, fun hp h1 => ?_⟩
  · omega
  · have : v.maps + 1 ≤ v.count.getD 1 := h.bound hp
    omega
  · have : v.maps + 1 ≤ 1 := h.single hp (le_trans h1 (Nat.le_add_right _ _))
    omega

/-- An entry that is not writable can take the place of another. -/
theorem Isolated.demote : (v.plug false).Isolated := by
  refine { h with single := fun hp h1 => ?_ }
  have h1' : 1 ≤ v.writable := h1
  exact h.single hp (le_trans h1' (Nat.le_add_right _ _))

/-- **A reference is given up together with its entry.** -/
theorem Isolated.release (hw : v.writable ≤ v.maps) (hp : v.pinned = 0) : v.release.Isolated := by
  have hv := h.unplug hw
  have h0 := h.unowned
  have hbound : v.maps + 1 ≤ v.count.getD 1 := h.bound hp
  unfold FrameView.release
  cases hc : v.count with
  | none =>
    rw [hc, getD_none] at hbound
    exact giveBack (by omega) (by omega) hc
  | some c =>
    rw [hc, getD_some] at hbound
    simp only
    by_cases h1 : c - 1 = 0
    · -- the entry was the last one
      rw [if_pos h1]
      refine giveBack ?_ ?_ (if_pos h1)
      · show v.free + v.held + v.tables + v.pinned = 0
        omega
      · show v.maps = 0
        omega
    have hcount : (v.decCount c).count = some (c - 1) := if_neg h1
    rw [if_neg h1]
    refine ⟨hv.owner, hv.idle, fun h2 => ?_, fun _ => ?_, hv.single⟩
    · have : 1 ≤ v.free + v.held + v.tables + v.pinned := h2
      omega
    rw [hcount]
    show v.maps ≤ c - 1
    omega

end

/-- One more reference allows one more entry. -/
theorem Isolated.addCount (h : v.Isolated) (ha : (v.plug false).addCount = some v')
    (h0 : v.free + v.held + v.tables = 0) (hp : v.pinned = 0) (hw : v.writable = 0) : v'.Isolated := by
  obtain ⟨-, rfl⟩ := addCount_eq_some ha
  refine ⟨h.owner, fun h1 => ?_, fun h1 => ?_, fun _ => ?_, fun _ h1 => ?_⟩
  · have : 1 ≤ v.free + v.held + v.tables := h1
    omega
  · have : 1 ≤ v.free + v.held + v.tables + v.pinned := h1
    omega
  · have := h.bound hp
    show v.maps + 1 ≤ v.count.getD 1 + 1
    omega
  · have : 1 ≤ v.writable := h1
    omega

/-- The last owner may write. -/
theorem Isolated.claimCount (h : (v.plug w).Isolated) (ha : (v.plug true).claimCount = some v') : v'.Isolated := by
  have h0 := h.unowned
  -- whoever claims the frame is its only user, and it is not tracked afterwards
  have key : v.count.getD 1 ≤ 1 → ∀ u : FrameView, u.maps = v.maps + 1 → u.free + u.held + u.tables = 0 →
      u.pinned = v.pinned → u.count = none → u.Isolated := by
    intro _ u _ _ hp hc
    have howner : v.free + v.held + v.tables + v.pinned ≤ 1 := h.owner
    refine ⟨by omega, fun h2 => by omega, fun _ => hc, fun h2 => ?_, fun h2 _ => ?_⟩
    · have : v.maps + 1 ≤ v.count.getD 1 := h.bound (hp ▸ h2)
      rw [hc, getD_none]
      omega
    · have : v.maps + 1 ≤ v.count.getD 1 := h.bound (hp ▸ h2)
      omega
  unfold FrameView.claimCount at ha
  have hcount : (v.plug true).count = v.count := rfl
  rw [hcount] at ha
  split at ha
  next hc =>
    cases ha
    exact key (by rw [hc]; exact le_refl 1) _ rfl h0 rfl hc
  rename_i c hc
  split at ha
  next hc1 =>
    cases ha
    exact key (by rw [hc]; exact hc1) _ rfl h0 rfl rfl
  · cases ha

/-- One of several owners leaves with its entry. -/
theorem Isolated.splitCount (h : (v.plug w).Isolated) (hw : v.writable ≤ v.maps) (ha : v.splitCount = some v') :
    v'.Isolated := by
  have hv := h.unplug hw
  unfold FrameView.splitCount at ha
  split at ha
  · cases ha
  rename_i c hc
  split at ha
  · cases ha
  cases ha
  refine ⟨hv.owner, hv.idle, fun h1 => ?_, fun hp => ?_, hv.single⟩
  · -- a tracked frame belongs to its entries
    rw [hv.untracked h1] at hc
    cases hc
  have : v.maps + 1 ≤ v.count.getD 1 := h.bound hp
  rw [hc, getD_some] at this
  show v.maps ≤ c - 1
  omega

/-- **Isolation is kept** by every event that is allowed to happen. -/
theorem Isolated.apply {e : Event} (h : v.Isolated) (hok : v.KeepsIsolated e) (ha : v.apply e = some v') :
    v'.Isolated := by
  have howner := h.owner
  cases e with
  | take =>
    obtain ⟨hg, ⟨⟩⟩ := ite_none_right_eq_some.mp ha
    obtain ⟨hm, hc, h1⟩ := h.owned (by omega)
    refine ofOwned ?_ hm hc
    simp only [FrameView.onRecord]
    omega
  | giveBack =>
    obtain ⟨hh, rfl⟩ := unhold_map ha
    obtain ⟨hm, hc, h1⟩ := h.owned (by omega)
    refine giveBack ?_ hm hc
    simp only
    omega
  | link | pin =>
    obtain ⟨hh, rfl⟩ := unhold_map ha
    obtain ⟨hm, hc, h1⟩ := h.owned (by omega)
    refine ofOwned ?_ hm hc
    simp only
    omega
  | dropTable =>
    obtain ⟨hg, ⟨⟩⟩ := ite_none_right_eq_some.mp ha
    obtain ⟨hm, hc, h1⟩ := h.owned (by omega)
    split
    · exact ofOwned (by simp only; omega) hm hc
    · exact giveBack (by simp only; omega) hm hc
  | dupTable =>
    have := (ite_none_right_eq_some.mp ha).1
    omega
  | markData | markTable =>
    obtain ⟨-, ⟨⟩⟩ := ite_none_right_eq_some.mp ha
    exact h.onRecord _
  | unpin =>
    obtain ⟨hg, ⟨⟩⟩ := ite_none_right_eq_some.mp ha
    refine ofOwned ?_ hok (h.untracked (by omega))
    simp only
    omega
  | attach w =>
    obtain ⟨hp1, ⟨⟩⟩ := ite_none_right_eq_some.mp ha
    have hp : (v.plug w).pinned ≠ 0 := ne_of_gt hp1
    refine ⟨howner, fun h1 => ?_, h.untracked, fun hp' => absurd hp' hp, fun hp' => absurd hp' hp⟩
    have : 1 ≤ v.free + v.held + v.tables := h1
    omega
  | mapNew w =>
    obtain ⟨hh, rfl⟩ := unhold_map ha
    obtain ⟨hm, hc, h1⟩ := h.owned (by omega)
    refine ⟨?_, fun h2 => ?_, fun _ => hc, fun _ => ?_, fun _ _ => ?_⟩
    · simp only [plug]
      omega
    · simp only [plug] at h2
      omega
    · simp only [plug, hc, getD_none]
      omega
    · simp only [plug]
      omega
  | share w =>
    obtain ⟨u, rfl, hw, hb⟩ := unplug_bind ha
    refine h.demote.addCount hb h.unowned hok ?_
    -- an entry that may write is alone, and this one is no longer writable
    show u.writable + 0 = 0
    have hsingle : 1 ≤ u.writable + w.toNat → u.maps + 1 ≤ 1 := h.single hok
    omega
  | forget w =>
    obtain ⟨rfl, hw⟩ := unplug_eq_some ha
    exact h.unplug hw
  | unmap w | dropPage w =>
    obtain ⟨u, rfl, hw, rfl⟩ := unplug_map ha
    split
    · exact h.unplug hw
    · exact h.release hw hok
  | claim w =>
    obtain ⟨u, rfl, hw, hb⟩ := unplug_bind ha
    exact h.claimCount hb
  | split w =>
    obtain ⟨u, rfl, hw, hb⟩ := unplug_bind ha
    exact h.splitCount hw hb
  | protect w w' =>
    obtain ⟨u, rfl, hw, rfl⟩ := unplug_map ha
    cases w' with
    | false => exact h.demote
    | true =>
      have hm : u.maps + 1 ≤ 1 := hok rfl
      exact ⟨howner, h.idle, h.untracked, h.bound, fun _ _ => hm⟩
  | overcount w =>
    obtain ⟨u, rfl, hw, hb⟩ := unplug_bind ha
    have hp : u.pinned = 0 := hok
    have h0 := h.unowned
    have hd := h.demote
    obtain ⟨-, rfl⟩ := addCount_eq_some hb
    refine ⟨hd.owner, hd.idle, fun h1 => ?_, fun _ => ?_, hd.single⟩
    · have : 1 ≤ u.free + u.held + u.tables + u.pinned := h1
      omega
    have : u.maps + 1 ≤ u.count.getD 1 := hd.bound hp
    show u.maps + 1 ≤ u.count.getD 1 + 1
    omega

/-! ## Frames that never become part of a segment -/

theorem giveBack_pinned : v.giveBack.pinned = v.pinned := by
  unfold giveBack
  split <;> rfl

theorem release_pinned : v.release.pinned = v.pinned := by
  unfold release
  split
  · exact giveBack_pinned
  split
  · exact giveBack_pinned
  · rfl

theorem unplug_pinned (h : v.unplug w = some v') : v'.pinned = v.pinned := by
  obtain ⟨rfl, -⟩ := unplug_eq_some h
  rfl

theorem unhold_pinned (h : v.unhold = some v') : v'.pinned = v.pinned := by
  obtain ⟨-, rfl⟩ := unhold_eq_some h
  rfl

theorem addCount_pinned (h : v.addCount = some v') : v'.pinned = v.pinned := by
  obtain ⟨-, rfl⟩ := addCount_eq_some h
  rfl

theorem claimCount_pinned (h : v.claimCount = some v') : v'.pinned = v.pinned := by
  unfold claimCount at h
  split at h
  · rw [← some.inj h]
  · rw [← some.inj (ite_none_right_eq_some.mp h).2]
    rfl

theorem splitCount_pinned (h : v.splitCount = some v') : v'.pinned = v.pinned := by
  unfold splitCount at h
  split at h
  · cases h
  · rw [← some.inj (ite_none_left_eq_some.mp h).2]
    rfl

/-- Only `pin` makes a frame part of a segment. -/
theorem apply_pinned {e : Event} (h : v.apply e = some v') (he : e ≠ .pin) (hp : v.pinned = 0) : v'.pinned = 0 := by
  have hif : ∀ {c : Prop} [Decidable c] {u : FrameView}, (if c then some u else none) = some v' →
      u.pinned = 0 → v'.pinned = 0 := by
    intro c _ u hu h0
    rw [← some.inj (ite_none_right_eq_some.mp hu).2]
    exact h0
  cases e with
  | pin => exact absurd rfl he
  | take | dupTable | markData | markTable | attach => exact hif h hp
  | unpin => exact hif h (by rw [show v.pinned - 1 = 0 by omega])
  | dropTable =>
    refine hif h ?_
    split
    · exact hp
    · exact giveBack_pinned.trans hp
  | giveBack =>
    obtain ⟨u, hu, rfl⟩ := map_eq_some_iff.mp h
    exact giveBack_pinned.trans ((unhold_pinned hu).trans hp)
  | link | mapNew =>
    obtain ⟨u, hu, rfl⟩ := map_eq_some_iff.mp h
    exact (unhold_pinned hu).trans hp
  | forget w => exact (unplug_pinned h).trans hp
  | protect w w' =>
    obtain ⟨u, hu, rfl⟩ := map_eq_some_iff.mp h
    exact (unplug_pinned hu).trans hp
  | unmap | dropPage =>
    obtain ⟨u, hu, rfl⟩ := map_eq_some_iff.mp h
    split
    · exact (unplug_pinned hu).trans hp
    · exact release_pinned.trans ((unplug_pinned hu).trans hp)
  | share | overcount =>
    obtain ⟨u, hu, hb⟩ := bind_eq_some_iff.mp h
    exact (addCount_pinned hb).trans ((unplug_pinned hu).trans hp)
  | claim =>
    obtain ⟨u, hu, hb⟩ := bind_eq_some_iff.mp h
    exact (claimCount_pinned hb).trans ((unplug_pinned hu).trans hp)
  | split =>
    obtain ⟨u, hu, hb⟩ := bind_eq_some_iff.mp h
    exact (splitCount_pinned hb).trans ((unplug_pinned hu).trans hp)
end FrameView

end OxideOs.Vm

import OxideOs.Mm.FrameLife

/-!
# `Mm.FrameSegment` — frames of shared memory segments

`Segmented`: the frame is isolated, and whoever holds it, or the segment it belongs to, can return it. While a
frame belongs to a segment, hardly anything can happen to it (`apply_pinned_eq_none`): it is attached, or the
segment is removed. Everything else that could happen to it treats it like a private page, and breaks the
invariant; `KeepsSegmented` excludes that.
-/

namespace OxideOs.Vm

open Pagedb Option

/-- The events that cannot happen to a frame of a segment, because nobody else has it. -/
def Event.quiet : Event → Bool
  | .take | .giveBack | .link | .dropTable | .dupTable | .markData | .markTable | .pin | .mapNew _ => true
  | _ => false

/-- The events in the life of a segment. -/
def Event.segmental : Event → Bool
  | .unpin | .attach _ => true
  | _ => false

namespace FrameView

variable {v v' : FrameView} {w : Bool} {e : Event}

/-- The frame is isolated. If it is free, held or part of a segment it is one that can be listed, its holder or
    segment can return it, and as a free frame it is covered by the page database. -/
structure Segmented (v : FrameView) : Prop where
  isolated : v.Isolated
  listed : 1 ≤ v.free + v.held + v.pinned → v.listable = true
  accepted : 1 ≤ v.held + v.pinned → v.refused = false
  covered : 1 ≤ v.free → v.record ≠ some none

/-- Where an event keeps a frame so: no frame of a segment is treated like a private page. -/
def KeepsSegmented (v : FrameView) (e : Event) : Prop :=
  v.KeepsIsolated e ∧ (1 ≤ v.pinned → e.quiet = true ∨ e.segmental = true)

/-- **Nobody but its segment has a frame of a segment.** -/
theorem Isolated.apply_quiet (h : v.Isolated) (hp : 1 ≤ v.pinned) (he : e.quiet = true) : v.apply e = none := by
  have howner := h.owner
  have hheld : v.unhold = none := if_neg (by omega)
  cases e with
  | take => exact if_neg (by omega)
  | giveBack | link | pin | mapNew => simp only [FrameView.apply, hheld, map_none]
  | dropTable | dupTable | markData | markTable => exact if_neg (by omega)
  | _ => cases he

/-- What a frame that is returned looks like, if it is listed then. -/
theorem giveBack_listed (h0 : v.free = 0) (h1 : 1 ≤ v.giveBack.free) :
    v.giveBack.listable = true ∧ v.giveBack.record ≠ some none := by
  rcases giveBack_cases v with ⟨he, -⟩ | ⟨hr, he⟩
  · rw [he] at h1
    omega
  rw [he] at h1 ⊢
  refine ⟨?_, ?_⟩
  · by_contra hl
    have hl : ¬ v.listable = true := hl
    have h1 : 1 ≤ if v.listable then v.free + 1 else v.free := h1
    rw [if_neg hl] at h1
    omega
  show v.record.map (Option.map fun _ => PageFrame.new) ≠ some none
  unfold refused at hr
  split at hr
  next hrec =>
    rw [hrec]
    exact some_ne_none _ |>.symm
  · cases hr
  next hrec =>
    rw [hrec]
    simp

theorem giveBack_held : v.giveBack.held = v.held := by
  unfold giveBack
  split <;> rfl

theorem release_held : v.release.held = v.held := by
  unfold release
  split
  · exact giveBack_held
  split
  · exact giveBack_held
  · rfl

theorem release_listed (h0 : v.free = 0) (h1 : 1 ≤ v.release.free) :
    v.release.listable = true ∧ v.release.record ≠ some none := by
  unfold release at h1 ⊢
  split at h1
  · exact giveBack_listed h0 h1
  split at h1
  next hc =>
    rw [if_pos hc]
    exact giveBack_listed h0 h1
  have h1 : 1 ≤ v.free := h1
  omega

/-- A frame that nobody holds and that is in no segment. -/
theorem Segmented.ofMapped (h : v.Isolated) (h0 : v.held + v.pinned = 0)
    (hf : 1 ≤ v.free → v.listable = true ∧ v.record ≠ some none) : v.Segmented :=
  ⟨h, fun h1 => (hf (by omega)).1, fun h1 => by omega, fun h1 => (hf h1).2⟩

/-- Only the record counts. -/
theorem refused_congr {u : FrameView} (h : u.record = v.record) : u.refused = v.refused := by
  unfold refused
  rw [h]

/-- The record of a frame just handed out is accepted. -/
theorem refused_allocated (h : v.record ≠ some none) : (v.onRecord (fun _ => allocatedRecord)).refused = false := by
  unfold refused onRecord
  cases hr : v.record with
  | none => rfl
  | some o =>
    cases o with
    | none => exact absurd hr h
    | some pf =>
      show (allocatedRecord.isFree ||
        (allocatedRecord.hasFlag PF_RESERVED || decide (1 < allocatedRecord.refcount))) = false
      decide

/-- So is the record of a frame marked as a page. -/
theorem refused_marked (h : v.refused = false) :
    (v.onRecord (fun pf => pf.setFlags (PF_ALLOCATED ||| PF_MAPPED))).refused = false := by
  unfold refused at h
  unfold refused onRecord
  cases hr : v.record with
  | none => rfl
  | some o =>
    rw [hr] at h
    cases o with
    | none => cases h
    | some pf =>
      simp only [Bool.or_eq_false_iff] at h
      show ((PF_ALLOCATED ||| PF_MAPPED == PF_FREE && pf.refcount == 0) ||
        ((PF_ALLOCATED ||| PF_MAPPED) &&& PF_RESERVED != 0 || decide (1 < pf.refcount))) = false
      rw [h.2.2]
      rfl

/-- **The invariant is kept.** -/
theorem Segmented.apply (h : v.Segmented) (hok : v.KeepsSegmented e) (ha : v.apply e = some v') : v'.Segmented := by
  have hiso := h.isolated.apply hok.1 ha
  have howner := h.isolated.owner
  by_cases hp : 1 ≤ v.pinned
  · rcases hok.2 hp with hq | hs
    · rw [h.isolated.apply_quiet hp hq] at ha
      cases ha
    cases e with
    | unpin =>
      simp only [apply, if_pos hp] at ha
      cases ha
      exact ⟨hiso, fun _ => h.listed (by omega), fun _ => h.accepted (by omega), h.covered⟩
    | attach w =>
      simp only [apply, if_pos hp] at ha
      cases ha
      exact ⟨hiso, h.listed, h.accepted, h.covered⟩
    | _ => cases hs
  -- from here on the frame belongs to no segment
  have hp0 : v.pinned = 0 := by omega
  have hentry : ∀ u w, v.unplug w = some u → u.free = 0 ∧ u.held = 0 ∧ u.pinned = 0 := by
    intro u w hu
    obtain ⟨rfl, -⟩ := unplug_eq_some hu
    have h0 := h.isolated.unowned
    exact ⟨by omega, by omega, hp0⟩
  have hidle : ∀ {u : FrameView}, u.Isolated → u.free = 0 ∧ u.held = 0 ∧ u.pinned = 0 → u.Segmented := by
    rintro u hu ⟨hf, hh, hpu⟩
    exact ofMapped hu (by omega) (fun h1 => by omega)
  cases e with
  | take =>
    obtain ⟨hf, ⟨⟩⟩ := ite_none_right_eq_some.mp ha
    refine ⟨hiso, fun _ => h.listed (by omega), fun _ => ?_, fun h1 => ?_⟩
    · exact (refused_congr rfl).trans (refused_allocated (h.covered hf))
    · have : 1 ≤ v.free - 1 := h1
      omega
  | giveBack =>
    obtain ⟨hh, rfl⟩ := unhold_map ha
    refine ofMapped hiso ?_ (fun h1 => giveBack_listed (by simp only; omega) h1)
    rw [giveBack_held, giveBack_pinned]
    simp only
    omega
  | link | mapNew =>
    obtain ⟨hh, rfl⟩ := unhold_map ha
    exact hidle hiso ⟨by show v.free = 0; omega, by show v.held - 1 = 0; omega, hp0⟩
  | pin =>
    obtain ⟨hh, rfl⟩ := unhold_map ha
    exact ⟨hiso, fun _ => h.listed (by omega), fun _ => h.accepted (by omega), h.covered⟩
  | dropTable =>
    obtain ⟨hg, ⟨⟩⟩ := ite_none_right_eq_some.mp ha
    split
    next hif =>
      rw [if_pos hif] at hiso
      exact hidle hiso ⟨by show v.free = 0; omega, by show v.held = 0; omega, hp0⟩
    rename_i hif
    rw [if_neg hif] at hiso
    refine ofMapped hiso ?_ (fun h1 => giveBack_listed (by show v.free = 0; omega) h1)
    rw [giveBack_held, giveBack_pinned]
    show v.held + v.pinned = 0
    omega
  | dupTable =>
    have := (ite_none_right_eq_some.mp ha).1
    omega
  | markData =>
    obtain ⟨hg, ⟨⟩⟩ := ite_none_right_eq_some.mp ha
    refine ⟨hiso, h.listed, fun h1 => refused_marked (h.accepted h1), fun h1 => ?_⟩
    have : 1 ≤ v.free := h1
    omega
  | markTable =>
    obtain ⟨hg, ⟨⟩⟩ := ite_none_right_eq_some.mp ha
    exact hidle hiso ⟨by show v.free = 0; omega, by show v.held = 0; omega, hp0⟩
  | unpin | attach =>
    simp only [apply, if_neg hp] at ha
    cases ha
  | share w | overcount w =>
    obtain ⟨u, hu, hb⟩ := bind_eq_some_iff.mp ha
    obtain ⟨-, rfl⟩ := addCount_eq_some hb
    exact hidle hiso (hentry u _ hu)
  | forget w => exact hidle hiso (hentry _ w ha)
  | protect w w' =>
    obtain ⟨u, hu, rfl⟩ := map_eq_some_iff.mp ha
    exact hidle hiso (hentry u _ hu)
  | unmap | dropPage =>
    obtain ⟨u, hu, rfl⟩ := map_eq_some_iff.mp ha
    split
    next hif =>
      rw [if_pos hif] at hiso
      exact hidle hiso (hentry u _ hu)
    rename_i hif
    rw [if_neg hif] at hiso
    obtain ⟨hf, hh, hpu⟩ := hentry u _ hu
    refine ofMapped hiso ?_ (release_listed hf)
    rw [release_held, release_pinned, hh, hpu]
  | claim w =>
    obtain ⟨u, hu, hb⟩ := bind_eq_some_iff.mp ha
    unfold claimCount at hb
    split at hb
    · cases hb
      exact hidle hiso (hentry u _ hu)
    · obtain rfl := some.inj (ite_none_right_eq_some.mp hb).2
      exact hidle hiso (hentry u _ hu)
  | split w =>
    obtain ⟨u, hu, hb⟩ := bind_eq_some_iff.mp ha
    unfold splitCount at hb
    split at hb
    · cases hb
    · obtain rfl := some.inj (ite_none_left_eq_some.mp hb).2
      exact hidle hiso (hentry u _ hu)

end FrameView
end OxideOs.Vm

import OxideOs.Lib.PMap
import OxideOs.Lib.Run
import OxideOs.Mm.Vma

/-!
# `Mm.VmaRefine` — `VmAreaList` implements a partial map

What an area list is for: a partial map from addresses to attributes, extended by `insert` and cut by
`remove`. `Call` is one call of the API; `step` runs it on the list, `specStep` on the map, and
`Refines` relates the two states along every sequence of calls.
-/

namespace OxideOs.Vma

open PMap VmArea

/-- The abstract state: address to attributes. -/
abbrev AddrMap := PMap Nat Attrs

/-- The addresses of `[start, stop)`. -/
def range (start stop : Nat) : Set Nat := { addr | start ≤ addr ∧ addr < stop }

theorem mem_range {start stop addr : Nat} : addr ∈ range start stop ↔ start ≤ addr ∧ addr < stop := Iff.rfl

/-- One call of the mutating API. -/
inductive Call where
  | insert (v : VmArea)
  | remove (start stop : Nat)

/-- A call on the list. -/
def step (l : VmAreaList) : Call → VmAreaList
  | .insert v => (l.insert v).2
  | .remove start stop => (l.remove start stop).2

open Classical in
/-- The same call on the map: a well-formed area is added where it fits, a valid range is erased, and
    nothing else has an effect. -/
noncomputable def specStep (m : AddrMap) : Call → AddrMap
  | .insert v =>
    if v.WellFormed ∧ UndefinedOn m (range v.start v.stop) then
      extend m (range v.start v.stop) v.attrs
    else m
  | .remove start stop => if ValidRange start stop then erase m (range start stop) else m

/-- The list represents the map. -/
structure Refines (l : VmAreaList) (m : AddrMap) : Prop where
  wellFormed : WellFormed l.areas
  mapOf : ∀ addr, mapOf l.areas addr = m addr

namespace Refines

variable {l : VmAreaList} {m : AddrMap}

theorem find (h : Refines l m) (addr : Nat) : (l.find addr).map attrs = m addr := by
  rw [find_attrs h.wellFormed, h.mapOf]

theorem fits_iff (h : Refines l m) {v : VmArea} (hv : v.WellFormed) :
    Fits l.areas v ↔ UndefinedOn m (range v.start v.stop) := by
  rw [fits_iff_undefined h.wellFormed hv]
  unfold UndefinedOn
  simp only [contains_iff, h.mapOf, mem_range]

/-- **`insert` of a well-formed area** succeeds exactly where the map is undefined on its range, and then
    extends the map; a refused area leaves the list alone. -/
theorem insert (h : Refines l m) {v : VmArea} (hv : v.WellFormed) :
    (UndefinedOn m (range v.start v.stop) ∧ (l.insert v).1 = .ok () ∧
        Refines (l.insert v).2 (extend m (range v.start v.stop) v.attrs)) ∨
      (¬ UndefinedOn m (range v.start v.stop) ∧ l.insert v = (.error .overlap, l)) := by
  rcases insert_eq h.wellFormed hv with ⟨hf, he⟩ | ⟨hf, he⟩
  · refine .inl ⟨(h.fits_iff hv).mp hf, by rw [he], ?_⟩
    have hwf := h.wellFormed.insertAt hv hf
    rw [he]
    refine ⟨hwf, fun addr => ?_⟩
    rw [mapOf_insertAt h.wellFormed hwf, h.mapOf]
    by_cases ha : addr ∈ range v.start v.stop
    · rw [if_pos (contains_iff.mpr ha), extend_of_mem ha]
    · rw [if_neg (mt contains_iff.mp ha), extend_of_not_mem ha]
  · exact .inr ⟨mt (h.fits_iff hv).mpr hf, he⟩

/-- An area that is not well formed is dropped (when empty) or refused. -/
theorem insert_illFormed {v : VmArea} (hv : ¬ v.WellFormed) : (l.insert v).2 = l := by
  unfold VmAreaList.insert
  split
  · rfl
  rename_i hne
  rw [if_pos]
  rw [pageOffset_ne_zero_or]
  rintro ⟨hs, he⟩
  exact hv ⟨Nat.lt_of_not_le hne, hs, he⟩

/-- **`remove` of a valid range** erases the range from the map and returns areas that describe what was
    there. -/
theorem remove (h : Refines l m) {start stop : Nat} (hr : ValidRange start stop) :
    ∃ gone, (l.remove start stop).1 = .ok gone ∧
      Refines ⟨gone⟩ (restrict m (range start stop)) ∧
      Refines (l.remove start stop).2 (erase m (range start stop)) := by
  obtain ⟨gone, kept, he, hg, hk, hgone, hkept⟩ := remove_spec h.wellFormed hr
  rw [he]
  refine ⟨gone, rfl, ⟨hg, fun addr => ?_⟩, ⟨hk, fun addr => ?_⟩⟩
  · rw [hgone addr, h.mapOf]
    by_cases ha : start ≤ addr ∧ addr < stop
    · rw [if_pos ha, restrict_of_mem (mem_range.mpr ha)]
    · rw [if_neg ha, restrict_of_not_mem (mt mem_range.mp ha)]
  rw [hkept addr, h.mapOf]
  by_cases ha : start ≤ addr ∧ addr < stop
  · rw [if_neg (not_not.mpr ha), erase_of_mem (mem_range.mpr ha)]
  · rw [if_pos ha, erase_of_not_mem (mt mem_range.mp ha)]

/-- One call keeps list and map related. -/
theorem step (l : VmAreaList) (m : AddrMap) (c : Call) (h : Refines l m) : Refines (Vma.step l c) (specStep m c) := by
  cases c with
  | insert v =>
    simp only [Vma.step, specStep]
    by_cases hv : v.WellFormed
    · rcases h.insert hv with ⟨hu, _, hr⟩ | ⟨hu, he⟩
      · rwa [if_pos ⟨hv, hu⟩]
      · rw [if_neg (fun hc => hu hc.2), he]
        exact h
    · rw [if_neg (fun hc => hv hc.1), insert_illFormed hv]
      exact h
  | remove start stop =>
    simp only [Vma.step, specStep]
    by_cases hr : ValidRange start stop
    · obtain ⟨gone, _, _, _⟩ := h.remove hr
      rwa [if_pos hr]
    · rw [if_neg hr, remove_invalid hr]
      exact h

end Refines

/-- **Every sequence of calls keeps list and map related.** -/
theorem refines_run (calls : List Call) : Refines (calls.foldl step VmAreaList.new) (calls.foldl specStep empty) :=
  Run.foldl_simulates Refines.step ⟨wellFormed_nil, fun _ => rfl⟩ calls

/-- **`VmAreaList` refines a partial map.** After every sequence of `insert` and `remove` calls the areas
    are sorted, nonempty, page aligned and disjoint; `find` reads the map; `insert` of a well-formed area
    succeeds exactly where the map is undefined on its whole range and then extends the map by that range,
    else the list is unchanged; `remove` of a range erases exactly that range and returns areas that
    describe the removed part, and arguments that are no page range change nothing. -/
theorem vmAreaList_refines_map (calls : List Call) :
    let l := calls.foldl step VmAreaList.new
    let m := calls.foldl specStep PMap.empty
    WellFormed l.areas ∧
      (∀ addr, (l.find addr).map VmArea.attrs = m addr) ∧
      (∀ addr v, l.find addr = some v → v.contains addr = true) ∧
      (∀ v : VmArea, v.WellFormed →
        ((l.insert v).1 = .ok () ↔ PMap.UndefinedOn m (range v.start v.stop)) ∧
        ((l.insert v).1 = .ok () → ∀ addr,
          ((l.insert v).2.find addr).map VmArea.attrs = PMap.extend m (range v.start v.stop) v.attrs addr) ∧
        ((l.insert v).1 ≠ .ok () → (l.insert v).2 = l)) ∧
      (∀ start stop, ValidRange start stop →
        (∀ addr, ((l.remove start stop).2.find addr).map VmArea.attrs =
          PMap.erase m (range start stop) addr) ∧
        ∃ gone, (l.remove start stop).1 = .ok gone ∧ WellFormed gone ∧
          ∀ addr, mapOf gone addr = PMap.restrict m (range start stop) addr) ∧
      (∀ start stop, ¬ ValidRange start stop → l.remove start stop = (.error .invalidArgs, l)) := by
  intro l m
  have h : Refines l m := refines_run calls
  refine ⟨h.wellFormed, h.find, ?_, ?_, ?_, fun start stop => remove_invalid⟩
  · intro addr v hv
    rw [find_eq h.wellFormed] at hv
    simpa using List.find?_some hv
  · intro v hv
    rcases h.insert hv with ⟨hu, hok, hr⟩ | ⟨hu, he⟩
    · exact ⟨iff_of_true hok hu, fun _ => hr.find, absurd hok⟩
    · rw [he]
      exact ⟨iff_of_false (by simp) hu, fun hok => by simp at hok, fun _ => rfl⟩
  · intro start stop hr
    obtain ⟨gone, hok, hgone, hkept⟩ := h.remove hr
    exact ⟨hkept.find, gone, hok, hgone.wellFormed, hgone.mapOf⟩

end OxideOs.Vma

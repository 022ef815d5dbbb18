import OxideOs.Mm.Vma

/-!
# `Mm.FreeRegion` — where `find_free_region` puts a mapping

The search tries the hint, then the gaps from the top down. Only the hint and the gap above the last area are
held against `max`; the gaps between the areas and below the first one are taken wherever they lie, the highest one
first. So the search ends beyond `max` exactly when the hint is of no use, there is no room between the areas and
`max`, and some free place below an area lies beyond `max`.
-/

namespace OxideOs.Vma

open Word VmAreaList List Option

variable {v : VmArea} {l : VmAreaList} {areas : List VmArea} {size hint max r : Nat}

/-- No area meets the `size` bytes from `r` on. -/
def Clear (areas : List VmArea) (size r : Nat) : Prop := ∀ v ∈ areas, v.stop ≤ r ∨ r + size ≤ v.start

/-- A place for `size` bytes. -/
structure Spot (l : VmAreaList) (size r : Nat) : Prop where
  aligned : 4096 ∣ r
  lower : 0x1000 ≤ r
  clear : Clear l.areas size r

theorem overlaps_eq_false {stop : Nat} : v.overlaps r stop = false ↔ v.stop ≤ r ∨ stop ≤ v.start := by
  simp [VmArea.overlaps]
  omega

/-- The page-aligned places at or below `a` are those at or below its page. -/
theorem le_pageDown {a : Nat} (h : 4096 ∣ r) : r ≤ pageDown a ↔ r ≤ a := by
  unfold pageDown
  omega

theorem pageDown_le (a : Nat) : pageDown a ≤ a := Nat.mul_div_le a 4096

theorem pageDown_dvd (a : Nat) : 4096 ∣ pageDown a := ⟨a / 4096, rfl⟩

/-- A well-formed area ends on a page boundary, and not at 0. -/
theorem VmArea.WellFormed.page_le_stop (h : v.WellFormed) : 0x1000 ≤ v.stop := by
  have hne := h.nonempty
  have hal := h.stopAligned
  omega

/-! ## The gaps between neighbours -/

/-- What the scan of the gaps reports, for the areas from the highest down. -/
inductive Scanned (areas : List VmArea) (size : Nat) : Option Nat → Prop where
  /-- A place above one area and below another, clear of them all, and the highest that is not above them all. -/
  | found {r : Nat} (aligned : 4096 ∣ r) (clear : Clear areas size r) (above : ∃ v ∈ areas, v.stop ≤ r)
      (below : ∃ v ∈ areas, r + size ≤ v.start)
      (highest : ∀ r', 4096 ∣ r' → Clear areas size r' → r' ≤ r ∨ ∀ v ∈ areas, v.stop ≤ r') :
      Scanned areas size (some r)
  /-- What is clear of the areas lies below or above them all. -/
  | nothing (out : ∀ r, 4096 ∣ r → Clear areas size r →
      (∀ v ∈ areas, r + size ≤ v.start) ∨ ∀ v ∈ areas, v.stop ≤ r) : Scanned areas size none

/-- **The gaps between the areas**: the first one from the top that is large enough is found. -/
theorem scanGaps_spec (size : Nat) (hwf : ∀ v ∈ areas, v.WellFormed)
    (hsort : areas.Pairwise (fun a b => b.stop ≤ a.start)) :
    ∃ o, scanGaps size areas = some o ∧ Scanned areas size o := by
  induction areas with
  | nil => exact ⟨none, rfl, .nothing (fun r _ _ => .inl (by simp))⟩
  | cons above areas ih =>
    cases areas with
    | nil =>
      refine ⟨none, rfl, .nothing (fun r _ hc => ?_)⟩
      simpa using (hc above (by simp)).symm
    | cons below rest =>
      obtain ⟨hhead, htail⟩ := pairwise_cons.mp hsort
      have hle : below.stop ≤ above.start := hhead below (by simp)
      have hbelow := (hwf below (by simp)).nonempty
      simp only [scanGaps]
      rw [if_neg (not_lt.mpr hle)]
      -- a place that is clear of the highest area is above it, or small enough for the gap below it
      have hside : ∀ r, 4096 ∣ r → Clear (above :: below :: rest) size r →
          above.stop ≤ r ∨ size ≤ above.start ∧ r ≤ pageDown (above.start - size) := by
        intro r hal hc
        rcases hc above (by simp) with hup | hdown
        · exact .inl hup
        · exact .inr ⟨by omega, (le_pageDown hal).mpr (by omega)⟩
      split
      next hgap =>
        have hdown := pageDown_le (above.start - size)
        have habove := (hwf above (by simp)).nonempty
        refine ⟨_, rfl, .found (pageDown_dvd _) ?_ ⟨below, by simp, hgap.2⟩ ⟨above, by simp, by omega⟩ ?_⟩
        · refine forall_mem_cons.mpr ⟨.inr (by omega), forall_mem_cons.mpr ⟨.inl hgap.2, fun v hv => .inl ?_⟩⟩
          have := (pairwise_cons.mp htail).1 v hv
          omega
        · intro r hal hc
          rcases hside r hal hc with hup | ⟨-, hin⟩
          · refine .inr (forall_mem_cons.mpr ⟨hup, fun v hv => ?_⟩)
            have := hhead v hv
            omega
          · exact .inl hin
      rename_i hgap
      -- the gap under the highest area has been looked at
      have hup : ∀ r, 4096 ∣ r → Clear (above :: below :: rest) size r → (∀ v ∈ below :: rest, v.stop ≤ r) →
          ∀ v ∈ above :: below :: rest, v.stop ≤ r := by
        intro r hal hc hhigh
        refine forall_mem_cons.mpr ⟨?_, hhigh⟩
        rcases hside r hal hc with hup | ⟨hsize, hin⟩
        · exact hup
        have hb := hhigh below (by simp)
        have hdown := pageDown_le (above.start - size)
        exact absurd ⟨by omega, by omega⟩ hgap
      obtain ⟨o, ho, hscan⟩ := ih (fun v hv => hwf v (mem_cons_of_mem _ hv)) htail
      refine ⟨o, ho, ?_⟩
      cases hscan with
      | found hal hc habove hbelow' hhighest =>
        obtain ⟨w, hw, hwr⟩ := hbelow'
        have hws := hhead w hw
        have hwn := (hwf w (mem_cons_of_mem _ hw)).nonempty
        obtain ⟨x, hx, hxr⟩ := habove
        refine .found hal (forall_mem_cons.mpr ⟨.inr (by omega), hc⟩) ⟨x, mem_cons_of_mem _ hx, hxr⟩
          ⟨w, mem_cons_of_mem _ hw, hwr⟩ (fun r' hal' hc' => ?_)
        exact (hhighest r' hal' (forall_mem_cons.mp hc').2).imp_right (hup r' hal' hc')
      | nothing hout =>
        refine .nothing (fun r hal hc => ?_)
        rcases hout r hal (forall_mem_cons.mp hc).2 with hlow | hhigh
        · have hb := hlow below (by simp)
          exact .inl (forall_mem_cons.mpr ⟨by omega, hlow⟩)
        · exact .inr (hup r hal hc hhigh)

/-! ## The whole search -/

/-- The place lies below an area. -/
def BelowArea (l : VmAreaList) (size r : Nat) : Prop := ∃ v ∈ l.areas, r + size ≤ v.start

/-- No place above all areas ends at or below `max`. -/
def FullAbove (l : VmAreaList) (size max : Nat) : Prop :=
  ∀ r, Spot l size r → (∀ v ∈ l.areas, v.stop ≤ r) → max < r + size

/-- What the scan from the top reports: a place above the areas, the highest one below an area when there is none
    above, or that there is none at all. -/
def Answers (l : VmAreaList) (size max : Nat) : Option Nat → Prop
  | some r => Spot l size r ∧ ((∀ v ∈ l.areas, v.stop ≤ r) ∧ r + size ≤ max ∨
      FullAbove l size max ∧ BelowArea l size r ∧ ∀ r', Spot l size r' → BelowArea l size r' → r' ≤ r)
  | none => ∀ r, Spot l size r → max < r + size ∧ ¬BelowArea l size r

/-- The gap below the areas and the gaps between them, when there is no room above. -/
theorem scanBelow_spec (h : WellFormed l.areas) (hsize : 0x1000 + size < 2 ^ 64) (hne : l.areas ≠ [])
    (hfull : FullAbove l size max) : ∃ o, l.scanBelow size 0x1000 = some o ∧ Answers l size max o := by
  have hmem : ∀ {v}, v ∈ l.areas.reverse ↔ v ∈ l.areas := mem_reverse
  have hrev : ∀ r, Spot l size r → Clear l.areas.reverse size r := fun r hr v hv => hr.clear v (hmem.mp hv)
  -- what lies below an area is not above them all
  have hnot : ∀ r, BelowArea l size r → ¬∀ v ∈ l.areas.reverse, v.stop ≤ r := by
    rintro r ⟨v, hv, hle⟩ hall
    have hv' := hall v (hmem.mpr hv)
    have hn := (h.area v hv).nonempty
    omega
  obtain ⟨o, ho, hscan⟩ := scanGaps_spec size (fun v hv => h.area v (hmem.mp hv)) (pairwise_reverse.mpr h.sorted)
  unfold scanBelow
  rw [ho]
  cases hscan with
  | found hal hc habove hbelow hhighest =>
    obtain ⟨x, hx, _⟩ := habove
    obtain ⟨w, hw, hwr⟩ := hbelow
    have hxs := (h.area x (hmem.mp hx)).page_le_stop
    refine ⟨_, rfl, ⟨hal, by omega, fun v hv => hc v (hmem.mpr hv)⟩, .inr ⟨hfull, ⟨w, hmem.mp hw, hwr⟩, ?_⟩⟩
    intro r' hr' hb'
    exact (hhighest r' hr'.aligned (hrev r' hr')).resolve_right (hnot r' hb')
  | nothing hout =>
    obtain ⟨first, rest, hl⟩ := exists_cons_of_ne_nil hne
    have hfirstMem : first ∈ l.areas := hl ▸ mem_cons_self
    -- the areas are sorted, so the first one is the lowest
    have hfirst : ∀ v ∈ l.areas, first.start ≤ v.start := by
      have hsort := h.sorted
      have hf := (h.area first hfirstMem).nonempty
      rw [hl] at hsort ⊢
      refine forall_mem_cons.mpr ⟨le_refl _, fun v hv => ?_⟩
      have := (pairwise_cons.mp hsort).1 v hv
      omega
    -- and what lies below an area lies below the first one
    have hlowest : ∀ r, Spot l size r → BelowArea l size r →
        size ≤ first.start ∧ r ≤ pageDown (first.start - size) := by
      intro r hr hb
      have hf := ((hout r hr.aligned (hrev r hr)).resolve_right (hnot r hb)) first (hmem.mpr hfirstMem)
      exact ⟨by omega, (le_pageDown hr.aligned).mpr (by omega)⟩
    simp only [hl, head?_cons, add64_of_lt hsize, map_some]
    have hdown := pageDown_le (first.start - size)
    split
    next hroom =>
      refine ⟨_, rfl, ⟨pageDown_dvd _, hroom.2, fun v hv => .inr ?_⟩, .inr ⟨hfull, ⟨first, hfirstMem, by omega⟩,
        fun r' hr' hb' => (hlowest r' hr' hb').2⟩⟩
      have := hfirst v hv
      omega
    rename_i hroom
    have hnone : ∀ r, Spot l size r → ¬BelowArea l size r := by
      intro r hr hb
      have hlow := hr.lower
      obtain ⟨hfits, hle⟩ := hlowest r hr hb
      exact hroom ⟨by omega, by omega⟩
    refine ⟨none, rfl, fun r hr => ⟨?_, hnone r hr⟩⟩
    rcases hout r hr.aligned (hrev r hr) with hb | ha
    · exact absurd ⟨first, hfirstMem, hb first (hmem.mpr hfirstMem)⟩ (hnone r hr)
    · exact hfull r hr (fun v hv => ha v (hmem.mpr hv))

/-- Where the areas end, or the lowest place for an area if there are none. -/
def topOf (l : VmAreaList) : Nat := (l.areas.getLast?.map VmArea.stop).getD 0x1000

/-- The last area ends highest. -/
theorem stop_le_topOf (h : WellFormed l.areas) (hv : v ∈ l.areas) : v.stop ≤ topOf l := by
  unfold topOf
  cases hlast : l.areas.getLast? with
  | none =>
    rw [getLast?_eq_none_iff.mp hlast] at hv
    cases hv
  | some last =>
    obtain ⟨before, hl⟩ := getLast?_eq_some_iff.mp hlast
    have hsort := h.sorted
    have hn := (h.area last (mem_of_getLast? hlast)).nonempty
    rw [hl] at hsort hv
    rcases mem_append.mp hv with hv | hv
    · have := (pairwise_append.mp hsort).2.2 v hv last (by simp)
      show v.stop ≤ last.stop
      omega
    · rw [mem_singleton.mp hv]
      exact le_rfl

theorem scanDown_spec (h : WellFormed l.areas) (hfit : topOf l + size < 2 ^ 64) :
    ∃ o, l.scanDown size max = some o ∧ Answers l size max o := by
  have hdown := pageDown_le (max - size)
  have hstop : ∀ v ∈ l.areas, v.stop ≤ topOf l := fun v hv => stop_le_topOf h hv
  unfold topOf at hfit hstop
  unfold scanDown
  cases hlast : l.areas.getLast? with
  | none =>
    have hnil := getLast?_eq_none_iff.mp hlast
    have hbelow : ∀ r, ¬BelowArea l size r := by
      rintro r ⟨v, hv, -⟩
      rw [hnil] at hv
      cases hv
    rw [hlast] at hfit
    simp only [add64_of_lt (by simpa [add_comm] using hfit : size + 0x1000 < 2 ^ 64), map_some]
    split
    next hroom =>
      have hd : 0x1000 ≤ pageDown (max - size) := (le_pageDown ⟨1, rfl⟩).mpr (by omega)
      exact ⟨_, rfl, ⟨pageDown_dvd _, hd, by simp [Clear, hnil]⟩, .inl ⟨by simp [hnil], by omega⟩⟩
    refine ⟨none, rfl, fun r hr => ⟨?_, hbelow r⟩⟩
    have := hr.lower
    omega
  | some last =>
    have hin := mem_of_getLast? hlast
    have hpage := (h.area last hin).page_le_stop
    rw [hlast] at hfit hstop
    have hfit : last.stop + size < 2 ^ 64 := hfit
    have hstop : ∀ v ∈ l.areas, v.stop ≤ last.stop := hstop
    simp only [add64_of_lt hfit, bind_some]
    split
    next hroom =>
      have habove : ∀ v ∈ l.areas, v.stop ≤ pageDown (max - size) := fun v hv => le_trans (hstop v hv) hroom.2
      exact ⟨_, rfl, ⟨pageDown_dvd _, by omega, fun v hv => .inl (habove v hv)⟩, .inl ⟨habove, by omega⟩⟩
    next hroom =>
      refine scanBelow_spec h (by omega) (ne_nil_of_mem hin) (fun r hr habove => ?_)
      by_contra hle
      have hup := habove last hin
      have hd : r ≤ pageDown (max - size) := (le_pageDown hr.aligned).mpr (by omega)
      exact hroom ⟨by omega, by omega⟩

theorem scanDown_overflow (h : 2 ^ 64 ≤ topOf l + size) : l.scanDown size max = none := by
  unfold topOf at h
  unfold scanDown
  cases hlast : l.areas.getLast? with
  | none =>
    rw [hlast] at h
    have hadd : add64 size 0x1000 = none := if_neg (not_lt.mpr (by simpa [add_comm] using h))
    simp only [hadd, map_none]
  | some last =>
    rw [hlast] at h
    have hadd : add64 last.stop size = none := if_neg (not_lt.mpr h)
    simp only [hadd, bind_none]

/-- The page of the hint is a free place that ends at or below `max`. -/
def HintFits (l : VmAreaList) (size hint max : Nat) : Prop :=
  pageDown hint ≠ 0 ∧ pageDown hint + size ≤ max ∧ Clear l.areas size (pageDown hint)

/-- There is no room between the areas and `max`, and a free place below an area ends beyond `max`. -/
def Overreaches (l : VmAreaList) (size max : Nat) : Prop :=
  FullAbove l size max ∧ ∃ r, Spot l size r ∧ BelowArea l size r ∧ max < r + size

/-- **What the search is for**: it returns, a region found is page aligned, not at 0, ends at or below `max` without
    overflow and meets no area, and nothing is found only if there is no such region. -/
def FreeRegion (l : VmAreaList) (size max : Nat) (answer : Option (Option Nat)) : Prop :=
  ∃ o, answer = some o ∧
    (∀ r, o = some r → 4096 ∣ r ∧ 0x1000 ≤ r ∧ r + size < 2 ^ 64 ∧ r + size ≤ max ∧
      ∀ v ∈ l.areas, v.overlaps r (r + size) = false) ∧
    (o = none → ∀ r, 4096 ∣ r → 0x1000 ≤ r → r + size ≤ max → ∃ v ∈ l.areas, v.overlaps r (r + size) = true)

theorem clear_iff : Clear l.areas size r ↔ ∀ v ∈ l.areas, v.overlaps r (r + size) = false :=
  forall₂_congr (fun _ _ => overlaps_eq_false.symm)

/-- The search takes the hint, or scans. -/
theorem findFreeRegion_eq (hpos : 0 < size) (hpage : 4096 ∣ size) (hsize : size < 2 ^ 64)
    (hhint : pageDown hint + size < 2 ^ 64) :
    (HintFits l size hint max ∧ l.findFreeRegion size hint max = some (some (pageDown hint))) ∨
      (¬HintFits l size hint max ∧ l.findFreeRegion size hint max = l.scanDown size max) := by
  have hall : (l.areas.all (fun v => !v.overlaps (pageDown hint) (pageDown hint + size))) = true ↔
      Clear l.areas size (pageDown hint) := by
    rw [clear_iff, List.all_eq_true]
    simp
  unfold findFreeRegion HintFits
  rw [if_neg (by rw [pageOffset_eq]; omega)]
  by_cases hzero : pageDown hint = 0
  · exact .inr ⟨fun hx => hx.1 hzero, if_neg (not_not.mpr hzero)⟩
  rw [if_pos hzero, add64_of_lt hhint]
  simp only [bind_some]
  by_cases hfits : pageDown hint + size ≤ max ∧ Clear l.areas size (pageDown hint)
  · exact .inl ⟨⟨hzero, hfits⟩, if_pos ⟨hfits.1, hall.mpr hfits.2⟩⟩
  · exact .inr ⟨fun hx => hfits hx.2, if_neg (fun hx => hfits ⟨hx.1, hall.mp hx.2⟩)⟩

/-- The scan finds a free region, unless it overreaches. -/
theorem freeRegion_scanDown (h : WellFormed l.areas) (hmax : max < 2 ^ 64) (hfit : topOf l + size < 2 ^ 64) :
    FreeRegion l size max (l.scanDown size max) ↔ ¬Overreaches l size max := by
  obtain ⟨o, ho, hans⟩ : ∃ o, l.scanDown size max = some o ∧ Answers l size max o := scanDown_spec h hfit
  constructor
  · rintro ⟨o', ho', hsome, -⟩ ⟨hfull, r, hspot, hbelow, hlt⟩
    cases ho.symm.trans ho'
    cases o with
    | none => exact (hans r hspot).2 hbelow
    | some r₀ =>
      obtain ⟨hspot₀, ⟨habove, hle⟩ | ⟨-, -, hhighest⟩⟩ := hans
      · exact absurd (hfull r₀ hspot₀ habove) (not_lt.mpr hle)
      · have hr := hhighest r hspot hbelow
        have hend := (hsome r₀ rfl).2.2.2.1
        omega
  · intro hno
    refine ⟨o, ho, fun r hr => ?_, fun hnone r hal hlow hup => ?_⟩
    · rw [hr] at hans
      obtain ⟨hspot, hplace⟩ := hans
      have hend : r + size ≤ max := by
        rcases hplace with ⟨-, hle⟩ | ⟨hfull, hbelow, -⟩
        · exact hle
        · by_contra hgt
          exact hno ⟨hfull, r, hspot, hbelow, not_le.mp hgt⟩
      exact ⟨hspot.aligned, hspot.lower, by omega, hend, clear_iff.mp hspot.clear⟩
    · rw [hnone] at hans
      by_contra hnot
      refine absurd (hans r ⟨hal, hlow, clear_iff.mpr (fun v hv => ?_)⟩).1 (not_lt.mpr hup)
      by_contra hv'
      exact hnot ⟨v, hv, by simpa using hv'⟩

/-- **`find_free_region` is right exactly** when the sums it forms fit into 64 bits and it either takes the hint or
    does not overreach. -/
theorem find_free_region_exact (h : WellFormed l.areas) (hpos : 0 < size) (hpage : 4096 ∣ size)
    (hsize : size < 2 ^ 64) (hmax : max < 2 ^ 64) :
    FreeRegion l size max (l.findFreeRegion size hint max) ↔ pageDown hint + size < 2 ^ 64 ∧
      (HintFits l size hint max ∨ topOf l + size < 2 ^ 64 ∧ ¬Overreaches l size max) := by
  by_cases hhint : pageDown hint + size < 2 ^ 64
  · simp only [hhint, true_and]
    rcases (findFreeRegion_eq hpos hpage hsize hhint : HintFits l size hint max ∧ _ ∨ _) with ⟨hfits, heq⟩ | ⟨hnot, heq⟩
    · rw [heq]
      refine ⟨fun _ => .inl hfits, fun _ => ⟨_, rfl, fun r hr => ?_, nofun⟩⟩
      cases hr
      have hd := pageDown_dvd hint
      have hne := hfits.1
      exact ⟨hd, by omega, hhint, hfits.2.1, clear_iff.mp hfits.2.2⟩
    rw [heq]
    by_cases hfit : topOf l + size < 2 ^ 64
    · rw [freeRegion_scanDown h hmax hfit]
      exact ⟨fun hno => .inr ⟨hfit, hno⟩, fun hx => (hx.resolve_left hnot).2⟩
    · rw [scanDown_overflow (not_lt.mp hfit)]
      refine ⟨?_, fun hx => absurd (hx.resolve_left hnot).1 hfit⟩
      rintro ⟨o, ho, -⟩
      cases ho
  · have hstops : l.findFreeRegion size hint max = none := by
      have hadd : add64 (pageDown hint) size = none := if_neg hhint
      unfold findFreeRegion
      rw [if_neg (by rw [pageOffset_eq]; omega), if_pos (by omega), hadd, bind_none]
    rw [hstops]
    refine ⟨?_, fun hx => absurd hx.1 hhint⟩
    rintro ⟨o, ho, -⟩
    cases ho

/-- Two areas of one page each. -/
def twoAreas : VmAreaList := ⟨[VmArea.new 0x1000 0x2000 {} .anon, VmArea.new 0x10000 0x11000 {} .anon]⟩

theorem twoAreas_wellFormed : WellFormed twoAreas.areas :=
  ⟨forall_mem_cons.mpr ⟨⟨by decide, by decide, by decide⟩,
    forall_mem_singleton.mpr ⟨by decide, by decide, by decide⟩⟩, by decide⟩

/-- The page under the upper area is the region found for a bound above the areas, and the answer is right. With the
    bound between the areas a hint is right too. -/
theorem find_free_region_exact_between :
    (twoAreas.findFreeRegion 0x1000 0 0x11000 = some (some 0xF000) ∧
      FreeRegion twoAreas 0x1000 0x11000 (some (some 0xF000))) ∧
    FreeRegion twoAreas 0x1000 0x5000 (twoAreas.findFreeRegion 0x1000 0x3000 0x5000) := by
  have hfound : twoAreas.findFreeRegion 0x1000 0 0x11000 = some (some 0xF000) := by decide
  refine ⟨⟨hfound, ?_⟩, ?_⟩
  · rw [← hfound]
    refine (find_free_region_exact twoAreas_wellFormed (by decide) (by decide) (by decide) (by decide)).mpr
      ⟨by decide, .inr ⟨by decide, ?_⟩⟩
    rintro ⟨-, r, -, ⟨v, hv, hle⟩, hlt⟩
    have hstart : ∀ v ∈ twoAreas.areas, v.start ≤ 0x10000 := by decide
    have hv' := hstart v hv
    omega
  · exact (find_free_region_exact twoAreas_wellFormed (by decide) (by decide) (by decide) (by decide)).mpr
      ⟨by decide, .inl ⟨by decide, by decide, by unfold Clear; decide⟩⟩

/-- **A region beyond `max`**: the gap between two areas is taken although it lies above `max`. -/
theorem free_region_beyond_max :
    WellFormed twoAreas.areas ∧ twoAreas.findFreeRegion 0x1000 0 0x2000 = some (some 0xF000) ∧
      ¬0xF000 + 0x1000 ≤ 0x2000 :=
  ⟨twoAreas_wellFormed, by decide, by decide⟩

end OxideOs.Vma

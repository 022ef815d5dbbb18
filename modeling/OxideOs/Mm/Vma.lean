import OxideOs.Lib.SliceSearch
import OxideOs.Lib.Word

/-!
# `Mm.Vma` — the sorted list of virtual memory areas (`mm-vma`)

`VmAreaList` keeps the areas of an address space in one vector: lookup is a binary search with a
three-way interval comparator, insertion looks at the two neighbours of the insertion point only, and
removal cuts every area against the removed range. Addresses are `u64` values, here `Nat`s; where the search
for a free region adds to them, a sum that does not fit stops the machine.

The file has the faithful model first, then the representation invariant `WellFormed` and what each
operation does to the address map `mapOf` a list of areas describes.
-/

namespace OxideOs.Vma

open List Option SliceSearch Word

/-- `VmFlags`: protection and behaviour bits of a region. -/
structure VmFlags where
  read : Bool := false
  write : Bool := false
  exec : Bool := false
  shared : Bool := false
  growsdown : Bool := false
  stack : Bool := false
  dontcopy : Bool := false
  deriving DecidableEq, Repr

/-- `VmType`: what kind of mapping an area is. -/
inductive VmType where
  | text | data | bss | stack | heap | anon | fileBacked | tls | guard
  deriving DecidableEq, Repr

/-- `VmArea`: the region `[start, stop)`. `name` holds the `name_len` bytes that `name()` returns. -/
structure VmArea where
  start : Nat
  stop : Nat
  flags : VmFlags
  vmType : VmType
  name : List UInt8
  deriving DecidableEq, Repr

/-- What the address map records for a page: flags, type and name. -/
abbrev Attrs := VmFlags × VmType × List UInt8

namespace VmArea

def new (start stop : Nat) (flags : VmFlags) (vmType : VmType) : VmArea := { start, stop, flags, vmType, name := [] }

/-- `new_named`: the label is cut to the 32-byte buffer. -/
def newNamed (start stop : Nat) (flags : VmFlags) (vmType : VmType) (label : List UInt8) : VmArea :=
  { new start stop flags vmType with name := label.take 32 }

def contains (v : VmArea) (addr : Nat) : Bool := v.start ≤ addr && addr < v.stop

def overlaps (v : VmArea) (start stop : Nat) : Bool := v.start < stop && start < v.stop

def attrs (v : VmArea) : Attrs := (v.flags, v.vmType, v.name)

/-- A well-formed area: nonempty and page aligned. -/
structure WellFormed (v : VmArea) : Prop where
  nonempty : v.start < v.stop
  startAligned : 4096 ∣ v.start
  stopAligned : 4096 ∣ v.stop

end VmArea

/-- `VmAreaError`. -/
inductive VmAreaError where
  | overlap | notFound | invalidArgs | noSpace
  deriving DecidableEq, Repr

/-- `VmAreaList`. -/
structure VmAreaList where
  areas : List VmArea
  deriving DecidableEq, Repr

namespace VmAreaList

def new : VmAreaList := ⟨[]⟩

/-- The comparator of `find`: the area relative to the address. -/
def cmpAddr (addr : Nat) (v : VmArea) : Ordering := if addr < v.start then .gt else if v.stop ≤ addr then .lt else .eq

/-- `find`: the area that contains `addr`. -/
def find (l : VmAreaList) (addr : Nat) : Option VmArea :=
  match binarySearchBy l.areas (cmpAddr addr) with
  | .ok i => l.areas[i]?
  | .error _ => none

/-- `find_mut` followed by the write `f` to the area found. -/
def modify (l : VmAreaList) (addr : Nat) (f : VmArea → VmArea) : VmAreaList :=
  match binarySearchBy l.areas (cmpAddr addr) with
  | .ok i => ⟨l.areas.modify i f⟩
  | .error _ => l

/-- `insert`: an empty area is accepted and dropped; otherwise only the neighbours of the insertion point
    are tested for overlap. -/
def insert (l : VmAreaList) (v : VmArea) : Except VmAreaError Unit × VmAreaList :=
  if v.stop ≤ v.start then (.ok (), l)
  else if v.start &&& 0xFFF ≠ 0 ∨ v.stop &&& 0xFFF ≠ 0 then (.error .invalidArgs, l)
  else
    let pos := partitionPoint l.areas (fun a => a.start < v.start)
    if 0 < pos ∧ l.areas[pos - 1]?.any (fun a => v.start < a.stop) then (.error .overlap, l)
    else if l.areas[pos]?.any (fun a => a.start < v.stop) then (.error .overlap, l)
    else (.ok (), ⟨l.areas.take pos ++ v :: l.areas.drop pos⟩)

/-- One round of the loop in `remove`: what is pushed to `removed` and what is pushed to `new_areas` for
    one area. -/
def cut (start stop : Nat) (v : VmArea) : List VmArea × List VmArea :=
  if v.stop ≤ start ∨ stop ≤ v.start then ([], [v])
  else if start ≤ v.start ∧ v.stop ≤ stop then ([v], [])
  else if v.start < start ∧ stop < v.stop then
    -- straddles both ends: the two remnants keep the attributes
    ([{ v with start := start, stop := stop }], [{ v with stop := start }, { v with start := stop }])
  else if v.start < start then
    ([{ v with start := start, stop := min v.stop stop }], [{ v with stop := start }])
  else ([{ v with stop := min stop v.stop }], [{ v with start := stop }])

/-- `remove`: cut every area against `[start, stop)`. -/
def remove (l : VmAreaList) (start stop : Nat) : Except VmAreaError (List VmArea) × VmAreaList :=
  if stop ≤ start ∨ start &&& 0xFFF ≠ 0 ∨ stop &&& 0xFFF ≠ 0 then (.error .invalidArgs, l)
  else (.ok (l.areas.flatMap (fun v => (cut start stop v).1)), ⟨l.areas.flatMap (fun v => (cut start stop v).2)⟩)

/-- `addr & !0xFFF`. -/
def pageDown (addr : Nat) : Nat := 4096 * (addr / 4096)

/-- The loop of `find_free_region` over the gaps between neighbours, from the top; it gets the areas from the
    highest down. The machine stops on neighbours that overlap. -/
def scanGaps (size : Nat) : List VmArea → Option (Option Nat)
  | above :: below :: rest =>
    if above.start < below.stop then none
    else if size ≤ above.start - below.stop ∧ below.stop ≤ pageDown (above.start - size) then
      some (some (pageDown (above.start - size)))
    else scanGaps size (below :: rest)
  | _ => some none

/-- The part of `find_free_region` below the gap above the last area. -/
def scanBelow (l : VmAreaList) (size minAddr : Nat) : Option (Option Nat) :=
  match scanGaps size l.areas.reverse with
  | none => none
  | some (some addr) => some (some addr)
  | some none =>
    match l.areas.head? with
    | none => some none
    | some first =>
      (add64 minAddr size).map (fun need =>
        if need ≤ first.start ∧ minAddr ≤ pageDown (first.start - size) then
          some (pageDown (first.start - size))
        else none)

/-- The top-down scan of `find_free_region`. -/
def scanDown (l : VmAreaList) (size max : Nat) : Option (Option Nat) :=
  let minAddr := 0x1000
  match l.areas.getLast? with
  | none => (add64 size minAddr).map (fun need => if need ≤ max then some (pageDown (max - size)) else none)
  | some last =>
    (add64 last.stop size).bind (fun lastEnd =>
      if lastEnd ≤ max ∧ last.stop ≤ pageDown (max - size) then some (some (pageDown (max - size)))
      else l.scanBelow size minAddr)

/-- `find_free_region`: the hint first, then the gaps from the top. `none` when a sum overflows and the
    machine stops. -/
def findFreeRegion (l : VmAreaList) (size hint max : Nat) : Option (Option Nat) :=
  if size = 0 ∨ size &&& 0xFFF ≠ 0 then some none
  else if pageDown hint ≠ 0 then
    (add64 (pageDown hint) size).bind (fun hintEnd =>
      if hintEnd ≤ max ∧ l.areas.all (fun v => !v.overlaps (pageDown hint) hintEnd) then some (some (pageDown hint))
      else l.scanDown size max)
  else l.scanDown size max

end VmAreaList

/-! ## The address map of a list of areas -/

/-- The address map a list of areas describes. -/
def mapOf (areas : List VmArea) (addr : Nat) : Option Attrs := (areas.find? (fun v => v.contains addr)).map VmArea.attrs

/-- **The representation invariant**: areas are nonempty, page aligned, and each ends before the next one
    starts, so they are sorted by start and pairwise disjoint. -/
structure WellFormed (areas : List VmArea) : Prop where
  area : ∀ v ∈ areas, v.WellFormed
  sorted : areas.Pairwise (fun a b => a.stop ≤ b.start)

variable {v : VmArea} {addr start stop : Nat} {areas : List VmArea} {l : VmAreaList} {f : VmArea → List VmArea}

theorem pageOffset_eq (a : Nat) : a &&& 0xFFF = a % 4096 := Nat.and_two_pow_sub_one_eq_mod a 12

theorem pageOffset_ne_zero_or (a b : Nat) : (a &&& 0xFFF ≠ 0 ∨ b &&& 0xFFF ≠ 0) ↔ ¬(4096 ∣ a ∧ 4096 ∣ b) := by
  rw [pageOffset_eq, pageOffset_eq]
  omega

@[simp] theorem VmArea.contains_iff : v.contains addr = true ↔ v.start ≤ addr ∧ addr < v.stop := by
  simp [contains]

theorem wellFormed_nil : WellFormed [] := ⟨by simp, by simp⟩

/-- An address is in at most one area of a well-formed list. -/
theorem WellFormed.index_eq (h : WellFormed areas) {i j : Nat} (hi : i < areas.length) (hj : j < areas.length)
    (hia : areas[i].contains addr = true) (hja : areas[j].contains addr = true) : i = j := by
  rw [VmArea.contains_iff] at hia hja
  rcases lt_trichotomy i j with hij | hij | hji
  · have := pairwise_iff_getElem.mp h.sorted i j hi hj hij
    omega
  · exact hij
  · have := pairwise_iff_getElem.mp h.sorted j i hj hi hji
    omega

theorem WellFormed.eq_of_contains (h : WellFormed areas) {w : VmArea} (hv : v ∈ areas) (hw : w ∈ areas)
    (hva : v.contains addr = true) (hwa : w.contains addr = true) : v = w := by
  obtain ⟨i, hi, rfl⟩ := getElem_of_mem hv
  obtain ⟨j, hj, rfl⟩ := getElem_of_mem hw
  obtain rfl := h.index_eq hi hj hva hwa
  rfl

/-- In a well-formed list a search finds any area that contains the address. -/
theorem WellFormed.find?_of_contains (h : WellFormed areas) (hv : v ∈ areas) (hva : v.contains addr = true) :
    areas.find? (fun v => v.contains addr) = some v := by
  cases hf : areas.find? (fun v => v.contains addr) with
  | none => exact absurd hva (find?_eq_none.mp hf v hv)
  | some w =>
    have hwa : w.contains addr = true := by simpa using find?_some hf
    rw [h.eq_of_contains hv (mem_of_find?_eq_some hf) hva hwa]

theorem mapOf_eq_none : mapOf areas addr = none ↔ ∀ v ∈ areas, ¬ v.contains addr = true := by
  simp [mapOf]

/-- In a well-formed list the map is read off any area that contains the address. -/
theorem WellFormed.mapOf_of_contains (h : WellFormed areas) (hv : v ∈ areas) (hva : v.contains addr = true) :
    mapOf areas addr = some v.attrs := by
  rw [mapOf, h.find?_of_contains hv hva]
  rfl

theorem mapOf_eq_some {x : Attrs} (h : mapOf areas addr = some x) :
    ∃ v ∈ areas, v.contains addr = true ∧ v.attrs = x := by
  obtain ⟨v, hv, hx⟩ := map_eq_some_iff.mp h
  exact ⟨v, mem_of_find?_eq_some hv, by simpa using find?_some hv, hx⟩

/-- Two lists of areas describe the same map at `addr` when the areas of one that contain it are matched,
    with equal attributes, by areas of the other. -/
theorem mapOf_ext {l1 l2 : List VmArea} (h2 : WellFormed l2)
    (hto : ∀ v ∈ l1, v.contains addr = true → ∃ w ∈ l2, w.contains addr = true ∧ w.attrs = v.attrs)
    (hback : ∀ w ∈ l2, w.contains addr = true → ∃ v ∈ l1, v.contains addr = true) : mapOf l1 addr = mapOf l2 addr := by
  cases h : mapOf l1 addr with
  | none =>
    rw [mapOf_eq_none] at h
    refine (mapOf_eq_none.mpr ?_).symm
    intro w hw hwa
    obtain ⟨v, hv, hva⟩ := hback w hw hwa
    exact h v hv hva
  | some x =>
    obtain ⟨v, hv, hva, rfl⟩ := mapOf_eq_some h
    obtain ⟨w, hw, hwa, he⟩ := hto v hv hva
    rw [h2.mapOf_of_contains hw hwa, he]

/-! ## `find` -/

theorem cmpAddr_eq_eq : VmAreaList.cmpAddr addr v = .eq ↔ v.contains addr = true := by
  unfold VmAreaList.cmpAddr
  split
  · simp; omega
  split <;> (simp; omega)

theorem cmpAddr_eq_gt : VmAreaList.cmpAddr addr v = .gt ↔ addr < v.start := by
  unfold VmAreaList.cmpAddr
  split_ifs <;> simp [*]

theorem cmpAddr_eq_lt : VmAreaList.cmpAddr addr v = .lt ↔ v.start ≤ addr ∧ v.stop ≤ addr := by
  unfold VmAreaList.cmpAddr
  split_ifs <;> (simp; omega)

/-- The interval comparator is ordered along a well-formed list. -/
theorem WellFormed.ordered (h : WellFormed areas) (addr : Nat) : Ordered (VmAreaList.cmpAddr addr) areas := by
  refine Pairwise.imp_of_mem ?_ h.sorted
  intro a b ha hb hs
  have hn := (h.area a ha).nonempty
  simp only [cmpAddr_eq_gt, cmpAddr_eq_lt]
  omega

/-- **`find` is lookup**: the binary search returns the area that contains the address, if there is one. -/
theorem find_eq (h : WellFormed l.areas) (addr : Nat) : l.find addr = l.areas.find? (fun v => v.contains addr) := by
  cases hf : l.areas.find? (fun v => v.contains addr) with
  | none =>
    rw [find?_eq_none] at hf
    unfold VmAreaList.find
    cases hb : binarySearchBy l.areas (VmAreaList.cmpAddr addr) with
    | ok i =>
      obtain ⟨hi, he⟩ := binarySearchBy_ok hb
      exact absurd (cmpAddr_eq_eq.mp he) (hf _ (getElem_mem hi))
    | error i => rfl
  | some v =>
    have hv := mem_of_find?_eq_some hf
    have hva : v.contains addr = true := by simpa using find?_some hf
    obtain ⟨i, hi⟩ := binarySearchBy_complete (h.ordered addr) hv (cmpAddr_eq_eq.mpr hva)
    obtain ⟨hil, he⟩ := binarySearchBy_ok hi
    simp only [VmAreaList.find, hi, getElem?_eq_getElem hil, some.injEq]
    exact h.eq_of_contains (getElem_mem hil) hv (cmpAddr_eq_eq.mp he) hva

theorem find_attrs (h : WellFormed l.areas) (addr : Nat) : (l.find addr).map VmArea.attrs = mapOf l.areas addr := by
  rw [find_eq h]; rfl

/-! ## `insert` -/

/-- No area of the list meets `v`. -/
def Fits (areas : List VmArea) (v : VmArea) : Prop := ∀ a ∈ areas, a.stop ≤ v.start ∨ v.stop ≤ a.start

section

variable (h : WellFormed areas)
include h

/-- On nonempty areas, not meeting `v` is being undefined on the whole of `v`. -/
theorem fits_iff_undefined (hv : v.WellFormed) :
    Fits areas v ↔ ∀ addr, v.contains addr = true → mapOf areas addr = none := by
  constructor
  · intro hf addr hva
    rw [mapOf_eq_none]
    intro a ha haa
    rw [VmArea.contains_iff] at hva haa
    have := hf a ha
    omega
  intro hu a ha
  by_contra hc
  have hne := (h.area a ha).nonempty
  have hvn := hv.nonempty
  have hva : v.contains (max a.start v.start) = true := by
    rw [VmArea.contains_iff]; omega
  have haa : a.contains (max a.start v.start) = true := by
    rw [VmArea.contains_iff]; omega
  exact mapOf_eq_none.mp (hu _ hva) a ha haa

/-- The insertion point splits the list at `v.start`. -/
theorem WellFormed.split (v : VmArea) :
    let pos := partitionPoint areas (fun a => a.start < v.start)
    pos ≤ areas.length ∧
      (∀ j (hj : j < areas.length), j < pos → areas[j].start < v.start) ∧
      ∀ j (hj : j < areas.length), pos ≤ j → v.start ≤ areas[j].start := by
  have hp : areas.Pairwise (fun a b => decide (b.start < v.start) = true → decide (a.start < v.start) = true) := by
    refine Pairwise.imp_of_mem ?_ h.sorted
    intro a b ha hb hs
    have hn := (h.area a ha).nonempty
    simp only [decide_eq_true_eq]
    omega
  obtain ⟨hle, hlt, hge⟩ := partitionPoint_spec hp
  refine ⟨hle, fun j hj hjp => ?_, fun j hj hpj => ?_⟩
  · simpa using hlt j hj hjp
  · simpa using hge j hj hpj

theorem WellFormed.monotone {i j : Nat} (hi : i < areas.length) (hj : j < areas.length) (hij : i ≤ j) :
    areas[i].start ≤ areas[j].start ∧ areas[i].stop ≤ areas[j].stop := by
  rcases hij.lt_or_eq with hlt | rfl
  · have hs := pairwise_iff_getElem.mp h.sorted i j hi hj hlt
    have hni := (h.area _ (getElem_mem hi)).nonempty
    have hnj := (h.area _ (getElem_mem hj)).nonempty
    omega
  · exact ⟨le_rfl, le_rfl⟩

/-- The two neighbour tests of `insert` decide `Fits`: what is further away is further out. -/
theorem neighbours_iff_fits (hv : v.WellFormed) :
    let pos := partitionPoint areas (fun a => a.start < v.start)
    (¬(0 < pos ∧ areas[pos - 1]?.any (fun a => v.start < a.stop) = true) ∧
      ¬ areas[pos]?.any (fun a => a.start < v.stop) = true) ↔ Fits areas v := by
  intro pos
  obtain ⟨_, hlt, hge⟩ := h.split v
  have hvn := hv.nonempty
  constructor
  · rintro ⟨hpre, hsucc⟩ a ha
    obtain ⟨j, hj, rfl⟩ := getElem_of_mem ha
    by_contra hc
    rcases lt_or_ge j pos with _ | hpj
    · -- below the insertion point: bounded by the predecessor
      have hpl : pos - 1 < areas.length := by omega
      have hm := h.monotone hj hpl (by omega)
      apply hpre
      simp only [getElem?_eq_getElem hpl, any_some, decide_eq_true_eq]
      omega
    · -- from the insertion point on: bounded by the successor
      have hpl : pos < areas.length := by omega
      have hm := h.monotone hpl hj hpj
      apply hsucc
      simp only [getElem?_eq_getElem hpl, any_some, decide_eq_true_eq]
      omega
  · intro hf
    constructor
    · rintro ⟨_, hany⟩
      have hpl : pos - 1 < areas.length := by omega
      simp only [getElem?_eq_getElem hpl, any_some, decide_eq_true_eq] at hany
      have h1 := hlt _ hpl (by omega)
      have h2 := hf _ (getElem_mem hpl)
      omega
    intro hany
    by_cases hpl : pos < areas.length
    · simp only [getElem?_eq_getElem hpl, any_some, decide_eq_true_eq] at hany
      have h1 := hge pos hpl (le_refl _)
      have h2 := hf _ (getElem_mem hpl)
      have h3 := (h.area _ (getElem_mem hpl)).nonempty
      omega
    · simp [getElem?_eq_none (Nat.le_of_not_lt hpl)] at hany

/-- Putting a fitting area at its insertion point keeps the invariant. -/
theorem WellFormed.insertAt (hv : v.WellFormed) (hf : Fits areas v) :
    let pos := partitionPoint areas (fun a => a.start < v.start)
    WellFormed (areas.take pos ++ v :: areas.drop pos) := by
  intro pos
  obtain ⟨-, hlt, hge⟩ := h.split v
  have hsplit : (areas.take pos ++ areas.drop pos).Pairwise (fun a b => a.stop ≤ b.start) := by
    rw [take_append_drop]; exact h.sorted
  obtain ⟨h1, h2, h3⟩ := pairwise_append.mp hsplit
  have hbefore : ∀ a ∈ areas.take pos, a.stop ≤ v.start := by
    intro a ha
    obtain ⟨j, hj, rfl⟩ := mem_take_iff_getElem.mp ha
    have hjl : j < areas.length := by omega
    have hs := hlt j hjl (by omega)
    have hn := hv.nonempty
    have := hf _ (getElem_mem hjl)
    omega
  have hafter : ∀ a ∈ areas.drop pos, v.stop ≤ a.start := by
    intro a ha
    obtain ⟨j, hj, rfl⟩ := mem_drop_iff_getElem.mp ha
    have hs := hge (pos + j) (by omega) (by omega)
    have hn := (h.area _ (getElem_mem (by omega : pos + j < areas.length))).nonempty
    have := hf _ (getElem_mem (by omega : pos + j < areas.length))
    omega
  constructor
  · refine forall_mem_append.mpr ⟨fun a ha => h.area a (mem_of_mem_take ha), forall_mem_cons.mpr ⟨hv, ?_⟩⟩
    exact fun a ha => h.area a (mem_of_mem_drop ha)
  rw [pairwise_append]
  refine ⟨h1, pairwise_cons.mpr ⟨hafter, h2⟩, ?_⟩
  exact fun a ha => forall_mem_cons.mpr ⟨hbefore a ha, h3 a ha⟩

end

/-- **`insert` of a well-formed area** succeeds exactly when the area meets no other one, and then puts it
    into the list; otherwise it reports the overlap and leaves the list alone. -/
theorem insert_eq (h : WellFormed l.areas) (hv : v.WellFormed) :
    let pos := partitionPoint l.areas (fun a => a.start < v.start)
    (Fits l.areas v ∧ l.insert v = (.ok (), ⟨l.areas.take pos ++ v :: l.areas.drop pos⟩)) ∨
      (¬ Fits l.areas v ∧ l.insert v = (.error .overlap, l)) := by
  have hne : ¬ v.stop ≤ v.start := not_le.mpr hv.nonempty
  have hal : ¬(v.start &&& 0xFFF ≠ 0 ∨ v.stop &&& 0xFFF ≠ 0) := by
    rw [pageOffset_ne_zero_or, not_not]
    exact ⟨hv.startAligned, hv.stopAligned⟩
  have hiff := neighbours_iff_fits h hv
  by_cases hf : Fits l.areas v
  · obtain ⟨hpre, hsucc⟩ := hiff.mpr hf
    refine .inl ⟨hf, ?_⟩
    simp only [VmAreaList.insert]
    rw [if_neg hne, if_neg hal, if_neg hpre, if_neg hsucc]
  refine .inr ⟨hf, ?_⟩
  simp only [VmAreaList.insert]
  rw [if_neg hne, if_neg hal]
  split
  · rfl
  rename_i hpre
  rw [if_pos]
  by_contra hsucc
  exact hf (hiff.mp ⟨hpre, hsucc⟩)

/-- What an inserted area adds to the map. -/
theorem mapOf_insertAt (h : WellFormed areas) {pos : Nat}
    (hwf : WellFormed (areas.take pos ++ v :: areas.drop pos)) (addr : Nat) :
    mapOf (areas.take pos ++ v :: areas.drop pos) addr =
      if v.contains addr = true then some v.attrs else mapOf areas addr := by
  split
  next hva =>
    exact hwf.mapOf_of_contains (by simp) hva
  rename_i hva
  refine mapOf_ext h ?_ ?_
  · refine forall_mem_append.mpr ⟨fun w hw hwa => ⟨w, mem_of_mem_take hw, hwa, rfl⟩, forall_mem_cons.mpr ⟨?_, ?_⟩⟩
    · exact fun hwa => absurd hwa hva
    · exact fun w hw hwa => ⟨w, mem_of_mem_drop hw, hwa, rfl⟩
  · intro w hw hwa
    rw [← take_append_drop pos areas, mem_append] at hw
    refine ⟨w, mem_append.mpr ?_, hwa⟩
    exact hw.imp id (mem_cons_of_mem v)

/-! ## `remove` -/

/-- A piece of `v`: inside it, well formed, with its attributes. -/
structure Piece (v w : VmArea) : Prop where
  lower : v.start ≤ w.start
  upper : w.stop ≤ v.stop
  wellFormed : w.WellFormed
  attrs : w.attrs = v.attrs

/-- **One area cut against `[start, stop)`**: `kept` and `gone` are sorted pieces of the area, and they hold
    exactly its addresses outside and inside the range. -/
theorem cut_spec (hv : v.WellFormed) (hlt : start < stop) (hs : 4096 ∣ start) (he : 4096 ∣ stop) :
    let gone := (VmAreaList.cut start stop v).1
    let kept := (VmAreaList.cut start stop v).2
    (∀ w ∈ gone, Piece v w) ∧ (∀ w ∈ kept, Piece v w) ∧
      gone.Pairwise (fun a b => a.stop ≤ b.start) ∧ kept.Pairwise (fun a b => a.stop ≤ b.start) ∧
      (∀ addr, (∃ w ∈ gone, w.contains addr = true) ↔
        v.contains addr = true ∧ start ≤ addr ∧ addr < stop) ∧
      ∀ addr, (∃ w ∈ kept, w.contains addr = true) ↔
        v.contains addr = true ∧ ¬(start ≤ addr ∧ addr < stop) := by
  obtain ⟨hne, hsa, hea⟩ := hv
  have piece : ∀ a b, v.start ≤ a → b ≤ v.stop → a < b → 4096 ∣ a → 4096 ∣ b →
      Piece v { v with start := a, stop := b } :=
    fun a b h1 h2 h3 h4 h5 => ⟨h1, h2, ⟨h3, h4, h5⟩, rfl⟩
  unfold VmAreaList.cut
  split_ifs with hout hin hboth hleft
  · refine ⟨by simp, ?_, by simp, by simp, ?_, ?_⟩
    · simpa using piece _ _ (Nat.le_refl _) (Nat.le_refl _) hne hsa hea
    · intro addr; simp; omega
    · intro addr; simp; omega
  · refine ⟨?_, by simp, by simp, by simp, ?_, ?_⟩
    · simpa using piece _ _ (Nat.le_refl _) (Nat.le_refl _) hne hsa hea
    · intro addr; simp; omega
    · intro addr; simp; omega
  · refine ⟨?_, ?_, by simp, by simp; omega, ?_, ?_⟩
    · simpa using piece _ _ (Nat.le_of_lt hboth.1) (Nat.le_of_lt hboth.2) hlt hs he
    · have hl := piece _ _ (Nat.le_refl _) (by omega) hboth.1 hsa hs
      have hr := piece _ _ (by omega) (Nat.le_refl _) hboth.2 he hea
      simpa using ⟨hl, hr⟩
    · intro addr; simp; omega
    · intro addr; simp; omega
  · have hmin : min v.stop stop = v.stop := by omega
    rw [hmin]
    refine ⟨?_, ?_, by simp, by simp, ?_, ?_⟩
    · simpa using piece _ _ (Nat.le_of_lt hleft) (Nat.le_refl _) (by omega) hs hea
    · simpa using piece _ _ (Nat.le_refl _) (by omega) hleft hsa hs
    · intro addr; simp; omega
    · intro addr; simp; omega
  · have hmin : min stop v.stop = stop := by omega
    rw [hmin]
    refine ⟨?_, ?_, by simp, by simp, ?_, ?_⟩
    · simpa using piece _ _ (Nat.le_refl _) (by omega) (by omega) hsa he
    · simpa using piece _ _ (by omega) (Nat.le_refl _) (by omega) he hea
    · intro addr; simp; omega
    · intro addr; simp; omega

section

variable (h : WellFormed areas) (hpiece : ∀ v ∈ areas, ∀ w ∈ f v, Piece v w)
include h hpiece

/-- Replacing every area by sorted pieces of itself keeps the invariant. -/
theorem WellFormed.flatMap (hsorted : ∀ v ∈ areas, (f v).Pairwise (fun a b => a.stop ≤ b.start)) :
    WellFormed (areas.flatMap f) := by
  constructor
  · intro w hw
    obtain ⟨v, hv, hwv⟩ := mem_flatMap.mp hw
    exact (hpiece v hv w hwv).wellFormed
  rw [pairwise_flatMap]
  refine ⟨hsorted, ?_⟩
  refine Pairwise.imp_of_mem ?_ h.sorted
  intro a b ha hb _ x hx y hy
  have hax := (hpiece a ha x hx).upper
  have hby := (hpiece b hb y hy).lower
  omega

/-- The map of the pieces: what was mapped at the addresses that `P` selects. -/
theorem mapOf_flatMap {P : Nat → Prop} [DecidablePred P]
    (hmem : ∀ v ∈ areas, ∀ addr, (∃ w ∈ f v, w.contains addr = true) ↔ v.contains addr = true ∧ P addr)
    (addr : Nat) : mapOf (areas.flatMap f) addr = if P addr then mapOf areas addr else none := by
  split
  next hP =>
    refine mapOf_ext h ?_ ?_
    · intro w hw hwa
      obtain ⟨v, hv, hwv⟩ := mem_flatMap.mp hw
      exact ⟨v, hv, ((hmem v hv addr).mp ⟨w, hwv, hwa⟩).1, (hpiece v hv w hwv).attrs.symm⟩
    intro v hv hva
    obtain ⟨w, hw, hwa⟩ := (hmem v hv addr).mpr ⟨hva, hP⟩
    exact ⟨w, mem_flatMap.mpr ⟨v, hv, hw⟩, hwa⟩
  next hP =>
    rw [mapOf_eq_none]
    intro w hw hwa
    obtain ⟨v, hv, hwv⟩ := mem_flatMap.mp hw
    exact hP ((hmem v hv addr).mp ⟨w, hwv, hwa⟩).2

end

/-- The arguments `remove` accepts. -/
def ValidRange (start stop : Nat) : Prop := start < stop ∧ 4096 ∣ start ∧ 4096 ∣ stop

instance (start stop : Nat) : Decidable (ValidRange start stop) := by
  delta ValidRange; infer_instance

theorem remove_guard_iff (start stop : Nat) :
    (stop ≤ start ∨ start &&& 0xFFF ≠ 0 ∨ stop &&& 0xFFF ≠ 0) ↔ ¬ ValidRange start stop := by
  rw [pageOffset_ne_zero_or]
  unfold ValidRange
  omega

theorem remove_invalid (h : ¬ ValidRange start stop) : l.remove start stop = (.error .invalidArgs, l) := by
  unfold VmAreaList.remove
  rw [if_pos ((remove_guard_iff start stop).mpr h)]

/-- **`remove` of a valid range** splits the map in two: the areas it returns describe the range, the areas
    it keeps describe the rest. -/
theorem remove_spec (h : WellFormed l.areas) (hr : ValidRange start stop) :
    ∃ gone kept, l.remove start stop = (.ok gone, ⟨kept⟩) ∧ WellFormed gone ∧ WellFormed kept ∧
      (∀ addr, mapOf gone addr = if start ≤ addr ∧ addr < stop then mapOf l.areas addr else none) ∧
      ∀ addr, mapOf kept addr = if ¬(start ≤ addr ∧ addr < stop) then mapOf l.areas addr else none := by
  have hcut := fun v hv => cut_spec (h.area v hv) hr.1 hr.2.1 hr.2.2
  refine ⟨l.areas.flatMap (fun v => (VmAreaList.cut start stop v).1),
    l.areas.flatMap (fun v => (VmAreaList.cut start stop v).2), ?_, ?_, ?_, ?_, ?_⟩
  · unfold VmAreaList.remove
    rw [if_neg (by rw [remove_guard_iff]; exact not_not.mpr hr)]
  · exact h.flatMap (fun v hv => (hcut v hv).1) (fun v hv => (hcut v hv).2.2.1)
  · exact h.flatMap (fun v hv => (hcut v hv).2.1) (fun v hv => (hcut v hv).2.2.2.1)
  · exact mapOf_flatMap h (fun v hv => (hcut v hv).1) (fun v hv => (hcut v hv).2.2.2.2.1)
  · exact mapOf_flatMap h (fun v hv => (hcut v hv).2.1) (fun v hv => (hcut v hv).2.2.2.2.2)

end OxideOs.Vma

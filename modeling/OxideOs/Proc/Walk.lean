import OxideOs.Lib.Slots
import OxideOs.Proc.Ledger

/-!
# `Proc.Walk` — what a walk over an address space visits

`Visited` says which slots the walk over a user half comes to, without its loops. From it: the walk comes to no
slot twice, and to no table after its entries. Two kinds of change are all that happens to tables: an entry of
a page table is overwritten (`leaves_update`), or a cleared table is linked in (`leaves_link`).
-/

namespace OxideOs.Vm

open Function List Option Paging PageTableFlags PageTableEntry Slot

namespace Slot

/-- An entry of a page table, as opposed to one that leads to a table. -/
def isPt : Slot → Bool
  | pt _ _ _ _ => true
  | _ => false

/-- The index into the PML4. -/
def first : Slot → Index
  | pml4 i => i
  | pdpt i _ => i
  | pd i _ _ => i
  | pt i _ _ _ => i

end Slot

namespace Tables

variable {t t' : Tables} {s r : Slot}

/-- The walk comes to the slot. -/
def Visited (t : Tables) : Slot → Prop
  | .pml4 i => i.val < 256 ∧ (t (.pml4 i)).isPresent = true
  | .pdpt i j => (i.val < 256 ∧ (t (.pml4 i)).isPresent = true) ∧ (t (.pdpt i j)).isPresent = true
  | .pd i j k =>
    ((i.val < 256 ∧ (t (.pml4 i)).isPresent = true) ∧ t.leads (.pdpt i j) = true) ∧
      (t (.pd i j k)).isPresent = true
  | .pt i j k _ =>
    ((i.val < 256 ∧ (t (.pml4 i)).isPresent = true) ∧ t.leads (.pdpt i j) = true) ∧ t.leads (.pd i j k) = true

variable {i j k : Index} {L : List Index} {F : Index → List Slot} {p : Slot} {e : PageTableEntry}

theorem leads_iff : t.leads s = true ↔ (t s).isPresent = true ∧ (t s).isHuge = false := by
  simp [leads]

theorem mem_indices (i : Index) : i ∈ indices := mem_finRange i

theorem mem_visitsPd :
    s ∈ t.visitsPd i j k ↔
      (t (.pd i j k)).isPresent = true ∧ (s = .pd i j k ∨ (t (.pd i j k)).isHuge = false ∧ ∃ l, s = .pt i j k l) := by
  unfold visitsPd
  cases hp : (t (.pd i j k)).isPresent with
  | false => simp
  | true =>
    cases hh : (t (.pd i j k)).isHuge with
    | true => simp
    | false => simp [mem_indices, eq_comm]

theorem mem_visitsPdpt :
    s ∈ t.visitsPdpt i j ↔
      (t (.pdpt i j)).isPresent = true ∧
        (s = .pdpt i j ∨ (t (.pdpt i j)).isHuge = false ∧ ∃ k, s ∈ t.visitsPd i j k) := by
  unfold visitsPdpt
  cases hp : (t (.pdpt i j)).isPresent with
  | false => simp
  | true =>
    cases hh : (t (.pdpt i j)).isHuge with
    | true => simp
    | false => simp [mem_indices]

theorem mem_visitsPml4 :
    s ∈ t.visitsPml4 i ↔ (t (.pml4 i)).isPresent = true ∧ (s = .pml4 i ∨ ∃ j, s ∈ t.visitsPdpt i j) := by
  unfold visitsPml4
  cases hp : (t (.pml4 i)).isPresent with
  | false => simp
  | true => simp [mem_indices]

theorem mem_userIndices : i ∈ userIndices ↔ i.val < 256 := by
  simp [userIndices, mem_indices]

/-- **The loops come to exactly the slots that are visited.** -/
theorem mem_visits : s ∈ t.visits ↔ t.Visited s := by
  unfold visits
  simp only [mem_flatMap, mem_userIndices, mem_visitsPml4, mem_visitsPdpt, mem_visitsPd]
  cases s with
  | pml4 i => simp [Visited]
  | pdpt i j => simp [Visited]; tauto
  | pd i j k | pt i j k l => simp [Visited, leads_iff]; tauto

theorem Visited.pml4 (h : t.Visited s) : s.first.val < 256 ∧ (t (.pml4 s.first)).isPresent = true := by
  cases s with
  | pml4 i => exact h
  | pdpt i j => exact h.1
  | pd i j k | pt i j k l => exact h.1.1

/-- Without an entry in the PML4 there is nothing to walk. -/
theorem visits_eq_nil (h : ∀ i : Index, i.val < 256 → (t (.pml4 i)).isPresent = false) : t.visits = [] := by
  refine eq_nil_iff_forall_not_mem.mpr (fun s hs => ?_)
  obtain ⟨hu, hp⟩ := (mem_visits.mp hs).pml4
  exact absurd (h _ hu ▸ hp) Bool.false_ne_true

/-! ## No slot twice, and tables before their entries -/

theorem indices_nodup : indices.Nodup := nodup_finRange _

theorem userIndices_nodup : userIndices.Nodup := indices_nodup.filter _

/-- The index into the PDPT, where there is one. -/
def second : Slot → Index
  | .pml4 i => i
  | .pdpt _ j => j
  | .pd _ j _ => j
  | .pt _ j _ _ => j

/-- The index into the PD, where there is one. -/
def third : Slot → Index
  | .pml4 i => i
  | .pdpt _ j => j
  | .pd _ _ k => k
  | .pt _ _ k _ => k

theorem third_visitsPd (h : s ∈ t.visitsPd i j k) : third s = k := by
  obtain ⟨-, rfl | ⟨-, l, rfl⟩⟩ := mem_visitsPd.mp h <;> rfl

theorem second_visitsPdpt (h : s ∈ t.visitsPdpt i j) : second s = j := by
  obtain ⟨-, rfl | ⟨-, k, hk⟩⟩ := mem_visitsPdpt.mp h
  · rfl
  obtain ⟨-, rfl | ⟨-, l, rfl⟩⟩ := mem_visitsPd.mp hk <;> rfl

theorem first_visitsPml4 (h : s ∈ t.visitsPml4 i) : s.first = i := by
  obtain ⟨-, rfl | ⟨j, hj⟩⟩ := mem_visitsPml4.mp h
  · rfl
  obtain ⟨-, rfl | ⟨-, k, hk⟩⟩ := mem_visitsPdpt.mp hj
  · rfl
  obtain ⟨-, rfl | ⟨-, l, rfl⟩⟩ := mem_visitsPd.mp hk <;> rfl

theorem Visited.parent (h : t.Visited s) (hp : s.parent = some p) : t.Visited p := by
  cases s with
  | pml4 i => cases hp
  | pdpt i j =>
    cases hp
    exact h.1
  | pd i j k =>
    cases hp
    exact ⟨h.1.1, (leads_iff.mp h.1.2).1⟩
  | pt i j k l =>
    cases hp
    exact ⟨h.1, (leads_iff.mp h.2).1⟩

theorem Visited.present (h : t.Visited s) (hs : s.isPt = false) : (t s).isPresent = true := by
  cases s with
  | pml4 i | pdpt i j | pd i j k => exact h.2
  | pt i j k l => cases hs

theorem Visited.first_lt (h : t.Visited s) : s.first.val < 256 := h.pml4.1

/-- The walk may come to `a` before `b`: they are two slots, and `a` is not an entry of the table at `b`. -/
def Before (a b : Slot) : Prop := a ≠ b ∧ a.parent ≠ some b

/-- Lists of slots that tell where they come from, put one after the other. -/
theorem pairwise_before (key : Slot → Index) (hL : L.Nodup) (hF : ∀ i, (F i).Pairwise Before)
    (hkey : ∀ i, ∀ s ∈ F i, key s = i) (hup : ∀ i i', ∀ a ∈ F i, ∀ b ∈ F i', a.parent = some b → key b = i) :
    (L.flatMap F).Pairwise Before := by
  refine pairwise_flatMap.mpr ⟨fun i _ => hF i, hL.imp ?_⟩
  intro i i' hne a ha b hb
  refine ⟨fun he => ?_, fun hp => ?_⟩
  · exact hne ((hkey i a ha).symm.trans (he ▸ hkey i' b hb))
  · exact hne ((hup i i' a ha b hb hp).symm.trans (hkey i' b hb))

theorem visitsPd_pairwise (t : Tables) (i j k : Index) : (t.visitsPd i j k).Pairwise Before := by
  unfold visitsPd
  split
  · exact .nil
  split
  · exact pairwise_singleton _ _
  refine pairwise_cons.mpr ⟨?_, pairwise_map.mpr (indices_nodup.imp fun hne => ?_)⟩
  · simp [Before, parent]
  · simp [Before, parent, hne]

theorem visitsPdpt_pairwise (t : Tables) (i j : Index) : (t.visitsPdpt i j).Pairwise Before := by
  unfold visitsPdpt
  split
  · exact .nil
  split
  · exact pairwise_singleton _ _
  refine pairwise_cons.mpr ⟨?_, pairwise_before third indices_nodup (t.visitsPd_pairwise i j)
    (fun _ _ hs => third_visitsPd hs) ?_⟩
  · intro b hb
    constructor <;> rintro ⟨⟩ <;> simp [mem_visitsPd] at hb
  intro k k' a ha b hb hp
  obtain ⟨-, rfl | ⟨-, l, rfl⟩⟩ := mem_visitsPd.mp ha
  · cases hp
    simp [mem_visitsPd] at hb
  · cases hp
    rfl

theorem visitsPml4_pairwise (t : Tables) (i : Index) : (t.visitsPml4 i).Pairwise Before := by
  unfold visitsPml4
  split
  · exact .nil
  refine pairwise_cons.mpr ⟨?_, pairwise_before second indices_nodup (t.visitsPdpt_pairwise i)
    (fun _ _ hs => second_visitsPdpt hs) ?_⟩
  · intro b hb
    constructor <;> rintro ⟨⟩
    simp [mem_visitsPdpt, mem_visitsPd] at hb
  intro j j' a ha b hb hp
  obtain ⟨-, rfl | ⟨-, k, hk⟩⟩ := mem_visitsPdpt.mp ha
  · cases hp
    simp [mem_visitsPdpt, mem_visitsPd] at hb
  obtain ⟨-, rfl | ⟨-, l, rfl⟩⟩ := mem_visitsPd.mp hk
  all_goals
    cases hp
    rfl

/-- **The walk comes to no slot twice, and to no table after one of its entries.** -/
theorem visits_pairwise (t : Tables) : t.visits.Pairwise Before := by
  refine pairwise_before first userIndices_nodup t.visitsPml4_pairwise (fun _ _ hs => first_visitsPml4 hs) ?_
  intro i i' a ha b hb hp
  rw [← first_visitsPml4 ha]
  cases a with
  | pml4 i => cases hp
  | pdpt i j | pd i j k | pt i j k l => obtain rfl := some.inj hp; rfl

theorem visits_nodup (t : Tables) : t.visits.Nodup := t.visits_pairwise.imp fun h => h.1

/-- The table of an entry was visited before it. -/
theorem parent_before {pre post : List Slot} (h : t.visits = pre ++ s :: post) (hp : s.parent = some p) : p ∈ pre := by
  have hs : t.Visited s := mem_visits.mp (h ▸ mem_append_right _ mem_cons_self)
  have hmem : p ∈ pre ++ s :: post := h ▸ mem_visits.mpr (hs.parent hp)
  rcases mem_append.mp hmem with hpre | hpost
  · exact hpre
  have hpw : (s :: post).Pairwise Before := (pairwise_append.mp (h ▸ t.visits_pairwise)).2.1
  rcases mem_cons.mp hpost with rfl | hin
  · cases p <;> cases hp
  · exact absurd hp ((pairwise_cons.mp hpw).1 p hin).2

-- the walk is never computed here
attribute [local irreducible] visits

/-! ## What the slots of a walk contribute -/

/-- The entry a slot contributes to `leafPtes`. -/
def leafAt (t : Tables) (s : Slot) : List PageTableEntry := if t.isLeaf s && (t s).isPresent then [t s] else []

/-- The frame a slot contributes to `tableFrames`. -/
def tableAt (t : Tables) (s : Slot) : List Frame := if t.isLeaf s then [] else [frameOf (t s)]

theorem filter_map_eq_flatMap (t : Tables) (L : List Slot) :
    ((L.filter t.isLeaf).map t).filter (fun e => e.isPresent) = L.flatMap t.leafAt := by
  induction L with
  | nil => rfl
  | cons s L ih =>
    rw [flatMap_cons, ← ih, filter_cons]
    unfold leafAt
    cases t.isLeaf s with
    | false => rfl
    | true =>
      cases hp : (t s).isPresent with
      | false | true => simp [hp]

theorem leafPtes_eq (t : Tables) : t.leafPtes = t.visits.flatMap t.leafAt := t.filter_map_eq_flatMap t.visits

theorem tableFrames_eq (t : Tables) : t.tableFrames = t.visits.flatMap t.tableAt := by
  unfold tableFrames
  induction t.visits with
  | nil => rfl
  | cons s L ih =>
    rw [flatMap_cons, ← ih, filter_cons]
    unfold tableAt
    cases t.isLeaf s with
    | false | true => rfl

theorem isLeaf_congr (h : t' s = t s) : t'.isLeaf s = t.isLeaf s := by
  cases s with
  | pml4 i => rfl
  | pdpt i j | pd i j k => exact congrArg isHuge h
  | pt i j k l => rfl

theorem leafAt_congr (h : t' s = t s) : t'.leafAt s = t.leafAt s := by
  rw [leafAt, leafAt, isLeaf_congr h, h]

theorem tableAt_congr (h : t' s = t s) : t'.tableAt s = t.tableAt s := by
  rw [tableAt, tableAt, isLeaf_congr h, h]

/-! ## Overwriting an entry of a page table -/

/-- The present leaf entries, in no order. -/
def leaves (t : Tables) : Multiset PageTableEntry := ↑t.leafPtes

/-- An entry, if it is present. -/
def opt (e : PageTableEntry) : Multiset PageTableEntry := if e.isPresent then {e} else 0

theorem isPresent_empty : PageTableEntry.empty.isPresent = false := by decide

/-- Tables that differ only in entries of page tables are walked alike. -/
theorem visits_congr (h : ∀ s, s.isPt = false → t' s = t s) : t'.visits = t.visits := by
  have hpd : t'.visitsPd = t.visitsPd := by
    funext i j k
    unfold visitsPd
    rw [h _ rfl]
  have hpdpt : t'.visitsPdpt = t.visitsPdpt := by
    funext i j
    unfold visitsPdpt
    rw [h _ rfl, hpd]
  have hpml4 : t'.visitsPml4 = t.visitsPml4 := by
    funext i
    unfold visitsPml4
    rw [h _ rfl, hpdpt]
  rw [visits, visits, hpml4]

theorem update_of_not_pt (hs : s.isPt = true) (h : r.isPt = false) : update t s e r = t r := by
  refine update_of_ne ?_ _ _
  rintro rfl
  rw [hs] at h
  cases h

theorem visits_update (e : PageTableEntry) (hs : s.isPt = true) : visits (update t s e) = t.visits :=
  visits_congr (fun _ h => update_of_not_pt hs h)

section

variable (hs : s.isPt = true)
include hs

theorem visited_update : Visited (update t s e) r ↔ t.Visited r := by
  rw [← mem_visits, ← mem_visits, visits_update e hs]

section

variable (hv : t.Visited s)
include hv

/-- **An entry of a page table is overwritten**: the walk finds the new entry, if it is present, beside what it
    finds without the entry. -/
theorem leaves_update (e : PageTableEntry) :
    leaves (update t s e) = opt e + leaves (update t s .empty) := by
  have hat : ∀ e', leafAt (update t s e') s = if e'.isPresent then [e'] else [] := by
    cases s with
    | pt i j k l => simp [leafAt, isLeaf]
    | _ => cases hs
  have hperm : (t.visits.flatMap (leafAt (update t s e))).Perm ((if e.isPresent then [e] else []) ++
        t.visits.flatMap (leafAt (update t s .empty))) := by
    refine Slots.flatMap_perm_exchange [] _ t.visits_nodup (mem_visits.mpr hv) (fun r hne => ?_) ?_
    · refine leafAt_congr ?_
      rw [update_of_ne hne, update_of_ne hne]
    · rw [hat, hat, isPresent_empty, if_neg Bool.false_ne_true, append_nil, nil_append]
  unfold leaves opt
  rw [leafPtes_eq, leafPtes_eq, visits_update e hs, visits_update _ hs]
  refine (Multiset.coe_eq_coe.mpr hperm).trans ?_
  split <;> rfl

theorem leaves_update_present (he : e.isPresent = true) :
    leaves (update t s e) = e ::ₘ leaves (update t s .empty) := by
  rw [leaves_update hs hv e, opt, if_pos he, Multiset.singleton_add]

theorem leaves_update_absent (he : e.isPresent = false) :
    leaves (update t s e) = leaves (update t s .empty) := by
  rw [leaves_update hs hv e, opt, he, if_neg Bool.false_ne_true, zero_add]

/-- A present entry, set apart from the others. -/
theorem leaves_present (he : (t s).isPresent = true) : t.leaves = t s ::ₘ leaves (update t s .empty) := by
  rw [← leaves_update_present hs hv he, update_eq_self]

theorem leaves_absent (he : (t s).isPresent = false) : t.leaves = leaves (update t s .empty) := by
  rw [← leaves_update_absent hs hv he, update_eq_self]

end

end

/-- Only the entries above the page tables decide what tables there are. -/
theorem tableFrames_congr (h : ∀ s, s.isPt = false → t' s = t s) : t'.tableFrames = t.tableFrames := by
  rw [tableFrames_eq, tableFrames_eq, visits_congr h]
  refine flatMap_congr (fun r _ => ?_)
  cases hr : r.isPt with
  | false => exact tableAt_congr (h r hr)
  | true =>
    cases r with
    | pt i j k l => rfl
    | _ => cases hr

theorem tableFrames_update (hs : s.isPt = true) (e : PageTableEntry) :
    tableFrames (update t s e) = t.tableFrames := tableFrames_congr (fun _ h => update_of_not_pt hs h)

/-! ## Linking in a table -/

/-- Whether a slot is visited, from its table. The walk does not test PML4 entries for huge pages. -/
theorem visited_iff (hp : s.parent = some p) :
    t.Visited s ↔
      t.Visited p ∧ (p.parent = none ∨ (t p).isHuge = false) ∧ (s.isPt = true ∨ (t s).isPresent = true) := by
  cases s with
  | pml4 i => cases hp
  | pdpt i j =>
    cases hp
    simp [Visited, parent, isPt]
  | pd i j k | pt i j k l =>
    cases hp
    simp [Visited, parent, isPt, leads_iff, and_assoc]

theorem parent_not_pt (hp : s.parent = some p) : p.isPt = false := by
  cases s with
  | pml4 i => cases hp
  | pdpt i j | pd i j k | pt i j k l => obtain rfl := some.inj hp; rfl

/-- A slot where a table can be linked in: nothing is there, and the walk comes to the table the slot is in. -/
structure Vacant (t : Tables) (s : Slot) : Prop where
  upper : s.isPt = false
  absent : (t s).isPresent = false
  user : s.first.val < 256
  reached : ∀ p, s.parent = some p → t.Visited p ∧ (t p).isHuge = false

variable {f : Frame} {fl : PageTableFlags}

theorem Vacant.not_visited (h : t.Vacant s) : ¬ t.Visited s := by
  intro hv
  have := hv.present h.upper
  rw [h.absent] at this
  cases this

/-- Nothing below a vacant slot is visited. -/
theorem Vacant.not_below (h : t.Vacant s) (hv : t.Visited r) : r.parent ≠ some s := fun hp =>
  h.not_visited (hv.parent hp)

theorem link_self : t.link s f fl s = .set f.addr fl := if_pos rfl

theorem link_below (hp : r.parent = some s) : t.link s f fl r = .empty := by
  have hne : r ≠ s := by
    rintro rfl
    cases r <;> cases hp
  rw [link, if_neg hne, if_pos hp]

theorem link_other (hne : r ≠ s) (hp : r.parent ≠ some s) : t.link s f fl r = t r := by
  rw [link, if_neg hne, if_neg hp]

/-- Every visited slot keeps its entry when a table is linked in. -/
theorem Vacant.link_visited (h : t.Vacant s) (hv : t.Visited r) : t.link s f fl r = t r := by
  refine link_other ?_ (h.not_below hv)
  rintro rfl
  exact h.not_visited hv

section Link

variable (h : t.Vacant s) (hpres : (PageTableEntry.set f.addr fl).isPresent = true)
  (hhuge : (PageTableEntry.set f.addr fl).isHuge = false)

include h hpres hhuge

/-- One level of `visited_link`. -/
theorem visited_link_step {p : Slot} (hp : r.parent = some p) (ih : (t.link s f fl).Visited p ↔ t.Visited p ∨ p = s) :
    (t.link s f fl).Visited r ↔ t.Visited r ∨ r = s ∨ r.isPt = true ∧ r.parent = some s := by
  by_cases hps : p = s
  · -- below the new table there are only empty entries
    subst hps
    have hself : r ≠ p := by
      rintro rfl
      cases r <;> cases hp
    rw [visited_iff hp, ih, link_self, link_below hp]
    constructor
    · rintro ⟨-, -, hpt | hpt⟩
      · exact .inr (.inr ⟨hpt, hp⟩)
      · cases hpt
    rintro (hv | rfl | ⟨hpt, -⟩)
    · exact absurd hp (h.not_below hv)
    · exact absurd rfl hself
    · exact ⟨.inr rfl, .inr hhuge, .inl hpt⟩
  have hps' : r.parent ≠ some s := by
    rw [hp]
    exact fun he => hps (some.inj he)
  have ihp : (t.link s f fl).Visited p ↔ t.Visited p := ih.trans (or_iff_left hps)
  rw [visited_iff hp, ihp]
  by_cases hs : r = s
  · subst hs
    obtain ⟨hv, hh⟩ := h.reached p hp
    rw [h.link_visited hv, link_self]
    exact iff_of_true ⟨hv, .inr hh, .inr hpres⟩ (.inr (.inl rfl))
  rw [link_other hs hps', visited_iff hp]
  constructor
  · rintro ⟨hv, hh, hin⟩
    rw [h.link_visited hv] at hh
    exact .inl ⟨hv, hh, hin⟩
  rintro (⟨hv, hh, hin⟩ | rfl | ⟨-, hpt⟩)
  · refine ⟨hv, ?_, hin⟩
    rwa [h.link_visited hv]
  · exact absurd rfl hs
  · exact absurd hpt hps'

/-- **A new table is visited, and so are its entries if they map pages.** -/
theorem visited_link : (t.link s f fl).Visited r ↔ t.Visited r ∨ r = s ∨ r.isPt = true ∧ r.parent = some s := by
  have hup : ∀ p : Slot, p.isPt = false → ((t.link s f fl).Visited p ↔
      t.Visited p ∨ p = s ∨ p.isPt = true ∧ p.parent = some s) →
      ((t.link s f fl).Visited p ↔ t.Visited p ∨ p = s) := by
    intro p hpt hiff
    rw [hiff, hpt]
    simp
  have h4 : ∀ i, (t.link s f fl).Visited (.pml4 i) ↔ t.Visited (.pml4 i) ∨ .pml4 i = s ∨
      (pml4 i).isPt = true ∧ (pml4 i).parent = some s := by
    intro i
    by_cases hs : .pml4 i = s
    · subst hs
      refine iff_of_true ⟨h.user, ?_⟩ (.inr (.inl rfl))
      rw [link_self]
      exact hpres
    · simp [Visited, link_other hs (by simp [parent]), hs, isPt]
  have h3 := fun i j => visited_link_step h hpres hhuge (r := .pdpt i j) rfl (hup _ rfl (h4 i))
  have h2 := fun i j k => visited_link_step h hpres hhuge (r := .pd i j k) rfl (hup _ rfl (h3 i j))
  cases r with
  | pml4 i => exact h4 i
  | pdpt i j => exact h3 i j
  | pd i j k => exact h2 i j k
  | pt i j k l => exact visited_link_step h hpres hhuge rfl (hup _ rfl (h2 i j k))

omit h hpres hhuge in
/-- The entries of a page table. -/
theorem exists_below (s : Slot) (hs : s.isPt = false) :
    ∃ below : List Slot, (s :: below).Nodup ∧ ∀ r, r ∈ below ↔ r.isPt = true ∧ r.parent = some s := by
  cases s with
  | pd i j k =>
    refine ⟨indices.map (.pt i j k), ?_, ?_⟩
    · refine nodup_cons.mpr ⟨by simp, indices_nodup.map (fun a b hab => by injection hab)⟩
    · intro r
      cases r <;> simp [isPt, parent, mem_indices, eq_comm]
  | pml4 i | pdpt i j =>
    refine ⟨[], nodup_singleton _, fun r => ?_⟩
    cases r <;> simp [isPt, parent]
  | pt i j k l => cases hs

/-- What the walk contributes after a table is linked in. -/
theorem flatMap_link {β : Type} (F : Tables → Slot → List β) (hF : ∀ t t' : Tables, ∀ r, t' r = t r → F t' r = F t r)
    (hbelow : ∀ r, r.isPt = true → r.parent = some s → F (t.link s f fl) r = []) :
    ((t.link s f fl).visits.flatMap (F (t.link s f fl))).Perm (F (t.link s f fl) s ++ t.visits.flatMap (F t)) := by
  obtain ⟨below, hnd, hmem⟩ := exists_below s h.upper
  have hperm : (t.link s f fl).visits.Perm (s :: below ++ t.visits) := by
    refine (perm_ext_iff_of_nodup (visits_nodup _) ?_).mpr (fun r => ?_)
    · refine hnd.append t.visits_nodup ?_
      intro r hr hv
      rcases mem_cons.mp hr with rfl | hr
      · exact h.not_visited (mem_visits.mp hv)
      · exact h.not_below (mem_visits.mp hv) ((hmem r).mp hr).2
    · rw [mem_visits, visited_link h hpres hhuge, mem_append, mem_cons, hmem, mem_visits]
      tauto
  refine (hperm.flatMap_right _).trans ?_
  rw [flatMap_append, flatMap_cons]
  have hnil : below.flatMap (F (t.link s f fl)) = [] := by
    refine flatMap_eq_nil_iff.mpr (fun r hr => ?_)
    obtain ⟨hpt, hp⟩ := (hmem r).mp hr
    exact hbelow r hpt hp
  have hold : t.visits.flatMap (F (t.link s f fl)) = t.visits.flatMap (F t) :=
    flatMap_congr (fun r hr => hF _ _ r (h.link_visited (mem_visits.mp hr)))
  rw [hnil, hold, append_nil]

omit hpres in
theorem isLeaf_link : (t.link s f fl).isLeaf s = false := by
  cases s with
  | pml4 i => rfl
  | pdpt i j | pd i j k => exact (congrArg isHuge link_self).trans hhuge
  | pt i j k l => cases h.upper

/-- **A new table maps nothing.** -/
theorem leaves_link : (t.link s f fl).leaves = t.leaves := by
  have hperm := flatMap_link h hpres hhuge leafAt (fun _ _ _ => leafAt_congr) ?_
  · unfold leaves
    rw [leafPtes_eq, leafPtes_eq]
    refine Multiset.coe_eq_coe.mpr (hperm.trans ?_)
    rw [leafAt, isLeaf_link h hhuge]
    rfl
  · intro r _ hp
    rw [leafAt, link_below hp, isPresent_empty, Bool.and_false]
    rfl

/-- **A new table is one more table.** -/
theorem tableFrames_link : ((t.link s f fl).tableFrames : Multiset Frame) = f ::ₘ ↑t.tableFrames := by
  have hperm := flatMap_link h hpres hhuge tableAt (fun _ _ _ => tableAt_congr) ?_
  · rw [tableFrames_eq, tableFrames_eq]
    refine Multiset.coe_eq_coe.mpr (hperm.trans ?_)
    rw [tableAt, isLeaf_link h hhuge, link_self, frameOf_set]
    rfl
  intro r hpt _
  cases r with
  | pt i j k l => rfl
  | _ => cases hpt

end Link

end Tables
end OxideOs.Vm

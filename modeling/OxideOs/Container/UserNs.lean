import OxideOs.Lib.Bytes

/-!
# `Container.UserNs` — the id maps of a user namespace

A user namespace (`container/namespace`) has a list of ranges for its user ids and one for its group ids; each range
says which ids of the parent the ids inside stand for. A list is set once. Then only the inner sides of its ranges are
compared with each other, with saturating sums, whereas a lookup takes the first range that fits and adds for real.
So the outer sides may overlap, and the end of a range may not fit into an id.
-/

namespace OxideOs.UserNs

open List Checked

structure IdMapping where
  innerStart : Nat
  outerStart : Nat
  count : Nat
  deriving DecidableEq

inductive NsError where
  | invalidOperation
  deriving DecidableEq

/-- `saturating_add` of two `u32` -/
def saturatingAdd (a b : Nat) : Nat := min (a + b) (2 ^ 32 - 1)

def rangesOverlap (start1 count1 start2 count2 : Nat) : Bool :=
  let end1 := saturatingAdd start1 count1
  let end2 := saturatingAdd start2 count2
  start1 < end2 && start2 < end1

/-- The two loops over the pairs of a list. -/
def anyOverlap : List IdMapping → Bool
  | [] => false
  | m1 :: rest => rest.any (fun m2 => rangesOverlap m1.innerStart m1.count m2.innerStart m2.count) || anyOverlap rest

/-- The common part of `set_uid_map` and `set_gid_map`: the new map. -/
def setMap (map mappings : List IdMapping) : Except NsError (List IdMapping) :=
  if map ≠ [] then .error .invalidOperation
  else if anyOverlap mappings then .error .invalidOperation
  else .ok mappings

/-- The loop of the four lookups, from the ids that begin at `src` to those that begin at `dst`. -/
def lookup (src dst : IdMapping → Nat) (id : Nat) : List IdMapping → Checked (Option Nat)
  | [] => .ok none
  | mapping :: rest =>
    if src mapping ≤ id then do
      let stop ← add32 (src mapping) mapping.count
      if id < stop then do
        let mapped ← add32 (dst mapping) (id - src mapping)
        .ok (some mapped)
      else lookup src dst id rest
    else lookup src dst id rest

structure UserNamespace where
  uidMap : List IdMapping
  gidMap : List IdMapping

namespace UserNamespace

def setUidMap (ns : UserNamespace) (mappings : List IdMapping) : Except NsError UserNamespace :=
  (setMap ns.uidMap mappings).map (fun uidMap => { ns with uidMap })

def setGidMap (ns : UserNamespace) (mappings : List IdMapping) : Except NsError UserNamespace :=
  (setMap ns.gidMap mappings).map (fun gidMap => { ns with gidMap })

def mapUidToParent (ns : UserNamespace) (uid : Nat) : Checked (Option Nat) :=
  lookup IdMapping.innerStart IdMapping.outerStart uid ns.uidMap

def mapUidFromParent (ns : UserNamespace) (uid : Nat) : Checked (Option Nat) :=
  lookup IdMapping.outerStart IdMapping.innerStart uid ns.uidMap

def mapGidToParent (ns : UserNamespace) (gid : Nat) : Checked (Option Nat) :=
  lookup IdMapping.innerStart IdMapping.outerStart gid ns.gidMap

def mapGidFromParent (ns : UserNamespace) (gid : Nat) : Checked (Option Nat) :=
  lookup IdMapping.outerStart IdMapping.innerStart gid ns.gidMap

end UserNamespace

/-! ## Lookups -/

/-- The id lies in the range that begins at `side`. -/
def IdMapping.Holds (side : IdMapping → Nat) (m : IdMapping) (id : Nat) : Prop := side m ≤ id ∧ id < side m + m.count

/-- One side of a list of ranges: the ends fit into an id, and no id lies in two ranges. -/
structure Separate (side : IdMapping → Nat) (mappings : List IdMapping) : Prop where
  fits : ∀ m ∈ mappings, side m + m.count < 2 ^ 32
  apart : mappings.Pairwise (fun m m' => ∀ id, m.Holds side id → ¬m'.Holds side id)

variable {src dst : IdMapping → Nat} {mappings : List IdMapping}

section

variable (hsrc : Separate src mappings) (hdst : ∀ m ∈ mappings, dst m + m.count < 2 ^ 32)
include hsrc hdst

/-- **A lookup** does not fail, and finds what the range of the id says. -/
theorem lookup_spec (id : Nat) : (lookup src dst id mappings).Sat (fun r =>
      ∀ v, r = some v ↔ ∃ m ∈ mappings, m.Holds src id ∧ v = dst m + (id - src m)) := by
  obtain ⟨hfits, hapart⟩ := hsrc
  induction mappings with
  | nil => exact .ok (by simp)
  | cons m rest ih =>
    obtain ⟨hm, hfits⟩ := forall_mem_cons.mp hfits
    obtain ⟨_, hdst⟩ := forall_mem_cons.mp hdst
    obtain ⟨hfirst, hapart⟩ := pairwise_cons.mp hapart
    -- where the id is not in the first range the rest decides
    have hrest : ¬m.Holds src id → (lookup src dst id rest).Sat (fun r =>
        ∀ v, r = some v ↔ ∃ m' ∈ m :: rest, m'.Holds src id ∧ v = dst m' + (id - src m')) := by
      intro hout
      refine (ih hdst hfits hapart).mono fun r hr v => (hr v).trans ?_
      simp [hout]
    -- the two comparisons of the code, each with a sum that fits into an id
    refine .ite (fun hlow => ?_) (fun hlow => hrest fun h => hlow h.1)
    rw [bind_of_ok (add32_of_lt hm)]
    refine .ite (fun hhigh => ?_) (fun hhigh => hrest fun h => hhigh h.2)
    rw [bind_of_ok (add32_of_lt (by omega))]
    refine .ok fun v => ⟨fun h => ⟨m, mem_cons_self, ⟨hlow, hhigh⟩, (Option.some.inj h).symm⟩, ?_⟩
    rintro ⟨m', hm', hin, rfl⟩
    rcases mem_cons.mp hm' with rfl | hm'
    · rfl
    · exact absurd hin (hfirst m' hm' id ⟨hlow, hhigh⟩)

theorem lookup_eq_some {id v : Nat} :
    lookup src dst id mappings = .ok (some v) ↔ ∃ m ∈ mappings, m.Holds src id ∧ v = dst m + (id - src m) := by
  obtain ⟨r, hr, hiff⟩ := lookup_spec hsrc hdst id
  rw [hr, Except.ok.injEq]
  exact hiff v

end

/-- From the last id on, no range but one that ends beyond the ids can hold the id: the lookup comes to such a range,
    and overflows. -/
theorem lookup_overflow {id : Nat} {m : IdMapping} (hid : 2 ^ 32 - 1 ≤ id) (hm : m ∈ mappings) (hlow : src m ≤ id)
    (hend : 2 ^ 32 ≤ src m + m.count) : ¬(lookup src dst id mappings).Safe := by
  rintro ⟨r, hr, -⟩
  induction mappings with
  | nil => cases hm
  | cons first rest ih =>
    unfold lookup at hr
    rcases mem_cons.mp hm with rfl | hm
    · rw [if_pos hlow] at hr
      obtain ⟨stop, hstop, -⟩ := bind_eq_ok hr
      exact absurd (add32_eq_ok hstop).1 (by omega)
    split at hr
    · obtain ⟨stop, hstop, hr⟩ := bind_eq_ok hr
      obtain ⟨hfit, rfl⟩ := add32_eq_ok hstop
      rw [if_neg (by omega)] at hr
      exact ih hm hr
    · exact ih hm hr

theorem fits_of_safe (hsafe : ∀ id, (lookup src dst id mappings).Safe) : ∀ m ∈ mappings, src m + m.count < 2 ^ 32 := by
  intro m hm
  by_contra hend
  have hid : 2 ^ 32 - 1 ≤ max (2 ^ 32 - 1) (src m) := le_max_left _ _
  exact lookup_overflow hid hm (le_max_right _ _) (not_lt.mp hend) (hsafe _)

/-- Ranges that pass the test are separate, if their ends fit into an id. -/
theorem separate_of_anyOverlap (hfits : ∀ m ∈ mappings, m.innerStart + m.count < 2 ^ 32)
    (h : anyOverlap mappings = false) : Separate IdMapping.innerStart mappings := by
  refine ⟨hfits, ?_⟩
  induction mappings with
  | nil => exact .nil
  | cons m rest ih =>
    obtain ⟨_, hfits⟩ := forall_mem_cons.mp hfits
    obtain ⟨hfirst, hrest⟩ := Bool.or_eq_false_iff.mp h
    refine pairwise_cons.mpr ⟨fun m' hm' id hin hin' => ?_, ih hfits hrest⟩
    -- the ends fit, so the saturating sums of the test are the sums
    have hover := any_eq_false.mp hfirst m' hm'
    simp [rangesOverlap, saturatingAdd] at hover
    unfold IdMapping.Holds at hin hin'
    omega

/-- **What a map is for**: the two directions are inverse, exactly the ids inside the declared ranges are mapped, each
    into the outer range that belongs to its own, no two to one id; and no lookup overflows. -/
structure Confined (mappings : List IdMapping) (toParent fromParent : Nat → Checked (Option Nat)) : Prop where
  inverse : ∀ u v, toParent u = .ok (some v) ↔ fromParent v = .ok (some u)
  mapped : ∀ u, (∃ v, toParent u = .ok (some v)) ↔ ∃ m ∈ mappings, m.Holds IdMapping.innerStart u
  injective : ∀ u u' v, toParent u = .ok (some v) → toParent u' = .ok (some v) → u = u'
  outer : ∀ u v, toParent u = .ok (some v) →
    ∃ m ∈ mappings, m.Holds IdMapping.innerStart u ∧ m.Holds IdMapping.outerStart v
  safe : ∀ u, (toParent u).Safe ∧ (fromParent u).Safe

theorem confined_lookup (hin : Separate IdMapping.innerStart mappings) (hout : Separate IdMapping.outerStart mappings) :
    Confined mappings (fun u => lookup IdMapping.innerStart IdMapping.outerStart u mappings)
      (fun v => lookup IdMapping.outerStart IdMapping.innerStart v mappings) := by
  have hinverse : ∀ u v, lookup IdMapping.innerStart IdMapping.outerStart u mappings = .ok (some v) ↔
      lookup IdMapping.outerStart IdMapping.innerStart v mappings = .ok (some u) := by
    intro u v
    rw [lookup_eq_some hin hout.fits, lookup_eq_some hout hin.fits]
    refine exists_congr fun m => and_congr_right fun _ => ?_
    unfold IdMapping.Holds
    omega
  -- two ids with one image are both what the other direction gives back
  refine ⟨hinverse, fun u => ⟨?_, ?_⟩, fun u u' v h h' => ?_, fun u v h => ?_, fun u => ⟨?_, ?_⟩⟩
  · rintro ⟨v, hv⟩
    obtain ⟨m, hm, hu, -⟩ := (lookup_eq_some hin hout.fits).mp hv
    exact ⟨m, hm, hu⟩
  · rintro ⟨m, hm, hu⟩
    exact ⟨_, (lookup_eq_some hin hout.fits).mpr ⟨m, hm, hu, rfl⟩⟩
  · have heq := ((hinverse u v).mp h).symm.trans ((hinverse u' v).mp h')
    exact Option.some.inj (Except.ok.inj heq)
  · obtain ⟨m, hm, hu, rfl⟩ := (lookup_eq_some hin hout.fits).mp h
    refine ⟨m, hm, hu, ?_⟩
    unfold IdMapping.Holds at hu ⊢
    omega
  · exact (lookup_spec hin hout.fits u).safe
  · exact (lookup_spec hout hin.fits u).safe

/-- A confined map of ranges that pass the test: the ends fit, and the outer ranges are separate as well. -/
theorem separate_of_confined (hno : anyOverlap mappings = false)
    (h : Confined mappings (fun u => lookup IdMapping.innerStart IdMapping.outerStart u mappings)
      (fun v => lookup IdMapping.outerStart IdMapping.innerStart v mappings)) :
    (∀ m ∈ mappings, m.innerStart + m.count < 2 ^ 32) ∧ Separate IdMapping.outerStart mappings := by
  have hinner := fits_of_safe fun id => (h.safe id).1
  have houter := fits_of_safe fun id => (h.safe id).2
  have hin := separate_of_anyOverlap hinner hno
  refine ⟨hinner, houter, hin.apart.imp_of_mem fun {m m'} hm hm' hapart v hv hv' => ?_⟩
  -- the ids of the two ranges that become `v` would be one id, in two inner ranges
  have hto : ∀ m ∈ mappings, m.Holds IdMapping.outerStart v →
      m.Holds IdMapping.innerStart (m.innerStart + (v - m.outerStart)) ∧
        lookup IdMapping.innerStart IdMapping.outerStart (m.innerStart + (v - m.outerStart))
          mappings = .ok (some v) := by
    intro m hm hv
    have hu : m.Holds IdMapping.innerStart (m.innerStart + (v - m.outerStart)) := by
      unfold IdMapping.Holds at hv ⊢
      omega
    refine ⟨hu, (lookup_eq_some hin houter).mpr ⟨m, hm, hu, ?_⟩⟩
    have hlow := hv.1
    omega
  obtain ⟨hu, hmap⟩ := hto m hm hv
  obtain ⟨hu', hmap'⟩ := hto m' hm' hv'
  rw [← h.injective _ _ v hmap hmap'] at hu'
  exact hapart _ hu hu'

/-- A map that was set is the one given, and passed the test. -/
theorem setMap_ok {map : List IdMapping} {f : List IdMapping → UserNamespace} {ns : UserNamespace}
    (h : (setMap map mappings).map f = .ok ns) : ns = f mappings ∧ anyOverlap mappings = false := by
  unfold setMap at h
  split at h
  · cases h
  split at h
  · cases h
  rename_i hno
  cases h
  exact ⟨rfl, (Bool.not_eq_true _).mp hno⟩

/-- **The maps of a namespace are confined** if and only if the ends of all ranges fit into an id and no two outer
    ranges meet. -/
theorem id_maps_confined (ns ns' : UserNamespace) :
    (ns.setUidMap mappings = .ok ns' → (Confined mappings ns'.mapUidToParent ns'.mapUidFromParent ↔
      (∀ m ∈ mappings, m.innerStart + m.count < 2 ^ 32) ∧ Separate IdMapping.outerStart mappings)) ∧
    (ns.setGidMap mappings = .ok ns' → (Confined mappings ns'.mapGidToParent ns'.mapGidFromParent ↔
      (∀ m ∈ mappings, m.innerStart + m.count < 2 ^ 32) ∧ Separate IdMapping.outerStart mappings)) := by
  refine ⟨fun h => ?_, fun h => ?_⟩
  all_goals
    obtain ⟨rfl, hno⟩ := setMap_ok h
    refine ⟨separate_of_confined hno, ?_⟩
    rintro ⟨hinner, houter⟩
    exact confined_lookup (separate_of_anyOverlap hinner hno) houter

/-- Two ranges, one behind the other. -/
theorem id_maps_confined_two : Confined [⟨0, 1000, 1⟩, ⟨1, 2000, 9⟩]
    (UserNamespace.mapUidToParent ⟨[⟨0, 1000, 1⟩, ⟨1, 2000, 9⟩], []⟩)
    (UserNamespace.mapUidFromParent ⟨[⟨0, 1000, 1⟩, ⟨1, 2000, 9⟩], []⟩) := by
  have houter : Separate IdMapping.outerStart [⟨0, 1000, 1⟩, ⟨1, 2000, 9⟩] := by
    refine ⟨by decide, ?_⟩
    simp [IdMapping.Holds]
    omega
  exact ((id_maps_confined ⟨[], []⟩ ⟨[⟨0, 1000, 1⟩, ⟨1, 2000, 9⟩], []⟩).1 rfl).mpr ⟨by decide, houter⟩

/-- **Two users become one**: the outer ranges are not compared. And a range that ends beyond the last id is accepted,
    but a lookup in it overflows, on either side. -/
theorem two_ids_become_root : (∃ ns, UserNamespace.setUidMap ⟨[], []⟩ [⟨0, 0, 1⟩, ⟨1000, 0, 1⟩] = .ok ns ∧
      ns.mapUidToParent 0 = .ok (some 0) ∧ ns.mapUidToParent 1000 = .ok (some 0) ∧
      ns.mapUidFromParent 0 = .ok (some 0)) ∧
    (∃ ns, UserNamespace.setUidMap ⟨[], []⟩ [⟨4294967295, 5, 2⟩] = .ok ns ∧
      ns.mapUidToParent 4294967295 = .error .overflow) ∧
    ∃ ns, UserNamespace.setUidMap ⟨[], []⟩ [⟨5, 4294967295, 2⟩] = .ok ns ∧
      ns.mapUidToParent 6 = .error .overflow :=
  ⟨⟨_, rfl, rfl, rfl, rfl⟩, ⟨_, rfl, rfl⟩, ⟨_, rfl, rfl⟩⟩

end OxideOs.UserNs

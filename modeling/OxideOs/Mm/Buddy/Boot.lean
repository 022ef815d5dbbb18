import OxideOs.Mm.Buddy.Ops

/-!
# `Mm.Buddy.Boot` — `init` puts every frame of the memory map on a list

`init` cuts the usable regions at the zone borders and into aligned blocks, from the largest order that fits.
Whatever the memory holds before, the invariant holds afterwards, and exactly the managed frames are linked:
the whole frames of the usable regions, frame 0 apart.
-/

namespace OxideOs.Buddy

open Function List Block ZoneType

variable {s : State} {L : Slot → List Nat} {z : ZoneType}

/-- The number of pages on the free lists `L`. -/
def freePages (L : Slot → List Nat) : Nat := ((freeBlocks L).map (fun b => 2 ^ b.order)).sum

theorem freePages_cons {i : Slot} (hi : i ∈ slots) {f : Nat} :
    freePages (update L i (f :: L i)) = 2 ^ i.2 + freePages L := by
  unfold freePages
  rw [((freeBlocks_cons hi (Perm.refl _)).map _).sum_eq, map_cons, sum_cons]

/-- Free memory fits the 64-bit byte counter. -/
theorem Inv.freePages_lt {held : List Block} (h : Inv s L held) : freePages L < 2 ^ 52 := by
  have hle : freePages L ≤ 2 ^ 52 - 1 := by
    refine sum_sizes_le (pairwise_append.mp h.apart).1 (fun b hb => ?_)
    obtain ⟨z, ho, hm⟩ := mem_freeBlocks.mp hb
    have h1 := (h.placed _ (mem_slots.mpr ho) _ hm).upper
    have h2 := (h.zone z).upper
    have h3 := zone_stop_lt z
    simp only at h1
    omega
  omega

/-! ## Blocks of one region -/

/-- The order chosen for the next block fits the alignment of the frame and what is left. -/
theorem fitOrder_spec (frame : Nat) {r : Nat} (hr : r ≠ 0) (m : Nat) :
    fitOrder frame (4096 * r) m ≤ m ∧ 2 ^ fitOrder frame (4096 * r) m ≤ r ∧
      2 ^ fitOrder frame (4096 * r) m ∣ frame := by
  induction m with
  | zero => exact ⟨le_refl _, by simp only [fitOrder]; omega, one_dvd _⟩
  | succ m ih =>
    unfold fitOrder
    split
    next hc =>
      obtain ⟨_, h2⟩ := hc
      rw [Nat.and_two_pow_sub_one_eq_mod] at h2
      exact ⟨le_refl _, by omega, Nat.dvd_of_mod_eq_zero h2⟩
    · exact ⟨Nat.le_succ_of_le ih.1, ih.2⟩

/-- A block apart from all others may be taken in hand. -/
theorem Inv.hold {held : List Block} {b : Block} (h : Inv s L held) (hb : Placed s z b)
    (hdis : ∀ x ∈ b, ∀ c ∈ total L held, x ∉ c) : Inv s L (b :: held) := by
  refine { h with heldPlaced := ?_, apart := ?_ }
  · exact forall_mem_cons.mpr ⟨⟨z, hb⟩, h.heldPlaced⟩
  · refine (perm_middle.pairwise_iff (fun hab => hab.symm)).mpr (pairwise_cons.mpr ⟨?_, h.apart⟩)
    exact fun c hc => apart_iff.mpr fun x hx => hdis x hx c hc

theorem Inv.unlinked_of_uncovered {held : List Block} (x : Nat) (hx : ∀ c ∈ total L held, x ∉ c) : Unlinked L x := by
  intro i hi hm
  exact hx _ (mem_append_left _ (mem_free hi hm)) base_mem

/-- A stage of `init`: the frames linked so far are those of `M`, and the byte counter counts them. -/
structure Booted (s : State) (L : Slot → List Nat) (M : Nat → Prop) : Prop where
  inv : Inv s L []
  freeBytes : s.stats.freeBytes = 4096 * freePages L
  cells : ∀ x, (∃ c ∈ total L [], x ∈ c) ↔ M x

section Booted

variable {M P Q R : Nat → Prop}

theorem Booted.congr (h : Booted s L M) (hM : ∀ x, M x ↔ P x) : Booted s L P :=
  ⟨h.inv, h.freeBytes, fun x => (h.cells x).trans (hM x)⟩

theorem Booted.or_false (h : Booted s L M) (hQ : ∀ x, ¬ Q x) : Booted s L (fun x => M x ∨ Q x) :=
  h.congr fun x => (or_iff_left (hQ x)).symm

theorem Booted.or_congr (h : Booted s L (fun x => M x ∨ Q x)) (hQ : ∀ x, Q x ↔ R x) : Booted s L (fun x => M x ∨ R x) :=
  h.congr fun x => or_congr_right (hQ x)

theorem Booted.or_or (h : Booted s L (fun x => (M x ∨ P x) ∨ Q x)) (hR : ∀ x, R x ↔ P x ∨ Q x) :
    Booted s L (fun x => M x ∨ R x) :=
  h.congr fun x => by rw [hR x, or_assoc]

end Booted

/-- What `init` does not touch. -/
structure SameDb (s s' : State) : Prop where
  pagedb : s'.pagedb = s.pagedb
  watchedFrame : s'.watchedFrame = s.watchedFrame

variable {s' : State} {a r c e : Nat}

theorem SameDb.refl (s : State) : SameDb s s := ⟨rfl, rfl⟩

theorem SameDb.trans {s s'' : State} (h : SameDb s s') (h' : SameDb s' s'') : SameDb s s'' :=
  ⟨h'.pagedb.trans h.pagedb, h'.watchedFrame.trans h.watchedFrame⟩

theorem SameRest.sameDb {s : State} (h : SameRest s s') : SameDb s s' := ⟨h.pagedb, h.watchedFrame⟩

/-- One block of the loop: scrub its header, add it, count it. -/
theorem Booted.addBlock {M : Nat → Prop} {o : Nat} (h : Booted s L M) (hb : Placed s z ⟨a, o⟩)
    (hM : ∀ x ∈ (⟨a, o⟩ : Block), ¬ M x) :
    ∃ s', addFreeBlock (s.setHeader (4096 * a) { magic := 0, next := 0, prev := 0, order := 0 }) z o
        (4096 * a) = some (true, s') ∧ SameRange s s' ∧ SameDb s s' ∧
      Booted (s'.recordAdded o) (update L (z, o) (a :: L (z, o)))
        (fun x => M x ∨ x ∈ (⟨a, o⟩ : Block)) := by
  have hfresh : ∀ x ∈ (⟨a, o⟩ : Block), ∀ c ∈ total L [], x ∉ c := fun x hx c hc hxc =>
    hM x hx ((h.cells x).mp ⟨c, hc, hxc⟩)
  have hu : Unlinked L a := Inv.unlinked_of_uncovered a (hfresh a base_mem)
  generalize hs1 : s.setHeader (4096 * a) { magic := 0, next := 0, prev := 0, order := 0 } = s1
  have hrest1 : SameRest s s1 := hs1 ▸ SameRest.setHeader ..
  have hmem1 : ∀ x, s1.mem x = if x = a then { magic := 0, next := 0, prev := 0, order := 0 }
      else s.mem x := fun x => by rw [← hs1, setHeader_mem]
  have h1 : Inv s1 L [] := hs1 ▸ h.inv.write hu _
  have hb1 := hrest1.range.placed hb
  rcases addFreeBlock_spec (h1.hold hb1 hfresh) hb1 with ⟨hpr, _⟩ | ⟨_, s', hadd, h', hrest', _⟩
  · rw [hmem1, if_pos rfl] at hpr
    exact Bool.noConfusion hpr
  refine ⟨s', hadd, (hrest1.trans hrest').range, (hrest1.trans hrest').sameDb, h'.of_eq rfl rfl, ?_, ?_⟩
  · have hpages := freePages_cons (L := L) (i := (z, o)) (mem_slots.mpr hb.order) (f := a)
    have hlt := h'.freePages_lt
    have hst : s'.stats.freeBytes = 4096 * freePages L := by
      rw [hrest'.stats, hrest1.stats]; exact h.freeBytes
    simp only [State.recordAdded, MemoryStats.add64]
    simp only at hpages hlt
    omega
  · intro x
    have hp : (total (update L (z, o) (a :: L (z, o))) []).Perm (⟨a, o⟩ :: total L []) :=
      (perm_add L [] z hb.order).trans perm_middle
    rw [← h.cells x]
    simp only [hp.mem_iff, mem_cons, or_and_right, exists_or, exists_eq_left]
    exact or_comm

/-- **The block loop of `add_to_zone`** links every frame of `[a, a + r)`. -/
theorem addBlocks_spec {M : Nat → Prop} (fuel : Nat) (h : Booted s L M) (hfuel : r ≤ fuel)
    (ha : a ≠ 0) (hlo : (s.zones z).base ≤ 4096 * a) (hup : 4096 * (a + r) ≤ (s.zones z).base + (s.zones z).size)
    (hM : ∀ x, a ≤ x → x < a + r → ¬ M x) :
    ∃ s' L', addBlocks z fuel s (4096 * a) (4096 * r) = some s' ∧ SameDb s s' ∧
      Booted s' L' (fun x => M x ∨ (a ≤ x ∧ x < a + r)) := by
  induction fuel generalizing s L M a r with
  | zero => exact ⟨s, L, rfl, SameDb.refl s, h.or_false fun x => by omega⟩
  | succ fuel ih =>
    unfold addBlocks
    by_cases hr : r = 0
    · rw [if_pos (by omega)]
      exact ⟨s, L, rfl, SameDb.refl s, h.or_false fun x => by omega⟩
    rw [if_neg (by omega)]
    simp only [frame_addr]
    obtain ⟨ho, hsize, hal⟩ := fitOrder_spec a hr MAX_ORDER
    generalize fitOrder a (4096 * r) MAX_ORDER = o at ho hsize hal ⊢
    obtain ⟨s1, hadd, hrange, hdb, h1⟩ := h.addBlock ⟨ho, hal, ha, hlo, by simp only; omega⟩ (fun x hx => by
        rw [mem_iff] at hx
        exact hM x hx.1 (by simp only at hx; omega))
    simp only [hadd]
    have hrange' : SameRange s (s1.recordAdded o) := hrange
    obtain ⟨s', L', hs, hdb', h'⟩ := ih (a := a + 2 ^ o) (r := r - 2 ^ o) h1 (by omega) (by omega)
      (by rw [(hrange' z).1]; omega) (by rw [(hrange' z).1, (hrange' z).2]; omega)
      (by
        rintro x _ hx2 (hx | hx)
        · exact hM x (by omega) (by omega) hx
        rw [mem_iff] at hx
        simp only at hx
        omega)
    have hnext : 4096 * a + 4096 * 2 ^ o = 4096 * (a + 2 ^ o) := by omega
    have hleft : 4096 * r - 4096 * 2 ^ o = 4096 * (r - 2 ^ o) := by omega
    refine ⟨s', L', by rw [hnext, hleft]; exact hs, ⟨hdb'.1.trans hdb.1, hdb'.2.trans hdb.2⟩, h'.or_or fun x => ?_⟩
    rw [mem_iff]
    simp only
    omega

/-! ## Zones and regions -/

/-- Widening a zone keeps the invariant. -/
theorem Booted.cover {M : Nat → Prop} (h : Booted s L M) (hlo : z.start ≤ 4096 * a) (hup : 4096 * (a + r) ≤ z.stop) :
    let s' := { s with zones := update s.zones z ((s.zones z).cover (4096 * a) (4096 * r)) }
    Booted s' L M ∧ (s'.zones z).base ≤ 4096 * a ∧
      4096 * (a + r) ≤ (s'.zones z).base + (s'.zones z).size := by
  intro s'
  have hz := h.inv.zone z
  have hself : s'.zones z = (s.zones z).cover (4096 * a) (4096 * r) := update_self ..
  have hother : ∀ z', z' ≠ z → s'.zones z' = s.zones z' := fun z' hne => update_of_ne hne ..
  have hlists : ∀ z' o, s'.list z' o = s.list z' o := by
    intro z' o
    unfold State.list
    by_cases he : z' = z
    · subst he
      rw [hself]
      unfold MemoryZone.cover
      split <;> rfl
    · rw [hother z' he]
  -- the new range of `z` holds the region and, if there was one, the old range
  have hrange : (s'.zones z).base ≤ 4096 * a ∧ 4096 * (a + r) ≤ (s'.zones z).base + (s'.zones z).size ∧
      (s'.zones z).base + (s'.zones z).size ≤ z.stop ∧ z.start ≤ (s'.zones z).base ∧
      ((s.zones z).size ≠ 0 → (s'.zones z).base ≤ (s.zones z).base ∧
        (s.zones z).base + (s.zones z).size ≤ (s'.zones z).base + (s'.zones z).size) := by
    have h1 := hz.upper
    have h2 := hz.lower
    rw [hself]
    unfold MemoryZone.cover MemoryZone.isEmpty
    by_cases he : (s.zones z).size = 0
    · simp only [he, BEq.rfl, ↓reduceIte, MemoryZone.init]
      omega
    simp only [beq_eq_false_iff_ne.mpr he, Bool.false_eq_true, ↓reduceIte]
    omega
  have hplaced : ∀ z' b, Placed s z' b → Placed s' z' b := by
    intro z' b hb
    by_cases he : z' = z
    · subst he
      have hpos := Nat.two_pow_pos b.order
      have h1 := hb.lower
      have h2 := hb.upper
      obtain ⟨h3, h4⟩ := hrange.2.2.2.2 (by omega)
      exact ⟨hb.order, hb.aligned, hb.ne_zero, le_trans h3 h1, le_trans h2 h4⟩
    · exact ⟨hb.order, hb.aligned, hb.ne_zero, by rw [hother z' he]; exact hb.lower,
        by rw [hother z' he]; exact hb.upper⟩
  refine ⟨⟨?_, h.freeBytes, h.cells⟩, hrange.1, hrange.2.1⟩
  constructor
  · intro z'
    by_cases he : z' = z
    · subst he
      exact ⟨hrange.2.2.1, fun _ => hrange.2.2.2.1⟩
    · exact ⟨by rw [hother z' he]; exact (h.inv.zone z').upper, by rw [hother z' he]; exact (h.inv.zone z').lower⟩
  · intro i hi
    rw [hlists]
    exact h.inv.chain i hi
  · intro i hi
    rw [hlists]
    exact h.inv.count i hi
  · exact h.inv.valid
  · exact fun i hi f hf => hplaced _ _ (h.inv.placed i hi f hf)
  · exact fun b hb => (h.inv.heldPlaced b hb).imp fun _ => hplaced _ _
  · exact h.inv.apart

/-- **`add_to_zone`** links the frames of `[a, a + r)`, frame 0 apart. -/
theorem addToZone_spec {M : Nat → Prop} (h : Booted s L M) (hr : r ≠ 0)
    (hlo : z.start ≤ 4096 * a) (hup : 4096 * (a + r) ≤ z.stop) (hM : ∀ x, a ≤ x → x < a + r → ¬ M x) :
    ∃ s' L', addToZone s z (4096 * a) (4096 * r) = some s' ∧ SameDb s s' ∧
      Booted s' L' (fun x => M x ∨ (a ≤ x ∧ x < a + r ∧ x ≠ 0)) := by
  obtain ⟨hc, h1, h2⟩ := h.cover hlo hup
  unfold addToZone
  simp only [frame_addr]
  by_cases ha : a = 0
  · subst ha
    rw [if_pos ⟨rfl, by omega⟩]
    have hrem : 4096 * r - 4096 = 4096 * (r - 1) := by omega
    rw [hrem]
    obtain ⟨s', L', hs, hdb, hb⟩ := addBlocks_spec r (a := 1) (r := r - 1) hc (by omega)
      (by omega) (le_trans h1 (by omega)) (le_trans (by omega) h2)
      (fun x _ _ => hM x (Nat.zero_le _) (by omega))
    exact ⟨s', L', hs, ⟨hdb.1, hdb.2⟩, hb.or_congr fun x => by omega⟩
  · rw [if_neg (by omega)]
    obtain ⟨s', L', hs, hdb, hb⟩ := addBlocks_spec r hc (le_refl _) ha h1 h2 hM
    exact ⟨s', L', hs, ⟨hdb.1, hdb.2⟩, hb.or_congr fun x => by omega⟩

/-- Rounds of `add_region` still to come: one for each zone from the current address on. -/
def roundsLeft (addr : Nat) : Nat :=
  match forAddress addr with
  | .dma => 3
  | .normal => 2
  | .high => 1

/-- A round of `add_region` reaches the end of the region or the start of a later zone. -/
theorem round_spec (he : e < 2 ^ 52) (hce : c < e) :
    ∃ d, min (forAddress (4096 * c)).stop (4096 * e) = 4096 * d ∧ c < d ∧ d ≤ e ∧
      (forAddress (4096 * c)).start ≤ 4096 * c ∧
      4096 * d ≤ (forAddress (4096 * c)).stop ∧
      (d = e ∨ roundsLeft (4096 * d) < roundsLeft (4096 * c)) := by
  have hd : DMA_ZONE_END = 4096 * 4096 := rfl
  have hn : NORMAL_ZONE_END = 4096 * 1048576 := rfl
  unfold roundsLeft
  rcases lt_or_ge c 4096 with h1 | h1
  · have hz : forAddress (4096 * c) = .dma := if_pos (by omega)
    rw [hz]
    simp only [start, stop]
    rcases lt_or_ge 4096 e with h2 | h2
    · refine ⟨4096, by omega, by omega, by omega, by omega, by omega, .inr ?_⟩
      decide
    · exact ⟨e, by omega, by omega, by omega, by omega, by omega, .inl rfl⟩
  have hge : ¬ 4096 * c < DMA_ZONE_END := by omega
  rcases lt_or_ge c 1048576 with h3 | h3
  · have hz : forAddress (4096 * c) = .normal := (if_neg hge).trans (if_pos (by omega))
    rw [hz]
    simp only [start, stop]
    rcases lt_or_ge 1048576 e with h2 | h2
    · refine ⟨1048576, by omega, by omega, by omega, by omega, by omega, .inr ?_⟩
      decide
    · exact ⟨e, by omega, by omega, by omega, by omega, by omega, .inl rfl⟩
  · have hz : forAddress (4096 * c) = .high := (if_neg hge).trans (if_neg (by omega))
    rw [hz]
    simp only [start, stop]
    exact ⟨e, by omega, by omega, by omega, by omega, by omega, .inl rfl⟩

/-- **`add_region`** links the frames of `[c, e)`, zone by zone. -/
theorem addRegion_spec {M : Nat → Prop} (fuel : Nat) (h : Booted s L M) (he : e < 2 ^ 52)
    (hfuel : c < e → roundsLeft (4096 * c) ≤ fuel) (hM : ∀ x, c ≤ x → x < e → ¬ M x) :
    ∃ s' L', addRegion (4096 * e) fuel s (4096 * c) = some s' ∧ SameDb s s' ∧
      Booted s' L' (fun x => M x ∨ (c ≤ x ∧ x < e ∧ x ≠ 0)) := by
  induction fuel generalizing s L M c with
  | zero =>
    have hce : ¬ c < e := fun hc => by
      have := hfuel hc
      unfold roundsLeft at this
      split at this <;> omega
    exact ⟨s, L, rfl, SameDb.refl s, h.or_false fun x => by omega⟩
  | succ fuel ih =>
    unfold addRegion
    by_cases hce : c < e
    · obtain ⟨d, hmin, _, _, hstart, hstop, hprog⟩ := round_spec he hce
      have hsub : 4096 * d - 4096 * c = 4096 * (d - c) := by omega
      rw [if_pos (by omega)]
      simp only [hmin, hsub]
      rw [if_pos (by omega)]
      obtain ⟨s1, L1, hs1, hdb1, h1⟩ := addToZone_spec (r := d - c) h (by omega) hstart
        (le_trans (by omega) hstop) (fun x hx1 hx2 => hM x hx1 (by omega))
      obtain ⟨s', L', hs, hdb, hb⟩ := ih (c := d) h1 (fun hlt => by
          rcases hprog with rfl | _
          · omega
          · omega)
        (by
          rintro x hx1 hx2 (hx | hx)
          · exact hM x (by omega) hx2 hx
          · omega)
      rw [hs1]
      exact ⟨s', L', hs, hdb1.trans hdb, hb.or_or fun x => by omega⟩
    · rw [if_neg (by omega)]
      exact ⟨s, L, rfl, SameDb.refl s, h.or_false fun x => by omega⟩

/-! ## `init` -/

/-- The whole frames of a region. -/
def Region.HasFrame (r : Region) (x : Nat) : Prop :=
  r.usable = true ∧ (r.start + 4095) / 4096 ≤ x ∧ x < (r.start + r.len) / 4096

/-- The frames `init` hands to the allocator: frame 0 is reserved. -/
def Managed (regions : List Region) (x : Nat) : Prop := x ≠ 0 ∧ ∃ r ∈ regions, r.HasFrame x

/-- The regions do not overlap. -/
def DisjointRegions (regions : List Region) : Prop :=
  regions.Pairwise fun r r' =>
    r.usable = true → r'.usable = true → r.start + r.len ≤ r'.start ∨ r'.start + r'.len ≤ r.start

/-- The state of a machine before `init`: empty zones and zero counters, over any memory. -/
structure Fresh (s : State) : Prop where
  zones : ∀ z, s.zones z = MemoryZone.new
  stats : s.stats = {}

theorem Fresh.booted (h : Fresh s) : Booted s (fun _ => []) (fun _ => False) := by
  have hl : ∀ z o, s.list z o = { head := 0, count := 0 } := fun z o => by
    unfold State.list
    rw [h.zones]
    rfl
  have hfree : freeBlocks (fun _ => []) = [] := by decide
  refine ⟨⟨?_, ?_, ?_, ?_, ?_, ?_, ?_⟩, ?_, ?_⟩
  · intro z
    refine ⟨?_, ?_⟩
    · rw [h.zones]
      exact Nat.zero_le _
    · rw [h.zones]
      exact fun hne => absurd rfl hne
  · intro i _
    rw [hl]
    rfl
  · intro i _
    rw [hl]
    rfl
  · nofun
  · nofun
  · nofun
  · rw [hfree]
    exact .nil
  · rw [h.stats]
    rfl
  · intro x
    rw [total, hfree]
    simp

theorem roundsLeft_le (addr : Nat) : roundsLeft addr ≤ 3 := by
  unfold roundsLeft
  split <;> omega

/-- One region of the memory map. -/
theorem initRegion_spec {M : Nat → Prop} {r : Region} (h : Booted s L M)
    (hs : initRegion s r = some s') (hM : ∀ x, r.HasFrame x → ¬ M x) :
    ∃ L', SameDb s s' ∧ Booted s' L' (fun x => M x ∨ (r.HasFrame x ∧ x ≠ 0)) := by
  unfold initRegion at hs
  unfold Region.HasFrame at hM ⊢
  split at hs
  next hskip =>
    cases hs
    refine ⟨L, SameDb.refl s, h.or_false fun x => ?_⟩
    rcases hskip with hu | _
    · simp [hu]
    · omega
  rename_i huse
  split at hs
  · cases hs
  have hu : r.usable = true := by
    rw [not_or, Bool.not_eq_false] at huse
    exact huse.1
  simp only at hs
  split at hs
  next hempty =>
    unfold pageAlignUp pageAlignDown at hempty
    cases hs
    exact ⟨L, SameDb.refl s, h.or_false fun x => by omega⟩
  obtain ⟨s'', L', hs', hdb, hb⟩ := addRegion_spec 3 h (by omega)
    (fun _ => roundsLeft_le _) (fun x hx1 hx2 => hM x ⟨hu, hx1, hx2⟩)
  obtain rfl := Option.some.inj (hs'.symm.trans hs)
  exact ⟨L', hdb, hb.or_congr fun x => by simp only [hu, true_and]; omega⟩

/-- **`init`** over disjoint regions links exactly the managed frames. -/
theorem init_spec {regions : List Region} (hf : Fresh s) (hd : DisjointRegions regions)
    (hs : init s regions = some s') : ∃ L', SameDb s s' ∧ Booted s' L' (Managed regions) := by
  -- the loop, from any stage that holds none of the frames to come
  have loop : ∀ (regions : List Region) (s s' : State) (L : Slot → List Nat) (M : Nat → Prop),
      Booted s L M → DisjointRegions regions → (∀ r ∈ regions, ∀ x, r.HasFrame x → ¬ M x) →
      init s regions = some s' →
      ∃ L', SameDb s s' ∧ Booted s' L' (fun x => M x ∨ Managed regions x) := by
    intro regions
    induction regions with
    | nil =>
      intro s s' L M h _ _ hs
      cases hs
      exact ⟨L, SameDb.refl s, h.congr fun x => by simp [Managed]⟩
    | cons r regions ih =>
      intro s s' L M h hd hM hs
      unfold init at hs
      rw [foldlM_cons, Option.bind_eq_bind, Option.bind_eq_some_iff] at hs
      obtain ⟨s1, hs1, hs⟩ := hs
      obtain ⟨L1, hdb1, h1⟩ := initRegion_spec h hs1 (hM r mem_cons_self)
      obtain ⟨hd1, hd2⟩ := pairwise_cons.mp hd
      obtain ⟨L', hdb, h'⟩ := ih s1 s' L1 _ h1 hd2 (by
        rintro r' hr' x hx (hMx | ⟨hrx, _⟩)
        · exact hM r' (mem_cons_of_mem _ hr') x hx hMx
        have := hd1 r' hr' hrx.1 hx.1
        unfold Region.HasFrame at hrx hx
        omega) hs
      refine ⟨L', hdb1.trans hdb, h'.congr fun x => ?_⟩
      unfold Managed
      simp only [mem_cons, or_and_right, exists_or, exists_eq_left]
      tauto
  obtain ⟨L', hdb, h'⟩ := loop regions s s' _ _ hf.booted hd (fun _ _ _ _ => id) hs
  exact ⟨L', hdb, h'.congr fun x => by simp⟩

end OxideOs.Buddy

import OxideOs.Mm.Buddy.Runs

/-!
# `Mm.Buddy.Conserve` — no frame is lost

Conservation needs more than disjointness: every block that leaves a list must come back. Two guards can
drop a block for good, `add_free_block` and `free_to_zone`, when the bytes in its first frame pretend to be a
linked header. `Honest` rules that out for the block freed and for the halves `alloc` is about to split off,
and `Conserved` is the invariant of such runs: the blocks cover exactly the managed frames, the byte counter
counts the free ones, and the page database agrees with the lists.
-/

namespace OxideOs.Buddy

open List Block Pagedb PageDatabase MemoryStats PageFrame

variable {s : State} {L : Slot → List Nat} {held : List Block} {z : ZoneType}

/-! ## `alloc`, exactly -/

/-- The list `alloc` takes a block from: the first nonempty one of sufficient order, zone by zone. -/
def candidate (s : State) (order : Nat) : List ZoneType → Option Slot
  | [] => none
  | z :: zs =>
    if (s.zones z).isEmpty then candidate s order zs
    else
      match (range' order (MAX_ORDER + 1 - order)).find? (fun o => (s.list z o).count != 0) with
      | some cur => some (z, cur)
      | none => candidate s order zs

/-- The halves `alloc` will split off do not pretend to be linked. -/
def SplitsClean (s : State) (order : Nat) (zs : List ZoneType) : Prop :=
  ∀ i, candidate s order zs = some i → ∀ k, k < i.2 → order ≤ k →
    (s.mem ((s.list i.1 i.2).head + 2 ^ k)).pretends = false

/-- `alloc_from_zone` takes the head of the first nonempty list, where the page database has every listed
    block as free. -/
theorem allocFromOrders_exact (h : Inv s L held) (order : Nat) {orders : List Nat}
    (hdb : ∀ b ∈ freeBlocks L, s.framesFree (4096 * b.base) b.order = true)
    (ho : ∀ cur ∈ orders, order ≤ cur ∧ cur ≤ MAX_ORDER) : (orders.find? (fun o => (s.list z o).count != 0) = none ∧
      allocFromOrders z order orders s = some (none, s)) ∨
    ∃ cur s' L', orders.find? (fun o => (s.list z o).count != 0) = some cur ∧
      allocFromOrders z order orders s = some (some (4096 * (s.list z cur).head), s') ∧
      Inv s' L' (⟨(s.list z cur).head, order⟩ :: held) ∧ SameRest s s' ∧
      ((∀ k, order ≤ k → k < cur → (s.mem ((s.list z cur).head + 2 ^ k)).pretends = false) →
        SameCells (total L held) (total L' (⟨(s.list z cur).head, order⟩ :: held))) := by
  induction orders with
  | nil => exact .inl ⟨rfl, rfl⟩
  | cons cur orders ih =>
    obtain ⟨hlo, hhi⟩ := ho cur mem_cons_self
    have hi : (z, cur) ∈ slots := mem_slots.mpr hhi
    have hcount := h.count _ hi
    cases hL : L (z, cur) with
    | nil =>
      -- an empty list: no round at all
      rw [hL] at hcount
      simp only [length_nil] at hcount
      have hfind : (cur :: orders).find? (fun o => (s.list z o).count != 0) =
          orders.find? (fun o => (s.list z o).count != 0) := by
        simp [hcount]
      have hstep : allocFromOrders z order (cur :: orders) s = allocFromOrders z order orders s := by
        simp [allocFromOrders, hcount, allocAtOrder]
      rw [hfind, hstep]
      exact ih (fun c hc => ho c (mem_cons_of_mem _ hc))
    | cons f l =>
      right
      have hchain := h.chain _ hi
      rw [hL] at hcount hchain
      have hhead : (s.list z cur).head = f := hchain.1
      simp only [length_cons] at hcount
      have hfree := hdb ⟨f, cur⟩ (Inv.mem_free hi (hL ▸ mem_cons_self))
      obtain ⟨s', L', ha, hinv, hrest, hcells⟩ := allocAtOrder_accept l.length h hhi hlo hL hfree
      refine ⟨cur, s', L', ?_, ?_, ?_, hrest, ?_⟩
      · rw [find?_cons]
        simp [hcount]
      · simp [allocFromOrders, hcount, ha, hhead]
      · rw [hhead]; exact hinv
      · rw [hhead]; exact hcells

/-- **`alloc`, where the page database agrees with the lists**: it fails and changes nothing but a counter,
    or it takes the candidate block and only regroups the other frames. -/
theorem alloc_exact (h : Inv s L held) {req : AllocRequest}
    (hdb : ∀ b ∈ freeBlocks L, s.framesFree (4096 * b.base) b.order = true)
    (hclean : SplitsClean s req.order (zoneOrder req.zone)) :
    (∃ e n, alloc s req = some (.error e, { s with stats := { s.stats with allocFailures := n } })) ∨
    ∃ f s' L', alloc s req = some (.ok (4096 * f), s'.recordAlloc (4096 * f) req.order) ∧
      Inv s' L' (⟨f, req.order⟩ :: held) ∧ SameRest s s' ∧
      SameCells (total L held) (total L' (⟨f, req.order⟩ :: held)) := by
  unfold alloc
  split
  · exact .inl ⟨_, _, rfl⟩
  generalize zoneOrder req.zone = zs at hclean
  induction zs with
  | nil => exact .inl ⟨_, _, rfl⟩
  | cons z zs ih =>
    unfold SplitsClean candidate at hclean
    unfold allocInZones
    split
    next hempty =>
      rw [if_pos hempty] at hclean
      exact ih hclean
    rename_i hempty
    rw [if_neg hempty] at hclean
    rcases allocFromOrders_exact h req.order hdb (fun _ => mem_orders) with
      ⟨hfind, ha⟩ | ⟨cur, s', L', hfind, ha, hinv, hrest, hcells⟩
    · rw [hfind] at hclean
      simp only [allocFromZone, ha]
      exact ih hclean
    rw [hfind] at hclean
    simp only [allocFromZone, ha]
    refine .inr ⟨_, s', L', rfl, hinv, hrest, hcells fun k hk1 hk2 => ?_⟩
    exact hclean _ rfl k hk2 hk1

/-! ## The invariant of conservation -/

/-- The record of a frame that is allocated. -/
def allocatedFrame : PageFrame := { flags := PF_ALLOCATED, refcount := 1, owner := 0 }

/-- **Conservation.** -/
structure Conserved (regions : List Region) (s : State) (L : Slot → List Nat) (live : List Block) :
    Prop where
  inv : Inv s L live
  cells : ∀ x, (∃ b ∈ total L live, x ∈ b) ↔ Managed regions x
  freeBytes : s.stats.freeBytes = 4096 * freePages L
  watchedFrame : s.watchedFrame = 0
  dbFree : ∀ db, s.pagedb = some db → ∀ b ∈ freeBlocks L, ∀ x ∈ b,
    x < db.count ∧ (db.frames x).isFree = true
  dbLive : ∀ db, s.pagedb = some db → ∀ b ∈ live, ∀ x ∈ b, x < db.count ∧ db.frames x = allocatedFrame

/-- Regrouping frames keeps the number of pages. -/
theorem freePages_add {s' : State} {L' : Slot → List Nat} {held' : List Block} (h : Inv s L held)
    (h' : Inv s' L' held') (hcells : SameCells (total L held) (total L' held')) :
    freePages L + (held.map (fun b => 2 ^ b.order)).sum =
      freePages L' + (held'.map (fun b => 2 ^ b.order)).sum := by
  have hsum : ∀ (L : Slot → List Nat) (held : List Block), freePages L + (held.map (fun b => 2 ^ b.order)).sum =
        ((total L held).map (fun b => 2 ^ b.order)).sum := by
    intro L held
    rw [map_append, sum_append]
    rfl
  rw [hsum, hsum, ← card_cells h.apart, ← card_cells h'.apart]
  congr 1
  ext x
  rw [mem_cells, mem_cells]
  exact hcells x

namespace Conserved

variable {regions : List Region} {live : List Block} {b : Block} {s' : State} {L' : Slot → List Nat}

theorem framesFree (h : Conserved regions s L live) :
    ∀ b ∈ freeBlocks L, s.framesFree (4096 * b.base) b.order = true := by
  intro b hb
  unfold State.framesFree
  cases hp : s.pagedb with
  | none => rfl
  | some db =>
    refine (allFree_iff b.base _).mpr fun x h1 h2 => ?_
    exact h.dbFree db hp b hb x ⟨h1, h2⟩

/-- A frame that is in a block apart from the live ones is on the lists, if anywhere. -/
theorem free_of_apart {c : Block} (hap : ∀ d ∈ live, Apart c d) {x : Nat} (hx : x ∈ c)
    (h : ∃ d ∈ total L live, x ∈ d) : ∃ d ∈ freeBlocks L, x ∈ d := by
  obtain ⟨d, hd, hxd⟩ := h
  rcases mem_append.mp hd with hd | hd
  · exact ⟨d, hd, hxd⟩
  · exact absurd hxd (apart_iff.mp (hap d hd) x hx)

section

variable (h' : Inv s' L' (b :: live)) (hcells : SameCells (total L live) (total L' (b :: live)))
include h' hcells

/-- A frame on the lists after a block went live was on the lists before. -/
theorem free_of_taken {c : Block} (hc : c ∈ freeBlocks L')
    {x : Nat} (hx : x ∈ c) : (∃ c' ∈ freeBlocks L, x ∈ c') ∧ x ∉ b := by
  have hap := (pairwise_append.mp h'.apart).2.2 c hc
  refine ⟨?_, apart_iff.mp (hap b mem_cons_self) x hx⟩
  exact free_of_apart (fun d hd => hap d (mem_cons_of_mem b hd)) hx ((hcells x).mpr ⟨c, mem_append_left _ hc, hx⟩)

/-- The block taken was on the lists before. -/
theorem taken_free {x : Nat} (hx : x ∈ b) : ∃ c ∈ freeBlocks L, x ∈ c := by
  have hap := (pairwise_cons.mp (pairwise_append.mp h'.apart).2.1).1
  exact free_of_apart hap hx ((hcells x).mpr ⟨b, mem_append_right _ mem_cons_self, hx⟩)

end

/-- **A successful allocation** keeps conservation. -/
theorem alloc (h : Conserved regions s L live) (h' : Inv s' L' (b :: live)) (hrest : SameRest s s')
    (hcells : SameCells (total L live) (total L' (b :: live))) :
    Conserved regions (s'.recordAlloc (4096 * b.base) b.order) L' (b :: live) where
  inv := h'.of_eq rfl rfl
  cells x := (hcells x).symm.trans (h.cells x)
  freeBytes := by
    have hp := freePages_add h.inv h' hcells
    have hlt := h.inv.freePages_lt
    rw [map_cons, sum_cons] at hp
    show sub64 s'.stats.freeBytes (4096 * 2 ^ b.order) = _
    rw [hrest.stats, h.freeBytes]
    unfold sub64
    omega
  watchedFrame := hrest.watchedFrame.trans h.watchedFrame
  dbFree db hdb c hc x hx := by
    obtain ⟨db0, hdb0, rfl⟩ := Option.map_eq_some_iff.mp hdb
    rw [hrest.pagedb] at hdb0
    obtain ⟨⟨c', hc', hxc'⟩, hxb⟩ := free_of_taken h' hcells hc hx
    obtain ⟨hcount, hframes⟩ := db0.markRange_put allocatedFrame b.base _
    obtain ⟨h1, h2⟩ := h.dbFree db0 hdb0 c' hc' x hxc'
    refine ⟨lt_of_lt_of_eq h1 hcount.symm, (congrArg isFree ((hframes x).trans (if_neg fun hc => ?_))).trans h2⟩
    exact hxb ⟨hc.1, hc.2.1⟩
  dbLive db hdb c hc x hx := by
    obtain ⟨db0, hdb0, rfl⟩ := Option.map_eq_some_iff.mp hdb
    rw [hrest.pagedb] at hdb0
    obtain ⟨hcount, hframes⟩ := db0.markRange_put allocatedFrame b.base (2 ^ b.order)
    rcases mem_cons.mp hc with rfl | hc
    · obtain ⟨c', hc', hxc'⟩ := taken_free h' hcells hx
      have h1 := (h.dbFree db0 hdb0 c' hc' x hxc').1
      exact ⟨lt_of_lt_of_eq h1 hcount.symm, (hframes x).trans (if_pos ⟨hx.1, hx.2, h1⟩)⟩
    obtain ⟨h1, h2⟩ := h.dbLive db0 hdb0 c hc x hx
    refine ⟨lt_of_lt_of_eq h1 hcount.symm, (hframes x).trans ?_⟩
    split
    · rfl
    · exact h2

/-- A live block passes every check of `free`. -/
theorem free_accepts (h : Conserved regions s L (b :: live)) :
    s.watchdogHit (4096 * b.base) b.order = false ∧ s.freeRefused (4096 * b.base) = false := by
  constructor
  · unfold State.watchdogHit
    rw [h.watchedFrame]
    rfl
  unfold State.freeRefused
  cases hp : s.pagedb with
  | none => rfl
  | some db =>
    obtain ⟨h1, h2⟩ := h.dbLive db hp b mem_cons_self b.base base_mem
    have hv : db.validateFree (4096 * b.base) = .ok () := by
      unfold validateFree
      rw [get_frame, if_pos h1, h2]
      rfl
    simp [hv]

/-- **A free that keeps its frames** keeps conservation. -/
theorem free (h : Conserved regions s L (b :: live))
    (h' : Inv s' L' live) (hrest : SameRest (s.markFree (4096 * b.base) b.order) s')
    (hcells : SameCells (total L (b :: live)) (total L' live)) :
    Conserved regions { s' with stats := s'.stats.recordFree (4096 * 2 ^ b.order) } L' live where
  inv := h'.of_eq rfl rfl
  cells x := (hcells x).symm.trans (h.cells x)
  freeBytes := by
    have hp := freePages_add h.inv h' hcells
    have hlt := h'.freePages_lt
    rw [map_cons, sum_cons] at hp
    rw [hrest.stats]
    show add64 s.stats.freeBytes (4096 * 2 ^ b.order) = _
    rw [h.freeBytes]
    unfold add64
    omega
  watchedFrame := hrest.watchedFrame.trans h.watchedFrame
  dbFree db hdb c hc x hx := by
    have hpdb : s'.pagedb = some db := hdb
    rw [hrest.pagedb] at hpdb
    obtain ⟨db0, hdb0, rfl⟩ := Option.map_eq_some_iff.mp hpdb
    obtain ⟨hcount, hframes⟩ := db0.markRange_put new b.base _
    have hap := (pairwise_append.mp h'.apart).2.2 c hc
    obtain ⟨d, hd, hxd⟩ := (hcells x).mpr ⟨c, mem_append_left _ hc, hx⟩
    rcases mem_append.mp hd with hd | hd
    · obtain ⟨h1, h2⟩ := h.dbFree db0 hdb0 d hd x hxd
      refine ⟨lt_of_lt_of_eq h1 hcount.symm, (congrArg isFree (hframes x)).trans ?_⟩
      split
      · rfl
      · exact h2
    · rcases mem_cons.mp hd with rfl | hd
      · have h1 := (h.dbLive db0 hdb0 d mem_cons_self x hxd).1
        refine ⟨lt_of_lt_of_eq h1 hcount.symm, (congrArg isFree (hframes x)).trans ?_⟩
        rw [if_pos ⟨hxd.1, hxd.2, h1⟩]
        rfl
      · exact absurd hxd (apart_iff.mp (hap d hd) x hx)
  dbLive db hdb c hc x hx := by
    have hpdb : s'.pagedb = some db := hdb
    rw [hrest.pagedb] at hpdb
    obtain ⟨db0, hdb0, rfl⟩ := Option.map_eq_some_iff.mp hpdb
    obtain ⟨hcount, hframes⟩ := db0.markRange_put new b.base _
    obtain ⟨h1, h2⟩ := h.dbLive db0 hdb0 c (mem_cons_of_mem _ hc) x hx
    have hbl := (pairwise_cons.mp (pairwise_append.mp h.inv.apart).2.1).1 c hc
    refine ⟨lt_of_lt_of_eq h1 hcount.symm, (hframes x).trans ?_⟩
    rw [if_neg fun hc => apart_iff.mp hbl x ⟨hc.1, hc.2.1⟩ hx]
    exact h2

/-- Only the order of the live blocks changes. -/
theorem perm (h : Conserved regions s L live) {live' : List Block} (hp : live'.Perm live) :
    Conserved regions s L live' where
  inv := h.inv.perm hp
  cells x := (SameCells.of_perm (hp.append_left _) x).trans (h.cells x)
  freeBytes := h.freeBytes
  watchedFrame := h.watchedFrame
  dbFree := h.dbFree
  dbLive db hdb c hc := h.dbLive db hdb c (hp.subset hc)

end Conserved

/-! ## Runs -/

/-- The bytes owners left do not pretend to be linked headers where a guard will look: in the first frame of a
    block freed, and of each half `alloc` splits off. And no buddy is forged. -/
def Honest (sys : Sys) : Action → Prop
  | .alloc req => SplitsClean sys.state req.order (zoneOrder req.zone)
  | .free b => (sys.state.mem b.base).pretends = false ∧
      ¬ ForgedBuddy sys.state (ZoneType.forAddress (4096 * b.base)) b.base b.order
  | .write _ _ => True

instance (s : State) (order : Nat) (zs : List ZoneType) : Decidable (SplitsClean s order zs) := by
  delta SplitsClean
  infer_instance

instance (sys : Sys) (a : Action) : Decidable (Honest sys a) := by
  delta Honest
  exact match a with
    | .alloc _ | .free _ | .write _ _ => inferInstance

/-- The states right after boot over `regions`: any memory contents, and no page database or one that has
    every managed frame as free. -/
def StartOver (regions : List Region) (sys : Sys) : Prop :=
  ∃ s, Fresh s ∧ DisjointRegions regions ∧ s.watchedFrame = 0 ∧
    (∀ db, s.pagedb = some db → ∀ x, Managed regions x → x < db.count ∧ (db.frames x).isFree = true) ∧
    init s regions = some sys.state ∧ sys.live = []

variable {regions : List Region} {sys sys' : Sys} {live : List Block} {b : Block}

theorem conserved_start (h : StartOver regions sys) : ∃ L, Conserved regions sys.state L sys.live := by
  obtain ⟨s, hf, hd, hw, hdb, hi, hl⟩ := h
  obtain ⟨L, hsame, hb⟩ := init_spec hf hd hi
  rw [hl]
  refine ⟨L, hb.inv, hb.cells, hb.freeBytes, hsame.watchedFrame.trans hw, ?_, ?_⟩
  · intro db hp b hbm x hx
    rw [hsame.pagedb] at hp
    exact hdb db hp x ((hb.cells x).mp ⟨b, mem_append_left _ hbm, hx⟩)
  · nofun

/-- **An honest free** of a live block succeeds and puts all its frames back. -/
theorem free_conserves (h : Conserved regions s L (b :: live)) (hpr : (s.mem b.base).pretends = false)
    (hforge : ¬ ForgedBuddy s (ZoneType.forAddress (4096 * b.base)) b.base b.order) :
    ∃ s' L', free s (4096 * b.base) b.order = some (.ok (), s') ∧ Conserved regions s' L' live := by
  obtain ⟨z, hpl⟩ := h.inv.heldPlaced b mem_cons_self
  have hz := (h.inv.zone z).forAddress_placed hpl
  rw [hz] at hforge
  obtain ⟨hw, hr⟩ := h.free_accepts
  have hne : (s.zones z).isEmpty = false := by
    have h1 := hpl.lower
    have h2 := hpl.upper
    have h3 := Nat.two_pow_pos b.order
    exact beq_eq_false_iff_ne.mpr (by omega)
  have hm : Inv (s.markFree (4096 * b.base) b.order) L (b :: live) := h.inv.of_eq rfl rfl
  have hbm : Placed (s.markFree (4096 * b.base) b.order) z b := ⟨hpl.1, hpl.2, hpl.3, hpl.4, hpl.5⟩
  rcases freeToZone_spec hm hbm (mt (ForgedBuddy.of_markFree hpl.aligned) hforge) with
    ⟨hpr', _⟩ | ⟨_, s', L', hf, hinv, hrest, hcells⟩
  · exact absurd (hpr.symm.trans hpr') (by simp)
  refine ⟨_, L', ?_, h.free hinv hrest hcells⟩
  unfold free
  rw [if_neg (not_lt.mpr hpl.order), if_neg (by simp), hw, hr]
  simp only [hz, hne, hf]
  rfl

/-- One honest step keeps conservation. -/
theorem conserved_step {a : Action} (hinv : ∃ L, Conserved regions sys.state L sys.live) (hok : Honest sys a)
    (hs : step sys a = some sys') : ∃ L, Conserved regions sys'.state L sys'.live := by
  obtain ⟨L, h⟩ := hinv
  cases a with
  | alloc req =>
    rcases alloc_exact h.inv h.framesFree hok with ⟨e, n, ha⟩ | ⟨f, s', L', ha, hinv, hrest, hcells⟩
    · simp only [step, ha] at hs
      cases hs
      exact ⟨L, { h with inv := h.inv.of_eq rfl rfl }⟩
    simp only [step, ha, frame_addr] at hs
    cases hs
    exact ⟨L', h.alloc hinv hrest hcells⟩
  | free b =>
    simp only [step] at hs
    split at hs
    next hb =>
      obtain ⟨s', L', hf, hc⟩ := free_conserves (h.perm (perm_cons_erase hb).symm) hok.1 hok.2
      rw [hf] at hs
      cases hs
      exact ⟨L', hc⟩
    · cases hs
  | write frame bytes =>
    simp only [step] at hs
    split at hs
    next hw =>
      obtain ⟨b, hb, hfb⟩ := hw
      cases hs
      exact ⟨L, { h with inv := h.inv.write (h.inv.unlinked_of_held hb hfb) _ }⟩
    · cases hs

theorem conserved_reachable (h : Run.Reach step Honest (StartOver regions) sys) :
    ∃ L, Conserved regions sys.state L sys.live :=
  h.invariant (fun sys => ∃ L, Conserved regions sys.state L sys.live) (fun _ => conserved_start)
    (fun _ _ _ => conserved_step)

/-- The zones' own page counts add up to the pages on the lists. -/
theorem Inv.totalFreePages_eq {s : State} {L : Slot → List Nat} {held : List Block} (h : Inv s L held) :
    (s.zones .dma).totalFreePages + (s.zones .normal).totalFreePages + (s.zones .high).totalFreePages =
      freePages L := by
  have hslot : freePages L = (slots.map (fun i => (s.list i.1 i.2).count * 2 ^ i.2)).sum := by
    unfold freePages freeBlocks
    rw [Slots.sum_map_flatMap]
    congr 1
    refine map_congr_left fun i hi => ?_
    rw [h.count i hi]
    simp [Function.comp_def]
  rw [hslot]
  unfold slots MemoryZone.totalFreePages State.list
  simp only [flatMap_cons, flatMap_nil, append_nil, map_append, sum_append, map_map, Function.comp_def]
  omega

/-- **No loss.** In every state of an honest run each managed frame is in exactly one block, live or linked in
    a free list, and no other frame is in any; the byte counter is 4096 times the zones' free pages; and
    freeing a live block succeeds and makes all its frames allocatable again. -/
theorem reachable_conserved {regions : List Region} {sys : Sys} (h : Run.Reach step Honest (StartOver regions) sys) :
    (∀ x, Managed regions x →
      (linkedBlocks sys.state ++ sys.live).countP (fun b => decide (x ∈ b)) = 1) ∧
    (∀ x, ¬ Managed regions x → ∀ b ∈ linkedBlocks sys.state ++ sys.live, x ∉ b) ∧
    sys.state.stats.freeBytes = 4096 * ((sys.state.zones .dma).totalFreePages +
      (sys.state.zones .normal).totalFreePages + (sys.state.zones .high).totalFreePages) ∧
    ∀ b ∈ sys.live, Honest sys (.free b) → ∃ s', free sys.state (4096 * b.base) b.order = some (.ok (), s') ∧
      ∀ x ∈ b, ∃ c ∈ linkedBlocks s', x ∈ c := by
  obtain ⟨L, hc⟩ := conserved_reachable h
  rw [hc.inv.linkedBlocks_eq]
  refine ⟨?_, ?_, ?_, ?_⟩
  · intro x hx
    exact countP_eq_one hc.inv.apart ((hc.cells x).mpr hx)
  · intro x hx b hb hxb
    exact hx ((hc.cells x).mp ⟨b, hb, hxb⟩)
  · rw [hc.freeBytes, hc.inv.totalFreePages_eq]
  intro b hb hok
  have hp := hc.perm (perm_cons_erase hb).symm
  obtain ⟨s', L', hf, hc'⟩ := free_conserves hp hok.1 hok.2
  refine ⟨s', hf, fun x hx => ?_⟩
  rw [hc'.inv.linkedBlocks_eq]
  have hcov := (hc'.cells x).mpr ((hp.cells x).mp ⟨b, mem_append_right _ mem_cons_self, hx⟩)
  -- the other live blocks are apart from the one freed
  have hap := (pairwise_cons.mp (pairwise_append.mp hp.inv.apart).2.1).1
  exact Conserved.free_of_apart hap hx hcov

theorem startOver_zeroState {regions : List Region} (hd : DisjointRegions regions) {s : State}
    (hs : init zeroState regions = some s) : StartOver regions { state := s, live := [] } :=
  ⟨zeroState, zeroState_fresh, hd, rfl, fun _ hdb => absurd hdb (by simp [zeroState]), hs, rfl⟩

/-- Frame 1. -/
def oneFrame : List Region := [{ start := 0x1000, len := 0x1000, usable := true }]

/-- **A frame is lost.** The owner of frame 1 leaves a header with the canary, a valid order and some forward
    link in it; after the free the frame is neither live nor on a list. -/
theorem lost_frame : ∃ sys, Run.Reach step (fun _ _ => True) (StartOver oneFrame) sys ∧
    Managed oneFrame 1 ∧ sys.live = [] ∧ linkedBlocks sys.state = [] := by
  obtain ⟨sys, hsys, hlive, hlinked⟩ : ∃ sys, runFrom (fun _ _ => True) oneFrame [.alloc ⟨0, none⟩,
      .write 1 { magic := FREE_BLOCK_MAGIC, next := 1, prev := 0, order := 0 }, .free ⟨1, 0⟩] = some sys ∧
      sys.live = [] ∧ linkedBlocks sys.state = [] := Run.exists_of_any (by decide)
  refine ⟨sys, reach_runFrom (fun _ => startOver_zeroState (pairwise_singleton _ _)) hsys, ?_, hlive, hlinked⟩
  exact ⟨by decide, _, mem_singleton_self _, rfl, by decide, by decide⟩

/-- Frames 4 to 7. -/
def fourFrames : List Region := [{ start := 0x4000, len := 0x4000, usable := true }]

/-- The block of four frames is split for two frames and merged again; the owner of one of them leaves a header with
    an invalid order in it. -/
theorem reachable_conserved_merged : ∃ sys, Run.Reach step Honest (StartOver fourFrames) sys ∧
    sys.live = [] ∧ linkedBlocks sys.state = [⟨4, 2⟩] ∧
    (linkedBlocks sys.state ++ sys.live).countP (fun b => decide (5 ∈ b)) = 1 := by
  obtain ⟨sys, hsys, hlive, hlinked⟩ : ∃ sys, runFrom Honest fourFrames [.alloc ⟨0, none⟩, .alloc ⟨0, none⟩,
      .write 4 { magic := FREE_BLOCK_MAGIC, next := 1, prev := 0, order := 11 }, .free ⟨4, 0⟩, .free ⟨5, 0⟩] =
        some sys ∧ sys.live = [] ∧ linkedBlocks sys.state = [⟨4, 2⟩] := Run.exists_of_any (by decide +kernel)
  have hreach := reach_runFrom (fun _ => startOver_zeroState (pairwise_singleton _ _)) hsys
  exact ⟨sys, hreach, hlive, hlinked, (reachable_conserved hreach).1 5
    ⟨by decide, _, mem_singleton_self _, rfl, by decide, by decide⟩⟩

end OxideOs.Buddy

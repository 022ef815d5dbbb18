import OxideOs.Lib.Bytes
import OxideOs.Lib.Ring
import OxideOs.Lib.Run

/-!
# `Tty.LockFreeRing` — keyboard input without locks

`LockFreeRing` (`tty/vt`) is written by one producer, the interrupt handler, and read by one consumer. Each load and
store of an index and each access to a slot is a step, and the steps of a `push` and of a `pop` interleave in any order.
One of the 257 slots stays free, so that the full ring is not taken for the empty one.
-/

namespace OxideOs.LockFreeRing

open List Function OxideOs.Ring

/-- Slots in `buffer`. -/
def SLOTS : Nat := 257

/-- Where a `push` of `byte` stands. -/
inductive Push where
  | idle
  | loaded (byte : Byte) (head : Nat)
  | writing (byte : Byte) (head : Nat)
  | written (byte : Byte) (head : Nat)

/-- Where a `pop` stands. `unread` is a history variable: how many bytes were unread when it loaded the head. -/
inductive Pop where
  | idle
  | loaded (head unread : Nat)
  | reading (tail : Nat)
  | read (byte : Byte) (tail : Nat)

/-- What a `push` knows of the head, and of the free slot it writes, while `n` bytes are unread. -/
def Push.Ok (buffer : Nat → Byte) (head n : Nat) : Push → Prop
  | .idle => True
  | .loaded _ h => h = head
  | .writing _ h => h = head ∧ n < 256
  | .written byte h => h = head ∧ n < 256 ∧ buffer head = byte

/-- What a `pop` knows of the tail. The head it loaded may be old: there were fewer bytes then. -/
def Pop.Ok (tail : Nat) (xs : List Byte) : Pop → Prop
  | .idle => True
  | .loaded head unread => head = (tail + unread) % SLOTS ∧ unread ≤ xs.length
  | .reading t => t = tail ∧ xs ≠ []
  | .read byte t => t = tail ∧ ∃ ys, xs = byte :: ys

theorem Push.Ok.popped {buffer : Nat → Byte} {head n : Nat} {p : Push} (h : p.Ok buffer head (n + 1)) :
    p.Ok buffer head n := by
  cases p with
  | idle | loaded => exact h
  | writing => exact ⟨h.1, Nat.lt_of_succ_lt h.2⟩
  | written => exact ⟨h.1, Nat.lt_of_succ_lt h.2.1, h.2.2⟩

theorem Pop.Ok.pushed {tail : Nat} {xs ys : List Byte} {p : Pop} (h : p.Ok tail xs) : p.Ok tail (xs ++ ys) := by
  cases p with
  | idle => trivial
  | loaded => exact ⟨h.1, h.2.trans (by simp)⟩
  | reading => exact ⟨h.1, by simp [h.2]⟩
  | read =>
    obtain ⟨rfl, zs, rfl⟩ := h
    exact ⟨rfl, _, rfl⟩

/-- The ring, the two calls, and what they have returned: for a `push` that returned false and a `pop` that returned
    `None`, how many bytes were unread at one of its loads. -/
structure State where
  buffer : Nat → Byte := fun _ => 0
  head : Nat := 0
  tail : Nat := 0
  push : Push := .idle
  pop : Pop := .idle
  accepted : List Byte := []
  popped : List Byte := []
  refusals : List Nat := []
  empties : List Nat := []

inductive Action where
  | beginPush (byte : Byte)
  | push
  | beginPop
  | pop

namespace State

variable {s s' : State} {xs : List Byte}

def unread (s : State) : Nat := s.accepted.length - s.popped.length

/-- The next access of a call. A call returns with its last access, or with the load that finds the ring full or
    empty. -/
def step (s : State) : Action → Option State
  | .beginPush byte =>
    match s.push with
    | .idle => some { s with push := .loaded byte s.head }
    | _ => none
  | .push =>
    match s.push with
    | .idle => none
    | .loaded byte head =>
      if (head + 1) % SLOTS = s.tail then some { s with push := .idle, refusals := s.unread :: s.refusals }
      else some { s with push := .writing byte head }
    | .writing byte head => some { s with buffer := update s.buffer head byte, push := .written byte head }
    | .written byte head =>
      some { s with head := (head + 1) % SLOTS, push := .idle, accepted := s.accepted ++ [byte] }
  | .beginPop =>
    match s.pop with
    | .idle => some { s with pop := .loaded s.head s.unread }
    | _ => none
  | .pop =>
    match s.pop with
    | .idle => none
    | .loaded head unread =>
      if head = s.tail then some { s with pop := .idle, empties := unread :: s.empties }
      else some { s with pop := .reading s.tail }
    | .reading tail => some { s with pop := .read (s.buffer tail) tail }
    | .read byte tail =>
      some { s with tail := (tail + 1) % SLOTS, pop := .idle, popped := s.popped ++ [byte] }

/-- The consumer is at the slot, or the slot holds an unread byte. -/
def MayRead (s : State) (slot : Nat) : Prop := s.pop = .reading slot ∨ ∃ i < s.unread, slot = (s.tail + i) % SLOTS

/-- **The ring holds the queue `xs`** of the bytes accepted and not yet popped. -/
structure Inv (s : State) (xs : List Byte) : Prop where
  holds : Holds SLOTS s.buffer s.tail s.head xs.length xs
  stream : s.accepted = s.popped ++ xs
  room : xs.length ≤ 256
  push : s.push.Ok s.buffer s.head xs.length
  pop : s.pop.Ok s.tail xs
  refusals : ∀ n ∈ s.refusals, n = 256
  empties : ∀ n ∈ s.empties, n = 0

theorem Inv.unread (h : Inv s xs) : s.unread = xs.length := by
  unfold State.unread
  rw [h.stream, length_append, Nat.add_sub_cancel_left]

/-- The next slot to write holds no unread byte. -/
theorem Inv.free (h : Inv s xs) {i : Nat} (hi : i < xs.length) : (s.tail + i) % SLOTS ≠ s.head := by
  have hroom := h.room
  rw [h.holds.tail]
  intro he
  have hcell : i = xs.length := cell_injective (by unfold SLOTS; omega) (by unfold SLOTS; omega) he
  omega

theorem Inv.step_push (h : Inv s xs) (hs : s.step .push = some s') : ∃ ys, Inv s' ys := by
  have hpush := h.push
  have hroom := h.room
  simp only [step] at hs
  split at hs
  · cases hs
  next byte head hp =>
    rw [hp] at hpush
    subst hpush
    have htail := h.holds.tail
    have hbound := h.holds.head
    split at hs
    next hfull =>
      -- the head is one slot behind the tail, so all but one of the slots are taken
      cases hs
      refine ⟨xs, { h with push := trivial, refusals := forall_mem_cons.mpr ⟨?_, h.refusals⟩ }⟩
      rw [h.unread]
      unfold SLOTS at *
      omega
    next hfree =>
      cases hs
      refine ⟨xs, { h with push := ⟨rfl, ?_⟩ }⟩
      unfold SLOTS at *
      omega
  next byte head hp =>
    rw [hp] at hpush
    obtain ⟨rfl, hfree⟩ := hpush
    cases hs
    refine ⟨xs, { h with holds := { h.holds with cells := ?_ }, push := ⟨rfl, hfree, update_self ..⟩ }⟩
    exact (window_congr (fun i hi => update_of_ne (h.free hi) _ _)).trans h.holds.cells
  next byte head hp =>
    rw [hp] at hpush
    obtain ⟨rfl, hfree, hbyte⟩ := hpush
    cases hs
    -- the slot holds the byte already: storing the head is what appends it
    have hfill := h.holds.fill (show xs.length + [byte].length ≤ SLOTS from Nat.add_le_add_right h.room 1)
    rw [Ring.fill, Ring.fill, ← hbyte, update_eq_self, hbyte] at hfill
    refine ⟨xs ++ [byte], ?_, ?_, ?_, trivial, h.pop.pushed, h.refusals, h.empties⟩
    · rw [length_append]
      exact hfill
    · rw [h.stream, append_assoc]
    · rw [length_append]
      exact hfree

theorem Inv.step_pop (h : Inv s xs) (hs : s.step .pop = some s') : ∃ ys, Inv s' ys := by
  have hpop := h.pop
  have hroom := h.room
  simp only [step] at hs
  split at hs
  · cases hs
  next head unread hp =>
    rw [hp] at hpop
    obtain ⟨rfl, hle⟩ := hpop
    have hbound := h.holds.head
    split at hs
    next hempty =>
      -- bytes may have come since, but when the head was loaded there were none
      cases hs
      refine ⟨xs, { h with pop := trivial, empties := forall_mem_cons.mpr ⟨?_, h.empties⟩ }⟩
      unfold SLOTS at *
      omega
    next hsome =>
      cases hs
      refine ⟨xs, { h with pop := ⟨rfl, ?_⟩ }⟩
      rintro rfl
      rw [Nat.le_zero.mp hle, Nat.add_zero, Nat.mod_eq_of_lt hbound] at hsome
      exact hsome rfl
  next tail hp =>
    rw [hp] at hpop
    obtain ⟨rfl, hne⟩ := hpop
    cases hs
    -- the slot of the tail is not written before the tail is stored, so this is the first byte
    obtain ⟨byte, ys, rfl⟩ := exists_cons_of_ne_nil hne
    have hcells := h.holds.cells
    rw [length_cons, window_succ _ h.holds.head] at hcells
    exact ⟨_, { h with pop := ⟨rfl, ys, by rw [(cons.inj hcells).1]⟩ }⟩
  next byte tail hp =>
    rw [hp] at hpop
    obtain ⟨rfl, ys, rfl⟩ := hpop
    cases hs
    refine ⟨ys, (h.holds.drain (Nat.le_add_left 1 _)).2, ?_, Nat.le_of_succ_le hroom, h.push.popped, trivial,
      h.refusals, h.empties⟩
    rw [h.stream, append_assoc, singleton_append]

theorem Inv.step {a : Action} (h : Inv s xs) (hs : s.step a = some s') : ∃ ys, Inv s' ys := by
  cases a with
  | push => exact h.step_push hs
  | pop => exact h.step_pop hs
  | beginPush byte =>
    simp only [State.step] at hs
    split at hs
    · cases hs
      exact ⟨xs, { h with push := rfl }⟩
    · cases hs
  | beginPop =>
    simp only [State.step] at hs
    split at hs
    · cases hs
      refine ⟨xs, { h with pop := ⟨?_, h.unread.le⟩ }⟩
      rw [h.unread]
      exact h.holds.tail
    · cases hs

/-- **The ring is a queue** for one producer and one consumer, in whatever order their accesses come. -/
theorem ring_is_queue (h : Run.Steps step (fun _ _ => True) {} s) :
    s.popped <+: s.accepted ∧ (∀ n ∈ s.refusals, n = 256) ∧ (∀ n ∈ s.empties, n = 0) ∧
      ∀ byte head, s.push = .writing byte head → ¬ s.MayRead head := by
  obtain ⟨xs, h⟩ : ∃ xs, Inv s xs := by
    refine Run.Steps.invariant (fun s => ∃ xs, Inv s xs) ?_ h ?_
    · rintro s a s' ⟨xs, hi⟩ - hs
      exact hi.step hs
    · exact ⟨[], ⟨rfl, rfl, by decide, by decide⟩, rfl, by decide, trivial, trivial, nofun, nofun⟩
  refine ⟨⟨xs, h.stream.symm⟩, h.refusals, h.empties, ?_⟩
  rintro byte head hp hread
  have hpush := h.push
  rw [hp] at hpush
  obtain ⟨rfl, -⟩ := hpush
  rcases hread with hread | ⟨i, hi, he⟩
  · have hpop := h.pop
    rw [hread] at hpop
    have hfree := h.free (length_pos_iff.mpr hpop.2)
    rw [Nat.add_zero, Nat.mod_eq_of_lt h.holds.head] at hfree
    exact hfree hpop.1.symm
  · rw [h.unread] at hi
    exact h.free hi he.symm

/-- A `pop` loads the head, a byte arrives, and the `pop` returns nothing; the next one returns the byte. -/
theorem ring_is_queue_late : ∃ s : State, s.popped = [7] ∧ s.empties = [0] ∧ s.popped <+: s.accepted := by
  obtain ⟨s, h, hs⟩ : ∃ s, Run.Steps step (fun _ _ => True) {} s ∧ s.popped = [7] ∧ s.empties = [0] :=
    Run.Reach.exists_exec [.beginPop, .beginPush 7, .push, .push, .push, .pop, .beginPop, .pop, .pop, .pop] rfl
      (by decide)
  exact ⟨s, hs.1, hs.2, (ring_is_queue h).1⟩

end State
end OxideOs.LockFreeRing

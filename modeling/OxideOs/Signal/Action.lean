import Mathlib

/-!
# `Signal.Action` — signal sets, pending signals and what is done about them

The `signal` crate: a set of signals is a word with bit `n - 1` for signal `n`; pending signals are such a set with
the information of each; `determine_action` says what happens to a signal that is taken out of them.

Signal numbers are the `i32`s of the source. A set answers for the numbers `1` to `NSIG` and for no others.
-/

namespace OxideOs.Signal

open List BitVec Bool

/-! ## Signals -/

def NSIG : Nat := 64

def SIGKILL : Int := 9
def SIGSTOP : Int := 19
def SIGCONT : Int := 18

/-- The signal has a place in a set. -/
def InRange (sig : Int) : Prop := 1 ≤ sig ∧ sig ≤ NSIG

instance (sig : Int) : Decidable (InRange sig) := inferInstanceAs (Decidable (_ ∧ _))

/-- The bit of a signal. -/
def place (sig : Int) : Nat := (sig - 1).toNat

inductive DefaultAction where
  | terminate
  | coreDump
  | ignore
  | stop
  | continue
  deriving DecidableEq

def defaultAction (sig : Int) : DefaultAction :=
  if sig ∈ [1, 2, 13, 14, 15, 10, 12, 27, 26, 16, 29, 30] then .terminate
  else if sig ∈ [3, 4, 5, 6, 7, 8, 11, 24, 25, 31] then .coreDump
  else if sig ∈ [17, 23, 28] then .ignore
  else if sig ∈ [SIGSTOP, 20, 21, 22] then .stop
  else if sig = SIGCONT then .continue
  else if sig = SIGKILL then .terminate
  else if 32 ≤ sig ∧ sig ≤ 64 then .terminate
  else .ignore

def canCatch (sig : Int) : Bool := sig ≠ SIGKILL ∧ sig ≠ SIGSTOP

def isValid (sig : Int) : Bool := 1 ≤ sig ∧ sig ≤ 64

/-! ## Sets -/

structure SigSet where
  bits : BitVec 64
  deriving DecidableEq

namespace SigSet

def empty : SigSet := ⟨0⟩

def full : SigSet := ⟨allOnes 64⟩

def add (s : SigSet) (sig : Int) : SigSet := if InRange sig then ⟨s.bits ||| twoPow 64 (place sig)⟩ else s

def remove (s : SigSet) (sig : Int) : SigSet := if InRange sig then ⟨s.bits &&& ~~~twoPow 64 (place sig)⟩ else s

def contains (s : SigSet) (sig : Int) : Bool := if InRange sig then s.bits &&& twoPow 64 (place sig) ≠ 0 else false

def isEmpty (s : SigSet) : Bool := s.bits = 0

def union (s t : SigSet) : SigSet := ⟨s.bits ||| t.bits⟩

def difference (s t : SigSet) : SigSet := ⟨s.bits &&& ~~~t.bits⟩

/-- The lowest signal of the set. -/
def first (s : SigSet) : Option Int := ((range NSIG).find? s.bits.getLsbD).map (fun i : Nat => (i : Int) + 1)

/-- The signals of the set, lowest first. -/
def iter (s : SigSet) : List Int := ((range NSIG).filter s.bits.getLsbD).map (fun i : Nat => (i : Int) + 1)

variable {s t : SigSet} {sig sig' : Int}

theorem contains_iff : s.contains sig = true ↔ InRange sig ∧ s.bits.getLsbD (place sig) = true := by
  unfold contains
  split
  next h =>
    rw [and_twoPow]
    have hplace : place sig < 64 := by
      unfold InRange NSIG at h
      unfold place
      omega
    have hne : ¬ twoPow 64 (place sig) = 0#64 := by
      intro hzero
      have hbit := congrArg (fun b : BitVec 64 => b.getLsbD (place sig)) hzero
      simp [hplace] at hbit
    by_cases hb : s.bits.getLsbD (place sig) = true
    · simp [h, hne]
    · simp [hb]
  next h =>
    simp [h]

theorem place_inj (h : InRange sig) (h' : InRange sig') : place sig = place sig' ↔ sig = sig' := by
  unfold InRange at h h'
  unfold place
  omega

theorem contains_add : (s.add sig).contains sig' = true ↔ s.contains sig' = true ∨ sig' = sig ∧ InRange sig := by
  unfold add
  split
  next h =>
    rw [contains_iff, contains_iff, getLsbD_or, getLsbD_twoPow]
    constructor
    · rintro ⟨hr, hbit⟩
      rcases or_eq_true_iff.mp hbit with hbit | hbit
      · exact .inl ⟨hr, hbit⟩
      · have hplace : place sig = place sig' := by simpa using (and_eq_true_iff.mp hbit).2
        exact .inr ⟨((place_inj h hr).mp hplace).symm, h⟩
    rintro (⟨hr, hbit⟩ | ⟨rfl, _⟩)
    · exact ⟨hr, by rw [hbit, Bool.true_or]⟩
    have hlt : place sig' < 64 := by
      unfold InRange NSIG at h
      unfold place
      omega
    exact ⟨h, by simp [hlt]⟩
  next h =>
    simp [h]

theorem contains_remove : (s.remove sig).contains sig' = true ↔ s.contains sig' = true ∧ sig' ≠ sig := by
  unfold remove
  split
  next h =>
    rw [contains_iff, contains_iff, getLsbD_and, getLsbD_not, getLsbD_twoPow]
    constructor
    · rintro ⟨hr, hbit⟩
      obtain ⟨hkeep, hmask⟩ := and_eq_true_iff.mp hbit
      refine ⟨⟨hr, hkeep⟩, ?_⟩
      rintro rfl
      simp at hmask
    rintro ⟨⟨hr, hbit⟩, hne⟩
    have hplace : place sig ≠ place sig' := fun heq => hne ((place_inj h hr).mp heq).symm
    have hlt : place sig' < 64 := by
      unfold InRange NSIG at hr
      unfold place
      omega
    exact ⟨hr, by simp [hbit, hplace, hlt]⟩
  next h =>
    constructor
    · intro hin
      refine ⟨hin, ?_⟩
      rintro rfl
      exact h (contains_iff.mp hin).1
    · exact fun hin => hin.1

theorem contains_union : (s.union t).contains sig = true ↔ s.contains sig = true ∨ t.contains sig = true := by
  rw [contains_iff, contains_iff, contains_iff, union, getLsbD_or, or_eq_true]
  tauto

theorem contains_difference :
    (s.difference t).contains sig = true ↔ s.contains sig = true ∧ ¬ t.contains sig = true := by
  rw [contains_iff, contains_iff, contains_iff, difference, getLsbD_and, getLsbD_not, and_eq_true]
  constructor
  · rintro ⟨hr, hs, ht⟩
    refine ⟨⟨hr, hs⟩, ?_⟩
    rintro ⟨_, ht'⟩
    rw [ht'] at ht
    simp at ht
  rintro ⟨⟨hr, hs⟩, ht⟩
  have hlt : place sig < 64 := by
    unfold InRange NSIG at hr
    unfold place
    omega
  have hclear : t.bits.getLsbD (place sig) = false := by
    rw [← not_eq_true]
    exact fun h => ht ⟨hr, h⟩
  exact ⟨hr, hs, by rw [hclear, decide_eq_true hlt]; rfl⟩

theorem not_contains_empty : ¬ empty.contains sig = true := by
  rw [contains_iff]
  rintro ⟨_, h⟩
  exact absurd h (by simp [empty])

/-- The iteration runs over the signals of the set. -/
theorem mem_iter : sig ∈ s.iter ↔ s.contains sig = true := by
  unfold iter
  rw [contains_iff, mem_map]
  constructor
  · rintro ⟨i, hi, rfl⟩
    obtain ⟨hlt, hbit⟩ := mem_filter.mp hi
    have hplace : place ((i : Int) + 1) = i := by
      unfold place
      omega
    have hlt' := mem_range.mp hlt
    rw [hplace]
    exact ⟨⟨by omega, by omega⟩, hbit⟩
  · rintro ⟨⟨_, _⟩, hbit⟩
    refine ⟨place sig, mem_filter.mpr ⟨mem_range.mpr ?_, hbit⟩, ?_⟩ <;>
    · unfold place
      omega

/-- The lowest signal of a set is in it, and none below it is. -/
theorem first_eq_some (h : s.first = some sig) :
    s.contains sig = true ∧ ∀ sig', s.contains sig' = true → sig ≤ sig' := by
  obtain ⟨i, hfind, rfl⟩ := Option.map_eq_some_iff.mp h
  have hplace : place ((i : Int) + 1) = i := by
    unfold place
    omega
  obtain ⟨hbit, as, bs, hsplit, hnone⟩ := find?_eq_some_iff_append.mp hfind
  have hmem : i ∈ range NSIG := mem_of_find?_eq_some hfind
  have hlt := mem_range.mp hmem
  refine ⟨contains_iff.mpr ⟨⟨by omega, by omega⟩, by rw [hplace]; exact hbit⟩, ?_⟩
  intro sig' hin
  obtain ⟨⟨_, _⟩, hbit'⟩ := contains_iff.mp hin
  by_contra hbelow
  -- A lower bit comes earlier in the range, where the search found none set.
  have hlower : place sig' < i := by
    unfold place
    omega
  have hin' : place sig' ∈ as := by
    have hmem' : place sig' ∈ range NSIG := mem_range.mpr (by omega)
    rw [hsplit, mem_append, mem_cons] at hmem'
    have hpair : (range NSIG).Pairwise (· < ·) := pairwise_lt_range
    rw [hsplit, pairwise_append, pairwise_cons] at hpair
    rcases hmem' with hmem' | hmem' | hmem'
    · exact hmem'
    · omega
    · exact absurd (hpair.2.1.1 _ hmem') (by omega)
  have hclear := hnone _ hin'
  rw [hbit'] at hclear
  cases hclear

theorem first_isSome (h : s.contains sig = true) : ∃ sig', s.first = some sig' := by
  obtain ⟨⟨_, _⟩, hbit⟩ := contains_iff.mp h
  cases hfirst : s.first with
  | some sig' => exact ⟨sig', rfl⟩
  | none =>
    have hnone := find?_eq_none.mp (Option.map_eq_none_iff.mp hfirst)
    have hmem : place sig ∈ range NSIG := mem_range.mpr (by unfold place; omega)
    exact absurd hbit (hnone _ hmem)

/-- **Neither `SIGKILL` nor `SIGSTOP` is in the set.** -/
def Unblocking (s : SigSet) : Prop := ¬ s.contains SIGKILL = true ∧ ¬ s.contains SIGSTOP = true

instance (s : SigSet) : Decidable s.Unblocking := inferInstanceAs (Decidable (_ ∧ _))

theorem Unblocking.empty : SigSet.empty.Unblocking := ⟨not_contains_empty, not_contains_empty⟩

/-- Removing both makes a set harmless. -/
theorem Unblocking.remove_both (s : SigSet) : ((s.remove SIGKILL).remove SIGSTOP).Unblocking := by
  constructor
  · intro h
    exact (contains_remove.mp (contains_remove.mp h).1).2 rfl
  · intro h
    exact (contains_remove.mp h).2 rfl

theorem Unblocking.union (hs : s.Unblocking) (ht : t.Unblocking) : (s.union t).Unblocking := by
  constructor
  · intro h
    exact (contains_union.mp h).elim hs.1 ht.1
  · intro h
    exact (contains_union.mp h).elim hs.2 ht.2

theorem Unblocking.add (hs : s.Unblocking) (hkill : sig ≠ SIGKILL) (hstop : sig ≠ SIGSTOP) :
    (s.add sig).Unblocking := by
  constructor
  · intro h
    rcases contains_add.mp h with h | ⟨h, _⟩
    · exact hs.1 h
    · exact hkill h.symm
  intro h
  rcases contains_add.mp h with h | ⟨h, _⟩
  · exact hs.2 h
  · exact hstop h.symm

end SigSet

/-! ## Actions -/

inductive SigHandler where
  | default
  | ignore
  | handler (addr : BitVec 64)
  deriving DecidableEq

def SigHandler.fromRaw (handler : BitVec 64) : SigHandler :=
  if handler = 0 then .default else if handler = 1 then .ignore else .handler handler

/-- Don't block signal in handler -/
def SA_NODEFER : BitVec 64 := 0x40000000

/-- The flags that `SigFlags` names; `from_bits_truncate` drops the others. -/
def SigFlags.all : BitVec 64 := 0xDC000007

structure SigAction where
  saHandler : BitVec 64 := 0
  saFlags : BitVec 64 := 0
  saRestorer : BitVec 64 := 0
  saMask : SigSet := .empty
  deriving DecidableEq

def SigAction.handler (a : SigAction) : SigHandler := SigHandler.fromRaw a.saHandler

def SigAction.flags (a : SigAction) : BitVec 64 := a.saFlags &&& SigFlags.all

/-- Signal info structure (for SA_SIGINFO handlers). -/
structure SigInfo where
  siSigno : BitVec 32 := 0
  siErrno : BitVec 32 := 0
  siCode : BitVec 32 := 0
  siPid : BitVec 32 := 0
  siUid : BitVec 32 := 0
  siStatus : BitVec 32 := 0
  siUtime : BitVec 64 := 0
  siStime : BitVec 64 := 0
  siValue : BitVec 64 := 0
  siAddr : BitVec 64 := 0
  deriving DecidableEq

/-! ## Pending signals -/

structure PendingSignal where
  signo : Int
  info : Option SigInfo
  deriving DecidableEq

structure PendingSignals where
  pending : SigSet := .empty
  info : Nat → Option SigInfo := fun _ => none

namespace PendingSignals

def add (p : PendingSignals) (sig : Int) (info : Option SigInfo) : PendingSignals :=
  if InRange sig then ⟨p.pending.add sig, Function.update p.info (place sig) info⟩ else p

def remove (p : PendingSignals) (sig : Int) : Option SigInfo × PendingSignals :=
  if InRange sig then (p.info (place sig), ⟨p.pending.remove sig, Function.update p.info (place sig) none⟩)
  else (none, p)

def deliverable (p : PendingSignals) (blocked : SigSet) : SigSet := p.pending.difference blocked

def nextDeliverable (p : PendingSignals) (blocked : SigSet) : Option Int := (p.deliverable blocked).first

def dequeue (p : PendingSignals) (blocked : SigSet) : Option (PendingSignal × PendingSignals) :=
  match p.nextDeliverable blocked with
  | some sig => some (⟨sig, (p.remove sig).1⟩, (p.remove sig).2)
  | none => none

def hasDeliverable (p : PendingSignals) (blocked : SigSet) : Bool := !(p.deliverable blocked).isEmpty

end PendingSignals

/-! ## Delivery -/

inductive SignalResult where
  | terminate
  | coreDump
  | stop
  | continue
  | ignore
  | userHandler (handler : BitVec 64) (signo : Int) (info : Option SigInfo) (flags : BitVec 64) (handlerMask : SigSet)
  deriving DecidableEq

/-- Determine what action to take for a pending signal. -/
def determineAction (signal : PendingSignal) (action : SigAction) (currentMask : SigSet) : SignalResult :=
  if signal.signo = SIGKILL then .terminate
  else if signal.signo = SIGSTOP then .stop
  else
    match action.handler with
    | .ignore => .ignore
    | .default =>
      match defaultAction signal.signo with
      | .terminate => .terminate
      | .coreDump => .coreDump
      | .ignore => .ignore
      | .stop => .stop
      | .continue => .continue
    | .handler addr =>
      let handlerMask := currentMask.union action.saMask
      let handlerMask := if action.flags &&& SA_NODEFER = SA_NODEFER then handlerMask else handlerMask.add signal.signo
      .userHandler addr signal.signo signal.info action.flags handlerMask

/-- Whether one deliverable signal interrupts a blocked process. -/
def interrupts (sigactions : Nat → SigAction) (sig : Int) : Bool :=
  if InRange sig then
    if sig = SIGKILL ∨ sig = SIGSTOP then true
    else
      match (sigactions (place sig)).handler with
      | .ignore => false
      | .default => defaultAction sig ≠ .ignore
      | .handler _ => true
  else false

/-- Check if a process should be interrupted due to signals. -/
def shouldInterruptForSignal (pending blocked : SigSet) (sigactions : Nat → SigAction) : Bool :=
  (pending.difference blocked).iter.any (interrupts sigactions)

/-! ## What the mask of a handler can hold -/

variable {signal : PendingSignal} {action : SigAction} {currentMask handlerMask : SigSet}
  {handler flags : BitVec 64} {signo : Int} {info : Option SigInfo}

section

variable (h : determineAction signal action currentMask = .userHandler handler signo info flags handlerMask)
include h

theorem determineAction_userHandler :
    signal.signo ≠ SIGKILL ∧ signal.signo ≠ SIGSTOP ∧ action.handler = .handler handler ∧ signo = signal.signo ∧
      info = signal.info ∧ flags = action.flags ∧
      handlerMask = (if action.flags &&& SA_NODEFER = SA_NODEFER then currentMask.union action.saMask
        else (currentMask.union action.saMask).add signal.signo) := by
  unfold determineAction at h
  split at h
  · cases h
  split at h
  · cases h
  rename_i hkill hstop
  split at h
  · cases h
  · split at h <;> cases h
  rename_i addr haddr
  cases h
  exact ⟨hkill, hstop, haddr, rfl, rfl, rfl, rfl⟩

/-- The mask of a handler is harmless when the mask before and the action's are. -/
theorem handlerMask_unblocking (hcurrent : currentMask.Unblocking) (haction : action.saMask.Unblocking) :
    handlerMask.Unblocking := by
  obtain ⟨hkill, hstop, -, -, -, -, rfl⟩ := determineAction_userHandler h
  have hunion := hcurrent.union haction
  split
  · exact hunion
  · exact hunion.add hkill hstop

end

/-! ## A pending `SIGKILL` -/

variable {p : PendingSignals} {blocked : SigSet}

theorem sigkill_deliverable (hpending : p.pending.contains SIGKILL = true) (hmask : blocked.Unblocking) :
    (p.deliverable blocked).contains SIGKILL = true := SigSet.contains_difference.mpr ⟨hpending, hmask.1⟩

/-- `dequeue` finds a signal, and `SIGKILL` is that signal or is still there. -/
theorem dequeue_sigkill (hpending : p.pending.contains SIGKILL = true) (hmask : blocked.Unblocking) :
    ∃ signal p', p.dequeue blocked = some (signal, p') ∧ signal.signo ≤ SIGKILL ∧
      (signal.signo = SIGKILL ∨ p'.pending.contains SIGKILL = true) := by
  have hin := sigkill_deliverable hpending hmask
  obtain ⟨sig, hfirst⟩ := SigSet.first_isSome hin
  obtain ⟨hmem, hleast⟩ := SigSet.first_eq_some hfirst
  have hrange : InRange sig := (SigSet.contains_iff.mp hmem).1
  unfold PendingSignals.dequeue PendingSignals.nextDeliverable
  rw [hfirst]
  refine ⟨_, _, rfl, hleast _ hin, ?_⟩
  by_cases hsig : sig = SIGKILL
  · exact .inl hsig
  right
  unfold PendingSignals.remove
  rw [if_pos hrange]
  exact SigSet.contains_remove.mpr ⟨hpending, fun h => hsig h.symm⟩

/-- A blocked process is interrupted. -/
theorem shouldInterruptForSignal_sigkill (sigactions : Nat → SigAction)
    (hpending : p.pending.contains SIGKILL = true) (hmask : blocked.Unblocking) :
    shouldInterruptForSignal p.pending blocked sigactions = true :=
  any_eq_true.mpr ⟨SIGKILL, SigSet.mem_iter.mpr (sigkill_deliverable hpending hmask), rfl⟩

end OxideOs.Signal

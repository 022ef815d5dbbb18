import OxideOs.Signal.Frame

/-!
# `Signal.Sigreturn` — one slot for every task

`sys_sigreturn` leaves its frame in a slot, and the end of a system call takes what the slot holds. There is one slot
for all tasks on all CPUs, and every system call looks into it. A task is in user mode, in `sys_sigreturn` with the
frame it has read, or on its way out of a system call; `set_sigreturn_frame` and `take_sigreturn_frame` are single
steps, and the steps of all tasks may come in any order.

The state remembers which task stored the frame in the slot, the frames every task passed and was given, and what
each return looked like; the code has none of these.
-/

namespace OxideOs.Signal

open List Checked Except Run Function

/-! ## The machine -/

inductive Phase where
  | user
  /-- In `sys_sigreturn`, with the frame read. -/
  | storing (regs : Regs) (frame : SavedContext)
  /-- On the way out of a system call; `own` is the frame the task left in the slot, if it was a `sigreturn`. -/
  | returning (regs : Regs) (retval : BitVec 64) (own : Option SavedContext)

/-- A return from a system call. -/
structure Return where
  task : Nat
  /-- The registers with which the call was made. -/
  caller : Regs
  own : Option SavedContext
  applied : Option SavedContext
  /-- What the task resumes with when a frame was applied. -/
  resumed : Option Regs

structure SlotState where
  /-- `SIGRETURN_SLOT`, with the task that stored the frame. -/
  slot : Option (Nat × SavedContext) := none
  phase : Nat → Phase := fun _ => .user
  passed : Nat → List SavedContext := fun _ => []
  applied : Nat → List SavedContext := fun _ => []
  returns : List Return := []

open SlotState

inductive SlotOp where
  /-- A task makes the system call `sigreturn`, with these registers and this memory. -/
  | sigreturn (task : Nat) (regs : Regs) (mem : Mem)
  /-- A task makes another system call, with this result. -/
  | syscall (task : Nat) (regs : Regs) (retval : BitVec 64)
  | setFrame (task : Nat)
  | takeFrame (task : Nat)

def SlotState.step (s : SlotState) : SlotOp → Option SlotState
  | .sigreturn t regs mem =>
    match s.phase t, sysSigreturn regs.rsp.toNat mem with
    | .user, .ok (_, some frame) => some { s with phase := update s.phase t (.storing regs frame) }
    | .user, .ok (ret, none) => some { s with phase := update s.phase t (.returning regs (BitVec.ofInt 64 ret) none) }
    | _, _ => none
  | .syscall t regs retval =>
    match s.phase t with
    | .user => some { s with phase := update s.phase t (.returning regs retval none) }
    | _ => none
  | .setFrame t =>
    match s.phase t with
    | .storing regs frame =>
      some
        { s with
          slot := some (t, frame)
          phase := update s.phase t (.returning regs 0 (some frame))
          passed := update s.passed t (s.passed t ++ [frame]) }
    | _ => none
  | .takeFrame t =>
    match s.phase t, s.slot with
    | .returning regs retval own, some (_, frame) =>
      some
        { s with
          slot := none
          phase := update s.phase t .user
          applied := update s.applied t (s.applied t ++ [frame])
          returns := s.returns ++ [⟨t, regs, own, some frame, some (sysretExit regs retval frame.regs)⟩] }
    | .returning regs _ own, none =>
      some
        { s with
          phase := update s.phase t .user
          returns := s.returns ++ [⟨t, regs, own, none, none⟩] }
    | _, _ => none

/-! ## The condition -/

/-- The frame of a task that it has passed and not been given yet. -/
def Phase.inFlight : Phase → List SavedContext
  | .returning _ _ (some frame) => [frame]
  | _ => []

/-- **Nobody comes between.** While a task is between its `set_sigreturn_frame` and the check at the end of its system
    call, no other task stores a frame or makes that check. -/
def Undisturbed (s : SlotState) : SlotOp → Prop
  | .setFrame t | .takeFrame t => ∀ t', t' ≠ t → (s.phase t').inFlight = []
  | .sigreturn _ _ _ | .syscall _ _ _ => True

/-! ## What a return grants -/

/-- The flags of a task in user mode: interrupts on, `IOPL` zero and no nested task. -/
structure UserFlags (rflags : BitVec 64) : Prop where
  interrupts : rflags.getLsbD 9 = true
  iopl : rflags.getLsbD 12 = false ∧ rflags.getLsbD 13 = false
  nestedTask : rflags.getLsbD 14 = false

/-- What a task may resume with. -/
structure Unprivileged (regs : Regs) : Prop where
  rip : regs.rip.toNat < 0x800000000000
  interrupts : regs.rflags.getLsbD 9 = true
  iopl : regs.rflags.getLsbD 12 = false ∧ regs.rflags.getLsbD 13 = false
  nestedTask : regs.rflags.getLsbD 14 = false
  virtual : regs.rflags.getLsbD 17 = false

/-- The frame that was passed points to user code, and the call was made with the flags of user code. -/
def Return.FromUser (r : Return) : Prop :=
  (∀ frame ∈ r.own, frame.regs.rip.toNat < 0x800000000000) ∧ UserFlags r.caller.rflags

/-! ## The invariant -/

structure SlotOk (s : SlotState) : Prop where
  /-- The slot holds the frame that its task is waiting for. -/
  slot : ∀ t frame, s.slot = some (t, frame) ↔ (s.phase t).inFlight = [frame]
  exact : ∀ t, s.passed t = s.applied t ++ (s.phase t).inFlight
  returns : ∀ r ∈ s.returns, r.applied = r.own ∧ ∀ regs ∈ r.resumed, Unprivileged regs ↔ r.FromUser

variable {t : Nat} {mem : Mem} {regs : Regs}

theorem sysretFlags_getLsbD (flags : BitVec 64) (i : Nat) :
    (sysretFlags flags).getLsbD i = (flags.getLsbD i && (0x3C7FD7 : BitVec 64).getLsbD i
      || (2 : BitVec 64).getLsbD i) := by
  unfold sysretFlags
  rw [BitVec.getLsbD_or, BitVec.getLsbD_and]

/-- **What `sysretq` makes of a frame.** It takes the flags of the call, and no flag outside a mask. -/
theorem sysretExit_unprivileged_iff {user ctx : Regs} {retval : BitVec 64} :
    Unprivileged (sysretExit user retval ctx) ↔ ctx.rip.toNat < 0x800000000000 ∧ UserFlags user.rflags := by
  have hkept : ∀ i, (0x3C7FD7 : BitVec 64).getLsbD i = true → (2 : BitVec 64).getLsbD i = false →
      (sysretExit user retval ctx).rflags.getLsbD i = user.rflags.getLsbD i := by
    intro i hmask htwo
    rw [sysretExit, sysretFlags_getLsbD, hmask, htwo, Bool.and_true, Bool.or_false]
  have hvirtual : (sysretExit user retval ctx).rflags.getLsbD 17 = false := by
    rw [sysretExit, sysretFlags_getLsbD]
    simp
  constructor
  · rintro ⟨hrip, hint, ⟨hiopl, hiopl'⟩, hnt, -⟩
    rw [hkept _ (by decide) (by decide)] at hint hiopl hiopl' hnt
    exact ⟨hrip, hint, ⟨hiopl, hiopl'⟩, hnt⟩
  · rintro ⟨hrip, hint, ⟨hiopl, hiopl'⟩, hnt⟩
    rw [← hkept _ (by decide) (by decide)] at hint hiopl hiopl' hnt
    exact ⟨hrip, hint, ⟨hiopl, hiopl'⟩, hnt, hvirtual⟩

variable {s s' : SlotState}

/-- A step of a task with nothing on its way, to a phase with nothing on its way. -/
theorem SlotOk.update (h : SlotOk s) {p : Phase} (hold : (s.phase t).inFlight = [])
    (hnew : p.inFlight = []) : SlotOk { s with phase := Function.update s.phase t p } := by
  have hflight : ∀ t', ((Function.update s.phase t p) t').inFlight = (s.phase t').inFlight := by
    intro t'
    by_cases ht : t' = t
    · subst ht
      rw [update_self, hnew, hold]
    · rw [update_of_ne ht]
  refine ⟨?_, ?_, h.returns⟩
  · intro t' frame
    rw [hflight]
    exact h.slot t' frame
  intro t'
  rw [hflight]
  exact h.exact t'

section

variable (h : SlotOk s)
include h

theorem SlotOk.sigreturn (hstep : s.step (.sigreturn t regs mem) = some s') : SlotOk s' := by
  simp only [step] at hstep
  split at hstep
  next ret frame hphase hcall =>
    cases hstep
    exact h.update (by rw [hphase]; rfl) rfl
  next ret hphase hcall =>
    cases hstep
    exact h.update (by rw [hphase]; rfl) rfl
  · cases hstep

theorem SlotOk.syscall {retval : BitVec 64} (hstep : s.step (.syscall t regs retval) = some s') : SlotOk s' := by
  simp only [step] at hstep
  split at hstep
  next hphase =>
    cases hstep
    exact h.update (by rw [hphase]; rfl) rfl
  · cases hstep

/-- A frame in the slot is that of the one task that is waiting for its frame. -/
theorem SlotOk.owner (hothers : ∀ t', t' ≠ t → (s.phase t').inFlight = []) {t' : Nat} {frame : SavedContext}
    (hslot : s.slot = some (t', frame)) : t' = t := by
  by_contra hne
  have hflight := (h.slot t' frame).mp hslot
  rw [hothers t' hne] at hflight
  cases hflight

/-- Storing while no other task has a frame on its way: the slot is empty. -/
theorem SlotOk.setFrame (hothers : ∀ t', t' ≠ t → (s.phase t').inFlight = [])
    (hstep : s.step (.setFrame t) = some s') : SlotOk s' := by
  simp only [step] at hstep
  split at hstep
  next regs frame hphase =>
    cases hstep
    refine ⟨?_, ?_, h.returns⟩
    · intro t' frame'
      by_cases ht : t' = t
      · subst ht
        simp [Phase.inFlight]
      · simp only [update_of_ne ht, Option.some.injEq, Prod.mk.injEq, hothers t' ht]
        exact ⟨fun hslot => absurd hslot.1.symm ht, nofun⟩
    · intro t'
      by_cases ht : t' = t
      · subst ht
        have hexact := h.exact t'
        rw [hphase] at hexact
        simp [hexact, Phase.inFlight]
      · simp only [update_of_ne ht]
        exact h.exact t'
  · cases hstep

/-- Taking what the task itself has stored, or nothing when it has stored nothing. -/
theorem SlotOk.takeFrame (hothers : ∀ t', t' ≠ t → (s.phase t').inFlight = [])
    (hstep : s.step (.takeFrame t) = some s') : SlotOk s' := by
  simp only [step] at hstep
  split at hstep
  next regs retval own t0 frame hphase hslot =>
    cases hstep
    have ht0 := h.owner hothers hslot
    subst ht0
    have hflight := (h.slot t0 frame).mp hslot
    have hmine : own = some frame := by
      rw [hphase] at hflight
      cases own with
      | none => cases hflight
      | some frame' =>
        cases hflight
        rfl
    subst hmine
    refine ⟨?_, ?_, ?_⟩
    · intro t' frame'
      by_cases ht : t' = t0
      · subst ht
        simp [Phase.inFlight]
      · simp [update_of_ne ht, hothers t' ht]
    · intro t'
      by_cases ht : t' = t0
      · subst ht
        have hexact := h.exact t'
        rw [hflight] at hexact
        simp [hexact, Phase.inFlight]
      · simp only [update_of_ne ht]
        exact h.exact t'
    · refine forall_mem_append.mpr ⟨h.returns, forall_mem_singleton.mpr ?_⟩
      refine ⟨rfl, ?_⟩
      intro resumed hresumed
      cases hresumed
      refine sysretExit_unprivileged_iff.trans (and_congr_left' ⟨fun hrip frame' hframe => ?_, fun hrip => ?_⟩)
      · cases hframe
        exact hrip
      · exact hrip frame rfl
  next regs retval own hphase hslot =>
    cases hstep
    have hmine : own = none := by
      cases own with
      | none => rfl
      | some frame =>
        have hslot' := (h.slot t frame).mpr (by rw [hphase]; rfl)
        rw [hslot] at hslot'
        cases hslot'
    subst hmine
    have hupdate := h.update (p := .user) (by rw [hphase]; rfl) rfl
    refine ⟨hupdate.slot, hupdate.exact, ?_⟩
    exact forall_mem_append.mpr ⟨h.returns, forall_mem_singleton.mpr ⟨rfl, nofun⟩⟩
  · cases hstep

/-- **One step of any task.** -/
theorem SlotOk.step {op : SlotOp} (hok : Undisturbed s op) (hstep : s.step op = some s') : SlotOk s' := by
  cases op with
  | sigreturn t regs mem => exact h.sigreturn hstep
  | syscall t regs retval => exact h.syscall hstep
  | setFrame t => exact h.setFrame hok hstep
  | takeFrame t => exact h.takeFrame hok hstep

end

/-! ## Main result -/

/-- All tasks are in user mode and the slot is empty. -/
def SlotState.Idle (s : SlotState) : Prop :=
  s.slot = none ∧ (∀ t, s.phase t = .user ∧ s.passed t = [] ∧ s.applied t = []) ∧ s.returns = []

theorem SlotState.Idle.slotOk (h : s.Idle) : SlotOk s := by
  obtain ⟨hslot, htasks, hreturns⟩ := h
  refine ⟨?_, ?_, ?_⟩
  · intro t frame
    rw [hslot, (htasks t).1]
    exact ⟨nofun, nofun⟩
  · intro t
    rw [(htasks t).1, (htasks t).2.1, (htasks t).2.2]
    rfl
  · rw [hreturns]
    exact nofun

/-- **A `sigreturn` is its caller's own.** In every run in which nobody comes between a task and its frame, every
    return of a system call applies the frame that the same task passed, and none where it passed none; the frames
    a task passed are those it was given, in order and once each, with at most one still on its way; and a task
    resumes as user code without privileges exactly when its frame points to user code and it made the call with the
    flags of user code. -/
theorem sigreturn_is_its_callers (h : Run.Reach SlotState.step Undisturbed SlotState.Idle s) :
    (∀ r ∈ s.returns, r.applied = r.own ∧ ∀ regs ∈ r.resumed, Unprivileged regs ↔ r.FromUser) ∧
      ∀ t, s.passed t = s.applied t ++ (s.phase t).inFlight := by
  have hok : SlotOk s := h.invariant SlotOk (fun _ => Idle.slotOk) (fun _ _ _ h => h.step)
  exact ⟨hok.returns, hok.exact⟩

/-- Registers of user code with a stack. -/
def caller : Regs := { rip := 0x401000, rsp := 0x2000, rflags := 0x202 }

/-- The frame that lies below the stack of a caller, in a memory of one byte. -/
def frameOf (byte : Byte) : SavedContext := readFrame (fun _ => byte) (caller.rsp.toNat - 8)

/-- Two tasks are in `sys_sigreturn` at a time and return one after the other, each with its own frame. The frame of
    the first points to user code, and that of the second does not. -/
theorem sigreturn_is_its_callers_two : ∃ s : SlotState, Run.Reach SlotState.step Undisturbed SlotState.Idle s ∧
    s.returns.map (fun r => (r.task, r.applied)) = [(1, some (frameOf 0)), (2, some (frameOf 0xFF))] ∧
    (∀ r ∈ s.returns, r.applied = r.own) ∧ s.passed 1 = [frameOf 0] ∧ s.applied 1 = [frameOf 0] ∧
    ∃ r ∈ s.returns, ∃ regs ∈ r.resumed, Unprivileged regs := by
  have hstart : Reach step Undisturbed Idle {} := .start ⟨rfl, fun _ => ⟨rfl, rfl, rfl⟩, rfl⟩
  have hone := Reach.next (a := SlotOp.sigreturn 1 caller (fun _ => 0)) hstart trivial rfl
  have htwo := Reach.next (a := SlotOp.sigreturn 2 caller (fun _ => 0xFF)) hone trivial rfl
  have hset := Reach.next (a := SlotOp.setFrame 1) htwo
    (fun t' ht => by by_cases h2 : t' = 2 <;> simp [Function.update, ht, h2, Phase.inFlight]) rfl
  have htaken := Reach.next (a := SlotOp.takeFrame 1) hset
    (fun t' ht => by by_cases h2 : t' = 2 <;> simp [Function.update, ht, h2, Phase.inFlight]) rfl
  have hset' := Reach.next (a := SlotOp.setFrame 2) htaken
    (fun t' ht => by by_cases h1 : t' = 1 <;> simp [Function.update, ht, h1, Phase.inFlight]) rfl
  have htaken' := Reach.next (a := SlotOp.takeFrame 2) hset'
    (fun t' ht => by by_cases h1 : t' = 1 <;> simp [Function.update, ht, h1, Phase.inFlight]) rfl
  obtain ⟨hreturns, hpassed⟩ := sigreturn_is_its_callers htaken'
  refine ⟨_, htaken', rfl, fun r hr => (hreturns r hr).1, rfl, rfl, _, mem_cons_self, _, rfl, ?_⟩
  refine ((hreturns _ mem_cons_self).2 _ rfl).mpr ⟨fun frame hframe => ?_, by decide, by decide, by decide⟩
  cases hframe
  decide

/-- **A frame goes to another task.** Task 1 stores its frame; before it is out of the kernel, another system call
    of task 2 ends and takes it. Task 2 resumes where task 1's frame points, with an address in the kernel's half,
    and task 1 gets nothing. -/
theorem frame_goes_to_another_task :
    ∃ s : SlotState, Run.Reach SlotState.step (fun _ _ => True) SlotState.Idle s ∧
      ∃ frame resumed, s.returns = [⟨2, caller, none, some frame, some resumed⟩, ⟨1, caller, some frame, none, none⟩] ∧
        resumed.rip = 0xFFFFFFFFFFFFFFFF := by
  have hstart : Reach step (fun _ _ => True) Idle {} := .start ⟨rfl, fun _ => ⟨rfl, rfl, rfl⟩, rfl⟩
  have hcalled := Reach.next (a := SlotOp.sigreturn 1 caller (fun _ => 0xFF)) hstart trivial rfl
  have hset := Reach.next (a := SlotOp.setFrame 1) hcalled trivial rfl
  have hother := Reach.next (a := SlotOp.syscall 2 caller 0) hset trivial rfl
  have hstolen := Reach.next (a := SlotOp.takeFrame 2) hother trivial rfl
  have hempty := Reach.next (a := SlotOp.takeFrame 1) hstolen trivial rfl
  exact ⟨_, hempty, _, _, rfl, by decide⟩

end OxideOs.Signal

import OxideOs.Lib.Run
import OxideOs.Signal.Action

/-!
# `Signal.Mask` — the life of a signal mask

Every path that replaces the mask of a process: `sys_sigprocmask`, `sys_sigsuspend` on its way in and out, the mask
swaps of `ppoll` and its kin, the delivery of a handled signal (by the timer or on the way out of a system call), the
restoration by `sys_sigreturn`, and `fork`. All but one strip `SIGKILL` and `SIGSTOP` from what the user gave; the
mask of a handler is the current mask joined with the action's `sa_mask`, taken as `sys_sigaction` was given it.
-/

namespace OxideOs.Signal

open List Run

/-! ## The calls -/

def eIntr : Int := -4
def eFault : Int := -14
def eInval : Int := -22

/-- The signal state of a process. -/
structure ProcessMeta where
  pendingSignals : PendingSignals := {}
  signalMask : SigSet := .empty
  sigactions : Nat → SigAction := fun _ => {}

/-- A user pointer that the calls accept: not in the null page and below the kernel's half. -/
def userPtr (ptr : Nat) : Bool := 0x1000 ≤ ptr ∧ ptr < 0x800000000000

/-- The mask with `SIGKILL` and `SIGSTOP` removed. -/
def sanitize (mask : SigSet) : SigSet := (mask.remove SIGKILL).remove SIGSTOP

inductive SigHow where
  | block
  | unblock
  | setMask

def SigHow.fromI32 (v : Int) : Option SigHow :=
  if v = 0 then some .block else if v = 1 then some .unblock else if v = 2 then some .setMask else none

namespace ProcessMeta

def hasPendingSignals (m : ProcessMeta) : Bool := m.pendingSignals.hasDeliverable m.signalMask

def sendSignal (m : ProcessMeta) (sig : Int) (info : Option SigInfo) : ProcessMeta :=
  { m with pendingSignals := m.pendingSignals.add sig info }

def setSigaction (m : ProcessMeta) (sig : Int) (action : SigAction) : ProcessMeta :=
  if InRange sig then { m with sigactions := Function.update m.sigactions (place sig) action } else m

/-- `action` is what lies at `actPtr`. -/
def sysSigaction (m : ProcessMeta) (sig : Int) (actPtr oldactPtr : Nat) (action : SigAction) : Int × ProcessMeta :=
  if !canCatch sig then (eInval, m)
  else if !isValid sig then (eInval, m)
  else if oldactPtr ≠ 0 ∧ !userPtr oldactPtr then (eFault, m)
  else if actPtr = 0 then (0, m)
  else if !userPtr actPtr then (eFault, m)
  else (0, m.setSigaction sig action)

/-- `newSet` is what lies at `setPtr`. -/
def sysSigprocmask (m : ProcessMeta) (how : Int) (setPtr oldsetPtr : Nat) (newSet : SigSet) : Int × ProcessMeta :=
  if oldsetPtr ≠ 0 ∧ !userPtr oldsetPtr then (eFault, m)
  else if setPtr = 0 then (0, m)
  else if !userPtr setPtr then (eFault, m)
  else
    match SigHow.fromI32 how with
    | none => (eInval, m)
    | some .block => (0, { m with signalMask := sanitize (m.signalMask.union newSet) })
    | some .unblock => (0, { m with signalMask := sanitize (m.signalMask.difference newSet) })
    | some .setMask => (0, { m with signalMask := sanitize newSet })

/-- `swap_signal_mask`, and the way into `sys_sigsuspend`: the old mask, and the process with the new one. -/
def swapSignalMask (m : ProcessMeta) (mask : SigSet) : SigSet × ProcessMeta :=
  (m.signalMask, { m with signalMask := sanitize mask })

def setSignalMask (m : ProcessMeta) (mask : SigSet) : ProcessMeta := { m with signalMask := sanitize mask }

/-- The action on a signal that was taken out of the pending ones. -/
def actionOf (m : ProcessMeta) (signo : Int) : SigAction := if InRange signo then m.sigactions (place signo) else {}

/-- The common part of the timer's and the system call's delivery: a signal is taken, and a handler runs under its
    own mask. The frame and the registers are those of `Signal.Frame`. -/
def deliver (m : ProcessMeta) : Option (SignalResult × ProcessMeta) :=
  if m.hasPendingSignals then
    match m.pendingSignals.dequeue m.signalMask with
    | none => none
    | some (pending, rest) =>
      let result := determineAction pending (m.actionOf pending.signo) m.signalMask
      some (result,
        { m with
          pendingSignals := rest
          signalMask :=
            match result with
            | .userHandler _ _ _ _ handlerMask => handlerMask
            | _ => m.signalMask })
  else none

/-- The timer over a task in the kernel: a fatal signal is consumed, any other stays. -/
def kernelTick (m : ProcessMeta) : ProcessMeta :=
  match m.pendingSignals.nextDeliverable m.signalMask with
  | none => m
  | some signo =>
    let pending : PendingSignal := ⟨signo, m.pendingSignals.info (place signo)⟩
    match determineAction pending (m.actionOf signo) m.signalMask with
    | .terminate | .coreDump => { m with pendingSignals := (m.pendingSignals.remove signo).2 }
    | _ => m

/-- The mask's part of a `sigreturn`; nothing is restored while another CPU holds the lock. -/
def restoreMask (m : ProcessMeta) (savedMask : SigSet) (locked : Bool) : ProcessMeta :=
  if locked then m else { m with signalMask := sanitize savedMask }

def cloneForFork (m : ProcessMeta) : ProcessMeta := { m with pendingSignals := {} }

end ProcessMeta

/-! ## Runs -/

/-- A process and the masks that its threads keep on their kernel stacks while they are in `sys_sigsuspend`. -/
structure MaskState where
  process : ProcessMeta := {}
  suspended : List SigSet := []

open MaskState

inductive MaskOp where
  | sigaction (sig : Int) (actPtr oldactPtr : Nat) (action : SigAction)
  | sigprocmask (how : Int) (setPtr oldsetPtr : Nat) (newSet : SigSet)
  /-- A thread enters `sys_sigsuspend`. -/
  | suspend (maskPtr : Nat) (mask : SigSet)
  /-- A thread in `sys_sigsuspend` restores its mask. It has seen a signal before, under the lock, which it has
      given back since. -/
  | resume (thread : Nat)
  | send (sig : Int) (info : Option SigInfo)
  | deliver
  | kernelTick
  /-- A frame with this saved mask is applied. -/
  | sigreturn (savedMask : SigSet) (locked : Bool)
  | swapMask (mask : SigSet)
  | setMask (mask : SigSet)
  /-- The run goes on in the child. -/
  | fork

def MaskState.step (s : MaskState) : MaskOp → Option MaskState
  | .sigaction sig actPtr oldactPtr action =>
    some { s with process := (s.process.sysSigaction sig actPtr oldactPtr action).2 }
  | .sigprocmask how setPtr oldsetPtr newSet =>
    some { s with process := (s.process.sysSigprocmask how setPtr oldsetPtr newSet).2 }
  | .suspend maskPtr mask =>
    if userPtr maskPtr then
      some ⟨(s.process.swapSignalMask mask).2, s.suspended ++ [(s.process.swapSignalMask mask).1]⟩
    else some s
  | .resume thread =>
    match s.suspended[thread]? with
    | some oldMask => some ⟨{ s.process with signalMask := oldMask }, s.suspended.eraseIdx thread⟩
    | none => none
  | .send sig info => some { s with process := s.process.sendSignal sig info }
  | .deliver => s.process.deliver.map (fun r => { s with process := r.2 })
  | .kernelTick => some { s with process := s.process.kernelTick }
  | .sigreturn savedMask locked => some { s with process := s.process.restoreMask savedMask locked }
  | .swapMask mask => some { s with process := (s.process.swapSignalMask mask).2 }
  | .setMask mask => some { s with process := s.process.setSignalMask mask }
  | .fork => some ⟨s.process.cloneForFork, []⟩

/-- **A handler is only entered under an `sa_mask` without `SIGKILL` and `SIGSTOP`.** -/
def HandlersHarmless (s : MaskState) : MaskOp → Prop
  | .deliver =>
    ∀ pending rest, s.process.pendingSignals.dequeue s.process.signalMask = some (pending, rest) →
      (∃ addr, (s.process.actionOf pending.signo).handler = .handler addr) →
        (s.process.actionOf pending.signo).saMask.Unblocking
  | _ => True

/-! ## The invariant -/

/-- Neither the mask nor one that will be put back holds `SIGKILL` or `SIGSTOP`. -/
structure MasksClean (s : MaskState) : Prop where
  mask : s.process.signalMask.Unblocking
  suspended : ∀ mask ∈ s.suspended, mask.Unblocking

theorem sanitize_unblocking (mask : SigSet) : (sanitize mask).Unblocking := SigSet.Unblocking.remove_both mask

namespace ProcessMeta

variable {m : ProcessMeta}

theorem sysSigaction_mask (sig : Int) (actPtr oldactPtr : Nat) (action : SigAction) :
    (m.sysSigaction sig actPtr oldactPtr action).2.signalMask = m.signalMask := by
  unfold sysSigaction setSigaction
  repeat' split
  all_goals rfl

theorem sysSigprocmask_mask (how : Int) (setPtr oldsetPtr : Nat) (newSet : SigSet) (h : m.signalMask.Unblocking) :
    (m.sysSigprocmask how setPtr oldsetPtr newSet).2.signalMask.Unblocking := by
  unfold sysSigprocmask
  repeat' split
  all_goals first
    | exact h
    | exact sanitize_unblocking _

theorem kernelTick_mask : m.kernelTick.signalMask = m.signalMask := by
  unfold kernelTick
  dsimp only
  repeat' split
  all_goals rfl

theorem restoreMask_mask (savedMask : SigSet) (locked : Bool) (h : m.signalMask.Unblocking) :
    (m.restoreMask savedMask locked).signalMask.Unblocking := by
  unfold restoreMask
  split
  · exact h
  · exact sanitize_unblocking savedMask

/-- A delivery puts a mask in place only together with a handler. -/
theorem deliver_mask {result : SignalResult} {m' : ProcessMeta} (h : m.deliver = some (result, m'))
    (hmask : m.signalMask.Unblocking)
    (hharmless : ∀ pending rest, m.pendingSignals.dequeue m.signalMask = some (pending, rest) →
      (∃ addr, (m.actionOf pending.signo).handler = .handler addr) →
        (m.actionOf pending.signo).saMask.Unblocking) : m'.signalMask.Unblocking := by
  unfold deliver at h
  split at h
  · split at h
    · cases h
    rename_i pending rest hdequeue
    cases h
    split
    next hresult =>
      have haction := determineAction_userHandler hresult
      exact handlerMask_unblocking hresult hmask (hharmless pending rest hdequeue ⟨_, haction.2.2.1⟩)
    · exact hmask
  · cases h

end ProcessMeta

/-- **One step keeps the masks clean.** -/
theorem MasksClean.step {s s' : MaskState} {op : MaskOp} (h : MasksClean s) (hok : HandlersHarmless s op)
    (hstep : s.step op = some s') : MasksClean s' := by
  cases op with
  | sigaction sig actPtr oldactPtr action =>
    cases hstep
    exact ⟨by rw [ProcessMeta.sysSigaction_mask]; exact h.mask, h.suspended⟩
  | sigprocmask how setPtr oldsetPtr newSet =>
    cases hstep
    exact ⟨ProcessMeta.sysSigprocmask_mask how setPtr oldsetPtr newSet h.mask, h.suspended⟩
  | suspend maskPtr mask =>
    simp only [MaskState.step] at hstep
    split at hstep
    · cases hstep
      refine ⟨sanitize_unblocking mask, ?_⟩
      exact forall_mem_append.mpr ⟨h.suspended, forall_mem_singleton.mpr h.mask⟩
    · cases hstep
      exact h
  | resume thread =>
    simp only [MaskState.step] at hstep
    split at hstep
    next oldMask hget =>
      cases hstep
      exact ⟨h.suspended oldMask (mem_of_getElem? hget),
        fun mask' hmem => h.suspended mask' (mem_of_mem_eraseIdx hmem)⟩
    · cases hstep
  | send sig info =>
    cases hstep
    exact ⟨h.mask, h.suspended⟩
  | deliver =>
    obtain ⟨r, hdeliver, rfl⟩ := Option.map_eq_some_iff.mp hstep
    exact ⟨ProcessMeta.deliver_mask hdeliver h.mask hok, h.suspended⟩
  | kernelTick =>
    cases hstep
    exact ⟨by rw [ProcessMeta.kernelTick_mask]; exact h.mask, h.suspended⟩
  | sigreturn savedMask locked =>
    cases hstep
    exact ⟨ProcessMeta.restoreMask_mask savedMask locked h.mask, h.suspended⟩
  | swapMask mask | setMask mask =>
    cases hstep
    exact ⟨sanitize_unblocking mask, h.suspended⟩
  | fork =>
    cases hstep
    exact ⟨h.mask, nofun⟩

/-- A process starts with an empty mask. -/
def MaskState.Fresh (s : MaskState) : Prop := s.process.signalMask = .empty ∧ s.suspended = []

theorem MaskState.Fresh.clean {s : MaskState} (h : s.Fresh) : MasksClean s := by
  obtain ⟨hmask, hsuspended⟩ := h
  refine ⟨?_, ?_⟩
  · rw [hmask]
    exact SigSet.Unblocking.empty
  · rw [hsuspended]
    exact nofun

/-! ## Main result -/

/-- **`SIGKILL` and `SIGSTOP` are never blocked.** In every run whose handlers are entered under a harmless
    `sa_mask`, the mask holds neither, and a pending `SIGKILL` interrupts a blocked process and is taken by
    `dequeue`, at once or after the lower signals. -/
theorem sigkill_never_blocked {s : MaskState} (h : Run.Reach MaskState.step HandlersHarmless MaskState.Fresh s) :
    s.process.signalMask.contains SIGKILL = false ∧ s.process.signalMask.contains SIGSTOP = false ∧
    (s.process.pendingSignals.pending.contains SIGKILL = true →
      (s.process.pendingSignals.deliverable s.process.signalMask).contains SIGKILL = true ∧
      shouldInterruptForSignal s.process.pendingSignals.pending s.process.signalMask s.process.sigactions = true ∧
      ∃ signal rest, s.process.pendingSignals.dequeue s.process.signalMask = some (signal, rest) ∧
        signal.signo ≤ SIGKILL ∧ (signal.signo = SIGKILL ∨ rest.pending.contains SIGKILL = true)) := by
  have hclean : MasksClean s :=
    h.invariant MasksClean (fun _ => Fresh.clean) (fun _ _ _ => MasksClean.step)
  refine ⟨Bool.not_eq_true _ ▸ hclean.mask.1, Bool.not_eq_true _ ▸ hclean.mask.2, ?_⟩
  intro hpending
  exact ⟨sigkill_deliverable hpending hclean.mask,
    shouldInterruptForSignal_sigkill s.process.sigactions hpending hclean.mask,
    dequeue_sigkill hpending hclean.mask⟩

/-- A handler for signal 10 that blocks the signals `mask` while it runs. -/
def blocking (mask : SigSet) : SigAction := { saHandler := 0x400000, saMask := mask }

/-- The state after a handler that blocks `mask` was installed for signal 10 and the signal has arrived. -/
def armed (mask : SigSet) : MaskState :=
  { process := (({} : ProcessMeta).setSigaction 10 (blocking mask)).sendSignal 10 none }

/-- A handler for signal 10 that blocks signal 2 is entered. -/
theorem sigkill_never_blocked_handler :
    ∃ s : MaskState, Run.Reach MaskState.step HandlersHarmless MaskState.Fresh s ∧
      s.process.signalMask.contains 2 = true ∧ s.process.signalMask.contains SIGKILL = false := by
  have hstart : Reach step HandlersHarmless Fresh {} := .start ⟨rfl, rfl⟩
  have harmed : Reach step HandlersHarmless Fresh (armed ⟨2⟩) :=
    Reach.next (a := .send 10 none) (Reach.next (a := .sigaction 10 0x2000 0 _) hstart trivial rfl) trivial rfl
  have hok : HandlersHarmless (armed ⟨2⟩) .deliver := by
    intro pending rest hdequeue _
    have hsigno : pending.signo = 10 := by
      cases hdequeue
      rfl
    rw [hsigno]
    decide
  have hrun := Reach.next harmed hok rfl
  exact ⟨_, hrun, rfl, (sigkill_never_blocked hrun).1⟩

/-- **A handler's `sa_mask` blocks `SIGKILL`.** The handler for signal 10 asks for all signals to be blocked; once
    it is entered, a `SIGKILL` stays pending and interrupts nothing. -/
theorem handler_mask_blocks_sigkill :
    ∃ s : MaskState, Run.Reach MaskState.step (fun _ _ => True) MaskState.Fresh s ∧
      s.process.signalMask.contains SIGKILL = true ∧ s.process.pendingSignals.pending.contains SIGKILL = true ∧
      shouldInterruptForSignal s.process.pendingSignals.pending s.process.signalMask s.process.sigactions = false ∧
      s.process.pendingSignals.dequeue s.process.signalMask = none := by
  exact Reach.exists_exec (s := {})
    [.sigaction 10 0x2000 0 (blocking .full), .send 10 none, .deliver, .send SIGKILL none] ⟨rfl, rfl⟩ (by decide)

end OxideOs.Signal

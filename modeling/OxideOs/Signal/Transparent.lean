import OxideOs.Signal.Frame

/-!
# `Signal.Transparent` — what a task sees of a handled signal

A task is interrupted, a handler runs on its stack, and `sigreturn` brings it back. The frame carries everything
over (`round_trip`), but the exit of the system call uses only a part of it: the task resumes with `rax` zero, `rcx`
its own `rip`, and the flags and callee-saved registers with which the handler made the call. The frame itself ends
at most 23 bytes below the stack pointer, in the middle of the 128 bytes that the ABI lets a leaf function use.
-/

namespace OxideOs.Signal

open Checked BitVec

/-! ## The mask comes back -/

theorem SigSet.remove_of_not_contains {s : SigSet} {sig : Int} (h : ¬ s.contains sig = true) : s.remove sig = s := by
  unfold remove
  split
  next hrange =>
    have hclear : s.bits.getLsbD (place sig) = false := by
      rw [← Bool.not_eq_true]
      exact fun hbit => h (contains_iff.mpr ⟨hrange, hbit⟩)
    have hbits : s.bits &&& ~~~twoPow 64 (place sig) = s.bits := by
      apply eq_of_getLsbD_eq
      intro i hi
      rw [getLsbD_and, getLsbD_not, getLsbD_twoPow]
      by_cases hplace : place sig = i
      · subst hplace
        rw [hclear, Bool.false_and]
      · simp [hi, hplace]
    rw [hbits]
  · rfl

theorem sanitize_of_unblocking {mask : SigSet} (h : mask.Unblocking) : sanitize mask = mask := by
  unfold sanitize
  rw [SigSet.remove_of_not_contains h.1, SigSet.remove_of_not_contains h.2]

theorem sanitize_eq_self {mask : SigSet} : sanitize mask = mask ↔ mask.Unblocking :=
  ⟨fun h => h ▸ sanitize_unblocking mask, sanitize_of_unblocking⟩

/-! ## The round trip -/

/-- The handler has left the frame alone. -/
def FrameKept (rsp : Nat) (mem mem' : Mem) : Prop :=
  ∀ a, frameBase rsp ≤ a → a < frameBase rsp + frameSize → mem' a = mem a

section
variable {site : Site} {smap : Bool} {m m' : ProcessMeta} {regs regs' : Regs} {mem mem' : Mem}

/-- **There and back.** Whatever the handler did outside the frame, `sigreturn` finds the saved context, and the
    exit of the system call makes the registers of the task from it. -/
theorem round_trip (hroom : frameSize + 16 ≤ regs.rsp.toNat) (huser : regs.rsp.toNat < 0x800000000000)
    (henter : enterHandler site smap m regs mem = some (m', regs', mem')) {h : Regs} {mem2 : Mem}
    {m2 : ProcessMeta} {locked : Bool} (hrsp : h.rsp.toNat = regs'.rsp.toNat + 8)
    (hframe : FrameKept regs.rsp.toNat mem' mem2) :
    sigreturn h mem2 m2 locked
      = .ok (some (sysretExit h 0 regs, m2.restoreMask m.signalMask locked)) := by
  obtain ⟨hbase, frame, hsaved, hmem⟩ := enterHandler_eq_some hroom henter
  have hbelow := frameBase_bounds hroom
  have hread : readFrame mem2 (frameBase regs.rsp.toNat) = ⟨m.signalMask, regs⟩ := by
    have hkept : ∀ a, frameBase regs.rsp.toNat ≤ a → a < frameBase regs.rsp.toNat + frameSize →
        mem2 a = mem.store (frameBase regs.rsp.toNat) frame.toBytes a := by
      intro a hlow hhigh
      rw [hframe a hlow hhigh, hmem]
    rw [readFrame_store hkept, hsaved]
  unfold sigreturn sysSigreturn
  rw [hrsp, hbase, sub_of_le (by omega), Nat.add_sub_cancel]
  simp only [bind, Except.bind]
  rw [if_neg (by omega), hread]
  rfl

/-! ## The red zone -/

/-- The general registers as they stand at the end of a frame. -/
def Regs.generalBytes (r : Regs) : List Byte := (r.general.map (fun w => le 8 w.toNat)).flatten

/-- Where the frame reaches into the 128 bytes below the stack pointer, memory already holds what the frame puts
    there: the general registers. -/
def RedZoneHolds (regs : Regs) (mem : Mem) : Prop :=
  ∀ a, regs.rsp.toNat - 128 ≤ a → a < frameBase regs.rsp.toNat + frameSize →
    mem a = regs.generalBytes.getD (a - (frameBase regs.rsp.toNat + 144)) 0

/-- The last 120 bytes of a frame are the general registers. -/
theorem toBytes_getD (f : SignalFrame) {i : Nat} (h : 144 ≤ i) :
    f.toBytes.getD i 0 = f.saved.regs.generalBytes.getD (i - 144) 0 := by
  have hsplit : f.toWords = ([f.retaddr, (0 : BitVec 32) ++ f.signo] ++ f.info.toWords
      ++ [f.saved.mask.bits, f.saved.regs.rip, f.saved.regs.rsp, f.saved.regs.rflags])
      ++ f.saved.regs.general := rfl
  have hfront : (([f.retaddr, (0 : BitVec 32) ++ f.signo] ++ f.info.toWords
      ++ [f.saved.mask.bits, f.saved.regs.rip, f.saved.regs.rsp, f.saved.regs.rflags]).map
        (fun w => le 8 w.toNat)).flatten.length = 144 := length_chunks 8 _
  unfold SignalFrame.toBytes Regs.generalBytes
  rw [hsplit, List.map_append, List.flatten_append, List.getD_append_right _ _ _ _ (by omega), hfront]

/-- **The frame leaves the red zone as it was** exactly when that holds its bytes already. -/
theorem redZone_iff (hroom : frameSize + 16 ≤ regs.rsp.toNat) {f : SignalFrame} (hsaved : f.saved.regs = regs) :
    (∀ a, regs.rsp.toNat - 128 ≤ a → mem.store (frameBase regs.rsp.toNat) f.toBytes a = mem a) ↔
      RedZoneHolds regs mem := by
  obtain ⟨hlow, hhigh⟩ := frameBase_bounds hroom
  have hstored : ∀ a, regs.rsp.toNat - 128 ≤ a → a < frameBase regs.rsp.toNat + frameSize →
      mem.store (frameBase regs.rsp.toNat) f.toBytes a =
        regs.generalBytes.getD (a - (frameBase regs.rsp.toNat + 144)) 0 := by
    intro a ha hlt
    unfold frameSize at hlow
    unfold Mem.store
    rw [length_toBytes, if_pos ⟨by omega, hlt⟩, toBytes_getD f (by omega), hsaved, Nat.sub_sub]
  constructor
  · intro hsame a ha hlt
    rw [← hsame a ha, hstored a ha hlt]
  · intro hred a ha
    by_cases hlt : a < frameBase regs.rsp.toNat + frameSize
    · rw [hstored a ha hlt, hred a ha hlt]
    · unfold Mem.store
      rw [length_toBytes, if_neg (fun hin => hlt hin.2)]

/-! ## Main result -/

/-- **What survives the exit of `sigreturn`.** The interrupted task had `rax` zero; the handler made the call with
    the task's callee-saved registers and with flags that `sysretq` turns into the task's; and for a task that the
    timer interrupted, `rcx` and `r11` were what `sysretq` leaves in them. -/
structure ExitKeeps (site : Site) (regs h : Regs) : Prop where
  rax : regs.rax = 0
  rbx : h.rbx = regs.rbx
  rbp : h.rbp = regs.rbp
  r12 : h.r12 = regs.r12
  r13 : h.r13 = regs.r13
  r14 : h.r14 = regs.r14
  r15 : h.r15 = regs.r15
  flags : sysretFlags h.rflags = regs.rflags
  scratch : site = .timer → regs.rcx = regs.rip ∧ regs.r11 = h.rflags

/-- The registers a task resumes with are those it was interrupted with; a system call may change `rcx` and
    `r11`. -/
def Resumes (site : Site) (regs resumed : Regs) : Prop :=
  match site with
  | .timer => resumed = regs
  | .syscallReturn => { resumed with rcx := regs.rcx, r11 := regs.r11 } = regs

theorem resumes_iff {h : Regs} : Resumes site regs (sysretExit h 0 regs) ↔ ExitKeeps site regs h := by
  constructor
  · intro hres
    cases site with
    | timer =>
      have hsame : ∀ reg : Regs → BitVec 64, reg (sysretExit h 0 regs) = reg regs := fun reg => congrArg reg hres
      exact ⟨(hsame Regs.rax).symm, hsame Regs.rbx, hsame Regs.rbp, hsame Regs.r12, hsame Regs.r13, hsame Regs.r14,
        hsame Regs.r15, hsame Regs.rflags, fun _ => ⟨(hsame Regs.rcx).symm, (hsame Regs.r11).symm⟩⟩
    | syscallReturn =>
      have hsame : ∀ reg : Regs → BitVec 64,
          reg { sysretExit h 0 regs with rcx := regs.rcx, r11 := regs.r11 } = reg regs := fun reg => congrArg reg hres
      exact ⟨(hsame Regs.rax).symm, hsame Regs.rbx, hsame Regs.rbp, hsame Regs.r12, hsame Regs.r13, hsame Regs.r14,
        hsame Regs.r15, hsame Regs.rflags, nofun⟩
  · rintro ⟨hrax, hrbx, hrbp, hr12, hr13, hr14, hr15, hflags, hscratch⟩
    unfold sysretExit
    cases site with
    | timer =>
      obtain ⟨hrcx, hr11⟩ := hscratch rfl
      rw [hrbx, hrbp, hr12, hr13, hr14, hr15, hflags, ← hrax, ← hr11]
      exact congrArg (fun rcx => ({ regs with rcx := rcx } : Regs)) hrcx.symm
    | syscallReturn =>
      rw [hrbx, hrbp, hr12, hr13, hr14, hr15, hflags, ← hrax]
      rfl

theorem mayWriteFrame_of_enterHandler {r : ProcessMeta × Regs × Mem}
    (h : enterHandler site smap m regs mem = some r) : mayWriteFrame site smap regs = true := by
  unfold enterHandler at h
  split at h
  · split at h
    · by_contra hwrite
      rw [if_neg hwrite] at h
      cases h
    · cases h
  · cases h

/-- A pending signal with a handler is delivered. -/
theorem enterHandler_of_deliver {handler : BitVec 64} {signo : Int} {info : Option SigInfo} {flags : BitVec 64}
    {handlerMask : SigSet} (hroom : frameSize + 16 ≤ regs.rsp.toNat)
    (hdeliver : m.deliver = some (.userHandler handler signo info flags handlerMask, m'))
    (hwrite : mayWriteFrame site smap regs = true) :
    ∃ regs' mem', enterHandler site smap m regs mem = some (m', regs', mem') ∧ regs'.rip = handler := by
  unfold enterHandler
  rw [hdeliver]
  simp only
  rw [setupSignalHandler_eq hroom]
  simp only
  rw [if_pos hwrite]
  exact ⟨_, _, rfl, rfl⟩

/-- The mask that a `sigreturn` leaves is the saved one. -/
def MaskReturns (saved now : SigSet) (locked : Bool) : Prop := if locked then now = saved else saved.Unblocking

/-- **What of a delivery is transparent**, exactly. A signal with a handler is pending, and the stack has room for its
    frame. The handler is entered when the frame can be written. It starts on an aligned stack; no byte from the red
    zone up changes if and only if the red zone holds the frame's bytes already; and `sigreturn` over an untouched
    frame resumes the task with its registers if and only if the exit keeps them, and with its mask if and only if that
    blocks neither `SIGKILL` nor `SIGSTOP` and can be written back. -/
theorem delivery_is_transparent {handler : BitVec 64} {signo : Int} {info : Option SigInfo} {flags : BitVec 64}
    {handlerMask : SigSet} (hroom : frameSize + 16 ≤ regs.rsp.toNat) (huser : regs.rsp.toNat < 0x800000000000)
    (hdeliver : m.deliver = some (.userHandler handler signo info flags handlerMask, m')) :
    ((∃ regs' mem', enterHandler site smap m regs mem = some (m', regs', mem')) ↔
      mayWriteFrame site smap regs = true) ∧
    ∀ regs' mem', enterHandler site smap m regs mem = some (m', regs', mem') → regs'.rip = handler ∧
      (regs'.rsp.toNat + 8) % 16 = 0 ∧ ((∀ a, regs.rsp.toNat - 128 ≤ a → mem' a = mem a) ↔ RedZoneHolds regs mem) ∧
      ∀ (h : Regs) (mem₂ : Mem) (m₂ : ProcessMeta) (locked : Bool), h.rsp.toNat = regs'.rsp.toNat + 8 →
        FrameKept regs.rsp.toNat mem' mem₂ →
        ∃ resumed m₃, sigreturn h mem₂ m₂ locked = .ok (some (resumed, m₃)) ∧
          (Resumes site regs resumed ↔ ExitKeeps site regs h) ∧
          (m₃.signalMask = m.signalMask ↔ MaskReturns m.signalMask m₂.signalMask locked) := by
  refine ⟨⟨fun ⟨regs', mem', henter⟩ => ?_, fun hwrite => ?_⟩, fun regs' mem' henter => ?_⟩
  · exact mayWriteFrame_of_enterHandler henter
  · obtain ⟨regs', mem', henter, -⟩ := enterHandler_of_deliver hroom hdeliver hwrite
    exact ⟨regs', mem', henter⟩
  obtain ⟨r, m₁, henter', hrip⟩ : ∃ r m₁, enterHandler site smap m regs mem = some (m', r, m₁) ∧ r.rip = handler :=
    enterHandler_of_deliver hroom hdeliver (mayWriteFrame_of_enterHandler henter)
  cases henter.symm.trans henter'
  obtain ⟨hbase, frame, hsaved, hmem⟩ := enterHandler_eq_some hroom henter
  refine ⟨hrip, ?_, ?_, fun h mem₂ m₂ locked hrsp hframe => ?_⟩
  · rw [hbase]
    exact frameBase_aligned hroom
  · rw [hmem]
    exact redZone_iff hroom (congrArg SavedContext.regs hsaved)
  · refine ⟨_, _, round_trip hroom huser henter hrsp hframe, resumes_iff, ?_⟩
    cases locked with
    | true => exact Iff.rfl
    | false => exact sanitize_eq_self

end

/-! ## Two tasks -/

/-- A task as it is after a system call that returned zero, with one register in use. -/
def quiet : Regs := { rip := 0x401000, rsp := 0x7FFF00001000, rflags := 0x202, rbx := 5, rcx := 0x401000, r11 := 0x202 }

/-- A process for which signal 10 is pending and handled. -/
def signalled : ProcessMeta := (armed .empty).process

/-- Memory with the registers of `quiet` where a frame will put them. -/
def quietMem : Mem := Mem.store (fun _ => 0) (frameBase quiet.rsp.toNat + 144) quiet.generalBytes

theorem quietMem_redZone : RedZoneHolds quiet quietMem := by
  have hlen : quiet.generalBytes.length = 120 := length_chunks 8 quiet.general
  have hbase : frameBase quiet.rsp.toNat = 0x7FFF00000EE8 := by decide
  have hrsp : quiet.rsp.toNat = 0x7FFF00001000 := by decide
  intro a _ hhigh
  unfold quietMem Mem.store
  unfold frameSize at hhigh
  exact if_pos ⟨by omega, by omega⟩

/-- The quiet task is interrupted by the timer and comes back as it was, with its red zone. -/
theorem delivery_is_transparent_quiet :
    ∃ m' regs' mem', enterHandler .timer false signalled quiet quietMem = some (m', regs', mem') ∧
      (∀ a, quiet.rsp.toNat - 128 ≤ a → mem' a = quietMem a) ∧
      ∃ resumed m₃, sigreturn { quiet with rsp := BitVec.ofNat 64 (regs'.rsp.toNat + 8) } mem' m' false
          = .ok (some (resumed, m₃)) ∧ resumed = quiet ∧ m₃.signalMask = signalled.signalMask := by
  obtain ⟨henters, hback⟩ := @delivery_is_transparent .timer false signalled _ quiet quietMem
    _ _ _ _ _ (by decide) (by decide) rfl
  obtain ⟨regs', mem', henter⟩ := henters.mpr rfl
  obtain ⟨-, -, hred, hreturn⟩ := hback regs' mem' henter
  obtain ⟨_, -⟩ := enterHandler_eq_some (by decide) henter
  have hnum : frameBase quiet.rsp.toNat = 0x7FFF00000EE8 := by decide
  have hflags : sysretFlags quiet.rflags = quiet.rflags := by decide
  obtain ⟨resumed, m₃, hcall, hregs, hmask⟩ := hreturn { quiet with rsp := BitVec.ofNat 64 _ } mem' _ false
    (Nat.mod_eq_of_lt (by omega)) (fun _ _ _ => rfl)
  exact ⟨_, regs', mem', henter, hred.mpr quietMem_redZone, resumed, m₃, hcall,
    hregs.mpr ⟨rfl, rfl, rfl, rfl, rfl, rfl, rfl, hflags, fun _ => ⟨rfl, rfl⟩⟩,
    hmask.mpr (show signalled.signalMask.Unblocking by decide)⟩

/-- A task in the middle of a computation. -/
def busy : Regs := { rip := 0x401000, rsp := 0x7FFF00001000, rflags := 0x202, rax := 7, rcx := 3, r15 := 9 }

/-- **An interrupted computation loses its registers.** The timer interrupts a task with `rax` 7 and `rcx` 3; the
    handler returns at once with all registers as it found them. The task resumes with `rax` zero and its own `rip`
    in `rcx`, and a byte of its red zone has changed. -/
theorem timer_delivery_loses_registers :
    ∃ m' regs' mem' resumed m₃, enterHandler .timer false signalled busy (fun _ => 0) = some (m', regs', mem') ∧
      sigreturn { regs' with rsp := BitVec.ofNat 64 (regs'.rsp.toNat + 8) } mem' m' false
        = .ok (some (resumed, m₃)) ∧
      resumed.rax = 0 ∧ busy.rax = 7 ∧ resumed.rcx = 0x401000 ∧ busy.rcx = 3 ∧
      ∃ a, busy.rsp.toNat - 128 ≤ a ∧ mem' a ≠ 0 := by
  have hroom : frameSize + 16 ≤ busy.rsp.toNat := by decide
  obtain ⟨regs', mem', henter, -⟩ := @enterHandler_of_deliver .timer false signalled _ busy (fun _ => 0) _ _ _ _ _
    hroom rfl rfl
  obtain ⟨_, frame, hsaved, hmem⟩ := enterHandler_eq_some hroom henter
  have hnum : frameBase busy.rsp.toNat = 0x7FFF00000EE8 := by decide
  have hlt : regs'.rsp.toNat + 8 < 2 ^ 64 := by omega
  refine ⟨_, regs', mem', _, _, henter, round_trip hroom (by decide) henter ?_ (fun _ _ _ => rfl), rfl, rfl, rfl, rfl,
    frameBase busy.rsp.toNat + 256, by decide, ?_⟩
  · rw [toNat_ofNat, Nat.mod_eq_of_lt hlt]
  rw [hmem]
  unfold Mem.store
  rw [length_toBytes, toBytes_getD frame (by decide), hsaved]
  decide

/-! ## `sigsuspend` -/

section
variable {smap : Bool} {m m' : ProcessMeta} {regs : Regs} {mem : Mem} {maskPtr : Nat} {mask : SigSet}
  {arrivals : List (List (Int × Option SigInfo))} {signo : Int}

/-- Signals are sent to a process. -/
def ProcessMeta.sendAll (m : ProcessMeta) (batch : List (Int × Option SigInfo)) : ProcessMeta :=
  batch.foldl (fun m s => m.sendSignal s.1 s.2) m

@[simp] theorem ProcessMeta.sendAll_signalMask (m : ProcessMeta) (batch : List (Int × Option SigInfo)) :
    (m.sendAll batch).signalMask = m.signalMask := by
  unfold sendAll
  induction batch generalizing m with
  | nil => rfl
  | cons s rest ih => exact ih (m.sendSignal s.1 s.2)

/-- The wait of `sys_sigsuspend`: it looks, and sleeps while the next signals arrive; `none` while it sleeps. -/
def ProcessMeta.awaitSignal (m : ProcessMeta) (arrivals : List (List (Int × Option SigInfo))) : Option ProcessMeta :=
  if shouldInterruptForSignal m.pendingSignals.pending m.signalMask m.sigactions then some m
  else
    match arrivals with
    | [] => none
    | batch :: later => awaitSignal (m.sendAll batch) later

/-- `mask` is what lies at `maskPtr`. -/
def ProcessMeta.sysSigsuspend (m : ProcessMeta) (maskPtr : Nat) (mask : SigSet)
    (arrivals : List (List (Int × Option SigInfo))) : Option (Int × ProcessMeta) :=
  if userPtr maskPtr then
    let (oldMask, suspended) := m.swapSignalMask mask
    (suspended.awaitSignal arrivals).map (fun m => (eIntr, { m with signalMask := oldMask }))
  else some (eFault, m)

/-- A handler is entered for the lowest signal that is pending and not blocked. -/
theorem ProcessMeta.deliver_userHandler :
    (∃ handler info flags handlerMask m', m.deliver = some (.userHandler handler signo info flags handlerMask, m')) ↔
      m.pendingSignals.nextDeliverable m.signalMask = some signo ∧ signo ≠ SIGKILL ∧ signo ≠ SIGSTOP ∧
        ∃ addr, (m.actionOf signo).handler = .handler addr := by
  unfold deliver PendingSignals.dequeue
  constructor
  · rintro ⟨handler, info, flags, handlerMask, m', h⟩
    split at h
    · cases hnext : m.pendingSignals.nextDeliverable m.signalMask with
      | none =>
        rw [hnext] at h
        cases h
      | some sig =>
        rw [hnext] at h
        obtain ⟨hkill, hstop, haddr, rfl, -⟩ := determineAction_userHandler (Prod.mk.inj (Option.some.inj h)).1
        exact ⟨rfl, hkill, hstop, handler, haddr⟩
    · cases h
  · rintro ⟨hnext, hkill, hstop, addr, haddr⟩
    have hpending : m.hasPendingSignals = true := by
      obtain ⟨-, hbit⟩ := SigSet.contains_iff.mp (SigSet.first_eq_some hnext).1
      unfold hasPendingSignals PendingSignals.hasDeliverable SigSet.isEmpty
      rw [Bool.not_eq_true', decide_eq_false_iff_not]
      intro hzero
      rw [hzero] at hbit
      simp at hbit
    rw [if_pos hpending, hnext]
    simp only [determineAction, if_neg hkill, if_neg hstop, haddr]
    exact ⟨_, _, _, _, _, rfl⟩

/-- **The old mask lets the awaited signal through**: the lowest pending signal outside the old mask is outside the
    temporary one as well, and has a handler; and the old mask holds neither `SIGKILL` nor `SIGSTOP`. -/
def OldMaskAdmits (oldMask mask : SigSet) (m : ProcessMeta) : Prop :=
  oldMask.Unblocking ∧ ∃ signo addr, (m.pendingSignals.pending.difference oldMask).first = some signo ∧
    ¬ (sanitize mask).contains signo = true ∧ signo ≠ SIGKILL ∧ signo ≠ SIGSTOP ∧
    (m.actionOf signo).handler = .handler addr

/-- What the end of the call meets. -/
structure ReturnEnv where
  pid : Nat
  /-- `SIGRETURN_SLOT`. -/
  slot : Option SavedContext
  /-- The signals that are sent before the check looks, as it may sleep first when it has to reschedule. -/
  late : List (Int × Option SigInfo)
  /-- Whether another CPU holds the lock of the process at the check, and later at the `sigreturn` of the handler. -/
  checkLocked : Bool
  returnLocked : Bool

/-- `check_signals_on_syscall_return`, where a handler is entered: a frame in the slot is applied instead, the idle task
    and `init` get no signals, and the lock is only tried. -/
def checkSignalsOnSyscallReturn (env : ReturnEnv) (smap : Bool) (m : ProcessMeta) (regs : Regs) (mem : Mem) :
    Option (ProcessMeta × Regs × Mem) :=
  if env.slot.isSome then none
  else if env.pid ≤ 1 then none
  else if env.checkLocked then none
  else enterHandler .syscallReturn smap (m.sendAll env.late) regs mem

/-- Nothing keeps the check from looking for a signal, nor the `sigreturn` from restoring the mask. -/
def ReturnEnv.Clear (env : ReturnEnv) : Prop :=
  env.slot = none ∧ 1 < env.pid ∧ env.checkLocked = false ∧ env.returnLocked = false

theorem checkSignalsOnSyscallReturn_eq_some {env : ReturnEnv} {r : ProcessMeta × Regs × Mem} :
    checkSignalsOnSyscallReturn env smap m regs mem = some r ↔
      (env.slot = none ∧ 1 < env.pid ∧ env.checkLocked = false) ∧
        enterHandler .syscallReturn smap (m.sendAll env.late) regs mem = some r := by
  unfold checkSignalsOnSyscallReturn
  cases env.slot with
  | some _ => simp
  | none =>
    by_cases hpid : env.pid ≤ 1
    · simp [hpid]
    cases env.checkLocked with
    | true => simp
    | false => simp [hpid, not_le.mp hpid]

/-- The check behind the call enters a handler for a signal outside `mask`, and its `sigreturn` puts `oldMask` in
    place. -/
def Awaited (env : ReturnEnv) (smap : Bool) (m : ProcessMeta) (regs : Regs) (mem : Mem)
    (oldMask mask : SigSet) : Prop :=
  ∃ handler signo info flags handlerMask m' regs' mem',
    (m.sendAll env.late).deliver = some (.userHandler handler signo info flags handlerMask, m') ∧
    ¬ (sanitize mask).contains signo = true ∧
    checkSignalsOnSyscallReturn env smap m regs mem = some (m', regs', mem') ∧ regs'.rip = handler ∧
    ∀ h mem2 m2, h.rsp.toNat = regs'.rsp.toNat + 8 → FrameKept regs.rsp.toNat mem' mem2 →
      ∃ resumed m3, sigreturn h mem2 m2 env.returnLocked = .ok (some (resumed, m3)) ∧ m3.signalMask = oldMask

/-- **`sigsuspend` delivers the awaited signal** where nothing keeps the check from looking and the old mask lets the
    signal through, and only there: the old mask is back before the check looks. -/
theorem sigsuspend_delivers_iff {env : ReturnEnv} (hroom : frameSize + 16 ≤ regs.rsp.toNat)
    (huser : regs.rsp.toNat < 0x800000000000) (hcall : m.sysSigsuspend maskPtr mask arrivals = some (eIntr, m')) :
    Awaited env smap m' regs mem m.signalMask mask ↔
      env.Clear ∧ OldMaskAdmits m.signalMask mask (m'.sendAll env.late) := by
  have hmask : m'.signalMask = m.signalMask := by
    unfold ProcessMeta.sysSigsuspend at hcall
    split at hcall
    · obtain ⟨_, -, he⟩ := Option.map_eq_some_iff.mp hcall
      cases he
      rfl
    · cases hcall
  have hlate : (m'.sendAll env.late).signalMask = m.signalMask := (m'.sendAll_signalMask _).trans hmask
  constructor
  · rintro ⟨handler, signo, info, flags, handlerMask, m'', regs', mem', hdeliver, hout, hcheck, -, hback⟩
    obtain ⟨⟨hslot, hpid, hfree⟩, henter⟩ := checkSignalsOnSyscallReturn_eq_some.mp hcheck
    obtain ⟨hnext, hkill, hstop, addr, haddr⟩ := ProcessMeta.deliver_userHandler.mp ⟨_, _, _, _, _, hdeliver⟩
    -- a handler that returns at once
    obtain ⟨hbase, -⟩ := enterHandler_eq_some hroom henter
    have hbelow := frameBase_bounds hroom
    have hrsp : ({ regs with rsp := .ofNat 64 (regs'.rsp.toNat + 8) } : Regs).rsp.toNat = regs'.rsp.toNat + 8 :=
      Nat.mod_eq_of_lt (by omega)
    have hreturn : ∀ m2 : ProcessMeta, (m2.restoreMask m.signalMask env.returnLocked).signalMask = m.signalMask := by
      intro m2
      obtain ⟨resumed, m3, hret, hold⟩ := hback _ mem' m2 hrsp (fun _ _ _ => rfl)
      rw [round_trip hroom huser henter hrsp (fun _ _ _ => rfl), hlate] at hret
      cases hret
      exact hold
    have hunlocked : env.returnLocked = false := by
      by_contra hlocked
      rw [Bool.not_eq_false] at hlocked
      simp only [hlocked, ProcessMeta.restoreMask, if_true] at hreturn
      -- the mask could be any other one
      have hempty := hreturn { m with signalMask := .empty }
      have hfull := hreturn { m with signalMask := .full }
      exact absurd (hempty.trans hfull.symm) (show SigSet.empty ≠ SigSet.full by decide)
    have hclean : sanitize m.signalMask = m.signalMask := by
      simpa only [hunlocked, ProcessMeta.restoreMask, Bool.false_eq_true, if_false] using hreturn m
    exact ⟨⟨hslot, hpid, hfree, hunlocked⟩, sanitize_eq_self.mp hclean, signo, addr, hlate ▸ hnext, hout, hkill, hstop,
      haddr⟩
  · rintro ⟨⟨hslot, hpid, hfree, hunlocked⟩, hclean, signo, addr, hfirst, hout, hkill, hstop, haddr⟩
    rw [← hlate] at hfirst
    obtain ⟨handler, info, flags, handlerMask, m'', hdeliver⟩ :=
      ProcessMeta.deliver_userHandler.mpr ⟨hfirst, hkill, hstop, addr, haddr⟩
    obtain ⟨regs', mem', henter, hrip⟩ := @enterHandler_of_deliver .syscallReturn smap _ _ regs mem _ _ _ _ _ hroom
      hdeliver rfl
    refine ⟨_, _, _, _, _, _, _, _, hdeliver, hout,
      checkSignalsOnSyscallReturn_eq_some.mpr ⟨⟨hslot, hpid, hfree⟩, henter⟩, hrip, fun h mem2 m2 hrsp hframe => ?_⟩
    refine ⟨_, _, round_trip hroom huser henter hrsp hframe, ?_⟩
    rw [hunlocked, hlate]
    exact sanitize_of_unblocking hclean

end

/-- A process that handles signal 10 and has it blocked by `oldMask`, and waits for it with no signal blocked. -/
def waiting (oldMask : SigSet) : ProcessMeta :=
  { (armed .empty).process with pendingSignals := {}, signalMask := oldMask }

/-- The check of a process that nobody disturbs. -/
def undisturbed : ReturnEnv := ⟨7, none, [], false, false⟩

/-- Signals 12 and 10 arrive while the process waits, and signal 12 is blocked before the call: the handler of signal
    10 runs. -/
theorem sigsuspend_delivers_iff_unblocked :
    ∃ m', (waiting (SigSet.empty.add 12)).sysSigsuspend 0x2000 (SigSet.empty.add 12) [[(12, none)], [(10, none)]] =
      some (eIntr, m') ∧ Awaited undisturbed false m' quiet quietMem (SigSet.empty.add 12) (SigSet.empty.add 12) :=
  ⟨_, rfl, (@sigsuspend_delivers_iff false (waiting (SigSet.empty.add 12)) _ quiet quietMem 0x2000 (SigSet.empty.add 12)
    [[(12, none)], [(10, none)]] undisturbed (by decide) (by decide) rfl).mpr
      ⟨⟨rfl, by decide, rfl, rfl⟩, by decide, 10, 0x400000, by decide +kernel⟩⟩

/-- **The awaited signal stays pending**: signal 10 is blocked before the call and arrives during it; the call
    returns, and the check finds nothing to deliver. -/
theorem sigsuspend_keeps_signal_blocked : ∃ m', (waiting (SigSet.empty.add 10)).sysSigsuspend 0x2000 .empty
    [[(10, none)]] = some (eIntr, m') ∧ m'.pendingSignals.pending.contains 10 = true ∧
    (m'.actionOf 10).handler = .handler 0x400000 ∧ m'.deliver = none ∧
    checkSignalsOnSyscallReturn undisturbed false m' quiet quietMem = none :=
  ⟨_, rfl, by decide +kernel, by decide +kernel, by decide +kernel, rfl⟩

end OxideOs.Signal

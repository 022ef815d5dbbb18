import OxideOs.Lib.Encode
import OxideOs.Signal.Mask

/-!
# `Signal.Frame` — the way into a handler and back

A handled signal interrupts a task in one of two places: the timer, which returns by `iretq` from the registers it
saved, and the end of a system call, which returns by `sysretq`. Both write a `SignalFrame` to the user stack and
redirect the saved registers to the handler. The way back is the system call `sigreturn`: it reads the frame, leaves
it in a slot, and the end of the system call copies the frame's registers to the context it returns from.

The exit of a system call (`syscall_entry`, behind `signal_check`) does not read all of that context: it reloads
`rip`, `rsp`, `rdi`, `rsi`, `rdx` and `r8` to `r10`, takes `rax` from the value it pushed before the check, the
callee-saved registers and the flags from the kernel stack, and `sysretq` puts `rip` and the flags into `rcx` and
`r11`.
-/

namespace OxideOs.Signal

open List Checked

/-! ## Registers and memory -/

/-- The user registers: `SyscallUserContext`, and the timer's `InterruptFrame`. -/
structure Regs where
  rip : BitVec 64 := 0
  rsp : BitVec 64 := 0
  rflags : BitVec 64 := 0
  rax : BitVec 64 := 0
  rbx : BitVec 64 := 0
  rcx : BitVec 64 := 0
  rdx : BitVec 64 := 0
  rsi : BitVec 64 := 0
  rdi : BitVec 64 := 0
  rbp : BitVec 64 := 0
  r8 : BitVec 64 := 0
  r9 : BitVec 64 := 0
  r10 : BitVec 64 := 0
  r11 : BitVec 64 := 0
  r12 : BitVec 64 := 0
  r13 : BitVec 64 := 0
  r14 : BitVec 64 := 0
  r15 : BitVec 64 := 0
  deriving DecidableEq

/-- The memory of a task, all of it mapped. -/
abbrev Mem := Nat → Byte

namespace Mem

def load (mem : Mem) (addr n : Nat) : List Byte := (range n).map (fun i => mem (addr + i))

def store (mem : Mem) (addr : Nat) (bytes : List Byte) : Mem :=
  fun a => if addr ≤ a ∧ a < addr + bytes.length then bytes.getD (a - addr) 0 else mem a

theorem load_store_self (mem : Mem) (addr : Nat) (bytes : List Byte) :
    (mem.store addr bytes).load addr bytes.length = bytes := by
  apply ext_getElem
  · unfold load
    rw [length_map, length_range]
  intro i _ _
  have hin : addr ≤ addr + i ∧ addr + i < addr + bytes.length := ⟨by omega, by omega⟩
  simp only [load, store, getElem_map, getElem_range]
  rw [if_pos hin, Nat.add_sub_cancel_left]
  exact (getElem_eq_getD 0).symm

theorem load_congr {mem mem' : Mem} {addr n : Nat} (h : ∀ a, addr ≤ a → a < addr + n → mem a = mem' a) :
    mem.load addr n = mem'.load addr n := by
  refine map_congr_left ?_
  intro i hi
  have hlt := mem_range.mp hi
  exact h _ (by omega) (by omega)

end Mem

/-! ## The frame -/

/-- What a frame saves of the interrupted task. -/
structure SavedContext where
  mask : SigSet
  regs : Regs
  deriving DecidableEq

/-- Signal frame structure pushed onto user stack. -/
structure SignalFrame where
  retaddr : BitVec 64
  signo : BitVec 32
  info : SigInfo
  saved : SavedContext

/-- The general registers, in the order of the frame. -/
def Regs.general (r : Regs) : List (BitVec 64) :=
  [r.rax, r.rbx, r.rcx, r.rdx, r.rsi, r.rdi, r.rbp, r.r8, r.r9, r.r10, r.r11, r.r12, r.r13, r.r14, r.r15]

/-- `SigInfo` with its padding and reserved words. -/
def SigInfo.toWords (i : SigInfo) : List (BitVec 64) :=
  [i.siErrno ++ i.siSigno, (0 : BitVec 32) ++ i.siCode, i.siUid ++ i.siPid, (0 : BitVec 32) ++ i.siStatus,
    i.siUtime, i.siStime, i.siValue, i.siAddr, 0, 0, 0, 0]

/-- The frame as the words of its `repr(C)` layout. -/
def SignalFrame.toWords (f : SignalFrame) : List (BitVec 64) :=
  [f.retaddr, (0 : BitVec 32) ++ f.signo] ++ f.info.toWords
    ++ [f.saved.mask.bits, f.saved.regs.rip, f.saved.regs.rsp, f.saved.regs.rflags] ++ f.saved.regs.general

def SignalFrame.toBytes (f : SignalFrame) : List Byte := (f.toWords.map (fun w => le 8 w.toNat)).flatten

/-- `size_of::<SignalFrame>()` -/
def frameSize : Nat := 264

/-- What `sigreturn` uses of the words it finds. -/
def SavedContext.ofWords (ws : List (BitVec 64)) : SavedContext where
  mask := ⟨ws.getD 14 0⟩
  regs :=
    { rip := ws.getD 15 0
      rsp := ws.getD 16 0
      rflags := ws.getD 17 0
      rax := ws.getD 18 0
      rbx := ws.getD 19 0
      rcx := ws.getD 20 0
      rdx := ws.getD 21 0
      rsi := ws.getD 22 0
      rdi := ws.getD 23 0
      rbp := ws.getD 24 0
      r8 := ws.getD 25 0
      r9 := ws.getD 26 0
      r10 := ws.getD 27 0
      r11 := ws.getD 28 0
      r12 := ws.getD 29 0
      r13 := ws.getD 30 0
      r14 := ws.getD 31 0
      r15 := ws.getD 32 0 }

/-- The frame that lies at `addr`. -/
def readFrame (mem : Mem) (addr : Nat) : SavedContext :=
  SavedContext.ofWords (wordsAt 64 8 (mem.load addr frameSize) 0 33)

theorem length_toWords (f : SignalFrame) : f.toWords.length = 33 := rfl

theorem length_toBytes (f : SignalFrame) : f.toBytes.length = frameSize := by
  unfold SignalFrame.toBytes frameSize
  rw [length_chunks, length_toWords]

theorem ofWords_toWords (f : SignalFrame) : SavedContext.ofWords f.toWords = f.saved := rfl

/-- **A frame is read back.** What happens to memory outside it does not matter. -/
theorem readFrame_store {mem mem' : Mem} {addr : Nat} {f : SignalFrame}
    (h : ∀ a, addr ≤ a → a < addr + frameSize → mem' a = mem.store addr f.toBytes a) :
    readFrame mem' addr = f.saved := by
  have hbytes : mem'.load addr frameSize = f.toBytes := by
    rw [Mem.load_congr h, ← length_toBytes f]
    exact Mem.load_store_self mem addr f.toBytes
  have hwords : wordsAt 64 8 ([] ++ (f.toBytes ++ [])) [].length f.toWords.length = f.toWords :=
    wordsAt_chunks (by decide) [] f.toWords []
  rw [append_nil] at hwords
  unfold readFrame
  rw [hbytes]
  exact (congrArg SavedContext.ofWords hwords).trans (ofWords_toWords f)

/-! ## Entering a handler -/

/-- Setup parameters for signal handler invocation: the new `rip`, the new `rsp` and the frame. -/
def setupSignalHandler (handler : BitVec 64) (signo : Int) (info : Option SigInfo) (restorer : BitVec 64)
    (savedMask : SigSet) (regs : Regs) : Checked (BitVec 64 × Nat × SignalFrame) := do
  let below ← sub regs.rsp.toNat frameSize
  let newRsp ← sub (below / 16 * 16) 8
  .ok (handler, newRsp, ⟨restorer, BitVec.ofInt 32 signo, info.getD {}, ⟨savedMask, regs⟩⟩)

/-- Where a task is interrupted. -/
inductive Site where
  | timer
  | syscallReturn
  deriving DecidableEq

/-- The alignment-check flag, which lets the kernel touch user pages under SMAP. -/
def acFlag : Nat := 18

/-- Whether the write of the frame goes through. The end of a system call opens access first; the timer writes
    under the flags of the task it interrupted, and faults for ever when SMAP is on and the flag is clear. -/
def mayWriteFrame (site : Site) (smap : Bool) (regs : Regs) : Bool :=
  match site with
  | .syscallReturn => true
  | .timer => !smap || regs.rflags.getLsbD acFlag

/-- The delivery of a handled signal: the process, the registers the handler starts with and the memory. Nothing
    when there is no signal with a handler, or when the kernel stops on the way. -/
def enterHandler (site : Site) (smap : Bool) (m : ProcessMeta) (regs : Regs) (mem : Mem) :
    Option (ProcessMeta × Regs × Mem) :=
  match m.deliver with
  | some (.userHandler handler signo info _ _, m') =>
    match setupSignalHandler handler signo info (m.actionOf signo).saRestorer m.signalMask regs with
    | .ok (newRip, newRsp, frame) =>
      if mayWriteFrame site smap regs then
        some (m', { regs with rip := newRip, rsp := BitVec.ofNat 64 newRsp, rdi := BitVec.ofInt 64 signo },
          mem.store newRsp frame.toBytes)
      else none
    | .error _ => none
  | _ => none

/-! ## The end of a system call -/

/-- The flags that `sysretq` takes from `r11`. -/
def sysretFlags (r11 : BitVec 64) : BitVec 64 := (r11 &&& 0x3C7FD7) ||| 2

/-- The registers a system call returns with: `user` is what it was entered with, `retval` its result and `ctx` the
    context behind the signal check. -/
def sysretExit (user : Regs) (retval : BitVec 64) (ctx : Regs) : Regs where
  rip := ctx.rip
  rsp := ctx.rsp
  rflags := sysretFlags user.rflags
  rax := retval
  rbx := user.rbx
  rcx := ctx.rip
  rdx := ctx.rdx
  rsi := ctx.rsi
  rdi := ctx.rdi
  rbp := user.rbp
  r8 := ctx.r8
  r9 := ctx.r9
  r10 := ctx.r10
  r11 := user.rflags
  r12 := user.r12
  r13 := user.r13
  r14 := user.r14
  r15 := user.r15

/-- `sys_sigreturn`: the result, and the frame it leaves in the slot. -/
def sysSigreturn (userRsp : Nat) (mem : Mem) : Checked (Int × Option SavedContext) := do
  let framePtr ← sub userRsp 8
  if 0x800000000000 ≤ framePtr then .ok (eFault, none) else .ok (0, some (readFrame mem framePtr))

/-- The system call `sigreturn` of a task, when no other task touches the slot: what the task resumes with, or
    nothing when the call was refused. `locked` says whether another CPU holds the process's lock. -/
def sigreturn (user : Regs) (mem : Mem) (m : ProcessMeta) (locked : Bool) :
    Checked (Option (Regs × ProcessMeta)) := do
  let r ← sysSigreturn user.rsp.toNat mem
  match r.2 with
  | some saved => .ok (some (sysretExit user (BitVec.ofInt 64 r.1) saved.regs, m.restoreMask saved.mask locked))
  | none => .ok none

/-! ## What the delivery does -/

/-- The place of the frame of a task with this stack pointer. -/
def frameBase (rsp : Nat) : Nat := (rsp - frameSize) / 16 * 16 - 8

theorem setupSignalHandler_eq {handler : BitVec 64} {signo : Int} {info : Option SigInfo} {restorer : BitVec 64}
    {savedMask : SigSet} {regs : Regs} (hroom : frameSize + 16 ≤ regs.rsp.toNat) :
    setupSignalHandler handler signo info restorer savedMask regs
      = .ok (handler, frameBase regs.rsp.toNat,
          ⟨restorer, BitVec.ofInt 32 signo, info.getD {}, ⟨savedMask, regs⟩⟩) := by
  unfold setupSignalHandler
  rw [sub_of_le (by omega)]
  simp only [bind, Except.bind]
  rw [sub_of_le (by omega)]
  rfl

/-- **The handler starts with the stack a call leaves.** -/
theorem frameBase_aligned {rsp : Nat} (hroom : frameSize + 16 ≤ rsp) : (frameBase rsp + 8) % 16 = 0 := by
  unfold frameBase
  omega

/-- The frame ends between eight and 23 bytes below the stack pointer. -/
theorem frameBase_bounds {rsp : Nat} (hroom : frameSize + 16 ≤ rsp) :
    frameBase rsp + frameSize + 8 ≤ rsp ∧ rsp ≤ frameBase rsp + frameSize + 23 := by
  unfold frameBase
  omega

theorem enterHandler_eq_some {site : Site} {smap : Bool} {m m' : ProcessMeta} {regs regs' : Regs} {mem mem' : Mem}
    (hroom : frameSize + 16 ≤ regs.rsp.toNat) (h : enterHandler site smap m regs mem = some (m', regs', mem')) :
    regs'.rsp.toNat = frameBase regs.rsp.toNat ∧
    ∃ frame : SignalFrame, frame.saved = ⟨m.signalMask, regs⟩ ∧
      mem' = mem.store (frameBase regs.rsp.toNat) frame.toBytes := by
  unfold enterHandler at h
  split at h
  next _ signo info flags _ m1 _ =>
    rw [setupSignalHandler_eq hroom] at h
    simp only at h
    split at h
    · cases h
      refine ⟨?_, _, rfl, rfl⟩
      rw [BitVec.toNat_ofNat]
      unfold frameBase
      omega
    · cases h
  · cases h

end OxideOs.Signal

import OxideOs.Lib.Ring
import OxideOs.Lib.Run
import OxideOs.Vfs.Error

/-!
# `Vfs.Pipe` — anonymous pipes (`vfs::pipe`)

A pipe is a ring of 64 KiB under a lock, with the counts of its open ends. `read` and `write` are loops: try
under the lock, and when nothing can be moved register on a wait queue, look again under the lock, and block.
A call in flight is the place in that loop it is at; each turn of the lock is one step, and the steps of any
number of readers, writers and closes interleave. A blocked call may go on at any time: wakes, signals and
spurious wake-ups all lead back to the head of the loop.

`returned` and `accepted` record the bytes the calls have moved, in the order of the lock.
-/

namespace OxideOs.Vfs

open List Option

abbrev Byte := BitVec 8

def PIPE_BUF_SIZE : Nat := 65536

structure PipeBuffer where
  data : Nat → Byte
  readPos : Nat
  writePos : Nat
  count : Nat
  readers : Nat
  writers : Nat

namespace PipeBuffer

def new : PipeBuffer := { data := fun _ => 0, readPos := 0, writePos := 0, count := 0, readers := 1, writers := 1 }

/-- `read` into a buffer of `len` bytes: the bytes copied. -/
def read (b : PipeBuffer) (len : Nat) : List Byte × PipeBuffer :=
  if b.count = 0 then ([], b)
  else
    let toRead := min len b.count
    let copied := Ring.drain PIPE_BUF_SIZE b.data b.readPos toRead
    (copied.1, { b with readPos := copied.2, count := b.count - toRead })

/-- `write`: the number of bytes taken from the front of `buf`. -/
def write (b : PipeBuffer) (buf : List Byte) : Nat × PipeBuffer :=
  let available := PIPE_BUF_SIZE - b.count
  if available = 0 then (0, b)
  else
    let toWrite := min buf.length available
    let copied := Ring.fill PIPE_BUF_SIZE b.data b.writePos (buf.take toWrite)
    (toWrite, { b with data := copied.1, writePos := copied.2, count := b.count + toWrite })

def hasWriters (b : PipeBuffer) : Bool := decide (0 < b.writers)

def hasReaders (b : PipeBuffer) : Bool := decide (0 < b.readers)

end PipeBuffer

/-! ## The blocking calls -/

/-- Where a call is in its loop. -/
inductive Phase where
  /-- About to take the lock and try. -/
  | trying
  /-- Registered on the wait queue, about to look again. -/
  | registered
  | blocked
  deriving DecidableEq

/-- What a step makes of a call: it goes on, or it returns. -/
inductive Progress (γ ρ : Type) where
  | on (call : γ)
  | ret (result : ρ)

/-- A `PipeRead::read` in flight, with the length of its buffer. -/
structure ReadCall where
  len : Nat
  phase : Phase
  deriving DecidableEq

/-- A `PipeWrite::write` in flight, with its buffer. -/
structure WriteCall where
  buf : List Byte
  phase : Phase

/-- One turn of `PipeRead::read` under the lock: the bytes it returns with, or `none` to wait. -/
def PipeRead.attempt (b : PipeBuffer) (len : Nat) : Option (List Byte) × PipeBuffer :=
  if b.count = 0 ∧ b.hasWriters = false then (some [], b)
  else
    let copied := b.read len
    if 0 < copied.1.length then (some copied.1, copied.2)
    else if copied.2.hasWriters then (none, copied.2)
    else (some [], copied.2)

/-- One turn of `PipeWrite::write` under the lock: what it returns with, or `none` to wait. -/
def PipeWrite.attempt (b : PipeBuffer) (buf : List Byte) : Option (VfsResult Nat) × PipeBuffer :=
  if b.hasReaders = false then (some (.error .brokenPipe), b)
  else
    let copied := b.write buf
    if 0 < copied.1 then (some (.ok copied.1), copied.2)
    else if copied.2.hasReaders then (none, copied.2)
    else (some (.error .brokenPipe), copied.2)

open PipeWrite

/-- One step of a read; `slot` says whether there is a current task and the wait queue had a slot for it. -/
def ReadCall.step (b : PipeBuffer) (c : ReadCall) (slot : Bool) : Progress ReadCall (List Byte) × PipeBuffer :=
  match c.phase with
  | .trying =>
    match PipeRead.attempt b c.len with
    | (some bytes, b') => (.ret bytes, b')
    | (none, b') => (.on { c with phase := if slot then .registered else .trying }, b')
  | .registered => (.on { c with phase := if 0 < b.count ∨ b.hasWriters = false then .trying else .blocked }, b)
  | .blocked => (.on { c with phase := .trying }, b)

def WriteCall.step (b : PipeBuffer) (c : WriteCall) (slot : Bool) :
    Progress WriteCall (VfsResult Nat) × PipeBuffer :=
  match c.phase with
  | .trying =>
    match attempt b c.buf with
    | (some result, b') => (.ret result, b')
    | (none, b') => (.on { c with phase := if slot then .registered else .trying }, b')
  | .registered =>
    (.on { c with phase := if b.count < PIPE_BUF_SIZE ∨ b.hasReaders = false then .trying else .blocked }, b)
  | .blocked => (.on { c with phase := .trying }, b)

/-! ## The pipe and everyone who uses it -/

structure Pipe where
  buffer : PipeBuffer
  reads : List ReadCall
  writes : List WriteCall
  /-- The bytes reads have returned. -/
  returned : List Byte
  /-- The bytes writes have accepted. -/
  accepted : List Byte

namespace Pipe

/-- `create_pipe` -/
def createPipe : Pipe := { buffer := PipeBuffer.new, reads := [], writes := [], returned := [], accepted := [] }

inductive Action where
  | read (len : Nat)
  | write (buf : List Byte)
  | advanceRead (k : Nat) (slot : Bool)
  | advanceWrite (k : Nat) (slot : Bool)
  /-- The last reference to the read end goes. -/
  | dropRead
  /-- The last reference to the write end goes. -/
  | dropWrite

/-- The `k`-th read in flight makes a step. -/
def advanceRead (p : Pipe) (k : Nat) (c : ReadCall) (slot : Bool) : Pipe :=
  match c.step p.buffer slot with
  | (.on c', b) => { p with buffer := b, reads := p.reads.set k c' }
  | (.ret bytes, b) => { p with buffer := b, reads := p.reads.eraseIdx k, returned := p.returned ++ bytes }

/-- The `k`-th write in flight makes a step. -/
def advanceWrite (p : Pipe) (k : Nat) (c : WriteCall) (slot : Bool) : Pipe :=
  match c.step p.buffer slot with
  | (.on c', b) => { p with buffer := b, writes := p.writes.set k c' }
  | (.ret (.ok n), b) => { p with buffer := b, writes := p.writes.eraseIdx k, accepted := p.accepted ++ c.buf.take n }
  | (.ret (.error _), b) => { p with buffer := b, writes := p.writes.eraseIdx k }

def step (p : Pipe) : Action → Option Pipe
  | .read len => some { p with reads := p.reads ++ [{ len := len, phase := .trying }] }
  | .write buf => some { p with writes := p.writes ++ [{ buf := buf, phase := .trying }] }
  | .advanceRead k slot => p.reads[k]?.map (fun c => p.advanceRead k c slot)
  | .advanceWrite k slot => p.writes[k]?.map (fun c => p.advanceWrite k c slot)
  | .dropRead =>
    if 0 < p.buffer.readers then some { p with buffer := { p.buffer with readers := p.buffer.readers - 1 } }
    else none
  | .dropWrite =>
    if 0 < p.buffer.writers then some { p with buffer := { p.buffer with writers := p.buffer.writers - 1 } }
    else none

/-- Reads and writes of nothing are left out: a `read` into an empty buffer reports the end of the stream when the
    writers are gone, whatever is buffered. -/
def NonEmpty (_ : Pipe) : Action → Prop
  | .read len => 0 < len
  | .write buf => 0 < buf.length
  | _ => True

instance (p : Pipe) (a : Action) : Decidable (p.NonEmpty a) := by
  delta NonEmpty
  cases a <;> infer_instance

end Pipe

/-! ## One access under the lock -/

/-- The buffer holds the bytes `xs`, oldest first. -/
def PipeBuffer.Holds (b : PipeBuffer) (xs : List Byte) : Prop :=
  Ring.Holds PIPE_BUF_SIZE b.data b.readPos b.writePos b.count xs

namespace PipeBuffer

variable {b : PipeBuffer} {xs : List Byte}

theorem new_holds : new.Holds [] := ⟨rfl, rfl, show 0 < PIPE_BUF_SIZE by decide, Nat.zero_le _⟩

theorem Holds.count (h : b.Holds xs) : xs.length = b.count := Ring.Holds.length h

/-- **`read` takes the front of the queue**, as much of it as the caller has room for. -/
theorem Holds.read (h : b.Holds xs) (len : Nat) :
    (b.read len).1 = xs.take len ∧ (b.read len).2.Holds (xs.drop len) := by
  have hlen : xs.length = b.count := h.count
  unfold PipeBuffer.read
  by_cases h0 : b.count = 0
  · have hnil : xs = [] := eq_nil_of_length_eq_zero (hlen.trans h0)
    subst hnil
    rw [if_pos h0, take_nil, drop_nil]
    exact ⟨rfl, h⟩
  rw [if_neg h0]
  obtain ⟨hbytes, hrest⟩ := Ring.Holds.drain h (min_le_right len b.count)
  have htake : xs.take (min len b.count) = xs.take len := by
    rw [← hlen, ← take_eq_take_min]
  have hdrop : xs.drop (min len b.count) = xs.drop len := by
    rw [← hlen]
    simp
  rw [htake] at hbytes
  rw [hdrop] at hrest
  exact ⟨hbytes, hrest⟩

theorem read_nil (h : b.Holds []) (len : Nat) : b.read len = ([], b) := if_pos h.count.symm

/-- **`write` appends to the queue** the part of the buffer it takes. -/
theorem Holds.write (h : b.Holds xs) (buf : List Byte) : (b.write buf).2.Holds (xs ++ buf.take (b.write buf).1) := by
  unfold PipeBuffer.write
  by_cases h0 : PIPE_BUF_SIZE - b.count = 0
  · rw [if_pos h0, take_zero, append_nil]
    exact h
  rw [if_neg h0]
  have hlen : (buf.take (min buf.length (PIPE_BUF_SIZE - b.count))).length =
      min buf.length (PIPE_BUF_SIZE - b.count) := by
    rw [length_take]
    omega
  have hroom : b.count + (buf.take (min buf.length (PIPE_BUF_SIZE - b.count))).length ≤ PIPE_BUF_SIZE := by
    omega
  have hfill := Ring.Holds.fill h hroom
  rw [hlen] at hfill
  exact hfill

theorem write_full (h : b.count = PIPE_BUF_SIZE) (buf : List Byte) : b.write buf = (0, b) :=
  if_pos (by rw [h, Nat.sub_self])

theorem write_pos {buf : List Byte} (h : b.count < PIPE_BUF_SIZE) (hbuf : 0 < buf.length) : 0 < (b.write buf).1 := by
  unfold write
  rw [if_neg (by omega)]
  exact Nat.lt_min.mpr ⟨hbuf, by omega⟩

end PipeBuffer

variable {b : PipeBuffer} {xs : List Byte}

/-- A try to read ends at the end of the stream, waits, or returns the front of the queue. -/
theorem PipeRead.attempt_cases (h : b.Holds xs) {len : Nat} (hlen : 0 < len) :
    (PipeRead.attempt b len = (some [], b) ∧ xs = [] ∧ b.writers = 0) ∨
      (PipeRead.attempt b len = (none, b) ∧ xs = [] ∧ 0 < b.writers) ∨
      ∃ b', PipeRead.attempt b len = (some (xs.take len), b') ∧ xs ≠ [] ∧ b'.Holds (xs.drop len) := by
  unfold attempt
  by_cases hx : xs = []
  · subst hx
    have h0 : b.count = 0 := h.count.symm
    rw [PipeBuffer.read_nil h len]
    by_cases hw : 0 < b.writers
    · have hyes : b.hasWriters = true := decide_eq_true hw
      exact .inr (.inl ⟨by simp [hyes], rfl, hw⟩)
    · have hno : b.hasWriters = false := decide_eq_false hw
      exact .inl ⟨if_pos ⟨h0, hno⟩, rfl, by omega⟩
  obtain ⟨hbytes, hrest⟩ := h.read len
  have hpos : 0 < xs.length := length_pos_iff.mpr hx
  have hcount : b.count ≠ 0 := by
    rw [← h.count]
    omega
  have hsome : 0 < (b.read len).1.length := by
    rw [hbytes, length_take]
    omega
  refine .inr (.inr ⟨(b.read len).2, ?_, hx, hrest⟩)
  rw [if_neg (fun hc => hcount hc.1), ← hbytes]
  exact if_pos hsome

/-- A try to write finds the pipe broken, waits, or appends the part it accepts. -/
theorem PipeWrite.attempt_cases (h : b.Holds xs) {buf : List Byte} (hbuf : 0 < buf.length) :
    (attempt b buf = (some (.error .brokenPipe), b) ∧ b.readers = 0) ∨
      (attempt b buf = (none, b) ∧ b.count = PIPE_BUF_SIZE ∧ 0 < b.readers) ∨
      ∃ n b', attempt b buf = (some (.ok n), b') ∧ 0 < n ∧ b'.Holds (xs ++ buf.take n) := by
  unfold attempt
  by_cases hr : 0 < b.readers
  · have hyes : b.hasReaders = true := decide_eq_true hr
    rw [if_neg (by rw [hyes]; exact Bool.noConfusion)]
    by_cases hfull : b.count = PIPE_BUF_SIZE
    · rw [PipeBuffer.write_full hfull buf]
      exact .inr (.inl ⟨by simp [hyes], hfull, hr⟩)
    have hfits : b.count ≤ PIPE_BUF_SIZE := h.fits
    have hsome : 0 < (b.write buf).1 := PipeBuffer.write_pos (by omega) hbuf
    exact .inr (.inr ⟨_, _, if_pos hsome, hsome, h.write buf⟩)
  · have hno : b.hasReaders = false := decide_eq_false hr
    exact .inl ⟨if_pos hno, by omega⟩

/-- **What a step of a read does.** Only a successful try changes the buffer. -/
theorem ReadCall.step_cases (h : b.Holds xs) {c : ReadCall} (hc : 0 < c.len) (slot : Bool) :
    (∃ c', c.step b slot = (.on c', b) ∧ c'.len = c.len) ∨
      (c.step b slot = (.ret [], b) ∧ xs = [] ∧ b.writers = 0) ∨
      ∃ b', c.step b slot = (.ret (xs.take c.len), b') ∧ xs ≠ [] ∧ b'.Holds (xs.drop c.len) := by
  unfold step
  cases c.phase with
  | trying =>
    rcases PipeRead.attempt_cases h hc with ⟨he, hx, hw⟩ | ⟨he, -⟩ | ⟨b', he, hx, hb⟩
    · rw [he]
      exact .inr (.inl ⟨rfl, hx, hw⟩)
    · rw [he]
      exact .inl ⟨_, rfl, rfl⟩
    · rw [he]
      exact .inr (.inr ⟨b', rfl, hx, hb⟩)
  | registered | blocked => exact .inl ⟨_, rfl, rfl⟩

/-- **What a step of a write does.** Only a successful try changes the buffer. -/
theorem WriteCall.step_cases (h : b.Holds xs) {c : WriteCall} (hc : 0 < c.buf.length) (slot : Bool) :
    (∃ c', c.step b slot = (.on c', b) ∧ c'.buf = c.buf) ∨
      (c.step b slot = (.ret (.error .brokenPipe), b) ∧ b.readers = 0) ∨
      ∃ n b', c.step b slot = (.ret (.ok n), b') ∧ 0 < n ∧ b'.Holds (xs ++ c.buf.take n) := by
  unfold step
  cases c.phase with
  | trying =>
    rcases attempt_cases h hc with ⟨he, hr⟩ | ⟨he, -⟩ | ⟨n, b', he, hn, hb⟩
    · rw [he]
      exact .inr (.inl ⟨rfl, hr⟩)
    · rw [he]
      exact .inl ⟨_, rfl, rfl⟩
    · rw [he]
      exact .inr (.inr ⟨n, b', rfl, hn, hb⟩)
  | registered | blocked => exact .inl ⟨_, rfl, rfl⟩

/-! ## Runs -/

namespace Pipe

/-- **The stream law**: what was accepted is what was returned, followed by what is buffered. -/
structure Fifo (p : Pipe) (xs : List Byte) : Prop where
  holds : p.buffer.Holds xs
  stream : p.accepted = p.returned ++ xs
  reads : ∀ c ∈ p.reads, 0 < c.len
  writes : ∀ c ∈ p.writes, 0 < c.buf.length

variable {p p' : Pipe}

theorem fifo_createPipe : Fifo createPipe [] where
  holds := PipeBuffer.new_holds
  stream := rfl
  reads := fun _ hc => nomatch hc
  writes := fun _ hc => nomatch hc

theorem Fifo.advanceRead (h : Fifo p xs) {k : Nat} {c : ReadCall} (hk : p.reads[k]? = some c) (slot : Bool) :
    ∃ ys, Fifo (p.advanceRead k c slot) ys := by
  have hc : 0 < c.len := h.reads c (mem_of_getElem? hk)
  have herase : ∀ c ∈ p.reads.eraseIdx k, 0 < c.len := fun d hd => h.reads d (mem_of_mem_eraseIdx hd)
  unfold Pipe.advanceRead
  rcases ReadCall.step_cases h.holds hc slot with ⟨c', he, hlen⟩ | ⟨he, -⟩ | ⟨b', he, -, hb⟩
  · rw [he]
    refine ⟨xs, h.holds, h.stream, fun d hd => ?_, h.writes⟩
    rcases mem_or_eq_of_mem_set hd with hd | rfl
    · exact h.reads d hd
    · exact hlen ▸ hc
  · rw [he]
    refine ⟨xs, h.holds, ?_, herase, h.writes⟩
    show p.accepted = (p.returned ++ []) ++ xs
    rw [append_nil]
    exact h.stream
  · rw [he]
    refine ⟨xs.drop c.len, hb, ?_, herase, h.writes⟩
    rw [append_assoc, take_append_drop]
    exact h.stream

theorem Fifo.advanceWrite (h : Fifo p xs) {k : Nat} {c : WriteCall} (hk : p.writes[k]? = some c) (slot : Bool) :
    ∃ ys, Fifo (p.advanceWrite k c slot) ys := by
  have hc : 0 < c.buf.length := h.writes c (mem_of_getElem? hk)
  have herase : ∀ c ∈ p.writes.eraseIdx k, 0 < c.buf.length := fun d hd => h.writes d (mem_of_mem_eraseIdx hd)
  unfold Pipe.advanceWrite
  rcases WriteCall.step_cases h.holds hc slot with ⟨c', he, hbuf⟩ | ⟨he, -⟩ | ⟨n, b', he, -, hb⟩
  · rw [he]
    refine ⟨xs, h.holds, h.stream, h.reads, fun d hd => ?_⟩
    rcases mem_or_eq_of_mem_set hd with hd | rfl
    · exact h.writes d hd
    · exact hbuf ▸ hc
  · rw [he]
    exact ⟨xs, h.holds, h.stream, h.reads, herase⟩
  · rw [he]
    refine ⟨xs ++ c.buf.take n, hb, ?_, h.reads, herase⟩
    rw [← append_assoc, ← h.stream]

/-- One step, by whomever, keeps the stream law. -/
theorem Fifo.step (h : Fifo p xs) {a : Action} (hok : p.NonEmpty a) (hstep : p.step a = some p') :
    ∃ ys, Fifo p' ys := by
  cases a with
  | read len =>
    cases hstep
    exact ⟨xs, h.holds, h.stream, forall_mem_append.mpr ⟨h.reads, forall_mem_singleton.mpr hok⟩, h.writes⟩
  | write buf =>
    cases hstep
    exact ⟨xs, h.holds, h.stream, h.reads, forall_mem_append.mpr ⟨h.writes, forall_mem_singleton.mpr hok⟩⟩
  | advanceRead k slot =>
    obtain ⟨c, hk, rfl⟩ := map_eq_some_iff.mp hstep
    exact h.advanceRead hk slot
  | advanceWrite k slot =>
    obtain ⟨c, hk, rfl⟩ := map_eq_some_iff.mp hstep
    exact h.advanceWrite hk slot
  | dropRead | dropWrite =>
    simp only [Pipe.step, ite_none_right_eq_some, some.injEq] at hstep
    obtain ⟨-, rfl⟩ := hstep
    exact ⟨xs, { h with }⟩

/-- **A pipe is a first-in first-out byte stream.** In every state that any interleaving of non-empty reads and
    writes and of closes reaches, the bytes returned so far followed by the at most 65536 bytes still buffered
    are the bytes accepted so far. A read returns 0 only at an empty buffer that no writer is left for, and a
    write fails only with a broken pipe, and only when no reader is left. -/
theorem pipe_fifo {p : Pipe} (h : Run.Reach Pipe.step NonEmpty (fun p => p = createPipe) p) :
    p.returned <+: p.accepted ∧ p.buffer.count ≤ 65536 ∧
      (∃ xs, p.buffer.Holds xs ∧ p.accepted = p.returned ++ xs) ∧
      (∀ (k : Nat) (c : ReadCall) slot b, p.reads[k]? = some c → c.step p.buffer slot = (.ret [], b) →
        p.buffer.count = 0 ∧ p.buffer.writers = 0) ∧
      ∀ (k : Nat) (c : WriteCall) slot e b, p.writes[k]? = some c → c.step p.buffer slot = (.ret (.error e), b) →
        e = .brokenPipe ∧ p.buffer.readers = 0 := by
  obtain ⟨xs, hx⟩ : ∃ xs, Fifo p xs := by
    refine Run.Steps.invariant (fun p => ∃ xs, Fifo p xs) ?_ h ⟨[], fifo_createPipe⟩
    rintro p a p' ⟨xs, hx⟩ hok hstep
    exact hx.step hok hstep
  refine ⟨⟨xs, hx.stream.symm⟩, hx.holds.fits, ⟨xs, hx.holds, hx.stream⟩, ?_, ?_⟩
  · intro k c slot b hk he
    have hc : 0 < c.len := hx.reads c (mem_of_getElem? hk)
    rcases ReadCall.step_cases hx.holds hc slot with ⟨c', h', -⟩ | ⟨-, hnil, hw⟩ | ⟨b', h', hne, -⟩
    · cases he.symm.trans h'
    · exact ⟨by rw [← hx.holds.count, hnil]; rfl, hw⟩
    -- a successful read moves at least one byte
    have htake : xs.take c.len = [] := by
      injection he.symm.trans h' with h1
      injection h1 with h2
      exact h2.symm
    rcases take_eq_nil_iff.mp htake with h0 | h0
    · omega
    · exact absurd h0 hne
  · intro k c slot e b hk he
    have hc : 0 < c.buf.length := hx.writes c (mem_of_getElem? hk)
    rcases WriteCall.step_cases hx.holds hc slot with ⟨c', h', -⟩ | ⟨h', hr⟩ | ⟨n, b', h', -⟩
    · cases he.symm.trans h'
    · cases he.symm.trans h'
      exact ⟨rfl, hr⟩
    · cases he.symm.trans h'

/-- Two writers, a read of part of what they wrote, and the close of the write end. -/
def partialRead : List Action :=
  [.write [1, 2, 3], .read 2, .write [4], .advanceWrite 1 true, .advanceWrite 0 true, .advanceRead 0 true,
    .dropWrite, .read 9]

/-- Of the bytes 4, 1, 2, 3 the first two are returned, and the next read does not see the end of the stream. -/
theorem pipe_fifo_partialRead :
    ∃ p, Run.exec Pipe.step NonEmpty createPipe partialRead = some p ∧ p.returned = [4, 1] ∧
      p.accepted = [4, 1, 2, 3] ∧ p.returned <+: p.accepted ∧
      ∀ b, ReadCall.step p.buffer { len := 9, phase := .trying } true ≠ (.ret [], b) := by
  obtain ⟨p, hp, hret, hacc, _, hreads⟩ : ∃ p, Run.exec step NonEmpty createPipe partialRead = some p ∧
      p.returned = [4, 1] ∧ p.accepted = [4, 1, 2, 3] ∧ p.buffer.count = 2 ∧
      p.reads = [{ len := 9, phase := .trying }] := Run.exists_of_any (by decide +kernel)
  have hstart : Run.Reach step NonEmpty (fun p => p = createPipe) createPipe := .start rfl
  have hfifo := pipe_fifo (hstart.exec hp)
  refine ⟨p, hp, hret, hacc, hfifo.1, fun b hb => ?_⟩
  have hk : p.reads[0]? = some { len := 9, phase := .trying } := by
    rw [hreads]
    rfl
  have hempty := (hfifo.2.2.2.1 0 _ true b hk hb).1
  omega

end Pipe

end OxideOs.Vfs

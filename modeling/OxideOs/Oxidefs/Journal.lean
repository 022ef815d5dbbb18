import OxideOs.Lib.Disk
import OxideOs.Lib.Encode
import OxideOs.Lib.Run

/-!
# `Oxidefs.Journal` — the write-ahead journal of OXIDEFS

`Journal` (`fs/oxidefs/journal`) keeps records in a circular area of `size - 1` blocks behind a header block. A
commit writes its records, flushes, writes the blocks in place, flushes, and then moves `tail` to `head` and
writes the header; the header is written nowhere else but at `init` and after a recovery. So the header on the
device always says `head = tail`, and `recover`, which replays the records from `tail` up to `head`, finds none:
what a crash between the two flushes did not write in place is not written any more.

The device is `Lib.Disk`: a crash keeps any of the writes since the last flush.
-/

namespace OxideOs.Oxidefs

open Checked

/-! ## Errors -/

inductive OxidefsError where
  | invalidMagic
  | corruptedSuperblock
  | corruptedInode
  | noSpace
  | noInodes
  | nameTooLong
  | notDirectory
  | isDirectory
  | notEmpty
  | fileExists
  | notFound
  | ioError
  | readOnly
  | invalidArgument
  deriving DecidableEq

abbrev OxidefsResult (α : Type) := Except OxidefsError α

abbrev Block := List Byte

/-- `alloc::vec![0u8; n]` -/
def zeros (n : Nat) : Block := List.replicate n 0

/-! ## The header -/

def JOURNAL_MAGIC : BitVec 32 := 0x4A524E4C

inductive JournalBlockType where
  | start
  | data
  | commit
  | revoke
  deriving DecidableEq

def JournalBlockType.code : JournalBlockType → Nat
  | .start => 1
  | .data => 2
  | .commit => 3
  | .revoke => 4

structure JournalHeader where
  magic : BitVec 32
  size : BitVec 32
  head : BitVec 32
  tail : BitVec 32
  nextTid : BitVec 64
  deriving DecidableEq

namespace JournalHeader

def parse (data : Block) : Checked (OxidefsResult JournalHeader) :=
  if data.length < 24 then .ok (.error .ioError)
  else do
    let magic ← leAt data 0 4
    let size ← leAt data 4 4
    let head ← leAt data 8 4
    let tail ← leAt data 12 4
    let nextTid ← leAt data 16 8
    .ok (.ok ⟨.ofNat 32 magic, .ofNat 32 size, .ofNat 32 head, .ofNat 32 tail, .ofNat 64 nextTid⟩)

def serialize (h : JournalHeader) (buf : Block) : Checked Block :=
  fill buf [(0, le 4 h.magic.toNat), (4, le 4 h.size.toNat), (8, le 4 h.head.toNat), (12, le 4 h.tail.toNat),
    (16, le 8 h.nextTid.toNat)]

end JournalHeader

/-! ## The journal -/

structure Transaction where
  tid : BitVec 64
  /-- Destination and contents. -/
  blocks : List (Nat × Block)

structure Journal where
  startBlock : Nat
  size : BitVec 32
  head : BitVec 32
  tail : BitVec 32
  nextTid : BitVec 64
  blockSize : Nat

/-- A journal and the device it is on. -/
structure World where
  disk : Disk Block
  journal : Journal

namespace Journal

/-- The block of the device at a position of the journal. -/
def blockAt (j : Journal) (pos : BitVec 32) : Nat := j.startBlock + 1 + pos.toNat

/-- `(pos + count) % (self.size - 1)` -/
def wrap (j : Journal) (pos : BitVec 32) (count : Nat) : Checked (BitVec 32) := do
  let sum ← add32 pos.toNat count
  let len ← sub j.size.toNat 1
  let next ← mod sum len
  .ok (.ofNat 32 next)

def advanceHead (j : Journal) (count : Nat) : Checked Journal := do
  let head ← j.wrap j.head count
  .ok { j with head }

/-- The block `sync_header` writes. -/
def headerBlock (j : Journal) : Checked Block :=
  JournalHeader.serialize ⟨JOURNAL_MAGIC, j.size, j.head, j.tail, j.nextTid⟩ (zeros j.blockSize)

/-- A record of a type, with further fields. -/
def record (j : Journal) (type : JournalBlockType) (fields : List (Nat × Block)) : Checked Block :=
  fill (zeros j.blockSize) ((0, le 4 JOURNAL_MAGIC.toNat) :: (4, le 4 type.code) :: fields)

/-- The second step of a commit: a descriptor with the destination and the data, for each block. -/
def dataWrites (j : Journal) : List (Nat × Block) → Checked (List (Nat × Block) × Journal)
  | [] => .ok ([], j)
  | (dest, data) :: blocks => do
      let descriptor ← j.record .data [(8, le 8 dest)]
      let j₁ ← j.advanceHead 1
      let j₂ ← j₁.advanceHead 1
      let (rest, j₃) ← j₂.dataWrites blocks
      .ok ((j.blockAt j.head, descriptor) :: (j₁.blockAt j₁.head, data) :: rest, j₃)

/-- The first three steps of a commit: what goes to the journal. -/
def logWrites (j : Journal) (tx : Transaction) : Checked (List (Nat × Block) × Journal) := do
  let start ← j.record .start [(8, le 8 tx.tid.toNat), (16, le 4 tx.blocks.length)]
  let j₁ ← j.advanceHead 1
  let (data, j₂) ← j₁.dataWrites tx.blocks
  let commit ← j₂.record .commit [(8, le 8 tx.tid.toNat)]
  let j₃ ← j₂.advanceHead 1
  .ok ((j.blockAt j.head, start) :: data ++ [(j₂.blockAt j₂.head, commit)], j₃)

/-- **`Journal::commit`**: what it asks of the device, in order; it reads nothing back. -/
def commitOps (j : Journal) (tx : Transaction) : Checked (List (DiskOp Block) × Journal) := do
  let (log, j₁) ← j.logWrites tx
  -- the checkpoint
  let j₂ := { j₁ with tail := j₁.head }
  let header ← j₂.headerBlock
  .ok (Disk.writes log ++ .flush :: (Disk.writes tx.blocks ++ .flush :: [.write j.startBlock header, .flush]), j₂)

/-- `Journal::load` -/
def load (disk : Disk Block) (blockSize startBlock : Nat) : Checked (OxidefsResult Journal) := do
  let header ← JournalHeader.parse (disk.view startBlock)
  match header with
  | .error e => .ok (.error e)
  | .ok h =>
    if h.magic ≠ JOURNAL_MAGIC then .ok (.error .ioError)
    else .ok (.ok ⟨startBlock, h.size, h.head, h.tail, h.nextTid, blockSize⟩)

/-- The blocks of one transaction, copied to their destinations. -/
def replay (j : Journal) : Nat → BitVec 32 → Disk Block → Checked (BitVec 32 × Disk Block)
  | 0, pos, disk => .ok (pos, disk)
  | n + 1, pos, disk => do
      let pos₁ ← j.wrap pos 1
      let dest ← leAt (disk.view (j.blockAt pos₁)) 8 8
      let pos₂ ← j.wrap pos₁ 1
      j.replay n pos₂ (disk.act (.write dest (disk.view (j.blockAt pos₂))))

/-- One round of the scan: `none` where it breaks off. -/
def scan (j : Journal) (pos : BitVec 32) (disk : Disk Block) : Checked (Option (BitVec 32) × Disk Block) := do
  let buf := disk.view (j.blockAt pos)
  let magic ← leAt buf 0 4
  if magic ≠ JOURNAL_MAGIC.toNat then .ok (none, disk)
  else do
    let type ← leAt buf 4 4
    if type = JournalBlockType.start.code then do
      let _tid ← leAt buf 8 8
      let numBlocks ← leAt buf 16 4
      let (pos₁, disk₁) ← j.replay numBlocks pos disk
      let next ← j.wrap pos₁ 1
      .ok (some next, disk₁)
    else if type = JournalBlockType.commit.code then do
      let next ← j.wrap pos 1
      .ok (some next, disk)
    else .ok (none, disk)

/-- The scan from a position up to `head`; `none` when the fuel runs out. -/
def scanFrom (j : Journal) : Nat → BitVec 32 → Disk Block → Option (Checked (Disk Block))
  | 0, _, _ => none
  | fuel + 1, pos, disk =>
    if pos = j.head then some (.ok disk)
    else
      match j.scan pos disk with
      | .error e => some (.error e)
      | .ok (none, disk₁) => some (.ok disk₁)
      | .ok (some next, disk₁) => j.scanFrom fuel next disk₁

end Journal

namespace World

/-- `Journal::init` on a device of any contents. -/
def init (disk : Disk Block) (blockSize startBlock : Nat) (size : BitVec 32) : Checked World := do
  let journal : Journal := ⟨startBlock, size, 0, 0, 1, blockSize⟩
  let header ← journal.headerBlock
  .ok ⟨disk.act (.write startBlock header), journal⟩

/-- `Journal::begin` -/
def begin (w : World) : Checked (Transaction × World) :=
  if w.journal.nextTid = BitVec.allOnes 64 then .error .overflow
  else .ok (⟨w.journal.nextTid, []⟩, { w with journal.nextTid := w.journal.nextTid + 1 })

def commit (w : World) (tx : Transaction) : Checked World := do
  let (ops, journal) ← w.journal.commitOps tx
  .ok ⟨w.disk.run ops, journal⟩

/-- Commits of transactions, one after the other. -/
def commits (w : World) : List Transaction → Checked World
  | [] => .ok w
  | tx :: txs => do
      let w₁ ← w.commit tx
      w₁.commits txs

/-- The device when `k` of the operations of a commit have been issued. -/
def interrupted (w : World) (tx : Transaction) (k : Nat) : Checked (Disk Block) := do
  let (ops, _) ← w.journal.commitOps tx
  .ok (w.disk.run (ops.take k))

/-- `Journal::recover`; `none` when the fuel runs out. -/
def recover (w : World) (fuel : Nat) : Option (Checked World) :=
  match w.journal.scanFrom fuel w.journal.tail w.disk with
  | none => none
  | some (.error e) => some (.error e)
  | some (.ok disk) =>
    let journal := { w.journal with tail := w.journal.head }
    some (do
      let header ← journal.headerBlock
      .ok ⟨(disk.act .flush).run [.write journal.startBlock header, .flush], journal⟩)

/-- After a crash: `Journal::load`, then `recover`. -/
def reboot (disk : Disk Block) (blockSize startBlock fuel : Nat) : Option (Checked (OxidefsResult World)) :=
  match Journal.load disk blockSize startBlock with
  | .error e => some (.error e)
  | .ok (.error e) => some (.ok (.error e))
  | .ok (.ok journal) =>
    (World.recover ⟨disk, journal⟩ fuel).map (fun r => do
      let w ← r
      .ok (.ok w))

end World

end OxideOs.Oxidefs

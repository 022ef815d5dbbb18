import OxideOs.Lib.Bytes
import OxideOs.Lib.Content
import OxideOs.Lib.Run
import OxideOs.Vfs.Error

/-!
# `Vfs.MemFile` — files in memory behind `lseek`, `read` and `write`

`tmpfs` files (`vfs/tmpfs`) and `memfd` files (`vfs/vfs/memfd`) keep their contents in one vector; a `File`
(`vfs/vfs/file`) adds a position that `sys_lseek` moves. Positions are `u64`, user offsets are `i64`: `SEEK_SET`
casts the one to the other, and a position near `2 ^ 64` makes the sum with a length leave `usize`.
-/

namespace OxideOs.Vfs.MemFile

open List Checked Content Nat

/-! ## The vnodes -/

def F_SEAL_SHRINK : BitVec 32 := 2
def F_SEAL_GROW : BitVec 32 := 4
def F_SEAL_WRITE : BitVec 32 := 8

/-- The two kinds of files in memory; a `memfd` has seals. -/
inductive Kind where
  | tmpFile
  | memFd (seals : BitVec 32)
  deriving DecidableEq

def Kind.sealed (k : Kind) (bit : BitVec 32) : Bool :=
  match k with
  | .tmpFile => false
  | .memFd seals => seals &&& bit != 0

structure Node where
  kind : Kind
  data : List Byte

namespace Node

def size (v : Node) : Nat := v.data.length

/-- `VnodeOps::read`: the bytes copied into a buffer of `len` bytes. -/
def read (v : Node) (offset len : Nat) : Checked (List Byte) :=
  if v.data.length ≤ offset then .ok []
  else do
    let available ← sub v.data.length offset
    let toRead := min len available
    slice v.data offset (offset + toRead)

/-- `data[offset..offset + buf.len()].copy_from_slice(buf)` -/
def copyFrom (data : List Byte) (offset : Nat) (buf : List Byte) : Checked (List Byte) :=
  if offset + buf.length ≤ data.length then .ok (splice data offset buf) else .error .outOfBounds

/-- `VnodeOps::write`. -/
def write (v : Node) (offset : Nat) (buf : List Byte) : Checked (VfsResult Nat × Node) :=
  if v.kind.sealed F_SEAL_WRITE then .ok (.error .permissionDenied, v)
  else do
    let requiredLen ← add offset buf.length
    if v.data.length < requiredLen ∧ v.kind.sealed F_SEAL_GROW then .ok (.error .permissionDenied, v)
    else do
      let data ← copyFrom (if v.data.length < requiredLen then resize v.data requiredLen else v.data)
        offset buf
      .ok (.ok buf.length, { v with data := data })

/-- `VnodeOps::truncate`. -/
def truncate (v : Node) (n : Nat) : VfsResult Unit × Node :=
  if v.kind.sealed F_SEAL_SHRINK ∧ n < v.data.length then (.error .permissionDenied, v)
  else if v.kind.sealed F_SEAL_GROW ∧ v.data.length < n then (.error .permissionDenied, v)
  else (.ok (), { v with data := resize v.data n })

end Node

/-! ## Open files -/

inductive SeekFrom where
  | start (pos : BitVec 64)
  | fromEnd (offset : BitVec 64)
  | current (offset : BitVec 64)

/-- An open file; of its flags, the access mode and `O_APPEND` matter here. -/
structure File where
  readable : Bool
  writable : Bool
  append : Bool
  position : BitVec 64
  deriving DecidableEq

namespace File

/-- `checked_sub` and `checked_add` of a position and an `i64`. -/
def shift (base offset : BitVec 64) : Checked (VfsResult (BitVec 64)) :=
  if offset.toInt < 0 then do
    let m ← neg offset
    .ok (if m ≤ base then .ok (base - m) else .error .invalidArgument)
  else .ok (if base.toNat + offset.toNat < 2 ^ 64 then .ok (base + offset) else .error .invalidArgument)

def seek (f : File) (size : BitVec 64) (whence : SeekFrom) : Checked (VfsResult (BitVec 64) × File) := do
  let newPos ← match whence with
    | .start pos => .ok (.ok pos)
    | .fromEnd offset => shift size offset
    | .current offset => shift f.position offset
  match newPos with
  | .ok pos => .ok (.ok pos, { f with position := pos })
  | .error e => .ok (.error e, f)

def read (f : File) (v : Node) (len : Nat) : Checked (VfsResult (List Byte) × File) :=
  if f.readable = false then .ok (.error .permissionDenied, f)
  else do
    let bytes ← v.read f.position.toNat len
    .ok (.ok bytes, { f with position := f.position + BitVec.ofNat 64 bytes.length })

/-- Where `write` writes. -/
def writePos (f : File) (v : Node) : Nat := if f.append then v.size else f.position.toNat

def write (f : File) (v : Node) (buf : List Byte) : Checked (VfsResult Nat × File × Node) :=
  if f.writable = false then .ok (.error .permissionDenied, f, v)
  else do
    let r ← v.write (f.writePos v) buf
    match r.1 with
    | .ok n => .ok (.ok n, { f with position := BitVec.ofNat 64 (f.writePos v + n) }, r.2)
    | .error e => .ok (.error e, f, r.2)

def truncate (f : File) (v : Node) (n : Nat) : VfsResult Unit × Node :=
  if f.writable = false then (.error .permissionDenied, v) else v.truncate n

end File

/-! ## One file, opened any number of times -/

structure World where
  node : Node
  files : List File

inductive Action where
  /-- A new `File`, with these flags, at position 0. -/
  | openFile (readable writable append : Bool)
  | lseek (fd : Nat) (offset : BitVec 64) (whence : Int)
  | read (fd : Nat) (len : Nat)
  | write (fd : Nat) (buf : List Byte)
  | truncate (fd : Nat) (n : Nat)

inductive Reply where
  | opened
  /-- The value `sys_lseek` returns. -/
  | position (r : Int)
  | bytes (r : VfsResult (List Byte))
  | count (r : VfsResult Nat)
  | done (r : VfsResult Unit)

namespace World

def setFile (w : World) (fd : Nat) (f : File) : World := { w with files := w.files.set fd f }

/-- `sys_lseek` -/
def sysLseek (w : World) (fd : Nat) (offset : BitVec 64) (whence : Int) : Checked (Int × World) :=
  match w.files[fd]? with
  | none => .ok (VfsError.badFd.toErrno, w)
  | some f =>
    let go (whence : SeekFrom) : Checked (Int × World) := do
      let r ← f.seek (BitVec.ofNat 64 w.node.size) whence
      .ok (match r.1 with
        | .ok pos => (pos.toInt, w.setFile fd r.2)
        | .error e => (e.toErrno, w.setFile fd r.2))
    if whence = 0 then go (.start offset)
    else if whence = 1 then go (.current offset)
    else if whence = 2 then go (.fromEnd offset)
    else .ok (VfsError.invalidArgument.toErrno, w)

def act (w : World) : Action → Checked (Reply × World)
  | .openFile readable writable append =>
    .ok (.opened, { w with files := w.files ++ [⟨readable, writable, append, 0⟩] })
  | .lseek fd offset whence => do
      let r ← w.sysLseek fd offset whence
      .ok (.position r.1, r.2)
  | .read fd len =>
    match w.files[fd]? with
    | none => .ok (.bytes (.error .badFd), w)
    | some f => do
        let r ← f.read w.node len
        .ok (.bytes r.1, w.setFile fd r.2)
  | .write fd buf =>
    match w.files[fd]? with
    | none => .ok (.count (.error .badFd), w)
    | some f => do
        let r ← f.write w.node buf
        .ok (.count r.1, { w.setFile fd r.2.1 with node := r.2.2 })
  | .truncate fd n =>
    match w.files[fd]? with
    | none => .ok (.done (.error .badFd), w)
    | some f => .ok (.done (f.truncate w.node n).1, { w with node := (f.truncate w.node n).2 })

end World

/-! ## What the file should hold -/

/-- A file with the contents its writes and truncations should have left, and the positions its open files should
    have come to. -/
structure Shadow where
  world : World
  content : Content Byte
  positions : List Nat

namespace Shadow

def position (s : Shadow) (fd : Nat) : Nat := s.positions.getD fd 0

/-- Where a seek should go. -/
def target (s : Shadow) (fd : Nat) (offset : BitVec 64) (whence : Int) : Int :=
  offset.toInt + if whence = 1 then s.position fd else if whence = 2 then s.content.size else 0

/-- Where a write should begin. -/
def writeAt (s : Shadow) (fd : Nat) : Nat :=
  if (s.world.files[fd]?).any (fun f => f.append) then s.content.size else s.position fd

/-- Contents and positions after a call that got this reply. -/
def record (s : Shadow) (w : World) (a : Action) (r : Reply) : Shadow :=
  match a, r with
  | .openFile _ _ _, _ => ⟨w, s.content, s.positions ++ [0]⟩
  | .lseek fd offset whence, .position r =>
    ⟨w, s.content, if r < 0 then s.positions else s.positions.set fd (s.target fd offset whence).toNat⟩
  | .read fd len, .bytes (.ok _) =>
    ⟨w, s.content, s.positions.set fd (s.position fd + (s.content.read (s.position fd) len).length)⟩
  | .write fd buf, .count (.ok _) =>
    ⟨w, s.content.write (s.writeAt fd) buf, s.positions.set fd (s.writeAt fd + buf.length)⟩
  | .truncate _ n, .done (.ok _) => ⟨w, s.content.truncate n, s.positions⟩
  | _, _ => ⟨w, s.content, s.positions⟩

def step (s : Shadow) (a : Action) : Option Shadow :=
  match s.world.act a with
  | .ok r => some (s.record r.2 a r.1)
  | .error _ => none

end Shadow

/-- A file that was just created, not open yet. -/
def Fresh (s : Shadow) : Prop :=
  s.world.node.data = [] ∧ s.world.files = [] ∧ s.content = empty ∧ s.positions = []

/-- **There is memory for the size the call asks for**: a vector's length is an `isize`, and so is a buffer's. -/
def SufficientMemory (s : Shadow) (a : Action) : Prop :=
  match a with
  | .write fd buf => buf.length < 2 ^ 63 ∧
      ∀ f ∈ s.world.files[fd]?, (f.writePos s.world.node + buf.length) % 2 ^ 64 < 2 ^ 63
  | .truncate _ n => n < 2 ^ 63
  | _ => True

/-- **The position asked for is an `i64`**: `SEEK_SET` is not negative, and the other two stay below `2 ^ 63`. -/
def SeekInRange (s : Shadow) (a : Action) : Prop :=
  match a with
  | .lseek fd offset whence => ∀ f ∈ s.world.files[fd]?,
      (whence = 0 → 0 ≤ offset.toInt) ∧
        (whence = 1 → offset ≠ BitVec.intMin 64 ∧ f.position.toNat + offset.toInt < 2 ^ 63) ∧
        (whence = 2 → offset ≠ BitVec.intMin 64 ∧ s.world.node.size + offset.toInt < 2 ^ 63)
  | _ => True

instance (s : Shadow) (a : Action) : Decidable (SufficientMemory s a) := by
  delta SufficientMemory
  cases a <;> infer_instance

instance (s : Shadow) (a : Action) : Decidable (SeekInRange s a) := by
  delta SeekInRange
  cases a <;> infer_instance

/-- Both. -/
def InRange (s : Shadow) (a : Action) : Prop := SufficientMemory s a ∧ SeekInRange s a

instance (s : Shadow) (a : Action) : Decidable (InRange s a) := inferInstanceAs (Decidable (_ ∧ _))

/-! ## One call -/

/-- **The invariant**: the vector holds the contents, the files stand where they should, and sizes and positions are
    `i64`s. -/
structure Sound (s : Shadow) : Prop where
  holds : Holds s.world.node.data s.content
  size : s.world.node.data.length < 2 ^ 63
  bound : ∀ f ∈ s.world.files, f.position.toNat < 2 ^ 63
  positions : s.positions = s.world.files.map (fun f => f.position.toNat)

variable {s : Shadow} {v : Node} {f : File} {fd : Nat}

/-- `read` never slices out of range. -/
theorem Node.read_eq (v : Node) (offset len : Nat) : v.read offset len = .ok ((v.data.drop offset).take len) := by
  unfold read
  split
  next hle =>
    rw [drop_eq_nil_of_le hle, take_nil]
  rw [sub_of_le (by omega)]
  show slice v.data offset (offset + min len (v.data.length - offset)) = _
  rw [slice_of_le (by omega) (by omega), drop_take]
  congr 1
  have hlen : (v.data.drop offset).length = v.data.length - offset := length_drop
  rw [Nat.add_sub_cancel_left, ← hlen]
  exact (take_eq_take_min).symm

/-- `write` copies into a vector that is long enough. -/
theorem Node.write_cases {offset : Nat} {buf : List Byte} (h : offset + buf.length < 2 ^ 64) :
    v.write offset buf = .ok (.error .permissionDenied, v) ∨
      v.write offset buf = .ok (.ok buf.length, { v with
        data := splice
          (if v.data.length < offset + buf.length then resize v.data (offset + buf.length) else v.data)
          offset buf }) := by
  unfold write
  split
  · exact .inl rfl
  rw [add_of_lt h]
  show (if v.data.length < offset + buf.length ∧ _ then _ else _) = _ ∨
    (if v.data.length < offset + buf.length ∧ _ then _ else _) = _
  split
  · exact .inl rfl
  right
  have hfits : offset + buf.length ≤
      (if v.data.length < offset + buf.length then resize v.data (offset + buf.length) else v.data).length := by
    split
    · rw [length_resize]
    · omega
  unfold copyFrom
  rw [if_pos hfits]
  rfl

theorem Sound.setFile (h : Sound s) {f' : File} {pos : Nat} (hpos : f'.position.toNat = pos) (hlt : pos < 2 ^ 63) :
    Sound ⟨s.world.setFile fd f', s.content, s.positions.set fd pos⟩ := by
  refine ⟨h.holds, h.size, ?_, ?_⟩
  · intro g hg
    rcases mem_or_eq_of_mem_set hg with hg | hg
    · exact h.bound g hg
    · rw [hg, hpos]
      exact hlt
  · show s.positions.set fd pos = (s.world.files.set fd f').map _
    rw [map_set, hpos, h.positions]

/-- The position and the place of a write, as the code has them. -/
theorem Sound.position_eq (h : Sound s) (hf : s.world.files[fd]? = some f) : s.position fd = f.position.toNat := by
  unfold Shadow.position
  rw [h.positions, getD_eq_getElem?_getD, getElem?_map, hf]
  rfl

theorem Sound.writeAt_eq (h : Sound s) (hf : s.world.files[fd]? = some f) : s.writeAt fd = f.writePos s.world.node := by
  unfold Shadow.writeAt File.writePos
  rw [hf, h.position_eq hf, ← h.holds.1]
  rfl

/-- Moving a position: the sum, if it is one. -/
theorem File.shift_cases {base offset : BitVec 64} (hmin : offset ≠ BitVec.intMin 64) :
    File.shift base offset = .ok (.error .invalidArgument) ∨
      ∃ pos : BitVec 64, File.shift base offset = .ok (.ok pos) ∧ (pos.toNat : Int) = base.toNat + offset.toInt := by
  have hoff := BitVec.toInt_eq_toNat_cond offset
  have hlt := offset.isLt
  unfold shift
  split
  next hneg =>
    rw [neg_of_ne hmin]
    show (.ok (if -offset ≤ base then _ else _) : Checked _) = _ ∨ ∃ pos : BitVec 64,
      (.ok (if -offset ≤ base then _ else _) : Checked _) = _ ∧ _
    split
    next hle =>
      refine .inr ⟨_, rfl, ?_⟩
      have hm : (-offset).toNat ≤ base.toNat := hle
      rw [BitVec.toNat_sub_of_le hle]
      rw [BitVec.toNat_neg] at hm ⊢
      split at hoff <;> omega
    · exact .inl rfl
  next hpos =>
    split
    next hsum =>
      refine .inr ⟨_, rfl, ?_⟩
      rw [BitVec.toNat_add, mod_eq_of_lt hsum]
      split at hoff <;> omega
    · exact .inl rfl

/-- Where a seek goes, in the code's own words. -/
def SeekFrom.target (f : File) (size : BitVec 64) : SeekFrom → Int
  | .start pos => pos.toNat
  | .fromEnd offset => size.toNat + offset.toInt
  | .current offset => f.position.toNat + offset.toInt

/-- A seek whose target is an `i64`. -/
def SeekFrom.Fits (f : File) (size : BitVec 64) (whence : SeekFrom) : Prop :=
  whence.target f size < 2 ^ 63 ∧ match whence with
    | .start _ => True
    | .fromEnd offset | .current offset => offset ≠ BitVec.intMin 64

/-- Such a seek fails without moving, or moves there. -/
theorem File.seek_cases {size : BitVec 64} {whence : SeekFrom} (h : whence.Fits f size) :
    f.seek size whence = .ok (.error .invalidArgument, f) ∨
      ∃ pos : BitVec 64, f.seek size whence = .ok (.ok pos, { f with position := pos }) ∧
        (pos.toNat : Int) = whence.target f size := by
  unfold seek
  cases whence with
  | start pos => exact .inr ⟨pos, rfl, rfl⟩
  | fromEnd offset | current offset =>
    dsimp only
    rcases shift_cases h.2 with he | ⟨pos, he, hpos⟩
    · rw [he]
      exact .inl rfl
    · rw [he]
      exact .inr ⟨pos, rfl, hpos⟩

theorem World.setFile_self {w : World} (h : w.files[fd]? = some f) : w.setFile fd f = w := by
  have hset : w.files.set fd f = w.files := by
    apply ext_getElem?
    intro i
    rw [getElem?_set]
    split
    next hi =>
      subst hi
      split
      · exact h.symm
      · rw [getElem?_eq_none (by omega)]
    · rfl
  unfold setFile
  rw [hset]

section

/-- What a seek may answer: a negative reply if nothing moved, else the position where it should be. -/
def Sought (s : Shadow) (fd : Nat) (offset : BitVec 64) (whence r : Int) (w : World) : Prop :=
  Sound (s.record w (.lseek fd offset whence) (.position r)) ∧ (r < 0 → w = s.world) ∧
    (0 ≤ r → r = s.target fd offset whence)

variable (h : Sound s)
include h

section

variable {offset : BitVec 64} {whence : Int}

/-- A refused seek changes nothing. -/
theorem Sound.seek_refused (e : VfsError) : Sought s fd offset whence e.toErrno s.world := by
  have hneg := e.toErrno_neg
  refine ⟨?_, fun _ => rfl, fun hnn => by omega⟩
  unfold Shadow.record
  dsimp only
  rw [if_pos hneg]
  exact h

/-- One argument for the three origins. -/
theorem Sound.seek_from (hf : s.world.files[fd]? = some f) {from_ : SeekFrom}
    (hfits : from_.Fits f (BitVec.ofNat 64 s.world.node.size))
    (htarget : from_.target f (BitVec.ofNat 64 s.world.node.size) = s.target fd offset whence) : ∃ r w, (do
      let r ← f.seek (BitVec.ofNat 64 s.world.node.size) from_
      .ok (match r.1 with
        | .ok pos => (pos.toInt, s.world.setFile fd r.2)
        | .error e => (e.toErrno, s.world.setFile fd r.2)) : Checked (Int × World)) = .ok (r, w) ∧
      Sought s fd offset whence r w := by
  rcases File.seek_cases hfits with he | ⟨pos, he, hat⟩
  · rw [he]
    refine ⟨_, _, rfl, ?_⟩
    rw [World.setFile_self hf]
    exact h.seek_refused _
  have hlt := hfits.1
  rw [htarget] at hat hlt
  have hint : pos.toInt = pos.toNat := BitVec.toInt_eq_toNat_of_lt (by omega)
  rw [he]
  refine ⟨_, _, rfl, ?_, fun hneg => ?_, fun _ => hint.trans hat⟩
  · unfold Shadow.record
    dsimp only
    rw [if_neg (by omega), ← hat]
    exact h.setFile rfl (by rw [Int.toNat_natCast]; omega)
  · omega

/-- **`sys_lseek`** does not panic. -/
theorem Sound.lseek (hok : SeekInRange s (.lseek fd offset whence)) :
    ∃ r w, s.world.sysLseek fd offset whence = .ok (r, w) ∧ Sought s fd offset whence r w := by
  unfold World.sysLseek
  cases hf : s.world.files[fd]? with
  | none => exact ⟨_, _, rfl, h.seek_refused _⟩
  | some f =>
    obtain ⟨hset, hcur, hend⟩ := hok f hf
    have hpos := h.position_eq hf
    have hsize : (BitVec.ofNat 64 s.world.node.size).toNat = s.content.size := by
      have hsz := h.size
      rw [BitVec.toNat_ofNat, ← h.holds.1]
      exact mod_eq_of_lt (by unfold Node.size; omega)
    dsimp only
    split
    next h0 =>
      have hnn := hset h0
      have hoff := BitVec.toInt_eq_toNat_cond offset
      have htop := offset.isLt
      have hint : (offset.toNat : Int) = offset.toInt := by split at hoff <;> omega
      refine h.seek_from hf ⟨?_, trivial⟩ ?_
      · show (offset.toNat : Int) < _
        split at hoff <;> omega
      · show (offset.toNat : Int) = _
        rw [Shadow.target, h0, hint]
        simp
    split
    next h1 =>
      have htarget : s.target fd offset whence = f.position.toNat + offset.toInt := by
        unfold Shadow.target
        rw [if_pos h1, hpos, add_comm]
      exact h.seek_from hf ⟨(hcur h1).2, (hcur h1).1⟩ htarget.symm
    split
    next hne1 h2 =>
      have htarget : s.target fd offset whence = s.content.size + offset.toInt := by
        unfold Shadow.target
        rw [if_neg hne1, if_pos h2, add_comm]
      have hsum := (hend h2).2
      refine h.seek_from hf ⟨?_, (hend h2).1⟩ ?_
      · show ((BitVec.ofNat 64 s.world.node.size).toNat : Int) + _ < _
        rw [hsize, ← h.holds.1]
        exact hsum
      · rw [htarget, ← hsize]
        rfl
    · exact ⟨_, _, rfl, h.seek_refused _⟩

end

/-- **`read`** returns the contents. -/
theorem Sound.read {fd len : Nat} (hf : s.world.files[fd]? = some f) :
    (f.readable = false ∧ f.read s.world.node len = .ok (.error .permissionDenied, f)) ∨
      (f.readable = true ∧ ∃ f', f.read s.world.node len = .ok (.ok (s.content.read (s.position fd) len), f') ∧
        f'.position.toNat = s.position fd + (s.content.read (s.position fd) len).length ∧
        s.position fd + (s.content.read (s.position fd) len).length < 2 ^ 63) := by
  have hpos := h.bound f (mem_of_getElem? hf)
  have hsize := h.size
  rw [h.position_eq hf]
  unfold File.read
  cases hr : f.readable with
  | false => exact .inl ⟨rfl, rfl⟩
  | true =>
    have hlen : (s.content.read f.position.toNat len).length ≤ s.world.node.data.length - f.position.toNat := by
      rw [← h.holds.read, length_take, length_drop]
      omega
    refine .inr ⟨rfl, ?_⟩
    rw [Node.read_eq, h.holds.read]
    refine ⟨_, rfl, ?_, by omega⟩
    rw [BitVec.toNat_add, BitVec.toNat_ofNat]
    omega

/-- **`write`** leaves the contents written. -/
theorem Sound.write {buf : List Byte} (hf : s.world.files[fd]? = some f)
    (hbuf : buf.length < 2 ^ 63) (hmem : (f.writePos s.world.node + buf.length) % 2 ^ 64 < 2 ^ 63) :
    ∃ r f' v', f.write s.world.node buf = .ok (r, f', v') ∧
      Sound (s.record { s.world.setFile fd f' with node := v' } (.write fd buf) (.count r)) := by
  have hpos := h.bound f (mem_of_getElem? hf)
  have hsize := h.size
  have hwp : f.writePos s.world.node < 2 ^ 63 := by
    unfold File.writePos
    split
    · exact hsize
    · exact hpos
  have hsum : f.writePos s.world.node + buf.length < 2 ^ 64 := by omega
  rw [mod_eq_of_lt hsum] at hmem
  -- a refused write changes nothing
  have hsame : ∀ e : VfsError, Sound
      (s.record { s.world.setFile fd f with node := s.world.node } (.write fd buf) (.count (.error e))) := by
    intro e
    rw [World.setFile_self hf]
    exact h
  unfold File.write
  split
  · exact ⟨_, _, _, rfl, hsame _⟩
  rcases Node.write_cases hsum with he | he
  · rw [he]
    exact ⟨_, _, _, rfl, hsame _⟩
  rw [he]
  refine ⟨_, _, _, rfl, ?_⟩
  unfold Shadow.record
  dsimp only
  rw [h.writeAt_eq hf]
  have hnew := @Holds.write _ _ _ _ h.holds (f.writePos s.world.node) buf
  have hmoved : Sound ⟨s.world.setFile fd
      { f with position := BitVec.ofNat 64 (f.writePos s.world.node + buf.length) }, s.content, s.positions.set fd _⟩ :=
    h.setFile (by rw [BitVec.toNat_ofNat, mod_eq_of_lt hsum]) hmem
  refine ⟨hnew, ?_, hmoved.bound, hmoved.positions⟩
  rw [hnew.1]
  have hsz := h.holds.1
  show max s.content.size _ < _
  omega

theorem Sound.truncate {fd n : Nat} (hn : n < 2 ^ 63) :
    Sound (s.record { s.world with node := (f.truncate s.world.node n).2 } (.truncate fd n)
      (.done (f.truncate s.world.node n).1)) := by
  unfold File.truncate Node.truncate
  split
  · exact h
  split
  · exact h
  split
  · exact h
  refine ⟨h.holds.truncate n, ?_, h.bound, h.positions⟩
  exact (length_resize _ _).trans_lt hn

/-- **What a call should do**: a failed seek changes nothing and another one replies with its target, a read returns
    the contents at the file's position. -/
structure Serves (s : Shadow) (a : Action) (reply : Reply) (w : World) : Prop where
  sound : Sound (s.record w a reply)
  seek : ∀ r, reply = .position r → r < 0 → w = s.world
  target : ∀ fd offset whence r, a = .lseek fd offset whence → reply = .position r → 0 ≤ r →
    r = s.target fd offset whence
  read : ∀ fd len f, a = .read fd len → s.world.files[fd]? = some f → f.readable = true →
    reply = .bytes (.ok (s.content.read (s.position fd) len))

theorem Sound.act_openFile (readable writable append : Bool) :
    ∃ reply w, s.world.act (.openFile readable writable append) = .ok (reply, w) ∧
      Serves s (.openFile readable writable append) reply w := by
  refine ⟨_, _, rfl, ⟨h.holds, h.size, ?_, ?_⟩, nofun, nofun, nofun⟩
  · exact forall_mem_append.mpr ⟨h.bound, forall_mem_singleton.mpr (Nat.two_pow_pos 63)⟩
  · show s.positions ++ [0] = (s.world.files ++ [_]).map _
    rw [map_append, h.positions]
    rfl

theorem Sound.act_lseek {offset : BitVec 64} {whence : Int} (hok : SeekInRange s (.lseek fd offset whence)) :
    ∃ reply w, s.world.act (.lseek fd offset whence) = .ok (reply, w) ∧
      Serves s (.lseek fd offset whence) reply w := by
  obtain ⟨r, w, he, hsound, hneg, htarget⟩ := h.lseek hok
  refine ⟨.position r, w, ?_, hsound, ?_, ?_, nofun⟩
  · simp only [World.act, he]
    rfl
  · intro r' hr
    cases hr
    exact hneg
  · intro fd' offset' whence' r' ha hr
    cases ha
    cases hr
    exact htarget

theorem Sound.act_read (fd len : Nat) :
    ∃ reply w, s.world.act (.read fd len) = .ok (reply, w) ∧ Serves s (.read fd len) reply w := by
  cases hf : s.world.files[fd]? with
  | none =>
    simp only [World.act, hf]
    refine ⟨_, _, rfl, h, nofun, nofun, ?_⟩
    intro fd' len' f' ha hf'
    cases ha
    rw [hf] at hf'
    cases hf'
  | some f =>
    rcases @read s f h fd len hf with ⟨hr, he⟩ | ⟨hr, f', he, hpos, hlt⟩
    · simp only [World.act, hf, he]
      refine ⟨_, _, rfl, ?_, nofun, nofun, ?_⟩
      · show Sound ⟨s.world.setFile fd f, s.content, s.positions⟩
        rw [World.setFile_self hf]
        exact h
      intro fd' len' f' ha hf' hr'
      cases ha
      rw [hf] at hf'
      cases hf'
      rw [hr] at hr'
      cases hr'
    · simp only [World.act, hf, he]
      refine ⟨_, _, rfl, h.setFile hpos hlt, nofun, nofun, ?_⟩
      intro fd' len' f' ha _ _
      cases ha
      rfl

theorem Sound.act_write {buf : List Byte} (hok : SufficientMemory s (.write fd buf)) :
    ∃ reply w, s.world.act (.write fd buf) = .ok (reply, w) ∧ Serves s (.write fd buf) reply w := by
  cases hf : s.world.files[fd]? with
  | none =>
    simp only [World.act, hf]
    exact ⟨_, _, rfl, h, nofun, nofun, nofun⟩
  | some f =>
    obtain ⟨r, f', v', he, hsound⟩ := h.write hf hok.1 (hok.2 f hf)
    simp only [World.act, hf, he]
    exact ⟨_, _, rfl, hsound, nofun, nofun, nofun⟩

theorem Sound.act_truncate {fd n : Nat} (hok : SufficientMemory s (.truncate fd n)) :
    ∃ reply w, s.world.act (.truncate fd n) = .ok (reply, w) ∧ Serves s (.truncate fd n) reply w := by
  cases hf : s.world.files[fd]? with
  | none =>
    simp only [World.act, hf]
    exact ⟨_, _, rfl, h, nofun, nofun, nofun⟩
  | some f =>
    simp only [World.act, hf]
    exact ⟨_, _, rfl, h.truncate hok, nofun, nofun, nofun⟩

/-- **One call** does not panic and does what it should. -/
theorem Sound.act {a : Action} (hok : InRange s a) :
    ∃ reply w, s.world.act a = .ok (reply, w) ∧ Serves s a reply w := by
  cases a with
  | openFile readable writable append => exact h.act_openFile readable writable append
  | lseek fd offset whence => exact h.act_lseek hok.2
  | read fd len => exact h.act_read fd len
  | write fd buf => exact h.act_write hok.1
  | truncate fd n => exact h.act_truncate hok.1

end

theorem Fresh.sound (h : Fresh s) : Sound s := by
  obtain ⟨hdata, hfiles, hcontent, hpositions⟩ := h
  refine ⟨?_, ?_, ?_, ?_⟩
  · rw [hdata, hcontent]
    exact holds_empty
  · rw [hdata]
    decide
  · rw [hfiles]
    exact nofun
  · rw [hfiles, hpositions]
    rfl

/-- **Files in memory are byte arrays**, in every run of all calls through any number of open files whose seeks ask
    for an `i64` position: no call panics, a failed `lseek` changes nothing and another one replies with its target,
    every file stands where its seeks, reads and writes should have left it, and `read` returns what was last written
    there, with zeros in holes, up to the size. -/
theorem mem_files_are_arrays (h : Run.Reach Shadow.step InRange Fresh s) {a : Action} (hok : InRange s a) :
    ∃ reply w, s.world.act a = .ok (reply, w) ∧
      (∀ r, reply = .position r → r < 0 → w = s.world) ∧
      (∀ fd offset whence r, a = .lseek fd offset whence → reply = .position r → 0 ≤ r →
        r = s.target fd offset whence) ∧
      (∀ fd len f, a = .read fd len → s.world.files[fd]? = some f → f.readable = true →
        reply = .bytes (.ok (s.content.read (s.position fd) len))) ∧
      s.world.files.map (fun f => f.position.toNat) = s.positions := by
  have hsound : Sound s := by
    refine h.invariant Sound (fun _ h0 => h0.sound) ?_
    intro t b t' ht hb hs
    obtain ⟨reply, w, he, hserves⟩ := ht.act hb
    unfold Shadow.step at hs
    rw [he] at hs
    cases hs
    exact hserves.sound
  obtain ⟨reply, w, he, hserves⟩ := hsound.act hok
  exact ⟨reply, w, he, hserves.seek, hserves.target, hserves.read, hsound.positions.symm⟩

/-- A new `tmpfs` file. -/
def newTmpFile : Shadow := ⟨⟨⟨.tmpFile, []⟩, []⟩, empty, []⟩

/-- A hole is read as zeros. -/
theorem mem_files_are_arrays_hole : ∃ s : Shadow, Run.Reach Shadow.step InRange Fresh s ∧
    ∃ w, s.world.act (.read 0 10) = .ok (.bytes (.ok [0, 0, 0, 7]), w) := by
  obtain ⟨s, hreach, hbytes, hfile⟩ : ∃ s, Run.Reach Shadow.step InRange Fresh s ∧
      s.content.read (s.position 0) 10 = [0, 0, 0, 7] ∧ s.world.files[0]? = some ⟨true, true, false, 0⟩ :=
    Run.Reach.exists_exec (s := newTmpFile) [.openFile true true false, .lseek 0 3 0, .write 0 [7], .lseek 0 (-4) 1]
      ⟨rfl, rfl, rfl, rfl⟩ (by decide +kernel)
  obtain ⟨reply, w, he, -, -, hread⟩ := mem_files_are_arrays hreach (a := .read 0 10) ⟨trivial, trivial⟩
  rw [hread.1 0 10 _ rfl hfile rfl, hbytes] at he
  exact ⟨s, hreach, w, he⟩

/-- The file, opened for reading and writing. -/
def opened : Shadow := ⟨⟨⟨.tmpFile, []⟩, [⟨true, true, false, 0⟩]⟩, empty, [0]⟩

/-- The file after a seek to -22. -/
def sought : Shadow := ⟨⟨⟨.tmpFile, []⟩, [⟨true, true, false, -22⟩]⟩, empty, [0]⟩

/-- **A negative `SEEK_SET`** replies with its own value, here that of `EINVAL`, and moves the position to the end
    of the address range; the next write leaves `usize`. -/
theorem seek_set_negative :
    Run.Reach Shadow.step SufficientMemory Fresh opened ∧
      opened.world.act (.lseek 0 (-22) 0) = .ok (.position VfsError.invalidArgument.toErrno, sought.world) ∧
      sought.world.files ≠ opened.world.files ∧ SufficientMemory sought (.write 0 (List.replicate 30 1)) ∧
      sought.world.act (.write 0 (List.replicate 30 1)) = .error .overflow := by
  have hstart : Run.Reach Shadow.step SufficientMemory Fresh newTmpFile := .start ⟨rfl, rfl, rfl, rfl⟩
  refine ⟨hstart.next (a := .openFile true true false) trivial rfl, rfl, by decide, by decide +kernel, rfl⟩

end OxideOs.Vfs.MemFile

import OxideOs.Oxidefs.Journal

/-!
# `Oxidefs.Recovery` — what a crash inside a commit leaves

`Idle` is the state of a journal between commits: the header on the device says `head = tail`. A commit keeps it
and puts the transaction's blocks in place; a crash inside it finds the header of one idle journal or the next, so
the recovery writes nothing but the header. A crash before the first write in place leaves the destinations old, and
one after the flush behind the last leaves them new; between the two they are what the crash made of them.
-/

namespace OxideOs.Oxidefs

open List Checked Disk JournalHeader DiskOp

/-! ## Records -/

theorem length_zeros (n : Nat) : (zeros n).length = n := length_replicate

/-- **The header round trip.** -/
theorem JournalHeader.parse_serialize {h : JournalHeader} {buf buf' : Block}
    (hser : h.serialize buf = .ok buf') (hbuf : 24 ≤ buf.length) : parse buf' = .ok (.ok h) := by
  have hlen : buf'.length = buf.length := length_fill hser
  have hapart : Pairwise FieldsApart [(0, le 4 h.magic.toNat), (4, le 4 h.size.toNat),
      (8, le 4 h.head.toNat), (12, le 4 h.tail.toNat), (16, le 8 h.nextTid.toNat)] := by
    simp [FieldsApart]
  unfold parse
  rw [if_neg (by omega), leAt_fill (n := h.magic.toNat) hser hapart (by simp),
    leAt_fill (n := h.size.toNat) hser hapart (by simp), leAt_fill (n := h.head.toNat) hser hapart (by simp),
    leAt_fill (n := h.tail.toNat) hser hapart (by simp), leAt_fill (n := h.nextTid.toNat) hser hapart (by simp)]
  simp only [bind, Except.bind]
  rw [ofNat_ofLe_le 4 h.magic (by decide), ofNat_ofLe_le 4 h.size (by decide),
    ofNat_ofLe_le 4 h.head (by decide), ofNat_ofLe_le 4 h.tail (by decide),
    ofNat_ofLe_le 8 h.nextTid (by decide)]

namespace Journal

variable {j : Journal}

variable {pos : BitVec 32} {j' : Journal} {ws : List (Nat × Block)}

theorem headerBlock_sat (hsize : 24 ≤ j.blockSize) :
    j.headerBlock.Sat (fun block => parse block =
      .ok (.ok ⟨JOURNAL_MAGIC, j.size, j.head, j.tail, j.nextTid⟩)) := by
  have hbuf : 24 ≤ (zeros j.blockSize).length := by rw [length_zeros]; exact hsize
  obtain ⟨block, hser, _⟩ : j.headerBlock.Sat (fun block => block.length = (zeros j.blockSize).length) := by
    refine fill_sat ?_
    simp only [forall_mem_cons, length_le]
    refine ⟨by omega, by omega, by omega, by omega, by omega, nofun⟩
  exact ⟨block, hser, parse_serialize hser hbuf⟩

theorem record_safe (hsize : 24 ≤ j.blockSize) (type : JournalBlockType) (fields : List (Nat × Block))
    (hfields : ∀ f ∈ fields, f.1 + f.2.length ≤ 24) : (j.record type fields).Safe := by
  refine (fill_sat ?_).safe
  rw [length_zeros]
  simp only [forall_mem_cons, length_le]
  exact ⟨by omega, by omega, fun f hf => le_trans (hfields f hf) hsize⟩

/-! ## Positions -/

/-- The position lies in the circular area. -/
def Within (j : Journal) (pos : BitVec 32) : Prop := pos.toNat < j.size.toNat - 1

/-- The next position lies in the area too, wherever the last one was. -/
theorem wrap_sat (hsize : 2 ≤ j.size.toNat) (hpos : j.Within pos) : (j.wrap pos 1).Sat j.Within := by
  have hlt : (pos.toNat + 1) % (j.size.toNat - 1) < j.size.toNat - 1 := Nat.mod_lt _ (by omega)
  unfold Within at hpos
  unfold wrap
  rw [add32_of_lt (by omega), sub_of_le (by omega)]
  simp only [bind, Except.bind]
  rw [mod_of_ne (by omega)]
  refine .ok ?_
  unfold Within
  rw [BitVec.toNat_ofNat, Nat.mod_eq_of_lt (by omega)]
  exact hlt

/-- The journal moved on: only the head has changed, and it is in the area. -/
structure Moved (j j' : Journal) : Prop where
  eq : j' = { j with head := j'.head }
  within : j.Within j'.head

theorem Moved.trans {j1 j2 : Journal} (h : j.Moved j1) (h' : j1.Moved j2) : j.Moved j2 := by
  have hw := h'.within
  have he := h'.eq
  rw [h.eq] at hw he
  exact ⟨he, hw⟩

/-- A journal with room for records, and its head in the area. -/
structure Ready (j : Journal) : Prop where
  block : 24 ≤ j.blockSize
  size : 2 ≤ j.size.toNat
  head : j.Within j.head

theorem Moved.ready (h : j.Moved j') (hr : j.Ready) : j'.Ready := by
  rw [h.eq]
  exact ⟨hr.block, hr.size, h.within⟩

theorem advanceHead_sat (hr : j.Ready) : (j.advanceHead 1).Sat j.Moved := by
  obtain ⟨_, hwrap, hin⟩ := wrap_sat hr.size hr.head
  unfold advanceHead
  rw [hwrap]
  exact .ok ⟨rfl, hin⟩

/-! ## What a commit asks of the device -/

/-- The block belongs to the journal's records. -/
def Holds (j : Journal) (b : Nat) : Prop := j.startBlock < b ∧ b < j.startBlock + j.size.toNat

/-- The block is one of the file system's: the journal does not hold it. -/
def Outside (j : Journal) (b : Nat) : Prop := b < j.startBlock ∨ j.startBlock + j.size.toNat ≤ b

instance (j : Journal) : DecidablePred j.Outside := fun _ => inferInstanceAs (Decidable (_ ∨ _))

theorem Moved.holds (h : j.Moved j') (b : Nat) : j'.Holds b ↔ j.Holds b := by
  rw [h.eq]
  rfl

section

variable (hr : j.Ready)
include hr

theorem Ready.holds : j.Holds (j.blockAt j.head) := by
  have hin := hr.head
  unfold Within at hin
  unfold Holds blockAt
  omega

/-- The records of a transaction's blocks: two for each, in the journal's area. -/
theorem dataWrites_sat (blocks : List (Nat × Block)) :
    (j.dataWrites blocks).Sat (fun r => r.1.length = 2 * blocks.length ∧ (∀ w ∈ r.1, j.Holds w.1) ∧
      j.Moved r.2) := by
  induction blocks generalizing j with
  | nil => exact .ok ⟨rfl, nofun, rfl, hr.head⟩
  | cons b blocks ih =>
    obtain ⟨dest, data⟩ := b
    obtain ⟨descriptor, hdesc, _⟩ := record_safe hr.block .data [(8, le 8 dest)] (by simp)
    obtain ⟨j1, h1, m1⟩ := advanceHead_sat hr
    obtain ⟨j2, h2, m2⟩ := advanceHead_sat (m1.ready hr)
    have m := m1.trans m2
    obtain ⟨⟨rest, j3⟩, h3, hlen, hheld, m3⟩ := ih (m.ready hr)
    unfold dataWrites
    rw [hdesc, h1]
    simp only [bind, Except.bind]
    rw [h2]
    simp only
    rw [h3]
    refine .ok ⟨?_, ?_, m.trans m3⟩
    · dsimp only at hlen ⊢
      rw [length_cons, length_cons, length_cons]
      omega
    refine forall_mem_cons.mpr ⟨hr.holds, forall_mem_cons.mpr ⟨?_, fun w hw => (m.holds _).mp (hheld w hw)⟩⟩
    exact (m1.holds _).mp (m1.ready hr).holds

theorem logWrites_sat (tx : Transaction) :
    (j.logWrites tx).Sat (fun r => r.1.length = 2 * tx.blocks.length + 2 ∧ (∀ w ∈ r.1, j.Holds w.1) ∧
      j.Moved r.2) := by
  obtain ⟨start, hstart, _⟩ := record_safe hr.block .start
    [(8, le 8 tx.tid.toNat), (16, le 4 tx.blocks.length)] (by simp)
  obtain ⟨j1, h1, m1⟩ := advanceHead_sat hr
  obtain ⟨⟨data, j2⟩, h2, hlen, hheld, m2⟩ := dataWrites_sat (m1.ready hr) tx.blocks
  have m : j.Moved j2 := m1.trans m2
  obtain ⟨commit, hcommit, _⟩ := record_safe (m.ready hr).block .commit [(8, le 8 tx.tid.toNat)] (by simp)
  obtain ⟨j3, h3, m3⟩ := advanceHead_sat (m.ready hr)
  unfold logWrites
  rw [hstart, h1]
  simp only [bind, Except.bind]
  rw [h2]
  simp only
  rw [hcommit]
  rw [h3]
  refine .ok ⟨?_, ?_, m.trans m3⟩
  · dsimp only at hlen ⊢
    rw [length_append, length_cons, hlen]
    rfl
  refine forall_mem_append.mpr ⟨forall_mem_cons.mpr ⟨hr.holds, fun w hw => ?_⟩, forall_mem_singleton.mpr ?_⟩
  · exact (m1.holds _).mp (hheld w hw)
  · exact (m.holds _).mp (m.ready hr).holds

/-- The operations of a commit: the log, the blocks in place and the header, each behind the flush of the one
    before. -/
structure Commit (j : Journal) (tx : Transaction) (ops : List (DiskOp Block)) (j' : Journal) : Prop where
  ops : ∃ log header, log.length = 2 * tx.blocks.length + 2 ∧ (∀ w ∈ log, j.Holds w.1) ∧
    parse header = .ok (.ok ⟨JOURNAL_MAGIC, j'.size, j'.head, j'.tail, j'.nextTid⟩) ∧
    ops = writes log ++ .flush :: (writes tx.blocks ++ .flush :: [.write j.startBlock header, .flush])
  journal : j' = { j with head := j'.head, tail := j'.head }
  within : j.Within j'.head

theorem commitOps_sat (tx : Transaction) : (j.commitOps tx).Sat (fun r => j.Commit tx r.1 r.2) := by
  obtain ⟨⟨log, j1⟩, hlog, hlen, hheld, m⟩ := logWrites_sat hr tx
  have e : j1 = { j with head := j1.head } := m.eq
  obtain ⟨header, hheader, hparse⟩ := headerBlock_sat (j := { j1 with tail := j1.head }) (m.ready hr).block
  unfold commitOps
  rw [hlog]
  simp only [bind, Except.bind]
  rw [hheader]
  refine .ok ⟨⟨log, header, hlen, hheld, hparse, rfl⟩, ?_, m.within⟩
  rw [e]

end

/-! ## Idle journals -/

/-- A header under which `recover` has nothing to replay. -/
def Quiet (j : Journal) (block : Block) : Prop :=
  ∃ h, parse block = .ok (.ok h) ∧ h.magic = JOURNAL_MAGIC ∧ h.size = j.size ∧ h.tail = h.head ∧
    (2 ≤ j.size.toNat → j.Within h.head)

/-- The contents are the same wherever the journal is not. -/
def Agree (j : Journal) (c c' : Nat → Block) : Prop := ∀ b, j.Outside b → c b = c' b

/-- The same area of the same device. -/
structure SameArea (j j' : Journal) : Prop where
  startBlock : j'.startBlock = j.startBlock
  size : j'.size = j.size
  blockSize : j'.blockSize = j.blockSize

theorem Agree.trans {c c' c'' : Nat → Block} (h : j.Agree c c') (h' : j.Agree c' c'') : j.Agree c c'' :=
  fun b hb => (h b hb).trans (h' b hb)

section

variable (h : j.SameArea j')
include h

theorem SameArea.trans {j'' : Journal} (h' : j'.SameArea j'') : j.SameArea j'' :=
  ⟨h'.startBlock.trans h.startBlock, h'.size.trans h.size, h'.blockSize.trans h.blockSize⟩

theorem SameArea.outside (b : Nat) : j'.Outside b ↔ j.Outside b := by
  unfold Outside
  rw [h.startBlock, h.size]

theorem SameArea.within (pos : BitVec 32) : j'.Within pos ↔ j.Within pos := by
  unfold Within
  rw [h.size]

theorem SameArea.quiet {block : Block} (hq : j.Quiet block) : j'.Quiet block := by
  obtain ⟨hd, hparse, hmagic, hsize, htail, hin⟩ := hq
  refine ⟨hd, hparse, hmagic, hsize.trans h.size.symm, htail, fun hj => ?_⟩
  rw [h.size] at hj
  exact (h.within _).mpr (hin hj)

end

section

variable (c : Nat → Block)
include c

/-- Writes to the journal's own blocks are not seen outside. -/
theorem agree_puts (h : ∀ w ∈ ws, j.startBlock ≤ w.1 ∧ w.1 < j.startBlock + j.size.toNat) : j.Agree (puts c ws) c := by
  intro b hb
  refine puts_of_not_mem c (fun w hw => ?_)
  have hin := h w hw
  unfold Outside at hb
  omega

theorem agree_log (h : ∀ w ∈ ws, j.Holds w.1) : j.Agree (puts c ws) c :=
  agree_puts c (fun w hw => ⟨(h w hw).1.le, (h w hw).2⟩)

/-- Blocks put in place over a device whose journal was written. -/
theorem agree_inPlace (h : ∀ w ∈ ws, j.Holds w.1) (inPlace : List (Nat × Block)) :
    j.Agree (puts (puts c ws) inPlace) (puts c inPlace) := fun b hb => puts_congr (agree_log c h b hb) inPlace

theorem agree_header (hsize : 2 ≤ j.size.toNat) (header : Block) : j.Agree (puts c [(j.startBlock, header)]) c := by
  refine agree_puts c (fun w hw => ?_)
  rw [mem_singleton.mp hw]
  omega

/-- Neither the records nor the blocks in place are the header. -/
theorem header_log (h : ∀ w ∈ ws, j.Holds w.1) : puts c ws j.startBlock = c j.startBlock := by
  refine puts_of_not_mem c (fun w hw => ?_)
  have hin := (h w hw).1
  omega

theorem header_inPlace (hsize : 2 ≤ j.size.toNat)
    (h : ∀ w ∈ ws, j.Outside w.1) : puts c ws j.startBlock = c j.startBlock := by
  refine puts_of_not_mem c (fun w hw => ?_)
  have hout := h w hw
  unfold Outside at hout
  omega

end

/-- The transaction fits in the journal, and its blocks are whole blocks of the file system. -/
structure Accepts (j : Journal) (tx : Transaction) : Prop where
  fits : 2 * tx.blocks.length + 3 ≤ j.size.toNat
  outside : ∀ b ∈ tx.blocks, j.Outside b.1
  whole : ∀ b ∈ tx.blocks, b.2.length = j.blockSize

theorem SameArea.accepts (h : j.SameArea j') {tx : Transaction} (ha : j.Accepts tx) : j'.Accepts tx := by
  refine ⟨?_, fun b hb => (h.outside b.1).mpr (ha.outside b hb), fun b hb => ?_⟩
  · rw [h.size]
    exact ha.fits
  · rw [h.blockSize]
    exact ha.whole b hb

end Journal

namespace World

open Journal

variable {w w' : World} {tx : Transaction}

/-- **Between two commits.** -/
structure Idle (w : World) : Prop where
  block : 24 ≤ w.journal.blockSize
  within : 2 ≤ w.journal.size.toNat → w.journal.Within w.journal.head
  header : w.journal.Quiet (w.disk.view w.journal.startBlock)

variable {log kept : List (Nat × Block)} {k : Nat} {d : Disk Block}

theorem init_idle {disk : Disk Block} {blockSize startBlock : Nat} {size : BitVec 32}
    (h : World.init disk blockSize startBlock size = .ok w) : w.Idle := by
  obtain ⟨_, hheader, hw⟩ := bind_eq_ok h
  cases hw
  have hfit := fits_of_fill hheader (16, le 8 (1 : BitVec 64).toNat) (by simp)
  rw [length_zeros] at hfit
  have hzero : 2 ≤ size.toNat → (0 : BitVec 32).toNat < size.toNat - 1 := by
    have h0 : (0 : BitVec 32).toNat = 0 := rfl
    omega
  refine ⟨hfit, hzero, ⟨JOURNAL_MAGIC, size, 0, 0, 1⟩, ?_, rfl, rfl, rfl, hzero⟩
  rw [view_write, Function.update_self]
  exact parse_serialize hheader (by rw [length_zeros]; exact hfit)

theorem begin_idle (h : w.Idle) (hb : w.begin = .ok (tx, w')) : w'.Idle ∧ w'.disk = w.disk ∧
    w.journal.SameArea w'.journal := by
  unfold begin at hb
  split at hb
  · cases hb
  · cases hb
    exact ⟨⟨h.block, h.within, h.header⟩, rfl, rfl, rfl, rfl⟩

/-! ## Commits -/

/-- **A commit** puts the transaction's blocks in place and leaves the journal idle. -/
theorem commit_sat (h : w.Idle) (htx : w.journal.Accepts tx) :
    (w.commit tx).Sat (fun w' => w'.Idle ∧ w.journal.SameArea w'.journal ∧
      w.journal.Agree w'.disk.view (puts w.disk.view tx.blocks)) := by
  have hsize : 2 ≤ w.journal.size.toNat := by
    have hfits := htx.fits
    omega
  obtain ⟨⟨ops, j'⟩, hops, ⟨log, header, -, hheld, hparse, heq⟩, hj, hin⟩ :=
    commitOps_sat ⟨h.block, hsize, h.within hsize⟩ tx
  dsimp only at heq hj hin hparse
  have hsame : w.journal.SameArea j' := by
    rw [hj]
    exact ⟨rfl, rfl, rfl⟩
  have hview : (w.disk.run ops).view =
      puts (puts (puts w.disk.view log) tx.blocks) [(w.journal.startBlock, header)] := by
    rw [heq, run_writes_flush, run_writes_flush]
    rfl
  unfold commit
  rw [hops]
  refine .ok ⟨⟨?_, ?_, ?_⟩, hsame, ?_⟩
  · exact hsame.blockSize ▸ h.block
  · exact fun _ => (hsame.within _).mpr hin
  · refine hsame.quiet ⟨⟨JOURNAL_MAGIC, j'.size, j'.head, j'.tail, j'.nextTid⟩, ?_, rfl, hsame.size, ?_, fun _ => hin⟩
    · dsimp only
      rw [hview, hsame.startBlock]
      rw [puts_singleton]
      exact hparse
    · dsimp only
      rw [hj]
  · dsimp only
    rw [hview]
    exact (agree_header _ hsize header).trans (agree_inPlace _ hheld _)

theorem commits_sat {txs : List Transaction} (h : w.Idle) (htxs : ∀ tx ∈ txs, w.journal.Accepts tx) :
    (w.commits txs).Sat (fun w' => w'.Idle ∧ w.journal.SameArea w'.journal ∧
      w.journal.Agree w'.disk.view (puts w.disk.view (txs.flatMap Transaction.blocks))) := by
  induction txs generalizing w with
  | nil => exact .ok ⟨h, ⟨rfl, rfl, rfl⟩, fun _ _ => rfl⟩
  | cons tx txs ih =>
    obtain ⟨w1, h1, hidle1, hsame1, hagree1⟩ := commit_sat h (htxs tx mem_cons_self)
    obtain ⟨w2, h2, hidle2, hsame2, hagree2⟩ := ih hidle1 (fun t ht => hsame1.accepts (htxs t (mem_cons_of_mem tx ht)))
    unfold commits
    rw [h1]
    refine ⟨w2, h2, hidle2, hsame1.trans hsame2, fun b hb => ?_⟩
    rw [hagree2 b ((hsame1.outside b).mpr hb), flatMap_cons, puts_append]
    exact puts_congr (hagree1 b hb) _

/-! ## Crashes -/

/-- The header is on the device: nothing was pending when the commit began, or its first flush is done. -/
def HeaderSafe (w : World) (tx : Transaction) (k : Nat) : Prop :=
  w.disk.pending = [] ∨ 2 * tx.blocks.length + 3 ≤ k

/-- **The crash points at which no commit is torn**: before the first write in place, after the flush behind the
    last, and anywhere where there is only one of them. -/
def Untorn (tx : Transaction) (k : Nat) : Prop :=
  k ≤ 2 * tx.blocks.length + 3 ∨ 3 * tx.blocks.length + 4 ≤ k ∨ tx.blocks.length ≤ 1

/-- The writes in place that a crash leaves on the device, when it keeps `kept` of what is pending. -/
def survivors (tx : Transaction) (k : Nat) (kept : List (Nat × Block)) : List (Nat × Block) :=
  if k ≤ 2 * tx.blocks.length + 3 then [] else if k < 3 * tx.blocks.length + 4 then kept else tx.blocks

/-- The header of an idle journal, whatever was written to the records and in place. -/
theorem Idle.quiet_puts (h : w.Idle) (hsize : 2 ≤ w.journal.size.toNat)
    (hlog : ∀ x ∈ log, w.journal.Holds x.1) (inPlace : List (Nat × Block))
    (hout : ∀ x ∈ inPlace, w.journal.Outside x.1) :
    w.journal.Quiet (puts (puts w.disk.view log) inPlace w.journal.startBlock) := by
  rw [header_inPlace _ hsize hout, header_log _ hlog]
  exact h.header

/-- A crash while the header is written keeps the header or does not. -/
theorem crash_header {c : Nat → Block} {i : Nat} {x : Block}
    (hkept : kept.Sublist (run ⟨c, []⟩ ([write i x, .flush].take k)).pending) :
    puts (run ⟨c, []⟩ ([write i x, .flush].take k)).durable kept = c ∨
      puts (run ⟨c, []⟩ ([write i x, .flush].take k)).durable kept = puts c [(i, x)] := by
  match k with
  | 0 =>
    rw [sublist_nil.mp hkept]
    exact .inl rfl
  | 1 =>
    rcases sublist_singleton.mp hkept with rfl | rfl
    · exact .inl rfl
    · exact .inr rfl
  | n + 2 =>
    have hall : [write i x, .flush].take (n + 2) = [.write i x, .flush] := take_of_length_le (Nat.le_add_left 2 n)
    rw [hall] at hkept ⊢
    rw [sublist_nil.mp hkept]
    exact .inr rfl

/-- What a crash leaves: a quiet header, and the surviving writes in place. -/
structure Crashed (w : World) (tx : Transaction) (k : Nat) (d : Disk Block) : Prop where
  left : ∀ kept, kept.Sublist d.pending → w.journal.Quiet (puts d.durable kept w.journal.startBlock) ∧
    w.journal.Agree (puts d.durable kept) (puts w.disk.view (survivors tx k kept))
  pending : 2 * tx.blocks.length + 3 ≤ k → k < 3 * tx.blocks.length + 4 →
    d.pending = tx.blocks.take (k - (2 * tx.blocks.length + 3))

theorem crash_sat (h : w.Idle) (htx : w.journal.Accepts tx) (hsafe : w.HeaderSafe tx k) :
    (w.interrupted tx k).Sat (w.Crashed tx k) := by
  have hsize : 2 ≤ w.journal.size.toNat := by
    have hfits := htx.fits
    omega
  obtain ⟨⟨ops, j'⟩, hops, ⟨log, header, hlen, hheld, hparse, heq⟩, hj, hin⟩ :=
    commitOps_sat ⟨h.block, hsize, h.within hsize⟩ tx
  dsimp only at heq hj hin hparse
  unfold interrupted
  rw [hops]
  refine .ok ?_
  rw [heq]
  by_cases hk : k ≤ log.length
  · -- before the first flush: the crash kept records only
    have hpend : w.disk.pending = [] := hsafe.resolve_right (by omega)
    have hview : w.disk.view = w.disk.durable := by
      unfold view
      rw [hpend]
      rfl
    rw [run_take_writes _ hk, hpend, nil_append]
    refine ⟨fun kept hkept => ?_, fun _ => by omega⟩
    have hheld' : ∀ x ∈ kept, w.journal.Holds x.1 := fun x hx => hheld x (mem_of_mem_take (hkept.mem hx))
    rw [survivors, if_pos (by omega), ← hview]
    exact ⟨h.quiet_puts hsize hheld' [] nofun, agree_log _ hheld'⟩
  rw [run_take_flush _ (by omega)]
  by_cases hk' : k - (log.length + 1) ≤ tx.blocks.length
  · -- between the flushes: the records are durable, the writes in place pending
    rw [run_take_writes _ hk', nil_append, show log.length + 1 = 2 * tx.blocks.length + 3 by omega]
    refine ⟨fun kept hkept => ?_, fun _ _ => rfl⟩
    have hout : ∀ x ∈ kept, w.journal.Outside x.1 := fun x hx => htx.outside x (mem_of_mem_take (hkept.mem hx))
    have hsurv : survivors tx k kept = kept := by
      unfold survivors
      split
      next hfirst =>
        -- nothing has been written in place yet
        rw [Nat.sub_eq_zero_of_le hfirst, take_zero] at hkept
        exact (sublist_nil.mp hkept).symm
      · exact if_pos (by omega)
    rw [hsurv]
    exact ⟨h.quiet_puts hsize hheld kept hout, agree_inPlace _ hheld kept⟩
  -- after the second flush: only the header can be lost
  rw [run_take_flush _ (by omega)]
  have hin' : w.journal.Quiet header :=
    ⟨_, hparse, rfl, (congrArg Journal.size hj).trans rfl, (congrArg Journal.tail hj).trans rfl, fun _ => hin⟩
  refine ⟨fun kept hkept => ?_, fun _ => by omega⟩
  rw [survivors, if_neg (by omega), if_neg (by omega)]
  rcases crash_header hkept with hc | hc
  · rw [hc]
    exact ⟨h.quiet_puts hsize hheld tx.blocks htx.outside, agree_inPlace _ hheld _⟩
  rw [hc, puts_singleton]
  exact ⟨hin', (agree_header _ hsize header).trans (agree_inPlace _ hheld _)⟩

/-- What survives is nothing or everything, where no commit is torn. -/
theorem Crashed.survivors_eq (h : w.Crashed tx k d) (hk : Untorn tx k) (hkept : kept.Sublist d.pending) :
    survivors tx k kept = [] ∨ survivors tx k kept = tx.blocks := by
  unfold survivors
  split
  · exact .inl rfl
  split
  next hlow hhigh =>
    have hone : tx.blocks.length ≤ 1 := (hk.resolve_left hlow).resolve_left (by omega)
    rw [h.pending (by omega) hhigh] at hkept
    have hsub := hkept.trans (take_sublist _ _)
    match hb : tx.blocks, hone with
    | [], _ =>
      rw [hb] at hsub
      exact .inl (sublist_nil.mp hsub)
    | [b], _ =>
      rw [hb] at hsub
      exact sublist_singleton.mp hsub
  · exact .inr rfl

/-- **A recovery replays nothing**: it writes the header and leaves the file system's blocks as they are. -/
theorem reboot_eq {j : Journal} (hblock : 24 ≤ j.blockSize) (hlen : 2 ≤ j.size.toNat)
    (hquiet : j.Quiet (d.view j.startBlock)) :
    ∃ w', (∀ fuel, World.reboot d j.blockSize j.startBlock (fuel + 1) = some (.ok (.ok w'))) ∧ w'.Idle ∧
      j.SameArea w'.journal ∧ j.Agree w'.disk.view d.view := by
  obtain ⟨h, hparse, hmagic, hsize, htail, hin⟩ := hquiet
  have hload : load d j.blockSize j.startBlock =
      .ok (.ok ⟨j.startBlock, j.size, h.head, h.head, h.nextTid, j.blockSize⟩) := by
    unfold load
    rw [hparse]
    simp only [bind, Except.bind, hmagic, hsize, htail]
    rfl
  obtain ⟨header, hheader, hback⟩ :=
    headerBlock_sat (j := ⟨j.startBlock, j.size, h.head, h.head, h.nextTid, j.blockSize⟩) hblock
  refine ⟨⟨(d.act .flush).run [.write j.startBlock header, .flush],
    ⟨j.startBlock, j.size, h.head, h.head, h.nextTid, j.blockSize⟩⟩, ?_, ⟨hblock, hin, ?_⟩, ⟨rfl, rfl, rfl⟩, ?_⟩
  · intro fuel
    unfold reboot
    rw [hload]
    simp only [recover, scanFrom]
    rw [hheader]
    rfl
  · refine ⟨⟨JOURNAL_MAGIC, j.size, h.head, h.head, h.nextTid⟩, ?_, rfl, rfl, rfl, hin⟩
    exact (congrArg parse (puts_singleton d.view j.startBlock header)).trans hback
  · exact agree_header d.view hlen header

/-! ## Runs -/

inductive Action where
  | begin
  | commit (tx : Transaction)
  /-- A crash when `k` operations of the commit have been issued, and the reboot. -/
  | crash (tx : Transaction) (k : Nat) (kept : List (Nat × Block)) (fuel : Nat)

def act (w : World) : Action → Option World
  | .begin => w.begin.toOption.map Prod.snd
  | .commit tx => (w.commit tx).toOption
  | .crash tx k kept fuel =>
    match w.interrupted tx k with
    | .error _ => none
    | .ok d =>
      match World.reboot (d.crash kept) w.journal.blockSize w.journal.startBlock fuel with
      | some (.ok (.ok w')) => some w'
      | _ => none

/-- Transactions of file system blocks that fit; a crash keeps any of the pending writes, but not the loss of the
    header. -/
def Allowed (w : World) : Action → Prop
  | .begin => True
  | .commit tx => w.journal.Accepts tx
  | .crash tx k kept _ => w.journal.Accepts tx ∧ (∃ d, w.interrupted tx k = .ok d ∧ kept.Sublist d.pending) ∧
      w.HeaderSafe tx k

/-- A journal just initialised, on a device of any contents. -/
def Formatted (w : World) : Prop := ∃ disk blockSize startBlock size, World.init disk blockSize startBlock size = .ok w

/-- After a crash inside a commit. -/
theorem Crashed.reboot (h : w.Crashed tx k d) (hidle : w.Idle) (hsize : 2 ≤ w.journal.size.toNat)
    (hkept : kept.Sublist d.pending) :
    ∃ w', (∀ fuel, World.reboot (d.crash kept) w.journal.blockSize w.journal.startBlock (fuel + 1) =
        some (.ok (.ok w'))) ∧ w'.Idle ∧ w.journal.SameArea w'.journal ∧
      w.journal.Agree w'.disk.view (puts w.disk.view (survivors tx k kept)) := by
  obtain ⟨hquiet, hblocks⟩ := h.left kept hkept
  obtain ⟨w', hboot, hidle', hsame, hagree⟩ := reboot_eq (d := d.crash kept) hidle.block hsize hquiet
  exact ⟨w', hboot, hidle', hsame, hagree.trans hblocks⟩

/-- Without fuel nothing is recovered. -/
theorem reboot_zero (d : Disk Block) (blockSize startBlock : Nat) : (match World.reboot d blockSize startBlock 0 with
      | some (.ok (.ok w')) => some w'
      | _ => none) = none := by
  unfold reboot
  cases load d blockSize startBlock with
  | error e => rfl
  | ok r =>
    cases r with
    | error e | ok journal => rfl

/-- One step of a run. -/
theorem act_idle {a : Action} (h : w.Idle) (hok : w.Allowed a) (hact : w.act a = some w') : w'.Idle := by
  cases a with
  | begin =>
    simp only [act] at hact
    cases hb : w.begin with
    | error e =>
      rw [hb] at hact
      cases hact
    | ok r =>
      rw [hb] at hact
      cases hact
      exact (begin_idle h hb).1
  | commit tx =>
    obtain ⟨w1, hc, hidle, -⟩ := commit_sat h hok
    simp only [act, hc] at hact
    cases hact
    exact hidle
  | crash tx k kept fuel =>
    obtain ⟨htx, ⟨d, hd, hkept⟩, hsafe⟩ := hok
    obtain ⟨d', hd', hcrash⟩ := crash_sat h htx hsafe
    rw [hd] at hd'
    cases hd'
    have hfits := htx.fits
    obtain ⟨w1, hboot, hidle, -⟩ := hcrash.reboot h (by omega) hkept
    simp only [act, hd] at hact
    cases fuel with
    | zero =>
      rw [reboot_zero] at hact
      cases hact
    | succ fuel =>
      rw [hboot fuel] at hact
      cases hact
      exact hidle

theorem reach_idle (h : Run.Reach World.act World.Allowed World.Formatted w) : w.Idle := by
  refine Run.Reach.invariant Idle ?_ (fun _ _ _ => act_idle) h
  rintro s ⟨disk, blockSize, startBlock, size, hinit⟩
  exact init_idle hinit

/-- The transaction's blocks are different ones, and it changes each of them. -/
structure Changes (tx : Transaction) (c : Nat → Block) : Prop where
  apart : (tx.blocks.map Prod.fst).Nodup
  new : ∀ b ∈ tx.blocks, c b.1 ≠ b.2

/-- The first block alone is neither nothing nor the whole transaction. -/
theorem Changes.torn {c : Nat → Block} (h : Changes tx c) {b b' : Nat × Block} {rest : List (Nat × Block)}
    (hb : tx.blocks = b :: b' :: rest) :
    puts c [b] b.1 ≠ c b.1 ∧ puts c [b] b'.1 ≠ puts c tx.blocks b'.1 := by
  have hnodup := h.apart
  rw [hb, map_cons, map_cons, nodup_cons, nodup_cons] at hnodup
  obtain ⟨hfirst, hsecond, -⟩ := hnodup
  have hne : b'.1 ≠ b.1 := fun he => hfirst (he ▸ mem_cons_self)
  constructor
  · rw [puts_singleton]
    exact (h.new b (hb ▸ mem_cons_self)).symm
  · have hlast : puts c tx.blocks b'.1 = b'.2 := by
      rw [hb, show b :: b' :: rest = [b] ++ [b'] ++ rest from rfl, puts_append, puts_append, puts_of_not_mem]
      · exact puts_singleton _ _ _
      · rintro x hx he
        exact hsecond (he ▸ mem_map_of_mem hx)
    rw [hlast, puts_of_not_mem c (fun x hx => mem_singleton.mp hx ▸ hne.symm)]
    exact h.new b' (hb ▸ mem_cons_of_mem _ mem_cons_self)

/-- **Transactions are atomic but for the crash points between the flushes.** Any sequence of transactions that fit
    is committed. A crash inside one more at a point where no commit is torn, and the recovery after it, leave the
    file system's blocks as these transactions left them, or as the interrupted one does; at any other point some
    crash leaves a transaction that changes its blocks half done. -/
theorem transactions_are_atomic (hw : Run.Reach World.act World.Allowed World.Formatted w) (txs : List Transaction)
    (htxs : ∀ t ∈ txs, w.journal.Accepts t) (htx : w.journal.Accepts tx) :
    ∃ w₁, w.commits txs = .ok w₁ ∧
      w.journal.Agree w₁.disk.view (puts w.disk.view (txs.flatMap Transaction.blocks)) ∧
      ∀ k, w₁.HeaderSafe tx k → ∃ d, w₁.interrupted tx k = .ok d ∧
        (Untorn tx k → ∀ kept, kept.Sublist d.pending →
          ∃ w₂, (∀ fuel, World.reboot (d.crash kept) w.journal.blockSize w.journal.startBlock (fuel + 1) =
              some (.ok (.ok w₂))) ∧
            (w.journal.Agree w₂.disk.view w₁.disk.view ∨
              w.journal.Agree w₂.disk.view (puts w₁.disk.view tx.blocks))) ∧
        (Changes tx w₁.disk.view → ¬Untorn tx k → ∃ kept, kept.Sublist d.pending ∧
          ∃ w₂, (∀ fuel, World.reboot (d.crash kept) w.journal.blockSize w.journal.startBlock (fuel + 1) =
              some (.ok (.ok w₂))) ∧
            ¬w.journal.Agree w₂.disk.view w₁.disk.view ∧
            ¬w.journal.Agree w₂.disk.view (puts w₁.disk.view tx.blocks)) := by
  obtain ⟨w₁, hcommits, hidle, hsame, hagree⟩ := commits_sat (reach_idle hw) htxs
  have htx₁ := hsame.accepts htx
  have hfits := htx₁.fits
  refine ⟨w₁, hcommits, hagree, fun k hsafe => ?_⟩
  obtain ⟨d, hd, hcrash⟩ := crash_sat hidle htx₁ hsafe
  have hreboot : ∀ kept, kept.Sublist d.pending → ∃ w₂,
      (∀ fuel, World.reboot (d.crash kept) w.journal.blockSize w.journal.startBlock (fuel + 1) = some (.ok (.ok w₂))) ∧
      w.journal.Agree w₂.disk.view (puts w₁.disk.view (survivors tx k kept)) := by
    intro kept hkept
    obtain ⟨w₂, hboot, -, -, hblocks⟩ := hcrash.reboot hidle (by omega) hkept
    rw [hsame.blockSize, hsame.startBlock] at hboot
    exact ⟨w₂, hboot, fun b hb => hblocks b ((hsame.outside b).mpr hb)⟩
  refine ⟨d, hd, fun hk kept hkept => ?_, fun hch hk => ?_⟩
  · obtain ⟨w₂, hboot, hblocks⟩ := hreboot kept hkept
    refine ⟨w₂, hboot, ?_⟩
    rcases hcrash.survivors_eq hk hkept with hs | hs
    · rw [hs] at hblocks
      exact .inl hblocks
    · rw [hs] at hblocks
      exact .inr hblocks
  · -- the crash keeps the first block only
    simp only [Untorn, not_or, not_le] at hk
    obtain ⟨hlow, hhigh, hlen⟩ := hk
    obtain ⟨b, b', rest, hb⟩ : ∃ b b' rest, tx.blocks = b :: b' :: rest := by
      match hb : tx.blocks with
      | [] | [_] =>
        rw [hb] at hlen
        simp at hlen
      | b :: b' :: rest => exact ⟨b, b', rest, rfl⟩
    have hkept : [b].Sublist d.pending := by
      rw [hcrash.pending (by omega) hhigh, hb]
      obtain ⟨m, hm⟩ : ∃ m, k - (2 * (b :: b' :: rest).length + 3) = m + 1 := by
        rw [← hb]
        exact ⟨k - (2 * tx.blocks.length + 3) - 1, by omega⟩
      rw [hm, take_succ_cons]
      exact (nil_sublist _).cons_cons b
    obtain ⟨w₂, hboot, hblocks⟩ := hreboot [b] hkept
    rw [survivors, if_neg (by omega), if_pos hhigh] at hblocks
    obtain ⟨hnew, hold⟩ := hch.torn hb
    have hout := hb ▸ htx.outside
    refine ⟨[b], hkept, w₂, hboot, fun ha => hnew ?_, fun ha => hold ?_⟩
    · have hb1 := hout b mem_cons_self
      exact (hblocks b.1 hb1).symm.trans (ha b.1 hb1)
    · have hb2 := hout b' (mem_cons_of_mem _ mem_cons_self)
      exact (hblocks b'.1 hb2).symm.trans (ha b'.1 hb2)

/-! ## A torn transaction -/

/-- A device of blocks of zeros. -/
def device : Disk Block := ⟨fun _ => zeros 24, []⟩

/-- Two blocks behind a journal of 8 blocks at block 0. -/
def pair : Transaction := ⟨1, [(20, replicate 24 1), (21, replicate 24 1)]⟩

theorem accepts_pair : Journal.Accepts ⟨0, 8, 0, 0, 1, 24⟩ pair := ⟨by decide, by decide, by decide⟩

/-- Two crash points of a second commit: behind its first flush, and behind its second. -/
theorem transactions_are_atomic_pair : ∃ w, World.init device 24 0 8 = .ok w ∧
    ∃ w₁, w.commits [pair] = .ok w₁ ∧ ∀ k ∈ [7, 10], ∃ d, w₁.interrupted pair k = .ok d ∧
      ∀ kept, kept.Sublist d.pending →
        ∃ w₂, ∀ fuel, World.reboot (d.crash kept) 24 0 (fuel + 1) = some (.ok (.ok w₂)) := by
  obtain ⟨header, hheader, -⟩ := headerBlock_sat (j := ⟨0, 8, 0, 0, 1, 24⟩) (le_refl 24)
  have hinit : init device 24 0 8 = .ok ⟨device.act (.write 0 header), ⟨0, 8, 0, 0, 1, 24⟩⟩ := by
    unfold init
    dsimp only
    rw [hheader]
    rfl
  have hstart : Run.Reach act Allowed Formatted
      ⟨device.act (.write 0 header), ⟨0, 8, 0, 0, 1, 24⟩⟩ := .start ⟨_, _, _, _, hinit⟩
  obtain ⟨w₁, hcommits, -, hcrash⟩ := transactions_are_atomic hstart [pair]
    (fun t ht => mem_singleton.mp ht ▸ accepts_pair) accepts_pair
  refine ⟨_, hinit, w₁, hcommits, fun k hk => ?_⟩
  have hpoint : 7 ≤ k ∧ (k ≤ 7 ∨ 10 ≤ k) := by
    rcases mem_cons.mp hk with rfl | hk
    · decide
    · rw [mem_singleton.mp hk]
      decide
  obtain ⟨d, hd, hrest, -⟩ := hcrash k (.inr hpoint.1)
  refine ⟨d, hd, fun kept hkept => ?_⟩
  obtain ⟨w₂, hboot, -⟩ := hrest (hpoint.2.imp id .inl) kept hkept
  exact ⟨w₂, hboot⟩

/-- A crash between the two flushes that keeps one write in place: after the recovery one block of the transaction
    is new and the other is old, though the commit record was flushed. -/
theorem commit_torn : ∃ w d w₂, World.init device 24 0 8 = .ok w ∧ w.journal.Accepts pair ∧
    w.disk.view 20 = zeros 24 ∧ w.disk.view 21 = zeros 24 ∧ w.interrupted pair 9 = .ok d ∧
    [(20, List.replicate 24 1)].Sublist d.pending ∧
    World.reboot (d.crash [(20, List.replicate 24 1)]) 24 0 8 = some (.ok (.ok w₂)) ∧
    w₂.disk.view 20 = List.replicate 24 1 ∧ w₂.disk.view 21 = zeros 24 := by
  refine ⟨_, _, _, rfl, accepts_pair, rfl, rfl, rfl, ?_, rfl, ?_, ?_⟩ <;> decide

end World
end OxideOs.Oxidefs

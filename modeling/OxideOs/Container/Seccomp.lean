import OxideOs.Lib.Encode
import OxideOs.Lib.Run

/-!
# `Container.Seccomp` — filters on system calls

A filter (`container/seccomp`) is a program of the classic packet filter machine over the 64 bytes of a `SeccompData`;
its result is an action in the high half of a word and 16 bits of data in the low half. `check_syscall` asks the
filters of a process from the newest to the oldest and returns the first result that is not plain `Allow`. The
result that counts is therefore that of the newest filter with something to say, not the most restrictive one: a
newer `Log` ("log and allow") hides an older `Errno`.
-/

namespace OxideOs.Seccomp

open List Checked

/-! ## Actions -/

inductive SeccompAction where
  | kill
  | trap
  | errno
  | trace
  | log
  | allow
  deriving DecidableEq

def SeccompAction.code : SeccompAction → BitVec 32
  | .kill => 0x00000000
  | .trap => 0x00030000
  | .errno => 0x00050000
  | .trace => 0x7ff00000
  | .log => 0x7ffc0000
  | .allow => 0x7fff0000

/-- `SeccompAction::errno` -/
def errnoResult (err : BitVec 16) : BitVec 32 := 0x00050000 ||| err.setWidth 32

/-- A result without its data. -/
def action (result : BitVec 32) : BitVec 32 := result &&& 0xffff0000

/-- The system call is killed, trapped or answered with an error. -/
def Denies (result : BitVec 32) : Prop :=
  action result = SeccompAction.kill.code ∨ action result = SeccompAction.trap.code ∨
    action result = SeccompAction.errno.code

/-- The system call may run: it is allowed, logged and allowed, or left to the tracer. -/
def LetsRun (result : BitVec 32) : Prop :=
  action result = SeccompAction.allow.code ∨ action result = SeccompAction.log.code ∨
    action result = SeccompAction.trace.code

instance : DecidablePred Denies := fun _ => inferInstanceAs (Decidable (_ ∨ _))

instance : DecidablePred LetsRun := fun _ => inferInstanceAs (Decidable (_ ∨ _))

/-- How far a result lets a system call go; a result that is none of the actions goes nowhere. -/
def rank (result : BitVec 32) : Nat :=
  if action result = SeccompAction.trap.code then 1
  else if action result = SeccompAction.errno.code then 2
  else if action result = SeccompAction.trace.code then 3
  else if action result = SeccompAction.log.code then 4
  else if action result = SeccompAction.allow.code then 5
  else 0

theorem rank_le (result : BitVec 32) : rank result ≤ rank SeccompAction.allow.code := by
  have hallow : rank SeccompAction.allow.code = 5 := by decide
  rw [hallow]
  unfold rank
  iterate 4
    split
    · decide
  split <;> decide

theorem Denies.rank_le {result : BitVec 32} (h : Denies result) : rank result ≤ 2 := by
  unfold Denies at h
  unfold rank
  generalize action result = a at h ⊢
  rcases h with rfl | rfl | rfl <;> decide

theorem LetsRun.three_le_rank {result : BitVec 32} (h : LetsRun result) : 3 ≤ rank result := by
  unfold LetsRun at h
  unfold rank
  generalize action result = a at h ⊢
  rcases h with rfl | rfl | rfl <;> decide

/-! ## The filter machine -/

structure BpfInsn where
  code : BitVec 16
  jt : BitVec 8
  jf : BitVec 8
  k : BitVec 32
  deriving DecidableEq

structure SeccompData where
  nr : BitVec 32
  arch : BitVec 32
  instructionPointer : BitVec 64
  args : Fin 6 → BitVec 64

/-- The bytes of the structure, as the machine loads them. -/
def SeccompData.bytes (data : SeccompData) : List Byte :=
  le 4 data.nr.toNat ++ le 4 data.arch.toNat ++ le 8 data.instructionPointer.toNat ++
    (ofFn data.args).flatMap (fun arg => le 8 arg.toNat)

structure Machine where
  a : BitVec 32
  x : BitVec 32
  mem : Fin 16 → BitVec 32
  pc : Nat

def Machine.start : Machine := ⟨0, 0, fun _ => 0, 0⟩

/-- The cell of the scratch memory: `k & 0xf`. -/
def slot (k : BitVec 32) : Fin 16 := ⟨k.toNat % 16, Nat.mod_lt _ (by decide)⟩

/-- `size` bytes of the data at an offset; zero where they are not all there. -/
def load (bytes : List Byte) (offset size : Nat) : BitVec 32 :=
  if offset + size ≤ bytes.length then .ofNat 32 (ofLe (window bytes offset size)) else 0

/-- `BPF_LD`: the value of the accumulator. -/
def loadValue (insn : BpfInsn) (bytes : List Byte) (m : Machine) : BitVec 32 :=
  let size := insn.code &&& 0x18
  let mode := insn.code &&& 0xe0
  if mode = 0x00 then insn.k
  else if mode = 0x20 then
    if size = 0x00 then load bytes insn.k.toNat 4
    else if size = 0x08 then load bytes insn.k.toNat 2
    else if size = 0x10 then load bytes insn.k.toNat 1
    else 0
  else if mode = 0x60 then m.mem (slot insn.k)
  else 0

/-- The second operand of `BPF_ALU` and `BPF_JMP`. -/
def source (insn : BpfInsn) (m : Machine) : BitVec 32 := if insn.code &&& 0x08 ≠ 0 then m.x else insn.k

/-- A shift by a `u32`: one by the width or more panics. -/
def shift (op : BitVec 32 → Nat → BitVec 32) (a src : BitVec 32) : Checked (BitVec 32) :=
  if src.toNat < 32 then .ok (op a src.toNat) else .error .overflow

/-- `BPF_ALU`: the value of the accumulator. -/
def aluValue (insn : BpfInsn) (m : Machine) : Checked (BitVec 32) :=
  let op := insn.code &&& 0xf0
  let src := source insn m
  if op = 0x00 then .ok (m.a + src)
  else if op = 0x10 then .ok (m.a - src)
  else if op = 0x20 then .ok (m.a * src)
  else if op = 0x30 then .ok (if src ≠ 0 then m.a / src else 0)
  else if op = 0x40 then .ok (m.a ||| src)
  else if op = 0x50 then .ok (m.a &&& src)
  else if op = 0x60 then shift (· <<< ·) m.a src
  else if op = 0x70 then shift (· >>> ·) m.a src
  else if op = 0x80 then .ok (~~~m.a + 1)
  else .ok m.a

/-- `BPF_JMP`: how far the jump goes beyond the next instruction. -/
def jumpOffset (insn : BpfInsn) (m : Machine) : Nat :=
  let op := insn.code &&& 0xf0
  let src := source insn m
  let cond :=
    if op = 0x10 then m.a == src
    else if op = 0x20 then src < m.a
    else if op = 0x30 then src ≤ m.a
    else if op = 0x40 then m.a &&& src != 0
    else false
  if op = 0x00 then insn.k.toNat else if cond then insn.jt.toNat else insn.jf.toNat

/-- What one instruction comes to. -/
inductive Step where
  | ret (value : BitVec 32)
  | next (m : Machine)

/-- One instruction, without the step to the next one. -/
def exec (insn : BpfInsn) (bytes : List Byte) (m : Machine) : Checked Step :=
  match (insn.code &&& 0x07).toNat with
  | 0 => .ok (.next { m with a := loadValue insn bytes m })
  | 1 => .ok (.next { m with x := insn.k })
  | 2 => .ok (.next { m with mem := Function.update m.mem (slot insn.k) m.a })
  | 3 => .ok (.next { m with mem := Function.update m.mem (slot insn.k) m.x })
  | 4 => do
      let a ← aluValue insn m
      .ok (.next { m with a })
  | 5 => .ok (.next { m with pc := m.pc + jumpOffset insn m })
  | 6 => .ok (.ret (if insn.code &&& 0x08 ≠ 0 then m.a else insn.k))
  | _ => .ok (.next (if insn.code &&& 0x08 ≠ 0 then { m with a := m.x } else { m with x := m.a }))

/-- The loop of `evaluate`. Jumps only go forward, so that a program ends within its length. -/
def run (program : List BpfInsn) (bytes : List Byte) : Nat → Machine → Checked (BitVec 32)
  | 0, _ => .ok SeccompAction.kill.code
  | fuel + 1, m =>
    match program[m.pc]? with
    | none => .ok SeccompAction.kill.code
    | some insn => do
        let step ← exec insn bytes m
        match step with
        | .ret value => .ok value
        | .next m' => run program bytes fuel { m' with pc := m'.pc + 1 }

/-! ## Filters and their state -/

inductive SeccompError where
  | invalidFilter
  | filterTooLarge
  | alreadyStrict
  | permissionDenied
  deriving DecidableEq

/-- **A filter**: a program that is not empty. -/
structure SeccompFilter where
  program : List BpfInsn
  nonempty : program ≠ []

namespace SeccompFilter

/-- A program of one instruction that returns a constant. -/
def constant (result : BitVec 32) : SeccompFilter := ⟨[⟨0x06, 0, 0, result⟩], cons_ne_nil _ _⟩

def allowAll : SeccompFilter := constant SeccompAction.allow.code

def blockSyscall (syscallNr : BitVec 32) (errno : BitVec 16) : SeccompFilter :=
  ⟨[⟨0x20, 0, 0, 0⟩, ⟨0x15, 0, 1, syscallNr⟩, ⟨0x06, 0, 0, errnoResult errno⟩,
    ⟨0x06, 0, 0, SeccompAction.allow.code⟩], cons_ne_nil _ _⟩

def evaluate (f : SeccompFilter) (data : SeccompData) : Checked (BitVec 32) :=
  run f.program data.bytes f.program.length Machine.start

end SeccompFilter

structure SeccompState where
  strictMode : Bool
  /-- In the order they were added. -/
  filters : List SeccompFilter

namespace SeccompState

def new : SeccompState := ⟨false, []⟩

def addFilter (s : SeccompState) (f : SeccompFilter) : Except SeccompError SeccompState :=
  if s.strictMode then .error .alreadyStrict else .ok { s with filters := s.filters ++ [f] }

/-- The loop over the filters, newest first. -/
def firstResult (data : SeccompData) : List SeccompFilter → Checked (BitVec 32)
  | [] => .ok SeccompAction.allow.code
  | f :: older => do
      let result ← f.evaluate data
      if result ≠ SeccompAction.allow.code then .ok result else firstResult data older

/-- What strict mode answers. -/
def strictResult (data : SeccompData) : BitVec 32 :=
  if data.nr = 0 ∨ data.nr = 1 ∨ data.nr = 60 ∨ data.nr = 15 then SeccompAction.allow.code
  else SeccompAction.kill.code

def checkSyscall (s : SeccompState) (data : SeccompData) : Checked (BitVec 32) :=
  if s.strictMode then .ok (strictResult data) else firstResult data s.filters.reverse

/-! ## What the newest filter decides -/

/-- In a list of filters, newest first: the first that says anything but plain `Allow` is at least as restrictive as
    all behind it. -/
def NewestRules (data : SeccompData) : List SeccompFilter → Prop
  | [] => True
  | f :: older => ∀ v, f.evaluate data = .ok v →
      (v ≠ SeccompAction.allow.code → ∀ g ∈ older, ∀ u, g.evaluate data = .ok u → rank v ≤ rank u) ∧
      (v = SeccompAction.allow.code → NewestRules data older)

variable {data : SeccompData} {fs : List SeccompFilter} {r : BitVec 32}

/-- **The loop returns the most restrictive result** where the newest objection is the strongest. -/
theorem firstResult_least (hrules : NewestRules data fs) (hr : firstResult data fs = .ok r) :
    (∀ g ∈ fs, ∀ u, g.evaluate data = .ok u → rank r ≤ rank u) ∧
      (fs ≠ [] → ∃ g ∈ fs, g.evaluate data = .ok r) := by
  induction fs with
  | nil => exact ⟨nofun, absurd rfl⟩
  | cons f older ih =>
    obtain ⟨v, hv, hrest⟩ := bind_eq_ok hr
    obtain ⟨hloud, hquiet⟩ := hrules v hv
    split at hrest
    next hne =>
      cases hrest
      refine ⟨forall_mem_cons.mpr ⟨fun u hu => ?_, hloud hne⟩, fun _ => ⟨f, mem_cons_self, hv⟩⟩
      rw [hv] at hu
      cases hu
      exact le_refl _
    rename_i heq
    have hallow : v = SeccompAction.allow.code := not_not.mp heq
    obtain ⟨hleast, hsome⟩ := ih (hquiet hallow) hrest
    refine ⟨forall_mem_cons.mpr ⟨fun u hu => ?_, hleast⟩, fun _ => ?_⟩
    · rw [hv] at hu
      cases hu
      rw [hallow]
      exact rank_le r
    cases older with
    | nil =>
      cases hrest
      exact ⟨f, mem_cons_self, hallow ▸ hv⟩
    | cons g older =>
      obtain ⟨g', hg', hres⟩ := hsome (cons_ne_nil _ _)
      exact ⟨g', mem_cons_of_mem f hg', hres⟩

/-- Where the loop returns the most restrictive result, the newest objection is the strongest. -/
theorem newestRules_of_least (hr : firstResult data fs = .ok r)
    (hleast : ∀ g ∈ fs, ∀ u, g.evaluate data = .ok u → rank r ≤ rank u) : NewestRules data fs := by
  induction fs with
  | nil => trivial
  | cons f older ih =>
    obtain ⟨v, hv, hrest⟩ := bind_eq_ok hr
    have holder := (forall_mem_cons.mp hleast).2
    intro v' hv'
    rw [hv] at hv'
    cases hv'
    split at hrest
    next hne =>
      cases hrest
      exact ⟨fun _ => holder, fun hallow => absurd hallow hne⟩
    next heq => exact ⟨fun hne => absurd hne heq, fun _ => ih hrest holder⟩

/-- **The condition**: the newest filter that objects objects most, and in strict mode no filter asks for less than
    strict mode gives. -/
def Ruled (s : SeccompState) (data : SeccompData) : Prop :=
  if s.strictMode then ∀ g ∈ s.filters, ∀ u, g.evaluate data = .ok u → rank (strictResult data) ≤ rank u
  else NewestRules data s.filters.reverse

/-- The result is the most restrictive of the filters' results. -/
structure Least (s : SeccompState) (data : SeccompData) (r : BitVec 32) : Prop where
  le : ∀ g ∈ s.filters, ∀ u, g.evaluate data = .ok u → rank r ≤ rank u
  attained : s.strictMode = true ∨ s.filters = [] ∨ ∃ g ∈ s.filters, g.evaluate data = .ok r

theorem checkSyscall_least {s : SeccompState} (hruled : s.Ruled data)
    (hr : s.checkSyscall data = .ok r) : s.Least data r := by
  unfold Ruled at hruled
  unfold checkSyscall at hr
  split at hr
  next hstrict =>
    rw [if_pos hstrict] at hruled
    cases hr
    exact ⟨hruled, .inl hstrict⟩
  rename_i hstrict
  rw [if_neg hstrict] at hruled
  obtain ⟨hleast, hsome⟩ := firstResult_least hruled hr
  refine ⟨fun g hg => hleast g (mem_reverse.mpr hg), ?_⟩
  by_cases hempty : s.filters = []
  · exact .inr (.inl hempty)
  · obtain ⟨g, hg, hres⟩ := hsome (fun h => hempty (reverse_eq_nil_iff.mp h))
    exact .inr (.inr ⟨g, mem_reverse.mp hg, hres⟩)

theorem ruled_of_least {s : SeccompState} (hr : s.checkSyscall data = .ok r) (hleast : s.Least data r) :
    s.Ruled data := by
  unfold checkSyscall at hr
  unfold Ruled
  split at hr
  next hstrict =>
    rw [if_pos hstrict]
    cases hr
    exact hleast.le
  next hstrict =>
    rw [if_neg hstrict]
    exact newestRules_of_least hr (fun g hg => hleast.le g (mem_reverse.mp hg))

/-- A result of a state is that of one of its filters, or plain `Allow`. -/
theorem firstResult_cases (hr : firstResult data fs = .ok r) :
    r = SeccompAction.allow.code ∨ ∃ g ∈ fs, g.evaluate data = .ok r := by
  induction fs with
  | nil =>
    cases hr
    exact .inl rfl
  | cons f older ih =>
    obtain ⟨v, hv, hrest⟩ := bind_eq_ok hr
    split at hrest
    · cases hrest
      exact .inr ⟨f, mem_cons_self, hv⟩
    rcases ih hrest with hallow | ⟨g, hg, hres⟩
    · exact .inl hallow
    · exact .inr ⟨g, mem_cons_of_mem f hg, hres⟩

/-- **Filters only tighten** where the newest objection is the strongest: what was denied stays denied when a filter
    is added, and the result does not depend on the order of the filters. There, and only there, the result is the
    most restrictive one. -/
theorem filters_only_tighten (s : SeccompState) (f : SeccompFilter) (data : SeccompData) :
    (∀ s' r r', s.addFilter f = .ok s' → s'.Ruled data → s.checkSyscall data = .ok r → Denies r →
      s'.checkSyscall data = .ok r' → ¬ LetsRun r') ∧
    (∀ r, s.checkSyscall data = .ok r → (s.Least data r ↔ s.Ruled data)) ∧
    (∀ (t : SeccompState) r u, t.strictMode = s.strictMode → t.filters.Perm s.filters → s.Ruled data → t.Ruled data →
      s.checkSyscall data = .ok r → t.checkSyscall data = .ok u → rank r = rank u) := by
  refine ⟨?_, fun r hr => ⟨ruled_of_least hr, fun hruled => checkSyscall_least hruled hr⟩, ?_⟩
  · intro s' r r' hadd hruled hr hdeny hr' hrun
    have hleast := (checkSyscall_least hruled hr').le
    unfold addFilter at hadd
    split at hadd
    · cases hadd
    rename_i hstrict
    cases hadd
    -- the denial came from a filter that is still there
    unfold checkSyscall at hr
    rw [if_neg hstrict] at hr
    rcases firstResult_cases hr with hallow | ⟨g, hg, hres⟩
    · rw [hallow] at hdeny
      exact absurd hdeny (by decide)
    have hstill : g ∈ s.filters ++ [f] := mem_append_left _ (mem_reverse.mp hg)
    have hle := hleast g hstill r hres
    have hlow := hdeny.rank_le
    have hhigh := hrun.three_le_rank
    omega
  intro t r u hmode hperm hs ht hr hu
  have hls := checkSyscall_least hs hr
  have hlt := checkSyscall_least ht hu
  by_cases hstrict : s.strictMode = true
  · have hstrict' : t.strictMode = true := hmode.trans hstrict
    unfold checkSyscall at hr hu
    rw [if_pos hstrict] at hr
    rw [if_pos hstrict'] at hu
    cases hr
    cases hu
    rfl
  have hstrict' : t.strictMode ≠ true := fun h => hstrict (hmode.symm.trans h)
  rcases hls.attained with h | hempty | ⟨g, hg, hres⟩
  · exact absurd h hstrict
  · have hempty' : t.filters = [] := by
      rw [hempty] at hperm
      exact hperm.eq_nil
    unfold checkSyscall at hr hu
    rw [if_neg hstrict, hempty] at hr
    rw [if_neg hstrict', hempty'] at hu
    cases hr
    cases hu
    rfl
  · rcases hlt.attained with h | hempty | ⟨g', hg', hres'⟩
    · exact absurd h hstrict'
    · rw [hempty] at hperm
      rw [hperm.symm.eq_nil] at hg
      cases hg
    · have hle := hls.le g' (hperm.mem_iff.mp hg') u hres'
      have hge := hlt.le g (hperm.mem_iff.mpr hg) r hres
      exact le_antisymm hle hge

/-- The call with number 0, made by nobody. -/
def sampleCall : SeccompData := ⟨0, 0xc000003e, 0, fun _ => 0⟩

theorem filters_only_tighten_allowAll : ∃ s s', SeccompState.new.addFilter (.blockSyscall 0 1) = .ok s ∧
    s.addFilter .allowAll = .ok s' ∧ s'.checkSyscall sampleCall = .ok (errnoResult 1) ∧
    ¬ LetsRun (errnoResult 1) := by
  have hruled : Ruled ⟨false, [.blockSyscall 0 1, .allowAll]⟩ sampleCall := by
    intro v hv
    have hallow : v = SeccompAction.allow.code := (Except.ok.inj hv).symm
    refine ⟨absurd hallow, fun _ u _ => ⟨fun _ => nofun, fun _ => trivial⟩⟩
  exact ⟨_, _, rfl, rfl, rfl, (filters_only_tighten ⟨false, [.blockSyscall 0 1]⟩ .allowAll sampleCall).1 _ _ _ rfl
    hruled rfl (by decide) rfl⟩

/-- A filter that answers call 0 with an error, and a newer one that only logs: the call runs. -/
theorem log_hides_errno : ∃ s s', SeccompState.new.addFilter (.blockSyscall 0 1) = .ok s ∧
    s.addFilter (.constant SeccompAction.log.code) = .ok s' ∧
    s.checkSyscall sampleCall = .ok (errnoResult 1) ∧ Denies (errnoResult 1) ∧
    s'.checkSyscall sampleCall = .ok SeccompAction.log.code ∧ LetsRun SeccompAction.log.code := by
  refine ⟨_, _, rfl, rfl, ?_, ?_, ?_, ?_⟩
  · rfl
  · decide
  · rfl
  · decide

end SeccompState

open SeccompState

/-! ## Classic BPF -/

/-- **Classic BPF**: what an instruction means, by its opcode; `none` for an opcode that is not one. A load outside the
    data and a division by 0 end the program with 0. -/
def classic (insn : BpfInsn) (bytes : List Byte) (m : Machine) : Option Step :=
  let k := insn.k
  let src := if insn.code.getLsbD 3 then m.x else k
  let ld (v : BitVec 32) : Option Step := some (.next { m with a := v })
  let ldx (v : BitVec 32) : Option Step := some (.next { m with x := v })
  let st (v : BitVec 32) : Option Step := some (.next { m with mem := Function.update m.mem (slot k) v })
  let abs (n : Nat) :=
    if k.toNat + n ≤ bytes.length then ld (.ofNat 32 (ofLe (window bytes k.toNat n))) else some (.ret 0)
  let jmp (c : Bool) : Option Step := some (.next { m with pc := m.pc + if c then insn.jt.toNat else insn.jf.toNat })
  match insn.code.toNat with
  | 0x00 => ld k
  | 0x20 => abs 4
  | 0x28 => abs 2
  | 0x30 => abs 1
  | 0x60 => ld (m.mem (slot k))
  | 0x01 => ldx k
  | 0x61 => ldx (m.mem (slot k))
  | 0x02 => st m.a
  | 0x03 => st m.x
  | 0x04 | 0x0c => ld (m.a + src)
  | 0x14 | 0x1c => ld (m.a - src)
  | 0x24 | 0x2c => ld (m.a * src)
  | 0x34 | 0x3c => if src = 0 then some (.ret 0) else ld (m.a / src)
  | 0x44 | 0x4c => ld (m.a ||| src)
  | 0x54 | 0x5c => ld (m.a &&& src)
  | 0x64 | 0x6c => ld (m.a <<< src)
  | 0x74 | 0x7c => ld (m.a >>> src)
  | 0x84 => ld (-m.a)
  | 0x05 => some (.next { m with pc := m.pc + k.toNat })
  | 0x15 | 0x1d => jmp (m.a = src)
  | 0x25 | 0x2d => jmp (src < m.a)
  | 0x35 | 0x3d => jmp (src ≤ m.a)
  | 0x45 | 0x4d => jmp (m.a &&& src ≠ 0)
  | 0x06 => some (.ret k)
  | 0x16 => some (.ret m.a)
  | 0x07 => ldx m.a
  | 0x87 => ld m.x
  | _ => none

/-- **What `evaluate` does as classic BPF does**: not the load of the index register from memory, the return of the
    accumulator and `TXA`; a load where it lies in the data, a division where it has a value, a shift below the
    width. -/
def Exact (insn : BpfInsn) (bytes : List Byte) (m : Machine) : Prop :=
  (classic insn bytes m).isSome ∧
    match insn.code.toNat with
    | 0x20 => insn.k.toNat + 4 ≤ bytes.length
    | 0x28 => insn.k.toNat + 2 ≤ bytes.length
    | 0x30 => insn.k.toNat + 1 ≤ bytes.length
    | 0x34 => insn.k ≠ 0
    | 0x3c => m.x ≠ 0
    | 0x64 | 0x74 => insn.k.toNat < 32
    | 0x6c | 0x7c => m.x.toNat < 32
    | 0x61 | 0x16 | 0x87 => False
    | _ => True

section

variable (program : List BpfInsn) (bytes : List Byte)

/-- What a program of classic BPF does next; behind its end, it refuses. -/
def classicAt (m : Machine) : Option Step :=
  match program[m.pc]? with
  | none => some (.ret SeccompAction.kill.code)
  | some insn => classic insn bytes m

def classicStep (m : Machine) (_ : Unit) : Option Machine :=
  match classicAt program bytes m with
  | some (.next m') => some { m' with pc := m'.pc + 1 }
  | _ => none

/-- The program comes from one state to another. -/
def Comes : Machine → Machine → Prop := Run.Steps (classicStep program bytes) (fun _ _ => True)

def Returns (m : Machine) (v : BitVec 32) : Prop :=
  ∃ m', Comes program bytes m m' ∧ classicAt program bytes m' = some (.ret v)

/-- The program only comes to instructions that `evaluate` does as classic BPF does. -/
def ExactFrom (m : Machine) : Prop := ∀ m', Comes program bytes m m' → ∀ insn ∈ program[m'.pc]?, Exact insn bytes m'

end

section

variable {program : List BpfInsn} {insn : BpfInsn} {bytes : List Byte} {m m' : Machine} {step : Step}

theorem exec_classic (h : Exact insn bytes m) (hc : classic insn bytes m = some step) :
    exec insn bytes m = .ok step := by
  obtain ⟨code, jt, jf, k⟩ := insn
  have hcode : code = .ofNat 16 code.toNat := by simp
  unfold classic at hc
  replace h := h.2
  dsimp only at h hc
  generalize code.toNat = n at h hc hcode
  subst hcode
  -- one case for each opcode
  split at hc
  all_goals simp_all [exec, loadValue, load, aluValue, source, shift, jumpOffset, bind,
    Except.bind, BitVec.neg_eq_not_add]

/-- No instruction jumps back. -/
theorem pc_le_of_exec (h : exec insn bytes m = .ok (.next m')) : m.pc ≤ m'.pc := by
  unfold exec at h
  split at h
  case h_5 =>
    obtain ⟨_, -, h⟩ := bind_eq_ok h
    cases h
    rfl
  case h_6 =>
    cases h
    exact Nat.le_add_right _ _
  case h_8 =>
    cases h
    split <;> rfl
  all_goals cases h
  all_goals rfl

/-- Each turn of the loop leaves fewer instructions ahead, so that the fuel lasts. -/
theorem run_returns {fuel : Nat} (hfuel : program.length ≤ m.pc + fuel) (h : ExactFrom program bytes m) :
    ∃ v, run program bytes fuel m = .ok v ∧ Returns program bytes m v := by
  induction fuel generalizing m with
  | zero => exact ⟨_, rfl, m, .refl m, by simp [classicAt, getElem?_eq_none (i := m.pc) hfuel]⟩
  | succ fuel ih =>
    unfold run
    cases hi : program[m.pc]? with
    | none => exact ⟨_, rfl, m, .refl m, by simp [classicAt, hi]⟩
    | some insn =>
      have hexact := h m (.refl m) insn hi
      obtain ⟨step, hstep⟩ := Option.isSome_iff_exists.mp hexact.1
      have hexec := exec_classic hexact hstep
      simp only [hexec, bind, Except.bind]
      cases step with
      | ret v => exact ⟨v, rfl, m, .refl m, by simp [classicAt, hi, hstep]⟩
      | next m' =>
        have hnext : Comes program bytes m { m' with pc := m'.pc + 1 } :=
          .single () trivial (by simp [classicStep, classicAt, hi, hstep])
        have hpc := pc_le_of_exec hexec
        obtain ⟨v, hrun, m'', hm, hv⟩ := @ih { m' with pc := m'.pc + 1 } (by dsimp only; omega)
          (fun m'' hm => h m'' (hnext.trans hm))
        exact ⟨v, hrun, m'', hnext.trans hm, hv⟩

/-- **`evaluate` implements classic BPF** for programs that only come to instructions that it implements: it ends, and
    with the value that classic BPF gives. -/
theorem evaluate_classic (f : SeccompFilter) (data : SeccompData) (h : ExactFrom f.program data.bytes .start) :
    ∃ v, f.evaluate data = .ok v ∧ Returns f.program data.bytes .start v :=
  run_returns (Nat.le_add_left _ _) h

end

/-- The program of `block_syscall`. -/
theorem evaluate_classic_block : ∃ v, (SeccompFilter.blockSyscall 0 1).evaluate sampleCall = .ok v ∧
    Returns (SeccompFilter.blockSyscall 0 1).program sampleCall.bytes .start v := by
  refine evaluate_classic _ _ (fun m _ insn hi => ?_)
  have hmem := mem_of_getElem? hi
  fin_cases hmem <;> exact ⟨rfl, by first | trivial | exact (by decide : 4 ≤ 64)⟩

/-- **The accumulator is not returned**: a program that allows the call, by returning the accumulator, kills. -/
theorem return_of_accumulator_kills : ∃ f : SeccompFilter,
    f.program = [⟨0x00, 0, 0, SeccompAction.allow.code⟩, ⟨0x16, 0, 0, 0⟩] ∧
    f.evaluate sampleCall = .ok SeccompAction.kill.code ∧
    Returns f.program sampleCall.bytes .start SeccompAction.allow.code :=
  ⟨⟨_, cons_ne_nil _ _⟩, rfl, rfl, _, .single () trivial rfl, rfl⟩

end OxideOs.Seccomp

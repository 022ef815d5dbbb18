import OxideOs.Lib.Bytes
import OxideOs.Lib.Run

/-!
# `Ipc.MsgQueue` — System V message queues (`shm::msgqueue`)

A queue keeps its messages in the order of sending, and counts their bytes. A receive takes the first message its
selector asks for out of the queue before it looks at the size of the buffer, so a message that does not fit is gone.
-/

namespace OxideOs.SysV

open List Checked Run

def EAGAIN : Int := -11

def EINVAL : Int := -22

def ERANGE : Int := -34

def IPC_NOWAIT : Nat := 0o4000

/-- The result of an operation that would block. It is the same with and without `IPC_NOWAIT`. -/
def wouldBlock (flags : Nat) : Int := if flags &&& IPC_NOWAIT ≠ 0 then EAGAIN else EAGAIN

def MSG_MAX_SIZE : Nat := 8192

def MSG_MAX_QUEUE : Nat := 256

def MSG_MAX_BYTES : Nat := 64 * 1024

structure Message where
  mtype : BitVec 64
  data : List Byte
  deriving DecidableEq

structure MsgQueue where
  messages : List Message
  totalBytes : Nat
  deriving DecidableEq

namespace MsgQueue

def new : MsgQueue := { messages := [], totalBytes := 0 }

def send (q : MsgQueue) (mtype : BitVec 64) (data : List Byte) (flags : Nat) : MsgQueue × Except Int Unit :=
  if mtype.toInt ≤ 0 then (q, .error EINVAL)
  else if data.length > MSG_MAX_SIZE then (q, .error EINVAL)
  else if q.messages.length ≥ MSG_MAX_QUEUE ∨ q.totalBytes + data.length > MSG_MAX_BYTES then
    (q, .error (wouldBlock flags))
  else ({ messages := q.messages ++ [{ mtype, data }], totalBytes := q.totalBytes + data.length }, .ok ())

/-- The position of the message that `recv` takes. -/
def position (q : MsgQueue) (msgtype : BitVec 64) : Checked (Option Nat) :=
  if msgtype = 0 then .ok (if q.messages = [] then none else some 0)
  else if 0 < msgtype.toInt then .ok (q.messages.findIdx? (fun m => m.mtype == msgtype))
  else do
    let absType ← neg msgtype
    .ok (q.messages.findIdx? (fun m => decide (m.mtype.toInt ≤ absType.toInt)))

def recv (q : MsgQueue) (msgtype : BitVec 64) (maxSize flags : Nat) : Checked (MsgQueue × Except Int Message) := do
  match ← q.position msgtype with
  | none => .ok (q, .error (wouldBlock flags))
  | some idx =>
    let msg ← Checked.get q.messages idx
    let totalBytes ← sub q.totalBytes msg.data.length
    .ok ({ messages := q.messages.eraseIdx idx, totalBytes },
      if msg.data.length > maxSize then .error ERANGE else .ok msg)

/-- The messages a type selector asks for. -/
def Selects (msgtype : BitVec 64) (m : Message) : Prop :=
  msgtype.toInt = 0 ∨ (0 < msgtype.toInt ∧ m.mtype = msgtype) ∨ (msgtype.toInt < 0 ∧ m.mtype.toInt ≤ -msgtype.toInt)

instance (msgtype : BitVec 64) : DecidablePred (Selects msgtype) := fun _ => inferInstanceAs (Decidable (_ ∨ _))

/-- The first message in the order of sending that the selector asks for. -/
def firstSelected (q : MsgQueue) (msgtype : BitVec 64) : Option Message := q.messages.find? (Selects msgtype)

/-- The bytes of the queued messages. -/
def bytes (messages : List Message) : Nat := (messages.map (·.data.length)).sum

/-- **The search of `recv`** goes for the first message its selector asks for. -/
theorem position_eq (q : MsgQueue) {msgtype : BitVec 64} (hmin : msgtype ≠ BitVec.intMin 64) :
    q.position msgtype = .ok (q.messages.findIdx? (Selects msgtype)) := by
  unfold position
  by_cases hzero : msgtype = 0
  · subst hzero
    rw [if_pos rfl]
    cases q.messages with
    | nil => rfl
    | cons m ms => simp [findIdx?_cons, Selects]
  have hne : msgtype.toInt ≠ 0 := fun h => hzero (BitVec.eq_of_toInt_eq h)
  rw [if_neg hzero]
  split
  next hpos =>
    congr 2
    funext m
    simp [Selects, hpos, hne, hpos.not_gt, Bool.beq_eq_decide_eq]
  next hpos =>
    rw [bind_of_ok (neg_of_ne hmin), BitVec.toInt_neg_of_ne_intMin hmin]
    congr 2
    funext m
    simp [Selects, hpos, hne, show msgtype.toInt < 0 by omega]

/-- What `recv` does to a queue whose count of bytes is right. -/
theorem recv_spec {q : MsgQueue} (hbytes : q.totalBytes = bytes q.messages) {msgtype : BitVec 64}
    (hmin : msgtype ≠ BitVec.intMin 64) (maxSize flags : Nat) :
    (q.firstSelected msgtype = none ∧ q.recv msgtype maxSize flags = .ok (q, .error (wouldBlock flags))) ∨
      ∃ pre m post, q.messages = pre ++ m :: post ∧ (∀ x ∈ pre, ¬Selects msgtype x) ∧
        q.firstSelected msgtype = some m ∧
        q.recv msgtype maxSize flags = .ok ({ messages := pre ++ post, totalBytes := bytes (pre ++ post) },
          if m.data.length > maxSize then .error ERANGE else .ok m) := by
  unfold recv
  rw [bind_of_ok (q.position_eq hmin)]
  cases hsel : q.firstSelected msgtype with
  | none =>
    rw [findIdx?_eq_none_iff.mpr (fun m hm => by simpa using find?_eq_none.mp hsel m hm)]
    exact .inl ⟨rfl, rfl⟩
  | some m =>
    obtain ⟨hm, pre, post, hq, hpre⟩ := find?_eq_some_iff_append.mp hsel
    have hidx : q.messages.findIdx? (Selects msgtype) = some pre.length := by
      rw [hq, findIdx?_append, findIdx?_eq_none_iff.mpr (fun x hx => by simpa using hpre x hx), findIdx?_cons, hm]
      simp
    have hget : Checked.get q.messages pre.length = .ok m := by
      simp [Checked.get, hq]
    have hsum : q.totalBytes = bytes (pre ++ post) + m.data.length := by
      rw [hbytes, hq]
      simp only [bytes, map_append, map_cons, sum_append, sum_cons]
      omega
    rw [hidx]
    refine .inr ⟨pre, m, post, hq, fun x hx => by simpa using hpre x hx, rfl, ?_⟩
    simp only [bind_of_ok hget]
    rw [bind_of_ok (sub_of_le (by omega)), hsum, Nat.add_sub_cancel, hq, eraseIdx_append_of_length_le (le_refl _)]
    simp

theorem send_cases (q : MsgQueue) (mtype : BitVec 64) (data : List Byte) (flags : Nat) :
    (∃ e, q.send mtype data flags = (q, .error e)) ∨
      q.send mtype data flags =
        ({ messages := q.messages ++ [{ mtype, data }], totalBytes := q.totalBytes + data.length }, .ok ()) := by
  unfold send
  split_ifs
  iterate 3 exact .inl ⟨_, rfl⟩
  exact .inr rfl

end MsgQueue

/-- A queue with the messages sent to it and those delivered from it. -/
structure Exchange where
  queue : MsgQueue
  sent : List Message
  delivered : List Message
  deriving DecidableEq

namespace Exchange

open MsgQueue

def new : Exchange := { queue := .new, sent := [], delivered := [] }

inductive Call where
  | send (mtype : BitVec 64) (data : List Byte) (flags : Nat)
  | recv (msgtype : BitVec 64) (maxSize flags : Nat)

def step (x : Exchange) : Call → Option Exchange
  | .send mtype data flags =>
    match x.queue.send mtype data flags with
    | (queue, .ok ()) => some { x with queue, sent := x.sent ++ [{ mtype, data }] }
    | (queue, .error _) => some { x with queue }
  | .recv msgtype maxSize flags =>
    match x.queue.recv msgtype maxSize flags with
    | .ok (queue, .ok m) => some { x with queue, delivered := x.delivered ++ [m] }
    | .ok (queue, .error _) => some { x with queue }
    | .error _ => none

/-- A receive has room for the message it selects, and its selector can be negated. -/
def Fits (x : Exchange) : Call → Prop
  | .send _ _ _ => True
  | .recv msgtype maxSize _ => msgtype ≠ BitVec.intMin 64 ∧ ∀ m ∈ x.queue.firstSelected msgtype, m.data.length ≤ maxSize

instance (x : Exchange) (c : Call) : Decidable (x.Fits c) :=
  match c with
  | .send _ _ _ => .isTrue trivial
  | .recv _ _ _ => inferInstanceAs (Decidable (_ ∧ _))

/-- The count of bytes is right, and every message sent is delivered or queued, in the order of sending. -/
structure Sound (x : Exchange) : Prop where
  bytes : x.queue.totalBytes = MsgQueue.bytes x.queue.messages
  once : x.sent.Perm (x.delivered ++ x.queue.messages)
  inOrder : x.queue.messages.Sublist x.sent

theorem Sound.step {x x' : Exchange} {c : Call} (h : x.Sound) (hok : x.Fits c) (hs : x.step c = some x') :
    x'.Sound := by
  cases c with
  | send mtype data flags =>
    rcases x.queue.send_cases mtype data flags with ⟨e, hsend⟩ | hsend
    all_goals
      rw [Exchange.step, hsend] at hs
      cases hs
    · exact { h with }
    · exact ⟨by simp [h.bytes, MsgQueue.bytes], by simpa using h.once.append_right [{ mtype, data }],
        h.inOrder.append (.refl _)⟩
  | recv msgtype maxSize flags =>
    rcases recv_spec h.bytes hok.1 maxSize flags with ⟨-, hr⟩ | ⟨pre, m, post, hq, -, hsel, hr⟩
    · rw [Exchange.step, hr] at hs
      cases hs
      exact { h with }
    · rw [Exchange.step, hr, if_neg (not_lt.mpr (hok.2 m hsel))] at hs
      cases hs
      refine ⟨rfl, h.once.trans ?_, .trans ?_ h.inOrder⟩
      · rw [hq, append_assoc, singleton_append]
        exact perm_middle.append_left x.delivered
      · rw [hq]
        exact (Sublist.refl pre).append (sublist_cons_self m post)

/-- **Message queues lose nothing.** In every run whose receives have room for the message they select, the count of
    bytes is right, each message sent is delivered once or still queued, and the queue is in the order of sending; a
    send or receive that fails leaves the queue as it was, and a receive that succeeds takes the first message its
    selector asks for, and only that. -/
theorem messages_not_lost {x : Exchange} (hrun : Steps step Fits new x) :
    x.queue.totalBytes = bytes x.queue.messages ∧ x.sent.Perm (x.delivered ++ x.queue.messages) ∧
      x.queue.messages.Sublist x.sent ∧
      (∀ mtype data flags e, (x.queue.send mtype data flags).2 = .error e →
        (x.queue.send mtype data flags).1 = x.queue) ∧
      ∀ msgtype maxSize flags, x.Fits (.recv msgtype maxSize flags) →
        ∃ q' r, x.queue.recv msgtype maxSize flags = .ok (q', r) ∧ (∀ e, r = .error e → q' = x.queue) ∧
          ∀ m, r = .ok m → ∃ pre post, x.queue.messages = pre ++ m :: post ∧ (∀ p ∈ pre, ¬Selects msgtype p) ∧
            Selects msgtype m ∧ q'.messages = pre ++ post := by
  have h : x.Sound := hrun.invariant Sound (fun _ _ _ h => h.step) ⟨rfl, .nil, .slnil⟩
  refine ⟨h.bytes, h.once, h.inOrder, ?_, ?_⟩
  · intro mtype data flags e he
    rcases x.queue.send_cases mtype data flags with ⟨_, hsend⟩ | hsend <;> rw [hsend] at he ⊢
    cases he
  · intro msgtype maxSize flags hok
    rcases recv_spec h.bytes hok.1 maxSize flags with ⟨-, hr⟩ | ⟨pre, m, post, hq, hpre, hsel, hr⟩
    · exact ⟨_, _, hr, fun _ _ => rfl, nofun⟩
    · rw [if_neg (not_lt.mpr (hok.2 m hsel))] at hr
      refine ⟨_, _, hr, nofun, ?_⟩
      intro _ he
      cases he
      exact ⟨pre, post, hq, hpre, by simpa using find?_some hsel, rfl⟩

/-- Three messages, of which a receive by a negative selector has taken the one in the middle: the next receive gets
    the older one of the other two. -/
theorem messages_not_lost_three : ∃ x, Steps step Fits new x ∧ x.delivered = [⟨1, [8, 8]⟩] ∧
    x.queue.messages = [⟨2, [7]⟩, ⟨2, [9]⟩] ∧ x.sent.Perm (x.delivered ++ x.queue.messages) ∧
    ∃ q', x.queue.recv 2 1 0 = .ok (q', .ok ⟨2, [7]⟩) ∧ q'.messages = [⟨2, [9]⟩] := by
  obtain ⟨x, hx, hdelivered, hqueue, hfits, hres⟩ : ∃ x, Steps step Fits new x ∧ x.delivered = [⟨1, [8, 8]⟩] ∧
      x.queue.messages = [⟨2, [7]⟩, ⟨2, [9]⟩] ∧ x.Fits (.recv 2 1 0) ∧
      (x.queue.recv 2 1 0).map Prod.snd = .ok (.ok ⟨2, [7]⟩) :=
    Reach.exists_exec [.send 2 [7] 0, .send 1 [8, 8] 0, .send 2 [9] 0, .recv (-1) 2 0] rfl (by decide +kernel)
  obtain ⟨-, honce, -, -, hrecv⟩ := messages_not_lost hx
  obtain ⟨q', r, hr, -, htaken⟩ := hrecv 2 1 0 hfits
  rw [hr] at hres
  cases hres
  obtain ⟨pre, post, hsplit, hpre, -, hrest⟩ := htaken _ rfl
  refine ⟨x, hx, hdelivered, hqueue, honce, q', hr, ?_⟩
  -- the message is the first one, since its selector would have taken any before it
  rw [hqueue] at hsplit
  cases pre with
  | nil =>
    cases hsplit
    exact hrest
  | cons p pre =>
    obtain ⟨hp, -⟩ := cons.inj hsplit
    exact absurd (hpre p mem_cons_self) (by rw [← hp]; decide)

/-- **A message is lost**: a receive with a buffer of one byte fails, and takes the message out of the queue. -/
theorem short_receive_drops : ∃ x, Steps step (fun _ _ => True) new x ∧ x.queue.messages = [⟨1, [7, 7]⟩] ∧
    x.queue.recv 0 1 0 = .ok (.new, .error ERANGE) :=
  Reach.exists_exec [.send 1 [7, 7] 0] rfl (by decide)

end Exchange
end OxideOs.SysV


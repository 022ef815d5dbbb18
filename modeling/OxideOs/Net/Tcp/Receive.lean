import OxideOs.Net.Tcp.Effects

/-!
# `Net.Tcp.Receive` — the stream that arrives

The peer has a stream of bytes that starts after its initial sequence number. A connection takes the bytes that
come in order in `Established` and counts one number more for the FIN. The FIN is counted in three states and
whatever its sequence number: a FIN that arrives before the data, or together with data that is dropped, makes
`rcv_nxt` pass bytes that were never taken, and `recv` reports the end of a stream it has not delivered.
-/

namespace OxideOs.Tcp

open List TcpConnection Checked

namespace Session

variable {s s' : Session} {a : Session.Action}

/-! ## The receive side of a step -/

/-- The bytes taken from the network so far. -/
def taken (s : Session) : Nat := s.received.length + s.conn.recvBuf.length

/-- `recv` hands out at least one byte. -/
def Reads (c : TcpConnection) (len : Nat) : Prop :=
  (c.state = .established ∨ c.state = .finWait1 ∨ c.state = .finWait2 ∨ c.state = .closeWait) ∧
    c.recvBuf ≠ [] ∧ 0 < len

instance (c : TcpConnection) (len : Nat) : Decidable (Reads c len) := inferInstanceAs (Decidable (_ ∧ _ ∧ _))

/-- A step other than an incoming segment: bytes only move from the buffer to the application. -/
structure Quiet (s : Session) (a : Action) (s' : Session) : Prop where
  bytes : s'.received ++ s'.conn.recvBuf = s.received ++ s.conn.recvBuf
  rcvNxt : s'.conn.rcvNxt = s.conn.rcvNxt
  rcvWnd : s'.conn.rcvWnd = s.conn.rcvWnd
  state : CallMove s.conn.state s'.conn.state
  kept : (∀ len, a = .recv len → ¬ Reads s.conn len) → s'.conn.recvBuf = s.conn.recvBuf

theorem Quiet.taken (h : Quiet s a s') : s'.taken = s.taken := by
  have hlen := congrArg length h.bytes
  rw [length_append, length_append] at hlen
  exact hlen

theorem quiet_transmitData {c c' : TcpConnection} (h : c.transmitData = .ok c') :
    c'.recvBuf = c.recvBuf ∧ c'.rcvNxt = c.rcvNxt ∧ c'.rcvWnd = c.rcvWnd ∧ c'.state = c.state := by
  rcases transmitData_eq h with rfl | ⟨n, -, -, -, -, rfl⟩ <;> exact ⟨rfl, rfl, rfl, rfl⟩

theorem act_recv_quiet (s : Session) (len : Nat) {s' : Session} (h : s.act (.recv len) = .ok s') :
    Quiet s (.recv len) s' := by
  cases h
  unfold recv
  split
  next hst =>
    split
    · refine ⟨?_, rfl, rfl, .inl rfl, fun _ => rfl⟩
      split
      · show (s.received ++ []) ++ s.conn.recvBuf = _
        rw [append_nil]
      · rfl
    rename_i hne
    refine ⟨?_, rfl, rfl, .inl rfl, ?_⟩
    · show (s.received ++ s.conn.recvBuf.take len) ++ s.conn.recvBuf.drop len = _
      rw [append_assoc, take_append_drop]
    intro hread
    have hzero : len = 0 := by
      by_contra hpos
      exact hread len rfl ⟨hst, hne, pos_of_ne_zero hpos⟩
    rw [hzero]
    rfl
  · exact ⟨rfl, rfl, rfl, .inl rfl, fun _ => rfl⟩

theorem act_of_step (h : s.step a = some s') : s.act a = .ok s' := by
  unfold step at h
  split at h
  next hok =>
    rw [hok, Option.some.inj h]
  · cases h

/-- **The receive side of a step**: an incoming segment, or a quiet step. -/
theorem step_receive (h : s.step a = some s') :
    (∃ seg, a = .segment seg ∧ Effect s.conn seg s'.conn ∧ s'.received = s.received) ∨
      ((∀ seg, a ≠ .segment seg) ∧ Quiet s a s') := by
  have hact := act_of_step h
  cases a with
  | segment seg =>
    obtain ⟨c, hc, hs⟩ := bind_eq_ok hact
    cases hs
    exact .inl ⟨seg, rfl, processSegment_effect hc, rfl⟩
  | send data =>
    obtain ⟨r, hr, hs⟩ := bind_eq_ok hact
    cases hs
    refine .inr ⟨nofun, ?_⟩
    unfold send at hr
    split at hr
    · cases hr
      exact ⟨rfl, rfl, rfl, .inl rfl, fun _ => rfl⟩
    obtain ⟨c, hc, hr⟩ := bind_eq_ok hr
    cases hr
    obtain ⟨h1, h2, h3, h4⟩ := quiet_transmitData hc
    exact ⟨congrArg _ h1, h2, h3, .inl h4, fun _ => h1⟩
  | transmitData =>
    obtain ⟨c, hc, hs⟩ := bind_eq_ok hact
    cases hs
    obtain ⟨h1, h2, h3, h4⟩ := quiet_transmitData hc
    exact .inr ⟨nofun, congrArg _ h1, h2, h3, .inl h4, fun _ => h1⟩
  | recv len => exact .inr ⟨nofun, act_recv_quiet s len hact⟩
  | close =>
    cases hact
    refine .inr ⟨nofun, ?_⟩
    obtain ⟨q, segs, st, hmove, ⟨-, -, -, he⟩ | ⟨-, he⟩⟩ := close_eq s.conn
    all_goals
      rw [he]
      exact ⟨rfl, rfl, rfl, hmove, fun _ => rfl⟩
  | timers =>
    cases hact
    refine .inr ⟨nofun, ?_⟩
    obtain ⟨q, rto, th, w, t, st, hst, he⟩ := processTimers_eq s.conn
    rw [he]
    refine ⟨rfl, rfl, rfl, ?_, fun _ => rfl⟩
    rcases hst with hst | ⟨h1, h2⟩
    · exact .inl hst
    · exact .inr (.inr (.inr ⟨.inr (.inr h1), h2⟩))
  | dequeueSegments =>
    cases hact
    exact .inr ⟨nofun, rfl, rfl, rfl, .inl rfl, fun _ => rfl⟩

/-! ## The peer's stream -/

/-- The place in the stream of a sequence number, read next to the `k` bytes that were taken: TCP's numbers are
    modulo `2 ^ 32`, and the one that is meant is the nearest. -/
def position (isn : BitVec 32) (k : Nat) (seq : BitVec 32) : Int := k + (seq - (isn + 1 + BitVec.ofNat 32 k)).toInt

/-- **What the peer may send** to a connection that took `k` bytes: payload that agrees with the stream at its
    sequence numbers, and FIN only at the stream's end. -/
structure Agrees (isn : BitVec 32) (stream : List Byte) (k : Nat) (seg : TcpSegment) : Prop where
  bytes : ∀ i : Fin seg.data.length, 0 ≤ position isn k seg.header.seqNum + i →
    stream[(position isn k seg.header.seqNum + i).toNat]? = some (seg.data.get i)
  fin : seg.header.has FIN = true → position isn k seg.header.seqNum + seg.data.length = stream.length

instance (isn : BitVec 32) (stream : List Byte) (k : Nat) (seg : TcpSegment) : Decidable (Agrees isn stream k seg) :=
  decidable_of_iff
    ((∀ i : Fin seg.data.length, 0 ≤ position isn k seg.header.seqNum + i →
        stream[(position isn k seg.header.seqNum + i).toNat]? = some (seg.data.get i)) ∧
      (seg.header.has FIN = true → position isn k seg.header.seqNum + seg.data.length = stream.length))
    ⟨fun h => ⟨h.1, h.2⟩, fun h => ⟨h.1, h.2⟩⟩

/-- The three states in which the peer's FIN is counted. -/
def Awaits (st : TcpState) : Prop := st = .established ∨ st = .finWait1 ∨ st = .finWait2

instance (st : TcpState) : Decidable (Awaits st) := inferInstanceAs (Decidable (_ ∨ _ ∨ _))

/-- A FIN that is next in order, with the data before it taken. -/
def FinInOrder (c : TcpConnection) (seg : TcpSegment) : Prop :=
  c.considers seg = true → seg.header.has FIN = true → Awaits c.state →
    seg.header.seqNum = c.rcvNxt ∧ (c.state = .established ∨ seg.data = [])

instance (c : TcpConnection) (seg : TcpSegment) : Decidable (FinInOrder c seg) :=
  inferInstanceAs (Decidable (_ → _ → _ → _))

/-- A session with the segments that have arrived. -/
structure Inbound where
  session : Session
  arrived : List TcpSegment

def Inbound.step (w : Inbound) (a : Action) : Option Inbound :=
  (w.session.step a).map fun s => ⟨s, match a with | .segment seg => w.arrived ++ [seg] | _ => w.arrived⟩

/-- `Established`, with nothing taken yet. -/
def Established (isn : BitVec 32) (w : Inbound) : Prop :=
  w.session.conn.state = .established ∧ w.session.conn.rcvNxt = isn + 1 ∧ w.session.conn.recvBuf = [] ∧
    w.session.received = [] ∧ w.arrived = []

/-- Every segment is one the peer may send. -/
def FromPeer (isn : BitVec 32) (stream : List Byte) (w : Inbound) (a : Action) : Prop :=
  match a with
  | .segment seg => Agrees isn stream w.session.taken seg
  | _ => True

instance (isn : BitVec 32) (stream : List Byte) (w : Inbound) (a : Action) : Decidable (FromPeer isn stream w a) := by
  delta FromPeer
  cases a <;> infer_instance

/-- A FIN that is counted comes in order. -/
def FinsInOrder (w : Inbound) (a : Action) : Prop :=
  match a with
  | .segment seg => FinInOrder w.session.conn seg
  | _ => True

instance (w : Inbound) (a : Action) : Decidable (FinsInOrder w a) := by
  delta FinsInOrder
  cases a <;> infer_instance

/-- Every segment is one the peer may send, and a FIN that is counted comes in order. -/
def FromPeerInOrder (isn : BitVec 32) (stream : List Byte) (w : Inbound) (a : Action) : Prop :=
  FromPeer isn stream w a ∧ FinsInOrder w a

instance (isn : BitVec 32) (stream : List Byte) (w : Inbound) (a : Action) :
    Decidable (FromPeerInOrder isn stream w a) := inferInstanceAs (Decidable (_ ∧ _))

/-! ## The stream is taken in order -/

/-- **The receive invariant**: `fin` tells whether the peer's FIN was counted. -/
structure Receives (isn : BitVec 32) (stream : List Byte) (w : Inbound) (fin : Bool) : Prop where
  rcvNxt : w.session.conn.rcvNxt = isn + 1 + BitVec.ofNat 32 w.session.taken + (if fin then 1 else 0)
  bytes : w.session.received ++ w.session.conn.recvBuf = stream.take w.session.taken
  whole : fin = true → w.session.taken = stream.length ∧ ∃ seg ∈ w.arrived, seg.header.has FIN = true
  awaits : Awaits w.session.conn.state → fin = false
  closeWait : w.session.conn.state = .closeWait → fin = true
  opened : w.session.conn.state ≠ .listen ∧ w.session.conn.state ≠ .synSent ∧ w.session.conn.state ≠ .synReceived

variable {isn : BitVec 32} {stream : List Byte} {w w' : Inbound} {fin : Bool}

theorem position_self (k : Nat) : position isn k (isn + 1 + BitVec.ofNat 32 k) = k := by
  unfold position
  simp

/-- **For a stream below `2 ^ 31` this is the plain reading**: a piece of the stream under its own sequence number
    agrees, and with FIN if it is the last one, whatever was taken before. -/
theorem agrees_of_slice {seg : TcpSegment} {k p : Nat} (hshort : stream.length < 2 ^ 31) (hk : k ≤ stream.length)
    (hseq : seg.header.seqNum = isn + 1 + BitVec.ofNat 32 p) (hlen : p + seg.data.length ≤ stream.length)
    (hdata : seg.data = (stream.drop p).take seg.data.length)
    (hfin : seg.header.has FIN = true → p + seg.data.length = stream.length) : Agrees isn stream k seg := by
  have hpos : position isn k seg.header.seqNum = p := by
    have hdiff : isn + 1 + BitVec.ofNat 32 p - (isn + 1 + BitVec.ofNat 32 k) =
        BitVec.ofNat 32 p - BitVec.ofNat 32 k := add_sub_add_left_eq_sub _ _ _
    unfold position
    rw [hseq, hdiff, BitVec.toInt_eq_toNat_cond, BitVec.toNat_sub, BitVec.toNat_ofNat, BitVec.toNat_ofNat,
      Nat.mod_eq_of_lt (by omega : p < 2 ^ 32), Nat.mod_eq_of_lt (by omega : k < 2 ^ 32)]
    split <;> omega
  refine ⟨fun i _ => ?_, fun hf => ?_⟩
  · have hget : seg.data[i.val]? = ((stream.drop p).take seg.data.length)[i.val]? := congrArg (·[i.val]?) hdata
    rw [getElem?_take_of_lt i.isLt, getElem?_drop, getElem?_eq_getElem i.isLt] at hget
    rw [hpos, ← Nat.cast_add, Int.toNat_natCast, ← hget]
    rfl
  · rw [hpos, ← Nat.cast_add, hfin hf]

/-- Bytes that agree at the next position continue the stream. -/
theorem take_append_of_agrees {k : Nat} {data : List Byte}
    (h : ∀ i : Fin data.length, stream[k + i]? = some (data.get i)) :
    stream.take k ++ data = stream.take (k + data.length) := by
  rw [take_add]
  congr 1
  apply ext_getElem?
  intro i
  by_cases hi : i < data.length
  · rw [getElem?_take_of_lt hi, getElem?_drop, h ⟨i, hi⟩, getElem?_eq_getElem hi]
    rfl
  · rw [getElem?_eq_none (Nat.le_of_not_lt hi), getElem?_take_eq_none (Nat.le_of_not_lt hi)]

/-- What a move of the application or the timers does to the receiving states. -/
theorem callMove_receives {st st' : TcpState} (h : CallMove st st')
    (hopened : st ≠ .listen ∧ st ≠ .synSent ∧ st ≠ .synReceived) :
    (Awaits st' → Awaits st) ∧ (st' = .closeWait → st = .closeWait) ∧
      (st' ≠ .listen ∧ st' ≠ .synSent ∧ st' ≠ .synReceived) := by
  rcases h with rfl | ⟨rfl, rfl⟩ | ⟨rfl, rfl⟩ | ⟨h, rfl⟩
  · exact ⟨id, id, hopened⟩
  · exact ⟨fun _ => .inl rfl, nofun, nofun, nofun, nofun⟩
  · exact ⟨by decide, nofun, nofun, nofun, nofun⟩
  · have hnot : ¬ Awaits .closed := by decide
    exact ⟨fun hx => absurd hx hnot, nofun, nofun, nofun, nofun⟩

/-- What a segment does to the receiving states. -/
theorem nextState_receives (c : TcpConnection) (seg : TcpSegment)
    (hopened : c.state ≠ .listen ∧ c.state ≠ .synSent ∧ c.state ≠ .synReceived) :
    (Awaits (c.nextState seg) → Awaits c.state ∧ c.fins seg = false) ∧
      (c.nextState seg = .closeWait → c.state = .closeWait ∨ c.fins seg = true) ∧
      (c.nextState seg ≠ .listen ∧ c.nextState seg ≠ .synSent ∧ c.nextState seg ≠ .synReceived) := by
  -- a finite check over the state, the acceptance test and the four flags
  revert hopened
  unfold nextState fins considers
  generalize c.accepts seg = accepted, seg.header.has RST = rst, seg.header.has SYN = syn, seg.header.has ACK = ack,
    seg.header.has FIN = fin, c.state = st
  revert accepted rst syn ack fin
  cases st <;> decide

section

variable (h : Receives isn stream w fin)
include h

theorem Receives.quiet {a : Action} (hq : Quiet w.session a w'.session)
    (harr : w'.arrived = w.arrived) : Receives isn stream w' fin := by
  obtain ⟨hawaits, hclose, hopened⟩ := callMove_receives hq.state h.opened
  refine ⟨?_, ?_, ?_, fun hst => h.awaits (hawaits hst), fun hst => h.closeWait (hclose hst), hopened⟩
  · rw [hq.rcvNxt, hq.taken]
    exact h.rcvNxt
  · rw [hq.bytes, hq.taken]
    exact h.bytes
  · rw [hq.taken, harr]
    exact h.whole

section

variable {seg : TcpSegment} (hagrees : Agrees isn stream w.session.taken seg)
include hagrees

/-- In order, the segment's bytes are the stream's next ones. -/
theorem Receives.takes :
    stream.take w.session.taken ++ w.session.conn.takes seg =
      stream.take (w.session.taken + (w.session.conn.takes seg).length) := by
  unfold TcpConnection.takes
  split
  next hin =>
    obtain ⟨-, hst, hseq⟩ := hin
    have hpos : position isn w.session.taken seg.header.seqNum = w.session.taken := by
      rw [hseq, h.rcvNxt, h.awaits (.inl hst)]
      simpa using position_self w.session.taken
    apply take_append_of_agrees
    intro i
    have hbyte := hagrees.bytes i
    rw [hpos] at hbyte
    exact hbyte (Int.natCast_nonneg _)
  · simp

/-- A FIN in order comes after the whole stream. -/
theorem Receives.fin_whole (horder : FinInOrder w.session.conn seg) (hfins : w.session.conn.fins seg = true) :
    fin = false ∧ seg.header.has FIN = true ∧
      w.session.taken + (w.session.conn.takes seg).length = stream.length := by
  have hparts : w.session.conn.considers seg = true ∧ seg.header.has FIN = true ∧ Awaits w.session.conn.state := by
    unfold fins at hfins
    simpa [Awaits, and_assoc, or_assoc] using hfins
  obtain ⟨hc, hf, hawaits⟩ := hparts
  obtain ⟨hseq, hdata⟩ := horder hc hf hawaits
  have hfin := h.awaits hawaits
  have hpos : position isn w.session.taken seg.header.seqNum = w.session.taken := by
    rw [hseq, h.rcvNxt, hfin]
    simpa using position_self w.session.taken
  have hend := hagrees.fin hf
  rw [hpos] at hend
  have htakes : w.session.conn.takes seg = seg.data := by
    unfold TcpConnection.takes
    rcases hdata with hst | hnone
    · exact if_pos ⟨hc, hst, hseq⟩
    · rw [hnone]
      exact ite_self _
  refine ⟨hfin, hf, ?_⟩
  rw [htakes]
  exact_mod_cast hend

theorem Receives.segment (horder : FinInOrder w.session.conn seg)
    (heff : Effect w.session.conn seg w'.session.conn) (hrec : w'.session.received = w.session.received)
    (harr : w'.arrived = w.arrived ++ [seg]) : Receives isn stream w' (fin || w.session.conn.fins seg) := by
  have htaken : w'.session.taken = w.session.taken + (w.session.conn.takes seg).length := by
    unfold taken
    rw [hrec, heff.recvBuf, length_append]
    omega
  obtain ⟨hawaits, hclose, hopened⟩ := nextState_receives w.session.conn seg h.opened
  refine ⟨?_, ?_, ?_, ?_, ?_, ?_⟩
  · rw [heff.rcvNxt h.opened.1 h.opened.2.1, h.rcvNxt, htaken, BitVec.ofNat_add]
    cases hf : w.session.conn.fins seg with
    | false =>
      rw [Bool.or_false]
      simp only [Bool.false_eq_true, if_false]
      ac_rfl
    | true =>
      obtain ⟨rfl, -⟩ := h.fin_whole hagrees horder hf
      simp only [Bool.false_eq_true, if_false, Bool.or_true, if_true]
      ac_rfl
  · rw [hrec, heff.recvBuf, ← append_assoc, h.bytes, htaken]
    exact h.takes hagrees
  · intro hfin
    cases hf : w.session.conn.fins seg with
    | false =>
      rw [hf, Bool.or_false] at hfin
      obtain ⟨hall, s, hs, hsf⟩ := h.whole hfin
      have hnone : w.session.conn.takes seg = [] := by
        -- nothing is left to take
        have hlen := congrArg length (h.takes hagrees)
        rw [length_append, length_take, length_take, hall] at hlen
        apply eq_nil_of_length_eq_zero
        omega
      refine ⟨?_, s, ?_, hsf⟩
      · rw [htaken, hall, hnone]
        rfl
      · rw [harr]
        exact mem_append_left _ hs
    | true =>
      obtain ⟨-, hsf, hall⟩ := h.fin_whole hagrees horder hf
      refine ⟨htaken.trans hall, seg, ?_, hsf⟩
      rw [harr]
      exact mem_append_right _ (mem_singleton.mpr rfl)
  · intro hst
    rw [heff.state] at hst
    obtain ⟨hst, hf⟩ := hawaits hst
    rw [h.awaits hst, hf]
    rfl
  · intro hst
    rw [heff.state] at hst
    rcases hclose hst with hst | hf
    · rw [h.closeWait hst]
      rfl
    · rw [hf, Bool.or_true]
  · rw [heff.state]
    exact hopened

end

/-- One step. -/
theorem Receives.step {a : Action} (hok : FromPeerInOrder isn stream w a)
    (hs : w.step a = some w') : ∃ fin', Receives isn stream w' fin' := by
  obtain ⟨s', hs', rfl⟩ := Option.map_eq_some_iff.mp hs
  rcases step_receive hs' with ⟨seg, rfl, heff, hrec⟩ | ⟨hne, hq⟩
  · exact ⟨_, h.segment hok.1 hok.2 heff hrec rfl⟩
  cases a with
  | segment seg => exact absurd rfl (hne seg)
  | _ => exact ⟨fin, h.quiet hq rfl⟩

end

theorem Established.receives (h : Established isn w) : Receives isn stream w false := by
  obtain ⟨hst, hnxt, hbuf, hrec, -⟩ := h
  have htaken : w.session.taken = 0 := by
    unfold taken
    rw [hrec, hbuf]
    rfl
  refine ⟨?_, ?_, nofun, fun _ => rfl, ?_, ?_⟩
  · rw [hnxt, htaken]
    simp
  · rw [hrec, hbuf, htaken]
    simp
  · intro hcw
    rw [hst] at hcw
    cases hcw
  · rw [hst]
    exact ⟨nofun, nofun, nofun⟩

/-- `Ok(0)` for a buffer that has room is the end of the file: `CloseWait` with nothing buffered. -/
theorem recv_eof {c : TcpConnection} {len : Nat} (hlen : 0 < len) (h : (c.recv len).1 = .ok []) :
    c.state = .closeWait ∧ c.recvBuf = [] := by
  unfold recv at h
  split at h
  · split at h
    next hempty =>
      split at h
      next hst =>
        exact ⟨hst, hempty⟩
      · cases h
    next hne =>
      have htake : c.recvBuf.take len = [] := Except.ok.inj h
      rcases take_eq_nil_iff.mp htake with h0 | h0
      · omega
      · exact absurd h0 hne
  · cases h

/-- **The stream arrives.** In every run in which a FIN is counted only in order, what `recv` returned is a
    prefix of the peer's stream, `rcv_nxt` counts the bytes taken and a FIN after the whole stream, and the end
    of the file is reported only when everything was delivered. -/
theorem receive_stream (h : Run.Reach Inbound.step (FromPeerInOrder isn stream) (Established isn) w) :
    w.session.received <+: stream ∧
      w.session.received ++ w.session.conn.recvBuf = stream.take w.session.taken ∧
      (∃ fin : Bool,
        w.session.conn.rcvNxt = isn + 1 + BitVec.ofNat 32 w.session.taken + (if fin then 1 else 0) ∧
          (fin = true → w.session.taken = stream.length ∧ ∃ seg ∈ w.arrived, seg.header.has FIN = true)) ∧
      ∀ len, 0 < len → (w.session.conn.recv len).1 = .ok [] → w.session.received = stream := by
  have hinv : ∃ fin, Receives isn stream w fin := by
    refine h.invariant (fun w => ∃ fin, Receives isn stream w fin) ?_ ?_
    · exact fun _ h0 => ⟨false, h0.receives⟩
    · rintro _ _ _ ⟨fin, hi⟩ hok hs
      exact hi.step hok hs
  obtain ⟨fin, hi⟩ := hinv
  refine ⟨?_, hi.bytes, ⟨fin, hi.rcvNxt, hi.whole⟩, ?_⟩
  · calc w.session.received <+: w.session.received ++ w.session.conn.recvBuf := prefix_append _ _
      _ = stream.take w.session.taken := hi.bytes
      _ <+: stream := take_prefix _ _
  intro len hlen heof
  obtain ⟨hst, hbuf⟩ := recv_eof hlen heof
  have hall := (hi.whole (hi.closeWait hst)).1
  have hbytes := hi.bytes
  rwa [hbuf, append_nil, hall, take_length] at hbytes

/-- A connection opened by `connect` to a peer with the initial sequence number 0. -/
def connected : Inbound :=
  ⟨⟨(new 0 40000 80).connect.processSynSent
      (TcpSegment.new 80 40000 0 1 (SYN ||| ACK) 65535 TcpOptions.default []), [], [], []⟩, []⟩

/-- A segment of the peer. -/
def fromPeer (seq : BitVec 32) (flags : Byte) (data : List Byte) : TcpSegment :=
  TcpSegment.new 80 40000 seq 1 flags 65535 TcpOptions.default data

/-- Two segments that overlap, the second with the FIN. -/
theorem receive_stream_overlap : ∃ w : Inbound,
    Run.Reach Inbound.step (FromPeerInOrder 0 [7, 8, 9]) (Established 0) w ∧ w.session.received = [7, 8] ∧
      w.session.received <+: [7, 8, 9] := by
  obtain ⟨w, hreach, hrec⟩ : ∃ w, Run.Reach Inbound.step (FromPeerInOrder 0 [7, 8, 9]) (Established 0) w ∧
      w.session.received = [7, 8] :=
    Run.Reach.exists_exec (s := connected) [.segment (fromPeer 2 ACK [8, 9]), .segment (fromPeer 1 ACK [7, 8]), .recv 2,
      .segment (fromPeer 3 (FIN ||| ACK) [9])] (by unfold Established; decide) (by decide +kernel)
  exact ⟨w, hreach, hrec, (receive_stream hreach).1⟩

/-- **A FIN that overtakes the data ends the stream**: the segment that ends the stream of three bytes arrives
    first; `recv` reports the end of the file with nothing delivered, and the data is never taken. -/
theorem fin_overtakes_data : ∃ w : Inbound,
    Run.Reach Inbound.step (FromPeer 0 [7, 8, 9]) (Established 0) w ∧ (w.session.conn.recv 10).1 = .ok [] ∧
      w.session.received = [] ∧ w.session.taken = 0 ∧ w.session.conn.rcvNxt = 2 := by
  exact Run.Reach.exists_exec (s := connected)
    [.segment (fromPeer 4 (FIN ||| ACK) []), .segment (fromPeer 1 ACK [7, 8, 9])]
    (by unfold Established; decide) (by decide +kernel)

end Session
end OxideOs.Tcp

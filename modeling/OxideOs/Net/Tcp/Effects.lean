import OxideOs.Net.Tcp.Connection

/-!
# `Net.Tcp.Effects` — what one incoming segment does

`process_segment` is a machine of eleven states. What it does to the state, to the receive side and to the send
side is said here once, by functions of the connection before it and the segment (`nextState`, `takes`, `fins`,
`nextUna`); everything about runs is derived from `Effect`.
-/

namespace OxideOs.Tcp

open List

/-- The sequence numbers a segment takes: its bytes, and one each for SYN and FIN. -/
def TcpSegment.seqLen (seg : TcpSegment) : Nat :=
  seg.data.length + (seg.header.has SYN).toNat + (seg.header.has FIN).toNat

namespace TcpConnection

open Checked

variable {c c' : TcpConnection} {seg : TcpSegment}

/-! ## The parts -/

/-- The segment passes the acceptance test and is no reset. -/
def considers (c : TcpConnection) (seg : TcpSegment) : Bool := c.accepts seg && !seg.header.has RST

/-- **The state machine.** -/
def nextState (c : TcpConnection) (seg : TcpSegment) : TcpState :=
  if c.accepts seg = false then c.state
  else if seg.header.has RST then
    match c.state with
    | .synReceived | .established | .finWait1 | .finWait2 | .closeWait => .closed
    | s => s
  else
    match c.state with
    | .listen => if seg.header.has SYN then .synReceived else .listen
    | .synSent =>
      if seg.header.has SYN ∧ seg.header.has ACK then .established
      else if seg.header.has SYN then .synReceived
      else .synSent
    | .synReceived => if seg.header.has ACK then .established else .synReceived
    | .established => if seg.header.has FIN then .closeWait else .established
    | .finWait1 =>
      if seg.header.has ACK then (if seg.header.has FIN then .timeWait else .finWait2)
      else (if seg.header.has FIN then .closing else .finWait1)
    | .finWait2 => if seg.header.has FIN then .timeWait else .finWait2
    | .closing => if seg.header.has ACK then .timeWait else .closing
    | .lastAck => if seg.header.has ACK then .closed else .lastAck
    | s => s

/-- The bytes that go into the receive buffer. -/
def takes (c : TcpConnection) (seg : TcpSegment) : List Byte :=
  if c.considers seg ∧ c.state = .established ∧ seg.header.seqNum = c.rcvNxt then seg.data else []

/-- The segment's FIN is counted. -/
def fins (c : TcpConnection) (seg : TcpSegment) : Bool :=
  c.considers seg && seg.header.has FIN &&
    (c.state == .established || c.state == .finWait1 || c.state == .finWait2)

/-- The peer's SYN is answered with our SYN. -/
def answersSyn (c : TcpConnection) (seg : TcpSegment) : Bool :=
  c.considers seg && seg.header.has SYN &&
    (c.state == .listen || (c.state == .synSent && !seg.header.has ACK))

/-- The peer's SYN acknowledges ours. -/
def completesSyn (c : TcpConnection) (seg : TcpSegment) : Bool :=
  c.considers seg && seg.header.has SYN && seg.header.has ACK && c.state == .synSent

/-- `process_ack` runs. -/
def acks (c : TcpConnection) (seg : TcpSegment) : Bool :=
  c.considers seg && seg.header.has ACK &&
    !(c.state == .closed || c.state == .listen || c.state == .synSent || c.state == .timeWait)

/-- The oldest unacknowledged sequence number after the segment. -/
def nextUna (c : TcpConnection) (seg : TcpSegment) : BitVec 32 :=
  if c.completesSyn seg then seg.header.ackNum
  else if c.acks seg then
    (if seqGt seg.header.ackNum c.sndUna then seg.header.ackNum else c.sndUna)
  else c.sndUna

/-- **What is queued in answer**: segments without data and without FIN, which take no sequence number but for
    our SYN, at `nxt`. -/
structure Answers (nxt : BitVec 32) (syn : Bool) (segs : List TcpSegment) : Prop where
  control : ∀ s ∈ segs, s.data = [] ∧ s.header.has FIN = false
  numbers : (segs.map TcpSegment.seqLen).sum = syn.toNat
  syn : syn = true → ∃ s ∈ segs, s.header.has SYN = true ∧ s.header.seqNum = nxt

/-- **What an incoming segment does.** -/
structure Effect (c : TcpConnection) (seg : TcpSegment) (c' : TcpConnection) : Prop where
  state : c'.state = c.nextState seg
  recvBuf : c'.recvBuf = c.recvBuf ++ c.takes seg
  rcvWnd : c'.rcvWnd = if c.takes seg = [] then c.rcvWnd else BitVec.ofNat 32 (TCP_WINDOW_SIZE - c'.recvBuf.length)
  fits : c.takes seg ≠ [] → c'.recvBuf.length ≤ TCP_WINDOW_SIZE
  rcvNxt : c.state ≠ .listen → c.state ≠ .synSent →
    c'.rcvNxt = c.rcvNxt + BitVec.ofNat 32 (c.takes seg).length + (if c.fins seg then 1 else 0)
  sndNxt : c'.sndNxt = c.sndNxt + (if c.answersSyn seg then 1 else 0)
  sndUna : c'.sndUna = c.nextUna seg
  sendBuf : c'.sendBuf = c.sendBuf
  sndWnd : c'.sndWnd = c.sndWnd
  queue : ∃ segs, c'.txQueue = c.txQueue ++ segs ∧ Answers c.sndNxt (c.answersSyn seg) segs

/-! ## Each part leaves the rest -/

theorem Answers.nil {nxt : BitVec 32} : Answers nxt false [] := ⟨nofun, rfl, nofun⟩

theorem Answers.append {nxt nxt' : BitVec 32} {syn : Bool} {segs segs' : List TcpSegment}
    (h : Answers nxt syn segs) (h' : Answers nxt' false segs') : Answers nxt syn (segs ++ segs') := by
  refine ⟨?_, ?_, ?_⟩
  · exact forall_mem_append.mpr ⟨h.control, h'.control⟩
  · rw [map_append, sum_append, h.numbers, h'.numbers]
    rfl
  · intro hsyn
    obtain ⟨s, hs, hrest⟩ := h.syn hsyn
    exact ⟨s, mem_append_left _ hs, hrest⟩

/-- One segment without data and FIN. -/
theorem answers_new {srcPort dstPort window : BitVec 16} {seq ack : BitVec 32} {flags : Byte} {o : TcpOptions}
    {syn : Bool} (hfin : flags &&& FIN = 0) (hsyn : (flags &&& SYN != 0) = syn) :
    Answers seq syn [TcpSegment.new srcPort dstPort seq ack flags window o []] := by
  have hf : (flags &&& FIN != 0) = false := by
    rw [hfin]
    rfl
  refine ⟨?_, ?_, ?_⟩
  · intro s hs
    rw [mem_singleton.mp hs]
    exact ⟨rfl, hf⟩
  · show 0 + (flags &&& SYN != 0).toNat + (flags &&& FIN != 0).toNat + 0 = syn.toNat
    rw [hf, hsyn]
    simp
  · intro h
    exact ⟨_, mem_singleton.mpr rfl, hsyn.trans h, rfl⟩

theorem sendAck_eq (c : TcpConnection) : ∃ segs q, Answers c.sndNxt false segs ∧
    c.sendAck = { c with txQueue := c.txQueue ++ segs, retransmitQueue := q } :=
  ⟨_, _, answers_new (by decide) (by decide), rfl⟩

theorem sendRst_eq (c : TcpConnection) : ∃ segs q, Answers c.sndNxt false segs ∧
    c.sendRst = { c with txQueue := c.txQueue ++ segs, retransmitQueue := q } :=
  ⟨_, _, answers_new (by decide) (by decide), rfl⟩

theorem sendSynAck_eq (c : TcpConnection) : ∃ segs q, Answers c.sndNxt true segs ∧
    c.sendSynAck = { c with txQueue := c.txQueue ++ segs, retransmitQueue := q, sndNxt := c.sndNxt + 1 } :=
  ⟨_, _, answers_new (by decide) (by decide), rfl⟩

theorem measureRtt_eq (c : TcpConnection) (seg : TcpSegment) : ∃ srtt rttvar rto,
    c.measureRtt seg = { c with srtt := srtt, rttvar := rttvar, rto := rto } := by
  unfold measureRtt
  split
  · split
    · split
      · unfold updateRtt
        split <;> exact ⟨_, _, _, rfl⟩
      · exact ⟨c.srtt, c.rttvar, c.rto, rfl⟩
    · exact ⟨c.srtt, c.rttvar, c.rto, rfl⟩
  · exact ⟨c.srtt, c.rttvar, c.rto, rfl⟩

theorem growWindow_eq (h : c.growWindow = .ok c') : ∃ w, c' = { c with cwnd := w } := by
  unfold growWindow at h
  split at h
  · obtain ⟨w, -, h⟩ := bind_eq_ok h
    cases h
    exact ⟨w, rfl⟩
  obtain ⟨n, -, h⟩ := bind_eq_ok h
  obtain ⟨w, -, h⟩ := bind_eq_ok h
  cases h
  exact ⟨w, rfl⟩

theorem duplicateAck_eq (h : c.duplicateAck = .ok c') : ∃ d w t,
    c' = { c with dupAcks := d, cwnd := w, ssthresh := t } := by
  obtain ⟨d, -, h⟩ := bind_eq_ok h
  cases h
  split
  · exact ⟨_, _, _, rfl⟩
  split
  · exact ⟨_, _, c.ssthresh, rfl⟩
  · exact ⟨_, c.cwnd, c.ssthresh, rfl⟩

/-- **`process_ack`** touches the oldest unacknowledged number, the queue of segments to retransmit and the
    congestion window. -/
theorem processAck_eq {a : BitVec 32} (h : c.processAck a = .ok c') : ∃ d u q w t,
    c' = { c with
      sndUna := if seqGt a c.sndUna then a else c.sndUna, dupAcks := d, hasUnacked := u, retransmitQueue := q
      cwnd := w, ssthresh := t } := by
  unfold processAck at h
  split at h
  next heq =>
    obtain ⟨d, w, t, rfl⟩ := duplicateAck_eq h
    refine ⟨d, c.hasUnacked, c.retransmitQueue, w, t, ?_⟩
    rw [heq, ite_self]
  split at h
  next hgt =>
    obtain ⟨w, rfl⟩ := growWindow_eq h
    rw [if_pos hgt]
    exact ⟨_, _, _, w, _, rfl⟩
  rename_i hle
  cases h
  rw [if_neg hle]
  exact ⟨_, _, _, _, _, rfl⟩

theorem ackFrom_eq (h : c.ackFrom seg = .ok c') : ∃ d u q w t,
    c' = { c with
      sndUna := if seg.header.has ACK ∧ seqGt seg.header.ackNum c.sndUna then seg.header.ackNum else c.sndUna
      dupAcks := d, hasUnacked := u, retransmitQueue := q, cwnd := w, ssthresh := t } := by
  unfold ackFrom at h
  split at h
  next hack =>
    simp only [hack, true_and]
    exact processAck_eq h
  rename_i hack
  cases h
  simp only [hack]
  exact ⟨_, _, _, _, _, rfl⟩

/-- Data in order is appended, and the window is what is left; other data changes nothing but the queue. -/
theorem receiveData_eq (h : c.receiveData seg = .ok c') : ∃ segs q, Answers c.sndNxt false segs ∧
    ((seg.header.seqNum = c.rcvNxt ∧ seg.data ≠ [] ∧ (c.recvBuf ++ seg.data).length ≤ TCP_WINDOW_SIZE ∧
        c' = { c with
          recvBuf := c.recvBuf ++ seg.data, rcvNxt := c.rcvNxt + BitVec.ofNat 32 seg.data.length
          rcvWnd := BitVec.ofNat 32 (TCP_WINDOW_SIZE - (c.recvBuf ++ seg.data).length)
          txQueue := c.txQueue ++ segs, retransmitQueue := q }) ∨
      ((seg.header.seqNum = c.rcvNxt → seg.data = []) ∧
        c' = { c with txQueue := c.txQueue ++ segs, retransmitQueue := q })) := by
  unfold receiveData at h
  split at h
  next hnil =>
    cases h
    refine ⟨[], c.retransmitQueue, Answers.nil, .inr ⟨fun _ => hnil, ?_⟩⟩
    rw [append_nil]
  rename_i hdata
  split at h
  next hseq =>
    obtain ⟨n, hn, h⟩ := bind_eq_ok h
    unfold sub at hn
    split at hn
    next hfits =>
      cases hn
      cases h
      obtain ⟨segs, q, hack, he⟩ := sendAck_eq { c with
        recvBuf := c.recvBuf ++ seg.data, rcvNxt := c.rcvNxt + BitVec.ofNat 32 seg.data.length
        rcvWnd := BitVec.ofNat 32 _ }
      exact ⟨segs, q, hack, .inl ⟨hseq, hdata, hfits, he⟩⟩
    · cases hn
  next hseq =>
    cases h
    obtain ⟨segs, q, hack, he⟩ := sendAck_eq c
    exact ⟨segs, q, hack, .inr ⟨fun hs => absurd hs hseq, he⟩⟩

theorem receiveFin_eq (c : TcpConnection) (next : TcpState) : ∃ segs q t, Answers c.sndNxt false segs ∧
    c.receiveFin next = { c with
      rcvNxt := c.rcvNxt + 1, state := next, timeWaitTimer := t
      txQueue := c.txQueue ++ segs, retransmitQueue := q } :=
  ⟨_, _, _, answers_new (by decide) (by decide), rfl⟩

/-! ## The whole segment -/

/-- A segment whose data is not taken. -/
theorem effect_noData {segs : List TcpSegment} (htakes : c.takes seg = []) (hstate : c'.state = c.nextState seg)
    (hbuf : c'.recvBuf = c.recvBuf) (hwnd : c'.rcvWnd = c.rcvWnd)
    (hnxt : c.state ≠ .listen → c.state ≠ .synSent → c'.rcvNxt = c.rcvNxt + (if c.fins seg then 1 else 0))
    (hsnd : c'.sndNxt = c.sndNxt + (if c.answersSyn seg then 1 else 0)) (huna : c'.sndUna = c.nextUna seg)
    (hsend : c'.sendBuf = c.sendBuf) (hsndWnd : c'.sndWnd = c.sndWnd) (hqueue : c'.txQueue = c.txQueue ++ segs)
    (hsegs : Answers c.sndNxt (c.answersSyn seg) segs) : Effect c seg c' := by
  refine ⟨hstate, ?_, ?_, absurd htakes, ?_, hsnd, huna, hsend, hsndWnd, segs, hqueue, hsegs⟩
  · rw [htakes, append_nil]
    exact hbuf
  · rw [if_pos htakes]
    exact hwnd
  · rw [htakes]
    simpa using hnxt

/-- The states in which nothing of the segment counts but its acknowledgment and its FIN. -/
structure Late (c : TcpConnection) (seg : TcpSegment) : Prop where
  noData : c.takes seg = []
  noSyn : c.answersSyn seg = false
  una : c.nextUna seg =
    if seg.header.has ACK ∧ seqGt seg.header.ackNum c.sndUna then seg.header.ackNum else c.sndUna

theorem Late.of_state (hc : c.considers seg = true) (hst : c.state = .synReceived ∨ c.state = .finWait1 ∨
    c.state = .finWait2 ∨ c.state = .closeWait ∨ c.state = .closing ∨ c.state = .lastAck) : Late c seg := by
  have hacks : c.acks seg = seg.header.has ACK := by rcases hst with h | h | h | h | h | h <;> simp [acks, hc, h]
  have hopen : c.completesSyn seg = false := by rcases hst with h | h | h | h | h | h <;> simp [completesSyn, h]
  refine ⟨?_, ?_, ?_⟩
  · rcases hst with h | h | h | h | h | h <;> simp [takes, h]
  · rcases hst with h | h | h | h | h | h <;> simp [answersSyn, h]
  unfold nextUna
  rw [hopen, hacks]
  cases seg.header.has ACK <;> simp

/-- Whatever only acknowledges, in a state that stays or moves on with an acknowledgment. -/
theorem effect_ackFrom {next : TcpState} {t : BitVec 64} (hl : Late c seg) (hstate : c.nextState seg = next)
    (hfin : c.fins seg = false) (h : c.ackFrom seg = .ok c') :
    Effect c seg { c' with state := next, timeWaitTimer := t } := by
  obtain ⟨d, u, q, w, th, rfl⟩ := ackFrom_eq h
  refine effect_noData hl.noData hstate.symm rfl rfl (fun _ _ => ?_) ?_ hl.una.symm rfl rfl (append_nil _).symm
    (hl.noSyn.symm ▸ Answers.nil)
  · simp [hfin]
  · simp [hl.noSyn]

/-- Whatever only answers. -/
theorem effect_answer {next : TcpState} {t : BitVec 64} {r : Bool} {segs : List TcpSegment}
    {q : List (BitVec 32 × List Byte × BitVec 64)} (hstate : c.nextState seg = next) (htakes : c.takes seg = [])
    (hfin : c.fins seg = false) (hsyn : c.answersSyn seg = false) (huna : c.nextUna seg = c.sndUna)
    (hsegs : Answers c.sndNxt false segs) :
    Effect c seg { c with
      state := next, txQueue := c.txQueue ++ segs, retransmitQueue := q, timeWaitTimer := t, resetReceived := r } := by
  refine effect_noData htakes hstate.symm rfl rfl (fun _ _ => ?_) ?_ huna.symm rfl rfl rfl (hsyn.symm ▸ hsegs)
  · simp [hfin]
  · simp [hsyn]

/-- A FIN in a state that takes no data. -/
theorem effect_fin {next middle : TcpState} (hl : Late c seg) (hstate : c.nextState seg = next)
    (hfin : c.fins seg = true) (h : c.ackFrom seg = .ok c') :
    Effect c seg ({ c' with state := middle }.receiveFin next) := by
  obtain ⟨d, u, q, w, th, rfl⟩ := ackFrom_eq h
  obtain ⟨segs, q', t, hack, he⟩ := receiveFin_eq
    { c with
      state := middle
      sndUna := if seg.header.has ACK ∧ seqGt seg.header.ackNum c.sndUna then seg.header.ackNum else c.sndUna
      dupAcks := d, hasUnacked := u, retransmitQueue := q, cwnd := w, ssthresh := th } next
  rw [he]
  refine effect_noData hl.noData hstate.symm rfl rfl (fun _ _ => ?_) ?_ hl.una.symm rfl rfl rfl (hl.noSyn.symm ▸ hack)
  · simp [hfin]
  · simp [hl.noSyn]

section

variable (hc : c.considers seg = true)
include hc

/-- A segment that is considered is acceptable and is no reset. -/
theorem accepted : c.accepts seg = true ∧ seg.header.has RST = false := by simpa [considers] using hc

theorem effect_established (hst : c.state = .established)
    (hrun : c.processEstablished seg = .ok c') : Effect c seg c' := by
  obtain ⟨c1, h1, hrest⟩ := bind_eq_ok hrun
  obtain ⟨c2, h2, h⟩ := bind_eq_ok hrest
  obtain ⟨srtt, rttvar, rto, hr⟩ := measureRtt_eq c1 seg
  rw [hr] at h2
  obtain ⟨d, u, q, w, th, rfl⟩ := ackFrom_eq h1
  obtain ⟨segs, q2, hsegs, h2⟩ := receiveData_eq h2
  have hsyn : c.answersSyn seg = false := by simp [answersSyn, hst]
  have huna : c.nextUna seg =
      if seg.header.has ACK ∧ seqGt seg.header.ackNum c.sndUna then seg.header.ackNum else c.sndUna := by
    unfold nextUna completesSyn acks
    simp only [hst, hc]
    cases seg.header.has ACK <;> simp
  have hcon := accepted hc
  -- the data first, whatever follows
  have hdata : c2.recvBuf = c.recvBuf ++ c.takes seg ∧
      c2.rcvWnd = (if c.takes seg = [] then c.rcvWnd else BitVec.ofNat 32 (TCP_WINDOW_SIZE - c2.recvBuf.length)) ∧
      (c.takes seg ≠ [] → c2.recvBuf.length ≤ TCP_WINDOW_SIZE) ∧
      c2.rcvNxt = c.rcvNxt + BitVec.ofNat 32 (c.takes seg).length := by
    rcases h2 with ⟨hseq, hne, hfits, rfl⟩ | ⟨hnone, rfl⟩
    · have htakes : c.takes seg = seg.data := if_pos ⟨hc, hst, hseq⟩
      rw [htakes]
      exact ⟨rfl, (if_neg hne).symm, fun _ => hfits, rfl⟩
    have htakes : c.takes seg = [] := by
      unfold takes
      split
      next hx =>
        exact hnone hx.2.2
      · rfl
    rw [htakes]
    exact ⟨(append_nil _).symm, (if_pos rfl).symm, absurd rfl, by simp⟩
  have hrest : c2.sndNxt = c.sndNxt ∧ c2.sndUna = c.nextUna seg ∧ c2.sendBuf = c.sendBuf ∧ c2.sndWnd = c.sndWnd ∧
      c2.txQueue = c.txQueue ++ segs ∧ c2.state = c.state := by
    rcases h2 with ⟨-, -, -, rfl⟩ | ⟨-, rfl⟩ <;> exact ⟨rfl, huna.symm, rfl, rfl, rfl, rfl⟩
  obtain ⟨hbuf, hwnd, hfit, hnxt⟩ := hdata
  obtain ⟨hsnd, hu, hsb, hsw, hq, hs⟩ := hrest
  cases hfin : seg.header.has FIN with
  | false =>
    rw [hfin] at h
    cases h
    have hfins : c.fins seg = false := by simp [fins, hfin]
    rw [if_neg Bool.false_ne_true]
    refine ⟨?_, hbuf, hwnd, hfit, fun _ _ => ?_, ?_, hu, hsb, hsw, segs, hq, hsyn.symm ▸ hsegs⟩
    · rw [hs]
      simp [nextState, hcon, hst, hfin]
    · rw [hnxt, hfins]
      simp
    · rw [hsnd, hsyn]
      simp
  | true =>
    rw [hfin] at h
    cases h
    have hfins : c.fins seg = true := by simp [fins, hfin, hc, hst]
    obtain ⟨acks, q', t, hack, he⟩ := receiveFin_eq c2 .closeWait
    rw [he]
    refine ⟨?_, hbuf, hwnd, hfit, fun _ _ => ?_, ?_, hu, hsb, hsw, segs ++ acks, ?_, ?_⟩
    · simp [nextState, hcon, hst, hfin]
    · show c2.rcvNxt + 1 = _
      rw [hnxt, hfins]
      simp
    · show c2.sndNxt = _
      rw [hsnd, hsyn]
      simp
    · show c2.txQueue ++ acks = _
      rw [hq, append_assoc]
    · rw [hsyn]
      exact hsegs.append hack

theorem effect_listen (hst : c.state = .listen) : Effect c seg (c.processListen seg) := by
  have hcon := accepted hc
  have htakes : c.takes seg = [] := by simp [takes, hst]
  have huna : c.nextUna seg = c.sndUna := by simp [nextUna, completesSyn, acks, hst]
  unfold processListen
  cases hs : seg.header.has SYN with
  | false =>
    have hsyn : c.answersSyn seg = false := by simp [answersSyn, hs]
    refine effect_noData htakes ?_ rfl rfl (absurd hst) ?_ huna.symm rfl rfl (append_nil _).symm
      (hsyn.symm ▸ Answers.nil)
    · simp [nextState, hst, hs]
    · simp [hsyn]
  | true =>
    have hsyn : c.answersSyn seg = true := by simp [answersSyn, hc, hs, hst]
    have hsend : ∀ d : TcpConnection, (∀ segs q, Answers d.sndNxt true segs →
        Effect c seg { d with txQueue := d.txQueue ++ segs, retransmitQueue := q, sndNxt := d.sndNxt + 1 }) →
        Effect c seg d.sendSynAck := by
      intro d hd
      obtain ⟨segs, q, hsa, he⟩ := sendSynAck_eq d
      rw [he]
      exact hd segs q hsa
    refine hsend _ (fun segs q hsa => ?_)
    refine effect_noData htakes ?_ rfl rfl (absurd hst) ?_ huna.symm rfl rfl rfl (hsyn.symm ▸ hsa)
    · simp [nextState, hcon, hst, hs]
    · show c.sndNxt + 1 = _
      simp [hsyn]

theorem effect_synSent (hst : c.state = .synSent) : Effect c seg (c.processSynSent seg) := by
  have hcon := accepted hc
  have htakes : c.takes seg = [] := by simp [takes, hst]
  unfold processSynSent
  cases hs : seg.header.has SYN with
  | false =>
    have hsyn : c.answersSyn seg = false := by simp [answersSyn, hs]
    have huna : c.nextUna seg = c.sndUna := by simp [nextUna, completesSyn, acks, hst, hs]
    refine effect_noData htakes ?_ rfl rfl (fun _ h => absurd hst h) ?_ huna.symm rfl rfl (append_nil _).symm
      (hsyn.symm ▸ Answers.nil)
    · simp [nextState, hst, hs]
    · simp [hsyn]
  | true =>
    cases ha : seg.header.has ACK with
    | true =>
      have hsyn : c.answersSyn seg = false := by simp [answersSyn, ha, hst]
      have huna : c.nextUna seg = seg.header.ackNum := by simp [nextUna, completesSyn, hst, hs, ha, hc]
      obtain ⟨segs, q, hack, he⟩ := sendAck_eq
        { c.negotiate seg.options with
          sndUna := seg.header.ackNum, rcvNxt := seg.header.seqNum + 1, state := .established }
      rw [he]
      refine effect_noData htakes ?_ rfl rfl (fun _ h => absurd hst h) ?_ huna.symm rfl rfl rfl (hsyn.symm ▸ hack)
      · simp [nextState, hcon, hst, hs, ha]
      · show c.sndNxt = _
        simp [hsyn]
    | false =>
      have hsyn : c.answersSyn seg = true := by simp [answersSyn, hs, ha, hst, hc]
      have huna : c.nextUna seg = c.sndUna := by simp [nextUna, completesSyn, acks, ha]
      obtain ⟨segs, q, hsa, he⟩ := sendSynAck_eq { c with rcvNxt := seg.header.seqNum + 1, state := .synReceived }
      rw [he]
      refine effect_noData htakes ?_ rfl rfl (fun _ h => absurd hst h) ?_ huna.symm rfl rfl rfl (hsyn.symm ▸ hsa)
      · simp [nextState, hcon, hst, hs, ha]
      · show c.sndNxt + 1 = _
        simp [hsyn]

end

/-- `ack_from` leaves the state and its timer. -/
theorem ackFrom_self (h : c.ackFrom seg = .ok c') :
    c' = { c' with state := c.state, timeWaitTimer := c'.timeWaitTimer } := by
  obtain ⟨d, u, q, w, th, rfl⟩ := ackFrom_eq h
  rfl

section

variable (hc : c.considers seg = true)
include hc

/-- The three states that move on with an acknowledgment. -/
theorem effect_closing {next : TcpState} (hst : c.state = .synReceived ∨ c.state = .closing ∨ c.state = .lastAck)
    (hnext : c.nextState seg = if seg.header.has ACK then next else c.state)
    (h : c.processClosing seg next = .ok c') : Effect c seg c' := by
  obtain ⟨c1, h1, h⟩ := bind_eq_ok h
  have hl : Late c seg := Late.of_state hc (by rcases hst with h | h | h <;> simp [h])
  have hfin : c.fins seg = false := by rcases hst with h | h | h <;> simp [fins, h]
  cases ha : seg.header.has ACK with
  | true =>
    rw [ha] at h hnext
    cases h
    exact effect_ackFrom hl hnext hfin h1
  | false =>
    rw [ha] at h hnext
    cases h
    rw [ackFrom_self h1]
    exact effect_ackFrom hl hnext hfin h1

theorem effect_finWait1 (hst : c.state = .finWait1) (h : c.processFinWait1 seg = .ok c') : Effect c seg c' := by
  have hcon := accepted hc
  obtain ⟨c1, h1, h⟩ := bind_eq_ok h
  have hl : Late c seg := Late.of_state hc (by simp [hst])
  have hself := ackFrom_self h1
  rw [hst] at hself
  cases hf : seg.header.has FIN with
  | true =>
    have hfin : c.fins seg = true := by simp [fins, hc, hf, hst]
    cases ha : seg.header.has ACK with
    | true =>
      simp only [hf, ha] at h
      cases h
      exact effect_fin hl (by simp [nextState, hcon, hst, hf, ha]) hfin h1
    | false =>
      simp only [hf, ha] at h
      cases h
      have he : Effect c seg ({ c1 with state := TcpState.finWait1 }.receiveFin .closing) :=
        effect_fin hl (by simp [nextState, hcon, hst, hf, ha]) hfin h1
      rw [hself]
      exact he
  | false =>
    have hfin : c.fins seg = false := by simp [fins, hf]
    cases ha : seg.header.has ACK with
    | true =>
      simp only [hf, ha] at h
      cases h
      exact effect_ackFrom hl (by simp [nextState, hcon, hst, hf, ha]) hfin h1
    | false =>
      simp only [hf, ha] at h
      cases h
      rw [hself]
      exact effect_ackFrom hl (by simp [nextState, hcon, hst, hf, ha]) hfin h1

theorem effect_finWait2 (hst : c.state = .finWait2) (h : c.processFinWait2 seg = .ok c') : Effect c seg c' := by
  have hcon := accepted hc
  obtain ⟨c1, h1, h⟩ := bind_eq_ok h
  have hl : Late c seg := Late.of_state hc (by simp [hst])
  have hself := ackFrom_self h1
  cases hf : seg.header.has FIN with
  | true =>
    simp only [hf] at h
    cases h
    have hfin : c.fins seg = true := by simp [fins, hc, hf, hst]
    exact effect_fin hl (by simp [nextState, hcon, hst, hf]) hfin h1
  | false =>
    simp only [hf] at h
    cases h
    have hfin : c.fins seg = false := by simp [fins, hf]
    rw [hself]
    exact effect_ackFrom hl (by simp [nextState, hcon, hst, hf]) hfin h1

theorem effect_closeWait (hst : c.state = .closeWait) (h : c.ackFrom seg = .ok c') : Effect c seg c' := by
  have hcon := accepted hc
  rw [ackFrom_self h]
  exact effect_ackFrom (Late.of_state hc (by simp [hst])) (by simp [nextState, hcon, hst]) (by simp [fins, hst]) h

omit hc in
theorem effect_timeWait (hst : c.state = .timeWait) : Effect c seg (c.processTimeWait seg) := by
  have hnext : c.nextState seg = c.state := by simp [nextState, hst]
  have htakes : c.takes seg = [] := by simp [takes, hst]
  have hfin : c.fins seg = false := by simp [fins, hst]
  have hsyn : c.answersSyn seg = false := by simp [answersSyn, hst]
  have huna : c.nextUna seg = c.sndUna := by simp [nextUna, completesSyn, acks, hst]
  unfold processTimeWait
  split
  · obtain ⟨segs, q, hack, he⟩ := sendAck_eq { c with timeWaitTimer := getTimestampUs }
    rw [he]
    exact effect_answer hnext htakes hfin hsyn huna hack
  have he := @effect_answer c seg c.state c.timeWaitTimer c.resetReceived [] c.retransmitQueue hnext htakes hfin
    hsyn huna Answers.nil
  rw [append_nil] at he
  exact he

end

/-- A segment that is not considered changes the state at most. -/
theorem effect_ignored {next : TcpState} {r : Bool} (hc : c.considers seg = false) (hstate : c.nextState seg = next) :
    Effect c seg { c with state := next, resetReceived := r } := by
  have he := @effect_answer c seg next c.timeWaitTimer r [] c.retransmitQueue hstate (by simp [takes, hc])
    (by simp [fins, hc]) (by simp [answersSyn, hc]) (by simp [nextUna, completesSyn, acks, hc])
    Answers.nil
  rw [append_nil] at he
  exact he

/-- **The effect of a segment**, in every state. -/
theorem processSegment_effect (h : c.processSegment seg = .ok c') : Effect c seg c' := by
  unfold processSegment at h
  split at h
  next hacc =>
    cases h
    exact effect_ignored (by simp [considers, hacc]) (by simp [nextState, hacc])
  rename_i hacc
  split at h
  next hrst =>
    cases h
    have hc : c.considers seg = false := by simp [considers, hrst]
    unfold processRst
    cases hst : c.state <;> exact effect_ignored hc (by simp [nextState, hacc, hrst, hst])
  rename_i hrst
  have hc : c.considers seg = true := by simp [considers, hacc, hrst]
  cases hst : c.state with
  | closed =>
    rw [hst] at h
    cases h
    obtain ⟨segs, q, hctl, he⟩ := sendRst_eq c
    rw [he]
    exact effect_answer (by simp [nextState, hst]) (by simp [takes, hst]) (by simp [fins, hst])
      (by simp [answersSyn, hst]) (by simp [nextUna, completesSyn, acks, hst]) hctl
  | listen =>
    rw [hst] at h
    cases h
    exact effect_listen hc hst
  | synSent =>
    rw [hst] at h
    cases h
    exact effect_synSent hc hst
  | synReceived =>
    rw [hst] at h
    exact effect_closing hc (.inl hst) (by simp [nextState, hacc, hrst, hst]) h
  | established =>
    rw [hst] at h
    exact effect_established hc hst h
  | finWait1 =>
    rw [hst] at h
    exact effect_finWait1 hc hst h
  | finWait2 =>
    rw [hst] at h
    exact effect_finWait2 hc hst h
  | closeWait =>
    rw [hst] at h
    exact effect_closeWait hc hst h
  | closing =>
    rw [hst] at h
    exact effect_closing hc (.inr (.inl hst)) (by simp [nextState, hacc, hrst, hst]) h
  | lastAck =>
    rw [hst] at h
    exact effect_closing hc (.inr (.inr hst)) (by simp [nextState, hacc, hrst, hst]) h
  | timeWait =>
    rw [hst] at h
    cases h
    exact effect_timeWait hst

/-! ## The other calls -/

/-- `connect` queues the SYN. -/
theorem connect_eq (c : TcpConnection) : ∃ segs, Answers c.sndNxt true segs ∧
    c.connect = { c with
      rcvWscale := 7, txQueue := c.txQueue ++ segs, sndNxt := c.sndNxt + 1, state := .synSent } :=
  ⟨_, answers_new (by decide) (by decide), rfl⟩

/-- One data segment leaves. -/
theorem sendData_eq (c : TcpConnection) (n : Nat) : ∃ seg q,
    (seg.data = c.sendBuf.take n ∧ seg.header.seqNum = c.sndNxt ∧ seg.header.has FIN = false ∧
      seg.header.has SYN = false) ∧
      c.sendData n = { c with
        sendBuf := c.sendBuf.drop n, txQueue := c.txQueue ++ [seg], retransmitQueue := q
        sndNxt := c.sndNxt + BitVec.ofNat 32 (c.sendBuf.take n).length, hasUnacked := true } := by
  have hflags : ((ACK ||| PSH) &&& FIN != 0) = false ∧ ((ACK ||| PSH) &&& SYN != 0) = false := by decide
  refine ⟨TcpSegment.new c.localPort c.remotePort c.sndNxt c.rcvNxt _ _ c.stampOptions _, _, ⟨rfl, rfl, hflags⟩, rfl⟩

/-- `transmit_data` sends one segment, within the window, or nothing. -/
theorem transmitData_eq (h : c.transmitData = .ok c') : c' = c ∨ ∃ n,
    (c.state = .established ∨ c.state = .closeWait) ∧ 0 < n ∧ n ≤ c.sendBuf.length ∧
      (c.sndNxt - c.sndUna).toNat + n ≤ c.sndWnd.toNat ∧ c' = c.sendData n := by
  unfold transmitData at h
  split at h
  · cases h
    exact .inl rfl
  rename_i hst
  split at h
  · cases h
    exact .inl rfl
  dsimp only at h
  generalize hw : (if c.sndWnd < c.cwnd then c.sndWnd else c.cwnd) = window at h
  split at h
  · split at h
    · cases h
    · cases h
      exact .inl rfl
  rename_i hroom
  obtain ⟨available, ha, h⟩ := bind_eq_ok h
  have hle : (c.sndNxt - c.sndUna).toNat ≤ window.toNat := by
    have := BitVec.not_le.mp hroom
    exact le_of_lt this
  rw [sub_of_le hle] at ha
  cases ha
  have hwindow : window.toNat ≤ c.sndWnd.toNat := by
    rw [← hw]
    split
    · exact le_refl _
    next hlt =>
      exact not_lt.mp hlt
  split at h
  next hsend =>
    cases h
    refine .inr ⟨_, ?_, hsend.1, ?_, ?_, rfl⟩
    · by_cases he : c.state = .established
      · exact .inl he
      by_cases hw : c.state = .closeWait
      · exact .inr hw
      · exact absurd ⟨he, hw⟩ hst
    · omega
    · omega
  · cases h
    exact .inl rfl

/-- What `check_retransmission` leaves alone. -/
theorem checkRetransmission_eq (c : TcpConnection) (now : BitVec 64) : ∃ q rto th w,
    c.checkRetransmission now = { c with retransmitQueue := q, rto := rto, ssthresh := th, cwnd := w } := by
  unfold checkRetransmission
  refine foldlRecOn (motive := fun b => ∃ q rto th w,
    b = { c with retransmitQueue := q, rto := rto, ssthresh := th, cwnd := w }) _ _ ?_ ?_
  · exact ⟨_, _, _, _, rfl⟩
  rintro _ ⟨q, rto, th, w, rfl⟩ e -
  unfold checkEntry
  split
  · exact ⟨_, _, _, _, rfl⟩
  · exact ⟨_, _, _, _, rfl⟩

/-- The timers can only end the wait in `TimeWait`. -/
theorem processTimers_eq (c : TcpConnection) : ∃ q rto th w t st,
    (st = c.state ∨ c.state = .timeWait ∧ st = .closed) ∧
      c.processTimers =
        { c with retransmitQueue := q, rto := rto, ssthresh := th, cwnd := w, lastActivity := t, state := st } := by
  obtain ⟨q, rto, th, w, h⟩ := checkRetransmission_eq c getTimestampUs
  unfold processTimers
  dsimp only
  rw [h]
  split
  · split
    · exact ⟨q, rto, th, w, getTimestampUs, c.state, .inl rfl, rfl⟩
    · exact ⟨q, rto, th, w, c.lastActivity, c.state, .inl rfl, rfl⟩
  split
  next htw =>
    split
    · exact ⟨q, rto, th, w, c.lastActivity, .closed, .inr ⟨htw, rfl⟩, rfl⟩
    · exact ⟨q, rto, th, w, c.lastActivity, c.state, .inl rfl, rfl⟩
  · exact ⟨q, rto, th, w, c.lastActivity, c.state, .inl rfl, rfl⟩

/-- The moves the application and the timers make. -/
def CallMove (st st' : TcpState) : Prop :=
  st' = st ∨ (st = .established ∧ st' = .finWait1) ∨ (st = .closeWait ∧ st' = .lastAck) ∨
    ((st = .synSent ∨ st = .listen ∨ st = .timeWait) ∧ st' = .closed)

/-- `close` queues a FIN and moves, moves without one, or does nothing. -/
theorem close_eq (c : TcpConnection) : ∃ q segs st,
    CallMove c.state st ∧
      ((c.state = .established ∨ c.state = .closeWait) ∧ st ≠ c.state ∧
          (∃ fin, segs = [fin] ∧ fin.data = [] ∧ fin.header.seqNum = c.sndNxt ∧ fin.header.has FIN = true ∧
            fin.header.has SYN = false) ∧
          c.close = { c with
            state := st, txQueue := c.txQueue ++ segs, retransmitQueue := q, sndNxt := c.sndNxt + 1 } ∨
        (st = c.state ∨ (c.state = .synSent ∨ c.state = .listen) ∧ st = .closed) ∧
          c.close = { c with state := st }) := by
  unfold close
  cases hst : c.state with
  | established =>
    refine ⟨_, _, .finWait1, .inr (.inl ⟨rfl, rfl⟩), .inl ⟨.inl rfl, by simp, ⟨_, rfl, rfl, rfl, ?_⟩, rfl⟩⟩
    show ((FIN ||| ACK) &&& FIN != 0) = true ∧ ((FIN ||| ACK) &&& SYN != 0) = false
    decide
  | closeWait =>
    refine ⟨_, _, .lastAck, .inr (.inr (.inl ⟨rfl, rfl⟩)), .inl ⟨.inr rfl, by simp, ⟨_, rfl, rfl, rfl, ?_⟩, rfl⟩⟩
    show ((FIN ||| ACK) &&& FIN != 0) = true ∧ ((FIN ||| ACK) &&& SYN != 0) = false
    decide
  | synSent => exact ⟨[], [], .closed, .inr (.inr (.inr ⟨.inl rfl, rfl⟩)), .inr ⟨.inr ⟨.inl rfl, rfl⟩, rfl⟩⟩
  | listen => exact ⟨[], [], .closed, .inr (.inr (.inr ⟨.inr (.inl rfl), rfl⟩)), .inr ⟨.inr ⟨.inr rfl, rfl⟩, rfl⟩⟩
  | _ => exact ⟨[], [], c.state, .inl hst, .inr ⟨.inl hst, rfl⟩⟩

end TcpConnection
end OxideOs.Tcp

import OxideOs.Net.Tcp.Receive

/-!
# `Net.Tcp.Send` — the stream that leaves and the acknowledgments that come back

Bytes go from `send` through the send buffer into segments, and every segment takes sequence numbers for its
bytes, its SYN and its FIN. `close` queues the FIN at once, whatever the buffer still holds. `process_ack` does not
compare an acknowledgment with what was sent, and the opening and closing states move on with any of them.
-/

namespace OxideOs.Tcp

open List TcpConnection Checked

namespace Session

variable {s s' : Session} {a : Session.Action} {isn : BitVec 32}

/-! ## The send side of a step -/

/-- The states in which `send` and `close` act on the stream. -/
def Sending (st : TcpState) : Prop := st = .established ∨ st = .closeWait

instance (st : TcpState) : Decidable (Sending st) := inferInstanceAs (Decidable (_ ∨ _))

/-- **What a call of the application, or the timers, do to the send side.** -/
inductive Outgoing (s : Session) (a : Action) (s' : Session) : Prop where
  /-- Nothing is accepted and nothing is queued. -/
  | quiet (queued : s'.queued = s.queued) (sent : s'.sent = s.sent) (sendBuf : s'.conn.sendBuf = s.conn.sendBuf)
      (sndNxt : s'.conn.sndNxt = s.conn.sndNxt)
      (state : s'.conn.state = s.conn.state ∨
        (s.conn.state = .synSent ∨ s.conn.state = .listen ∨ s.conn.state = .timeWait) ∧ s'.conn.state = .closed)
  /-- `send` accepts `data`; up to one segment of `n` bytes leaves. -/
  | accept (data : List Byte) (n : Nat) (segs : List TcpSegment) (sending : Sending s.conn.state)
      (queued : s'.queued = s.queued ++ segs) (sent : s'.sent = s.sent ++ data)
      (le : n ≤ (s.conn.sendBuf ++ data).length)
      (sendBuf : s'.conn.sendBuf = (s.conn.sendBuf ++ data).drop n)
      (sndNxt : s'.conn.sndNxt = s.conn.sndNxt + BitVec.ofNat 32 n)
      (segments : segs = [] ∧ n = 0 ∨ ∃ seg, segs = [seg] ∧ seg.data = (s.conn.sendBuf ++ data).take n ∧
        seg.header.seqNum = s.conn.sndNxt ∧ seg.header.has FIN = false ∧ seg.header.has SYN = false)
      (window : n ≠ 0 → (s.conn.sndNxt - s.conn.sndUna).toNat + n ≤ s.conn.sndWnd.toNat)
      (state : s'.conn.state = s.conn.state)
  /-- `close` queues a FIN. -/
  | fin (seg : TcpSegment) (close : a = .close) (sending : Sending s.conn.state)
      (queued : s'.queued = s.queued ++ [seg]) (sent : s'.sent = s.sent)
      (sendBuf : s'.conn.sendBuf = s.conn.sendBuf) (sndNxt : s'.conn.sndNxt = s.conn.sndNxt + 1)
      (segment : seg.data = [] ∧ seg.header.seqNum = s.conn.sndNxt ∧ seg.header.has FIN = true ∧
        seg.header.has SYN = false)
      (state : s'.conn.state = .finWait1 ∨ s'.conn.state = .lastAck)

/-- `transmit_data` after `data` went into the buffer. -/
theorem outgoing_transmitData {data : List Byte} {c : TcpConnection} (hs : Sending s.conn.state ∨ data = [])
    (h : { s.conn with sendBuf := s.conn.sendBuf ++ data }.transmitData = .ok c) :
    Outgoing s a { s with conn := c, sent := s.sent ++ data } := by
  rcases transmitData_eq h with rfl | ⟨n, hst, -, hle, hwnd, rfl⟩
  · rcases hs with hs | rfl
    · exact .accept data 0 [] hs (append_nil _).symm rfl (Nat.zero_le _) rfl (by simp) (.inl ⟨rfl, rfl⟩)
        (absurd rfl) rfl
    · exact .quiet rfl (append_nil _) (append_nil _) rfl (.inl rfl)
  obtain ⟨seg, q, hseg, he⟩ := sendData_eq { s.conn with sendBuf := s.conn.sendBuf ++ data } n
  rw [he]
  refine .accept data n [seg] hst ?_ rfl hle rfl ?_ (.inr ⟨seg, rfl, hseg⟩) (fun _ => hwnd) rfl
  · exact (append_assoc _ _ _).symm
  · show s.conn.sndNxt + BitVec.ofNat 32 ((s.conn.sendBuf ++ data).take n).length = _
    rw [length_take_of_le hle]

theorem sndUna_transmitData {c c' : TcpConnection} (h : c.transmitData = .ok c') :
    c'.sndUna = c.sndUna ∧ c'.sndWnd = c.sndWnd := by
  rcases transmitData_eq h with rfl | ⟨n, -, -, -, -, rfl⟩ <;> exact ⟨rfl, rfl⟩

/-- **The send side of a step.** -/
theorem step_send (h : s.step a = some s') :
    (∃ seg segs, a = .segment seg ∧ Effect s.conn seg s'.conn ∧ s'.queued = s.queued ++ segs ∧
        Answers s.conn.sndNxt (s.conn.answersSyn seg) segs ∧ s'.sent = s.sent) ∨
      ((∀ seg, a ≠ .segment seg) ∧ Outgoing s a s' ∧ s'.conn.sndUna = s.conn.sndUna ∧
        s'.conn.sndWnd = s.conn.sndWnd) := by
  have hact := act_of_step h
  cases a with
  | segment seg =>
    obtain ⟨c, hc, hs⟩ := bind_eq_ok hact
    cases hs
    have heff := processSegment_effect hc
    obtain ⟨segs, hq, hans⟩ := heff.queue
    refine .inl ⟨seg, segs, rfl, heff, ?_, hans, rfl⟩
    show s.transmitted ++ c.txQueue = (s.transmitted ++ s.conn.txQueue) ++ segs
    rw [hq, append_assoc]
  | send data =>
    obtain ⟨r, hr, hs⟩ := bind_eq_ok hact
    cases hs
    unfold send at hr
    split at hr
    · cases hr
      exact .inr ⟨nofun, .quiet rfl rfl rfl rfl (.inl rfl), rfl, rfl⟩
    rename_i hst
    obtain ⟨c, hc, hr⟩ := bind_eq_ok hr
    cases hr
    have hsending : Sending s.conn.state := by
      by_contra hnot
      exact hst (not_or.mp hnot)
    have hsame := sndUna_transmitData hc
    refine .inr ⟨nofun, ?_, hsame.1, hsame.2⟩
    rw [if_pos rfl]
    exact outgoing_transmitData (.inl hsending) hc
  | transmitData =>
    obtain ⟨c, hc, hs⟩ := bind_eq_ok hact
    cases hs
    have hsame := sndUna_transmitData hc
    refine .inr ⟨nofun, ?_, hsame.1, hsame.2⟩
    have hout := @outgoing_transmitData s .transmitData [] c (.inr rfl) (by rw [append_nil]; exact hc)
    rw [append_nil] at hout
    exact hout
  | recv len =>
    cases hact
    unfold recv
    split
    · split <;> exact .inr ⟨nofun, .quiet rfl rfl rfl rfl (.inl rfl), rfl, rfl⟩
    · exact .inr ⟨nofun, .quiet rfl rfl rfl rfl (.inl rfl), rfl, rfl⟩
  | close =>
    cases hact
    right
    obtain ⟨q, segs, st, hmove, ⟨hst, hne, ⟨fin, rfl, hfin⟩, he⟩ | ⟨hst, he⟩⟩ := close_eq s.conn
    · rw [he]
      refine ⟨nofun, .fin fin rfl hst (append_assoc _ _ _).symm rfl rfl rfl hfin ?_, rfl, rfl⟩
      rcases hmove with h | ⟨-, h⟩ | ⟨-, h⟩ | ⟨h, -⟩
      · exact absurd h hne
      · exact .inl h
      · exact .inr h
      · rcases hst with hst | hst <;> rw [hst] at h <;> simp at h
    · rw [he]
      refine ⟨nofun, .quiet rfl rfl rfl rfl ?_, rfl, rfl⟩
      rcases hst with h | ⟨hfrom, h⟩
      · exact .inl h
      · exact .inr ⟨hfrom.imp_right .inl, h⟩
  | timers =>
    cases hact
    right
    obtain ⟨q, rto, th, w, t, st, hst, he⟩ := processTimers_eq s.conn
    rw [he]
    refine ⟨nofun, .quiet rfl rfl rfl rfl ?_, rfl, rfl⟩
    rcases hst with h | ⟨hfrom, h⟩
    · exact .inl h
    · exact .inr ⟨.inr (.inr hfrom), h⟩
  | dequeueSegments =>
    cases hact
    refine .inr ⟨nofun, .quiet ?_ rfl rfl rfl (.inl rfl), rfl, rfl⟩
    exact append_nil _

/-- A connection that has sent its SYN. -/
def connecting : Session := ⟨(TcpConnection.new 0 40000 80).connect, [], [], []⟩

theorem connecting_opened : Opened 0 connecting := ⟨40000, 80, .inl rfl, rfl, rfl, rfl⟩

/-! ## Accepted bytes are sent in order -/

/-- The payload of segments, in the order they were queued. -/
def bytesOf (segs : List TcpSegment) : List Byte := segs.flatMap (fun seg => seg.data)

/-- Each data segment is numbered by the bytes queued before it. -/
def Contiguous (first : BitVec 32) (segs : List TcpSegment) : Prop :=
  ∀ (i : Nat) (seg : TcpSegment), segs[i]? = some seg → seg.data ≠ [] →
    seg.header.seqNum = first + BitVec.ofNat 32 (bytesOf (segs.take i)).length

theorem bytesOf_append (segs segs' : List TcpSegment) : bytesOf (segs ++ segs') = bytesOf segs ++ bytesOf segs' :=
  flatMap_append

theorem bytesOf_control {segs : List TcpSegment} (h : ∀ seg ∈ segs, seg.data = []) : bytesOf segs = [] := by
  unfold bytesOf
  rw [flatMap_eq_nil_iff]
  exact h

theorem Contiguous.append {first : BitVec 32} {segs segs' : List TcpSegment} (h : Contiguous first segs)
    (h' : ∀ seg ∈ segs', seg.data = []) : Contiguous first (segs ++ segs') := by
  intro i seg hi hdata
  by_cases hlt : i < segs.length
  · rw [getElem?_append_left hlt] at hi
    rw [take_append_of_le_length (le_of_lt hlt)]
    exact h i seg hi hdata
  · rw [getElem?_append_right (Nat.le_of_not_lt hlt)] at hi
    exact absurd (h' seg (mem_of_getElem? hi)) hdata

theorem Contiguous.append_data {first : BitVec 32} {segs : List TcpSegment} {seg : TcpSegment}
    (h : Contiguous first segs) (hseq : seg.header.seqNum = first + BitVec.ofNat 32 (bytesOf segs).length) :
    Contiguous first (segs ++ [seg]) := by
  intro i seg' hi hdata
  by_cases hlt : i < segs.length
  · rw [getElem?_append_left hlt] at hi
    rw [take_append_of_le_length (le_of_lt hlt)]
    exact h i seg' hi hdata
  rw [getElem?_append_right (Nat.le_of_not_lt hlt)] at hi
  have hmem := mem_singleton.mp (mem_of_getElem? hi)
  have hidx : i - segs.length = 0 := by
    by_contra hne
    rw [getElem?_eq_none (by simp; omega)] at hi
    cases hi
  rw [hmem, take_append, take_of_length_le (Nat.le_of_not_lt hlt), hidx, take_zero, append_nil]
  exact hseq

/-- The states in which our SYN is out and no FIN is. -/
def Running (st : TcpState) : Prop := st = .synSent ∨ st = .synReceived ∨ Sending st

instance (st : TcpState) : Decidable (Running st) := inferInstanceAs (Decidable (_ ∨ _ ∨ _))

/-- **The send invariant.** -/
structure Sends (isn : BitVec 32) (s : Session) : Prop where
  bytes : bytesOf s.queued ++ s.conn.sendBuf = s.sent
  contiguous : Contiguous (isn + 1) s.queued
  fins : ∀ seg ∈ s.queued, seg.header.has FIN = true →
    seg.header.seqNum = isn + 1 + BitVec.ofNat 32 s.sent.length
  listen : s.conn.state = .listen → s.conn.sndNxt = isn ∧ bytesOf s.queued = [] ∧
    ∀ seg ∈ s.queued, seg.header.has FIN = false
  running : Running s.conn.state → s.conn.sndNxt = isn + 1 + BitVec.ofNat 32 (bytesOf s.queued).length ∧
    ∀ seg ∈ s.queued, seg.header.has FIN = false

/-- `close` finds the send buffer empty, and no SYN without ACK answers ours. -/
def SendsKept (s : Session) (a : Action) : Prop :=
  match a with
  | .close => Sending s.conn.state → s.conn.sendBuf = []
  | .segment seg => ¬ (s.conn.state = .synSent ∧ s.conn.answersSyn seg = true)
  | _ => True

instance (s : Session) (a : Action) : Decidable (SendsKept s a) := by
  delta SendsKept
  exact match a with
    | .segment _ | .recv _ | .send _ | .close | .transmitData | .timers | .dequeueSegments => inferInstance

/-- What a segment does to the states of the send side. -/
theorem nextState_sends (c : TcpConnection) (seg : TcpSegment) :
    (c.nextState seg = .listen → c.state = .listen ∧ c.answersSyn seg = false) ∧
      (Running (c.nextState seg) → Running c.state ∧ (c.answersSyn seg = true → c.state = .synSent) ∨
        c.state = .listen ∧ c.answersSyn seg = true) := by
  unfold nextState answersSyn considers
  generalize c.accepts seg = accepted, seg.header.has RST = rst, seg.header.has SYN = syn, seg.header.has ACK = ack,
    seg.header.has FIN = fin, c.state = st
  revert accepted rst syn ack fin
  cases st <;> decide

/-- The segments that are queued when a connection is opened. -/
theorem Opened.queued (h : Opened isn s) :
    (s.conn.state = .synSent ∧ s.conn.sndNxt = isn + 1 ∧ Answers isn true s.queued ∨
        s.conn.state = .listen ∧ s.conn.sndNxt = isn ∧ s.queued = []) ∧
      s.conn.sndUna = isn ∧ s.conn.sndWnd = BitVec.ofNat 32 TCP_WINDOW_SIZE ∧ s.conn.sendBuf = [] ∧ s.sent = [] := by
  obtain ⟨localPort, remotePort, hconn, -, hsent, htrans⟩ := h
  rcases hconn with hconn | hconn
  · obtain ⟨segs, hans, he⟩ := connect_eq _
    rw [he] at hconn
    have hq : s.queued = segs := by
      unfold Session.queued
      rw [hconn, htrans]
      rfl
    rw [hq, hconn]
    exact ⟨.inl ⟨rfl, rfl, hans⟩, rfl, rfl, rfl, hsent⟩
  · have hq : s.queued = [] := by
      unfold Session.queued
      rw [hconn, htrans]
      rfl
    rw [hq, hconn]
    exact ⟨.inr ⟨rfl, rfl, rfl⟩, rfl, rfl, rfl, hsent⟩

theorem Opened.sends (h : Opened isn s) : Sends isn s := by
  obtain ⟨hopen, -, -, hbuf, hsent⟩ := h.queued
  have hcontrol : ∀ seg ∈ s.queued, seg.data = [] ∧ seg.header.has FIN = false := by
    rcases hopen with ⟨-, -, hans⟩ | ⟨-, -, hq⟩
    · exact hans.control
    · rw [hq]
      exact nofun
  have hbytes : bytesOf s.queued = [] := bytesOf_control (fun seg hseg => (hcontrol seg hseg).1)
  have hnofin : ∀ seg ∈ s.queued, seg.header.has FIN = false := fun seg hseg => (hcontrol seg hseg).2
  refine ⟨?_, ?_, ?_, ?_, ?_⟩
  · rw [hbytes, hbuf, hsent]
    rfl
  · intro i seg hi hdata
    exact absurd (hcontrol seg (mem_of_getElem? hi)).1 hdata
  · intro seg hseg hfin
    rw [hnofin seg hseg] at hfin
    cases hfin
  · intro hst
    rcases hopen with ⟨hsyn, -⟩ | ⟨-, hnxt, -⟩
    · rw [hsyn] at hst
      cases hst
    · exact ⟨hnxt, hbytes, hnofin⟩
  · intro hst
    rcases hopen with ⟨-, hnxt, -⟩ | ⟨hl, -⟩
    · refine ⟨?_, hnofin⟩
      rw [hnxt, hbytes]
      simp
    · rw [hl] at hst
      exact absurd hst (by decide)

theorem Sends.segment (h : Sends isn s) {seg : TcpSegment} {segs : List TcpSegment}
    (hok : ¬ (s.conn.state = .synSent ∧ s.conn.answersSyn seg = true)) (heff : Effect s.conn seg s'.conn)
    (hq : s'.queued = s.queued ++ segs) (hans : Answers s.conn.sndNxt (s.conn.answersSyn seg) segs)
    (hsent : s'.sent = s.sent) : Sends isn s' := by
  have hdata : ∀ t ∈ segs, t.data = [] := fun t ht => (hans.control t ht).1
  have hbytes : bytesOf s'.queued = bytesOf s.queued := by
    rw [hq, bytesOf_append, bytesOf_control hdata, append_nil]
  have hnofin : (∀ t ∈ s.queued, t.header.has FIN = false) → ∀ t ∈ s'.queued, t.header.has FIN = false := by
    intro hold
    rw [hq]
    exact forall_mem_append.mpr ⟨hold, fun t ht => (hans.control t ht).2⟩
  obtain ⟨hlisten, hrunning⟩ := nextState_sends s.conn seg
  refine ⟨?_, ?_, ?_, ?_, ?_⟩
  · rw [hbytes, heff.sendBuf, hsent]
    exact h.bytes
  · rw [hq]
    exact h.contiguous.append hdata
  · rw [hq, hsent]
    refine forall_mem_append.mpr ⟨h.fins, fun t ht hfin => ?_⟩
    rw [(hans.control t ht).2] at hfin
    cases hfin
  · intro hst
    rw [heff.state] at hst
    obtain ⟨hst, hsyn⟩ := hlisten hst
    obtain ⟨h1, h2, h3⟩ := h.listen hst
    refine ⟨?_, hbytes.trans h2, hnofin h3⟩
    rw [heff.sndNxt, h1, hsyn]
    simp
  · intro hst
    rw [heff.state] at hst
    rcases hrunning hst with ⟨hst, hsyn⟩ | ⟨hst, hsyn⟩
    · obtain ⟨h1, h2⟩ := h.running hst
      refine ⟨?_, hnofin h2⟩
      have hno : s.conn.answersSyn seg = false := by
        by_contra hx
        have hx : s.conn.answersSyn seg = true := by simpa using hx
        exact hok ⟨hsyn hx, hx⟩
      rw [heff.sndNxt, hno, hbytes, h1]
      simp
    · obtain ⟨h1, h2, h3⟩ := h.listen hst
      refine ⟨?_, hnofin h3⟩
      rw [heff.sndNxt, hsyn, hbytes, h1, h2]
      simp

theorem Sends.quiet (h : Sends isn s) (hq : s'.queued = s.queued) (hsent : s'.sent = s.sent)
    (hbuf : s'.conn.sendBuf = s.conn.sendBuf) (hnxt : s'.conn.sndNxt = s.conn.sndNxt)
    (hst : s'.conn.state = s.conn.state ∨ s'.conn.state = .closed) : Sends isn s' := by
  refine ⟨?_, ?_, ?_, ?_, ?_⟩
  · rw [hq, hbuf, hsent]
    exact h.bytes
  · rw [hq]
    exact h.contiguous
  · rw [hq, hsent]
    exact h.fins
  · intro hl
    rw [hq, hnxt]
    rcases hst with hst | hst
    · exact h.listen (hst ▸ hl)
    · rw [hst] at hl
      cases hl
  · intro hr
    rw [hq, hnxt]
    rcases hst with hst | hst
    · exact h.running (hst ▸ hr)
    · rw [hst] at hr
      exact absurd hr (by decide)

/-- One step. -/
theorem Sends.step (h : Sends isn s) (hok : SendsKept s a) (hs : s.step a = some s') : Sends isn s' := by
  rcases step_send hs with ⟨seg, segs, rfl, heff, hq, hans, hsent⟩ | ⟨-, hout, -⟩
  · exact h.segment hok heff hq hans hsent
  cases hout with
  | quiet queued sent sendBuf sndNxt state =>
    exact h.quiet queued sent sendBuf sndNxt (state.imp_right (fun hst => hst.2))
  | accept data n segs sending queued sent le sendBuf sndNxt segments window state =>
    obtain ⟨hnxt, hnofin⟩ := h.running (.inr (.inr sending))
    have hseg : bytesOf segs = (s.conn.sendBuf ++ data).take n ∧ (∀ t ∈ segs, t.header.has FIN = false) ∧
        Contiguous (isn + 1) (s.queued ++ segs) := by
      rcases segments with ⟨rfl, rfl⟩ | ⟨seg, rfl, hdata, hseq, hfin, -⟩
      · refine ⟨rfl, nofun, ?_⟩
        rw [append_nil]
        exact h.contiguous
      refine ⟨?_, ?_, h.contiguous.append_data (hseq.trans hnxt)⟩
      · rw [← hdata]
        exact append_nil _
      intro t ht
      rw [mem_singleton.mp ht]
      exact hfin
    obtain ⟨hbytes, hfin, hcont⟩ := hseg
    have hnofin' : ∀ t ∈ s'.queued, t.header.has FIN = false := by
      rw [queued]
      exact forall_mem_append.mpr ⟨hnofin, hfin⟩
    refine ⟨?_, ?_, ?_, ?_, ?_⟩
    · rw [queued, bytesOf_append, hbytes, sendBuf, append_assoc, take_append_drop, sent, ← h.bytes, append_assoc]
    · rw [queued]
      exact hcont
    · intro t ht hx
      rw [hnofin' t ht] at hx
      cases hx
    · intro hl
      rw [state] at hl
      rw [hl] at sending
      exact absurd sending (by decide)
    · intro _
      refine ⟨?_, hnofin'⟩
      rw [sndNxt, hnxt, queued, bytesOf_append, length_append, hbytes, length_take_of_le le, BitVec.ofNat_add]
      ac_rfl
  | fin seg close sending queued sent sendBuf sndNxt segment state =>
    subst close
    obtain ⟨hdata, hseq, -⟩ := segment
    obtain ⟨hnxt, hnofin⟩ := h.running (.inr (.inr sending))
    have hempty : s.conn.sendBuf = [] := hok sending
    have hall : bytesOf s.queued = s.sent := by
      have hb := h.bytes
      rwa [hempty, append_nil] at hb
    have hdata' : ∀ t ∈ [seg], t.data = [] := by
      intro t ht
      rw [mem_singleton.mp ht]
      exact hdata
    refine ⟨?_, ?_, ?_, ?_, ?_⟩
    · rw [queued, bytesOf_append, bytesOf_control hdata', append_nil, sendBuf, sent]
      exact h.bytes
    · rw [queued]
      exact h.contiguous.append hdata'
    · intro t ht hx
      rw [queued] at ht
      rcases mem_append.mp ht with ht | ht
      · rw [hnofin t ht] at hx
        cases hx
      · rw [mem_singleton.mp ht, hseq, hnxt, hall, sent]
    · intro hl
      rcases state with state | state <;> rw [state] at hl <;> cases hl
    · intro hr
      rcases state with state | state <;> rw [state] at hr <;> exact absurd hr (by decide)

/-- **Every accepted byte is sent once, in order.** In every run in which `close` finds the send buffer empty and no
    simultaneous open takes place, the payload queued so far and the send buffer make up what `send` accepted; data
    segments are numbered contiguously from the initial sequence number plus one, and a FIN carries the number after
    the last accepted byte. -/
theorem send_stream (h : Run.Reach Session.step SendsKept (Opened isn) s) :
    bytesOf s.queued ++ s.conn.sendBuf = s.sent ∧ Contiguous (isn + 1) s.queued ∧
      ∀ seg ∈ s.queued, seg.header.has FIN = true →
        seg.header.seqNum = isn + 1 + BitVec.ofNat 32 s.sent.length := by
  have hinv : Sends isn s := h.invariant _ (fun _ h0 => h0.sends) (fun _ _ _ => Sends.step)
  exact ⟨hinv.bytes, hinv.contiguous, hinv.fins⟩

/-- Two sends, an acknowledgment and a close. -/
theorem send_stream_closed : ∃ s : Session,
    Run.Reach Session.step SendsKept (Opened 0) s ∧ s.sent = [1, 2, 3] ∧ s.conn.state = .finWait1 ∧
      bytesOf s.queued ++ s.conn.sendBuf = [1, 2, 3] := by
  obtain ⟨s, hreach, hsent, hstate⟩ : ∃ s, Run.Reach step SendsKept (Opened 0) s ∧ s.sent = [1, 2, 3] ∧
      s.conn.state = .finWait1 :=
    Run.Reach.exists_exec [.segment (fromPeer 0 (SYN ||| ACK) []), .send [1, 2], .send [3],
      .segment (TcpSegment.new 80 40000 1 3 ACK 65535 TcpOptions.default []), .transmitData, .close]
      connecting_opened (by decide +kernel)
  refine ⟨s, hreach, hsent, hstate, ?_⟩
  rw [(send_stream hreach).1, hsent]

/-- **`close` skips what is still in the buffer**: the third byte waits for an acknowledgment when the connection is
    closed, and the FIN takes its sequence number. -/
theorem close_skips_bytes : ∃ s : Session,
    Run.Reach Session.step (fun _ _ => True) (Opened 0) s ∧ s.sent = [1, 2, 3] ∧ s.conn.sendBuf = [3] ∧
      ∃ seg ∈ s.queued, seg.header.has FIN = true ∧ seg.header.seqNum = 3 := by
  exact Run.Reach.exists_exec [.segment (fromPeer 0 (SYN ||| ACK) []), .send [1, 2], .send [3], .close]
    connecting_opened (by decide +kernel)

end Session
end OxideOs.Tcp

import OxideOs.Lib.Run
import OxideOs.Net.Tcp.Segment

/-!
# `Net.Tcp.Connection` — one TCP connection (`tcpip::tcp`)

A connection is a record of counters and buffers. Incoming segments, the application and the timers change it;
each call is one step. Sequence numbers are 32-bit words that wrap, compared by the sign of their difference. The
transmit queue is kept as segments; serialising them is not modelled. The clock of this code is not connected to
a time source: it returns 0.
-/

namespace OxideOs.Tcp

open Checked

inductive TcpState where
  | closed
  | listen
  | synSent
  | synReceived
  | established
  | finWait1
  | finWait2
  | closeWait
  | closing
  | lastAck
  | timeWait
  deriving DecidableEq

inductive NetError where
  | notConnected
  | wouldBlock
  deriving DecidableEq

/-! ## Sequence numbers -/

def seqGt (a b : BitVec 32) : Bool := decide (0 < (a - b).toInt)

def seqGe (a b : BitVec 32) : Bool := decide (0 ≤ (a - b).toInt)

def seqLt (a b : BitVec 32) : Bool := decide ((a - b).toInt < 0)

/-- `saturating_sub` -/
def saturatingSub {w : Nat} (a b : BitVec w) : BitVec w := if a < b then 0 else a - b

/-! ## Outgoing segments -/

def TcpOptions.toBytes (o : TcpOptions) : List Byte :=
  let be16 (x : BitVec 16) : List Byte := [x.extractLsb' 8 8, x.extractLsb' 0 8]
  let be32 (x : BitVec 32) : List Byte := be16 (x.extractLsb' 16 16) ++ be16 (x.extractLsb' 0 16)
  let mss := match o.mss with
    | some mss => [OPT_MSS, 4] ++ be16 mss
    | none => []
  let scale := match o.windowScale with
    | some scale => [OPT_WINDOW_SCALE, 3, scale]
    | none => []
  let permitted := if o.sackPermitted then [OPT_SACK_PERMITTED, 2] else []
  let sack := if o.sackBlocks.isEmpty then []
    else [OPT_SACK, 2 + BitVec.ofNat 8 (o.sackBlocks.length * 8)] ++
      o.sackBlocks.flatMap (fun b => be32 b.1 ++ be32 b.2)
  let stamps := match o.timestamp, o.timestampEcho with
    | some ts, some echo => [OPT_TIMESTAMP, 10] ++ be32 ts ++ be32 echo
    | _, _ => []
  let buf := mss ++ scale ++ permitted ++ sack ++ stamps
  buf ++ List.replicate ((4 - buf.length % 4) % 4) OPT_NOP

/-- `TcpSegment::new_with_options`; `TcpSegment::new` passes no options. -/
def TcpSegment.new (srcPort dstPort : BitVec 16) (seqNum ackNum : BitVec 32) (flags : Byte) (window : BitVec 16)
    (options : TcpOptions) (data : List Byte) : TcpSegment :=
  { header :=
      { srcPort := srcPort, dstPort := dstPort, seqNum := seqNum, ackNum := ackNum
        dataOffsetReserved := BitVec.ofNat 8 ((TCP_HEADER_MIN_LEN + options.toBytes.length) / 4) <<< 4
        flags := flags, window := window, checksum := 0, urgentPtr := 0 }
    options := options
    data := data }

structure TcpConnection where
  localPort : BitVec 16
  remotePort : BitVec 16
  state : TcpState
  sndNxt : BitVec 32
  sndUna : BitVec 32
  rcvNxt : BitVec 32
  sndWnd : BitVec 32
  rcvWnd : BitVec 32
  sendBuf : List Byte
  recvBuf : List Byte
  retransmitQueue : List (BitVec 32 × List Byte × BitVec 64)
  lastActivity : BitVec 64
  cwnd : BitVec 32
  ssthresh : BitVec 32
  mss : BitVec 32
  srtt : BitVec 64
  rttvar : BitVec 64
  rto : BitVec 64
  sndWscale : BitVec 32
  rcvWscale : BitVec 32
  sackPermitted : Bool
  tsRecent : BitVec 32
  dupAcks : BitVec 32
  timeWaitTimer : BitVec 64
  nagleEnabled : Bool
  hasUnacked : Bool
  txQueue : List TcpSegment
  resetReceived : Bool

namespace TcpConnection

def INITIAL_RTO : BitVec 64 := 1000000
def MIN_RTO : BitVec 64 := 200000
def MAX_RTO : BitVec 64 := 60000000
def KEEPALIVE_INTERVAL : BitVec 64 := 7200000000
def TIME_WAIT_TIMEOUT : BitVec 64 := 240000000

def getTimestamp : BitVec 32 := 0

/-- Would use an actual clock source. -/
def getTimestampUs : BitVec 64 := 0

/-- `TcpConnection::new` with the initial sequence number it draws. -/
def new (isn : BitVec 32) (localPort remotePort : BitVec 16) : TcpConnection :=
  { localPort := localPort, remotePort := remotePort, state := .closed, sndNxt := isn, sndUna := isn, rcvNxt := 0
    sndWnd := BitVec.ofNat 32 TCP_WINDOW_SIZE, rcvWnd := BitVec.ofNat 32 TCP_WINDOW_SIZE, sendBuf := []
    recvBuf := [], retransmitQueue := [], lastActivity := 0, cwnd := TCP_MSS_ETHERNET.setWidth 32 * 2
    ssthresh := BitVec.allOnes 32, mss := TCP_MSS_ETHERNET.setWidth 32, srtt := 0, rttvar := 0
    rto := INITIAL_RTO, sndWscale := 0, rcvWscale := 0, sackPermitted := false, tsRecent := 0, dupAcks := 0
    timeWaitTimer := 0, nagleEnabled := true, hasUnacked := false, txQueue := [], resetReceived := false }

/-! ## Sending segments -/

/-- `queue_segment`: what carries data, SYN or FIN also goes to the retransmit queue. -/
def queueSegment (c : TcpConnection) (seg : TcpSegment) : TcpConnection :=
  { c with
    txQueue := c.txQueue ++ [seg]
    retransmitQueue :=
      if seg.data ≠ [] ∨ seg.header.has SYN ∨ seg.header.has FIN then
        c.retransmitQueue ++ [(seg.header.seqNum, seg.data, getTimestampUs)]
      else c.retransmitQueue }

/-- The timestamp options, when the peer has offered SACK. -/
def stampOptions (c : TcpConnection) : TcpOptions :=
  if c.sackPermitted then
    { TcpOptions.default with timestamp := some getTimestamp, timestampEcho := some c.tsRecent }
  else TcpOptions.default

def sendAck (c : TcpConnection) : TcpConnection :=
  c.queueSegment (TcpSegment.new c.localPort c.remotePort c.sndNxt c.rcvNxt ACK (c.rcvWnd.setWidth 16)
    c.stampOptions [])

def sendSynAck (c : TcpConnection) : TcpConnection :=
  let options : TcpOptions :=
    { mss := some (c.mss.setWidth 16), windowScale := some (c.rcvWscale.setWidth 8), sackPermitted := true
      sackBlocks := [], timestamp := some getTimestamp, timestampEcho := some c.tsRecent }
  let c' := c.queueSegment (TcpSegment.new c.localPort c.remotePort c.sndNxt c.rcvNxt (SYN ||| ACK)
    (BitVec.ofNat 16 TCP_WINDOW_SIZE) options [])
  { c' with sndNxt := c'.sndNxt + 1 }

def sendRst (c : TcpConnection) : TcpConnection :=
  c.queueSegment (TcpSegment.new c.localPort c.remotePort c.sndNxt c.rcvNxt (RST ||| ACK) 0 TcpOptions.default [])

def sendFin (c : TcpConnection) : TcpConnection :=
  let c' := c.queueSegment (TcpSegment.new c.localPort c.remotePort c.sndNxt c.rcvNxt (FIN ||| ACK)
    (c.rcvWnd.setWidth 16) TcpOptions.default [])
  { c' with sndNxt := c'.sndNxt + 1 }

/-! ## Opening -/

/-- `connect` on a closed connection. -/
def connect (c : TcpConnection) : TcpConnection :=
  let options : TcpOptions :=
    { mss := some (c.mss.setWidth 16), windowScale := some 7, sackPermitted := true, sackBlocks := []
      timestamp := some getTimestamp, timestampEcho := some 0 }
  let seg := TcpSegment.new c.localPort c.remotePort c.sndNxt 0 SYN (BitVec.ofNat 16 TCP_WINDOW_SIZE) options []
  { c with rcvWscale := 7, txQueue := c.txQueue ++ [seg], sndNxt := c.sndNxt + 1, state := .synSent }

/-- `listen` on a closed connection. -/
def listen (c : TcpConnection) : TcpConnection := { c with state := .listen }

/-! ## Acknowledgments -/

/-- The window after three duplicates; `fast_retransmit` itself sends nothing. Here and below the products of segment
    sizes fit into their words, as a segment size is at most `TCP_MSS_ETHERNET`. -/
def fastRecovery (c : TcpConnection) : TcpConnection :=
  let half := c.cwnd / 2
  { c with
    ssthresh := if half < 2 * c.mss then 2 * c.mss else half
    cwnd := half + 3 * c.mss }

def duplicateAck (c : TcpConnection) : Checked TcpConnection := do
  let dupCount ← addWord c.dupAcks 1
  let c := { c with dupAcks := dupCount }
  -- the window is inflated by an atomic addition, which wraps
  .ok (if dupCount = 3 then c.fastRecovery
    else if 3 < dupCount then { c with cwnd := c.cwnd + c.mss }
    else c)

/-- Congestion control on a new acknowledgment. -/
def growWindow (c : TcpConnection) : Checked TcpConnection :=
  if c.cwnd < c.ssthresh then do
    let cwnd ← addWord c.cwnd c.mss
    .ok { c with cwnd := cwnd }
  else do
    let increment ← div (c.mss * c.mss) c.cwnd
    let cwnd ← addWord c.cwnd (if increment < 1 then 1 else increment)
    .ok { c with cwnd := cwnd }

def newAck (c : TcpConnection) (ackNum : BitVec 32) : Checked TcpConnection :=
  { c with
    dupAcks := 0
    sndUna := ackNum
    hasUnacked := if ackNum = c.sndNxt then false else c.hasUnacked
    retransmitQueue := c.retransmitQueue.filter
      (fun e => seqGt (e.1 + BitVec.ofNat 32 e.2.1.length) ackNum) }.growWindow

def processAck (c : TcpConnection) (ackNum : BitVec 32) : Checked TcpConnection :=
  if ackNum = c.sndUna then c.duplicateAck
  else if seqGt ackNum c.sndUna then c.newAck ackNum
  else .ok c

/-- `process_ack` on a segment with the ACK flag. -/
def ackFrom (c : TcpConnection) (seg : TcpSegment) : Checked TcpConnection :=
  if seg.header.has ACK then c.processAck seg.header.ackNum else .ok c

/-! ## Round-trip times -/

def clampRto (rto : BitVec 64) : BitVec 64 := if rto < MIN_RTO then MIN_RTO else if MAX_RTO < rto then MAX_RTO else rto

def updateRtt (c : TcpConnection) (measured : BitVec 64) : TcpConnection :=
  if c.srtt = 0 then
    { c with srtt := measured, rttvar := measured / 2, rto := clampRto (measured + measured * 2) }
  else
    let diff := if measured < c.srtt then c.srtt - measured else measured - c.srtt
    let rttvar := (c.rttvar * 3 / 4) + (diff / 4)
    let srtt := (c.srtt * 7 / 8) + (measured / 8)
    { c with rttvar := rttvar, srtt := srtt, rto := clampRto (srtt + rttvar * 4) }

/-- The measurement in `Established`, from the timestamps of an acknowledgment. -/
def measureRtt (c : TcpConnection) (seg : TcpSegment) : TcpConnection :=
  if seg.header.has ACK then
    match seg.options.timestamp, seg.options.timestampEcho with
    | some _, some echo => if 0 < echo then c.updateRtt ((saturatingSub getTimestamp echo).setWidth 64 * 1000) else c
    | _, _ => c
  else c

/-! ## Incoming segments -/

def seqAcceptable (c : TcpConnection) (seq len : BitVec 32) : Bool :=
  if c.rcvWnd = 0 then len == 0 && seq == c.rcvNxt
  else if len = 0 then seqGe seq c.rcvNxt && seqLt seq (c.rcvNxt + c.rcvWnd)
  else
    let seqEnd := seq + (len - 1)
    let wndEnd := c.rcvNxt + c.rcvWnd
    (seqGe seq c.rcvNxt && seqLt seq wndEnd) || (seqGe seqEnd c.rcvNxt && seqLt seqEnd wndEnd)

/-- A segment the acceptance test lets through. -/
def accepts (c : TcpConnection) (seg : TcpSegment) : Bool :=
  c.state == .synSent || c.seqAcceptable seg.header.seqNum (BitVec.ofNat 32 seg.data.length)

def processRst (c : TcpConnection) : TcpConnection :=
  let c' := { c with resetReceived := true }
  match c.state with
  | .synReceived | .established | .finWait1 | .finWait2 | .closeWait => { c' with state := .closed }
  | _ => c'

/-- The options of the peer's SYN that both opening states take over. -/
def negotiate (c : TcpConnection) (o : TcpOptions) : TcpConnection :=
  { c with
    mss := match o.mss with
      | some mss => (if mss < TCP_MSS_ETHERNET then mss else TCP_MSS_ETHERNET).setWidth 32
      | none => c.mss
    sndWscale := match o.windowScale with
      | some scale => scale.setWidth 32
      | none => c.sndWscale
    sackPermitted := if o.sackPermitted then true else c.sackPermitted }

def processListen (c : TcpConnection) (seg : TcpSegment) : TcpConnection :=
  if seg.header.has SYN then
    let c' := c.negotiate seg.options
    { c' with
      tsRecent := match seg.options.timestamp with
        | some ts => ts
        | none => c'.tsRecent
      rcvNxt := seg.header.seqNum + 1
      state := .synReceived }.sendSynAck
  else c

def processSynSent (c : TcpConnection) (seg : TcpSegment) : TcpConnection :=
  if seg.header.has SYN ∧ seg.header.has ACK then
    { c.negotiate seg.options with
      sndUna := seg.header.ackNum
      rcvNxt := seg.header.seqNum + 1
      state := .established }.sendAck
  else if seg.header.has SYN then
    -- simultaneous open
    { c with rcvNxt := seg.header.seqNum + 1, state := .synReceived }.sendSynAck
  else c

/-- Data in `Established`: in order it is taken, otherwise answered with a duplicate acknowledgment. -/
def receiveData (c : TcpConnection) (seg : TcpSegment) : Checked TcpConnection :=
  if seg.data = [] then .ok c
  else if seg.header.seqNum = c.rcvNxt then do
    let recvBuf := c.recvBuf ++ seg.data
    let available ← sub TCP_WINDOW_SIZE recvBuf.length
    .ok { c with
      recvBuf := recvBuf
      rcvNxt := c.rcvNxt + BitVec.ofNat 32 seg.data.length
      rcvWnd := BitVec.ofNat 32 available }.sendAck
  else .ok c.sendAck

/-- A FIN: it takes one sequence number and is acknowledged from the new state. -/
def receiveFin (c : TcpConnection) (next : TcpState) : TcpConnection :=
  { c with
    rcvNxt := c.rcvNxt + 1
    state := next
    timeWaitTimer := if next = TcpState.timeWait then getTimestampUs else c.timeWaitTimer }.sendAck

def processEstablished (c : TcpConnection) (seg : TcpSegment) : Checked TcpConnection := do
  let c ← { c with lastActivity := getTimestampUs }.ackFrom seg
  let c ← (c.measureRtt seg).receiveData seg
  .ok (if seg.header.has FIN then c.receiveFin .closeWait else c)

def processFinWait1 (c : TcpConnection) (seg : TcpSegment) : Checked TcpConnection := do
  let c ← c.ackFrom seg
  let c := if seg.header.has ACK then { c with state := .finWait2 } else c
  .ok (if seg.header.has FIN then c.receiveFin (if c.state = .finWait2 then .timeWait else .closing) else c)

def processFinWait2 (c : TcpConnection) (seg : TcpSegment) : Checked TcpConnection := do
  let c ← c.ackFrom seg
  .ok (if seg.header.has FIN then c.receiveFin .timeWait else c)

/-- The states that move on with any acknowledgment. -/
def processClosing (c : TcpConnection) (seg : TcpSegment) (next : TcpState) : Checked TcpConnection := do
  let c ← c.ackFrom seg
  .ok (if seg.header.has ACK then
    { c with
      state := next
      timeWaitTimer := if next = .timeWait then getTimestampUs else c.timeWaitTimer }
    else c)

def processTimeWait (c : TcpConnection) (seg : TcpSegment) : TcpConnection :=
  if seg.header.has FIN then { c with timeWaitTimer := getTimestampUs }.sendAck else c

def processSegment (c : TcpConnection) (seg : TcpSegment) : Checked TcpConnection :=
  if c.accepts seg = false then .ok c
  else if seg.header.has RST then .ok c.processRst
  else
    match c.state with
    | .closed => .ok c.sendRst
    | .listen => .ok (c.processListen seg)
    | .synSent => .ok (c.processSynSent seg)
    | .synReceived => c.processClosing seg .established
    | .established => c.processEstablished seg
    | .finWait1 => c.processFinWait1 seg
    | .finWait2 => c.processFinWait2 seg
    | .closeWait => c.ackFrom seg
    | .closing => c.processClosing seg .timeWait
    | .lastAck => c.processClosing seg .closed
    | .timeWait => .ok (c.processTimeWait seg)

/-! ## The application -/

/-- Nagle's test. -/
def canSendSegment (c : TcpConnection) (dataLen : Nat) : Bool :=
  !c.nagleEnabled || decide (c.mss.toNat ≤ dataLen) || !c.hasUnacked

def sendData (c : TcpConnection) (toSend : Nat) : TcpConnection :=
  let data := c.sendBuf.take toSend
  let c' := { c with sendBuf := c.sendBuf.drop toSend }.queueSegment
    (TcpSegment.new c.localPort c.remotePort c.sndNxt c.rcvNxt (ACK ||| PSH) (c.rcvWnd.setWidth 16)
      c.stampOptions data)
  { c' with sndNxt := c'.sndNxt + BitVec.ofNat 32 data.length, hasUnacked := true }

def transmitData (c : TcpConnection) : Checked TcpConnection :=
  if c.state ≠ .established ∧ c.state ≠ .closeWait then .ok c
  else if c.sendBuf = [] then .ok c
  else
    let effectiveWindow := if c.sndWnd < c.cwnd then c.sndWnd else c.cwnd
    let inFlight := c.sndNxt - c.sndUna
    if effectiveWindow ≤ inFlight then
      -- the probe locks the send buffer again
      if c.sndWnd = 0 then .error .selfDeadlock else .ok c
    else do
      let availableWindow ← sub effectiveWindow.toNat inFlight.toNat
      let toSend := min (min c.sendBuf.length availableWindow) c.mss.toNat
      .ok (if 0 < toSend ∧ c.canSendSegment toSend then c.sendData toSend else c)

def send (c : TcpConnection) (data : List Byte) : Checked (Except NetError Nat × TcpConnection) :=
  if c.state ≠ .established ∧ c.state ≠ .closeWait then .ok (.error .notConnected, c)
  else do
    let c ← { c with sendBuf := c.sendBuf ++ data }.transmitData
    .ok (.ok data.length, c)

/-- `recv` into a buffer of `len` bytes: the bytes it copies. -/
def recv (c : TcpConnection) (len : Nat) : Except NetError (List Byte) × TcpConnection :=
  if c.state = .established ∨ c.state = .finWait1 ∨ c.state = .finWait2 ∨ c.state = .closeWait then
    if c.recvBuf = [] then
      (if c.state = .closeWait then .ok [] else .error .wouldBlock, c)
    else (.ok (c.recvBuf.take len), { c with recvBuf := c.recvBuf.drop len })
  else (.error .notConnected, c)

def close (c : TcpConnection) : TcpConnection :=
  match c.state with
  | .established => { c.sendFin with state := .finWait1 }
  | .closeWait => { c.sendFin with state := .lastAck }
  | .synSent | .listen => { c with state := .closed }
  | _ => c

/-! ## Timers -/

/-- One entry of the retransmit queue in `check_retransmission`; `rto` was read before the loop. -/
def checkEntry (now rto : BitVec 64) (c : TcpConnection) (e : BitVec 32 × List Byte × BitVec 64) :
    TcpConnection :=
  if rto < saturatingSub now e.2.2 then
    let half := c.cwnd / 2
    { c with
      retransmitQueue := c.retransmitQueue ++ [(e.1, e.2.1, now)]
      rto := if rto * 2 < MAX_RTO then rto * 2 else MAX_RTO
      ssthresh := if half < 2 * c.mss then 2 * c.mss else half
      cwnd := c.mss }
  else { c with retransmitQueue := c.retransmitQueue ++ [e] }

def checkRetransmission (c : TcpConnection) (now : BitVec 64) : TcpConnection :=
  c.retransmitQueue.foldl (checkEntry now c.rto) { c with retransmitQueue := [] }

/-- `process_timers`: the clock it reads stands still. -/
def processTimers (c : TcpConnection) : TcpConnection :=
  let now := getTimestampUs
  let c' := c.checkRetransmission now
  if c.state = .established then
    if KEEPALIVE_INTERVAL < saturatingSub now c'.lastActivity then { c' with lastActivity := now } else c'
  else if c.state = .timeWait then
    if 0 < c'.timeWaitTimer ∧ TIME_WAIT_TIMEOUT < saturatingSub now c'.timeWaitTimer then { c' with state := .closed }
    else c'
  else c'

end TcpConnection

/-! ## A connection and its history -/

/-- A connection with the bytes that went in and out of it. -/
structure Session where
  conn : TcpConnection
  /-- What `recv` has returned. -/
  received : List Byte
  /-- What `send` has accepted. -/
  sent : List Byte
  /-- What `dequeue_segments` has taken. -/
  transmitted : List TcpSegment

namespace Session

inductive Action where
  | segment (seg : TcpSegment)
  | send (data : List Byte)
  | transmitData
  | recv (len : Nat)
  | close
  | timers
  | dequeueSegments

def act (s : Session) : Action → Checked Session
  | .segment seg => do
      let c ← s.conn.processSegment seg
      .ok { s with conn := c }
  | .send data => do
      let r ← s.conn.send data
      .ok { s with conn := r.2, sent := if r.1 = .ok data.length then s.sent ++ data else s.sent }
  | .transmitData => do
      let c ← s.conn.transmitData
      .ok { s with conn := c }
  | .recv len =>
    .ok { s with
      conn := (s.conn.recv len).2
      received := match (s.conn.recv len).1 with
        | .ok bytes => s.received ++ bytes
        | .error _ => s.received }
  | .close => .ok { s with conn := s.conn.close }
  | .timers => .ok { s with conn := s.conn.processTimers }
  | .dequeueSegments =>
    .ok { s with conn := { s.conn with txQueue := [] }, transmitted := s.transmitted ++ s.conn.txQueue }

/-- A step; there is none where the kernel stops. -/
def step (s : Session) (a : Action) : Option Session :=
  match s.act a with
  | .ok s' => some s'
  | .error _ => none

/-- A connection that was just opened by `connect` or `listen`. -/
def Opened (isn : BitVec 32) (s : Session) : Prop :=
  ∃ localPort remotePort,
    (s.conn = (TcpConnection.new isn localPort remotePort).connect ∨
      s.conn = (TcpConnection.new isn localPort remotePort).listen) ∧
    s.received = [] ∧ s.sent = [] ∧ s.transmitted = []

/-- Every segment ever queued, in order. -/
def queued (s : Session) : List TcpSegment := s.transmitted ++ s.conn.txQueue

end Session
end OxideOs.Tcp

import Mathlib.Data.List.Basic
import Mathlib.Algebra.BigOperators.Group.List.Basic
import Mathlib.Algebra.Order.Ring.Int

/-!
# Blindport.Tunnel.Stream

`internal/tunnel/tunnel.go`, one `Stream`: its receive queue, its send credit,
the half-close and close machinery, and the goroutines that work on it.

A goroutine that is between two of its critical sections is part of the record:
`txMu` says who holds the write mutex and how far it is, `flusher` where
`flushWindowUpdates` is, `once` which statement of the body of `closeOnce` comes
next.  `Stream.act` is one section of one of these goroutines, `Stream.handle`
one section of the read loop for a frame of this stream.

The fields after `discards` and `consumed` are history: the bytes `Read` has
returned, the `WriteContext` calls, the frames of the stream that were read and
written, whether a caller other than the peer's CLOSE has come to `closeOnce`, and
whether a local close, abort, eviction or sweep has returned.
-/

namespace Tunnel

/-! ## frames and limits -/

/-- `protocol.Transport`. -/
inductive Transport where
  | tcp
  | udp
deriving DecidableEq, Repr

/-- The frames of one stream.  The protocol of an OPEN is `none` when
`normalizeProtocol` refuses it. -/
inductive Signal where
  | opening (protocol : Option Transport)
  | data (payload : List UInt8)
  | datagram (payload : List UInt8)
  | windowUpdate (credit : Nat)
  | closeWrite
  | close
deriving DecidableEq, Repr

def maxDataPayloadSize : Nat := 16 * 2 ^ 10
def maxDatagramPayloadSize : Nat := 65507
def maxWindowUpdate : Nat := 4 * 2 ^ 20

def tcpStreamReceiveQueueByteSize : Int := 4 * 2 ^ 20
def tcpStreamReceiveQueueFrameSize : Int := 512
def legacyTCPReceiveQueueByteSize : Int := 56 * 2 ^ 20
def legacyTCPReceiveQueueFrameSize : Int := 4096
def udpStreamReceiveQueueByteSize : Int := 512 * 2 ^ 10
def udpStreamReceiveQueueFrameSize : Int := 32
def connReceiveQueueByteSize : Int := 64 * 2 ^ 20
def connReceiveQueueFrameSize : Int := 4096
def connReceiveControlReserve : Int := 4 * 2 ^ 20
def connReceiveFrameReserve : Int := 256
def controlStreamByteThreshold : Int := 64 * 2 ^ 10
def controlStreamFrameThreshold : Int := 8
def maxConcurrentStreams : Nat := 1024

/-- What a `Conn` is made with and what the handshake selected. -/
structure Config where
  maxStreams : Nat
  /-- `onOpen` is set. -/
  accepts : Bool
  evictIdle : Int
  halfClose : Bool
  flowControl : Bool
  rxByteLimit : Int := connReceiveQueueByteSize
  rxFrameLimit : Int := connReceiveQueueFrameSize
  rxByteLimit_nonneg : 0 ≤ rxByteLimit := by decide
  rxFrameLimit_nonneg : 0 ≤ rxFrameLimit := by decide
deriving DecidableEq

/-- `Conn.rxBytes` and `Conn.rxFrames`, the receive budget the streams share. -/
@[ext] structure Budget where
  rxBytes : Int
  rxFrames : Int
deriving DecidableEq

/-- `reserveReceive`. -/
def Budget.reserveReceive (cfg : Config) (b : Budget) (size streamBytes streamFrames : Int) :
    Option Budget :=
  if size > cfg.rxByteLimit - b.rxBytes ∨ b.rxFrames ≥ cfg.rxFrameLimit then none
  else
    let bulkByteLimit := cfg.rxByteLimit - min connReceiveControlReserve cfg.rxByteLimit
    if streamBytes > controlStreamByteThreshold ∧ size > bulkByteLimit - b.rxBytes then none
    else
      let bulkFrameLimit := cfg.rxFrameLimit - min connReceiveFrameReserve cfg.rxFrameLimit
      if streamFrames > controlStreamFrameThreshold ∧ b.rxFrames ≥ bulkFrameLimit then none
      else some ⟨b.rxBytes + size, b.rxFrames + 1⟩

/-- `releaseReceive`. -/
def Budget.releaseReceive (b : Budget) (size frames : Int) : Budget :=
  ⟨b.rxBytes - size, b.rxFrames - frames⟩

/-! ## the record -/

/-- Who runs the body of `closeOnce`: `closeRX` for the peer's CLOSE, `Close`,
`abort` or `closeTunnel`. -/
inductive Closer where
  | peer
  | user
  | abort
  | tunnel
deriving DecidableEq, Repr

/-- The statements of the body of `closeOnce` in `markClosed`. -/
inductive Statement where
  | remove
  | txClosed
  | done
  | closeRead
deriving DecidableEq, Repr

/-- `closeOnce`. -/
inductive Once where
  | fresh
  | running (closer : Closer) (next : Statement)
  | finished (closer : Closer)
deriving DecidableEq, Repr

/-- How far the `OpenStream` call that made the stream is.  A stream the peer
opened starts at `opened`. -/
inductive Opening where
  /-- `evict` of the victim: `evicted.Store(true)` comes next. -/
  | evicting (victim : Nat)
  /-- The `abort` inside `evict`. -/
  | aborting (victim : Nat)
  /-- The OPEN frame comes next. -/
  | writing
  | opened
  | failed
deriving DecidableEq, Repr

/-- The holder of `txMu`. -/
inductive TxHolder where
  | free
  /-- `WriteContext` at the head of its loop. -/
  | loop (rest : List UInt8)
  /-- `WriteContext` in `takeSendCredit`. -/
  | want (rest : List UInt8)
  /-- `WriteContext` before `WriteFrame` of the first `n` bytes. -/
  | frame (n : Nat) (rest : List UInt8)
  /-- `CloseWrite` before its frame. -/
  | closeWrite
  /-- `sendClose` before its frame. -/
  | close
deriving DecidableEq, Repr

/-- The `flushWindowUpdates` goroutine. -/
inductive Flusher where
  | off
  | take
  | frame (credit : Nat)
deriving DecidableEq, Repr

/-- A `WriteContext` call that got the mutex: its argument and its `written`. -/
structure WriteCall where
  p : List UInt8
  written : Nat
deriving DecidableEq, Repr

/-- The receive side of a stream, under `rxMu`. -/
@[ext] structure Rx where
  rxBuf : List UInt8
  rxBufSize : Int
  rxQueue : List (List UInt8)
  rxQueued : Int
  rxFrames : Int
  consumed : List UInt8
deriving DecidableEq

/-- `Stream`. -/
structure Stream extends Rx where
  id : Nat
  protocol : Transport
  sourceGroup : String
  lastActivity : Int
  once : Once
  done : Bool
  rxClosed : Bool
  txCloseOnce : Bool
  txClosed : Bool
  txCredit : Int
  txCreditCap : Int
  windowPending : Nat
  windowSending : Bool
  evicted : Bool
  opening : Opening
  txMu : TxHolder
  /-- `WriteDatagramContext` calls before their frame. -/
  datagrams : List (List UInt8)
  flusher : Flusher
  /-- `sendClose` calls before they have the mutex. -/
  sends : Nat
  /-- `closeTunnel` calls before their `removeStream`. -/
  sweeps : Nat
  /-- `Close` and `closeTunnel` calls before their `closeRead(true)`. -/
  discards : Nat
  /-- How many frames the connection had read when the stream was made. -/
  born : Nat
  /-- The `WriteContext` calls, the last one first. -/
  writes : List WriteCall
  delivered : List Signal
  written : List Signal
  tearing : Bool
  torn : Bool
deriving DecidableEq

/-- The window `configureTransport` starts a stream with. -/
def initialCredit (cfg : Config) (transport : Transport) : Int :=
  if cfg.flowControl then
    match transport with
    | .tcp => tcpStreamReceiveQueueByteSize
    | .udp => udpStreamReceiveQueueByteSize
  else 0

/-- `newStream` and `configureTransport`. -/
def newStream (cfg : Config) (id : Nat) (transport : Transport) (group : String) (now : Int)
    (opening : Opening) (born : Nat) : Stream where
  rxBuf := []
  rxBufSize := 0
  rxQueue := []
  rxQueued := 0
  rxFrames := 0
  consumed := []
  id := id
  protocol := transport
  sourceGroup := group
  lastActivity := now
  once := .fresh
  done := false
  rxClosed := false
  txCloseOnce := false
  txClosed := false
  txCredit := initialCredit cfg transport
  txCreditCap := initialCredit cfg transport
  windowPending := 0
  windowSending := false
  evicted := false
  opening := opening
  txMu := .free
  datagrams := []
  flusher := .off
  sends := 0
  sweeps := 0
  discards := 0
  born := born
  writes := []
  delivered := []
  written := []
  tearing := false
  torn := false

namespace Stream

/-! ## receiving -/

/-- `queuePayload`, when it returns true. -/
def queuePayload (cfg : Config) (b : Budget) (s : Stream) (payload : List UInt8)
    (byteLimit frameLimit now : Int) : Option (Stream × Budget) :=
  if s.rxClosed ∨ (payload.length : Int) > byteLimit - s.rxQueued ∨ s.rxFrames ≥ frameLimit then
    none
  else
    (b.reserveReceive cfg payload.length (s.rxQueued + payload.length) (s.rxFrames + 1)).map
      fun b' =>
        ({ s with
            rxQueue := s.rxQueue ++ [payload]
            rxQueued := s.rxQueued + payload.length
            rxFrames := s.rxFrames + 1
            lastActivity := now }, b')

/-- `queueTCPPayload`. -/
def queueTCPPayload (cfg : Config) (b : Budget) (s : Stream) (payload : List UInt8) (now : Int) :
    Option (Stream × Budget) :=
  if cfg.flowControl then
    s.queuePayload cfg b payload tcpStreamReceiveQueueByteSize tcpStreamReceiveQueueFrameSize now
  else
    s.queuePayload cfg b payload legacyTCPReceiveQueueByteSize legacyTCPReceiveQueueFrameSize now

/-- `queueUDPPayload`. -/
def queueUDPPayload (cfg : Config) (b : Budget) (s : Stream) (payload : List UInt8) (now : Int) :
    Option (Stream × Budget) :=
  s.queuePayload cfg b payload udpStreamReceiveQueueByteSize udpStreamReceiveQueueFrameSize now

/-- A conversion to `uint32`. -/
def uint32 (n : Int) : Nat := (n % 2 ^ 32).toNat

/-- `returnCredit`; the goroutine it starts is `flusher`. -/
def returnCredit (cfg : Config) (s : Stream) (credit : Nat) : Stream :=
  if cfg.flowControl = false ∨ credit = 0 ∨ s.done then s
  else if s.windowSending then
    { s with windowPending := (s.windowPending + credit) % 2 ^ 32 }
  else
    { s with
        windowPending := (s.windowPending + credit) % 2 ^ 32
        windowSending := true
        flusher := .take }

/-- What a read call returns, or that it waits. -/
inductive ReadResult where
  | bytes (payload : List UInt8)
  | shortBuffer
  | eof
  | streamEvicted
  | wait
deriving DecidableEq

/-- `closedReadError`. -/
def closedReadError (s : Stream) : ReadResult := if s.evicted then .streamEvicted else .eof

/-- The inner loop of `Read` over the queue: the next frame that is not empty
moves to `rxBuf`. -/
def popFrames (rx : Rx) (b : Budget) : List (List UInt8) → Rx × Budget
  | [] => (rx, b)
  | payload :: rest =>
      if payload = [] then
        popFrames { rx with rxBufSize := 0, rxQueue := rest, rxFrames := rx.rxFrames - 1 }
          (b.releaseReceive 0 1) rest
      else ({ rx with rxBuf := payload, rxBufSize := payload.length, rxQueue := rest }, b)

/-- The inner loop of `Read`. -/
def nextFrame (rx : Rx) (b : Budget) : Rx × Budget :=
  if rx.rxBuf = [] then popFrames rx b rx.rxQueue else (rx, b)

/-- `Read` into a buffer of `n` bytes, one pass of its outer loop. -/
def read (cfg : Config) (b : Budget) (s : Stream) (n : Nat) : ReadResult × Stream × Budget :=
  let (rx, b) := nextFrame s.toRx b
  let s := { s with toRx := rx }
  if s.rxBuf ≠ [] then
    let copied := s.rxBuf.take n
    let s := { s with rxBuf := s.rxBuf.drop n, consumed := s.consumed ++ copied }
    if s.rxBuf = [] then
      let released := s.rxBufSize
      let s := { s with
        rxBufSize := 0
        rxQueued := s.rxQueued - released
        rxFrames := s.rxFrames - 1 }
      (.bytes copied, s.returnCredit cfg (uint32 released), b.releaseReceive released 1)
    else (.bytes copied, s, b)
  else if s.rxClosed then (s.closedReadError, s, b)
  else (.wait, s, b)

/-- `ReadDatagram` into a buffer of `n` bytes, one pass of its loop. -/
def readDatagram (cfg : Config) (b : Budget) (s : Stream) (n : Nat) :
    ReadResult × Stream × Budget :=
  match s.rxQueue with
  | payload :: rest =>
      let s := { s with
        rxQueue := rest
        rxQueued := s.rxQueued - payload.length
        rxFrames := s.rxFrames - 1 }
      (if payload.length > n then .shortBuffer else .bytes payload,
        s.returnCredit cfg (uint32 payload.length), b.releaseReceive payload.length 1)
  | [] => if s.rxClosed then (s.closedReadError, s, b) else (.wait, s, b)

/-- `closeRead`. -/
def closeRead (b : Budget) (s : Stream) (discard : Bool) : Stream × Budget :=
  if discard ∧ s.rxFrames > 0 then
    ({ s with
        rxClosed := true
        rxBuf := []
        rxBufSize := 0
        rxQueue := []
        rxQueued := 0
        rxFrames := 0 }, b.releaseReceive s.rxQueued s.rxFrames)
  else ({ s with rxClosed := true }, b)

/-! ## sending -/

/-- `takeSendCredit`, when it does not wait. -/
def takeSendCredit (s : Stream) (want : Nat) (exact : Bool) : Option (Nat × Stream) :=
  if s.txCredit > 0 ∧ (exact = false ∨ s.txCredit ≥ want) then
    let n := if (want : Int) > s.txCredit then s.txCredit.toNat else want
    some (n, { s with txCredit := s.txCredit - n })
  else none

/-- `addSendCredit`, when it returns true. -/
def addSendCredit (s : Stream) (credit : Nat) : Option Stream :=
  if s.txClosed then some s
  else if (credit : Int) > s.txCreditCap - s.txCredit then none
  else some { s with txCredit := s.txCredit + credit }

/-- `written += n` of the last `WriteContext` call. -/
def addWritten (n : Nat) : List WriteCall → List WriteCall
  | [] => []
  | call :: calls => { call with written := call.written + n } :: calls

/-- The bytes `WriteContext` has accepted: of each call the first `written`. -/
def accepted (s : Stream) : List UInt8 :=
  s.writes.reverse.flatMap fun call => call.p.take call.written

/-- The frame is on the wire. -/
def emit (s : Stream) (frame : Signal) : Stream := { s with written := s.written ++ [frame] }

/-! ## closing -/

/-- `closeOnce.Do`: the first caller starts the body, a later one returns when
the body is done. -/
def enter (s : Stream) (closer : Closer) : Option (Stream × Bool) :=
  match s.once with
  | .fresh =>
      some ({ s with
        once := .running closer .remove
        tearing := s.tearing || decide (closer ≠ .peer) }, false)
  | .running _ _ => none
  | .finished _ => some ({ s with tearing := s.tearing || decide (closer ≠ .peer) }, true)

/-- What a section of a goroutine does: the stream, the budget, the frame it
writes and whether it removes the stream's identifier from the table. -/
structure Effect where
  stream : Stream
  budget : Budget
  frame : Option Signal := none
  remove : Bool := false

/-- The next statement of the body of `closeOnce`. -/
def onceStep (b : Budget) (s : Stream) : Option Effect :=
  match s.once with
  | .running closer .remove =>
      some { stream := { s with once := .running closer .txClosed }, budget := b,
             remove := closer ≠ .peer }
  | .running closer .txClosed =>
      some { stream := { s with txClosed := true, once := .running closer .done }, budget := b }
  | .running closer .done =>
      some { stream := { s with done := true, once := .running closer .closeRead }, budget := b }
  | .running closer .closeRead =>
      let (t, b') := s.closeRead b (closer ≠ .peer)
      some { stream := { t with
               once := .finished closer
               -- `Close` and `abort` go on with `sendClose`.
               sends := if closer = .user ∨ closer = .abort then t.sends + 1 else t.sends
               torn := t.torn || closer ≠ .peer }, budget := b' }
  | _ => none

/-- `Close`. -/
def closeStep (b : Budget) (s : Stream) : Option Effect :=
  (s.enter .user).map fun (t, returned) =>
    if returned then
      { stream := { t with discards := t.discards + 1 }, budget := b, remove := true }
    else { stream := t, budget := b }

/-! ## one section of a goroutine -/

/-- The goroutines that use a stream, but for the read loop and `OpenStream`. -/
inductive Act where
  /-- `WriteContext` gets the mutex. -/
  | write (payload : List UInt8)
  | writeCheck
  | writeTake
  /-- The context ends, or the stream closes, while the call waits for credit. -/
  | writeGiveUp
  | writeFrame (now : Int)
  /-- `CloseWrite` gets the mutex. -/
  | closeWrite
  | closeWriteFrame
  /-- `sendClose` gets the mutex. -/
  | sendClose
  | closeFrame
  | writeDatagram (payload : List UInt8)
  | datagramFrame (i : Nat) (now : Int)
  | flushTake
  | flushFrame
  | read (n : Nat)
  | readDatagram (n : Nat)
  | close
  /-- The next statement of the body of `closeOnce`. -/
  | once
  /-- `closeTunnel`. -/
  | sweep
  /-- `closeRead(true)` of `Close` or `closeTunnel`. -/
  | discard
  /-- `WriteFrame` fails for the holder of `txMu`. -/
  | failWrite
  | failDatagram (i : Nat)
  | failFlush
deriving DecidableEq

/-- One section; `none` when the goroutine is not there or has to wait.  Frames
are written while the connection is not closed, and fail afterwards. -/
def act (cfg : Config) (closed : Bool) (b : Budget) (s : Stream) : Act → Option Effect
  | .write payload =>
      if s.protocol = .tcp ∧ s.opening = .opened ∧ s.txMu = .free then
        some { stream := if s.txClosed then s else { s with
                 txMu := .loop payload
                 writes := ⟨payload, 0⟩ :: s.writes }, budget := b }
      else none
  | .writeCheck =>
      match s.txMu with
      | .loop rest =>
          if rest = [] ∨ s.txClosed then some { stream := { s with txMu := .free }, budget := b }
          else some { stream := { s with txMu := .want rest }, budget := b }
      | _ => none
  | .writeTake =>
      match s.txMu with
      | .want rest =>
          let n := min rest.length maxDataPayloadSize
          if cfg.flowControl then
            (s.takeSendCredit n false).map fun (n, t) =>
              { stream := { t with txMu := .frame n rest }, budget := b }
          else some { stream := { s with txMu := .frame n rest }, budget := b }
      | _ => none
  | .writeGiveUp =>
      match s.txMu with
      | .want rest =>
          if cfg.flowControl ∧
              s.takeSendCredit (min rest.length maxDataPayloadSize) false = none then
            some { stream := { s with txMu := .free }, budget := b }
          else none
      | _ => none
  | .writeFrame now =>
      match s.txMu with
      | .frame n rest =>
          if closed then none
          else
            some { stream := ({ s with
                     txMu := .loop (rest.drop n)
                     writes := addWritten n s.writes
                     lastActivity := now }).emit (.data (rest.take n)), budget := b,
                   frame := some (.data (rest.take n)) }
      | _ => none
  | .closeWrite =>
      if s.protocol = .tcp ∧ s.opening = .opened then
        if cfg.halfClose = false then s.closeStep b
        else if s.txMu = .free then
          if s.done ∨ s.txCloseOnce then some { stream := s, budget := b }
          else
            some { stream := { s with
                     txCloseOnce := true
                     txClosed := true
                     txMu := .closeWrite }, budget := b }
        else none
      else none
  | .closeWriteFrame =>
      if s.txMu = .closeWrite ∧ closed = false then
        some { stream := ({ s with txMu := .free }).emit .closeWrite, budget := b,
               frame := some .closeWrite }
      else none
  | .sendClose =>
      if s.sends > 0 ∧ s.txMu = .free then
        some { stream := { s with sends := s.sends - 1, txMu := .close }, budget := b }
      else none
  | .closeFrame =>
      if s.txMu = .close ∧ closed = false then
        some { stream := ({ s with txMu := .free }).emit .close, budget := b,
               frame := some .close }
      else none
  | .writeDatagram payload =>
      if s.protocol = .udp ∧ s.opening = .opened ∧ payload.length ≤ maxDatagramPayloadSize then
        if cfg.flowControl then
          (s.takeSendCredit payload.length true).map fun (_, t) =>
            { stream := { t with datagrams := t.datagrams ++ [payload] }, budget := b }
        else some { stream := { s with datagrams := s.datagrams ++ [payload] }, budget := b }
      else none
  | .datagramFrame i now =>
      match s.datagrams[i]? with
      | some payload =>
          if closed then none
          else
            some { stream := ({ s with
                     datagrams := s.datagrams.eraseIdx i
                     lastActivity := now }).emit (.datagram payload), budget := b,
                   frame := some (.datagram payload) }
      | none => none
  | .flushTake =>
      if s.flusher = .take then
        if s.windowPending = 0 then
          some { stream := { s with windowSending := false, flusher := .off }, budget := b }
        else
          some { stream := { s with windowPending := 0, flusher := .frame s.windowPending },
                 budget := b }
      else none
  | .flushFrame =>
      match s.flusher with
      | .frame credit =>
          if closed then none
          else
            some { stream := ({ s with flusher := .take }).emit (.windowUpdate credit),
                   budget := b, frame := some (.windowUpdate credit) }
      | _ => none
  | .read n =>
      if s.protocol = .tcp ∧ s.opening = .opened then
        let (_, t, b') := s.read cfg b n
        some { stream := t, budget := b' }
      else none
  | .readDatagram n =>
      if s.protocol = .udp ∧ s.opening = .opened then
        let (_, t, b') := s.readDatagram cfg b n
        some { stream := t, budget := b' }
      else none
  | .close => if s.opening = .opened then s.closeStep b else none
  | .once => s.onceStep b
  | .sweep =>
      if s.sweeps > 0 then
        (s.enter .tunnel).map fun (t, returned) =>
          if returned then
            { stream := { t with sweeps := t.sweeps - 1, discards := t.discards + 1 },
              budget := b, remove := true }
          else { stream := t, budget := b }
      else none
  | .discard =>
      if s.discards > 0 then
        let (t, b') := s.closeRead b true
        some { stream := { t with discards := t.discards - 1, torn := true }, budget := b' }
      else none
  | .failWrite =>
      if closed then
        match s.txMu with
        | .frame _ _ | .closeWrite | .close =>
            some { stream := { s with txMu := .free }, budget := b }
        | _ => none
      else none
  | .failDatagram i =>
      if closed ∧ i < s.datagrams.length then
        some { stream := { s with datagrams := s.datagrams.eraseIdx i }, budget := b }
      else none
  | .failFlush =>
      match s.flusher with
      | .frame _ =>
          if closed then some { stream := { s with flusher := .off }, budget := b } else none
      | _ => none

/-! ## one section of the read loop -/

/-- What `Run` still has to do for a frame whose stream it has looked up. -/
inductive Todo where
  | deliver (frame : Signal)
  /-- `returnCredit` for a datagram the queue refused. -/
  | drop (n : Nat)
  | abort
  | closeRX
deriving DecidableEq

/-- `Run` decides to abort the stream. -/
def misuse (b : Budget) (s : Stream) : Stream × Budget × Option Todo := (s, b, some .abort)

/-- One section of `Run` on the stream, and what is left to do. -/
def handle (cfg : Config) (b : Budget) (s : Stream) (now : Int) :
    Todo → Option (Stream × Budget × Option Todo)
  | .deliver (.data payload) =>
      if s.protocol ≠ .tcp ∨ s.rxClosed then some (s.misuse b)
      else match s.queueTCPPayload cfg b payload now with
        | some (t, b') => some (t, b', none)
        | none => some (s.misuse b)
  | .deliver (.datagram payload) =>
      if s.protocol ≠ .udp then some (s.misuse b)
      else match s.queueUDPPayload cfg b payload now with
        | some (t, b') => some (t, b', none)
        | none => some (s, b, some (.drop payload.length))
  | .deliver (.windowUpdate credit) =>
      if credit = 0 ∨ credit > maxWindowUpdate then some (s.misuse b)
      else match s.addSendCredit credit with
        | some t => some (t, b, none)
        | none => some (s.misuse b)
  | .deliver .closeWrite =>
      let (t, b') := s.closeRead b false
      some (t, b', none)
  | .deliver .close => some (s, b, some .closeRX)
  | .deliver (.opening _) => none
  | .drop n => some (s.returnCredit cfg (uint32 n), b, none)
  | .abort =>
      (s.enter .abort).map fun (t, returned) =>
        if returned then ({ t with torn := true }, b, none) else (t, b, some .abort)
  | .closeRX =>
      (s.enter .peer).map fun (t, returned) =>
        (t, b, if returned then none else some .closeRX)

end Stream

end Tunnel

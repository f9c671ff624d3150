import Blindport.Conc.Machine
import Blindport.Tunnel.Stream

/-!
# Blindport.Tunnel.Conn

`internal/tunnel/tunnel.go`, one `Conn`: the table of streams, `OpenStream` with
eviction, the read loop and the shutdown.

`streams` holds every stream ever made, at the index that stands for its pointer;
`table` is the map from identifiers to the registered ones.  A step is one
critical section of one goroutine, so a run is any interleaving of them.  The
frames the peer sends are arbitrary.

`input` and `output` are history: the frames `Run` has read and the frames
written, in order.
-/

namespace Tunnel

/-- The frames a `Conn` reads or writes after the handshake. -/
inductive Frame where
  | stream (id : Nat) (signal : Signal)
  | ping
  | pong
  | other
deriving DecidableEq

/-- Why `Run` returns. -/
inductive StopReason where
  | readFailed
  | payloadTooLarge
  | outboundOnly
  | unsupportedProtocol
  | zeroStreamID
  | duplicateStreamID
  | streamLimit
  | zeroStreamClose
  | unnegotiatedCloseWrite
  | zeroStreamCloseWrite
  | closeWriteNonTCP
  | unnegotiatedWindowUpdate
  | zeroStreamWindowUpdate
  | unexpectedFrame
deriving DecidableEq

/-- The goroutine in `Run`. -/
inductive Reader where
  | idle
  | busy (handle : Nat) (todo : Stream.Todo)
  | stopped (reason : StopReason)
deriving DecidableEq

/-- `Conn`. -/
structure Conn where
  streams : List Stream
  table : List (Nat × Nat)
  budget : Budget
  nextID : Nat
  closed : Bool
  reader : Reader
  input : List Frame
  output : List Frame

/-- `newConn`. -/
def newConn : Conn where
  streams := []
  table := []
  budget := ⟨0, 0⟩
  nextID := 0
  closed := false
  reader := .idle
  input := []
  output := []

/-- The relay's end of a tunnel that selected both extensions; `minIdle` is in
nanoseconds. -/
def relayConfig (maxStreams : Nat) (minIdle : Int) : Config where
  maxStreams := maxStreams
  accepts := false
  evictIdle := minIdle
  halfClose := true
  flowControl := true

/-- The agent's end. -/
def agentConfig : Config where
  maxStreams := maxConcurrentStreams
  accepts := true
  evictIdle := 0
  halfClose := true
  flowControl := true

namespace Conn

/-- `getStream`. -/
def getStream (c : Conn) (id : Nat) : Option Nat := c.table.lookup id

/-- What `Run` still has to do for the stream at `i`. -/
def todo (c : Conn) (i : Nat) : Option Stream.Todo :=
  match c.reader with
  | .busy k todo => if k = i then some todo else none
  | _ => none

/-- `removeStream`. -/
def removeStream (c : Conn) (id : Nat) : Conn :=
  { c with table := c.table.filter (·.1 ≠ id) }

/-- The streams in the table. -/
def registered (c : Conn) : List Stream := c.table.filterMap fun entry => c.streams[entry.2]?

/-! ## eviction -/

/-- `counts` of `evictionVictimLocked`. -/
def groupCount (c : Conn) (group : String) : Nat :=
  (c.registered.filter (·.sourceGroup = group)).length

/-- The stream has not been active for `evictIdle`. -/
def idleAt (cfg : Config) (now : Int) (s : Stream) : Bool :=
  s.lastActivity ≤ now - cfg.evictIdle

/-- `evictionVictimLocked` can return `v`: the least recently active of the idle
streams, and else the least recently active one of a heaviest group that holds at
least two more than the requester's.  Equal candidates come in the order of a Go
map. -/
def evictionVictim (cfg : Config) (c : Conn) (requester : String) (now : Int) (v : Stream) :
    Bool :=
  if c.registered.any (idleAt cfg now) then
    idleAt cfg now v ∧
      ∀ t ∈ c.registered, idleAt cfg now t → v.lastActivity ≤ t.lastActivity
  else
    (∀ t ∈ c.registered, c.groupCount t.sourceGroup ≤ c.groupCount v.sourceGroup) ∧
      v.sourceGroup ≠ requester ∧
      c.groupCount requester + 2 ≤ c.groupCount v.sourceGroup ∧
      ∀ t ∈ c.registered, t.sourceGroup = v.sourceGroup → v.lastActivity ≤ t.lastActivity

/-- The victim of an `OpenStream` is one the policy allows, and none when the
policy has none.  Below the limit, or without eviction, there is no victim. -/
def victimAllowed (cfg : Config) (c : Conn) (group : String) (now : Int)
    (victim : Option Nat) : Bool :=
  if c.table.length ≥ cfg.maxStreams ∧ cfg.evictIdle > 0 then
    match victim with
    | some v => match c.streams[v]? with
        | some s => (s.id, v) ∈ c.table ∧ c.evictionVictim cfg group now s
        | none => false
    | none => c.registered.all fun s => c.evictionVictim cfg group now s = false
  else victim = none

/-! ## inserting -/

/-- `insertStream` of a new stream; the victim leaves the table. -/
def insertStream (cfg : Config) (c : Conn) (s : Stream) (evict : Bool) (victim : Option Nat) :
    Except StopReason Conn :=
  if s.id = 0 then .error .zeroStreamID
  else if (c.getStream s.id).isSome then .error .duplicateStreamID
  else
    let insert (c : Conn) : Conn :=
      { c with streams := c.streams ++ [s], table := (s.id, c.streams.length) :: c.table }
    if c.table.length ≥ cfg.maxStreams then
      if evict then
        match victim.bind fun v => c.streams[v]? with
        | some v => .ok (insert (c.removeStream v.id))
        | none => .error .streamLimit
      else .error .streamLimit
    else .ok (insert c)

/-! ## steps -/

/-- What can happen next on a connection. -/
inductive Event where
  /-- `OpenStream` up to `insertStream`. -/
  | openStream (protocol : Transport) (group : String) (now : Int) (victim : Option Nat)
  /-- The next statement of the `OpenStream` call that made the stream. -/
  | opening (handle : Nat)
  /-- `WriteFrame` of the OPEN fails. -/
  | openingFails (handle : Nat)
  | act (handle : Nat) (a : Stream.Act)
  /-- `Run` reads a frame and looks its stream up. -/
  | receive (frame : Frame) (now : Int)
  | receiveFails
  /-- `Run` goes on with the frame it has. -/
  | handle (now : Int)
  | close
  | closeStreams
deriving DecidableEq

/-- Replaces one stream. -/
def setStream (c : Conn) (handle : Nat) (s : Stream) : Conn :=
  { c with streams := c.streams.set handle s }

/-- Applies what a section of a goroutine did. -/
def apply (c : Conn) (handle : Nat) (e : Stream.Effect) : Conn :=
  let c := { c with
    streams := c.streams.set handle e.stream
    budget := e.budget
    output := c.output ++ (e.frame.map (Frame.stream e.stream.id)).toList }
  if e.remove then c.removeStream e.stream.id else c

/-- The next statement of `OpenStreamWithDestinationAddress` after the insertion. -/
def openingStep (c : Conn) (handle : Nat) : Option Conn :=
  (c.streams[handle]?).bind fun s =>
    match s.opening with
    | .evicting victim =>
        (c.streams[victim]?).map fun v =>
          (c.setStream victim { v with evicted := true }).setStream handle
            { s with opening := .aborting victim }
    | .aborting victim =>
        (c.streams[victim]?).bind fun v =>
          (v.enter .abort).map fun (v', returned) =>
            if returned then
              (c.setStream victim { v' with torn := true }).setStream handle
                { s with opening := .writing }
            else c.setStream victim v'
    | .writing =>
        if c.closed then none
        else
          some { c.setStream handle (({ s with opening := .opened }).emit
              (.opening (some s.protocol))) with
            output := c.output ++ [.stream s.id (.opening (some s.protocol))] }
    | .opened | .failed => none

/-- Ends `Run`. -/
def stop (c : Conn) (reason : StopReason) : Conn := { c with reader := .stopped reason }

/-- `Run` looks the stream of a frame up and goes on with it, or drops the frame. -/
def route (c : Conn) (id : Nat) (signal : Signal) : Conn :=
  match c.getStream id with
  | some handle =>
      { c with
        reader := .busy handle (.deliver signal)
        streams := c.streams.modify handle fun s =>
          { s with delivered := s.delivered ++ [signal] } }
  | none => c

/-- `ReadFrame` refuses the frame for its payload. -/
def tooLarge : Frame → Bool
  | .stream _ (.data payload) => payload.length > maxDataPayloadSize
  | .stream _ (.datagram payload) => payload.length > maxDatagramPayloadSize
  | _ => false

/-- `Run` up to the point where it has the stream of a frame. -/
def dispatch (cfg : Config) (c : Conn) (now : Int) : Frame → Conn
  | .stream id (.opening protocol) =>
      if cfg.accepts = false then c.stop .outboundOnly
      else match protocol with
        | none => c.stop .unsupportedProtocol
        | some protocol =>
            match c.insertStream cfg (newStream cfg id protocol "" now .opened c.input.length)
                false none with
            | .ok c => c
            | .error reason => c.stop reason
  | .stream id (.data payload) => c.route id (.data payload)
  | .stream id (.datagram payload) => c.route id (.datagram payload)
  | .stream id .close =>
      if id = 0 then c.stop .zeroStreamClose else c.route id .close
  | .stream id .closeWrite =>
      if cfg.halfClose = false then c.stop .unnegotiatedCloseWrite
      else if id = 0 then c.stop .zeroStreamCloseWrite
      else match (c.getStream id).bind (c.streams[·]?) with
        | some s => if s.protocol ≠ .tcp then c.stop .closeWriteNonTCP else c.route id .closeWrite
        | none => c
  | .stream id (.windowUpdate credit) =>
      if cfg.flowControl = false then c.stop .unnegotiatedWindowUpdate
      else if id = 0 then c.stop .zeroStreamWindowUpdate
      else c.route id (.windowUpdate credit)
  | .ping => { c with output := c.output ++ [.pong] }
  | .pong => c
  | .other => c.stop .unexpectedFrame

/-- `closeStreams` empties the table; `closeTunnel` of each stream follows. -/
def closeStreams (c : Conn) : Conn :=
  { c with
    table := []
    streams := c.streams.mapIdx fun i s =>
      if c.table.any (·.2 = i) then { s with sweeps := s.sweeps + 1 } else s }

/-- One step; `none` when it cannot happen. -/
def step (cfg : Config) (c : Conn) : Event → Option Conn
  | .openStream protocol group now victim =>
      let id := (c.nextID + 1) % 2 ^ 32
      let opening := match victim with
        | some v => .evicting v
        | none => .writing
      if c.victimAllowed cfg group now victim then
        match ({ c with nextID := id }).insertStream cfg
            (newStream cfg id protocol group now opening c.input.length) (cfg.evictIdle > 0)
            victim with
        | .ok c => some c
        | .error _ => some { c with nextID := id }
      else none
  | .opening handle => c.openingStep handle
  | .openingFails handle =>
      (c.streams[handle]?).bind fun s =>
        if s.opening = .writing ∧ c.closed then
          some ((c.setStream handle { s with opening := .failed }).removeStream s.id)
        else none
  | .act handle a =>
      (c.streams[handle]?).bind fun s =>
        (s.act cfg c.closed c.budget a).map (c.apply handle)
  | .receive frame now =>
      if c.reader = .idle ∧ c.closed = false then
        if tooLarge frame then some (c.stop .payloadTooLarge)
        else some (({ c with input := c.input ++ [frame] }).dispatch cfg now frame)
      else none
  | .receiveFails => if c.reader = .idle then some (c.stop .readFailed) else none
  | .handle now =>
      match c.reader with
      | .busy handle todo =>
          (c.streams[handle]?).bind fun s =>
            (s.handle cfg c.budget now todo).map fun (t, b, rest) =>
              { c.setStream handle t with
                budget := b
                reader := match rest with
                  | some todo => .busy handle todo
                  | none => .idle }
      | _ => none
  | .close => if c.closed then none else some { c with closed := true }
  | .closeStreams => if c.closed then some c.closeStreams else none

/-- A run of events, in any order. -/
def run (cfg : Config) (c : Conn) (es : List Event) : Option Conn := Conc.exec (step cfg) c es

end Conn

end Tunnel

import SchemaRpc.Proofs.Transport.Runs
import SchemaRpc.Session

namespace SchemaRpc

def Frame.isRequest (f : Frame) : Bool :=
  match f.kind with
  | .ok .request => true
  | _ => false

inductive Session.Step (s : Session) : Session → Prop
  | register (style : Style) (path : MethodPath) (request : Bytes) :
      Step s (s.register style path.route request)
  | post (k now : Nat) : Step s (s.post k now)
  | resumeSending (k now : Nat) : Step s (s.resumeSending k now)
  | resume (k : Nat) : Step s (s.resume k)
  | dropReceiver (k : Nat) (c : Call) (found : s.calls[k]? = some c) (held : c.stage = .streaming) :
      Step s (s.dropReceiver k)
  /-- The receiver of a stream goes before its guard. -/
  | dropGuard (k : Nat) (c : Call) (found : s.calls[k]? = some c) (held : c.stage = .streaming)
      (unheard : c.isHeard = false) : Step s (s.dropGuard k)
  | drop (k : Nat) : Step s (s.drop k)
  | close : Step s s.close
  | abandon : Step s s.abandon
  | endInput : Step s s.endInput

abbrev Takings := List (Nat × Except Error Bytes)

def Takings.of (taken : Takings) (k : Nat) : List (Except Error Bytes) :=
  (taken.filter fun entry => entry.1 == k).map (·.2)

structure Network where
  session : Session
  connection : Connection
  arrived : List Frame
  landed : List Frame
  sent : List Frame
  replied : List Frame
  handled : List Frame
  routed : List Frame
  runs : List Run
  taken : Takings

namespace Network

def start (limit : UInt32) (requests replies : Outlet) : Network :=
  ⟨.start requests, .empty limit replies, [], [], [], [], [], [], [], []⟩

def withSession (n : Network) (s : Session) : Network :=
  { n with
    session := s
    sent := n.sent ++ s.outbox.queue.drop n.session.outbox.queue.length }

def withConnection (n : Network) (c : Connection) : Network :=
  { n with
    connection := c
    replied := n.replied ++ c.outbox.queue.drop n.connection.outbox.queue.length }

def withRequests (n : Network) (o : Outlet) : Network :=
  { n with session := { n.session with outlet := o } }

def withReplies (n : Network) (o : Outlet) : Network :=
  { n with connection := { n.connection with outlet := o } }

def serverReads (n : Network) (size : Nat) : Network :=
  let (pipe, data) := n.session.outlet.pipe.read size
  let (connection, frames) := n.connection.read data
  { n.withRequests { n.session.outlet with pipe := pipe } with
    connection := connection
    arrived := n.arrived ++ frames }

def sessionReads (n : Network) (size : Nat) : Network :=
  let (pipe, data) := n.connection.outlet.pipe.read size
  let (session, frames) := n.session.read data
  { n.withReplies { n.connection.outlet with pipe := pipe } with
    session := session
    landed := n.landed ++ frames }

def dispatch (n : Network) (router : Router) (free : Nat) (f : Frame) (rest : List Frame) : Network :=
  { n with
    connection := (n.connection.dispatch router free f).1
    arrived := rest
    handled := n.handled ++ [f]
    runs := if f.isRequest then n.runs ++ [⟨router, free, f⟩] else n.runs }

def route (n : Network) (f : Frame) (rest : List Frame) : Network :=
  { n with
    session := n.session.route f
    landed := rest
    routed := n.routed ++ [f] }

/-- One step of anyone. Permits may be taken and set free by others as well, so that any number of
them may be free; a handler may answer the same request differently each time. -/
inductive Step (routers : Nat → Router) (n : Network) : Network → Prop
  | session {s : Session} (step : n.session.Step s) : Step routers n (n.withSession s)
  | next {s : Session} {c : Call} {item : Except Error Bytes} (k : Nat)
      (found : n.session.calls[k]? = some c) (heard : c.isHeard = true)
      (took : n.session.next k = (s, .item item)) :
      Step routers n { n with session := s, taken := n.taken ++ [(k, item)] }
  | sessionWrites {o : Outlet} (step : n.session.outlet.advance? n.session.hasSenders = some o) :
      Step routers n (n.withRequests o)
  | serverReads (size : Nat) (serving : n.connection.isServing = true) :
      Step routers n (n.serverReads size)
  | dispatch {f : Frame} {rest : List Frame} (free : Nat) (next : n.arrived = f :: rest) :
      Step routers n (n.dispatch (routers n.runs.length) free f rest)
  | task (free k now : Nat) :
      Step routers n (n.withConnection (n.connection.runTask free k now).1)
  | finish (result : Except Error Unit) (serving : n.connection.isServing = true) :
      Step routers n { n with connection := n.connection.finish result }
  | serverWrites {o : Outlet}
      (step : n.connection.outlet.advance? n.connection.hasSenders = some o) :
      Step routers n (n.withReplies o)
  | sessionReads (size : Nat) (reading : n.session.isReading = true) :
      Step routers n (n.sessionReads size)
  | route {f : Frame} {rest : List Frame} (next : n.landed = f :: rest) :
      Step routers n (n.route f rest)
  | serverHangsUp :
      Step routers n (n.withRequests { n.session.outlet with pipe := n.session.outlet.pipe.hangUp })
  | sessionHangsUp :
      Step routers n
        (n.withReplies { n.connection.outlet with pipe := n.connection.outlet.pipe.hangUp })

inductive Reachable (routers : Nat → Router) (limit : UInt32) : Network → Prop
  | start (room patience size room' patience' size' : Nat) :
      Reachable routers limit (start limit (.empty (.empty room patience) (.empty size))
        (.empty (.empty room' patience') (.empty size')))
  | step {n next : Network} (h : Reachable routers limit n) (step : n.Step routers next) :
      Reachable routers limit next

def runsOf (n : Network) (id : UInt32) : List Run :=
  n.runs.filter fun run => run.frame.id == id

end Network

end SchemaRpc

import SchemaRpc.Assoc
import SchemaRpc.Frame.Buffer
import SchemaRpc.Frame.Route
import SchemaRpc.Outlet
import SchemaRpc.Router

/-!
The serving side of a connection. Requests become tasks, each with the replies that its handler
gives; tasks send their replies one by one, in any order among each other, and end with their last
one. A task that has been aborted keeps its permit, and its place in line, until it is dropped.
-/
namespace SchemaRpc

inductive Task.Stage where
  | active
  | waiting (reply : Reply)
  | idle
  | aborted
  | ended
deriving DecidableEq, Repr

structure Task where
  id : UInt32
  rest : List Reply
  finishes : Bool
  stage : Task.Stage
  hasPermit : Bool
  failure : Option Error
deriving DecidableEq, Repr

namespace Task

def refusal (id : UInt32) (s : Status) : Task :=
  ⟨id, [.failure s], true, .active, false, none⟩

def ofAnswer (id : UInt32) (a : Answer) : Task :=
  ⟨id, a.replies, a.last.isSome, .active, true, none⟩

def isLive (t : Task) : Bool :=
  match t.stage with
  | .ended => false
  | _ => true

def isRunning (t : Task) : Bool :=
  match t.stage with
  | .active | .waiting _ | .idle => true
  | .aborted | .ended => false

def abort (t : Task) : Task :=
  if t.isLive then { t with stage := .aborted } else t

def refused (t : Task) (reply : Reply) (e : Error) : Task :=
  { t with
    stage := .active
    finishes := true
    rest := if reply.isFinal then [] else [.failure e.toStatus]
    failure := if reply.isFinal then some e else none }

def told (t : Task) (reply : Reply) : Except Error Unit → Task
  | .ok () => { t with stage := .active }
  | .error e => t.refused reply e

def isAtWork (t : Task) : Bool :=
  match t.stage with
  | .active | .aborted => true
  | .waiting _ | .idle | .ended => false

def permits (t : Task) : Nat :=
  if t.hasPermit then 1 else 0

end Task

structure Connection where
  incoming : FrameBuffer
  outlet : Outlet
  running : List (Nat × Nat)
  tasks : List Task
  result : Option (Except Error Unit)
deriving Repr, Inhabited

namespace Connection

def empty (limit : UInt32) (outlet : Outlet) : Connection :=
  ⟨.empty limit, outlet, [], [], none⟩

def isServing (c : Connection) : Bool := c.result.isNone

def outbox (c : Connection) : Outbox := c.outlet.outbox

def withOutbox (c : Connection) (outbox : Outbox) : Connection :=
  { c with outlet := { c.outlet with outbox := outbox } }

def modifyTask (c : Connection) (n : Nat) (f : Task → Task) : Connection :=
  { c with tasks := c.tasks.modify n f }

def spawn (c : Connection) (t : Task) : Connection :=
  { c with tasks := c.tasks ++ [t] }

def hasEnded (c : Connection) (n : Nat) : Bool :=
  !(c.tasks[n]?.any Task.isLive)

/-- Starts a task under its request id. A task that had the id goes on without it. -/
def start (c : Connection) (t : Task) : Connection :=
  { c.spawn t with running := Assoc.insert t.id.toNat c.tasks.length c.running }

def tidy (c : Connection) : Connection :=
  { c with running := c.running.filter fun entry => !c.hasEnded entry.2 }

def cancel (c : Connection) (id : UInt32) : Connection :=
  match Assoc.get? id.toNat c.running with
  | some n => { c.modifyTask n .abort with running := Assoc.erase id.toNat c.running }
  | none => c

def malformed (e : Error) : Status := .invalidArgument e.message

def exhausted : Status := .resourceExhausted "handler capacity reached"

def accept (c : Connection) (router : Router) (free : Nat) (f : Frame) : Connection × Nat :=
  match Route.split f.payload, free with
  | .error e, free => (c.tidy.spawn (.refusal f.id (malformed e)), free)
  | .ok _, 0 => (c.tidy.spawn (.refusal f.id exhausted), 0)
  | .ok (route, request), free + 1 =>
    (c.tidy.start (.ofAnswer f.id (router.answer route request)), free)

/-- Frames that a client has no business to send are passed over. -/
def dispatch (c : Connection) (router : Router) (free : Nat) (f : Frame) : Connection × Nat :=
  match f.kind with
  | .ok .request => c.accept router free f
  | .ok .cancel => (c.cancel f.id, free)
  | _ => (c, free)

def finish (c : Connection) (result : Except Error Unit) : Connection :=
  { c.running.foldl (fun c entry => c.modifyTask entry.2 .abort) c with
    running := []
    result := some result }

def read (c : Connection) (data : Bytes) : Connection × List Frame :=
  if c.isServing then
    match c.incoming.push data with
    | (buffer, .ok frames) => ({ c with incoming := buffer }, frames)
    | (buffer, .error e) => ({ c with incoming := buffer }.finish (.error e), [])
  else (c, [])

def endInput (c : Connection) : Connection :=
  if c.isServing then c.finish (.ok ()) else c

def endTask (c : Connection) (free n : Nat) (t : Task) : Connection × Nat :=
  (c.modifyTask n fun _ => { t with stage := .ended }, free + t.permits)

def goOn (c : Connection) (free n : Nat) (t : Task) : Connection × Nat :=
  if !t.rest.isEmpty then (c.modifyTask n fun _ => t, free)
  else if t.finishes then c.endTask free n t
  else (c.modifyTask n fun _ => { t with stage := .idle }, free)

def canRun (c : Connection) (n now : Nat) : Bool :=
  c.tasks[n]?.any Task.isAtWork || c.outbox.isAnswered n now

/-- One step of a task: it sends its next reply, or is told what became of the last one. An aborted
task is dropped. -/
def runTask (c : Connection) (free n now : Nat) : Connection × Nat :=
  match c.tasks[n]? with
  | none => (c, free)
  | some t =>
    match t.stage, t.rest with
    | .ended, _ | .idle, _ => (c, free)
    | .aborted, _ => (c.withOutbox (c.outbox.withdraw n)).endTask free n t
    | .waiting reply, _ =>
      match c.outbox.resume? n now with
      | none => (c, free)
      | some (result, outbox) => (c.withOutbox outbox).goOn free n (t.told reply result)
    | .active, [] => c.goOn free n t
    | .active, reply :: rest =>
      let (outbox, offer) := c.outbox.offer n (reply.frame t.id) now
      let c := c.withOutbox outbox
      match offer with
      | .queued => c.goOn free n { t with rest := rest }
      | .waits => (c.modifyTask n fun _ => { t with rest := rest, stage := .waiting reply }, free)
      | .refused e => c.goOn free n (t.refused reply e)

def hasSenders (c : Connection) : Bool :=
  c.isServing || c.tasks.any Task.isLive

end Connection

end SchemaRpc

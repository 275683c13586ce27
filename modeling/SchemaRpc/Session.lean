import SchemaRpc.Assoc
import SchemaRpc.Frame.Buffer
import SchemaRpc.Frame.Route
import SchemaRpc.Method
import SchemaRpc.Outlet
import SchemaRpc.Typed.Status

/-!
Sessions: the calling side of a connection, with any number of calls at a time. A table of pending
calls by request id says which call an incoming frame belongs to. Every operation here is one step
that nothing else interrupts; callers, the reader and the writer take such steps in any order.
-/
namespace SchemaRpc

inductive Call.Stage where
  | registered
  | sending
  | unsent (e : Error)
  | awaiting
  | streaming
  | returned (result : Except Error Bytes)
  | dropped
deriving Repr

structure Call where
  style : Style
  route : String
  request : Bytes
  id : UInt32
  stage : Call.Stage
  inbox : List (Except Error Bytes)
  isHeard : Bool
  isGuarded : Bool
deriving Repr

namespace Call

def rejected (style : Style) (route : String) (request : Bytes) : Call :=
  ⟨style, route, request, 0, .returned (.error .connectionClosed), [], false, false⟩

def new (style : Style) (route : String) (request : Bytes) (id : UInt32) : Call :=
  ⟨style, route, request, id, .registered, [], true, true⟩

def sent (c : Call) : Call :=
  { c with stage := match c.style with
      | .unary => .awaiting
      | .serverStreaming => .streaming }

def deliver (c : Call) (item : Except Error Bytes) : Call :=
  if c.isHeard then { c with inbox := c.inbox ++ [item] } else c

def frame (c : Call) : Frame :=
  .request c.id c.route c.request

def outcome? (c : Call) : Option (Except Error (Option Bytes)) :=
  match c.stage with
  | .streaming => some (.ok none)
  | .returned (.ok response) => some (.ok (some response))
  | .returned (.error e) => some (.error e)
  | _ => none

end Call

structure Session where
  isClosed : Bool
  nextId : UInt32
  pending : List (Nat × Nat)
  calls : List Call
  outlet : Outlet
  incoming : FrameBuffer
  isReading : Bool
  isOwned : Bool
deriving Repr

namespace Session

def start (outlet : Outlet) : Session :=
  ⟨false, 1, [], [], outlet, .empty FrameBuffer.defaultLimit, true, true⟩

def outbox (s : Session) : Outbox := s.outlet.outbox

def withOutbox (s : Session) (outbox : Outbox) : Session :=
  { s with outlet := { s.outlet with outbox := outbox } }

def modifyCall (s : Session) (n : Nat) (f : Call → Call) : Session :=
  { s with calls := s.calls.modify n f }

def isDead (s : Session) : Bool :=
  s.isClosed || !s.outbox.isOpen

def connect (s : Session) : Except Error Unit :=
  if s.isDead then .error .connectionClosed else .ok ()

def freshId? (taken : UInt32 → Bool) : Nat → UInt32 → Option UInt32
  | 0, _ => none
  | tries + 1, id => if id = 0 || taken id then freshId? taken tries (id + 1) else some id

def isTaken (s : Session) (id : UInt32) : Bool :=
  (Assoc.get? id.toNat s.pending).isSome

/-- A call gets an id and enters the table. With one try more than there are pending calls and the
reserved id a free one is found. If all ids are pending there is none, and no call comes about. -/
def register (s : Session) (style : Style) (route : String) (request : Bytes) : Session :=
  if s.isClosed then { s with calls := s.calls ++ [.rejected style route request] }
  else
    match freshId? s.isTaken (s.pending.length + 2) s.nextId with
    | none => s
    | some id =>
      { s with
        nextId := id + 1
        pending := Assoc.insert id.toNat s.calls.length s.pending
        calls := s.calls ++ [.new style route request id] }

def release (s : Session) (id : UInt32) : Session :=
  { s with pending := Assoc.erase id.toNat s.pending }

/-- A call gives its id back. If the id was still pending, the server is told to stop, provided
there is room for that. -/
def dropGuard (s : Session) (n : Nat) : Session :=
  match s.calls[n]? with
  | none => s
  | some c =>
    if !c.isGuarded then s
    else
      let s := s.modifyCall n fun c => { c with isGuarded := false }
      if s.isTaken c.id then
        (s.release c.id).withOutbox (s.outbox.post (.ofKind .cancel c.id [])).1
      else s

def refuse (s : Session) (n : Nat) (e : Error) : Session :=
  match s.calls[n]? with
  | none => s
  | some c => (s.release c.id).modifyCall n fun c => { c with stage := .unsent e }

def post (s : Session) (n now : Nat) : Session :=
  match s.calls[n]? with
  | none => s
  | some c =>
    match c.stage with
    | .registered =>
      let (outbox, offer) := s.outbox.offer n c.frame now
      let s := s.withOutbox outbox
      match offer with
      | .queued => s.modifyCall n .sent
      | .waits => s.modifyCall n fun c => { c with stage := .sending }
      | .refused e => s.refuse n e
    | _ => s

def resumeSending (s : Session) (n now : Nat) : Session :=
  match s.outbox.resume? n now with
  | none => s
  | some (.ok (), outbox) => (s.withOutbox outbox).modifyCall n .sent
  | some (.error e, outbox) => (s.withOutbox outbox).refuse n e

def unexpected (kind : FrameKind) (id : UInt32) : Error :=
  .protocol s!"Unexpected {kind.name} frame for request {id}"

def failureOf (payload : Bytes) : Error :=
  match (Typed.decode .replace payload : Except Error Status) with
  | .ok status => .status status
  | .error e => .protocol s!"Undecodable error status: {e.message}"

def deliver (s : Session) (n : Nat) (item : Except Error Bytes) : Session :=
  s.modifyCall n (·.deliver item)

def lastItem? (style : Style) (kind : FrameKind) (f : Frame) : Option (Except Error Bytes) :=
  match kind, style with
  | .error, _ => some (.error (failureOf f.payload))
  | .response, .unary => some (.ok f.payload)
  | .streamEnd, .serverStreaming => none
  | kind, _ => some (.error (unexpected kind f.id))

def endCall (s : Session) (n : Nat) (c : Call) (kind : FrameKind) (f : Frame) : Session :=
  let s := s.release f.id
  match lastItem? c.style kind f with
  | some item => s.deliver n item
  | none => s

/-- Gives a frame to the pending call with its id. A chunk that nobody listens to ends its call. -/
def route (s : Session) (f : Frame) : Session :=
  match f.kind, Assoc.get? f.id.toNat s.pending with
  | .error _, _ | _, none | .ok .request, _ | .ok .cancel, _ => s
  | .ok kind, some n =>
    match s.calls[n]? with
    | none => s
    | some c =>
      match kind, c.style with
      | .streamChunk, .serverStreaming =>
        if c.isHeard then s.deliver n (.ok f.payload) else s.release f.id
      | kind, _ => s.endCall n c kind f

def failPending (s : Session) : Session :=
  s.pending.foldl (fun s entry => s.deliver entry.2 (.error .connectionClosed))
    { s with isClosed := true, pending := [] }

def endInput (s : Session) : Session :=
  if s.isReading then { s with isReading := false }.failPending else s

def read (s : Session) (data : Bytes) : Session × List Frame :=
  if s.isReading then
    match s.incoming.push data with
    | (buffer, .ok frames) => ({ s with incoming := buffer }, frames)
    | (buffer, .error _) => ({ s with incoming := buffer }.endInput, [])
  else (s, [])

def close (s : Session) : Session :=
  { s with isReading := false, outlet := s.outlet.abort }.failPending

/-- The owner of the session goes away, and with it the reader. Streams may outlive both. -/
def abandon (s : Session) : Session :=
  { s with isReading := false, isOwned := false }

def isPending (s : Session) (n : Nat) (c : Call) : Bool :=
  Assoc.get? c.id.toNat s.pending == some n

def giveBack (s : Session) (n : Nat) (result : Except Error Bytes) : Session :=
  (s.dropGuard n).modifyCall n fun c => { c with stage := .returned result, isHeard := false }

def resume (s : Session) (n : Nat) : Session :=
  match s.calls[n]? with
  | none => s
  | some c =>
    match c.stage, c.inbox with
    | .unsent e, _ => s.giveBack n (.error e)
    | .awaiting, item :: _ => s.giveBack n item
    | .awaiting, [] => if s.isPending n c then s else s.giveBack n (.error .connectionClosed)
    | _, _ => s

def isAtWork (s : Session) (n : Nat) (c : Call) : Bool :=
  match c.stage with
  | .registered | .unsent _ => true
  | .awaiting => !c.inbox.isEmpty || !s.isPending n c
  | .sending | .streaming | .returned _ | .dropped => false

def canProceed (s : Session) (n now : Nat) : Bool :=
  s.calls[n]?.any (s.isAtWork n) || s.outbox.isAnswered n now

def proceed (s : Session) (n now : Nat) : Session :=
  ((s.post n now).resumeSending n now).resume n

inductive Next where
  | item (i : Except Error Bytes)
  | pending
  | ended
  | noStream
deriving Repr

def next (s : Session) (n : Nat) : Session × Next :=
  match s.calls[n]? with
  | none => (s, .noStream)
  | some c =>
    match c.stage, c.inbox with
    | .streaming, item :: rest => (s.modifyCall n fun c => { c with inbox := rest }, .item item)
    | .streaming, [] => (s, if s.isPending n c then .pending else .ended)
    | _, _ => (s, .noStream)

def dropReceiver (s : Session) (n : Nat) : Session :=
  s.modifyCall n fun c => { c with isHeard := false, inbox := [] }

def withdraw (s : Session) (n : Nat) : Session :=
  s.withOutbox (s.outbox.withdraw n)

def drop (s : Session) (n : Nat) : Session :=
  match s.calls[n]?.map Call.stage with
  | none | some (.returned _) | some .dropped => s
  | some .streaming =>
    ((s.dropReceiver n).dropGuard n).modifyCall n fun c => { c with stage := .dropped }
  | _ =>
    ((s.withdraw n).dropGuard n).modifyCall n fun c =>
      { c with stage := .dropped, isHeard := false, inbox := [] }

def hasSenders (s : Session) : Bool :=
  s.isOwned || s.calls.any Call.isGuarded

end Session

end SchemaRpc

import SchemaRpc.Simulation.Calling
import SchemaRpc.Simulation.Serving

namespace SchemaRpc

structure Link where
  session : Simulation.Thread Session
  server : Simulation.Serving

namespace Link

def start (outlet : Outlet) (server : Simulation.Serving) : Link :=
  ⟨.start (.start outlet) [.writer, .reader], server⟩

def settle (l : Link) : Link :=
  let (session, requests) := l.session.flush
  let (server, replies) := (l.server.deliver requests).flush
  let session := session.deliver replies
  let session := if server.outlet.writer.isStopped then session.hangUp else session
  ⟨session.settle, server⟩

def call (l : Link) (style : Style) (path : MethodPath) (request : Bytes) : Link :=
  let n := l.session.side.calls.length
  { l with
    session := l.session.act fun s =>
      (s.register style path.route request).proceed n l.session.now }

def stage? (l : Link) (n : Nat) : Option Call.Stage :=
  l.session.side.calls[n]?.map Call.stage

def drop (l : Link) (n : Nat) : Link :=
  settle { l with session := l.session.act fun s => s.drop n }

def items (l : Link) (n : Nat) : Nat → Link × List (Except Error Bytes) × Bool
  | 0 => (l, [], false)
  | count + 1 =>
    match l.session.side.next n with
    | (session, .item item) =>
      let (l, rest, ended) :=
        items { l with session := l.session.act fun _ => session } n count
      (l, item :: rest, ended)
    | (_, .ended) => (l, [], true)
    | _ => (l, [], false)

variable {Req Resp : Type} [Typed Req] [Typed Resp]

def unary (l : Link) (m : UnaryMethod Req Resp) (request : Req) :
    Link × Option (Except Error Resp) :=
  let n := l.session.side.calls.length
  let l := (l.call .unary m.path (Typed.encode request)).settle
  match l.stage? n with
  | some (.returned result) => (l, some (result.bind (Typed.decode .replace)))
  | _ => (l, none)

def stream (l : Link) (m : StreamingMethod Req Resp) (request : Req) (count : Nat) :
    Link × Except Error (List (Except Error Resp) × Bool) :=
  let n := l.session.side.calls.length
  let l := l.call .serverStreaming m.path (Typed.encode request)
  let l :=
    match l.stage? n, count with
    | some .streaming, 0 => l
    | _, _ => l.settle
  match l.stage? n with
  | some (.returned (.error e)) => (l, .error e)
  | _ =>
    let (l, items, ended) := l.items n count
    (l.drop n, .ok (items.map fun item => item.bind (Typed.decode .replace), ended))

end Link

end SchemaRpc

import SchemaRpc.Method
import SchemaRpc.Reply

namespace SchemaRpc

structure Router.Entry where
  route : String
  style : Style
  handler : Bytes → Answer

structure Router where
  entries : List Router.Entry

namespace Router

def empty : Router := ⟨[]⟩

def find? (r : Router) (route : String) : Option Entry :=
  r.entries.find? fun e => e.route == route

def insert (r : Router) (entry : Entry) : Router :=
  ⟨(r.entries.filter fun e => e.route != entry.route) ++ [entry]⟩

variable {Req Resp : Type} [Typed Req] [Typed Resp]

def decoding (handle : Req → Answer) (request : Bytes) : Answer :=
  match Typed.decode .replace request with
  | .ok q => handle q
  | .error e => .failure (.invalidArgument e.message)

def unary (r : Router) (m : UnaryMethod Req Resp) (handle : Req → Outcome Resp) : Router :=
  r.insert ⟨m.path.route, .unary, decoding fun q =>
    ⟨[], Answer.finish (fun a => .response (Typed.encode a)) (handle q)⟩⟩

def serverStreaming (r : Router) (m : StreamingMethod Req Resp)
    (handle : Req → List Resp × Outcome Unit) : Router :=
  r.insert ⟨m.path.route, .serverStreaming, decoding fun q =>
    let (messages, outcome) := handle q
    ⟨messages.map Typed.encode, Answer.finish (fun _ => .streamEnd) outcome⟩⟩

def streaming (r : Router) (m : StreamingMethod Req Resp)
    (handle : Req → List Bytes × Outcome Unit) : Router :=
  r.insert ⟨m.path.route, .serverStreaming, decoding fun q =>
    ⟨(handle q).1, Answer.finish (fun _ => .streamEnd) (handle q).2⟩⟩

theorem serverStreaming_eq_streaming (r : Router) (m : StreamingMethod Req Resp)
    (handle : Req → List Resp × Outcome Unit) :
    r.serverStreaming m handle =
      r.streaming m fun q => ((handle q).1.map Typed.encode, (handle q).2) :=
  rfl

def size (r : Router) : Nat := r.entries.length

def isEmpty (r : Router) : Bool := r.entries.isEmpty

def contains (r : Router) (route : String) : Bool := (r.find? route).isSome

def style? (r : Router) (route : String) : Option Style := (r.find? route).map Entry.style

def answer (r : Router) (route : String) (request : Bytes) : Answer :=
  match r.find? route with
  | some e => e.handler request
  | none => .failure (.unimplemented s!"Unknown method {route}")

theorem find?_insert (r : Router) (entry : Entry) (route : String) :
    (r.insert entry).find? route = if route = entry.route then some entry else r.find? route := by
  by_cases h : route = entry.route
  · subst h
    have hn : (r.entries.filter fun e => e.route != entry.route).find?
        (fun e => e.route == entry.route) = none := by
      simp
    simp only [find?, insert, List.find?_append, hn]
    simp
  · have hf : (r.entries.filter fun e => e.route != entry.route).find?
        (fun e => e.route == route) = r.entries.find? fun e => e.route == route := by
      rw [List.find?_filter]
      congr 1
      funext e
      by_cases he : e.route = route <;> simp [he, h]
    simp only [find?, insert, List.find?_append, hf, if_neg h]
    simp [Ne.symm h]

end Router

end SchemaRpc

import SchemaRpc.Connection

namespace SchemaRpc

namespace Router

inductive Built : Router → Prop
  | empty : Built empty
  | unary {r : Router} {Req Resp : Type} [Typed Req] [Typed Resp] (earlier : Built r)
      (m : UnaryMethod Req Resp) (handle : Req → Outcome Resp) : Built (r.unary m handle)
  | serverStreaming {r : Router} {Req Resp : Type} [Typed Req] [Typed Resp] (earlier : Built r)
      (m : StreamingMethod Req Resp) (handle : Req → List Resp × Outcome Unit) :
      Built (r.serverStreaming m handle)

inductive Returns (handler : Bytes → Answer) (request response : Bytes) : Prop
  | intro {Req Resp : Type} [Typed Req] [Typed Resp] (handle : Req → Outcome Resp) (q : Req)
      (a : Resp)
      (isHandler : handler = decoding fun q =>
        ⟨[], Answer.finish (fun a => .response (Typed.encode a)) (handle q)⟩)
      (decodes : Typed.decode .replace request = .ok q) (returns : handle q = .returned a)
      (encodes : Typed.encode a = response)

inductive Fails (handler : Bytes → Answer) (request : Bytes) (s : Status) : Prop
  | undecodable {Req : Type} [Typed Req] (handle : Req → Answer) (e : Error)
      (isHandler : handler = decoding handle)
      (decodes : (Typed.decode .replace request : Except Error Req) = .error e)
      (status : s = .invalidArgument e.message)
  | unary {Req Resp : Type} [Typed Req] [Typed Resp] (handle : Req → Outcome Resp) (q : Req)
      (isHandler : handler = decoding fun q =>
        ⟨[], Answer.finish (fun a => .response (Typed.encode a)) (handle q)⟩)
      (decodes : Typed.decode .replace request = .ok q) (fails : handle q = .failed s)
  | streaming {Req Resp : Type} [Typed Req] [Typed Resp] (handle : Req → List Resp × Outcome Unit)
      (q : Req)
      (isHandler : handler = decoding fun q =>
        ⟨(handle q).1.map Typed.encode, Answer.finish (fun _ => .streamEnd) (handle q).2⟩)
      (decodes : Typed.decode .replace request = .ok q) (fails : (handle q).2 = .failed s)

inductive Sends (handler : Bytes → Answer) (request : Bytes) (chunks : List Bytes) (done : Bool) :
    Prop
  | intro {Req Resp : Type} [Typed Req] [Typed Resp] (handle : Req → List Resp × Outcome Unit)
      (q : Req)
      (isHandler : handler = decoding fun q =>
        ⟨(handle q).1.map Typed.encode, Answer.finish (fun _ => .streamEnd) (handle q).2⟩)
      (decodes : Typed.decode .replace request = .ok q)
      (sends : (handle q).1.map Typed.encode = chunks)
      (returns : done = true → (handle q).2 = .returned ())

inductive IsHandler : (Bytes → Answer) → Prop
  | unary {Req Resp : Type} [Typed Req] [Typed Resp] (handle : Req → Outcome Resp) :
      IsHandler (decoding fun q =>
        ⟨[], Answer.finish (fun a => .response (Typed.encode a)) (handle q)⟩)
  | streaming {Req Resp : Type} [Typed Req] [Typed Resp]
      (handle : Req → List Resp × Outcome Unit) :
      IsHandler (decoding fun q =>
        ⟨(handle q).1.map Typed.encode, Answer.finish (fun _ => .streamEnd) (handle q).2⟩)

theorem Built.isHandler {r : Router} (h : Built r) {route : String} {e : Entry}
    (hf : r.find? route = some e) : IsHandler e.handler := by
  induction h generalizing e with
  | empty => cases hf
  | unary _ m handle ih =>
      rw [Router.unary, find?_insert] at hf
      split at hf
      · cases hf
        exact .unary handle
      · exact ih hf
  | serverStreaming _ m handle ih =>
      rw [Router.serverStreaming, find?_insert] at hf
      split at hf
      · cases hf
        exact .streaming handle
      · exact ih hf

inductive Answered (handler : Bytes → Answer) (request : Bytes) : Answer → Prop
  | response (message : Bytes) (returns : Returns handler request message) :
      Answered handler request ⟨[], some (.response message)⟩
  | failure (s : Status) (fails : Fails handler request s) : Answered handler request (.failure s)
  | silence : Answered handler request ⟨[], none⟩
  | endless (chunks : List Bytes) (sends : Sends handler request chunks false) :
      Answered handler request ⟨chunks, none⟩
  | stream (chunks : List Bytes) (sends : Sends handler request chunks true) :
      Answered handler request ⟨chunks, some .streamEnd⟩
  | broken (chunks : List Bytes) (s : Status) (sends : Sends handler request chunks false)
      (fails : Fails handler request s) : Answered handler request ⟨chunks, some (.failure s)⟩

theorem IsHandler.answered {handler : Bytes → Answer} (h : IsHandler handler) (request : Bytes) :
    Answered handler request (handler request) := by
  cases h with
  | @unary Req Resp _ _ handle =>
      rw [decoding]
      cases hq : (Typed.decode .replace request : Except Error Req) with
      | error e => exact .failure _ (.undecodable _ e rfl hq rfl)
      | ok q =>
          show Answered _ _ ⟨[], Answer.finish (fun a => .response (Typed.encode a)) (handle q)⟩
          cases ha : handle q with
          | returned a => exact .response _ (.intro handle q a rfl hq ha rfl)
          | failed s => exact .failure s (.unary handle q rfl hq ha)
          | pending => exact .silence
  | @streaming Req Resp _ _ handle =>
      rw [decoding]
      cases hq : (Typed.decode .replace request : Except Error Req) with
      | error e => exact .failure _ (.undecodable _ e rfl hq rfl)
      | ok q =>
          show Answered _ _
            ⟨(handle q).1.map Typed.encode, Answer.finish (fun _ => .streamEnd) (handle q).2⟩
          cases ha : (handle q).2 with
          | returned u => exact .stream _ (.intro handle q rfl hq rfl fun _ => ha)
          | failed s =>
              exact .broken _ s (.intro handle q rfl hq rfl nofun) (.streaming handle q rfl hq ha)
          | pending => exact .endless _ (.intro handle q rfl hq rfl nofun)

end Router

end SchemaRpc

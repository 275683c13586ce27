import SchemaRpc.Proofs.Transport.Table
import SchemaRpc.Proofs.Transport.Turns

namespace SchemaRpc

namespace Frame

def isReply (f : Frame) : Bool :=
  match f.kind with
  | .ok .request | .ok .cancel | .error _ => false
  | .ok _ => true

def isChunk (f : Frame) : Bool :=
  match f.kind with
  | .ok .streamChunk => true
  | _ => false

def repliesTo (id : UInt32) (frames : List Frame) : List Frame :=
  frames.filter fun f => f.id == id && f.isReply

theorem repliesTo_concat (id : UInt32) (frames : List Frame) (f : Frame) :
    repliesTo id (frames ++ [f]) =
      if f.id = id ∧ f.isReply = true then repliesTo id frames ++ [f] else repliesTo id frames := by
  rw [repliesTo, List.filter_append, List.filter_cons, List.filter_nil]
  simp only [Bool.and_eq_true, beq_iff_eq]
  split
  · rfl
  · exact List.append_nil _

end Frame

namespace Session

def verdict (f : Frame) : Except Error Bytes :=
  match f.kind with
  | .ok .response => .ok f.payload
  | .ok .error => .error (failureOf f.payload)
  | .ok kind => .error (unexpected kind f.id)
  | .error e => .error e

def closing (f : Frame) : List (Except Error Bytes) :=
  match f.kind with
  | .ok .streamEnd => []
  | .ok .error => [.error (failureOf f.payload)]
  | .ok kind => [.error (unexpected kind f.id)]
  | .error e => [.error e]

/-- What the caller of a stream gets for some replies: nothing comes after the first one that is no
chunk. -/
def streamed : List Frame → List (Except Error Bytes)
  | [] => []
  | f :: rest => if f.isChunk then .ok f.payload :: streamed rest else closing f

def observed : Style → List Frame → List (Except Error Bytes)
  | .unary, replies => (replies.take 1).map verdict
  | .serverStreaming, replies => streamed replies

def isOver : Style → List Frame → Bool
  | .unary, replies => !replies.isEmpty
  | .serverStreaming, replies => replies.any fun f => !f.isChunk

def told (style : Style) (f : Frame) : List (Except Error Bytes) × Bool :=
  match style, f.isChunk with
  | .unary, _ => ([verdict f], true)
  | .serverStreaming, true => ([.ok f.payload], false)
  | .serverStreaming, false => (closing f, true)

theorem not_isChunk_of_told {style : Style} {f : Frame} (h : (told style f).2 = true) :
    style = .serverStreaming → f.isChunk = false := by
  rintro rfl
  cases hf : f.isChunk with
  | false => rfl
  | true => simp only [told, hf, Bool.false_eq_true] at h

theorem told_of_not_last {style : Style} {f : Frame} (h : (told style f).2 = false) :
    (told style f).1 = [.ok f.payload] := by
  cases style with
  | unary => cases h
  | serverStreaming =>
      cases hf : f.isChunk with
      | false => simp only [told, hf, Bool.true_eq_false] at h
      | true => simp only [told, hf]

theorem observed_concat {style : Style} {replies : List Frame} (h : isOver style replies = false)
    (f : Frame) :
    observed style (replies ++ [f]) = observed style replies ++ (told style f).1 ∧
      isOver style (replies ++ [f]) = (told style f).2 := by
  cases style with
  | unary =>
      obtain rfl : replies = [] := by simpa [isOver] using h
      exact ⟨rfl, rfl⟩
  | serverStreaming =>
      induction replies with
      | nil => cases hf : f.isChunk <;> simp [observed, streamed, isOver, told, hf]
      | cons first rest ih =>
          simp only [isOver, List.any_cons, Bool.or_eq_false_iff, Bool.not_eq_false'] at h
          obtain ⟨hitems, hover⟩ := ih h.2
          simp only [observed, isOver] at hitems hover
          simp only [observed, isOver, List.cons_append, streamed, List.any_cons, h.1, if_true,
            hitems, hover, Bool.not_true, Bool.false_or, and_self]

theorem observed_concat_of_isOver {style : Style} {replies : List Frame}
    (h : isOver style replies = true) (f : Frame) :
    observed style (replies ++ [f]) = observed style replies ∧
      isOver style (replies ++ [f]) = true := by
  cases style with
  | unary =>
      cases replies with
      | nil => cases h
      | cons first rest => exact ⟨rfl, rfl⟩
  | serverStreaming =>
      refine ⟨?_, by rw [isOver, List.any_append, ← isOver, h, Bool.true_or]⟩
      induction replies with
      | nil => cases h
      | cons first rest ih =>
          rw [observed, observed, List.cons_append, streamed, streamed]
          split
          · next hf =>
              rw [isOver, List.any_cons, hf, Bool.not_true, Bool.false_or] at h
              rw [← observed, ih h, observed]
          · rfl

theorem lastItem?_toList (style : Style) {f : Frame} {kind : FrameKind} (hk : f.kind = .ok kind)
    (last : style = .serverStreaming → f.isChunk = false) :
    (lastItem? style kind f).toList = (told style f).1 := by
  cases style with
  | unary =>
      rw [told, verdict, hk]
      cases kind <;> rfl
  | serverStreaming =>
      simp only [told, last rfl, closing, hk]
      cases kind <;> rfl

variable {s s' : Session} {k : Nat} {id : UInt32} {style : Style} {replies frames : List Frame}
  {taken : List (Except Error Bytes)} {c : Call}

structure Hears (s : Session) (k : Nat) (id : UInt32) (style : Style) (replies : List Frame)
    (taken : List (Except Error Bytes)) (c : Call) : Prop where
  call : s.calls[k]? = some c
  sameId : c.id = id
  sameStyle : c.style = style
  items : taken ++ c.inbox = observed style replies
  untaken : style = .unary → taken = []
  pending : Assoc.get? id.toNat s.pending = some k ↔ isOver style replies = false
  stage : (c.isHeard = true ∧ (c.stage = .registered ∨ c.stage = .sending ∨ c.stage = c.sent.stage)) ∨
    (style = .unary ∧ isOver style replies = true ∧ ∃ r, c.stage = .returned r ∧ c.inbox = [r])

theorem call_modifyCall (h : s.calls[k]? = some c) (g : Call → Call) :
    (s.modifyCall k g).calls[k]? = some (g c) := by
  simp [modifyCall, h]

theorem Hears.beside (h : s.Hears k id style replies taken c)
    (call : s'.calls[k]? = s.calls[k]?)
    (pending : Assoc.get? id.toNat s'.pending = some k ↔ Assoc.get? id.toNat s.pending = some k) :
    s'.Hears k id style replies taken c :=
  { h with
    call := call.trans h.call
    pending := pending.trans h.pending }

theorem Hears.confined (h : s.Hears k id style replies taken c) {j : Nat} (hj : Confined j s s')
    (other : j ≠ k) (apart : s.ids[j]? = some id → isOver style replies = true) :
    s'.Hears k id style replies taken c := by
  refine h.beside (hj.others k other.symm) ?_
  rcases hj.entries id.toNat with hsame | ⟨hnone, id', hid, hkey⟩
  · rw [hsame]
  · obtain rfl := UInt32.toNat_inj.1 hkey
    have finished := apart hid
    rw [hnone, h.pending, finished]
    exact ⟨nofun, nofun⟩

theorem route_of_not_isReply {f : Frame} (h : f.isReply = false) : s.route f = s := by
  unfold Frame.isReply at h
  unfold route
  cases hk : f.kind with
  | error e => rfl
  | ok kind =>
      rw [hk] at h
      cases kind with
      | request => cases Assoc.get? f.id.toNat s.pending <;> rfl
      | cancel => cases Assoc.get? f.id.toNat s.pending <;> rfl
      | _ => cases h

theorem Hears.heard (h : s.Hears k id style replies taken c) (waits : isOver style replies = false) :
    c.isHeard = true ∧ (c.stage = .registered ∨ c.stage = .sending ∨ c.stage = c.sent.stage) := by
  rcases h.stage with hs | ⟨-, hover, -⟩
  · exact hs
  · rw [waits] at hover
    cases hover

theorem route_pending {f : Frame} {kind : FrameKind} (hf : f.kind = .ok kind)
    (reply : f.isReply = true) (hk : Assoc.get? f.id.toNat s.pending = some k)
    (hc : s.calls[k]? = some c) (heard : c.isHeard = true) :
    s.route f = if (told c.style f).2 then s.endCall k c kind f else s.deliver k (.ok f.payload) := by
  have hchunk : f.isChunk = true ↔ kind = .streamChunk := by
    rw [Frame.isChunk, hf]
    cases kind <;> simp
  rw [Frame.isReply, hf] at reply
  unfold route
  rw [hf, hk]
  cases kind with
  | request => cases reply
  | cancel => cases reply
  | streamChunk =>
      cases hs : c.style with
      | unary => simp only [hc, hs, told, if_true]
      | serverStreaming => simp only [hc, hs, told, hchunk.2 rfl, heard, if_true]; rfl
  | _ =>
      have hnot : f.isChunk = false := by
        rw [Frame.isChunk, hf]
      cases hs : c.style <;> simp only [hc, told, hnot, if_true]

theorem call_deliver (hc : s.calls[k]? = some c) (heard : c.isHeard = true)
    (item : Except Error Bytes) :
    (s.deliver k item).calls[k]? = some { c with inbox := c.inbox ++ [item] } := by
  rw [deliver, call_modifyCall hc, Call.deliver, if_pos heard]

theorem endCall_eq (h : s.Linked) (hc : s.calls[k]? = some c) (heard : c.isHeard = true)
    {kind : FrameKind} {f : Frame} (hf : f.kind = .ok kind)
    (last : c.style = .serverStreaming → f.isChunk = false) :
    (s.endCall k c kind f).calls[k]? =
        some { c with inbox := c.inbox ++ (told c.style f).1 } ∧
      Assoc.get? f.id.toNat (s.endCall k c kind f).pending = none := by
  have hget : Assoc.get? f.id.toNat (s.release f.id).pending = none := by
    rw [release, Assoc.get?_erase h.ascending, if_pos rfl]
  have hcall : (s.release f.id).calls[k]? = some c := hc
  rw [← lastItem?_toList c.style hf last, endCall]
  cases lastItem? c.style kind f with
  | none => exact ⟨by rw [Option.toList_none, List.append_nil]; exact hcall, hget⟩
  | some item => exact ⟨call_deliver hcall heard item, hget⟩

theorem Hears.reply (h : s.Hears k id style replies taken c) (linked : s.Linked) {f : Frame}
    (hid : f.id = id) (reply : f.isReply = true) (waits : isOver style replies = false) :
    (s.route f).Hears k id style (replies ++ [f]) taken
        { c with inbox := c.inbox ++ (told style f).1 } ∧
      ((told style f).2 = true → Assoc.get? id.toNat (s.route f).pending = none) := by
  obtain ⟨hitems, hover⟩ := observed_concat waits f
  obtain ⟨heard, stage⟩ := h.heard waits
  have hpending := h.pending.2 waits
  obtain ⟨kind, hk⟩ : ∃ kind, f.kind = .ok kind := by
    cases hk : f.kind with
    | ok kind => exact ⟨kind, rfl⟩
    | error e => rw [Frame.isReply, hk] at reply; cases reply
  have hroute := route_pending hk reply (hid ▸ hpending) h.call heard
  rw [h.sameStyle] at hroute
  have hears : ∀ s' : Session, s'.calls[k]? = some { c with inbox := c.inbox ++ (told style f).1 } →
      (Assoc.get? id.toNat s'.pending = some k ↔ (told style f).2 = false) →
      s'.Hears k id style (replies ++ [f]) taken { c with inbox := c.inbox ++ (told style f).1 } := by
    intro s' call pending
    refine ⟨call, h.sameId, h.sameStyle, ?_, h.untaken, hover ▸ pending, .inl ⟨heard, stage⟩⟩
    rw [← List.append_assoc, h.items, hitems]
  cases hlast : (told style f).2 with
  | true =>
      rw [hlast, if_pos rfl] at hroute
      have hstyle : told c.style f = told style f := by rw [h.sameStyle]
      obtain ⟨hcall, hnone⟩ :=
        endCall_eq linked h.call heard hk (h.sameStyle ▸ not_isChunk_of_told hlast)
      rw [hstyle] at hcall
      rw [hid] at hnone
      rw [hroute]
      exact ⟨hears _ hcall (by rw [hnone, hlast]; exact ⟨nofun, nofun⟩), fun _ => hnone⟩
  | false =>
      rw [hlast, if_neg nofun] at hroute
      rw [hroute]
      refine ⟨hears _ ?_ (by rw [hlast]; exact ⟨fun _ => rfl, fun _ => hpending⟩), nofun⟩
      rw [told_of_not_last hlast]
      exact call_deliver h.call heard _

theorem Hears.unheard (h : s.Hears k id style replies taken c) (linked : s.Linked) {f : Frame}
    (hne : Assoc.get? f.id.toNat s.pending ≠ some k) :
    (s.route f).Hears k id style replies taken c := by
  obtain ⟨call, pending⟩ := route_elsewhere linked hne
  exact h.beside call (pending id.toNat)

theorem Hears.late (h : s.Hears k id style replies taken c) (finished : isOver style replies = true)
    (f : Frame) : s.Hears k id style (replies ++ [f]) taken c := by
  obtain ⟨hitems, hover⟩ := observed_concat_of_isOver finished f
  refine ⟨h.call, h.sameId, h.sameStyle, hitems ▸ h.items, h.untaken, ?_, ?_⟩
  · rw [h.pending, finished, hover]
  · rcases h.stage with waits | ⟨unary, -, returned⟩
    · exact .inl waits
    · exact .inr ⟨unary, hover, returned⟩

theorem Hears.route (h : s.Hears k id style replies taken c) (linked : s.Linked) (f : Frame) :
    ∃ c', (s.route f).Hears k id style
      (if f.id = id ∧ f.isReply = true then replies ++ [f] else replies) taken c' := by
  cases hreply : f.isReply with
  | false =>
      rw [route_of_not_isReply hreply, if_neg fun hf => nomatch hf.2]
      exact ⟨c, h⟩
  | true =>
      by_cases hid : f.id = id
      · rw [if_pos ⟨hid, rfl⟩]
        cases hover : isOver style replies with
        | false => exact ⟨_, (h.reply linked hid hreply hover).1⟩
        | true =>
            -- the id may belong to a newer call by now, but not to this one
            have hne : Assoc.get? f.id.toNat s.pending ≠ some k := by
              rw [hid, ne_eq, h.pending, hover]
              nofun
            exact ⟨c, (h.unheard linked hne).late hover f⟩
      · rw [if_neg fun hf => hid hf.1]
        refine ⟨c, h.unheard linked fun hj => ?_⟩
        obtain ⟨d, hd, hdid⟩ := linked.call hj
        rw [h.call] at hd
        cases hd
        exact hid (hdid.symm.trans h.sameId)

theorem Hears.restage (h : s.Hears k id style replies taken c)
    (unposted : c.stage = .registered ∨ c.stage = .sending) {stage : Call.Stage}
    (next : stage = .sending ∨ stage = c.sent.stage)
    (call : s'.calls[k]? = some { c with stage := stage }) (pending : s'.pending = s.pending) :
    s'.Hears k id style replies taken { c with stage := stage } := by
  have heard : c.isHeard = true := by
    rcases h.stage with ⟨heard, -⟩ | ⟨-, -, r, hr, -⟩
    · exact heard
    · rcases unposted with hs | hs <;> rw [hs] at hr <;> cases hr
  exact ⟨call, h.sameId, h.sameStyle, h.items, h.untaken, pending ▸ h.pending, .inl ⟨heard, .inr next⟩⟩

theorem call_refuse (hc : s.calls[k]? = some c) (e : Error) :
    (s.refuse k e).calls[k]? = some { c with stage := .unsent e } := by
  rw [refuse_eq hc]
  exact call_modifyCall (s := s.release c.id) hc _

theorem Hears.post (h : s.Hears k id style replies taken c) (now : Nat)
    (accepted : ∀ c', (s.post k now).calls[k]? = some c' → ∀ e, c'.stage ≠ .unsent e) :
    ∃ c', (s.post k now).Hears k id style replies taken c' := by
  revert accepted
  unfold Session.post
  rw [h.call]
  cases hs : c.stage with
  | registered =>
      simp only [hs]
      split
      · intro _
        exact ⟨_, h.restage (.inl hs) (.inr rfl) (call_modifyCall h.call .sent) rfl⟩
      · intro _
        exact ⟨_, h.restage (.inl hs) (.inl rfl) (call_modifyCall h.call _) rfl⟩
      · next e _ =>
          intro accepted
          have refused := call_refuse (s := s.withOutbox (s.outbox.offer k c.frame now).1) h.call e
          exact absurd rfl (accepted _ refused e)
  | _ =>
      simp only [hs]
      intro _
      exact ⟨c, h⟩

theorem Hears.resumeSending (h : s.Hears k id style replies taken c) (now : Nat)
    (sending : c.stage = .sending)
    (accepted : ∀ c', (s.resumeSending k now).calls[k]? = some c' → ∀ e, c'.stage ≠ .unsent e) :
    ∃ c', (s.resumeSending k now).Hears k id style replies taken c' := by
  revert accepted
  unfold Session.resumeSending
  split
  · intro _
    exact ⟨c, h⟩
  · intro _
    exact ⟨_, h.restage (.inr sending) (.inr rfl) (call_modifyCall h.call .sent) rfl⟩
  · next e o _ =>
      intro accepted
      exact absurd rfl (accepted _ (call_refuse (s := s.withOutbox o) h.call e) e)

theorem call_dropGuard (hc : s.calls[k]? = some c) :
    ∃ guarded, (s.dropGuard k).calls[k]? = some { c with isGuarded := guarded } := by
  unfold dropGuard
  rw [hc]
  simp only
  split
  · exact ⟨c.isGuarded, hc⟩
  · have hm := call_modifyCall hc fun c => { c with isGuarded := false }
    split
    · exact ⟨false, hm⟩
    · exact ⟨false, hm⟩

theorem Hears.stage_cases (h : s.Hears k id style replies taken c) :
    c.stage = .registered ∨ c.stage = .sending ∨ (style = .unary ∧ c.stage = .awaiting) ∨
      (style = .serverStreaming ∧ c.stage = .streaming) ∨
      (style = .unary ∧ ∃ r, c.stage = .returned r ∧ c.inbox = [r]) := by
  rcases h.stage with ⟨-, hs | hs | hs⟩ | ⟨hu, -, returned⟩
  · exact .inl hs
  · exact .inr (.inl hs)
  · rw [Call.sent, h.sameStyle] at hs
    cases style with
    | unary => exact .inr (.inr (.inl ⟨rfl, hs⟩))
    | serverStreaming => exact .inr (.inr (.inr (.inl ⟨rfl, hs⟩)))
  · exact .inr (.inr (.inr (.inr ⟨hu, returned⟩)))

theorem Hears.unary_of_awaiting (h : s.Hears k id style replies taken c)
    (hs : c.stage = .awaiting) : style = .unary := by
  rcases h.stage_cases with hs' | hs' | ⟨hu, -⟩ | ⟨-, hs'⟩ | ⟨hu, -⟩
  · rw [hs] at hs'; cases hs'
  · rw [hs] at hs'; cases hs'
  · exact hu
  · rw [hs] at hs'; cases hs'
  · exact hu

theorem Hears.streaming_of_streaming (h : s.Hears k id style replies taken c)
    (hs : c.stage = .streaming) : style = .serverStreaming := by
  rcases h.stage_cases with hs' | hs' | ⟨-, hs'⟩ | ⟨hstyle, -⟩ | ⟨-, r, hs', -⟩
  · rw [hs] at hs'; cases hs'
  · rw [hs] at hs'; cases hs'
  · rw [hs] at hs'; cases hs'
  · exact hstyle
  · rw [hs] at hs'; cases hs'

theorem Hears.not_unsent (h : s.Hears k id style replies taken c) (e : Error) :
    c.stage ≠ .unsent e := by
  intro hs
  rcases h.stage_cases with hs' | hs' | ⟨-, hs'⟩ | ⟨-, hs'⟩ | ⟨-, r, hs', -⟩ <;>
    rw [hs] at hs' <;> cases hs'

theorem Hears.inbox_of_returned (h : s.Hears k id style replies taken c)
    {result : Except Error Bytes} (hs : c.stage = .returned result) : c.inbox = [result] := by
  rcases h.stage_cases with hs' | hs' | ⟨-, hs'⟩ | ⟨-, hs'⟩ | ⟨-, r, hs', hi⟩
  · rw [hs] at hs'; cases hs'
  · rw [hs] at hs'; cases hs'
  · rw [hs] at hs'; cases hs'
  · rw [hs] at hs'; cases hs'
  · rw [hs] at hs'
    cases hs'
    exact hi

theorem Hears.inbox (h : s.Hears k id .unary replies taken c) :
    c.inbox = (replies.take 1).map verdict := by
  have items := h.items
  rw [h.untaken rfl, List.nil_append] at items
  exact items

theorem Hears.giveBack (h : s.Hears k id .unary replies taken c) (linked : s.Linked)
    {item : Except Error Bytes} (hi : c.inbox = [item]) :
    ∃ c', (s.giveBack k item).Hears k id .unary replies taken c' ∧ c'.stage = .returned item := by
  obtain ⟨guarded, hg⟩ := call_dropGuard h.call
  have finished : isOver .unary replies = true := by
    cases replies with
    | nil => rw [h.inbox] at hi; cases hi
    | cons f rest => rfl
  have hcall := call_modifyCall hg fun c => { c with stage := .returned item, isHeard := false }
  refine ⟨_, ⟨hcall, h.sameId, h.sameStyle, h.items, h.untaken, ?_, ?_⟩, rfl⟩
  · rcases (confined_giveBack linked k item).entries id.toNat with hsame | ⟨hnone, -⟩
    · rw [hsame]
      exact h.pending
    · rw [hnone, finished]
      exact ⟨nofun, nofun⟩
  · exact .inr ⟨rfl, finished, item, rfl, hi⟩

theorem Hears.isPending_eq (h : s.Hears k id style replies taken c) :
    s.isPending k c = !isOver style replies := by
  rw [isPending, h.sameId, Bool.eq_iff_iff, beq_iff_eq, h.pending, Bool.not_eq_true']

theorem Hears.resume_awaiting (h : s.Hears k id .unary replies taken c) (linked : s.Linked)
    (hs : c.stage = .awaiting) :
    (replies = [] → s.resume k = s) ∧
      ∀ f rest, replies = f :: rest → ∃ c', (s.resume k).Hears k id .unary replies taken c' ∧
        c'.stage = .returned (verdict f) := by
  have inbox := h.inbox
  have hpending := h.isPending_eq
  unfold Session.resume
  rw [h.call]
  constructor
  · rintro rfl
    simp only [hs, show c.inbox = [] from inbox, hpending]
    rfl
  · rintro f rest rfl
    have hi : c.inbox = [verdict f] := inbox
    simp only [hs, hi]
    exact h.giveBack linked hi

theorem Hears.resume (h : s.Hears k id style replies taken c) (linked : s.Linked) :
    ∃ c', (s.resume k).Hears k id style replies taken c' := by
  cases hs : c.stage with
  | awaiting =>
      obtain rfl := h.unary_of_awaiting hs
      obtain ⟨keeps, returns⟩ := h.resume_awaiting linked hs
      cases replies with
      | nil => exact ⟨c, (keeps rfl).symm ▸ h⟩
      | cons f rest =>
          obtain ⟨c', hears, -⟩ := returns f rest rfl
          exact ⟨c', hears⟩
  | unsent e => exact absurd hs (h.not_unsent e)
  | _ =>
      unfold Session.resume
      simp only [h.call, hs]
      exact ⟨c, h⟩

theorem Hears.take (h : s.Hears k id style replies taken c) {item : Except Error Bytes}
    (took : s.next k = (s', .item item)) :
    ∃ c', s'.Hears k id style replies (taken ++ [item]) c' := by
  unfold Session.next at took
  rw [h.call] at took
  cases hs : c.stage with
  | streaming =>
      obtain rfl := h.streaming_of_streaming hs
      cases hi : c.inbox with
      | nil =>
          simp only [hs, hi] at took
          split at took <;> cases took
      | cons first rest =>
          simp only [hs, hi] at took
          cases took
          refine ⟨_, call_modifyCall h.call fun c => { c with inbox := rest }, h.sameId, h.sameStyle, ?_,
            nofun, h.pending, ?_⟩
          · rw [List.append_assoc, List.singleton_append, ← hi, h.items]
          · rcases h.stage with waits | ⟨hu, -⟩
            · exact .inl waits
            · cases hu
  | _ =>
      simp only [hs] at took
      cases took

inductive Action (j : Nat) (s : Session) : Session → Prop
  | post (now : Nat) : Action j s (s.post j now)
  | resumeSending (now : Nat) : Action j s (s.resumeSending j now)
  | resume : Action j s (s.resume j)
  | next : Action j s (s.next j).1
  | dropReceiver : Action j s (s.dropReceiver j)
  | dropGuard : Action j s (s.dropGuard j)
  | drop : Action j s (s.drop j)

theorem Action.confined {j : Nat} (h : s.Linked) (act : s.Action j s') : Confined j s s' := by
  cases act with
  | post now => exact confined_post h j now
  | resumeSending now => exact confined_resumeSending h j now
  | resume => exact confined_resume h j
  | next => exact confined_next h j
  | dropReceiver => exact confined_dropReceiver h j
  | dropGuard => exact confined_dropGuard h j
  | drop => exact confined_drop h j

/-- A run of a session after a new call, with the frames that are routed and the items that the call's
caller takes. The caller keeps waiting, and its request is not turned down. -/
inductive Waits (first : Session) (style : Style) (id : UInt32) :
    Session → List Frame → List (Except Error Bytes) → Prop
  | register (route : String) (request : Bytes)
      (given : first.register style route request = first.enter style route request id) :
      Waits first style id (first.register style route request) [] []
  | route {s : Session} {frames : List Frame} {taken : List (Except Error Bytes)}
      (earlier : Waits first style id s frames taken) (f : Frame) :
      Waits first style id (s.route f) (frames ++ [f]) taken
  | take {s s' : Session} {frames : List Frame} {taken : List (Except Error Bytes)}
      (earlier : Waits first style id s frames taken) (item : Except Error Bytes)
      (took : s.next first.calls.length = (s', .item item)) :
      Waits first style id s' frames (taken ++ [item])
  | post {s : Session} {frames : List Frame} {taken : List (Except Error Bytes)}
      (earlier : Waits first style id s frames taken) (now : Nat)
      (accepted : ∀ c, (s.post first.calls.length now).calls[first.calls.length]? = some c →
        ∀ e, c.stage ≠ .unsent e) :
      Waits first style id (s.post first.calls.length now) frames taken
  | resumeSending {s : Session} {frames : List Frame} {taken : List (Except Error Bytes)}
      (earlier : Waits first style id s frames taken) (now : Nat)
      (sending : ∀ c, s.calls[first.calls.length]? = some c → c.stage = .sending)
      (accepted : ∀ c, (s.resumeSending first.calls.length now).calls[first.calls.length]? = some c →
        ∀ e, c.stage ≠ .unsent e) :
      Waits first style id (s.resumeSending first.calls.length now) frames taken
  | resume {s : Session} {frames : List Frame} {taken : List (Except Error Bytes)}
      (earlier : Waits first style id s frames taken) :
      Waits first style id (s.resume first.calls.length) frames taken
  | other {s s' : Session} {frames : List Frame} {taken : List (Except Error Bytes)}
      (earlier : Waits first style id s frames taken) (j : Nat) (apart : s.ids[j]? ≠ some id)
      (act : s.Action j s') : Waits first style id s' frames taken
  | another {s : Session} {frames : List Frame} {taken : List (Except Error Bytes)}
      (earlier : Waits first style id s frames taken) (other : Style) (route : String)
      (request : Bytes) : Waits first style id (s.register other route request) frames taken
  | aside {s s' : Session} {frames : List Frame} {taken : List (Except Error Bytes)}
      (earlier : Waits first style id s frames taken) (calls : s'.calls = s.calls)
      (pending : s'.pending = s.pending) : Waits first style id s' frames taken

theorem Hears.register (h : s.Hears k id style replies taken c) (other : Style) (route : String)
    (request : Bytes) : (s.register other route request).Hears k id style replies taken c := by
  have hlt : k < s.calls.length := (List.getElem?_eq_some_iff.1 h.call).1
  rcases s.register_cases other route request with he | he | ⟨id', hfree, he⟩
  · rw [he]
    exact h.beside (List.getElem?_append_left hlt) Iff.rfl
  · rw [he]
    exact h
  · rw [he]
    refine h.beside (List.getElem?_append_left hlt) ?_
    rw [enter, Assoc.get?_insert]
    split
    · next hkey =>
        rw [hkey, hfree, Option.some_inj]
        exact iff_of_false (Nat.ne_of_gt hlt) (Option.some_ne_none k).symm
    · rfl

theorem hears_enter (first : Session) (style : Style) (route : String) (request : Bytes)
    (id : UInt32) : (first.enter style route request id).Hears first.calls.length id style [] []
      (.new style route request id) where
  call := List.getElem?_concat_length
  sameId := rfl
  sameStyle := rfl
  items := by cases style <;> rfl
  untaken _ := rfl
  pending := by
    rw [enter, Assoc.get?_insert, if_pos rfl]
    cases style <;> exact ⟨fun _ => rfl, fun _ => rfl⟩
  stage := .inl ⟨rfl, .inl rfl⟩

theorem Waits.hears {first : Session} (linked : first.Linked)
    (run : first.Waits style id s frames taken) :
    s.Linked ∧ ∃ c, s.Hears first.calls.length id style (Frame.repliesTo id frames) taken c := by
  induction run with
  | register route request given =>
      rw [given]
      exact ⟨linked.enter style route request id, _, hears_enter first style route request id⟩
  | route earlier f ih =>
      obtain ⟨hl, c, h⟩ := ih
      rw [Frame.repliesTo_concat]
      exact ⟨hl.route f, h.route hl f⟩
  | @take s s' frames taken earlier item took ih =>
      obtain ⟨hl, c, h⟩ := ih
      have hnext := confined_next hl first.calls.length
      rw [took] at hnext
      exact ⟨hnext.linked, h.take took⟩
  | post earlier now accepted ih =>
      obtain ⟨hl, c, h⟩ := ih
      exact ⟨(confined_post hl _ now).linked, h.post now accepted⟩
  | resumeSending earlier now sending accepted ih =>
      obtain ⟨hl, c, h⟩ := ih
      exact ⟨(confined_resumeSending hl _ now).linked, h.resumeSending now (sending c h.call) accepted⟩
  | resume earlier ih =>
      obtain ⟨hl, c, h⟩ := ih
      exact ⟨(confined_resume hl _).linked, h.resume hl⟩
  | other earlier j apart act ih =>
      -- the other call has another id, so neither the call nor its entry is touched
      obtain ⟨hl, c, h⟩ := ih
      have confined := act.confined hl
      refine ⟨confined.linked, c, h.confined confined (fun he => ?_) fun hid => absurd hid apart⟩
      rw [he, id_of_call h.call, h.sameId] at apart
      exact apart rfl
  | another earlier other route request ih =>
      obtain ⟨hl, c, h⟩ := ih
      exact ⟨hl.register other route request, c, h.register other route request⟩
  | aside earlier calls pending ih =>
      obtain ⟨hl, c, h⟩ := ih
      refine ⟨hl.congr ?_ (pending ▸ hl.ascending) (pending ▸ fun hk => hk), c, h.beside (by rw [calls]) ?_⟩
      · rw [Session.ids, calls, Session.ids]
      · rw [pending]

theorem Waits.receive {first : Session} (run : first.Waits style id s frames taken)
    (more : List Frame) : first.Waits style id (more.foldl Session.route s) (frames ++ more) taken := by
  induction more generalizing s frames with
  | nil => exact (List.append_nil frames).symm ▸ run
  | cons f more ih =>
      have next := ih (run.route f)
      rw [List.append_assoc] at next
      exact next

structure Observes (s : Session) (k : Nat) (style : Style) (replies : List Frame)
    (taken : List (Except Error Bytes)) (c : Call) : Prop where
  items : taken ++ c.inbox = observed style replies
  pending : s.isPending k c = !isOver style replies
  returned : style = .unary → taken = [] ∧
    ∀ result, c.stage = .returned result → observed .unary replies = [result]
  keeps : style = .unary → c.stage = .awaiting → replies = [] → s.resume k = s
  returns : style = .unary → c.stage = .awaiting → ∀ f rest, replies = f :: rest →
    ∃ c', (s.resume k).calls[k]? = some c' ∧ c'.stage = .returned (verdict f)
  next : c.stage = .streaming → (s.next k).2 = match c.inbox with
    | item :: _ => .item item
    | [] => if isOver style replies then .ended else .pending

theorem Hears.observes (h : s.Hears k id style replies taken c) (linked : s.Linked) :
    s.Observes k style replies taken c where
  items := h.items
  pending := h.isPending_eq
  returned := by
    rintro rfl
    refine ⟨h.untaken rfl, fun result hr => ?_⟩
    rw [observed, ← h.inbox, h.inbox_of_returned hr]
  keeps := by
    rintro rfl hs
    exact (h.resume_awaiting linked hs).1
  returns := by
    rintro rfl hs f rest hreplies
    obtain ⟨c', hears, returned⟩ := (h.resume_awaiting linked hs).2 f rest hreplies
    exact ⟨c', hears.call, returned⟩
  next hs := by
    have hpending := h.isPending_eq
    unfold Session.next
    rw [h.call]
    cases hi : c.inbox with
    | nil =>
        simp only [hs, hi, hpending]
        cases isOver style replies <;> rfl
    | cons item rest => simp only [hs, hi]

theorem demultiplexed {first : Session} (reachable : first.Reachable)
    (run : first.Waits style id s frames taken) :
    ∃ c, s.calls[first.calls.length]? = some c ∧ c.id = id ∧
      s.Observes first.calls.length style (Frame.repliesTo id frames) taken c ∧
      (∀ f, f.isReply = false ∨ Assoc.get? f.id.toNat s.pending = none → s.route f = s) ∧
      (isOver style (Frame.repliesTo id frames) = true → ∀ f, f.id = id →
        (∀ j, j ≠ first.calls.length → Assoc.get? id.toNat s.pending ≠ some j) → s.route f = s) := by
  obtain ⟨linked, c, h⟩ := run.hears reachable.linked
  refine ⟨c, h.call, h.sameId, h.observes linked, ?_, ?_⟩
  · rintro f (hf | hf)
    · exact route_of_not_isReply hf
    · exact route_of_unknown hf
  · intro finished f hid free
    refine route_of_unknown ?_
    rw [hid]
    cases hj : Assoc.get? id.toNat s.pending with
    | none => rfl
    | some j =>
        have hne : Assoc.get? id.toNat s.pending ≠ some first.calls.length := by
          rw [ne_eq, h.pending, finished]
          nofun
        by_cases heq : j = first.calls.length
        · exact absurd (heq ▸ hj) hne
        · exact absurd hj (free j heq)

namespace Interleaved

def first : Session :=
  (start (.empty (.empty 4 0) (.empty 4096))).register .unary (MethodPath.mk "clock" "Now").route []

def opened : Session :=
  first.register .serverStreaming (MethodPath.mk "clock" "Countdown").route []

def arrivals : List Frame := [
  .ofKind .streamChunk 2 [2], .ofKind .response 1 [9], .ofKind .cancel 2 [],
  .ofKind .streamChunk 2 [1], .ofKind .streamEnd 2 [], .ofKind .streamChunk 2 [0]]

theorem reachable_first : first.Reachable :=
  .step (.start _) (.register .unary ⟨"clock", "Now"⟩ [])

theorem stage_posted : (opened.post 1 0).calls[1]?.map Call.stage = some .streaming :=
  rfl

theorem posted : first.Waits .serverStreaming 2 (opened.post 1 0) [] [] := by
  refine .post (.register _ _ rfl) 0 fun c hc e he => ?_
  have hstage := stage_posted
  rw [show (opened.post 1 0).calls[1]? = some c from hc, Option.map_some, he] at hstage
  cases hstage

end Interleaved

theorem demultiplexed_interleaved :
    ∃ c, (Interleaved.arrivals.foldl route (Interleaved.opened.post 1 0)).calls[1]? = some c ∧
      c.inbox = [.ok [2], .ok [1]] ∧
      (Interleaved.arrivals.foldl route (Interleaved.opened.post 1 0)).isPending 1 c = false := by
  have run := Interleaved.posted.receive Interleaved.arrivals
  obtain ⟨c, hc, -, observes, -⟩ := demultiplexed Interleaved.reachable_first run
  exact ⟨c, hc, observes.items, observes.pending⟩

end Session

end SchemaRpc

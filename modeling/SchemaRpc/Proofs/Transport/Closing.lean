import SchemaRpc.Proofs.Transport.Lifetime

namespace SchemaRpc

namespace Call

def first (c : Call) : Except Error Bytes :=
  c.inbox.headD (.error .connectionClosed)

def Due (c : Call) (result : Except Error Bytes) : Prop :=
  match c.stage with
  | .returned r => result = r
  | .unsent e => result = .error e
  | .awaiting => result = c.first
  | .registered | .sending =>
    (∃ e, Outbox.Refuses e ∧ result = .error e) ∨ c.style = .unary ∧ result = c.first
  | .streaming | .dropped => False

structure Follows (c c' : Call) (items : List (Except Error Bytes)) : Prop where
  style : c'.style = c.style
  frame : c'.frame = c.frame
  heard : c'.isHeard = true → c.isHeard = true
  inbox : items ++ c'.inbox <+: c.inbox
  whole : c'.isHeard = true → items ++ c'.inbox = c.inbox
  results : ∀ result, c'.Due result → c.Due result
  final : c.isOver = true → c' = c ∧ items = []

variable {c c' c'' : Call} {items more : List (Except Error Bytes)} {p : Bool}

theorem Follows.refl (c : Call) : c.Follows c [] :=
  ⟨rfl, rfl, fun h => h, List.prefix_refl _, fun _ => rfl, fun _ h => h, fun _ => ⟨rfl, rfl⟩⟩

theorem Follows.trans (h : c.Follows c' items) (hn : c'.Follows c'' more) :
    c.Follows c'' (items ++ more) where
  style := hn.style.trans h.style
  frame := hn.frame.trans h.frame
  heard heard := h.heard (hn.heard heard)
  inbox := by
    rw [List.append_assoc]
    exact ((List.prefix_append_right_inj items).2 hn.inbox).trans h.inbox
  whole heard := by rw [List.append_assoc, hn.whole heard, h.whole (hn.heard heard)]
  results result due := h.results result (hn.results result due)
  final finished := by
    obtain ⟨rfl, rfl⟩ := h.final finished
    obtain ⟨rfl, rfl⟩ := hn.final finished
    exact ⟨rfl, rfl⟩

theorem IsUnposted.due_iff (h : c.IsUnposted) (result : Except Error Bytes) :
    c.Due result ↔
      (∃ e, Outbox.Refuses e ∧ result = .error e) ∨ c.style = .unary ∧ result = c.first := by
  rcases h with hs | hs <;> rw [Due, hs]

theorem Returns.due {result : Except Error Bytes} (h : c.Returns p result) : c.Due result := by
  cases h with
  | unsent e stage => rw [Due, stage]
  | item item rest stage inbox => rw [Due, stage, first, inbox]; rfl
  | closed stage inbox finished => rw [Due, stage, first, inbox]; rfl

theorem due_sent (c : Call) (result : Except Error Bytes) :
    c.sent.Due result ↔ c.style = .unary ∧ result = c.first := by
  cases hs : c.style <;> simp [Due, sent, hs, first]

theorem Moved.results (h : c.Moved p c' items) {result : Except Error Bytes} (due : c'.Due result) :
    c.Due result := by
  cases h with
  | posts unposted => exact (unposted.due_iff result).2 (.inr ((c.due_sent result).1 due))
  | waits stage =>
      rw [Due, stage]
      exact due
  | refused unposted e cause => exact (unposted.due_iff result).2 (.inl ⟨e, cause, due⟩)
  | returns isGuarded r source =>
      cases due
      exact source.due
  | takes item rest stage inbox => simp [Due, stage] at due
  | deafens stage => simp [Due, stage] at due
  | unguards isGuarded stage => simp [Due, stage] at due
  | drops isGuarded held here => cases due

theorem Moved.follows (h : c.Moved p c' items) : c.Follows c' items where
  style := h.style
  frame := by cases h <;> rfl
  heard := by cases h <;> first | exact fun heard => heard | nofun
  inbox := h.inbox
  whole := by cases h <;> simp_all [sent]
  results _ := h.results
  final finished := by rw [h.not_isOver] at finished; cases finished

theorem first_deliver (c : Call) : (c.deliver (.error .connectionClosed)).first = c.first := by
  unfold deliver
  split
  · cases hi : c.inbox <;> simp [first, hi]
  · rfl

theorem due_deliver (c : Call) (result : Except Error Bytes) :
    (c.deliver (.error .connectionClosed)).Due result ↔ c.Due result := by
  rw [Due, stage_deliver, first_deliver, style_deliver, Due]

theorem frame_deliver (c : Call) (item : Except Error Bytes) : (c.deliver item).frame = c.frame := by
  unfold deliver
  split <;> rfl

theorem inbox_isPrefix_deliver (c : Call) (item : Except Error Bytes) :
    c.inbox <+: (c.deliver item).inbox := by
  unfold deliver
  split
  · exact List.prefix_append _ _
  · exact List.prefix_refl _

theorem Follows.deliver (h : c.Follows c' items) :
    (c.deliver (.error .connectionClosed)).Follows (c'.deliver (.error .connectionClosed)) items := by
  have whole : c'.isHeard = true → items ++ (c'.deliver (.error .connectionClosed)).inbox =
      (c.deliver (.error .connectionClosed)).inbox := by
    intro heard
    rw [inbox_deliver heard, inbox_deliver (h.heard heard), ← List.append_assoc, h.whole heard]
  refine ⟨?_, ?_, ?_, ?_, ?_, fun result due => ?_, fun finished => ?_⟩
  · rw [style_deliver, style_deliver, h.style]
  · rw [frame_deliver, frame_deliver, h.frame]
  · rw [isHeard_deliver, isHeard_deliver]
    exact h.heard
  · cases heard : c'.isHeard with
    | true => exact whole heard ▸ List.prefix_refl _
    | false =>
        rw [deliver_of_unheard heard]
        exact h.inbox.trans (inbox_isPrefix_deliver c _)
  · rw [isHeard_deliver]
    exact whole
  · rw [due_deliver] at due ⊢
    exact h.results result due
  · rw [isOver_deliver] at finished
    obtain ⟨rfl, rfl⟩ := h.final finished
    exact ⟨rfl, rfl⟩

end Call

namespace Session

variable {s : Session} {k : Nat} {c : Call}

theorem post_of_posted (hc : s.calls[k]? = some c) (hs : c.stage ≠ .registered) (now : Nat) :
    s.post k now = s := by
  unfold post
  rw [hc]
  cases hstage : c.stage with
  | registered => exact absurd hstage hs
  | _ => simp only [hstage]

theorem resumeSending_of_not_queues (h : ¬s.Queues k) (now : Nat) : s.resumeSending k now = s := by
  unfold resumeSending
  cases hr : s.outbox.resume? k now with
  | none => rfl
  | some answer =>
      obtain ⟨w, hw, ht, -⟩ := Outbox.resumed hr
      exact absurd ⟨w, hw, ht⟩ h

end Session

namespace Lifetime

variable {n m l : Lifetime} {s : Session} {k : Nat} {c c' : Call} {items : List (Except Error Bytes)}

def told (n : Lifetime) (k : Nat) (c : Call) : Call :=
  if k ∈ n.untold then c.deliver (.error .connectionClosed) else c

structure Carries (n m : Lifetime) : Prop where
  calls : ∀ (k : Nat) (c : Call), n.session.calls[k]? = some c →
    ∃ c' items, m.session.calls[k]? = some c' ∧ m.taken.of k = n.taken.of k ++ items ∧
      (n.told k c).Follows (m.told k c') items
  later : ∀ (k : Nat) (c' : Call), n.session.calls[k]? = none → m.session.calls[k]? = some c' →
    ∃ style route request, c' = Call.rejected style route request

theorem told_of_unheard (n : Lifetime) (k : Nat) (h : c.isHeard = false) : n.told k c = c := by
  unfold told
  split
  · exact c.deliver_of_unheard h _
  · rfl

theorem isHeard_told (n : Lifetime) (k : Nat) (c : Call) : (n.told k c).isHeard = c.isHeard := by
  unfold told
  split
  · exact c.isHeard_deliver _
  · rfl

theorem follows_told (h : Call.Follows c c' items) (untold : m.untold = n.untold) :
    (n.told k c).Follows (m.told k c') items := by
  unfold Lifetime.told
  rw [untold]
  split
  · exact h.deliver
  · exact h

theorem Carries.same (calls : m.session.calls = n.session.calls) (untold : m.untold = n.untold)
    (taken : m.taken = n.taken) : n.Carries m where
  calls k c hc := by
    refine ⟨c, [], calls ▸ hc, by rw [taken, List.append_nil], ?_⟩
    exact follows_told (.refl c) untold
  later k c' none hc := by
    rw [calls, none] at hc
    cases hc

theorem Carries.trans (h : n.Carries m) (hn : m.Carries l) : n.Carries l where
  calls k c hc := by
    obtain ⟨c', items, hc', taken, follows⟩ := h.calls k c hc
    obtain ⟨c'', more, hc'', taken', follows'⟩ := hn.calls k c' hc'
    exact ⟨c'', items ++ more, hc'', by rw [taken', taken, List.append_assoc], follows.trans follows'⟩
  later k c'' none hc'' := by
    cases hm : m.session.calls[k]? with
    | none => exact hn.later k c'' hm hc''
    | some c' =>
        -- a call that has been turned down stays as it is
        obtain ⟨style, route, request, rfl⟩ := h.later k c' none hm
        obtain ⟨d, items, hd, -, follows⟩ := hn.calls k _ hm
        rw [hc''] at hd
        cases hd
        rw [m.told_of_unheard k rfl] at follows
        obtain ⟨same, -⟩ := follows.final rfl
        have unheard := l.isHeard_told k c''
        rw [same] at unheard
        rw [l.told_of_unheard k unheard.symm] at same
        exact ⟨style, route, request, same⟩

theorem carries_turned (t : Session.Turned k n.session s items) :
    n.Carries { n with session := s, taken := n.taken ++ items.map fun item => (k, item) } := by
  cases t with
  | rest same nothing =>
      subst same nothing
      exact .same rfl rfl (List.append_nil _)
  | turn c c' before after moved confined isClosed others own =>
      refine ⟨fun j d hd => ?_, fun j d none hd => ?_⟩
      · by_cases hj : j = k
        · subst hj
          rw [before] at hd
          cases hd
          exact ⟨c', items, after, by rw [of_append_map, if_pos rfl], follows_told moved.follows rfl⟩
        · refine ⟨d, [], (confined.others j hj).trans hd, by rw [of_append_map, if_neg hj], ?_⟩
          exact follows_told (.refl d) rfl
      · have hj : j ≠ k := by
          rintro rfl
          rw [before] at none
          cases none
        rw [confined.others j hj, none] at hd
        cases hd

theorem carries_register (closed : n.session.isClosed = true) (style : Style) (route : String)
    (request : Bytes) : n.Carries { n with session := n.session.register style route request } := by
  rw [Session.register_of_closed closed]
  refine ⟨fun j d hd => ?_, fun j d none hd => ?_⟩
  · refine ⟨d, [], getElem?_concat_iff.2 (.inl hd), (List.append_nil _).symm, ?_⟩
    exact follows_told (.refl d) rfl
  · rcases getElem?_concat_iff.1 hd with hd | ⟨-, rfl⟩
    · rw [none] at hd
      cases hd
    · exact ⟨style, route, request, rfl⟩

theorem carries_tell (h : n.Orderly) (untold : k ∈ n.untold) : n.Carries { n with
    session := n.session.deliver k (.error .connectionClosed)
    untold := n.untold.erase k } := by
  obtain ⟨c, hc⟩ := h.exists_of_untold untold
  have confined := Session.confined_deliver h.linked k (.error .connectionClosed)
  refine ⟨fun j d hd => ?_, fun j d none hd => ?_⟩
  · by_cases hj : j = k
    · subst hj
      rw [hc] at hd
      cases hd
      refine ⟨_, [], Session.call_modifyCall hc _, (List.append_nil _).symm, ?_⟩
      rw [told, if_pos untold, told, if_neg h.distinct.not_mem_erase]
      exact .refl _
    · refine ⟨d, [], (confined.others j hj).trans hd, (List.append_nil _).symm, ?_⟩
      have hiff : j ∈ n.untold.erase k ↔ j ∈ n.untold := List.mem_erase_of_ne hj
      simp only [told, hiff]
      exact .refl _
  · have hj : j ≠ k := by
      rintro rfl
      rw [hc] at none
      cases none
    rw [confined.others j hj, none] at hd
    cases hd

theorem carries_effect (h : n.Orderly) (closed : n.session.isClosed = true)
    (effect : Session.Effect n.session s) :
    s.isClosed = true ∧ n.Carries { n with session := s } := by
  cases effect with
  | turned k turn =>
      have carries := carries_turned turn
      rw [List.map_nil, List.append_nil] at carries
      exact ⟨turn.isClosed.trans closed, carries⟩
  | registered style route request same =>
      subst same
      refine ⟨?_, carries_register closed style route request⟩
      rw [Session.register_of_closed closed]
      exact closed
  | aside alike => exact ⟨alike.isClosed.trans closed, .same alike.calls rfl rfl⟩
  | failed mid alike same =>
      -- there is nobody left to be told
      have empty : mid.pending = [] := alike.pending.trans (h.empty closed)
      rw [Session.failPending_eq, empty] at same
      subst same
      exact ⟨rfl, .same alike.calls rfl rfl⟩

theorem Step.carries (h : n.Orderly) (closed : n.session.isClosed = true) (step : n.Step m) :
    m.session.isClosed = true ∧ n.Carries m := by
  have empty := h.empty closed
  cases step with
  | session step => exact carries_effect h closed (step.effect h.linked h.line)
  | next k took =>
      have t := Session.turned_next h.linked h.line took
      exact ⟨t.isClosed.trans closed, carries_turned t⟩
  | route f =>
      rw [Session.route_of_unknown (by rw [empty]; rfl)]
      exact ⟨closed, .same rfl rfl rfl⟩
  | read data => exact carries_effect h closed (n.session.effect_read data)
  | drain =>
      refine ⟨rfl, .same rfl ?_ rfl⟩
      change n.untold ++ n.session.pending.map Prod.snd = n.untold
      rw [empty, List.map_nil, List.append_nil]
  | tell k untold => exact ⟨closed, carries_tell h untold⟩
  | _ => exact ⟨closed, .same rfl rfl rfl⟩

structure Keeps (n m : Lifetime) (k : Nat) (c c' : Call) : Prop where
  style : c'.style = c.style
  frame : c'.frame = c.frame
  channel : m.channel k (m.told k c') <+: n.channel k (n.told k c)
  whole : c'.isHeard = true → m.channel k (m.told k c') = n.channel k (n.told k c)
  result : ∀ result, c'.stage = .returned result → c.Due result
  finished : c.isOver = true → c' = c

structure Leaves (n m : Lifetime) : Prop where
  calls : ∀ (k : Nat) (c : Call), n.session.calls[k]? = some c →
    ∃ c', m.session.calls[k]? = some c' ∧ n.Keeps m k c c'
  later : ∀ (k : Nat) (c' : Call), n.session.calls[k]? = none → m.session.calls[k]? = some c' →
    ∃ style route request, c' = Call.rejected style route request

theorem due_told (n : Lifetime) (k : Nat) (c : Call) (result : Except Error Bytes) :
    (n.told k c).Due result ↔ c.Due result := by
  unfold told
  split
  · exact c.due_deliver result
  · rfl

theorem style_told (n : Lifetime) (k : Nat) (c : Call) : (n.told k c).style = c.style := by
  unfold told
  split
  · exact c.style_deliver _
  · rfl

theorem frame_told (n : Lifetime) (k : Nat) (c : Call) : (n.told k c).frame = c.frame := by
  unfold told
  split
  · exact c.frame_deliver _
  · rfl

theorem Carries.leaves (h : n.Orderly) (carries : n.Carries m) : n.Leaves m where
  calls k c hc := by
    obtain ⟨c', items, hc', taken, follows⟩ := carries.calls k c hc
    refine ⟨c', hc', ?_, ?_, ?_, fun heard => ?_, fun result hs => ?_, fun finished => ?_⟩
    · rw [← m.style_told k c', follows.style, n.style_told]
    · rw [← m.frame_told k c', follows.frame, n.frame_told]
    · rw [channel, channel, taken, List.append_assoc]
      exact (List.prefix_append_right_inj _).2 follows.inbox
    · rw [channel, channel, taken, List.append_assoc, follows.whole (by rwa [m.isHeard_told])]
    · refine (n.due_told k c result).1 (follows.results result ((m.due_told k c' result).2 ?_))
      rw [Call.Due, hs]
    · have unheard := (h.calls k c hc).deaf finished
      rw [n.told_of_unheard k unheard] at follows
      obtain ⟨same, -⟩ := follows.final finished
      have unheard' := m.isHeard_told k c'
      rw [same, unheard] at unheard'
      rw [← same, m.told_of_unheard k unheard'.symm]
  later := carries.later

structure Closes (n m : Lifetime) : Prop where
  taken : m.taken = n.taken
  calls : ∀ k, m.session.calls[k]?.map (m.told k) = n.session.calls[k]?.map fun c =>
    if n.session.isPending k c then c.deliver (.error .connectionClosed) else c
  chunks : ∀ k c, n.session.calls[k]? = some c → n.session.isPending k c = true →
    ∀ item ∈ n.channel k c, ∃ message, item = .ok message
  single : ∀ k c, n.session.calls[k]? = some c → n.session.isPending k c = true →
    c.style = .unary → n.channel k c = []

theorem Orderly.untold_eq_nil (h : n.Orderly) (opened : n.session.isClosed = false) :
    n.untold = [] := by
  cases hu : n.untold with
  | nil => rfl
  | cons k rest => cases (h.closed (by rw [hu]; nofun)).symm.trans opened

theorem Orderly.closes (h : n.Orderly) (taken : m.taken = n.taken)
    (calls : ∀ k, m.session.calls[k]?.map (m.told k) = n.session.calls[k]?.map fun c =>
      if n.session.isPending k c then c.deliver (.error .connectionClosed) else c) : n.Closes m where
  taken := taken
  calls := calls
  chunks k c hc pending := (h.calls k c hc).chunks (.inl pending)
  single k c hc pending style := by
    obtain ⟨-, none, inbox⟩ := (h.calls k c hc).single style
    rw [channel, none, inbox (.inl pending)]
    rfl

theorem closes_failPending (h : n.Orderly) (opened : n.session.isClosed = false) :
    n.Closes { n with session := n.session.failPending } := by
  refine h.closes rfl fun k => ?_
  have all := Session.call_failPending h.linked.ascending (fun _ _ => h.linked.points) k
  rw [← all]
  have same : told { n with session := n.session.failPending } k = fun c => c := by
    funext c
    simp [told, h.untold_eq_nil opened]
  rw [same, Option.map_id']

theorem closes_drain (h : n.Orderly) (opened : n.session.isClosed = false) : n.Closes { n with
    session := n.session.drain
    untold := n.untold ++ n.session.pending.map Prod.snd } := by
  refine h.closes rfl fun k => ?_
  change n.session.calls[k]?.map _ = _
  cases hc : n.session.calls[k]? with
  | none => rfl
  | some c =>
      have drained := Session.mem_pending h.linked.ascending (fun _ _ => h.linked.points) hc
      simp only [Option.map_some, told, h.untold_eq_nil opened, List.nil_append, drained]

theorem closes_effect (h : n.Orderly) (opened : n.session.isClosed = false)
    (effect : Session.Effect n.session s) (closed : s.isClosed = true) :
    n.Closes { n with session := s } := by
  cases effect with
  | turned k turn => cases (closed.symm.trans turn.isClosed).trans opened
  | registered style route request same =>
      rw [same, Session.isClosed_register, opened] at closed
      cases closed
  | aside alike => cases (closed.symm.trans alike.isClosed).trans opened
  | failed mid alike same =>
      have closes := closes_failPending (h.aside alike) (alike.isClosed.trans opened)
      subst same
      refine h.closes rfl fun k => (closes.calls k).trans ?_
      simp only [Session.isPending, alike.calls, alike.pending]
      rfl

theorem Step.closes (h : n.Orderly) (opened : n.session.isClosed = false) (step : n.Step m)
    (closed : m.session.isClosed = true) : n.Closes m := by
  cases step with
  | session step => exact closes_effect h opened (step.effect h.linked h.line) closed
  | next k took =>
      have t := Session.turned_next h.linked h.line took
      cases (closed.symm.trans t.isClosed).trans opened
  | route f =>
      cases Session.routed_route h.linked f with
      | rest same => cases (closed.symm.trans (congrArg Session.isClosed same)).trans opened
      | came k c item before pending after confined isClosed outlet still =>
          cases (closed.symm.trans isClosed).trans opened
  | read data => exact closes_effect h opened (n.session.effect_read data) closed
  | drain => exact closes_drain h opened
  | _ => cases closed.symm.trans opened

namespace Interrupted

def streaming : Lifetime :=
  ⟨(Session.Interleaved.opened.post 1 0).route (.ofKind .streamChunk 2 [7]), [], []⟩

def drained : Lifetime :=
  ⟨streaming.session.drain, [0, 1], []⟩

def late : Lifetime :=
  ⟨(drained.session.deliver 1 (.error .connectionClosed)).register .unary
    (MethodPath.mk "clock" "Now").route [], [0], []⟩

theorem reachable_streaming : streaming.Reachable := by
  have registered := Relation.ReflTransGen.single
    (Step.session (n := start 4 0 4096) (.register .unary ⟨"clock", "Now"⟩ []))
  have both := registered.tail (.session (.register .serverStreaming ⟨"clock", "Countdown"⟩ []))
  have posted := both.tail (.session (.post 1 0))
  exact ⟨4, 0, 4096, posted.tail (.route (.ofKind .streamChunk 2 [7]))⟩

end Interrupted

end Lifetime

end SchemaRpc

import SchemaRpc.Proofs.Transport.Network
import SchemaRpc.Proofs.Transport.Telling
import SchemaRpc.Proofs.Transport.Turns

namespace SchemaRpc

namespace Call

def HasPosted (c : Call) : Prop :=
  match c.stage with
  | .registered | .sending | .unsent _ => False
  | .awaiting | .streaming | .returned _ | .dropped => True

variable {c c' : Call} {p p' : Bool} {frames : List Frame}

theorem IsUnposted.not_hasPosted (h : c.IsUnposted) : ¬c.HasPosted := by
  rcases h with h | h <;> simp [HasPosted, h]

theorem hasPosted_sent (c : Call) : c.sent.HasPosted := by
  rw [HasPosted, sent]
  cases c.style <;> trivial

namespace Turn

theorem frame (h : Turn c p c' p' frames) : c'.frame = c.frame := by
  cases h <;> rfl

theorem id (h : Turn c p c' p' frames) : c'.id = c.id := by
  cases h <;> rfl

theorem route (h : Turn c p c' p' frames) : c'.route = c.route := by
  cases h <;> rfl

theorem hasPosted (h : Turn c p c' p' frames) (hc : c.HasPosted) : c'.HasPosted := by
  cases h with
  | posts _ => exact hasPosted_sent c
  | waits stage => exact absurd hc (IsUnposted.not_hasPosted (.inl stage))
  | refused unposted _ _ => exact absurd hc unposted.not_hasPosted
  | returns _ _ _ _ _ => trivial
  | leaves stage _ _ _ _ last _ _ =>
      rcases last with rfl | ⟨rfl, _⟩
      · trivial
      · trivial

theorem unposted (h : Turn c p c' p' frames) (hc : c'.IsUnposted) : c.IsUnposted := by
  cases h with
  | posts _ => exact absurd (hasPosted_sent c) hc.not_hasPosted
  | waits stage => exact .inl stage
  | refused unposted _ _ => exact unposted
  | returns _ _ _ _ _ => rcases hc with hc | hc <;> cases hc
  | leaves stage _ _ _ _ last _ _ =>
      rcases last with rfl | ⟨rfl, _⟩
      · rcases hc with hc | hc <;> cases hc
      · rcases hc with hc | hc <;> cases hc

theorem queues (h : Turn c p c' p' frames) :
    frames = [c.frame] ∧ c.IsUnposted ∧ c'.HasPosted ∨ c.Cancels frames := by
  cases h with
  | posts unposted => exact .inl ⟨rfl, unposted, hasPosted_sent c⟩
  | waits _ => exact .inr nofun
  | refused _ _ _ => exact .inr nofun
  | returns _ _ _ _ cancels => exact .inr cancels
  | leaves _ _ _ _ _ _ _ cancels => exact .inr cancels

end Turn

end Call

theorem Frame.isRequest_cancel (id : UInt32) : (ofKind .cancel id []).isRequest = false := by
  rw [isRequest, kind_ofKind]

namespace Session

def Owns (s : Session) (f : Frame) : Prop :=
  (∃ id, id ≠ 0 ∧ f = .ofKind .cancel id []) ∨
    ∃ (k : Nat) (c : Call), s.calls[k]? = some c ∧ c.HasPosted ∧ c.id ≠ 0 ∧ f = c.frame

structure Posted (s : Session) (sent : List Frame) : Prop where
  line : s.InLine
  origin : ∀ f ∈ sent, s.Owns f
  distinct : (sent.filter Frame.isRequest).Pairwise fun f g => f.id ≠ g.id
  numbered : ∀ (k : Nat) (c : Call), s.calls[k]? = some c → c.IsUnposted → c.id ≠ 0
  routed : ∀ (k : Nat) (c : Call), s.calls[k]? = some c → ∃ path : MethodPath, c.route = path.route

variable {s s' : Session} {k : Nat} {c : Call} {p : Bool} {sent frames : List Frame}

theorem queue_drop (h : s.outlet.Queued frames s'.outlet) :
    s'.outbox.queue.drop s.outbox.queue.length = frames := by
  have hq : s'.outbox.queue = s.outbox.queue ++ frames := h.queue
  rw [hq, List.drop_left]

theorem Acts.call_other (h : Acts k s s' frames) {j : Nat} (hj : j ≠ k) :
    s'.calls[j]? = s.calls[j]? := by
  have hfst : ∀ t : Session, (t.standing j).map Prod.fst = t.calls[j]? := by
    intro t
    rw [standing, Option.map_map]
    exact Option.map_id'
  rw [← hfst s', ← hfst s, h.others j hj]

theorem Posted.distinct_append (h : s.Posted sent) (hn : s.Numbered) (hc : s.calls[k]? = some c)
    (hu : c.IsUnposted) : ((sent ++ [c.frame]).filter Frame.isRequest).Pairwise fun f g =>
      f.id ≠ g.id := by
  rw [List.filter_append, List.pairwise_append]
  refine ⟨h.distinct, (List.pairwise_singleton _ _).filter _, fun f hf g hg he => ?_⟩
  obtain ⟨hf, hr⟩ := List.mem_filter.1 hf
  obtain rfl := List.mem_singleton.1 (List.mem_filter.1 hg).1
  rcases h.origin f hf with ⟨id, _, rfl⟩ | ⟨j, d, hd, hposted, hid, rfl⟩
  · rw [Frame.isRequest_cancel] at hr
    cases hr
  · have hjk := hn.eq_of_id hd hc he hid
    rw [hjk, hc] at hd
    cases hd
    exact hu.not_hasPosted hposted

theorem Posted.moves (h : s.Posted sent) (hn : s.Numbered) (hm : Moves k s s') :
    s'.Posted (sent ++ s'.outbox.queue.drop s.outbox.queue.length) := by
  cases hm with
  | rest same =>
      rw [same, List.drop_length, List.append_nil]
      exact h
  | turn c c' p p' frames before after acts turn line =>
      rw [queue_drop acts.queued]
      have hc := call_of_standing before
      have hc' := call_of_standing after
      -- a call is the one that had the turn, or as it was
      have hcalls : ∀ j d, s'.calls[j]? = some d → j = k ∧ d = c' ∨ j ≠ k ∧ s.calls[j]? = some d := by
        intro j d hd
        by_cases hj : j = k
        · rw [hj, hc'] at hd
          cases hd
          exact .inl ⟨hj, rfl⟩
        · exact .inr ⟨hj, acts.call_other hj ▸ hd⟩
      have horigin : ∀ f ∈ sent, s'.Owns f := by
        intro f hf
        rcases h.origin f hf with hcancel | ⟨j, d, hd, hposted, hid, rfl⟩
        · exact .inl hcancel
        · by_cases hj : j = k
          · rw [hj, hc] at hd
            cases hd
            exact .inr ⟨k, c', hc', turn.hasPosted hposted, turn.id ▸ hid, turn.frame.symm⟩
          · exact .inr ⟨j, d, (acts.call_other hj).trans hd, hposted, hid, rfl⟩
      refine ⟨?_, ?_, ?_, ?_, ?_⟩
      · intro w hw
        rcases line w hw with ⟨hw, hne⟩ | ⟨ht, hs, hf⟩
        · obtain ⟨d, hd, hs, hf⟩ := h.line w hw
          exact ⟨d, (acts.call_other hne).trans hd, hs, hf⟩
        · exact ⟨c', ht ▸ hc', hs, hf⟩
      · intro f hf
        rcases List.mem_append.1 hf with hf | hf
        · exact horigin f hf
        · rcases turn.queues with ⟨rfl, hu, hposted⟩ | hcancels
          · obtain rfl := List.mem_singleton.1 hf
            exact .inr ⟨k, c', hc', hposted, turn.id ▸ h.numbered k c hc hu, turn.frame.symm⟩
          · obtain ⟨rfl, hid⟩ := hcancels f hf
            exact .inl ⟨c.id, hid, rfl⟩
      · rcases turn.queues with ⟨rfl, hu, _⟩ | hcancels
        · exact h.distinct_append hn hc hu
        · have hnone : frames.filter Frame.isRequest = [] := by
            rw [List.filter_eq_nil_iff]
            intro f hf
            rw [(hcancels f hf).1, Frame.isRequest_cancel]
            nofun
          rw [List.filter_append, hnone, List.append_nil]
          exact h.distinct
      · intro j d hd hu
        rcases hcalls j d hd with ⟨-, rfl⟩ | ⟨-, hd⟩
        · exact turn.id ▸ h.numbered k c hc (turn.unposted hu)
        · exact h.numbered j d hd hu
      · intro j d hd
        rcases hcalls j d hd with ⟨-, rfl⟩ | ⟨-, hd⟩
        · exact turn.route ▸ h.routed k c hc
        · exact h.routed j d hd

theorem Posted.told (h : s.Posted sent) (waiting : s'.outbox.waiting = s.outbox.waiting)
    (calls : s'.calls.map Call.bare = s.calls.map Call.bare) : s'.Posted sent := by
  refine ⟨?_, ?_, h.distinct, ?_, ?_⟩
  · intro w hw
    rw [waiting] at hw
    obtain ⟨c, hc, hs, hf⟩ := h.line w hw
    obtain ⟨c', hc', hb⟩ := call_of_bare calls hc
    refine ⟨c', hc', ?_, ?_⟩
    · change c'.bare.stage = _
      rw [hb]
      exact hs
    · change _ = c'.bare.frame
      rw [hb]
      exact hf
  · intro f hf
    rcases h.origin f hf with hcancel | ⟨k, c, hc, hposted, hid, rfl⟩
    · exact .inl hcancel
    · obtain ⟨c', hc', hb⟩ := call_of_bare calls hc
      refine .inr ⟨k, c', hc', ?_, ?_, ?_⟩
      · change c'.bare.HasPosted
        rw [hb]
        exact hposted
      · change c'.bare.id ≠ 0
        rw [hb]
        exact hid
      · change _ = c'.bare.frame
        rw [hb]
        rfl
  · intro k c' hc' hu
    obtain ⟨c, hc, hb⟩ := call_of_bare calls.symm hc'
    change c'.bare.id ≠ 0
    rw [← hb]
    refine h.numbered k c hc ?_
    change c.bare.IsUnposted
    rw [hb]
    exact hu
  · intro k c' hc'
    obtain ⟨c, hc, hb⟩ := call_of_bare calls.symm hc'
    change ∃ path : MethodPath, c'.bare.route = path.route
    rw [← hb]
    exact h.routed k c hc

theorem Posted.append (h : s.Posted sent) {d : Call} (waiting : s'.outbox.waiting = s.outbox.waiting)
    (calls : s'.calls = s.calls ++ [d]) (numbered : d.IsUnposted → d.id ≠ 0)
    (routed : ∃ path : MethodPath, d.route = path.route) : s'.Posted sent := by
  have hforth : ∀ (k : Nat) (c : Call), s.calls[k]? = some c → s'.calls[k]? = some c := by
    intro k c hc
    rw [calls]
    exact getElem?_append_of_eq_some hc _
  have hback : ∀ (k : Nat) (c : Call), s'.calls[k]? = some c → s.calls[k]? = some c ∨ c = d := by
    intro k c hc
    rw [calls, List.getElem?_append] at hc
    split at hc
    · exact .inl hc
    · exact .inr (List.mem_singleton.1 (List.mem_of_getElem? hc))
  refine ⟨?_, ?_, h.distinct, ?_, ?_⟩
  · intro w hw
    rw [waiting] at hw
    obtain ⟨c, hc, hs, hf⟩ := h.line w hw
    exact ⟨c, hforth _ c hc, hs, hf⟩
  · intro f hf
    rcases h.origin f hf with hcancel | ⟨k, c, hc, hrest⟩
    · exact .inl hcancel
    · exact .inr ⟨k, c, hforth k c hc, hrest⟩
  · intro k c hc hu
    rcases hback k c hc with hc | rfl
    · exact h.numbered k c hc hu
    · exact numbered hu
  · intro k c hc
    rcases hback k c hc with hc | rfl
    · exact h.routed k c hc
    · exact routed

theorem Posted.register (h : s.Posted sent) (hn : s.Numbered) (style : Style) (path : MethodPath)
    (request : Bytes) : (s.register style path.route request).Posted sent := by
  rcases register_eq hn style path.route request with he | he
  · rw [he]
    refine h.append (d := .rejected style path.route request) rfl rfl ?_ ⟨path, rfl⟩
    rintro (hu | hu) <;> cases hu
  · rw [he]
    exact h.append (d := .new style path.route request s.nextId) rfl rfl
      (fun _ => hn.positive) ⟨path, rfl⟩

theorem posted_start {outlet : Outlet} (h : outlet.outbox.waiting = []) :
    (start outlet).Posted [] := by
  have hnone : ∀ (k : Nat) (c : Call), (start outlet).calls[k]? ≠ some c := by
    intro k c hc
    rw [standing_eq_none.1 (standing_start outlet k)] at hc
    cases hc
  refine ⟨fun w hw => ?_, nofun, List.Pairwise.nil, fun k c hc => absurd hc (hnone k c),
    fun k c hc => absurd hc (hnone k c)⟩
  change w ∈ outlet.outbox.waiting at hw
  rw [h] at hw
  cases hw

end Session

end SchemaRpc

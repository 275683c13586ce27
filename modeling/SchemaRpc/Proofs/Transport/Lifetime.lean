import Mathlib.Logic.Relation
import SchemaRpc.Proofs.Transport.Callers

namespace SchemaRpc

namespace Session

def drain (s : Session) : Session :=
  { s with isClosed := true, pending := [] }

end Session

structure Lifetime where
  session : Session
  untold : List Nat
  taken : Takings

namespace Lifetime

def start (room patience size : Nat) : Lifetime :=
  ⟨.start (.empty (.empty room patience) (.empty size)), [], []⟩

/-- Whoever can do something may do it next, and any frame may be the next to be routed. A call may
even come back before it is told that the session is closed: it comes back with just that. -/
inductive Step (n : Lifetime) : Lifetime → Prop
  | session {s : Session} (step : n.session.Step s) : Step n { n with session := s }
  | next {s : Session} {item : Except Error Bytes} (k : Nat)
      (took : n.session.next k = (s, .item item)) :
      Step n { n with session := s, taken := n.taken ++ [(k, item)] }
  | route (f : Frame) : Step n { n with session := n.session.route f }
  | read (data : Bytes) : Step n { n with session := (n.session.read data).1 }
  | write {o : Outlet} (step : n.session.outlet.advance? n.session.hasSenders = some o) :
      Step n { n with session := { n.session with outlet := o } }
  | pipe (p : Pipe) :
      Step n { n with session := { n.session with outlet := { n.session.outlet with pipe := p } } }
  | stop : Step n { n with session := { n.session with isReading := false } }
  | abort : Step n { n with session := { n.session with outlet := n.session.outlet.abort } }
  | drain : Step n { n with
      session := n.session.drain
      untold := n.untold ++ n.session.pending.map Prod.snd }
  | tell (k : Nat) (untold : k ∈ n.untold) : Step n { n with
      session := n.session.deliver k (.error .connectionClosed)
      untold := n.untold.erase k }

def Reachable (n : Lifetime) : Prop :=
  ∃ room patience size, Relation.ReflTransGen Step (start room patience size) n

def Expects (n : Lifetime) (k : Nat) (c : Call) : Prop :=
  n.session.isPending k c = true ∨ k ∈ n.untold

def channel (n : Lifetime) (k : Nat) (c : Call) : List (Except Error Bytes) :=
  n.taken.of k ++ c.inbox

structure Sound (n : Lifetime) (k : Nat) (c : Call) : Prop where
  chunks : n.Expects k c → ∀ item ∈ n.channel k c, ∃ message, item = .ok message
  single : c.style = .unary →
    c.stage ≠ .streaming ∧ n.taken.of k = [] ∧ (n.Expects k c → c.inbox = [])
  deaf : c.isOver = true → c.isHeard = false

structure Orderly (n : Lifetime) : Prop where
  linked : n.session.Linked
  line : n.session.Aligned
  empty : n.session.isClosed = true → n.session.pending = []
  closed : n.untold ≠ [] → n.session.isClosed = true
  distinct : n.untold.Nodup
  calls : ∀ k c, n.session.calls[k]? = some c → n.Sound k c
  absent : ∀ k, n.session.calls[k]? = none → k ∉ n.untold ∧ n.taken.of k = []

variable {n m : Lifetime} {s : Session} {k : Nat} {c c' : Call} {items : List (Except Error Bytes)}

theorem Sound.mono (h : n.Sound k c) (taken : m.taken.of k = n.taken.of k)
    (still : m.Expects k c → n.Expects k c) : m.Sound k c where
  chunks expects := by
    rw [channel, taken]
    exact h.chunks (still expects)
  single style := by
    obtain ⟨stage, none, inbox⟩ := h.single style
    exact ⟨stage, taken.trans none, fun expects => inbox (still expects)⟩
  deaf := h.deaf

theorem Sound.deliver (h : n.Sound k c) (item : Except Error Bytes)
    (taken : m.taken.of k = n.taken.of k)
    (still : m.Expects k c →
      n.Expects k c ∧ c.style = .serverStreaming ∧ ∃ message, item = .ok message) :
    m.Sound k (c.deliver item) := by
  have expects : m.Expects k (c.deliver item) ↔ m.Expects k c := by
    rw [Expects, Session.isPending, c.id_deliver, Expects, Session.isPending]
  refine ⟨fun he i hi => ?_, fun style => ?_, fun finished => ?_⟩
  · obtain ⟨before, -, message, rfl⟩ := still (expects.1 he)
    rw [channel, taken] at hi
    rcases List.mem_append.1 hi with hi | hi
    · exact h.chunks before i (List.mem_append_left _ hi)
    · rcases Call.mem_inbox_deliver hi with hi | hi
      · exact h.chunks before i (List.mem_append_right _ hi)
      · exact ⟨message, hi⟩
  · rw [c.style_deliver] at style
    obtain ⟨stage, none, -⟩ := h.single style
    rw [c.stage_deliver, expects]
    refine ⟨stage, taken.trans none, fun he => ?_⟩
    obtain ⟨-, hs, -⟩ := still he
    rw [style] at hs
    cases hs
  · rw [c.isOver_deliver] at finished
    rw [c.isHeard_deliver]
    exact h.deaf finished

theorem Sound.moved {p : Bool} (h : n.Sound k c) (moved : c.Moved p c' items)
    (taken : m.taken.of k = n.taken.of k ++ items) (still : m.Expects k c' → n.Expects k c) :
    m.Sound k c' where
  chunks expects item hi := by
    refine h.chunks (still expects) item ?_
    rw [channel, taken, List.append_assoc] at hi
    exact ((List.prefix_append_right_inj _).2 moved.inbox).subset hi
  single style := by
    rw [moved.style] at style
    obtain ⟨stage, none, inbox⟩ := h.single style
    obtain ⟨stage', rfl⟩ := moved.single style stage
    refine ⟨stage', by rw [taken, none]; rfl, fun expects => ?_⟩
    have before := moved.inbox
    rw [inbox (still expects)] at before
    exact List.prefix_nil.1 before
  deaf := moved.deaf

theorem getElem?_concat_iff {calls : List Call} {c d : Call} {k : Nat} :
    (calls ++ [c])[k]? = some d ↔ calls[k]? = some d ∨ k = calls.length ∧ d = c := by
  rw [List.getElem?_append]
  split
  · next hlt => simp [Nat.ne_of_lt hlt]
  · next hge =>
      rw [List.getElem?_singleton, List.getElem?_eq_none (Nat.le_of_not_lt hge)]
      split
      · next heq =>
          have : k = calls.length := by omega
          simp [this, eq_comm]
      · next hne =>
          have : k ≠ calls.length := by omega
          simp [this]

theorem of_append_map (taken : Takings) (k j : Nat) (items : List (Except Error Bytes)) :
    Takings.of (taken ++ items.map fun item => (k, item)) j =
      taken.of j ++ if j = k then items else [] := by
  by_cases hj : j = k
  · simp [Takings.of, List.filter_map, Function.comp_def, hj]
  · simp [Takings.of, List.filter_map, Function.comp_def, hj, Ne.symm hj]

theorem Orderly.confined (h : n.Orderly) {m : Lifetime}
    (confined : Session.Confined k n.session m.session)
    (line : m.session.Aligned) (isClosed : m.session.isClosed = n.session.isClosed)
    (untold : m.untold = n.untold) (taken : ∀ j, j ≠ k → m.taken.of j = n.taken.of j)
    (before : n.session.calls[k]? = some c) (after : m.session.calls[k]? = some c')
    (sound : m.Sound k c') : m.Orderly where
  linked := confined.linked
  line := line
  empty closed := confined.empty (h.empty (isClosed ▸ closed))
  closed := by
    rw [untold, isClosed]
    exact h.closed
  distinct := untold ▸ h.distinct
  calls j d hd := by
    by_cases hj : j = k
    · subst hj
      rw [after] at hd
      cases hd
      exact sound
    · rw [confined.others j hj] at hd
      refine (h.calls j d hd).mono (taken j hj) ?_
      rintro (pending | told)
      · exact .inl (confined.isPending rfl pending)
      · exact .inr (untold ▸ told)
  absent j hj := by
    have hne : j ≠ k := by
      rintro rfl
      rw [after] at hj
      cases hj
    rw [confined.others j hne] at hj
    rw [untold, taken j hne]
    exact h.absent j hj

theorem Orderly.turned (h : n.Orderly) (t : Session.Turned k n.session s items) :
    Orderly { n with session := s, taken := n.taken ++ items.map fun item => (k, item) } := by
  have line := t.aligned h.line
  cases t with
  | rest same nothing =>
      subst same nothing
      simpa using h
  | turn c c' before after moved confined isClosed others own =>
      refine h.confined confined line isClosed rfl (fun j hj => ?_) before after ?_
      · rw [of_append_map, if_neg hj, List.append_nil]
      · refine (h.calls k c before).moved moved ?_ ?_
        · rw [of_append_map, if_pos rfl]
        · rintro (pending | told)
          · exact .inl (confined.isPending moved.id pending)
          · exact .inr told

theorem Orderly.aside (h : n.Orderly) (alike : Session.Alike n.session s) :
    Orderly { n with session := s } where
  linked := h.linked.congr (by rw [Session.ids, alike.calls, Session.ids])
    (alike.pending ▸ h.linked.ascending) (alike.pending ▸ fun hk => hk)
  line k := by
    rw [Session.Queues, alike.waiting, alike.calls]
    exact h.line k
  empty := by
    rw [alike.isClosed, alike.pending]
    exact h.empty
  closed := by
    rw [alike.isClosed]
    exact h.closed
  distinct := h.distinct
  calls k c hc := by
    refine (h.calls k c (alike.calls ▸ hc)).mono rfl ?_
    rw [Expects, Session.isPending, alike.pending]
    exact id
  absent k hk := h.absent k (alike.calls ▸ hk)

theorem Orderly.route (h : n.Orderly) (f : Frame) :
    Orderly { n with session := n.session.route f } := by
  cases Session.routed_route h.linked f with
  | rest same => rwa [same]
  | came k c item before pending after confined isClosed outlet still =>
      refine h.confined confined ?_ isClosed rfl (fun _ _ => rfl) before after ?_
      · exact h.line.of_bare (Session.bare_route _ f).1 (by rw [Session.outbox, outlet]; rfl)
      · cases item with
        | none =>
            refine (h.calls k c before).mono rfl ?_
            rintro (pending | told)
            · exact .inl (confined.isPending rfl pending)
            · exact .inr told
        | some item =>
            refine (h.calls k c before).deliver item rfl ?_
            rintro (pending' | told)
            · obtain ⟨style, message, hitem⟩ := still pending'
              cases hitem
              exact ⟨.inl pending, style, message, rfl⟩
            · -- who is still to be told is no longer in the table
              have hclosed := h.empty (h.closed (List.ne_nil_of_mem told))
              rw [Session.isPending, hclosed] at pending
              cases pending

theorem Orderly.extend (h : n.Orderly) {s : Session} (linked : s.Linked)
    (calls : s.calls = n.session.calls ++ [c]) (waiting : s.outbox.waiting = n.session.outbox.waiting)
    (isClosed : s.isClosed = n.session.isClosed) (empty : s.isClosed = true → s.pending = [])
    (still : ∀ j d, n.session.calls[j]? = some d → s.isPending j d = true →
      n.session.isPending j d = true)
    (inbox : c.inbox = []) (stage : c.stage ≠ .sending ∧ c.stage ≠ .streaming)
    (deaf : c.isOver = true → c.isHeard = false) : Orderly { n with session := s } where
  linked := linked
  line j := by
    rw [Session.Queues, waiting, ← Session.Queues, h.line j, calls]
    constructor
    · rintro ⟨d, hd, hs⟩
      exact ⟨d, getElem?_concat_iff.2 (.inl hd), hs⟩
    · rintro ⟨d, hd, hs⟩
      rcases getElem?_concat_iff.1 hd with hd | ⟨-, rfl⟩
      · exact ⟨d, hd, hs⟩
      · exact absurd hs stage.1
  empty := empty
  closed := isClosed ▸ h.closed
  distinct := h.distinct
  calls j d hd := by
    rw [calls] at hd
    rcases getElem?_concat_iff.1 hd with hd | ⟨rfl, rfl⟩
    · refine (h.calls j d hd).mono rfl ?_
      rintro (pending | told)
      · exact .inl (still j d hd pending)
      · exact .inr told
    · have none := (h.absent _ (List.getElem?_eq_none (Nat.le_refl _))).2
      refine ⟨fun _ item hi => ?_, fun _ => ⟨stage.2, none, fun _ => inbox⟩, deaf⟩
      change item ∈ n.taken.of n.session.calls.length ++ d.inbox at hi
      rw [none, inbox] at hi
      cases hi
  absent j hj := by
    rw [calls, List.getElem?_eq_none_iff, List.length_append] at hj
    exact h.absent j (List.getElem?_eq_none (by omega))

theorem Orderly.register (h : n.Orderly) (style : Style) (route : String) (request : Bytes) :
    Orderly { n with session := n.session.register style route request } := by
  have linked := h.linked.register style route request
  have rejected : n.session.register style route request =
      { n.session with calls := n.session.calls ++ [.rejected style route request] } →
      Orderly { n with session := n.session.register style route request } := by
    intro he
    rw [he] at linked ⊢
    exact h.extend linked rfl rfl rfl h.empty (fun _ _ _ pending => pending) rfl ⟨nofun, nofun⟩
      fun _ => rfl
  cases hclosed : n.session.isClosed with
  | true => exact rejected (Session.register_of_closed hclosed style route request)
  | false =>
      rcases n.session.register_cases style route request with he | he | ⟨id, fresh, he⟩
      · exact rejected he
      · rwa [he]
      · rw [he] at linked ⊢
        refine h.extend linked rfl rfl rfl (fun closed => ?_) (fun j d hd pending => ?_) rfl
          ⟨nofun, nofun⟩ nofun
        · cases hclosed.symm.trans closed
        · rw [Session.isPending, Session.enter, Assoc.get?_insert] at pending
          split at pending
          · have hlt := (List.getElem?_eq_some_iff.1 hd).1
            simp only [beq_iff_eq, Option.some_inj] at pending
            omega
          · exact pending

theorem Orderly.not_pending (h : n.Orderly) (untold : k ∈ n.untold) (c : Call) :
    n.session.isPending k c = false :=
  Session.isPending_of_empty (h.empty (h.closed (List.ne_nil_of_mem untold))) k c

theorem Orderly.failPending (h : n.Orderly) :
    Orderly { n with session := n.session.failPending } := by
  have points : ∀ key k, Assoc.get? key n.session.pending = some k →
      ∃ id : UInt32, n.session.ids[k]? = some id ∧ id.toNat = key := fun _ _ hk => h.linked.points hk
  have call := Session.call_failPending h.linked.ascending points
  have hp := n.session.pending_failPending
  refine ⟨h.linked.failPending, ?_, fun _ => hp, fun _ => ?_, h.distinct, fun k c' hc => ?_,
    fun k hk => ?_⟩
  · refine h.line.of_bare ?_ ?_
    · rw [Session.failPending_eq]
      exact Session.bare_tellAll _ _ _
    · rw [Session.failPending_eq]
      rfl
  · rw [Session.failPending_eq]
  · rw [call] at hc
    obtain ⟨c, before, rfl⟩ := Option.map_eq_some_iff.1 hc
    have finished : ∀ {q : Prop}, n.session.failPending.isPending k c = true → q := by
      rw [Session.isPending_of_empty hp]
      nofun
    split
    · next pending =>
        refine (h.calls k c before).deliver _ rfl ?_
        rintro (still | untold)
        · exact finished still
        · rw [h.not_pending untold] at pending
          cases pending
    · refine (h.calls k c before).mono rfl ?_
      rintro (still | untold)
      · exact finished still
      · exact .inr untold
  · rw [call, Option.map_eq_none_iff] at hk
    exact h.absent k hk

theorem Orderly.effect (h : n.Orderly) (effect : Session.Effect n.session s) :
    Orderly { n with session := s } := by
  cases effect with
  | turned k turn =>
      have next := h.turned turn
      rwa [List.map_nil, List.append_nil] at next
  | registered style route request same => exact same ▸ h.register style route request
  | aside alike => exact h.aside alike
  | failed mid alike same => exact same ▸ (h.aside alike).failPending

theorem Orderly.drain (h : n.Orderly) : Orderly { n with
    session := n.session.drain
    untold := n.untold ++ n.session.pending.map Prod.snd } where
  linked := h.linked.congr rfl List.Pairwise.nil nofun
  line := h.line
  empty _ := rfl
  closed _ := rfl
  distinct := by
    cases hu : n.untold with
    | nil =>
        exact List.pairwise_map.2
          (Session.pairwise_pending h.linked.ascending fun _ _ => h.linked.points)
    | cons k rest =>
        rw [h.empty (h.closed (by rw [hu]; nofun)), List.map_nil, List.append_nil, ← hu]
        exact h.distinct
  calls k c hc := by
    refine (h.calls k c hc).mono rfl ?_
    rintro (pending | untold)
    · cases pending
    · rcases List.mem_append.1 untold with untold | drained
      · exact .inr untold
      · exact .inl ((Session.mem_pending h.linked.ascending (fun _ _ => h.linked.points) hc).1 drained)
  absent k hk := by
    obtain ⟨untold, none⟩ := h.absent k hk
    refine ⟨fun hm => ?_, none⟩
    rcases List.mem_append.1 hm with hm | hm
    · exact untold hm
    · obtain ⟨⟨key, j⟩, entry, rfl⟩ := List.mem_map.1 hm
      obtain ⟨id, hid, -⟩ := h.linked.points (Assoc.get?_eq_some_of_mem h.linked.ascending entry)
      rw [Session.ids, List.getElem?_map, show n.session.calls[j]? = Option.none from hk] at hid
      cases hid

theorem Orderly.exists_of_untold (h : n.Orderly) (untold : k ∈ n.untold) :
    ∃ c, n.session.calls[k]? = some c :=
  Option.ne_none_iff_exists'.1 fun hk => (h.absent k hk).1 untold

theorem Orderly.tell (h : n.Orderly) (untold : k ∈ n.untold) : Orderly { n with
    session := n.session.deliver k (.error .connectionClosed)
    untold := n.untold.erase k } := by
  obtain ⟨c, hc⟩ := h.exists_of_untold untold
  have confined := Session.confined_deliver h.linked k (.error .connectionClosed)
  refine ⟨confined.linked, h.line.of_bare (n.session.bare_deliver k _) rfl, h.empty,
    fun _ => h.closed (List.ne_nil_of_mem untold), h.distinct.erase k, fun j d hd => ?_,
    fun j hj => ?_⟩
  · by_cases hj : j = k
    · subst hj
      rw [Session.deliver, Session.call_modifyCall hc, Option.some_inj] at hd
      subst hd
      refine (h.calls j c hc).deliver _ rfl ?_
      rintro (pending | told)
      · cases (h.not_pending untold c).symm.trans pending
      · exact absurd told h.distinct.not_mem_erase
    · rw [confined.others j hj] at hd
      refine (h.calls j d hd).mono rfl ?_
      rintro (pending | told)
      · exact .inl pending
      · exact .inr (List.mem_of_mem_erase told)
  · have hne : j ≠ k := by
      rintro rfl
      rw [Session.deliver, Session.call_modifyCall hc] at hj
      cases hj
    rw [confined.others j hne] at hj
    obtain ⟨apart, none⟩ := h.absent j hj
    exact ⟨fun told => apart (List.mem_of_mem_erase told), none⟩

theorem Step.orderly (h : n.Orderly) (step : n.Step m) : m.Orderly := by
  cases step with
  | session step => exact h.effect (step.effect h.linked h.line)
  | next k took => exact h.turned (Session.turned_next h.linked h.line took)
  | route f => exact h.route f
  | read data => exact h.effect (n.session.effect_read data)
  | write step => exact h.aside ⟨rfl, rfl, rfl, Outlet.waiting_of_advance? step⟩
  | pipe p => exact h.aside ⟨rfl, rfl, rfl, rfl⟩
  | stop => exact h.aside ⟨rfl, rfl, rfl, rfl⟩
  | abort => exact h.aside ⟨rfl, rfl, rfl, Session.waiting_abort _⟩
  | drain => exact h.drain
  | tell k untold => exact h.tell untold

theorem orderly_start (room patience size : Nat) : (start room patience size).Orderly where
  linked := ⟨List.Pairwise.nil, nofun⟩
  line _ := ⟨fun ⟨_, hw, _⟩ => (nomatch hw), fun ⟨_, hc, _⟩ => (nomatch hc)⟩
  empty := nofun
  closed h := absurd rfl h
  distinct := List.nodup_nil
  calls := nofun
  absent _ _ := ⟨nofun, rfl⟩

theorem Orderly.run (h : n.Orderly) (run : Relation.ReflTransGen Step n m) : m.Orderly := by
  induction run with
  | refl => exact h
  | tail _ step ih => exact step.orderly ih

theorem Reachable.orderly (h : n.Reachable) : n.Orderly := by
  obtain ⟨room, patience, size, run⟩ := h
  exact (orderly_start room patience size).run run

end Lifetime

end SchemaRpc

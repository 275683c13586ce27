import SchemaRpc.Proofs.Transport.Posting

namespace SchemaRpc

inductive Vouched (style : Style) (rs : List Reply) : Except Error Bytes → Prop
  | message (message : Bytes) (reply : style = .unary → .response message ∈ rs) :
      Vouched style rs (.ok message)
  | status (s s' : Status) (reply : .failure s' ∈ rs)
      (reads : Session.failureOf (Typed.encode s') = .status s) : Vouched style rs (.error (.status s))
  | other (e : Error) (plain : ∀ s, e ≠ .status s) : Vouched style rs (.error e)

def Items (cs : List Bytes) (failed : Bool) (items : List (Except Error Bytes)) : Prop :=
  if failed then ∃ e, items = cs.map .ok ++ [.error e] else items = cs.map .ok

variable {style : Style} {rs rs' : List Reply} {item : Except Error Bytes}

theorem vouched_failureOf {s : Status} (h : .failure s ∈ rs) :
    Vouched style rs (.error (Session.failureOf (Typed.encode s))) := by
  have hs : ∀ e, Session.failureOf (Typed.encode s) = e → Vouched style rs (.error e) := by
    intro e he
    cases e with
    | status s' => exact .status s' s h he
    | _ => exact .other _ nofun
  exact hs _ rfl

theorem Vouched.mono (h : Vouched style rs item) (hp : rs <+: rs') : Vouched style rs' item := by
  cases h with
  | message m reply => exact .message m fun hs => hp.subset (reply hs)
  | status s s' reply reads => exact .status s s' (hp.subset reply) reads
  | other e plain => exact .other e plain

theorem vouched_of_refuses {e : Error} (h : Outbox.Refuses e) : Vouched style rs (.error e) := by
  rcases h with rfl | rfl
  · exact .other _ nofun
  · exact .other _ nofun

theorem Items.isPrefix {cs : List Bytes} {failed : Bool} {items more : List (Except Error Bytes)}
    (h : Items cs failed (items ++ more)) : ∃ cs' failed', cs' <+: cs ∧ Items cs' failed' items := by
  have hplain : ∀ l, items ++ l = cs.map .ok → ∃ cs' failed', cs' <+: cs ∧ Items cs' failed' items := by
    intro l hl
    obtain ⟨cs', hcs, rfl⟩ := List.prefix_map_iff.1 ⟨l, hl⟩
    exact ⟨cs', false, hcs, rfl⟩
  cases failed with
  | false => exact hplain more h
  | true =>
      obtain ⟨e, he⟩ := h
      have hitems : items <+: cs.map .ok ++ [.error e] := ⟨more, he⟩
      rcases List.prefix_concat_iff.1 hitems with hi | ⟨l, hl⟩
      · exact ⟨cs, true, List.prefix_refl cs, e, hi⟩
      · exact hplain l hl

namespace Call

def IsListening (c : Call) : Prop :=
  c.isHeard = true ∧ ∀ e, c.stage ≠ .unsent e

structure Story (c : Call) (p : Bool) (rs : List Reply) (taken : List (Except Error Bytes)) : Prop where
  vouched : ∀ item, item ∈ taken ∨ item ∈ c.inbox ∨ c.stage = .returned item →
    Vouched c.style rs item
  unsent : ∀ e, c.stage = .unsent e → Outbox.Refuses e
  order : c.style = .serverStreaming → ∃ cs failed, cs.map .chunk <+: rs ∧ Items cs failed taken
  waiting : c.style = .serverStreaming → c.IsListening → p = true →
    ∃ cs, rs = cs.map .chunk ∧ Items cs false (taken ++ c.inbox)
  finished : c.style = .serverStreaming → c.IsListening → p = false →
    ∃ cs failed, Items cs failed (taken ++ c.inbox) ∧ cs.map .chunk <+: rs ∧
      (failed = false → cs.map .chunk ++ [.streamEnd] <+: rs)

namespace Story

variable {c c' : Call} {p p' : Bool} {frames : List Frame} {taken : List (Except Error Bytes)}

theorem deaf (h : c.Story p rs taken) (hd : ¬c'.IsListening) (style : c'.style = c.style)
    (unsent : ∀ e, c'.stage = .unsent e → Outbox.Refuses e)
    (vouched : ∀ item, item ∈ c'.inbox ∨ c'.stage = .returned item → Vouched c.style rs item) :
    c'.Story p' rs taken where
  vouched item hi := by
    rw [style]
    rcases hi with hi | hi
    · exact h.vouched item (.inl hi)
    · exact vouched item hi
  unsent := unsent
  order hs := h.order (style ▸ hs)
  waiting _ hl := absurd hl hd
  finished _ hl := absurd hl hd

theorem moved (h : c.Story p rs taken) (unposted : c.IsUnposted) {stage : Stage}
    (plain : (∀ e, stage ≠ .unsent e) ∧ ∀ result, stage ≠ .returned result) :
    ({ c with stage := stage } : Call).Story p rs taken := by
  have hlisten : ({ c with stage := stage } : Call).IsListening → c.IsListening := by
    rintro ⟨heard, -⟩
    refine ⟨heard, fun e he => ?_⟩
    rcases unposted with hs | hs <;> rw [hs] at he <;> cases he
  refine ⟨fun item hi => ?_, fun e he => absurd he (plain.1 e), h.order,
    fun hs hl => h.waiting hs (hlisten hl), fun hs hl => h.finished hs (hlisten hl)⟩
  rcases hi with hi | hi | hi
  · exact h.vouched item (.inl hi)
  · exact h.vouched item (.inr (.inl hi))
  · exact absurd hi (plain.2 item)

theorem turn (h : c.Story p rs taken) (ht : c.Turn p c' p' frames) : c'.Story p' rs taken := by
  cases ht with
  | posts unposted =>
      refine h.moved unposted ⟨fun e => ?_, fun result => ?_⟩
      · cases c.style <;> nofun
      · cases c.style <;> nofun
  | waits stage => exact h.moved (.inl stage) ⟨nofun, nofun⟩
  | refused unposted e cause =>
      refine h.deaf (fun hl => hl.2 e rfl) rfl ?_ ?_
      · intro e' he
        cases he
        exact cause
      · rintro item (hi | hi)
        · exact h.vouched item (.inr (.inl hi))
        · cases hi
  | returns result p' frames source cancels =>
      refine h.deaf (fun hl => Bool.false_ne_true hl.1) rfl nofun ?_
      rintro item (hi | hi)
      · exact h.vouched item (.inr (.inl hi))
      · cases hi
        cases source with
        | unsent e stage => exact vouched_of_refuses (h.unsent e stage)
        | item _ _ came => exact h.vouched _ (.inr (.inl came))
        | closed stage => exact .other _ nofun
  | leaves stage inbox isGuarded p' frames last left cancels =>
      have hstage : (∀ e, stage ≠ .unsent e) ∧ ∀ result, stage ≠ .returned result := by
        rcases last with rfl | ⟨rfl, _⟩
        · exact ⟨nofun, nofun⟩
        · exact ⟨nofun, nofun⟩
      refine h.deaf (fun hl => Bool.false_ne_true hl.1) rfl ?_ ?_
      · intro e he
        exact absurd he (hstage.1 e)
      · rintro item (hi | hi)
        · exact h.vouched item (.inr (.inl (left item hi)))
        · exact absurd hi (hstage.2 item)

theorem next {item : Except Error Bytes} {rest : List (Except Error Bytes)}
    (h : c.Story p rs taken) (heard : c.isHeard = true) (stage : c.stage = .streaming)
    (hi : c.inbox = item :: rest) : ({ c with inbox := rest } : Call).Story p rs (taken ++ [item]) := by
  have hlisten : c.IsListening := ⟨heard, fun e he => by rw [stage] at he; cases he⟩
  have hall : taken ++ c.inbox = taken ++ [item] ++ rest := by
    rw [hi, List.append_assoc, List.singleton_append]
  refine ⟨fun i him => ?_, h.unsent, fun hs => ?_, fun hs _ hp => ?_, fun hs _ hp => ?_⟩
  · rcases him with him | him | him
    · rcases List.mem_append.1 him with him | him
      · exact h.vouched i (.inl him)
      · obtain rfl := List.mem_singleton.1 him
        exact h.vouched i (.inr (.inl (hi ▸ List.mem_cons_self)))
    · exact h.vouched i (.inr (.inl (hi ▸ List.mem_cons_of_mem _ him)))
    · exact h.vouched i (.inr (.inr him))
  · cases p with
    | true =>
        obtain ⟨cs, rfl, hitems⟩ := h.waiting hs hlisten rfl
        obtain ⟨cs', failed', hcs, hi'⟩ := (hall ▸ hitems).isPrefix
        exact ⟨cs', failed', hcs.map _, hi'⟩
    | false =>
        obtain ⟨cs, failed, hitems, hrs, -⟩ := h.finished hs hlisten rfl
        obtain ⟨cs', failed', hcs, hi'⟩ := (hall ▸ hitems).isPrefix
        exact ⟨cs', failed', (hcs.map _).trans hrs, hi'⟩
  · obtain ⟨cs, hrs, hitems⟩ := h.waiting hs hlisten hp
    exact ⟨cs, hrs, hall ▸ hitems⟩
  · obtain ⟨cs, failed, hitems, hrest⟩ := h.finished hs hlisten hp
    exact ⟨cs, failed, hall ▸ hitems, hrest⟩

theorem grows (h : c.Story p rs taken) (hp : rs <+: rs')
    (waiting : c.style = .serverStreaming → c.IsListening → p' = true →
      ∃ cs, rs' = cs.map .chunk ∧ Items cs false (taken ++ c.inbox))
    (finished : c.style = .serverStreaming → c.IsListening → p' = false →
      ∃ cs failed, Items cs failed (taken ++ c.inbox) ∧ cs.map .chunk <+: rs' ∧
        (failed = false → cs.map .chunk ++ [.streamEnd] <+: rs')) : c.Story p' rs' taken where
  vouched item hi := (h.vouched item hi).mono hp
  unsent := h.unsent
  order hs := by
    obtain ⟨cs, failed, hrs, hitems⟩ := h.order hs
    exact ⟨cs, failed, hrs.trans hp, hitems⟩
  waiting := waiting
  finished := finished

theorem mono (h : c.Story false rs taken) (hp : rs <+: rs') : c.Story false rs' taken := by
  refine h.grows hp (fun _ _ => nofun) fun hs hl _ => ?_
  obtain ⟨cs, failed, hitems, hrs, hend⟩ := h.finished hs hl rfl
  exact ⟨cs, failed, hitems, hrs.trans hp, fun hf => (hend hf).trans hp⟩

theorem isListening_deliver {item : Except Error Bytes} :
    (c.deliver item).IsListening ↔ c.IsListening := by
  rw [IsListening, IsListening, deliver]
  split <;> rfl

theorem told {item : Except Error Bytes} (h : c.Story true rs taken) (hp : rs <+: rs')
    (vouched : Vouched c.style rs' item)
    (waiting : c.style = .serverStreaming → c.IsListening → p' = true →
      ∃ cs, rs' = cs.map .chunk ∧ Items cs false (taken ++ (c.inbox ++ [item])))
    (finished : c.style = .serverStreaming → c.IsListening → p' = false →
      ∃ cs failed, Items cs failed (taken ++ (c.inbox ++ [item])) ∧ cs.map .chunk <+: rs' ∧
        (failed = false → cs.map .chunk ++ [.streamEnd] <+: rs')) :
    (c.deliver item).Story p' rs' taken := by
  refine ⟨fun i hi => ?_, fun e he => ?_, fun hs => ?_, fun hs hl hp' => ?_, fun hs hl hp' => ?_⟩
  · rw [style_deliver]
    rw [stage_deliver] at hi
    rcases hi with hi | hi | hi
    · exact (h.vouched i (.inl hi)).mono hp
    · rcases mem_inbox_deliver hi with hi | rfl
      · exact (h.vouched i (.inr (.inl hi))).mono hp
      · exact vouched
    · exact (h.vouched i (.inr (.inr hi))).mono hp
  · exact h.unsent e (stage_deliver c item ▸ he)
  · obtain ⟨cs, failed, hrs, hitems⟩ := h.order (style_deliver c item ▸ hs)
    exact ⟨cs, failed, hrs.trans hp, hitems⟩
  · rw [isListening_deliver] at hl
    rw [inbox_deliver hl.1]
    exact waiting (style_deliver c item ▸ hs) hl hp'
  · rw [isListening_deliver] at hl
    rw [inbox_deliver hl.1]
    exact finished (style_deliver c item ▸ hs) hl hp'

theorem failed {e : Error} (h : c.Story true rs taken) (hp : rs <+: rs')
    (vouched : Vouched c.style rs' (.error e)) : (c.deliver (.error e)).Story false rs' taken := by
  refine h.told hp vouched (fun _ _ => nofun) fun hs hl _ => ?_
  obtain ⟨cs, rfl, hitems⟩ := h.waiting hs hl rfl
  refine ⟨cs, true, ⟨e, ?_⟩, hp, nofun⟩
  rw [← List.append_assoc, hitems]

theorem closed (h : c.Story p rs taken) :
    (if p then c.deliver (.error .connectionClosed) else c).Story false rs taken := by
  cases p with
  | true => exact h.failed (List.prefix_refl rs) (.other _ nofun)
  | false => exact h

theorem hear (h : c.Story true rs taken) (r : Reply) :
    (c.hear r).1.Story (c.hear r).2 (rs ++ [r]) taken := by
  have hp : rs <+: rs ++ [r] := List.prefix_append rs [r]
  have hr : r ∈ rs ++ [r] := List.mem_append_right rs (List.mem_singleton.2 rfl)
  have hunexpected : ∀ kind id, (c.deliver (.error (Session.unexpected kind id))).Story false
      (rs ++ [r]) taken := fun kind id => h.failed hp (.other _ nofun)
  obtain ⟨style, route, request, id, stage, inbox, isHeard, isGuarded⟩ := c
  cases r with
  | failure s => exact h.failed hp (vouched_failureOf hr)
  | response m =>
      cases style with
      | unary => exact h.told hp (.message m fun _ => hr) nofun nofun
      | serverStreaming => exact hunexpected _ _
  | chunk m =>
      cases style with
      | unary => exact hunexpected _ _
      | serverStreaming =>
          cases isHeard with
          | false =>
              refine h.grows hp (fun _ _ => nofun) fun _ hl => ?_
              exact absurd hl.1 Bool.false_ne_true
          | true =>
              refine h.told hp (.message m nofun) (fun hs hl _ => ?_) fun _ _ => nofun
              obtain ⟨cs, rfl, hitems⟩ := h.waiting hs hl rfl
              refine ⟨cs ++ [m], by rw [List.map_append]; rfl, ?_⟩
              rw [← List.append_assoc, hitems, Items, List.map_append]
              rfl
  | streamEnd =>
      cases style with
      | unary => exact hunexpected _ _
      | serverStreaming =>
          refine h.grows hp (fun _ _ => nofun) fun hs hl _ => ?_
          obtain ⟨cs, rfl, hitems⟩ := h.waiting hs hl rfl
          exact ⟨cs, false, hitems, hp, fun _ => List.prefix_refl _⟩

theorem new (style : Style) (route : String) (request : Bytes) (id : UInt32) :
    (Call.new style route request id).Story true [] [] where
  vouched item hi := by rcases hi with hi | hi | hi <;> cases hi
  unsent _ := nofun
  order _ := ⟨[], false, List.nil_prefix, rfl⟩
  waiting _ _ _ := ⟨[], rfl, rfl⟩
  finished _ _ := nofun

theorem rejected (style : Style) (route : String) (request : Bytes) :
    (Call.rejected style route request).Story false [] [] where
  vouched item hi := by
    rcases hi with hi | hi | hi
    · cases hi
    · cases hi
    · cases hi
      exact .other _ nofun
  unsent _ := nofun
  order _ := ⟨[], false, List.nil_prefix, rfl⟩
  waiting _ _ := nofun
  finished _ hl := absurd hl.1 Bool.false_ne_true

end Story

end Call

namespace Session

structure Tells (s : Session) (routed : List Frame) (taken : Takings) : Prop where
  story : ∀ (k : Nat) (c : Call) (p : Bool), s.standing k = some (c, p) →
    ∃ rs : List Reply, (routed.filter fun f => f.id == c.id) = rs.map (·.frame c.id) ∧
      c.Story p rs (taken.of k)
  taken : ∀ entry ∈ taken, ∃ c p, s.standing entry.1 = some (c, p)

variable {s s' : Session} {k : Nat} {routed frames : List Frame} {taken : Takings}

theorem Tells.congr (h : s.Tells routed taken) (hs : ∀ k, s'.standing k = s.standing k) :
    s'.Tells routed taken where
  story k c p hc := h.story k c p (hs k ▸ hc)
  taken entry he := by
    rw [hs]
    exact h.taken entry he

theorem Tells.acts {c' : Call} {p' : Bool} (h : s.Tells routed taken) (ha : Acts k s s' frames)
    (after : s'.standing k = some (c', p')) (rs : List Reply)
    (hrs : (routed.filter fun f => f.id == c'.id) = rs.map (·.frame c'.id))
    (story : c'.Story p' rs (taken.of k)) : s'.Tells routed taken where
  story j d q hd := by
    by_cases hj : j = k
    · subst hj
      rw [after] at hd
      cases hd
      exact ⟨rs, hrs, story⟩
    · exact h.story j d q (ha.others j hj ▸ hd)
  taken entry he := by
    by_cases hj : entry.1 = k
    · rw [hj]
      exact ⟨c', p', after⟩
    · rw [ha.others _ hj]
      exact h.taken entry he

theorem Tells.moves (h : s.Tells routed taken) (hm : Moves k s s') : s'.Tells routed taken := by
  cases hm with
  | rest same => exact same ▸ h
  | turn c c' p p' frames before after acts turn line =>
      obtain ⟨rs, hrs, story⟩ := h.story k c p before
      exact h.acts acts after rs (turn.id ▸ hrs) (story.turn turn)

theorem Tells.failPending (h : s.Tells routed taken) (hn : s.Numbered) :
    s.failPending.Tells routed taken where
  story k c p hc := by
    rw [standing_failPending hn] at hc
    obtain ⟨⟨d, q⟩, hs, he⟩ := Option.map_eq_some_iff.1 hc
    obtain ⟨rs, hrs, story⟩ := h.story k d q hs
    cases he
    refine ⟨rs, ?_, story.closed⟩
    have hid : (if q = true then d.deliver (.error .connectionClosed) else d).id = d.id := by
      split
      · exact d.id_deliver _
      · rfl
    simp only [hid]
    exact hrs
  taken entry he := by
    obtain ⟨c, p, hs⟩ := h.taken entry he
    exact ⟨_, _, by rw [standing_failPending hn, hs]; rfl⟩

theorem filter_append_of_eq {id : UInt32} {rs : List Reply} (r : Reply)
    (h : (routed.filter fun f => f.id == id) = rs.map (·.frame id)) :
    ((routed ++ [r.frame id]).filter fun f => f.id == id) = (rs ++ [r]).map (·.frame id) := by
  have hid : (r.frame id).id = id := rfl
  rw [List.filter_append, h, List.map_append]
  simp [hid]

theorem filter_append_of_ne {id other : UInt32} (r : Reply) (h : id ≠ other) :
    ((routed ++ [r.frame id]).filter fun f => f.id == other) =
      routed.filter fun f => f.id == other := by
  have hid : (r.frame id).id = id := rfl
  rw [List.filter_append]
  simp [hid, h]

theorem Tells.route (h : s.Tells routed taken) (hn : s.Numbered) (r : Reply) (id : UInt32) :
    (s.route (r.frame id)).Tells (routed ++ [r.frame id]) taken := by
  rcases route_cases hn r id with ⟨hs, hnobody⟩ | ⟨k, c, hc, rfl, ha, hafter⟩
  · rw [hs]
    refine ⟨fun k c p hc => ?_, h.taken⟩
    obtain ⟨rs, hrs, story⟩ := h.story k c p hc
    by_cases hid : c.id = id
    · cases p with
      | true => exact absurd hid (hnobody k c hc)
      | false =>
          subst hid
          exact ⟨rs ++ [r], filter_append_of_eq r hrs, story.mono (List.prefix_append rs [r])⟩
    · exact ⟨rs, (filter_append_of_ne r (Ne.symm hid)).trans hrs, story⟩
  · refine ⟨fun j d q hd => ?_, fun entry he => ?_⟩
    · by_cases hj : j = k
      · subst hj
        rw [hafter] at hd
        obtain ⟨rs, hrs, story⟩ := h.story j c true hc
        obtain ⟨rfl, rfl⟩ : (c.hear r).1 = d ∧ (c.hear r).2 = q := Prod.ext_iff.1 (Option.some.inj hd)
        refine ⟨rs ++ [r], ?_, story.hear r⟩
        rw [c.id_hear r]
        exact filter_append_of_eq r hrs
      · rw [ha.others j hj] at hd
        obtain ⟨rs, hrs, story⟩ := h.story j d q hd
        have hid : c.id ≠ d.id := fun hid =>
          hj (hn.eq_of_id (call_of_standing hc) (call_of_standing hd) hid (hn.id_ne_zero hc)).symm
        exact ⟨rs, (filter_append_of_ne r hid).trans hrs, story⟩
    · by_cases hj : entry.1 = k
      · rw [hj]
        exact ⟨_, _, hafter⟩
      · rw [ha.others _ hj]
        exact h.taken entry he

theorem of_append (taken : Takings) (k : Nat) (item : Except Error Bytes) :
    Takings.of (taken ++ [(k, item)]) k = taken.of k ++ [item] := by
  simp [Takings.of]

theorem of_append_other (taken : Takings) {j k : Nat} (h : j ≠ k)
    (item : Except Error Bytes) : Takings.of (taken ++ [(k, item)]) j = taken.of j := by
  simp [Takings.of, Ne.symm h]

theorem Tells.next {c : Call} {item : Except Error Bytes} (h : s.Tells routed taken)
    (hn : s.Numbered) (hc : s.calls[k]? = some c) (heard : c.isHeard = true)
    (took : s.next k = (s', .item item)) : s'.Tells routed (taken ++ [(k, item)]) := by
  obtain ⟨d, p, rest, hd, stage, hi, ha, hafter⟩ := acts_next hn took
  have hcd := call_of_standing hd
  rw [hc] at hcd
  cases hcd
  refine ⟨fun j e q he => ?_, fun entry he => ?_⟩
  · by_cases hj : j = k
    · subst hj
      rw [hafter] at he
      cases he
      obtain ⟨rs, hrs, story⟩ := h.story j c p hd
      refine ⟨rs, hrs, ?_⟩
      rw [of_append]
      exact story.next heard stage hi
    · rw [ha.others j hj] at he
      rw [of_append_other taken hj]
      exact h.story j e q he
  · by_cases hj : entry.1 = k
    · rw [hj]
      exact ⟨_, _, hafter⟩
    · rw [ha.others _ hj]
      rcases List.mem_append.1 he with he | he
      · exact h.taken entry he
      · exact absurd (congrArg Prod.fst (List.mem_singleton.1 he)) hj

theorem Tells.register (h : s.Tells routed taken) (hn : s.Numbered)
    (known : ∀ f ∈ routed, f.id ≠ 0 ∧ f.id.toNat < s.nextId.toNat) (style : Style) (route : String)
    (request : Bytes) : (s.register style route request).Tells routed taken := by
  obtain ⟨hothers, hnew⟩ := standing_register hn style route request
  have hnone : s.standing s.calls.length = none := by
    rw [standing_eq_none]
    exact List.getElem?_eq_none (Nat.le_refl _)
  have htaken : taken.of s.calls.length = [] := by
    rw [Takings.of, List.map_eq_nil_iff, List.filter_eq_nil_iff]
    intro entry he hk
    obtain ⟨c, p, hc⟩ := h.taken entry he
    rw [eq_of_beq hk, hnone] at hc
    cases hc
  have hrouted : ∀ id, (∀ f ∈ routed, f.id ≠ id) → (routed.filter fun f => f.id == id) = [] := by
    intro id hid
    rw [List.filter_eq_nil_iff]
    intro f hf he
    exact hid f hf (eq_of_beq he)
  refine ⟨fun k c p hc => ?_, fun entry he => ?_⟩
  · by_cases hk : k = s.calls.length
    · rw [hk] at hc ⊢
      rw [htaken]
      rcases hnew with hnew | hnew
      · rw [hnew] at hc
        cases hc
        exact ⟨[], hrouted 0 fun f hf => (known f hf).1, .rejected style route request⟩
      · rw [hnew] at hc
        cases hc
        refine ⟨[], hrouted s.nextId fun f hf he => ?_, .new style route request s.nextId⟩
        have := (known f hf).2
        rw [he] at this
        omega
    · exact h.story k c p (hothers k hk ▸ hc)
  · obtain ⟨c, p, hc⟩ := h.taken entry he
    have hk : entry.1 ≠ s.calls.length := by
      intro hk
      rw [hk, hnone] at hc
      cases hc
    rw [hothers _ hk]
    exact ⟨c, p, hc⟩

theorem tells_start (outlet : Outlet) : (start outlet).Tells [] [] where
  story k c p hc := by
    rw [standing_start] at hc
    cases hc
  taken _ := nofun

end Session

end SchemaRpc

import SchemaRpc.Proofs.Transport.Numbering
import SchemaRpc.Reply

namespace SchemaRpc

namespace Call

def bare (c : Call) : Call :=
  { c with inbox := [] }

theorem bare_deliver (c : Call) (item : Except Error Bytes) : (c.deliver item).bare = c.bare := by
  unfold deliver
  split <;> rfl

theorem id_deliver (c : Call) (item : Except Error Bytes) : (c.deliver item).id = c.id := by
  unfold deliver
  split <;> rfl

theorem style_deliver (c : Call) (item : Except Error Bytes) : (c.deliver item).style = c.style := by
  unfold deliver
  split <;> rfl

theorem stage_deliver (c : Call) (item : Except Error Bytes) : (c.deliver item).stage = c.stage := by
  unfold deliver
  split <;> rfl

theorem inbox_deliver {c : Call} (heard : c.isHeard = true) (item : Except Error Bytes) :
    (c.deliver item).inbox = c.inbox ++ [item] := by
  rw [deliver, if_pos heard]

theorem mem_inbox_deliver {c : Call} {item i : Except Error Bytes}
    (h : i ∈ (c.deliver item).inbox) : i ∈ c.inbox ∨ i = item := by
  rw [deliver] at h
  split at h
  · rcases List.mem_append.1 h with h | h
    · exact .inl h
    · exact .inr (List.mem_singleton.1 h)
  · exact .inl h

def hear (c : Call) (r : Reply) : Call × Bool :=
  match r.kind, c.style with
  | .streamChunk, .serverStreaming =>
    if c.isHeard then (c.deliver (.ok r.payload), true) else (c, false)
  | kind, style => (((Session.lastItem? style kind (r.frame c.id)).map c.deliver).getD c, false)

theorem id_hear (c : Call) (r : Reply) : (c.hear r).1.id = c.id := by
  have hitem : ∀ item : Option (Except Error Bytes), ((item.map c.deliver).getD c).id = c.id := by
    intro item
    cases item with
    | none => rfl
    | some item => exact c.id_deliver item
  unfold hear
  split
  · split
    · exact c.id_deliver _
    · rfl
  · exact hitem _

end Call

namespace Session

variable {s : Session} {k : Nat} {c : Call} {p : Bool}

theorem acts_deliver (h : s.Numbered) (hc : s.standing k = some (c, p)) (item : Except Error Bytes) :
    Acts k s (s.deliver k item) [] ∧ (s.deliver k item).standing k = some (c.deliver item, p) :=
  ⟨.modifyCall h k fun c => c.id_deliver item,
    standing_modifyCall (f := fun c => c.deliver item) (fun c => c.id_deliver item) hc⟩

theorem acts_endCall (h : s.Numbered) (hc : s.standing k = some (c, true)) (kind : FrameKind)
    {f : Frame} (hid : f.id = c.id) :
    Acts k s (s.endCall k c kind f) [] ∧ (s.endCall k c kind f).standing k =
      some (((lastItem? c.style kind f).map c.deliver).getD c, false) := by
  have hcall := call_of_standing hc
  have hr := Acts.release h hcall
  have hs := standing_release h hcall
  rw [endCall, hid]
  cases lastItem? c.style kind f with
  | none => exact ⟨hr, hs⟩
  | some item =>
      obtain ⟨ha, hstand⟩ := acts_deliver hr.numbered hs item
      exact ⟨hr.trans ha, hstand⟩

theorem route_cases (h : s.Numbered) (r : Reply) (id : UInt32) :
    s.route (r.frame id) = s ∧ (∀ k c, s.standing k = some (c, true) → c.id ≠ id) ∨
    ∃ k c, s.standing k = some (c, true) ∧ c.id = id ∧ Acts k s (s.route (r.frame id)) [] ∧
      (s.route (r.frame id)).standing k = some (c.hear r) := by
  have hkind : (r.frame id).kind = .ok r.kind := Frame.kind_ofKind _ _ _
  have hid : (r.frame id).id = id := rfl
  unfold route
  rw [hkind, hid]
  cases hp : Assoc.get? id.toNat s.pending with
  | none =>
      left
      refine ⟨by cases r <;> rfl, fun k c hc he => ?_⟩
      have := pending_of_standing hc
      rw [he, hp] at this
      cases this
  | some k =>
      right
      obtain ⟨c, hc, rfl, -⟩ := h.call_of_pending hp
      have hcall := call_of_standing hc
      refine ⟨k, c, hc, rfl, ?_⟩
      cases r with
      | chunk message =>
          cases hs : c.style with
          | serverStreaming =>
              simp only [Reply.kind, hcall, hs, Call.hear]
              by_cases hh : c.isHeard = true
              · rw [if_pos hh, if_pos hh]
                exact acts_deliver h hc _
              · rw [if_neg hh, if_neg hh]
                exact ⟨.release h hcall, standing_release h hcall⟩
          | unary =>
              simp only [Reply.kind, hcall, hs, Call.hear]
              rw [← hs]
              exact acts_endCall h hc .streamChunk rfl
      | response message =>
          simp only [Reply.kind, hcall]
          exact acts_endCall h hc .response rfl
      | streamEnd =>
          simp only [Reply.kind, hcall]
          exact acts_endCall h hc .streamEnd rfl
      | failure s =>
          simp only [Reply.kind, hcall]
          exact acts_endCall h hc .error rfl

theorem acts_next {s' : Session} {item : Except Error Bytes} (h : s.Numbered)
    (hn : s.next k = (s', .item item)) :
    ∃ c p rest, s.standing k = some (c, p) ∧ c.stage = .streaming ∧ c.inbox = item :: rest ∧
      Acts k s s' [] ∧ s'.standing k = some ({ c with inbox := rest }, p) := by
  unfold next at hn
  cases hc : s.calls[k]? with
  | none => rw [hc] at hn; cases hn
  | some c =>
      rw [hc] at hn
      cases hs : c.stage with
      | streaming =>
          cases hi : c.inbox with
          | nil =>
              simp only [hs, hi] at hn
              split at hn <;> cases hn
          | cons first rest =>
              simp only [hs, hi] at hn
              cases hn
              have hstand := standing_of_call hc
              refine ⟨c, _, rest, hstand, hs, hi, .modifyCall h k fun _ => rfl, ?_⟩
              exact standing_modifyCall (f := fun c => { c with inbox := rest }) (fun _ => rfl) hstand
      | _ =>
          simp only [hs] at hn
          cases hn

def tellAll (entries : List (Nat × Nat)) (item : Except Error Bytes) (calls : List Call) : List Call :=
  entries.foldl (fun calls entry => calls.modify entry.2 (·.deliver item)) calls

theorem foldl_deliver (entries : List (Nat × Nat)) (item : Except Error Bytes) (s : Session) :
    entries.foldl (fun s entry => s.deliver entry.2 item) s =
      { s with calls := tellAll entries item s.calls } := by
  induction entries generalizing s with
  | nil => rfl
  | cons entry entries ih =>
      rw [List.foldl_cons, ih]
      rfl

theorem failPending_eq (s : Session) :
    s.failPending =
      { s with
        isClosed := true
        pending := []
        calls := tellAll s.pending (.error .connectionClosed) s.calls } :=
  foldl_deliver _ _ _

theorem pending_failPending (s : Session) : s.failPending.pending = [] := by
  rw [failPending_eq]

theorem getElem?_tellAll {entries : List (Nat × Nat)} (h : entries.Pairwise fun a b => a.2 ≠ b.2)
    (item : Except Error Bytes) (calls : List Call) (k : Nat) :
    (tellAll entries item calls)[k]? =
      calls[k]?.map fun c => if k ∈ entries.map Prod.snd then c.deliver item else c := by
  induction entries generalizing calls with
  | nil => simp [tellAll]
  | cons entry entries ih =>
      obtain ⟨hn, ht⟩ := List.pairwise_cons.1 h
      change (tellAll entries item (calls.modify entry.2 (·.deliver item)))[k]? = _
      rw [ih ht, List.getElem?_modify]
      by_cases hk : entry.2 = k
      · have hnot : k ∉ entries.map Prod.snd := by
          intro hm
          obtain ⟨other, ho, he⟩ := List.mem_map.1 hm
          exact hn other ho (hk.trans he.symm)
        simp only [hk, if_true, if_neg hnot, List.map_cons, List.mem_cons, true_or]
        cases calls[k]? <;> rfl
      · have hiff : k ∈ (entry :: entries).map Prod.snd ↔ k ∈ entries.map Prod.snd := by
          rw [List.map_cons, List.mem_cons]
          exact or_iff_right (Ne.symm hk)
        simp only [if_neg hk, hiff]
        cases calls[k]? <;> rfl

section

-- what the table has at an id is a call with that id
variable (ascending : Assoc.Ascending s.pending)
  (points : ∀ key k, Assoc.get? key s.pending = some k →
    ∃ id : UInt32, s.ids[k]? = some id ∧ id.toNat = key)
include ascending points

theorem pairwise_pending : s.pending.Pairwise fun a b => a.2 ≠ b.2 := by
  refine ascending.imp_of_mem fun {a b} ha hb hlt he => ?_
  obtain ⟨id, hid, hkey⟩ := points a.1 a.2 (Assoc.get?_eq_some_of_mem ascending ha)
  obtain ⟨id', hid', hkey'⟩ := points b.1 b.2 (Assoc.get?_eq_some_of_mem ascending hb)
  rw [he, hid'] at hid
  cases hid
  omega

theorem mem_pending (hc : s.calls[k]? = some c) :
    k ∈ s.pending.map Prod.snd ↔ s.isPending k c = true := by
  rw [isPending, beq_iff_eq, List.mem_map]
  constructor
  · rintro ⟨⟨key, j⟩, hm, rfl⟩
    have hget := Assoc.get?_eq_some_of_mem ascending hm
    obtain ⟨id, hid, rfl⟩ := points key j hget
    have := (id_of_call hc).symm.trans hid
    cases this
    exact hget
  · intro hget
    exact ⟨_, Assoc.mem_of_get?_eq_some hget, rfl⟩

theorem call_failPending (k : Nat) :
    s.failPending.calls[k]? = s.calls[k]?.map fun c =>
      if s.isPending k c then c.deliver (.error .connectionClosed) else c := by
  rw [failPending_eq]
  change (tellAll s.pending _ s.calls)[k]? = _
  rw [getElem?_tellAll (pairwise_pending ascending points)]
  cases hc : s.calls[k]? with
  | none => rfl
  | some c => simp only [Option.map_some, mem_pending ascending points hc]

end

theorem standing_failPending (h : s.Numbered) (k : Nat) :
    s.failPending.standing k = (s.standing k).map fun standing =>
      (if standing.2 then standing.1.deliver (.error .connectionClosed) else standing.1, false) := by
  have hnone : ∀ c, s.failPending.isPending k c = false := by
    intro c
    rw [failPending_eq]
    rfl
  have points : ∀ key k, Assoc.get? key s.pending = some k →
      ∃ id : UInt32, s.ids[k]? = some id ∧ id.toNat = key := fun key k hk =>
    let ⟨id, hid, _, hkey⟩ := h.points key k hk
    ⟨id, hid, hkey⟩
  rw [standing, call_failPending h.ascending points, standing]
  simp only [hnone, Option.map_map]
  rfl

theorem bare_modifyCall (s : Session) (k : Nat) {f : Call → Call} (hf : ∀ c, (f c).bare = c.bare) :
    (s.modifyCall k f).calls.map Call.bare = s.calls.map Call.bare := by
  refine List.ext_getElem? fun j => ?_
  simp only [modifyCall, List.getElem?_map, List.getElem?_modify]
  cases s.calls[j]? with
  | none => rfl
  | some c => by_cases hj : k = j <;> simp [hj, hf]

theorem bare_deliver (s : Session) (k : Nat) (item : Except Error Bytes) :
    (s.deliver k item).calls.map Call.bare = s.calls.map Call.bare :=
  s.bare_modifyCall k fun c => c.bare_deliver item

theorem bare_next (s : Session) (k : Nat) :
    (s.next k).1.calls.map Call.bare = s.calls.map Call.bare ∧ (s.next k).1.outlet = s.outlet := by
  unfold next
  split
  · exact ⟨rfl, rfl⟩
  · split
    · exact ⟨s.bare_modifyCall k fun c => rfl, rfl⟩
    · exact ⟨rfl, rfl⟩
    · exact ⟨rfl, rfl⟩

theorem bare_tellAll (entries : List (Nat × Nat)) (item : Except Error Bytes) (s : Session) :
    (tellAll entries item s.calls).map Call.bare = s.calls.map Call.bare := by
  have hf : tellAll entries item s.calls =
      (entries.foldl (fun s entry => s.deliver entry.2 item) s).calls := by
    rw [foldl_deliver]
  rw [hf]
  induction entries generalizing s with
  | nil => rfl
  | cons entry entries ih =>
      rw [List.foldl_cons, ih (s.deliver entry.2 item), bare_deliver]
      rw [foldl_deliver]

theorem bare_route (s : Session) (f : Frame) :
    (s.route f).calls.map Call.bare = s.calls.map Call.bare ∧ (s.route f).outlet = s.outlet := by
  unfold route
  split
  · exact ⟨rfl, rfl⟩
  · exact ⟨rfl, rfl⟩
  · exact ⟨rfl, rfl⟩
  · exact ⟨rfl, rfl⟩
  · split
    · exact ⟨rfl, rfl⟩
    · split
      · split
        · exact ⟨bare_deliver _ _ _, rfl⟩
        · exact ⟨rfl, rfl⟩
      · unfold endCall
        simp only
        split
        · exact ⟨bare_deliver _ _ _, rfl⟩
        · exact ⟨rfl, rfl⟩

theorem call_of_bare {s' : Session} (h : s'.calls.map Call.bare = s.calls.map Call.bare) {k : Nat}
    {c : Call} (hc : s.calls[k]? = some c) : ∃ c', s'.calls[k]? = some c' ∧ c'.bare = c.bare := by
  have hk := congrArg (·[k]?) h
  simp only [List.getElem?_map, hc, Option.map_some] at hk
  exact Option.map_eq_some_iff.1 hk

theorem ids_of_bare {s' : Session} (h : s'.calls.map Call.bare = s.calls.map Call.bare) :
    s'.ids = s.ids := by
  have hb : ∀ calls : List Call, (calls.map Call.bare).map Call.id = calls.map Call.id := by
    intro calls
    rw [List.map_map]
    rfl
  rw [ids, ids, ← hb, h, hb]

theorem numbered_failPending (h : s.Numbered) : s.failPending.Numbered := by
  rw [failPending_eq]
  exact h.congr rfl (ids_of_bare (bare_tellAll _ _ s)) List.Pairwise.nil nofun

end Session

end SchemaRpc

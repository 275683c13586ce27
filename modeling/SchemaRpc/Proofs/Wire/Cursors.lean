import SchemaRpc.Proofs.Wire.Shortage

namespace SchemaRpc

namespace Reader

variable {α β : Type} {bytes rest : Bytes}

def Keeps (p : Reader α) : Prop :=
  ∀ ⦃bytes e left⦄, p bytes = .error e left → left <:+ bytes

theorem Local.suffix {p : Reader α} (h : p.Local) {a : α} (hp : p bytes = .ok a rest) :
    rest <:+ bytes := by
  obtain ⟨used, rfl, -⟩ := h hp
  exact List.suffix_append used rest

theorem Keeps.bind {p : Reader α} {q : α → Reader β} (keeps : p.Keeps) (near : p.Local)
    (rest : ∀ a, (q a).Keeps) : (p >>= q).Keeps := by
  intro bytes e left h
  change EStateM.bind p q bytes = _ at h
  rw [EStateM.bind] at h
  cases hp : p bytes with
  | ok a middle =>
      rw [hp] at h
      exact (rest a h).trans (near.suffix hp)
  | error e' middle =>
      rw [hp] at h
      cases h
      exact keeps hp

theorem Keeps.pure (a : α) : Keeps (Pure.pure a) := by
  intro bytes e left h
  cases h

theorem Keeps.throw (e : Error) : Keeps (throw e : Reader α) := by
  intro bytes e' left h
  cases h
  exact List.suffix_rfl

theorem Keeps.map {p : Reader α} (f : α → β) (keeps : p.Keeps) (near : p.Local) :
    Keeps (do return f (← p)) :=
  keeps.bind near fun _ => .pure _

theorem keeps_varint : varint.Keeps := by
  intro bytes e left h
  rw [varint] at h
  split at h <;> cases h <;> exact List.suffix_rfl

theorem keeps_take (n : Nat) : (take n).Keeps := by
  intro bytes e left h
  rw [take] at h
  split at h <;> cases h
  exact List.suffix_rfl

theorem keeps_tag : tag.Keeps := by
  apply keeps_varint.bind local_varint
  intro key
  cases Tag.ofKey key.toNat with
  | ok t => exact .pure t
  | error e => exact .throw e

theorem keeps_delimited : delimited.Keeps :=
  keeps_varint.bind local_varint fun _ => keeps_take _

theorem keeps_fixed32 : fixed32.Keeps :=
  (keeps_take 4).map _ (local_take 4)

theorem keeps_fixed64 : fixed64.Keeps :=
  (keeps_take 8).map _ (local_take 8)

theorem keeps_plainPayload (t : Tag) : (plainPayload t).Keeps := by
  unfold plainPayload
  cases t.kind with
  | varint => exact keeps_varint.map _ local_varint
  | fixed64 => exact keeps_fixed64.map _ local_fixed64
  | delimited => exact keeps_delimited.map _ local_delimited
  | fixed32 => exact keeps_fixed32.map _ local_fixed32
  | startGroup => exact .throw _
  | endGroup => exact .throw _

theorem keeps_closeGroups (nesting : List Nat) : Keeps (closeGroups nesting) := by
  intro bytes e left h
  fun_induction closeGroups nesting bytes with
  | case1 => cases h
  | case2 bytes number outer e' rest ht =>
      cases h
      exact keeps_tag ht
  | case3 bytes outer t rest ht hk ih => exact (ih h).trans (local_tag.suffix ht)
  | case4 bytes number outer t rest ht hk hn =>
      cases h
      exact local_tag.suffix ht
  | case5 bytes number outer t rest ht hk hl =>
      rw [if_pos hl] at h
      cases h
      exact local_tag.suffix ht
  | case6 bytes number outer t rest ht hk hl ih =>
      rw [if_neg hl] at h
      exact (ih h).trans (local_tag.suffix ht)
  | case7 bytes number outer t rest ht e' left' hp he hs =>
      cases h
      exact (keeps_plainPayload t hp).trans (local_tag.suffix ht)
  | case8 bytes number outer t rest ht p left' hp he hs ih =>
      exact (ih h).trans (((local_plainPayload t).suffix hp).trans (local_tag.suffix ht))

theorem keeps_payload (t : Tag) : (payload t).Keeps := by
  intro bytes e left h
  by_cases hk : t.kind = .startGroup
  · rw [payload_of_startGroup hk] at h
    split at h
    · cases h
    · next hc =>
        cases h
        exact keeps_closeGroups _ hc
  · rw [payload_of_plain hk] at h
    exact keeps_plainPayload t h

structure Steady (p : Reader α) : Prop where
  near : p.Local
  firm : p.Firm
  keeps : p.Keeps

theorem Steady.map {p : Reader α} (h : p.Steady) (f : α → β) : Steady (do return f (← p)) :=
  ⟨h.near.map f, h.firm.map f h.near, h.keeps.map f h.near⟩

theorem steady_delimited : delimited.Steady :=
  ⟨local_delimited, firm_delimited, keeps_delimited⟩

theorem steady_payload (t : Tag) : (payload t).Steady :=
  ⟨local_payload t, firm_payload t, keeps_payload t⟩

end Reader

structure Cursor where
  slice : Bytes
  rest : Bytes

namespace Cursor

def whole (slice : Bytes) : Cursor :=
  ⟨slice, slice⟩

def position (c : Cursor) : Nat :=
  c.slice.length - c.rest.length

inductive Operation where
  | varint
  | tag
  | take (n : Nat)
  | fixed32
  | fixed64
  | delimited
  | sub
  | skip (t : Tag)

namespace Operation

def Answer : Operation → Type
  | .varint | .fixed64 => UInt64
  | .tag => Tag
  | .take _ | .delimited => Bytes
  | .fixed32 => UInt32
  | .sub => Cursor
  | .skip _ => Unit

def reader : (op : Operation) → Reader op.Answer
  | .varint => Reader.varint
  | .tag => Reader.tag
  | .take n => Reader.take n
  | .fixed32 => Reader.fixed32
  | .fixed64 => Reader.fixed64
  | .delimited => Reader.delimited
  | .sub => do return whole (← Reader.delimited)
  | .skip t => Reader.skip t

def opened : (op : Operation) → op.Answer → Option Cursor
  | .sub, cursor => some cursor
  | _, _ => none

theorem steady (op : Operation) : op.reader.Steady := by
  cases op with
  | varint => exact ⟨Reader.local_varint, Reader.firm_varint, Reader.keeps_varint⟩
  | tag => exact ⟨Reader.local_tag, Reader.firm_tag, Reader.keeps_tag⟩
  | take n => exact ⟨Reader.local_take n, Reader.firm_take n, Reader.keeps_take n⟩
  | fixed32 => exact ⟨Reader.local_fixed32, Reader.firm_fixed32, Reader.keeps_fixed32⟩
  | fixed64 => exact ⟨Reader.local_fixed64, Reader.firm_fixed64, Reader.keeps_fixed64⟩
  | delimited => exact Reader.steady_delimited
  | sub => exact Reader.steady_delimited.map whole
  | skip t => exact (Reader.steady_payload t).map fun _ => ()

theorem sub_of_delimited {bytes body rest : Bytes} (h : Reader.delimited bytes = .ok body rest) :
    sub.reader bytes = .ok (whole body) rest := by
  change EStateM.bind Reader.delimited _ bytes = _
  rw [EStateM.bind, h]
  rfl

theorem rest_of_opened {op : Operation} {answer : op.Answer} {bytes rest : Bytes} {c : Cursor}
    (h : op.reader bytes = .ok answer rest) (hc : op.opened answer = some c) : c.rest = c.slice := by
  cases op with
  | sub =>
      obtain ⟨body, middle, -, hb⟩ := Reader.bind_eq_ok h
      cases hb
      cases hc
      rfl
  | _ => cases hc

end Operation

def step (cursors : List Cursor) (request : Nat × Operation) : List Cursor :=
  match cursors[request.1]? with
  | none => cursors
  | some c =>
    match request.2.reader c.rest with
    | .ok answer rest =>
      cursors.set request.1 { c with rest := rest } ++ (request.2.opened answer).toList
    | .error _ rest => cursors.set request.1 { c with rest := rest }

def run (cursors : List Cursor) (requests : List (Nat × Operation)) : List Cursor :=
  requests.foldl step cursors

def InBounds (c : Cursor) : Prop :=
  c.position ≤ c.slice.length ∧ c.slice.drop c.position = c.rest

structure Onward (c c' : Cursor) : Prop where
  slice : c'.slice = c.slice
  rest : c'.rest <:+ c.rest

variable {c c' c'' : Cursor} {cursors : List Cursor} {k : Nat}

theorem inBounds_of_suffix (h : c.rest <:+ c.slice) : c.InBounds :=
  ⟨Nat.sub_le _ _, (List.suffix_iff_eq_drop.1 h).symm⟩

theorem Onward.refl (c : Cursor) : c.Onward c :=
  ⟨rfl, List.suffix_rfl⟩

theorem Onward.trans (h : c.Onward c') (h' : c'.Onward c'') : c.Onward c'' :=
  ⟨h'.slice.trans h.slice, h'.rest.trans h.rest⟩

theorem Onward.position_le (h : c.Onward c') : c.position ≤ c'.position := by
  have := h.rest.length_le
  rw [position, position, h.slice]
  omega

theorem Onward.suffix (h : c.Onward c') (within : c.rest <:+ c.slice) : c'.rest <:+ c'.slice := by
  rw [h.slice]
  exact h.rest.trans within

theorem step_eq (request : Nat × Operation) (found : cursors[request.1]? = some c) :
    ∃ c' more, step cursors request = cursors.set request.1 c' ++ more ∧ c.Onward c' ∧
      ∀ d ∈ more, d.rest = d.slice := by
  obtain ⟨k, op⟩ := request
  unfold step
  rw [found]
  cases hr : op.reader c.rest with
  | ok answer rest =>
      refine ⟨{ c with rest := rest }, (op.opened answer).toList, ?_,
        ⟨rfl, op.steady.near.suffix hr⟩, fun d hd => ?_⟩
      · simp only [hr]
      · exact Operation.rest_of_opened hr (Option.mem_toList.1 hd)
  | error e rest =>
      refine ⟨{ c with rest := rest }, [], ?_, ⟨rfl, op.steady.keeps hr⟩, nofun⟩
      simp only [hr, List.append_nil]

theorem step_of_absent {request : Nat × Operation} (absent : cursors[request.1]? = none) :
    step cursors request = cursors := by
  rw [step, absent]

theorem suffix_step (request : Nat × Operation) (h : ∀ c ∈ cursors, c.rest <:+ c.slice) :
    ∀ c ∈ step cursors request, c.rest <:+ c.slice := by
  cases found : cursors[request.1]? with
  | none => rwa [step_of_absent found]
  | some c =>
      obtain ⟨c', more, same, onward, fresh⟩ := step_eq request found
      intro d hd
      rw [same, List.mem_append] at hd
      rcases hd with hd | hd
      · rcases List.mem_or_eq_of_mem_set hd with hd | rfl
        · exact h d hd
        · exact onward.suffix (h c (List.mem_of_getElem? found))
      · exact ⟨[], fresh d hd⟩

theorem onward_step (request : Nat × Operation) (found : cursors[k]? = some c) :
    ∃ c', (step cursors request)[k]? = some c' ∧ c.Onward c' ∧ (request.1 ≠ k → c' = c) := by
  have hk := (List.getElem?_eq_some_iff.1 found).1
  cases asked : cursors[request.1]? with
  | none =>
      rw [step_of_absent asked]
      exact ⟨c, found, .refl c, fun _ => rfl⟩
  | some d =>
      obtain ⟨d', more, same, onward, -⟩ := step_eq request asked
      rw [same, List.getElem?_append_left (by rwa [List.length_set])]
      by_cases he : request.1 = k
      · subst he
        rw [found] at asked
        cases asked
        exact ⟨d', List.getElem?_set_self hk, onward, fun h => absurd rfl h⟩
      · rw [List.getElem?_set_ne he]
        exact ⟨c, found, .refl c, fun _ => rfl⟩

theorem suffix_run (requests : List (Nat × Operation)) (h : ∀ c ∈ cursors, c.rest <:+ c.slice) :
    ∀ c ∈ run cursors requests, c.rest <:+ c.slice := by
  induction requests generalizing cursors with
  | nil => exact h
  | cons request requests ih => exact ih (suffix_step request h)

theorem onward_run (requests : List (Nat × Operation)) (found : cursors[k]? = some c) :
    ∃ c', (run cursors requests)[k]? = some c' ∧ c.Onward c' ∧
      ((∀ request ∈ requests, request.1 ≠ k) → c' = c) := by
  induction requests generalizing cursors c with
  | nil => exact ⟨c, found, .refl c, fun _ => rfl⟩
  | cons request requests ih =>
      obtain ⟨d, hd, onward, still⟩ := onward_step request found
      obtain ⟨c', hc', onward', still'⟩ := ih hd
      refine ⟨c', hc', onward.trans onward', fun elsewhere => ?_⟩
      obtain ⟨first, others⟩ := List.forall_mem_cons.1 elsewhere
      rw [still' others, still first]

theorem position_of_spelled {len body left : Bytes} (within : c.rest <:+ c.slice)
    (h : c.rest = len ++ body ++ left) :
    position { c with rest := left } = c.position + (len.length + body.length) := by
  have hl := within.length_le
  rw [position, position, h]
  rw [h] at hl
  simp only [List.length_append] at hl ⊢
  omega

theorem reads_stable (slice : Bytes) (first more : List (Nat × Operation)) (k : Nat) (c : Cursor)
    (found : (run [whole slice] first)[k]? = some c) :
    c.InBounds ∧
      (∃ c', (run (run [whole slice] first) more)[k]? = some c' ∧ c'.InBounds ∧
        c'.slice = c.slice ∧ c.position ≤ c'.position ∧
        ((∀ request ∈ more, request.1 ≠ k) → c' = c)) ∧
      (∀ body left, Reader.delimited c.rest = .ok body left →
        step (run [whole slice] first) (k, .sub) =
          (run [whole slice] first).set k { c with rest := left } ++ [whole body] ∧
        ∃ len, Varint.Spelled 0 body.length len ∧ c.rest = len ++ body ++ left ∧
          position { c with rest := left } = c.position + (len.length + body.length)) ∧
      (∀ (op : Operation) answer left, op.reader c.rest = .ok answer left →
        ∃ used, c.rest = used ++ left ∧ ∀ behind, op.reader (used ++ behind) = .ok answer behind) ∧
      ∀ (op : Operation) e left, op.reader c.rest = .error e left → ¬e.IsShortage →
        ∀ behind, op.reader (c.rest ++ behind) = .error e (left ++ behind) := by
  have start : ∀ c ∈ [whole slice], c.rest <:+ c.slice := by
    intro c hc
    rw [List.mem_singleton.1 hc]
    exact List.suffix_rfl
  have within := suffix_run first start
  have own := within c (List.mem_of_getElem? found)
  refine ⟨inBounds_of_suffix own, ?_, ?_, fun op _ _ h => op.steady.near h,
    fun op _ _ h short => op.steady.firm h short⟩
  · obtain ⟨c', hc', onward, still⟩ := onward_run more found
    exact ⟨c', hc', inBounds_of_suffix (onward.suffix own), onward.slice, onward.position_le, still⟩
  · intro body left h
    refine ⟨?_, ?_⟩
    · rw [step, found]
      simp only [Operation.sub_of_delimited h]
      rfl
    · obtain ⟨n, middle, hv, ht⟩ := Reader.bind_eq_ok h
      obtain ⟨len, hb, spelled⟩ := Reader.spelled_of_varint hv
      obtain ⟨hn, hm⟩ := Reader.length_of_take ht
      have hrest : c.rest = len ++ body ++ left := by rw [hb, hm, List.append_assoc]
      exact ⟨len, hn ▸ spelled, hrest, position_of_spelled own hrest⟩

theorem reads_stable_nested :
    (run (run [whole [2, 5, 6, 4, 9]] [(0, .sub)]) [(1, .take 2), (1, .tag)])[0]? =
        some ⟨[2, 5, 6, 4, 9], [4, 9]⟩ ∧
      position ⟨[2, 5, 6, 4, 9], [4, 9]⟩ = 3 ∧
      Operation.tag.reader ([4, 9] ++ [1]) = .error (.invalidFieldNumber 0) ([9] ++ [1]) := by
  obtain ⟨-, ⟨c', later, -, -, -, still⟩, -, -, firm⟩ :=
    reads_stable [2, 5, 6, 4, 9] [(0, .sub)] [(1, .take 2), (1, .tag)] 0
      ⟨[2, 5, 6, 4, 9], [4, 9]⟩ rfl
  have elsewhere : ∀ request ∈ [(1, Operation.take 2), (1, .tag)], request.1 ≠ 0 := by simp
  exact ⟨still elsewhere ▸ later, rfl, firm .tag _ [9] rfl id [1]⟩

end Cursor

end SchemaRpc

import Mathlib.Data.List.Basic
import Mathlib.Order.Fin.Basic
import SchemaRpc.Proofs.Message.UnknownFields
import SchemaRpc.Proofs.Results

namespace SchemaRpc

namespace MessageType

def groupOf? (t : MessageType) (n : Nat) : Option String :=
  (t.field? n).bind Field.group?

def Bound (t : MessageType) (n k : Nat) : Prop :=
  n = k ∨ ∃ group, t.groupOf? n = some group ∧ t.groupOf? k = some group

/-- The second fields are the first ones in another order, in which any two that are bound to one
another stand as they stood before. -/
def Reordered (t : MessageType) (first second : List (Tag × Bytes)) : Prop :=
  ∃ order : List (Fin first.length),
    order.Perm (List.finRange first.length) ∧
    (order.Pairwise fun i j => t.Bound (first.get i).1.number (first.get j).1.number → i < j) ∧
    second = order.map first.get

namespace Bound

variable {t : MessageType} {n k l : Nat}

theorem symm (h : t.Bound n k) : t.Bound k n := by
  rcases h with rfl | ⟨group, hn, hk⟩
  · exact .inl rfl
  · exact .inr ⟨group, hk, hn⟩

theorem trans (h : t.Bound n k) (hl : t.Bound k l) : t.Bound n l := by
  rcases h with rfl | ⟨group, hn, hk⟩
  · exact hl
  · rcases hl with rfl | ⟨group', hk', hl⟩
    · exact .inr ⟨group, hn, hk⟩
    · rw [hk] at hk'
      cases hk'
      exact .inr ⟨group, hn, hl⟩

end Bound

instance (t : MessageType) (n k : Nat) : Decidable (t.Bound n k) :=
  decidable_of_iff (n = k ∨ (t.groupOf? n).isSome ∧ t.groupOf? k = t.groupOf? n) <|
    or_congr_right <| by
      cases t.groupOf? n <;> simp

end MessageType

section Swapping

variable {σ ι ε : Type} {P : σ → Prop} {step : σ → ι → Except ε σ}

def Swaps (P : σ → Prop) (step : σ → ι → Except ε σ) (i j : ι) : Prop :=
  ∀ s mid s', P s → step s i = .ok mid → step mid j = .ok s' →
    ∃ other, step s j = .ok other ∧ step other i = .ok s'

theorem foldlM_from_front (keeps : ∀ s i s', P s → step s i = .ok s' → P s') {i : ι}
    {before after : List ι} (swaps : ∀ j ∈ before, Swaps P step i j) {s s' : σ} (hs : P s)
    (h : (i :: (before ++ after)).foldlM step s = .ok s') :
    (before ++ i :: after).foldlM step s = .ok s' := by
  induction before generalizing s with
  | nil => exact h
  | cons j before ih =>
      rw [List.foldlM_cons] at h
      obtain ⟨mid, hi, h⟩ := Except.bind_eq_ok h
      rw [List.cons_append, List.foldlM_cons] at h
      obtain ⟨last, hj, h⟩ := Except.bind_eq_ok h
      obtain ⟨other, hother, hlast⟩ := swaps j List.mem_cons_self s mid last hs hi hj
      rw [List.cons_append, List.foldlM_cons, hother]
      refine ih (fun k hk => swaps k (List.mem_cons_of_mem _ hk)) (keeps _ _ _ hs hother) ?_
      rw [List.foldlM_cons, hlast]
      exact h

theorem foldlM_reordered [LinearOrder ι] (keeps : ∀ s i s', P s → step s i = .ok s' → P s')
    {bound : ι → ι → Prop} (swaps : ∀ i j, ¬bound j i → Swaps P step i j) {first second : List ι}
    (ascending : first.Pairwise (· < ·)) (perm : second.Perm first)
    (kept : second.Pairwise fun i j => bound i j → i < j) {s s' : σ} (hs : P s)
    (h : first.foldlM step s = .ok s') : second.foldlM step s = .ok s' := by
  induction first generalizing second s with
  | nil =>
      rw [perm.eq_nil]
      exact h
  | cons i rest ih =>
      obtain ⟨before, after, rfl⟩ := List.append_of_mem (perm.mem_iff.2 List.mem_cons_self)
      have hperm : (before ++ after).Perm rest := (List.perm_middle.symm.trans perm).cons_inv
      obtain ⟨least, ascending⟩ := List.pairwise_cons.1 ascending
      -- what has come to stand before the least one is not bound to it
      have hfree : ∀ j ∈ before, Swaps P step i j := fun j hj => by
        refine swaps i j fun hbound => ?_
        have hlt : j < i := (List.pairwise_append.1 kept).2.2 j hj i List.mem_cons_self hbound
        exact lt_asymm hlt (least j (hperm.mem_iff.1 (List.mem_append_left _ hj)))
      refine foldlM_from_front keeps hfree hs ?_
      rw [List.foldlM_cons] at h ⊢
      obtain ⟨mid, hi, h⟩ := Except.bind_eq_ok h
      rw [hi]
      have hsub : (before ++ after).Sublist (before ++ i :: after) :=
        (List.sublist_cons_self i after).append_left before
      exact ih ascending hperm (kept.sublist hsub) (keeps _ _ _ hs hi) h

end Swapping

namespace Message

def AgreeOn (P : Nat → Prop) (m n : Message) : Prop :=
  ∀ k, P k → m.get? k = n.get? k

structure Kept (type : String) (m : Message) : Prop where
  type : m.type = type
  ascending : m.Ascending

structure Confined (type : String) (P : Nat → Prop) (act : Message → Except Error Message) :
    Prop where
  keeps : ∀ m m', m.Kept type → act m = .ok m' → m'.Kept type ∧ AgreeOn (fun k => ¬P k) m m'
  transfers : ∀ m n m', m.Kept type → n.Kept type → AgreeOn P m n → act m = .ok m' →
    ∃ n', act n = .ok n' ∧ AgreeOn P m' n'

variable {s : Schema} {rule : GroupRule} {nested : String → Bytes → Except Error Message}
variable {type : String} {P Q : Nat → Prop} {act other : Message → Except Error Message}

namespace Confined

theorem pass : Confined type P .ok where
  keeps := by
    rintro m _ hm ⟨⟩
    exact ⟨hm, fun _ _ => rfl⟩
  transfers := by
    rintro m n _ _ _ agree ⟨⟩
    exact ⟨n, rfl, agree⟩

theorem fail (e : Error) : Confined type P fun _ => .error e :=
  ⟨nofun, nofun⟩

theorem bind (h : Confined type P act) (ho : Confined type P other) :
    Confined type P fun m => act m >>= other where
  keeps := by
    intro m m' hm hact
    obtain ⟨mid, hmid, hother⟩ := Except.bind_eq_ok hact
    obtain ⟨kept, agree⟩ := h.keeps m mid hm hmid
    obtain ⟨kept', agree'⟩ := ho.keeps mid m' kept hother
    exact ⟨kept', fun k hk => (agree k hk).trans (agree' k hk)⟩
  transfers := by
    intro m n m' hm hn agree hact
    obtain ⟨mid, hmid, hother⟩ := Except.bind_eq_ok hact
    obtain ⟨mid', hmid', agree⟩ := h.transfers m n mid hm hn agree hmid
    obtain ⟨n', hn', agree⟩ :=
      ho.transfers mid mid' m' (h.keeps m mid hm hmid).1 (h.keeps n mid' hn hmid').1 agree hother
    exact ⟨n', by rw [hmid']; exact hn', agree⟩

theorem congr (h : Confined type P act) (same : ∀ m, m.Kept type → other m = act m) :
    Confined type P other where
  keeps := fun m m' hm hact => h.keeps m m' hm ((same m hm).symm.trans hact)
  transfers := by
    intro m n m' hm hn agree hact
    rw [same n hn]
    exact h.transfers m n m' hm hn agree ((same m hm).symm.trans hact)

theorem mono (h : Confined type P act) (le : ∀ k, P k → Q k) : Confined type Q act where
  keeps := fun m m' hm hact =>
    ⟨(h.keeps m m' hm hact).1, fun k hk => (h.keeps m m' hm hact).2 k fun hp => hk (le k hp)⟩
  transfers := by
    intro m n m' hm hn agree hact
    obtain ⟨n', hn', agree'⟩ := h.transfers m n m' hm hn (fun k hk => agree k (le k hk)) hact
    refine ⟨n', hn', fun k hk => ?_⟩
    by_cases hp : P k
    · exact agree' k hp
    · rw [← (h.keeps m m' hm hact).2 k hp, ← (h.keeps n n' hn hn').2 k hp, agree k hk]

theorem foldRun {t : Tag} {step : Message → Payload → Except Error Message}
    (h : ∀ p, Confined type P fun m => step m p) (body : Bytes) :
    Confined type P fun m => SchemaRpc.foldRun t step m body := by
  induction hl : body.length using Nat.strongRecOn generalizing body with
  | ind length ih =>
      cases body with
      | nil =>
          refine pass.congr fun m _ => ?_
          rw [SchemaRpc.foldRun]
          rfl
      | cons b tail =>
          cases hp : Reader.plainPayload t (b :: tail) with
          | error e left =>
              refine (Confined.fail e).congr fun m _ => ?_
              rw [SchemaRpc.foldRun, List.isEmpty_cons, if_neg Bool.false_ne_true]
              split
              · next he => rw [hp] at he; cases he; rfl
              · next he => rw [hp] at he; cases he
          | ok p rest =>
              have hlt := Reader.length_lt_of_plainPayload hp
              refine ((h p).bind (ih rest.length (by omega) rest rfl)).congr fun m _ => ?_
              rw [SchemaRpc.foldRun, List.isEmpty_cons, if_neg Bool.false_ne_true]
              split
              · next he => rw [hp] at he; cases he
              · next he =>
                  rw [hp] at he
                  cases he
                  cases step m p <;> rfl

theorem swap (h : Confined type P act) (ho : Confined type Q other) (apart : ∀ k, P k → ¬Q k)
    {m mid m' : Message} (hm : m.Kept type) (hact : act m = .ok mid) (hother : other mid = .ok m') :
    ∃ mid', other m = .ok mid' ∧ act mid' = .ok m' := by
  obtain ⟨kept, frame⟩ := h.keeps m mid hm hact
  obtain ⟨kept', frame'⟩ := ho.keeps mid m' kept hother
  obtain ⟨mid', hmid', agree⟩ :=
    ho.transfers mid m m' kept hm (fun k hk => (frame k fun hp => apart k hp hk).symm) hother
  obtain ⟨keptMid, frameMid⟩ := ho.keeps m mid' hm hmid'
  obtain ⟨last, hlast, agreeLast⟩ :=
    h.transfers m mid' mid hm keptMid (fun k hk => frameMid k (apart k hk)) hact
  obtain ⟨keptLast, frameLast⟩ := h.keeps mid' last keptMid hlast
  have hsame : last = m' := by
    refine ext_get? (keptLast.type.trans kept'.type.symm) keptLast.ascending kept'.ascending
      fun k => ?_
    by_cases hp : P k
    · rw [← agreeLast k hp, frame' k (apart k hp)]
    · rw [← frameLast k hp]
      by_cases hq : Q k
      · exact (agree k hq).symm
      · rw [← frameMid k hq, frame k hp, frame' k hq]
  exact ⟨mid', hmid', hsame ▸ hlast⟩

end Confined

theorem confined_append (f : Field) (v : Value) :
    Confined type (· = f.number) fun m => .ok (m.append f v) where
  keeps := by
    rintro m _ hm ⟨⟩
    refine ⟨⟨(type_append m f v).trans hm.type, hm.ascending.append f v⟩, fun k hk => ?_⟩
    rw [append_eq, get?_insert, if_neg hk]
  transfers := by
    rintro m n _ _ _ agree ⟨⟩
    refine ⟨_, rfl, ?_⟩
    rintro k rfl
    rw [append_eq, append_eq, get?_insert_self, get?_insert_self, appended, appended, agree _ rfl]

theorem siblings_eq {m n : Message} (h : m.type = n.type) (f : Field) :
    m.siblings s f = n.siblings s f := by
  rw [siblings, siblings, messageType, messageType, h]

theorem bound_of_mem_siblings {m : Message} {f g : Field}
    (check : (m.messageType s).check = .ok ()) (hf : (m.messageType s).field? f.number = some f)
    (hg : g ∈ m.siblings s f) : (m.messageType s).Bound f.number g.number := by
  obtain ⟨hmem, hgroup, hsame, -⟩ := (mem_siblings s).1 hg
  obtain ⟨group, hgroup⟩ := Option.isSome_iff_exists.1 hgroup
  refine .inr ⟨group, ?_, ?_⟩
  · rw [MessageType.groupOf?, hf]
    exact hgroup
  · rw [MessageType.groupOf?, MessageType.field?_of_mem check hmem]
    exact hsame.trans hgroup

theorem confined_store {f : Field} (check : (s.find type).check = .ok ())
    (hf : (s.find type).field? f.number = some f) (v : Value) :
    Confined type ((s.find type).Bound f.number) fun m => .ok (m.store s f v) where
  keeps := by
    rintro m _ hm ⟨⟩
    refine ⟨⟨(type_store s m f v).trans hm.type, hm.ascending.store s f v⟩, fun k hk => ?_⟩
    have hown : k ≠ f.number := fun h => hk (.inl h.symm)
    have hothers : ¬∃ g ∈ m.siblings s f, g.number = k := by
      rintro ⟨g, hg, rfl⟩
      rw [← hm.type] at check hf hk
      exact hk (bound_of_mem_siblings check hf hg)
    rw [get?_store s hm.ascending, if_neg hown, if_neg hothers]
  transfers := by
    rintro m n _ hm hn agree ⟨⟩
    refine ⟨_, rfl, fun k hk => ?_⟩
    rw [get?_store s hm.ascending, get?_store s hn.ascending,
      siblings_eq (hm.type.trans hn.type.symm), agree k hk]

theorem displaces_eq {f : Field} (check : (s.find type).check = .ok ())
    (hf : (s.find type).field? f.number = some f) {m n : Message} (hm : m.Kept type)
    (hn : n.Kept type) (agree : AgreeOn ((s.find type).Bound f.number) m n) :
    n.displaces s f = m.displaces s f := by
  rw [displaces, displaces, siblings_eq (hn.type.trans hm.type.symm), Bool.eq_iff_iff,
    List.any_eq_true, List.any_eq_true]
  refine exists_congr fun g => and_congr_right fun hg => ?_
  rw [← hm.type] at check hf agree
  rw [has, has, agree g.number (bound_of_mem_siblings check hf hg)]

theorem confined_keep {f : Field} (check : (s.find type).check = .ok ())
    (hf : (s.find type).field? f.number = some f) (v : Value) :
    Confined type ((s.find type).Bound f.number) fun m => m.keep s rule f v := by
  have hstore := confined_store check hf v
  cases hc : f.cardinality with
  | repeated =>
      simp only [keep_repeated hc]
      exact (confined_append f v).mono fun k hk => .inl hk.symm
  | single =>
      simp only [keep_single hc]
      exact hstore
  | optionalGroup group =>
      constructor
      · intro m m' hm hkeep
        rcases keep_eq_ok hkeep with ⟨hr, -⟩ | ⟨-, rfl⟩
        · rw [hc] at hr
          cases hr
        · exact hstore.keeps m _ hm rfl
      · intro m n m' hm hn agree hkeep
        simp only [keep, hc] at hkeep ⊢
        rw [displaces_eq check hf hm hn agree]
        split at hkeep
        · cases hkeep
        · next hfree =>
            rw [if_neg hfree]
            exact hstore.transfers m n m' hm hn agree hkeep

theorem confined_absorb (check : (s.find type).check = .ok ()) (r : Record) :
    Confined type ((s.find type).Bound r.number) fun m => m.absorb s rule nested r := by
  have hmeaning : ∀ m : Message, m.Kept type →
      (m.messageType s).meaning r = (s.find type).meaning r := fun m hm => by
    rw [messageType, hm.type]
  cases hr : (s.find type).meaning r with
  | unknown =>
      refine Confined.pass.congr fun m hm => ?_
      rw [absorb, hmeaning m hm, hr]
  | element f =>
      have hf := (MessageType.field?_of_meaning_element hr).1
      have hn := (MessageType.field?_eq_some hf).2
      rw [← hn] at hf ⊢
      cases hv : f.kind.element nested r.payload with
      | error e =>
          refine (Confined.fail e).congr fun m hm => ?_
          rw [absorb_of_element ((hmeaning m hm).trans hr), hv]
          rfl
      | ok v =>
          have hkeep : Confined type _ fun m => m.keep s rule f v := confined_keep check hf v
          refine hkeep.congr fun m hm => ?_
          rw [absorb_of_element ((hmeaning m hm).trans hr), hv]
          rfl
  | run f body =>
      have hn := (MessageType.field?_eq_some (MessageType.field?_of_meaning_run hr).1).2
      rw [← hn]
      have hrun : Confined type (· = f.number) fun m =>
          SchemaRpc.foldRun f.tag
            (fun m p => (f.kind.element nested p).bind fun v => .ok (m.append f v)) m body := by
        refine Confined.foldRun (fun p => ?_) body
        cases f.kind.element nested p with
        | error e => exact .fail e
        | ok v => exact confined_append f v
      refine (hrun.mono fun k hk => .inl hk.symm).congr fun m hm => ?_
      exact absorb_of_run ((hmeaning m hm).trans hr)

theorem swaps_absorb (check : (s.find type).check = .ok ()) {r r' : Record}
    (h : ¬(s.find type).Bound r'.number r.number) :
    Swaps (Kept type) (absorb s rule nested) r r' := fun _ _ _ hm hr hr' =>
  (confined_absorb check r).swap (confined_absorb check r')
    (fun _ hk hk' => h (hk'.trans hk.symm)) hm hr hr'

theorem records_map {ι : Type} {fields : ι → Tag × Bytes} {record : ι → Record}
    (h : ∀ i, Records [record i] (fields i).2) (order : List ι) :
    Records (order.map record) ((order.map fields).map Prod.snd).flatten := by
  induction order with
  | nil => exact .nil
  | cons i order ih => exact (h i).append ih

theorem decode_reordered {first second : List (Tag × Bytes)} {m : Message} (valid : s.Valid type)
    (fields : ∀ p ∈ first, Fields 64 [p.1] p.2) (order : (s.find type).Reordered first second)
    (h : decode s rule type (first.map Prod.snd).flatten = .ok m) :
    decode s rule type (second.map Prod.snd).flatten = .ok m := by
  obtain ⟨order, perm, kept, rfl⟩ := order
  have hrecord : ∀ i, ∃ r, Records [r] (first.get i).2 ∧ r.tag = (first.get i).1 := fun i => by
    obtain ⟨rs, hrs, htags⟩ := (fields _ (List.get_mem first i)).records (Nat.le_refl _)
    obtain ⟨r, rfl, htag⟩ := List.map_eq_singleton_iff.1 htags
    exact ⟨r, hrs, htag⟩
  choose record hspelled htag using hrecord
  have hfold : ∀ indices : List (Fin first.length),
      decode s rule type ((indices.map first.get).map Prod.snd).flatten =
        indices.foldlM (fun m i => m.absorb s rule (decodeWithin s rule Error.nestingLimit) (record i))
          (zero (s.find type)) := fun indices => by
    rw [decode, decodeWithin, foldRecords_eq_foldlM (records_map hspelled indices),
      List.foldlM_map]
  have hstart : (zero (s.find type)).Kept type :=
    ⟨by rw [type_zero, Schema.name_find], ascending_zero _⟩
  have hswaps : ∀ i j, ¬(s.find type).Bound (first.get j).1.number (first.get i).1.number →
      Swaps (Kept type)
        (fun m i => m.absorb s rule (decodeWithin s rule Error.nestingLimit) (record i)) i j :=
    fun i j hfree => by
      rw [← htag i, ← htag j] at hfree
      exact swaps_absorb valid.check hfree
  rw [← List.map_get_finRange first, hfold] at h
  rw [hfold]
  exact foldlM_reordered
    (fun m i m' hm hr => ((confined_absorb valid.check (record i)).keeps m m' hm hr).1) hswaps
    (List.pairwise_lt_finRange _) perm kept hstart h

section Samples

open Catalog

theorem fields_plain {n : Nat} {k : WireKind} {payload : Bytes} (positive : 0 < n)
    (small : n * 8 + k.number < 128) (body : k.Spelled payload) :
    Fields 64 [⟨n, k⟩] (UInt8.ofNat (n * 8 + k.number) :: payload) := by
  have hmax : n ≤ Tag.maxNumber := by
    have : 16 ≤ Tag.maxNumber := by decide
    omega
  have tag : Tag.Spelled ⟨n, k⟩ [UInt8.ofNat (n * 8 + k.number)] :=
    ⟨positive, hmax, spelled_small small⟩
  exact .single tag body

def asWritten : List (Tag × Bytes) :=
  [(⟨1, .delimited⟩, [10, 1, 97]), (⟨15, .varint⟩, [120, 1]), (⟨2, .delimited⟩, [18, 0]),
    (⟨3, .delimited⟩, [26, 0]), (⟨6, .varint⟩, [48, 1])]

def shuffled : List (Tag × Bytes) :=
  [(⟨6, .varint⟩, [48, 1]), (⟨2, .delimited⟩, [18, 0]), (⟨15, .varint⟩, [120, 1]),
    (⟨3, .delimited⟩, [26, 0]), (⟨1, .delimited⟩, [10, 1, 97])]

theorem fields_asWritten : ∀ p ∈ asWritten, Fields 64 [p.1] p.2 := by
  have one : WireKind.varint.Spelled [1] := .varint (spelled_small (n := 1) (by decide))
  have none : WireKind.delimited.Spelled ([0] ++ []) := .delimited (spelled_small (by decide))
  have letter : WireKind.delimited.Spelled ([1] ++ [97]) := .delimited (spelled_small (by decide))
  simp only [asWritten, List.forall_mem_cons]
  exact ⟨fields_plain (by decide) (by decide) letter, fields_plain (by decide) (by decide) one,
    fields_plain (by decide) (by decide) none, fields_plain (by decide) (by decide) none,
    fields_plain (by decide) (by decide) one, nofun⟩

theorem decode_shuffled :
    decode schema .replace "catalog.FieldSchema" (shuffled.map Prod.snd).flatten =
      .ok ⟨"catalog.FieldSchema", [(1, .string "a"),
        (3, .message ⟨"catalog.FloatSchema", [(1, .double 0), (2, .double 0)]⟩),
        (6, .bool true)]⟩ := by
  have valid : schema.Valid "catalog.FieldSchema" :=
    Schema.valid_of_closed (schema.types.map MessageType.name) (by decide) (by decide)
  have order : (schema.find "catalog.FieldSchema").Reordered asWritten shuffled :=
    ⟨[⟨4, by decide⟩, ⟨2, by decide⟩, ⟨1, by decide⟩, ⟨3, by decide⟩, ⟨0, by decide⟩], by decide,
      by decide, rfl⟩
  exact decode_reordered valid fields_asWritten order (by cbv)

end Samples

end Message

end SchemaRpc

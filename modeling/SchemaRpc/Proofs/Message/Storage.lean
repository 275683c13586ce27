import SchemaRpc.Message
import SchemaRpc.Proofs.Schema

namespace SchemaRpc

namespace Assoc

variable {α : Type} {entries : List (Nat × α)} {key : Nat} {a : α}

theorem get?_foldl_insert (base : List (Nat × α)) (h : Ascending entries) :
    get? key (entries.foldl (fun es p => insert p.1 p.2 es) base) =
      (get? key entries).or (get? key base) := by
  induction entries generalizing base with
  | nil => rfl
  | cons p rest ih =>
      have hp := List.pairwise_cons.1 h
      rw [List.foldl_cons, ih _ hp.2, get?_insert, get?]
      by_cases hk : p.1 = key
      · have hn : get? key rest = none := get?_eq_none_of_lt fun q hq => hk ▸ hp.1 q hq
        rw [if_pos hk, if_pos hk.symm, hn]
        rfl
      · rw [if_neg hk, if_neg (Ne.symm hk)]

theorem ascending_foldl_insert {base : List (Nat × α)} (h : Ascending base) :
    Ascending (entries.foldl (fun es p => insert p.1 p.2 es) base) := by
  induction entries generalizing base with
  | nil => exact h
  | cons p rest ih => exact ih (ascending_insert h)

end Assoc

namespace Message

def Ascending (m : Message) : Prop :=
  Assoc.Ascending m.fields

variable {m : Message}

theorem ext_get? {n : Message} (type : m.type = n.type) (hm : m.Ascending) (hn : n.Ascending)
    (h : ∀ k, m.get? k = n.get? k) : m = n := by
  cases m
  cases n
  cases type
  exact congrArg _ (Assoc.ext hm hn h)

theorem get?_insert (m : Message) (n : Nat) (v : Value) (k : Nat) :
    (m.insert n v).get? k = if k = n then some v else m.get? k :=
  Assoc.get?_insert

theorem get?_insert_self (m : Message) (n : Nat) (v : Value) : (m.insert n v).get? n = some v := by
  rw [get?_insert, if_pos rfl]

theorem Ascending.insert (h : m.Ascending) (n : Nat) (v : Value) : (m.insert n v).Ascending :=
  Assoc.ascending_insert h

theorem get?_clear (h : m.Ascending) (n k : Nat) :
    (m.clear n).get? k = if k = n then none else m.get? k :=
  Assoc.get?_erase h

theorem Ascending.clear (h : m.Ascending) (n : Nat) : (m.clear n).Ascending :=
  Assoc.ascending_erase h

theorem ascending_empty (type : String) : (empty type).Ascending :=
  List.Pairwise.nil

def withValue (value? : Field → Option Value) (m : Message) (f : Field) : Message :=
  match value? f with
  | some v => m.insert f.number v
  | none => m

theorem zero_eq (t : MessageType) : zero t = t.fields.foldl (withValue initial?) (empty t.name) := rfl

section Filling

variable {value? : Field → Option Value}

@[simp] theorem type_withValue (m : Message) (f : Field) : (m.withValue value? f).type = m.type := by
  rw [withValue]
  split <;> rfl

theorem Ascending.withValue (h : m.Ascending) (f : Field) : (m.withValue value? f).Ascending := by
  rw [Message.withValue]
  split
  · exact h.insert _ _
  · exact h

theorem get?_withValue (m : Message) (f : Field) (k : Nat) :
    (m.withValue value? f).get? k =
      if k = f.number then (value? f).or (m.get? k) else m.get? k := by
  rw [withValue]
  split
  · next v hv => rw [get?_insert, hv, Option.some_or]
  · next hv => rw [hv, Option.none_or, ite_self]

theorem type_foldl_withValue (fields : List Field) (base : Message) :
    (fields.foldl (withValue value?) base).type = base.type := by
  induction fields generalizing base with
  | nil => rfl
  | cons f rest ih => rw [List.foldl_cons, ih, type_withValue]

theorem Ascending.foldl_withValue (h : m.Ascending) (fields : List Field) :
    (fields.foldl (Message.withValue value?) m).Ascending := by
  induction fields generalizing m with
  | nil => exact h
  | cons f rest ih => exact ih (h.withValue f)

theorem get?_foldl_withValue {fields : List Field} (base : Message) (k : Nat)
    (h : fields.Pairwise fun f g => f.number ≠ g.number) :
    (fields.foldl (withValue value?) base).get? k =
      ((fields.find? fun f => f.number == k).bind value?).or (base.get? k) := by
  induction fields generalizing base with
  | nil => rfl
  | cons f rest ih =>
      have hf := List.pairwise_cons.1 h
      rw [List.foldl_cons, ih _ hf.2, get?_withValue]
      by_cases hk : f.number = k
      · have hn : (rest.find? fun g => g.number == k) = none := by
          refine List.find?_eq_none.2 fun g hg => ?_
          have := hf.1 g hg
          simp only [beq_iff_eq]
          omega
        rw [hn, List.find?_cons_of_pos (by simpa using hk), if_pos hk.symm]
        rfl
      · rw [List.find?_cons_of_neg (by simpa using hk), if_neg (Ne.symm hk)]

end Filling

theorem type_zero (t : MessageType) : (zero t).type = t.name :=
  type_foldl_withValue _ _

theorem ascending_zero (t : MessageType) : (zero t).Ascending :=
  (ascending_empty _).foldl_withValue _

theorem get?_zero {t : MessageType} (h : t.check = .ok ()) (k : Nat) :
    (zero t).get? k = (t.field? k).bind initial? := by
  rw [zero_eq, get?_foldl_withValue _ k (MessageType.pairwise_of_check h)]
  exact Option.or_none

theorem get?_zero_of_mem {t : MessageType} (h : t.check = .ok ()) {f : Field} (hf : f ∈ t.fields) :
    (zero t).get? f.number = initial? f := by
  rw [get?_zero h, MessageType.field?_of_mem h hf]
  rfl

theorem initial?_eq_some {f : Field} {v : Value} (h : initial? f = some v) :
    f.cardinality = .single ∧ f.kind.zero? = some v ∨ f.cardinality = .repeated ∧ v = .list [] := by
  rw [initial?] at h
  cases hc : f.cardinality with
  | repeated =>
      rw [hc] at h
      cases h
      exact .inr ⟨rfl, rfl⟩
  | single =>
      rw [hc] at h
      exact .inl ⟨rfl, h⟩
  | optionalGroup group =>
      rw [hc] at h
      cases h

section Storing

variable (s : Schema)

theorem mem_siblings {f g : Field} :
    g ∈ m.siblings s f ↔ g ∈ (m.messageType s).fields ∧ f.group?.isSome ∧ g.group? = f.group? ∧
      g.number ≠ f.number := by
  rw [siblings]
  cases f.group? with
  | none => simp
  | some group => simp [MessageType.groupMembers, and_assoc, and_comm]

theorem type_foldl_clear (fs : List Field) (m : Message) :
    (fs.foldl (fun m g => m.clear g.number) m).type = m.type := by
  induction fs generalizing m with
  | nil => rfl
  | cons f rest ih => rw [List.foldl_cons, ih]; rfl

theorem Ascending.foldl_clear (h : m.Ascending) (fs : List Field) :
    (fs.foldl (fun m g => m.clear g.number) m).Ascending := by
  induction fs generalizing m with
  | nil => exact h
  | cons f rest ih => exact ih (h.clear _)

theorem get?_foldl_clear (h : m.Ascending) (fs : List Field) (k : Nat) :
    (fs.foldl (fun m g => m.clear g.number) m).get? k =
      if ∃ g ∈ fs, g.number = k then none else m.get? k := by
  induction fs generalizing m with
  | nil => simp
  | cons f rest ih =>
      rw [List.foldl_cons, ih (h.clear _), get?_clear h]
      by_cases hr : ∃ g ∈ rest, g.number = k
      · simp [hr]
      · by_cases hk : f.number = k
        · simp [hk]
        · simp [hr, hk, Ne.symm hk]

@[simp] theorem type_store (m : Message) (f : Field) (v : Value) : (m.store s f v).type = m.type :=
  type_foldl_clear _ _

theorem Ascending.store (h : m.Ascending) (f : Field) (v : Value) : (m.store s f v).Ascending :=
  (h.foldl_clear _).insert _ _

theorem get?_store (h : m.Ascending) (f : Field) (v : Value) (k : Nat) :
    (m.store s f v).get? k =
      if k = f.number then some v
      else if ∃ g ∈ m.siblings s f, g.number = k then none
      else m.get? k := by
  rw [Message.store, get?_insert, get?_foldl_clear h]

@[simp] theorem type_append (m : Message) (f : Field) (v : Value) : (m.append f v).type = m.type := by
  rw [Message.append]
  split <;> rfl

def appended (m : Message) (f : Field) (v : Value) : List Value :=
  match m.get? f.number with
  | some (.list items) => items ++ [v]
  | _ => [v]

theorem append_eq (m : Message) (f : Field) (v : Value) :
    m.append f v = m.insert f.number (.list (m.appended f v)) := by
  rw [Message.append, appended]
  cases m.get? f.number with
  | none => rfl
  | some w => cases w <;> rfl

theorem Ascending.append (h : m.Ascending) (f : Field) (v : Value) : (m.append f v).Ascending := by
  rw [append_eq]
  exact h.insert _ _

end Storing

section Completion

variable (s : Schema)

theorem get?_completedFields (fields : List (Nat × Value)) (k : Nat) :
    Assoc.get? k (completedFields s fields) = (Assoc.get? k fields).map (·.completed s) := by
  induction fields with
  | nil => rfl
  | cons p rest ih =>
      rw [completedFields, Assoc.get?, Assoc.get?, ih]
      split <;> rfl

theorem ascending_completedFields {fields : List (Nat × Value)} (h : Assoc.Ascending fields) :
    Assoc.Ascending (completedFields s fields) := by
  have hk : ∀ fields : List (Nat × Value),
      (completedFields s fields).map Prod.fst = fields.map Prod.fst := by
    intro fields
    induction fields with
    | nil => rfl
    | cons p rest ih => rw [completedFields, List.map_cons, ih, List.map_cons]
  have := List.pairwise_map.2 h
  rw [← hk] at this
  exact List.pairwise_map.1 this

theorem completedItems_eq (items : List Value) :
    completedItems s items = items.map (·.completed s) := by
  induction items with
  | nil => rfl
  | cons v rest ih => rw [completedItems, ih, List.map_cons]

theorem fields_overlay (base : Message) (entries : List (Nat × Value)) :
    base.overlay entries =
      ⟨base.type, entries.foldl (fun es p => Assoc.insert p.1 p.2 es) base.fields⟩ := by
  induction entries generalizing base with
  | nil => cases base; rfl
  | cons p rest ih => exact ih _

theorem completed_eq (m : Message) :
    m.completed s = (zero (s.find m.type)).overlay (completedFields s m.fields) := by
  cases m
  rw [completed]

@[simp] theorem type_completed (m : Message) : (m.completed s).type = m.type := by
  rw [completed_eq, fields_overlay, type_zero, Schema.name_find]

theorem ascending_completed (m : Message) : (m.completed s).Ascending := by
  rw [completed_eq, fields_overlay]
  exact Assoc.ascending_foldl_insert (ascending_zero _)

theorem get?_completed (h : m.Ascending) (k : Nat) :
    (m.completed s).get? k =
      ((m.get? k).map (·.completed s)).or ((zero (s.find m.type)).get? k) := by
  rw [completed_eq, fields_overlay]
  rw [get?, Assoc.get?_foldl_insert _ (ascending_completedFields s h), get?_completedFields]
  rfl

end Completion

end Message

end SchemaRpc

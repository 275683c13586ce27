import SchemaRpc.Proofs.Message.Storage

namespace SchemaRpc

def Value.elements : Value → List Value
  | .list items => items
  | v => [v]

theorem Value.elements_completed (s : Schema) (v : Value) :
    (v.completed s).elements = v.elements.map (·.completed s) := by
  cases v with
  | list items =>
      rw [completed, elements, Message.completedItems_eq]
      rfl
  | message m => rw [completed, elements, elements, List.map_singleton, completed] <;> simp
  | _ => rfl

theorem Value.completed_of_elements {s : Schema} {v : Value}
    (h : ∀ e ∈ v.elements, e.completed s = e) : v.completed s = v := by
  cases v with
  | list items =>
      have hi : items.map (·.completed s) = items.map id := List.map_congr_left h
      rw [completed, Message.completedItems_eq, hi, List.map_id]
  | _ => exact h _ (List.mem_singleton_self _)

namespace Kind

variable {k : Kind} {v : Value}

theorem zero?_ne_list (items : List Value) : k.zero? ≠ some (.list items) := by
  rintro h
  cases k with
  | scalar c => cases c <;> cases h
  | _ => cases h

theorem zero?_ne_message (m : Message) : k.zero? ≠ some (.message m) := by
  rintro h
  cases k with
  | scalar c => cases c <;> cases h
  | _ => cases h

theorem zero?_ne_timestamp (t : Instant) : k.zero? ≠ some (.timestamp t) := by
  rintro h
  cases k with
  | scalar c => cases c <;> cases h
  | _ => cases h

theorem elements_of_zero? (h : k.zero? = some v) : v.elements = [v] := by
  cases v with
  | list items => exact absurd h (zero?_ne_list items)
  | _ => rfl

theorem completed_of_zero? {s : Schema} (h : k.zero? = some v) : v.completed s = v := by
  cases v with
  | message m => exact absurd h (zero?_ne_message m)
  | list items => exact absurd h (zero?_ne_list items)
  | _ => rfl

end Kind

namespace Message

def Contains (m : Message) (e : Value) : Prop :=
  ∃ n v, m.get? n = some v ∧ e ∈ v.elements

inductive Nested : Nat → Message → Message → Prop
  | self {m : Message} : Nested 0 m m
  | inside {depth : Nat} {m inner k : Message} (stored : m.Contains (.message inner))
      (rest : Nested depth inner k) : Nested (depth + 1) m k

theorem forall_nested_iff {P : Nat → Message → Prop} {m : Message} :
    (∀ depth k, Nested depth m k → P depth k) ↔
      P 0 m ∧ ∀ inner, m.Contains (.message inner) →
        ∀ depth k, Nested depth inner k → P (depth + 1) k := by
  constructor
  · intro h
    exact ⟨h 0 m .self, fun inner hc depth k hk => h _ k (.inside hc hk)⟩
  · rintro ⟨hs, hi⟩ depth k hk
    cases hk with
    | self => exact hs
    | inside hc hk => exact hi _ hc _ _ hk

variable {s : Schema} {m : Message} {f : Field} {v e : Value}

theorem mem_of_contains (h : m.Contains e) : ∃ p ∈ m.fields, e ∈ p.2.elements := by
  obtain ⟨n, v, hv, he⟩ := h
  exact ⟨(n, v), Assoc.mem_of_get?_eq_some hv, he⟩

theorem contains_of_store (h : m.Ascending) (hc : (m.store s f v).Contains e) :
    m.Contains e ∨ e ∈ v.elements := by
  obtain ⟨n, w, hw, he⟩ := hc
  rw [get?_store s h] at hw
  split at hw
  · cases hw
    exact .inr he
  · split at hw
    · cases hw
    · exact .inl ⟨n, w, hw, he⟩

theorem contains_of_append (hc : (m.append f v).Contains e) : m.Contains e ∨ e = v := by
  obtain ⟨n, w, hw, he⟩ := hc
  rw [append_eq, get?_insert] at hw
  split at hw
  · cases hw
    change e ∈ m.appended f v at he
    unfold appended at he
    split at he
    · next items hi =>
        cases List.mem_append.1 he with
        | inl he => exact .inl ⟨f.number, _, hi, he⟩
        | inr he => exact .inr (List.mem_singleton.1 he)
    · exact .inr (List.mem_singleton.1 he)
  · exact .inl ⟨n, w, hw, he⟩

theorem contains_of_clear {n : Nat} (h : m.Ascending) (hc : (m.clear n).Contains e) :
    m.Contains e := by
  obtain ⟨k, w, hw, he⟩ := hc
  rw [get?_clear h] at hw
  split at hw
  · cases hw
  · exact ⟨k, w, hw, he⟩

theorem not_contains_empty {type : String} : ¬(empty type).Contains e := by
  rintro ⟨n, v, hv, -⟩
  cases hv

theorem contains_of_zero {t : MessageType} (h : t.check = .ok ()) (hc : (zero t).Contains e) :
    ∃ k : Kind, k.zero? = some e := by
  obtain ⟨n, v, hv, he⟩ := hc
  rw [get?_zero h] at hv
  obtain ⟨f, -, hi⟩ := Option.bind_eq_some_iff.1 hv
  rcases initial?_eq_some hi with ⟨-, hz⟩ | ⟨-, rfl⟩
  · rw [Kind.elements_of_zero? hz] at he
    exact ⟨f.kind, List.mem_singleton.1 he ▸ hz⟩
  · cases he

theorem contains_of_completed (h : m.Ascending) (hc : (m.completed s).Contains e) :
    (∃ w, m.Contains w ∧ e = w.completed s) ∨ (zero (s.find m.type)).Contains e := by
  obtain ⟨n, v, hv, he⟩ := hc
  rw [get?_completed s h] at hv
  cases hm : m.get? n with
  | none =>
      rw [hm] at hv
      exact .inr ⟨n, v, hv, he⟩
  | some w =>
      rw [hm] at hv
      cases hv
      rw [Value.elements_completed] at he
      obtain ⟨x, hx, rfl⟩ := List.mem_map.1 he
      exact .inl ⟨x, ⟨n, w, hm, hx⟩, rfl⟩

end Message

end SchemaRpc

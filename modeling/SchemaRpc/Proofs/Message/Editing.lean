import SchemaRpc.Proofs.Message.Construction
import SchemaRpc.Services.Auth

namespace SchemaRpc

def MessageType.Grouped (t : MessageType) (n k : Nat) : Prop :=
  ∃ group, ∃ f ∈ t.groupMembers group, ∃ g ∈ t.groupMembers group, f.number = n ∧ g.number = k

namespace Message

abbrev Call := EStateM Error Message Unit

section Calls

variable (s : Schema)

def storing (f : Field) (v : Value) : Call := do
  let m ← get
  (m.siblings s f).forM fun g => modify (·.clear g.number)
  modify (·.insert f.number v)

def setting (n : Nat) (v : Value) : Call := do
  let m ← get
  match (m.messageType s).field? n with
  | none => throw (m.noField n)
  | some f => if f.accepts v then storing s f (f.normalized v) else throw (m.cannotHold f v)

def settingNamed (name : String) (v : Value) : Call := do
  let m ← get
  match (m.messageType s).fieldNamed? name with
  | none => throw (m.noFieldNamed name)
  | some f => setting s f.number v

def pushing (n : Nat) (v : Value) : Call := do
  let m ← get
  match ((m.messageType s).field? n).filter (·.isRepeated) with
  | none => throw (m.noRepeatedField n)
  | some f =>
    if v.fits f.kind then modify (·.append f (v.normalized f.kind)) else throw (m.cannotHold f v)

def putting (n : Nat) (v : Value) : Call := do
  let m ← get
  match (m.messageType s).field? n with
  | none => pure ()
  | some f => storing s f (f.normalized v)

end Calls

inductive Edit where
  | set (n : Nat) (v : Value)
  | setNamed (name : String) (v : Value)
  | push (n : Nat) (v : Value)
  | put (n : Nat) (v : Value)
  | clear (n : Nat)
  | complete

namespace Edit

def call (s : Schema) : Edit → Call
  | set n v => setting s n v
  | setNamed name v => settingNamed s name v
  | push n v => pushing s n v
  | put n v => putting s n v
  | clear n => modify (·.clear n)
  | complete => modify (·.completed s)

def result (s : Schema) (m : Message) : Edit → Except Error Message
  | set n v => m.set s n v
  | setNamed name v => m.setNamed s name v
  | push n v => m.push s n v
  | put n v => .ok (m.put s n v)
  | clear n => .ok (m.clear n)
  | complete => .ok (m.completed s)

def after (s : Schema) (m : Message) (e : Edit) : Message :=
  match e.call s m with
  | .ok _ m' => m'
  | .error _ m' => m'

def elements : Edit → List Value
  | set _ v | setNamed _ v | push _ v | put _ v => v.elements
  | clear _ | complete => []

def number? (t : MessageType) : Edit → Option Nat
  | set n _ | push n _ | put n _ | clear n => some n
  | setNamed name _ => (t.fieldNamed? name).map (·.number)
  | complete => none

def Suits (t : MessageType) : Edit → Prop
  | put n v => ∀ f, t.field? n = some f → f.accepts v = true
  | _ => True

end Edit

/-- The messages that calls make of new and of empty ones, failing calls included. Nested messages that a
call hands over were made in the same way, and its instants are dates of the calendar. -/
inductive Crafted (s : Schema) : Message → Prop
  | new (type : String) : Crafted s (zero (s.find type))
  | empty (type : String) : Crafted s (empty type)
  | after {m : Message} (target : Crafted s m) (e : Edit)
      (messages : ∀ k, .message k ∈ e.elements → Crafted s k)
      (instants : ∀ t, .timestamp t ∈ e.elements → t.InCalendar)
      (suits : e.Suits (m.messageType s)) : Crafted s (e.after s m)

variable {s : Schema} {m m' : Message} {n k : Nat} {v : Value} {f : Field} {e : Edit}

theorem forM_clear (fs : List Field) (m : Message) :
    (fs.forM fun g => (modify (·.clear g.number) : Call)) m =
      .ok () (fs.foldl (fun m g => m.clear g.number) m) := by
  induction fs generalizing m with
  | nil => rfl
  | cons f rest ih => exact ih (m.clear f.number)

theorem storing_eq (s : Schema) (m : Message) (f : Field) (v : Value) :
    storing s f v m = .ok () (m.store s f v) := by
  have h : storing s f v m = EStateM.bind ((m.siblings s f).forM fun g => modify (·.clear g.number))
      (fun _ => modify (·.insert f.number v)) m := rfl
  rw [h, EStateM.bind, forM_clear]
  rfl

def outcome (m : Message) : Except Error Message → EStateM.Result Error Message Unit
  | .ok m' => .ok () m'
  | .error err => .error err m

theorem setting_eq (s : Schema) (m : Message) (n : Nat) (v : Value) :
    setting s n v m = m.outcome (m.set s n v) := by
  have h : setting s n v m = (match (m.messageType s).field? n with
      | none => throw (m.noField n)
      | some f =>
        if f.accepts v then storing s f (f.normalized v) else throw (m.cannotHold f v) : Call) m :=
    rfl
  rw [h, set]
  cases (m.messageType s).field? n with
  | none => rfl
  | some f =>
      by_cases ha : f.accepts v = true
      · simp only [ha, if_true]
        exact storing_eq s m f _
      · simp only [ha]
        rfl

theorem pushing_eq (s : Schema) (m : Message) (n : Nat) (v : Value) :
    pushing s n v m = m.outcome (m.push s n v) := by
  have h : pushing s n v m = (match ((m.messageType s).field? n).filter (·.isRepeated) with
      | none => throw (m.noRepeatedField n)
      | some f =>
        if v.fits f.kind then modify (·.append f (v.normalized f.kind))
        else throw (m.cannotHold f v) : Call) m :=
    rfl
  rw [h, push]
  cases (m.messageType s).field? n with
  | none => rfl
  | some f => by_cases hr : f.isRepeated = true <;> by_cases hv : v.fits f.kind = true <;>
      simp only [Option.filter, hr, hv, if_true] <;> rfl

namespace Edit

theorem call_eq (s : Schema) (m : Message) (e : Edit) : e.call s m = m.outcome (e.result s m) := by
  cases e with
  | set n v => exact setting_eq s m n v
  | setNamed name v =>
      have h : settingNamed s name v m = (match (m.messageType s).fieldNamed? name with
          | none => throw (m.noFieldNamed name)
          | some f => setting s f.number v : Call) m := rfl
      rw [call, h, result, Message.setNamed]
      cases (m.messageType s).fieldNamed? name with
      | none => rfl
      | some f => exact setting_eq s m f.number v
  | push n v => exact pushing_eq s m n v
  | put n v =>
      have h : putting s n v m = (match (m.messageType s).field? n with
          | none => pure ()
          | some f => storing s f (f.normalized v) : Call) m := rfl
      rw [call, h, result, Message.put]
      cases (m.messageType s).field? n with
      | none => rfl
      | some f => exact storing_eq s m f _
  | clear n => rfl
  | complete => rfl

theorem after_eq (s : Schema) (m : Message) (e : Edit) :
    e.after s m = match e.result s m with
      | .ok m' => m'
      | .error _ => m := by
  rw [after, call_eq]
  cases e.result s m <;> rfl

end Edit

theorem set_of_setNamed {name : String} (h : m.setNamed s name v = .ok m') :
    ∃ f ∈ (m.messageType s).fields, (m.messageType s).fieldNamed? name = some f ∧
      m.set s f.number v = .ok m' := by
  unfold setNamed at h
  split at h
  · cases h
  · next f hf => exact ⟨f, MessageType.fieldNamed?_eq_some hf, hf, h⟩

theorem put_eq_or (s : Schema) (m : Message) (n : Nat) (v : Value) :
    m.put s n v = m ∨ ∃ f, (m.messageType s).field? n = some f ∧
      m.put s n v = m.store s f (f.normalized v) := by
  rw [put]
  cases (m.messageType s).field? n with
  | none => exact .inl rfl
  | some f => exact .inr ⟨f, rfl, rfl⟩

theorem Built.result (h : Built s m) (messages : ∀ k, .message k ∈ e.elements → Built s k)
    (instants : ∀ t, .timestamp t ∈ e.elements → t.InCalendar)
    (suits : e.Suits (m.messageType s)) (done : e.result s m = .ok m') : Built s m' := by
  cases e with
  | set n v => exact h.set messages instants done
  | setNamed name v =>
      obtain ⟨f, -, -, hf⟩ := set_of_setNamed done
      exact h.set messages instants hf
  | push n v => exact h.push messages instants done
  | put n v =>
      cases done
      rcases m.put_eq_or s n v with hm | ⟨f, hf, hm⟩
      · rwa [hm]
      · refine h.set messages instants (n := n) (v := v) ?_
        rw [Message.set, hf, hm]
        exact if_pos (suits f hf)
  | clear n => cases done; exact h.clear n
  | complete => cases done; exact h.completed

theorem Crafted.built (h : Crafted s m) : Built s m := by
  induction h with
  | new type => exact .new type
  | empty type => exact .empty type
  | after _ e messages instants suits ih ihv =>
      rw [Edit.after_eq]
      split
      · next done => exact ih.result ihv instants suits done
      · exact ih

theorem get?_store_of_not_grouped (ascending : m.Ascending) (hf : f ∈ (m.messageType s).fields)
    (other : k ≠ f.number) (hg : ¬(m.messageType s).Grouped f.number k) :
    (m.store s f v).get? k = m.get? k := by
  rw [get?_store s ascending, if_neg other, if_neg]
  rintro ⟨g, hs, rfl⟩
  obtain ⟨hmem, hsome, hsame, -⟩ := (mem_siblings s).1 hs
  obtain ⟨group, hgroup⟩ := Option.isSome_iff_exists.1 hsome
  exact hg ⟨group, f, mem_groupMembers.2 ⟨hf, hgroup⟩, g,
    mem_groupMembers.2 ⟨hmem, hsame.trans hgroup⟩, rfl, rfl⟩

theorem get?_set_of_not_grouped (ascending : m.Ascending) (done : m.set s n v = .ok m')
    (other : k ≠ n) (hg : ¬(m.messageType s).Grouped n k) : m'.get? k = m.get? k := by
  unfold set at done
  split at done
  · cases done
  · next f hf =>
      obtain ⟨hmem, rfl⟩ := MessageType.field?_eq_some hf
      split at done
      · cases done
        exact get?_store_of_not_grouped ascending hmem other hg
      · cases done

theorem get?_push_of_ne (done : m.push s n v = .ok m') (other : k ≠ n) :
    m'.get? k = m.get? k := by
  unfold push at done
  split at done
  · cases done
  · next f hf =>
      obtain ⟨-, rfl⟩ := MessageType.field?_eq_some hf
      split at done
      · split at done
        · cases done
          rw [append_eq, get?_insert, if_neg other]
        · cases done
      · cases done

theorem Edit.get?_result (ascending : m.Ascending) (done : e.result s m = .ok m')
    (about : e.number? (m.messageType s) = some n) (other : k ≠ n)
    (hg : ¬(m.messageType s).Grouped n k) : m'.get? k = m.get? k := by
  cases e with
  | set n v =>
      cases about
      exact get?_set_of_not_grouped ascending done other hg
  | setNamed name v =>
      obtain ⟨f, -, hf, hset⟩ := set_of_setNamed done
      rw [number?, hf] at about
      cases about
      exact get?_set_of_not_grouped ascending hset other hg
  | push n v =>
      cases about
      exact get?_push_of_ne done other
  | put n v =>
      cases about
      cases done
      rcases m.put_eq_or s n v with hm | ⟨f, hf, hm⟩
      · rw [hm]
      · obtain ⟨hmem, rfl⟩ := MessageType.field?_eq_some hf
        rw [hm]
        exact get?_store_of_not_grouped ascending hmem other hg
  | clear n =>
      cases about
      cases done
      rw [get?_clear ascending, if_neg other]
  | complete => cases about

theorem Conforms.whole (h : m.Conforms s) {t : Instant} (hc : m.Contains (.timestamp t))
    (dated : t.millis ≤ Instant.lastMillis) : t = .ofMillis t.millis := by
  obtain ⟨f, -, ha | hz⟩ := h.admissible_of_contains hc
  · cases hk : f.kind with
    | timestamp =>
        rw [hk] at ha
        obtain ⟨ht, -⟩ := ha
        rw [Instant.truncated, if_pos dated] at ht
        exact ht.symm
    | _ => rw [hk] at ha; cases ha
  · exact absurd hz (Kind.zero?_ne_timestamp t)

theorem conforms_of_crafted (valid : s.Valid m.type) (crafted : Crafted s m) :
    (∀ depth k, Nested depth m k → k.Conforms s ∧
      ∀ t, k.Contains (.timestamp t) → t.millis ≤ Instant.lastMillis → t = .ofMillis t.millis) ∧
    ∀ e : Edit,
      (∀ err m', e.call s m = .error err m' → m' = m) ∧
      ∀ m', e.call s m = .ok () m' → ∀ n, e.number? (m.messageType s) = some n →
        ∀ k ≠ n, ¬(m.messageType s).Grouped n k → m'.get? k = m.get? k := by
  have sound := crafted.built.sound valid
  refine ⟨fun depth k hk => ⟨sound depth k hk, fun t => (sound depth k hk).whole⟩, fun e => ?_⟩
  rw [Edit.call_eq]
  cases hr : e.result s m with
  | error err =>
      refine ⟨fun _ _ h => ?_, fun _ h => ?_⟩
      · cases h; rfl
      · cases h
  | ok m'' =>
      refine ⟨fun _ _ h => ?_, fun m' h n about k other hg => ?_⟩
      · cases h
      · cases h
        exact Edit.get?_result sound.conforms.ascending hr about other hg

section Samples

open Auth

def ruled (n : Nat) (type : String) : Message :=
  ⟨"auth.Policy", [(1, .string ""), (2, .string ""), (n, .message (zero (schema.find type))),
    (5, .list [])]⟩

theorem crafted_ruled : Crafted schema (ruled 3 "auth.CatalogRule") := by
  refine (Crafted.new "auth.Policy").after
    (.set 3 (.message (zero (schema.find "auth.CatalogRule")))) (fun k hk => ?_) (fun t ht => ?_) trivial
  · cases List.mem_singleton.1 hk
    exact .new _
  · cases List.mem_singleton.1 ht

theorem not_grouped_actions : ¬((ruled 3 "auth.CatalogRule").messageType schema).Grouped 4 5 := by
  rintro ⟨group, -, -, g, hg, -, h5⟩
  obtain ⟨hmem, hgroup⟩ := mem_groupMembers.1 hg
  change g ∈ [_, _, _, _, _] at hmem
  simp only [List.mem_cons, List.not_mem_nil, or_false] at hmem
  rcases hmem with rfl | rfl | rfl | rfl | rfl <;> cases h5
  cases hgroup

theorem conforms_of_crafted_ruled :
    (ruled 3 "auth.CatalogRule").Conforms schema ∧
      (∃ err, (Edit.set 2 (.bool true)).call schema (ruled 3 "auth.CatalogRule") =
        .error err (ruled 3 "auth.CatalogRule")) ∧
      (Edit.setNamed "lambdaRule" (.message (zero (schema.find "auth.LambdaRule")))).call schema
        (ruled 3 "auth.CatalogRule") = .ok () (ruled 4 "auth.LambdaRule") ∧
      (ruled 4 "auth.LambdaRule").get? 5 = (ruled 3 "auth.CatalogRule").get? 5 := by
  have valid : schema.Valid "auth.Policy" :=
    Schema.valid_of_closed (schema.types.map MessageType.name) (by decide) (by decide)
  obtain ⟨conforms, calls⟩ := conforms_of_crafted valid crafted_ruled
  have fails : ∃ err m', (Edit.set 2 (.bool true)).call schema (ruled 3 "auth.CatalogRule") =
      .error err m' := ⟨_, _, rfl⟩
  have replaces : (Edit.setNamed "lambdaRule" (.message (zero (schema.find "auth.LambdaRule")))).call
      schema (ruled 3 "auth.CatalogRule") = .ok () (ruled 4 "auth.LambdaRule") := rfl
  refine ⟨(conforms 0 _ .self).1, ?_, replaces, ?_⟩
  · obtain ⟨err, m', h⟩ := fails
    obtain rfl := (calls _).1 err m' h
    exact ⟨err, h⟩
  · exact (calls _).2 _ replaces 4 rfl 5 (by decide) not_grouped_actions

end Samples

end Message

end SchemaRpc

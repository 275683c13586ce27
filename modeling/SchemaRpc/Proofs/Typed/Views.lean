import SchemaRpc.Proofs.Message.Accessors
import SchemaRpc.Proofs.Message.Decoding
import SchemaRpc.Proofs.Message.JsonRoundTrip
import SchemaRpc.Typed

namespace SchemaRpc

theorem Assoc.notMem_of_get?_eq_none {α : Type} {entries : List (Nat × α)} {key : Nat}
    (h : get? key entries = none) : key ∉ entries.map Prod.fst := by
  induction entries with
  | nil => exact List.not_mem_nil
  | cons p rest ih =>
      rw [get?] at h
      split at h
      · cases h
      · next hne => exact fun hk => (List.mem_cons.1 hk).elim (Ne.symm hne) (ih h)

theorem Assoc.get?_of_distinct {α : Type} {entries : List (Nat × α)} {p : Nat × α}
    (distinct : (entries.map Prod.fst).Pairwise (· ≠ ·)) (hp : p ∈ entries) :
    get? p.1 entries = some p.2 := by
  induction entries with
  | nil => cases hp
  | cons q rest ih =>
      rw [List.map_cons, List.pairwise_cons] at distinct
      rw [get?]
      rcases List.mem_cons.1 hp with rfl | hp
      · exact if_pos rfl
      · rw [if_neg (distinct.1 p.1 (List.mem_map_of_mem hp))]
        exact ih distinct.2 hp

namespace MessageType

def groupOf (t : MessageType) (n : Nat) : Option String :=
  (t.field? n).bind Field.group?

def Apart (t : MessageType) (n k : Nat) : Prop :=
  n ≠ k ∧ (t.groupOf n = none ∨ t.groupOf n ≠ t.groupOf k)

instance (t : MessageType) : DecidableRel t.Apart :=
  fun _ _ => inferInstanceAs (Decidable (_ ∧ _))

theorem Apart.symm {t : MessageType} {n k : Nat} (h : t.Apart n k) : t.Apart k n := by
  obtain ⟨hne, hnone | hdiff⟩ := h
  · refine ⟨Ne.symm hne, ?_⟩
    rw [hnone]
    cases t.groupOf k with
    | none => exact .inl rfl
    | some group => exact .inr nofun
  · exact ⟨Ne.symm hne, .inr (Ne.symm hdiff)⟩

def Covered (t : MessageType) (numbers : List Nat) : Prop :=
  numbers.Pairwise t.Apart ∧
    ∀ f ∈ t.fields, (Message.initial? f).isSome = true → f.number ∈ numbers

instance (t : MessageType) (numbers : List Nat) : Decidable (t.Covered numbers) :=
  inferInstanceAs (Decidable (_ ∧ _))

end MessageType

namespace Message

structure Sent (s : Schema) (asJson : Prop) (m : Message) : Prop extends m.WellFormed s where
  spelled : asJson → ∀ e, m.Contains e → e.Plain

end Message

def Value.Sendable (s : Schema) (asJson : Prop) (levels : Nat) : Value → Prop
  | .message m => m.Throughout (Message.Sent s asJson) levels
  | .timestamp t => t = .ofMillis t.millis ∧ t.InRange
  | v => asJson → v.Plain

structure Field.Takes (f : Field) (v : Value) : Prop where
  accepts : f.accepts v = true
  normalized : f.normalized v = v

theorem Value.Sendable.plain {s : Schema} {asJson : Prop} {levels : Nat} {v : Value}
    (h : v.Sendable s asJson levels) (hp : asJson) : v.Plain := by
  cases v with
  | message m => trivial
  | timestamp t => exact h.2
  | _ => exact h hp

namespace Message

variable {s : Schema} {asJson : Prop} {levels n k : Nat} {m d : Message} {f : Field} {v w : Value}
  {ps : List (Nat × Value)}

theorem Sent.imp {other : Prop} (h : m.Sent s asJson) (hp : other → asJson) : m.Sent s other :=
  ⟨h.toWellFormed, fun ho => h.spelled (hp ho)⟩

theorem Sent.zero {type : String} (h : (s.find type).check = .ok ()) :
    (Message.zero (s.find type)).Sent s asJson where
  toWellFormed := .zero h
  spelled := by
    intro _ e he
    obtain ⟨kind, hz⟩ := contains_of_zero h he
    cases kind with
    | scalar c => cases c <;> cases hz <;> trivial
    | enumeration e => cases hz; trivial
    | _ => cases hz

theorem holds_of_takes (ht : f.Takes v) (hv : ∀ e ∈ v.elements, e.Sendable s asJson levels) :
    f.Holds v := by
  rw [← ht.normalized]
  refine Field.holds_of_accepts ht.accepts fun t hm => ?_
  have := hv _ hm
  exact Instant.inCalendar_of_inRange this.1 this.2

theorem Sent.store (h : m.Sent s asJson) (check : (m.messageType s).check = .ok ())
    (hf : f ∈ (m.messageType s).fields) (ht : f.Takes v)
    (hv : ∀ e ∈ v.elements, e.Sendable s asJson levels) : (m.store s f v).Sent s asJson where
  toWellFormed := h.toWellFormed.store check hf (holds_of_takes ht hv) fun _ hm => hv _ hm
  spelled := by
    intro hp e he
    rcases contains_of_store h.ascending he with hold | hnew
    · exact h.spelled hp e hold
    · exact Value.Sendable.plain (hv e hnew) hp

theorem put_eq_store (hf : (m.messageType s).field? n = some f) (ht : f.Takes v) :
    m.put s n v = m.store s f v := by
  rw [put, hf]
  exact congrArg (m.store s f) ht.normalized

def puts (s : Schema) (m : Message) (ps : List (Nat × Value)) : Message :=
  ps.foldl (fun m p => m.put s p.1 p.2) m

def Suits (t : MessageType) (p : Nat × Value) : Prop :=
  ∃ f, t.field? p.1 = some f ∧ f.Takes p.2

section Putting

variable {t : MessageType}

theorem puts_cons {p : Nat × Value} (type : m.messageType s = t) (h : Suits t p) :
    ∃ f ∈ t.fields, f.number = p.1 ∧ f.Takes p.2 ∧
      m.puts s (p :: ps) = (m.store s f p.2).puts s ps := by
  obtain ⟨f, hf, ht⟩ := h
  obtain ⟨hmem, hn⟩ := MessageType.field?_eq_some hf
  exact ⟨f, hmem, hn, ht, congrArg (fun k => k.puts s ps) (put_eq_store (type ▸ hf) ht)⟩

theorem type_puts (type : m.messageType s = t) (suits : ∀ p ∈ ps, Suits t p) :
    (m.puts s ps).type = m.type := by
  induction ps generalizing m with
  | nil => rfl
  | cons p rest ih =>
      rw [List.forall_mem_cons] at suits
      obtain ⟨f, -, -, -, hp⟩ := puts_cons type suits.1
      rw [hp, ih (messageType_store.trans type) suits.2, type_store]

theorem get?_store_of_apart (type : m.messageType s = t) (ascending : m.Ascending)
    (check : t.check = .ok ()) (hf : f ∈ t.fields) (h : t.Apart f.number k) :
    (m.store s f v).get? k = m.get? k := by
  obtain ⟨hne, hg⟩ := h
  rw [get?_store s ascending, if_neg (Ne.symm hne), if_neg]
  rintro ⟨g, hs, rfl⟩
  obtain ⟨hmem, hsome, hsame, -⟩ := (mem_siblings s).1 hs
  rw [type] at hmem
  have hgroup : ∀ x ∈ t.fields, t.groupOf x.number = x.group? := fun x hx => by
    rw [MessageType.groupOf, MessageType.field?_of_mem check hx]
    rfl
  rw [hgroup f hf, hgroup g hmem, hsame] at hg
  rcases hg with hnone | hdiff
  · rw [hnone] at hsome
    cases hsome
  · exact hdiff rfl

theorem get?_puts_of_apart (type : m.messageType s = t) (ascending : m.Ascending)
    (check : t.check = .ok ()) (suits : ∀ p ∈ ps, Suits t p) (apart : ∀ p ∈ ps, t.Apart p.1 k) :
    (m.puts s ps).get? k = m.get? k := by
  induction ps generalizing m with
  | nil => rfl
  | cons p rest ih =>
      rw [List.forall_mem_cons] at suits apart
      obtain ⟨f, hf, hn, -, hp⟩ := puts_cons type suits.1
      rw [hp, ih (messageType_store.trans type) (ascending.store s f p.2) suits.2 apart.2]
      exact get?_store_of_apart type ascending check hf (hn ▸ apart.1)

theorem get?_puts_of_mem (type : m.messageType s = t) (ascending : m.Ascending)
    (check : t.check = .ok ()) (suits : ∀ p ∈ ps, Suits t p)
    (apart : (ps.map Prod.fst).Pairwise t.Apart) {p : Nat × Value} (hp : p ∈ ps) :
    (m.puts s ps).get? p.1 = some p.2 := by
  induction ps generalizing m with
  | nil => cases hp
  | cons q rest ih =>
      rw [List.forall_mem_cons] at suits
      rw [List.map_cons, List.pairwise_cons, List.forall_mem_map] at apart
      obtain ⟨f, hf, hn, -, hq⟩ := puts_cons type suits.1
      have htype : (m.store s f q.2).messageType s = t := messageType_store.trans type
      have hasc := ascending.store s f q.2
      rw [hq]
      rcases List.mem_cons.1 hp with rfl | hp
      · rw [get?_puts_of_apart htype hasc check suits.2 fun q hq => (apart.1 q hq).symm,
          get?_store s ascending, if_pos hn.symm]
      · exact ih htype hasc suits.2 apart.2 hp

theorem of_get?_puts (type : m.messageType s = t) (ascending : m.Ascending)
    (suits : ∀ p ∈ ps, Suits t p) (h : (m.puts s ps).get? k = some v) :
    k ∈ ps.map Prod.fst ∨ m.get? k = some v := by
  induction ps generalizing m with
  | nil => exact .inr h
  | cons p rest ih =>
      rw [List.forall_mem_cons] at suits
      obtain ⟨f, -, hn, -, hp⟩ := puts_cons type suits.1
      rw [hp] at h
      rcases ih (messageType_store.trans type) (ascending.store s f p.2) suits.2 h with hk | hk
      · exact .inl (List.mem_cons_of_mem _ hk)
      · rw [get?_store s ascending] at hk
        split at hk
        · next he => exact .inl (he ▸ hn ▸ List.mem_cons_self)
        · split at hk
          · cases hk
          · exact .inr hk

theorem throughout_puts (type : m.messageType s = t) (h : m.Throughout (Sent s asJson) (levels + 1))
    (check : t.check = .ok ()) (suits : ∀ p ∈ ps, Suits t p)
    (sendable : ∀ p ∈ ps, ∀ e ∈ p.2.elements, e.Sendable s asJson levels) :
    (m.puts s ps).Throughout (Sent s asJson) (levels + 1) := by
  induction ps generalizing m with
  | nil => exact h
  | cons p rest ih =>
      rw [List.forall_mem_cons] at suits sendable
      obtain ⟨f, hf, -, ht, hp⟩ := puts_cons type suits.1
      have hm : m.Sent s asJson := (throughout_succ_iff.1 h).1
      rw [hp]
      refine ih (messageType_store.trans type) ?_ suits.2 sendable.2
      subst type
      exact h.store hm.ascending (hm.store check hf ht sendable.1) fun k hk => sendable.1 _ hk

end Putting

theorem ext_fields (same : m.type = d.type) (hm : m.Conforms s) (hd : d.Conforms s)
    (h : ∀ f ∈ (m.messageType s).fields, m.get? f.number = d.get? f.number) : m = d := by
  have htype : m.messageType s = d.messageType s := by rw [messageType, same, messageType]
  refine ext_get? same hm.ascending hd.ascending fun n => ?_
  cases hv : m.get? n with
  | some v =>
      obtain ⟨f, hf, rfl, -⟩ := hm.declared n v hv
      rw [← hv, h f hf]
  | none =>
      cases hw : d.get? n with
      | none => rfl
      | some w =>
          obtain ⟨f, hf, rfl, -⟩ := hd.declared n w hw
          rw [← hv, h f (htype ▸ hf), hw]

end Message

namespace Typed

class Viewed (α : Type) where
  instants : α → List Instant := fun _ => []
  unsigned : α → List SafeInt := fun _ => []
  doubles : α → List UInt64 := fun _ => []
  canonical : Message → Message := id

section Laws

variable (α : Type) [Typed α] [Viewed α]

def messageType : MessageType :=
  (schema α).find (name α)

variable {α}

def Fits (x : α) : Prop :=
  (∀ t ∈ Viewed.instants x, t = .ofMillis t.millis ∧ t.InRange) ∧
    ∀ n ∈ Viewed.unsigned x, 0 ≤ n.toInt

def HasNoNaN (x : α) : Prop :=
  ∀ bits ∈ Viewed.doubles x, FloatFormat.binary64.isNaN bits.toNat = false

def Shows (m : Message) (x : α) : Prop :=
  ∀ f ∈ (messageType α).fields, m.get? f.number = Assoc.get? f.number (entries x)

variable (α)

structure Lossless : Prop where
  ofMessage_toMessage : ∀ x : α, Fits x → ofMessage (toMessage x) = .ok x
  decode_encode : ∀ (rule : GroupRule) (x : α), Fits x →
    (encode x).length < 18446744073709551616 → decode rule (encode x) = .ok x
  ofJson_toJson : ∀ (rule : GroupRule) (x : α), Fits x → HasNoNaN x → ofJson rule (toJson x) = .ok x
  viewed : ∀ (rule : GroupRule) (bytes : Bytes) (d : Message),
    Message.decode (schema α) rule (name α) bytes = .ok d →
      ∃ x : α, ofMessage d = .ok x ∧ toMessage x = Viewed.canonical α d ∧ decode rule bytes = .ok x

structure Canonical (d : Message) : Prop where
  type : (Viewed.canonical α d).type = name α
  conforms : (Viewed.canonical α d).Conforms (schema α)
  same : (ofFields (Viewed.canonical α d) : Except Error α) = ofFields d

structure Faithful (levels : Nat) : Prop where
  legible : (schema α).Legible (name α)
  shallow : levels ≤ 100
  covered : ∀ x : α, (messageType α).Covered ((entries x).map Prod.fst)
  suits : ∀ x : α, Fits x → ∀ p ∈ entries x, Message.Suits (messageType α) p ∧
    ∀ e ∈ p.2.elements, e.Sendable (schema α) (HasNoNaN x) levels
  reads : ∀ (x : α) (m : Message), m.type = name α → m.Conforms (schema α) → Fits x → Shows m x →
    ofFields m = .ok x
  canonical : ∀ d : Message, d.type = name α → d.WellFormed (schema α) → Canonical α d
  views : ∀ (d : Message) (depth : Nat), d.type = name α →
    d.Throughout (Message.WellFormed (schema α)) depth →
      ∃ x : α, Fits x ∧ Shows (Viewed.canonical α d) x

variable {α} {levels : Nat} {x : α}

omit [Viewed α] in
theorem toMessage_eq (x : α) :
    toMessage x = (Message.zero (messageType α)).puts (schema α) (entries x) := rfl

omit [Viewed α] in
theorem type_zero : (Message.zero (messageType α)).type = name α := by
  rw [Message.type_zero, messageType, Schema.name_find]

omit [Viewed α] in
theorem messageType_zero :
    (Message.zero (messageType α)).messageType (schema α) = messageType α := by
  rw [Message.messageType, type_zero, messageType]

omit [Viewed α] in
theorem ofMessage_eq {m : Message} (h : m.type = name α) : ofMessage m = (ofFields m : Except Error α) :=
  if_pos h

omit [Viewed α] in
theorem decode_of_ok {rule : GroupRule} {bytes : Bytes} {d : Message}
    (h : Message.decode (schema α) rule (name α) bytes = .ok d) :
    decode rule bytes = (ofMessage d : Except Error α) := by
  have hb : (decode rule bytes : Except Error α) =
      (Message.decode (schema α) rule (name α) bytes).bind ofMessage := rfl
  rw [hb, h]
  rfl

omit [Viewed α] in
theorem ofJson_of_ok {rule : GroupRule} {json : Json} {d : Message}
    (h : Message.ofJson (schema α) rule (name α) json = .ok d) :
    ofJson rule json = (ofMessage d : Except Error α) := by
  have hb : (ofJson rule json : Except Error α) =
      (Message.ofJson (schema α) rule (name α) json).bind ofMessage := rfl
  rw [hb, h]
  rfl

namespace Faithful

variable (h : Faithful α levels)

include h

theorem type_toMessage (fits : Fits x) : (toMessage x).type = name α := by
  rw [toMessage_eq, Message.type_puts messageType_zero fun p hp => (h.suits x fits p hp).1, type_zero]

theorem throughout_toMessage (fits : Fits x) :
    (toMessage x).Throughout (Message.Sent (schema α) (HasNoNaN x)) (levels + 1) := by
  have check := h.legible.valid.check
  exact Message.throughout_puts messageType_zero (Message.throughout_zero check (.zero check)) check
    (fun p hp => (h.suits x fits p hp).1) fun p hp => (h.suits x fits p hp).2

theorem shows_toMessage (fits : Fits x) : Shows (toMessage x) x := by
  intro f hf
  have check : (messageType α).check = .ok () := h.legible.valid.check
  have suits := fun p hp => (h.suits x fits p hp).1
  have ascending := Message.ascending_zero (messageType α)
  cases he : Assoc.get? f.number (entries x) with
  | some v =>
      exact Message.get?_puts_of_mem messageType_zero ascending check suits (h.covered x).1
        (Assoc.mem_of_get?_eq_some he)
  | none =>
      have hn := Assoc.notMem_of_get?_eq_none he
      cases hv : (toMessage x).get? f.number with
      | none => rfl
      | some v =>
          rcases Message.of_get?_puts messageType_zero ascending suits hv with hk | hz
          · exact absurd hk hn
          · rw [Message.get?_zero_of_mem check hf] at hz
            exact absurd ((h.covered x).2 f hf (by rw [hz]; rfl)) hn

theorem conforms_toMessage (fits : Fits x) : (toMessage x).Conforms (schema α) :=
  (throughout_toMessage h fits 0 _ .self).2.toConforms

theorem ofMessage_toMessage (fits : Fits x) : ofMessage (toMessage x) = .ok x := by
  rw [ofMessage_eq (h.type_toMessage fits)]
  exact h.reads x _ (h.type_toMessage fits) (h.conforms_toMessage fits) fits (h.shows_toMessage fits)

theorem completed_toMessage (fits : Fits x) :
    (toMessage x).completed (schema α) = toMessage x ∧ (toMessage x).Sound (schema α) := by
  have sent := h.throughout_toMessage fits
  have valid : (schema α).Valid (toMessage x).type := h.type_toMessage fits ▸ h.legible.valid
  exact ⟨Message.completed_of_wellFormed valid fun d k hk => ⟨(sent d k hk).1, (sent d k hk).2.toWellFormed⟩,
    fun d k hk => (sent d k hk).2.toConforms⟩

theorem decode_encode (rule : GroupRule) (fits : Fits x)
    (short : (encode x).length < 18446744073709551616) : decode rule (encode x) = .ok x := by
  have sent := h.throughout_toMessage fits
  have type := h.type_toMessage fits
  have shallow := h.shallow
  obtain ⟨completed, sound⟩ := h.completed_toMessage fits
  have readable : (toMessage x).Readable 101 :=
    ⟨fun d k hk => Nat.lt_of_lt_of_le (sent d k hk).1 (by omega),
      fun d k hk t ht => ((sent d k hk).2.instants t ht).2⟩
  have hd := (Message.settles_decodeWithin rule 101 sound (type ▸ h.legible.valid) short).ok readable
  rw [completed, type] at hd
  exact (decode_of_ok hd).trans (h.ofMessage_toMessage fits)

theorem ofJson_toJson (rule : GroupRule) (fits : Fits x) (spelled : HasNoNaN x) :
    ofJson rule (toJson x) = .ok x := by
  have sent := h.throughout_toMessage fits
  have type := h.type_toMessage fits
  have shallow := h.shallow
  obtain ⟨completed, sound⟩ := h.completed_toMessage fits
  have hd := Message.ofJsonWithin_toJson rule 101 sound (type ▸ h.legible)
    (fun d k hk => Nat.lt_of_lt_of_le (sent d k hk).1 (by omega))
    fun d k hk => (sent d k hk).2.spelled spelled
  rw [completed, type] at hd
  exact (ofJson_of_ok hd).trans (h.ofMessage_toMessage fits)

theorem viewed {d : Message} {depth : Nat} (type : d.type = name α)
    (hd : d.Throughout (Message.WellFormed (schema α)) depth) :
    ∃ x : α, Fits x ∧ ofMessage d = .ok x ∧ toMessage x = Viewed.canonical α d := by
  obtain ⟨x, fits, shows⟩ := h.views d depth type hd
  have canonical := h.canonical d type (hd 0 d .self).2
  refine ⟨x, fits, ?_, ?_⟩
  · rw [ofMessage_eq type, ← canonical.same]
    exact h.reads x _ canonical.type canonical.conforms fits shows
  · have same := h.type_toMessage fits
    refine Message.ext_fields (same.trans canonical.type.symm) (h.conforms_toMessage fits)
      canonical.conforms fun f hf => ?_
    rw [Message.messageType, same] at hf
    rw [h.shows_toMessage fits f hf, shows f hf]

theorem lossless : Lossless α where
  ofMessage_toMessage _ := h.ofMessage_toMessage
  decode_encode rule _ := h.decode_encode rule
  ofJson_toJson rule _ := h.ofJson_toJson rule
  viewed := by
    intro rule bytes d hd
    obtain ⟨type, well⟩ := Message.readsWell_decodeWithin (schema α) rule 101 _ _ _ h.legible.valid hd
    obtain ⟨x, -, hx, hc⟩ := h.viewed type well
    exact ⟨x, hx, hc, (decode_of_ok hd).trans hx⟩

end Faithful

theorem canonical_of_id (h : Viewed.canonical α = id) (d : Message) (type : d.type = name α)
    (well : d.WellFormed (schema α)) : Canonical α d := by
  constructor <;> rw [h]
  · exact type
  · exact well.toConforms
  · rfl

omit [Typed α] [Viewed α] in
theorem get?_optional (n : Nat) (v : Option Value) : Assoc.get? n (optional n v) = v := by
  cases v with
  | none => rfl
  | some v => exact if_pos rfl

omit [Typed α] [Viewed α] in
theorem forall_mem_optional {n : Nat} {v : Option Value} {P : Nat × Value → Prop} :
    (∀ p ∈ optional n v, P p) ↔ ∀ w, v = some w → P (n, w) := by
  cases v <;> simp [optional]

omit [Typed α] in
theorem fits_of_instants (hi : ∀ t ∈ Viewed.instants x, t = .ofMillis t.millis ∧ t.InRange)
    (hu : Viewed.unsigned x = []) : Fits x := by
  refine ⟨hi, ?_⟩
  rw [hu]
  exact fun n hn => absurd hn List.not_mem_nil

omit [Viewed α] in
theorem suits_single {asJson : Prop} {n : Nat} {v : Value} {f : Field}
    (hf : (messageType α).field? n = some f) (hr : f.cardinality ≠ .repeated)
    (ha : v.Admissible f.kind) (hs : v.Sendable (schema α) asJson levels) :
    Message.Suits (messageType α) (n, v) ∧ ∀ e ∈ v.elements, e.Sendable (schema α) asJson levels := by
  obtain ⟨accepts, normalized⟩ := Field.accepts_of_admissible hr ha
  refine ⟨⟨f, hf, accepts, normalized⟩, ?_⟩
  rw [Value.elements_of_admissible ha]
  exact List.forall_mem_singleton.2 hs

omit [Viewed α] in
theorem suits_instant {asJson : Prop} {n : Nat} {t? : Option Instant} {f : Field}
    (hf : (messageType α).field? n = some f) (hr : f.cardinality ≠ .repeated) (hk : f.kind = .timestamp)
    (h : ∀ t ∈ t?.toList, t = .ofMillis t.millis ∧ t.InRange) :
    ∀ p ∈ optional n (t?.map .timestamp), Message.Suits (messageType α) p ∧
      ∀ e ∈ p.2.elements, e.Sendable (schema α) asJson levels := by
  refine forall_mem_optional.2 fun v hv => ?_
  obtain ⟨t, ht, rfl⟩ := Option.map_eq_some_iff.1 hv
  obtain ⟨whole, range⟩ := h t (Option.mem_toList.2 ht)
  refine suits_single hf hr ?_ ⟨whole, range⟩
  rw [hk]
  exact ⟨(Instant.truncated_of_inRange range).trans whole.symm, Instant.inCalendar_of_inRange whole range⟩

omit [Viewed α] in
theorem suits_repeated {asJson : Prop} {n : Nat} {items : List Value} {f : Field}
    (hf : (messageType α).field? n = some f) (hr : f.cardinality = .repeated)
    (h : ∀ e ∈ items, e.Admissible f.kind ∧ e.Sendable (schema α) asJson levels) :
    Message.Suits (messageType α) (n, .list items) ∧
      ∀ e ∈ (Value.list items).elements, e.Sendable (schema α) asJson levels := by
  obtain ⟨accepts, normalized⟩ := Field.accepts_of_items hr fun e he => (h e he).1
  exact ⟨⟨f, hf, accepts, normalized⟩, fun e he => (h e he).2⟩

omit [Viewed α] in
theorem Shows.get? {m : Message} {n : Nat} {f : Field} (h : Shows m x)
    (hf : (messageType α).field? n = some f) : m.get? n = Assoc.get? n (entries x) := by
  obtain ⟨hmem, rfl⟩ := MessageType.field?_eq_some hf
  exact h f hmem

section Fields

variable {d : Message} {n : Nat} {f : Field} (valid : (schema α).Valid (name α))
  (type : d.type = name α) (well : d.WellFormed (schema α)) (hf : (messageType α).field? n = some f)

include valid type hf

omit [Viewed α] in
theorem field_of_type : (d.messageType (schema α)).check = .ok () ∧
    f ∈ (d.messageType (schema α)).fields ∧ f.number = n := by
  have ht : d.messageType (schema α) = messageType α := by
    rw [Message.messageType, type, messageType]
  rw [ht]
  exact ⟨valid.check, MessageType.field?_eq_some hf⟩

include well

omit [Viewed α] in
theorem enumAt_cases {e : EnumType} (hk : f.kind = .enumeration e) :
    e.declares (d.enumAt n) = true ∨ d.enumAt n = EnumType.unrecognized ∨ d.enumAt n = 0 := by
  obtain ⟨check, hmem, rfl⟩ := field_of_type valid type hf
  exact Message.enumAt_cases well.toConforms check hmem hk

omit [Viewed α] in
theorem get?_eq_reading : d.get? n = d.reading f := by
  obtain ⟨check, hmem, rfl⟩ := field_of_type valid type hf
  exact Message.get?_eq_reading well.complete check hmem

omit [Viewed α] in
theorem type_of_messagesAt {inner : String} (hr : f.cardinality = .repeated)
    (hk : f.kind = .message inner) {k : Message} (hm : k ∈ d.messagesAt n) : k.type = inner := by
  obtain ⟨check, hmem, rfl⟩ := field_of_type valid type hf
  exact Message.type_of_messagesAt well.toConforms check hmem hr hk hm

omit [Viewed α] in
theorem integerAt_nonneg (hk : f.kind = .scalar .uint64) : 0 ≤ (d.integerAt n).toInt := by
  obtain ⟨check, hmem, rfl⟩ := field_of_type valid type hf
  exact Message.integerAt_nonneg well.toConforms check hmem hk

end Fields

def Rereads (d : Message) (x : α) (numbers : List Nat) : Prop :=
  (∀ f ∈ (messageType α).fields, f.number ∈ numbers) ∧
    ∀ n ∈ numbers, d.get? n = Assoc.get? n (entries x) ∨
      ∃ f, (messageType α).field? n = some f ∧ d.reading f = Assoc.get? n (entries x)

omit [Viewed α] in
theorem Rereads.shows {d : Message} {numbers : List Nat} (h : Rereads d x numbers)
    (valid : (schema α).Valid (name α)) (type : d.type = name α)
    (well : d.WellFormed (schema α)) : Shows d x := by
  intro f hf
  rcases h.2 f.number (h.1 f hf) with hs | ⟨g, hg, hr⟩
  · exact hs
  · rw [get?_eq_reading valid type well hg, hr]

theorem Faithful.flat (numbers : List Nat) (view : Message → α)
    (legible : (schema α).Legible (name α)) (canonical : Viewed.canonical α = id)
    (covered : ∀ x : α, (messageType α).Covered ((entries x).map Prod.fst))
    (suits : ∀ x : α, Fits x → ∀ p ∈ entries x, Message.Suits (messageType α) p ∧
      ∀ e ∈ p.2.elements, e.Sendable (schema α) (HasNoNaN x) 0)
    (reads : ∀ m, ofFields m = .ok (view m)) (back : ∀ (x : α) m, Shows m x → view m = x)
    (fits : ∀ d, d.type = name α → d.WellFormed (schema α) → Fits (view d))
    (rereads : ∀ d, d.type = name α → d.WellFormed (schema α) → Rereads d (view d) numbers) :
    Faithful α 0 where
  legible := legible
  shallow := Nat.zero_le _
  covered := covered
  suits := suits
  reads x m _ _ _ shows := by rw [reads, back x m shows]
  canonical := canonical_of_id canonical
  views d depth type hd := by
    have well := (hd 0 d .self).2
    rw [canonical]
    exact ⟨view d, fits d type well, (rereads d type well).shows legible.valid type well⟩

section Nested

variable {β : Type} [Typed β] [Viewed β]

omit [Viewed α] in
theorem suits_message {asJson : Prop} {n : Nat} {f : Field} {y : β} (h : Faithful β levels)
    (same : schema α = schema β) (hf : (messageType α).field? n = some f)
    (hr : f.cardinality ≠ .repeated) (hk : f.kind = .message (name β)) (fits : Fits y)
    (spelled : asJson → HasNoNaN y) :
    Message.Suits (messageType α) (n, .message (toMessage y)) ∧
      ∀ e ∈ (Value.message (toMessage y)).elements, e.Sendable (schema α) asJson (levels + 1) := by
  refine suits_single hf hr ?_ ?_
  · rw [hk]
    exact h.type_toMessage fits
  · rw [same]
    exact (h.throughout_toMessage fits).imp fun k hk => hk.imp spelled

theorem Faithful.at?_eq {m : Message} {n : Nat} {y : β} (h : Faithful β levels) (fits : Fits y)
    (hv : m.get? n = some (.message (toMessage y))) : Typed.at? β m n = .ok (some y) := by
  rw [Typed.at?, Message.messageAt?, hv]
  exact congrArg (Except.map some) (h.ofMessage_toMessage fits)

theorem Faithful.member {d : Message} {depth : Nat} {f : Field} (h : Faithful β levels)
    (canonical : Viewed.canonical β = id)
    (hd : d.Throughout (Message.WellFormed (schema β)) depth)
    (check : (d.messageType (schema β)).check = .ok ())
    (hf : f ∈ (d.messageType (schema β)).fields) (hr : f.cardinality ≠ .repeated)
    (hk : f.kind = .message (name β)) (hh : d.has f.number = true) :
    ∃ y : β, Fits y ∧ d.get? f.number = some (.message (toMessage y)) := by
  obtain ⟨v, hv⟩ := Message.has_eq_true_iff.1 hh
  have conforms := (hd 0 d .self).2.toConforms
  have ha : v.Admissible (.message (name β)) := by
    rcases (conforms.holds check hf hv).element hr with ha | ⟨-, hz⟩
    · rwa [hk] at ha
    · rw [hk] at hz
      cases hz
  cases v with
  | message k =>
      obtain ⟨y, fits, -, hy⟩ := h.viewed ha (hd.within ⟨_, _, hv, List.mem_singleton_self _⟩)
      rw [canonical] at hy
      exact ⟨y, fits, by rw [hv, hy]; rfl⟩
  | _ => cases ha

theorem Faithful.mapM_toMessage {ys : List β} (h : Faithful β levels) (fits : ∀ y ∈ ys, Fits y) :
    (ys.map toMessage).mapM ofMessage = (.ok ys : Except Error (List β)) := by
  induction ys with
  | nil => rfl
  | cons y rest ih =>
      rw [List.forall_mem_cons] at fits
      rw [List.map_cons, List.mapM_cons, h.ofMessage_toMessage fits.1, ih fits.2]
      rfl

theorem Faithful.exists_list {depth : Nat} {ks : List Message} (h : Faithful β levels)
    (canonical : Viewed.canonical β = id)
    (hk : ∀ k ∈ ks, k.type = name β ∧ k.Throughout (Message.WellFormed (schema β)) depth) :
    ∃ ys : List β, (∀ y ∈ ys, Fits y) ∧ ys.map toMessage = ks := by
  induction ks with
  | nil => exact ⟨[], List.forall_mem_nil _, rfl⟩
  | cons k rest ih =>
      rw [List.forall_mem_cons] at hk
      obtain ⟨y, fits, -, hy⟩ := h.viewed hk.1.1 hk.1.2
      obtain ⟨ys, all, hys⟩ := ih hk.2
      rw [canonical] at hy
      exact ⟨y :: ys, List.forall_mem_cons.2 ⟨fits, all⟩, by rw [List.map_cons, hy, hys]; rfl⟩

end Nested

def Column (view : Message → α) (c : Nat × (α → Value)) : Prop :=
  ∃ f, (messageType α).field? c.1 = some f ∧ f.cardinality = .single ∧
    (∀ x : α, (c.2 x).Admissible f.kind ∧ (c.2 x).Sendable (schema α) (HasNoNaN x) 0) ∧
    ∀ d : Message, d.reading f = some (c.2 (view d))

theorem Faithful.scalars (columns : List (Nat × (α → Value))) (view : Message → α)
    (legible : (schema α).Legible (name α)) (canonical : Viewed.canonical α = id)
    (nothing : ∀ x : α, Viewed.instants x = [] ∧ Viewed.unsigned x = [])
    (covered : (messageType α).Covered (columns.map Prod.fst) ∧
      ∀ f ∈ (messageType α).fields, f.number ∈ columns.map Prod.fst)
    (puts : ∀ x : α, entries x = columns.map fun c => (c.1, c.2 x))
    (reads : ∀ m, ofFields m = .ok (view m)) (scalar : ∀ c ∈ columns, Column view c)
    (same : ∀ x y : α, (∀ c ∈ columns, c.2 x = c.2 y) → x = y) : Faithful α 0 := by
  have numbers : ∀ x : α, (entries x).map Prod.fst = columns.map Prod.fst := fun x => by
    rw [puts, List.map_map]
    rfl
  have stored : ∀ x : α, ∀ c ∈ columns, Assoc.get? c.1 (entries x) = some (c.2 x) := by
    intro x c hc
    have distinct : ((entries x).map Prod.fst).Pairwise (· ≠ ·) := by
      rw [numbers]
      exact covered.1.1.imp And.left
    refine Assoc.get?_of_distinct (p := (c.1, c.2 x)) distinct ?_
    rw [puts]
    exact List.mem_map_of_mem hc
  refine .flat (columns.map Prod.fst) view legible canonical (fun x => (numbers x).symm ▸ covered.1)
    (fun x _ => ?_) reads (fun x m shows => same _ _ fun c hc => ?_)
    (fun d _ _ => fits_of_instants ((nothing _).1 ▸ List.forall_mem_nil _) (nothing _).2)
    fun d _ _ => ⟨covered.2, ?_⟩
  · rw [puts]
    refine List.forall_mem_map.2 fun c hc => ?_
    obtain ⟨f, hf, hs, hv, -⟩ := scalar c hc
    exact suits_single hf (by simp [hs]) (hv x).1 (hv x).2
  · obtain ⟨f, hf, hs, hv, hr⟩ := scalar c hc
    have hget : m.get? f.number = some (c.2 x) := by
      rw [(MessageType.field?_eq_some hf).2, shows.get? hf, stored x c hc]
    have hread : m.reading f = some (c.2 x) := by
      rw [Message.reading, hs]
      exact Message.readingOf_of_admissible hget (hv x).1
    rw [hr] at hread
    exact Option.some.inj hread
  · refine List.forall_mem_map.2 fun c hc => ?_
    obtain ⟨f, hf, -, -, hr⟩ := scalar c hc
    exact .inr ⟨f, hf, by rw [hr, stored _ c hc]⟩

end Laws

section Groups

variable {γ : Type} {s : Schema} {owner group : String} {fields : List Field}
  {entry : γ → Nat × Value} {read : Message → Except Error (Option γ)}

def Chosen (fields : List Field) (entry : γ → Nat × Value) (m : Message) (c : Option γ) : Prop :=
  ∀ f ∈ fields, m.get? f.number = Assoc.get? f.number (c.map entry).toList

structure Choices (s : Schema) (owner group : String) (fields : List Field)
    (entry : γ → Nat × Value) (read : Message → Except Error (Option γ)) : Prop where
  valid : s.Valid owner
  members : (s.find owner).groupMembers group = fields
  numbered : ∀ c, ∃ f ∈ fields, f.number = (entry c).1
  absent : ∀ m : Message, m.which? s group = none → read m = .ok none
  reads : ∀ (m : Message) c f, m.which? s group = some f → f.number = (entry c).1 →
    m.get? (entry c).1 = some (entry c).2 → read m = .ok (some c)
  views : ∀ (d : Message) (depth : Nat), (d.messageType s).check = .ok () →
    d.Throughout (Message.WellFormed s) depth →
    ∀ f ∈ (d.messageType s).fields, f ∈ fields → d.has f.number = true →
      ∃ c, (entry c).1 = f.number ∧ d.get? f.number = some (entry c).2

variable (h : Choices s owner group fields entry read)

include h

theorem Choices.groupMembers {m : Message} (type : m.type = owner) :
    (m.messageType s).groupMembers group = fields := by
  rw [Message.messageType, type, h.members]

theorem Choices.read_eq {m : Message} {c : Option γ} (type : m.type = owner)
    (conforms : m.Conforms s) (chosen : Chosen fields entry m c) : read m = .ok c := by
  cases c with
  | none =>
      refine h.absent m (Message.which?_eq_none fun f hf => ?_)
      rw [h.groupMembers type] at hf
      exact (chosen f hf).trans rfl
  | some c =>
      obtain ⟨f, hf, hn⟩ := h.numbered c
      have hv : m.get? f.number = some (entry c).2 := (chosen f hf).trans (if_pos hn.symm)
      refine h.reads m c f (Message.which?_eq_some conforms ?_ ?_ ?_) hn (hn ▸ hv)
      · rw [Message.messageType, type]
        exact h.valid.check
      · rwa [h.groupMembers type]
      · exact Message.has_eq_true_iff.2 ⟨_, hv⟩

theorem Choices.exists_chosen {d : Message} {depth : Nat} (type : d.type = owner)
    (hd : d.Throughout (Message.WellFormed s) depth) : ∃ c, Chosen fields entry d c := by
  have conforms := (hd 0 d .self).2.toConforms
  cases hw : d.which? s group with
  | none =>
      refine ⟨none, fun f hf => ?_⟩
      exact Message.of_which?_none hw f ((h.groupMembers type).symm ▸ hf)
  | some f =>
      obtain ⟨hf, hh, others⟩ := Message.of_which? conforms hw
      have hmem := (Message.mem_groupMembers.1 hf).1
      rw [h.groupMembers type] at hf others
      have check : (d.messageType s).check = .ok () := by
        rw [Message.messageType, type]
        exact h.valid.check
      obtain ⟨c, hn, hv⟩ := h.views d depth check hd f hmem hf hh
      refine ⟨some c, fun g hg => ?_⟩
      by_cases hne : g.number = f.number
      · rw [hne, hv]
        exact (if_pos hn).symm
      · rw [others g hg hne]
        exact (if_neg fun he => hne (he.symm.trans hn)).symm

end Groups

end Typed

end SchemaRpc

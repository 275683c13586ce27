import SchemaRpc.Proofs.Message.RoundTrip
import SchemaRpc.Typed.Status

namespace SchemaRpc.Status

def message (s : Status) : Message :=
  ⟨"protostub.Status", [(1, .enumeration (Int32.ofNat s.code.number)), (2, .string s.text)]⟩

theorem toMessage_eq (s : Status) : Typed.toMessage s = s.message := by
  obtain ⟨code, text⟩ := s
  cases code <;> rfl

theorem valid_schema : schema.Valid "protostub.Status" :=
  Schema.valid_of_closed ["protostub.Status"] (by decide) (by decide)

theorem built_message (s : Status) : Message.Built schema s.message := by
  have code : Message.Built schema
      ⟨"protostub.Status", [(1, .enumeration (Int32.ofNat s.code.number))]⟩ := by
    refine .set (n := 1) (v := .enumeration (Int32.ofNat s.code.number))
      (.empty "protostub.Status") ?_ ?_ ?_
    · intro k hk
      cases List.mem_singleton.1 hk
    · intro t ht
      cases List.mem_singleton.1 ht
    · cases s.code <;> rfl
  refine .set (n := 2) (v := .string s.text) code ?_ ?_ rfl
  · intro k hk
    cases List.mem_singleton.1 hk
  · intro t ht
    cases List.mem_singleton.1 ht

theorem readable_message (s : Status) : s.message.Readable 101 := by
  refine Message.readable_succ_iff.2 fun e he => ?_
  obtain ⟨p, hp, he⟩ := Message.mem_of_contains he
  rcases List.mem_cons.1 hp with rfl | hp
  · cases List.mem_singleton.1 he
    trivial
  · cases List.mem_singleton.1 hp
    cases List.mem_singleton.1 he
    trivial

theorem completed_message (s : Status) : s.message.completed schema = s.message := by
  rw [Message.completed_eq]
  rfl

theorem ofMessage_message (s : Status) : Typed.ofMessage s.message = .ok s := by
  obtain ⟨code, text⟩ := s
  cases code <;> rfl

theorem decode_encode (rule : GroupRule) (s : Status)
    (short : (Typed.encode s).length < 18446744073709551616) :
    Typed.decode rule (Typed.encode s) = .ok s := by
  have he : Typed.encode s = s.message.encode schema := by
    rw [Typed.encode, toMessage_eq]
    rfl
  rw [he] at short ⊢
  have hd : Message.decode schema rule "protostub.Status" (s.message.encode schema) =
      .ok (s.message.completed schema) :=
    (Message.settles_decodeWithin rule 101 (s.built_message.sound valid_schema) valid_schema
      short).ok s.readable_message
  rw [completed_message] at hd
  have hb : (Typed.decode rule (s.message.encode schema) : Except Error Status) =
      (Message.decode schema rule "protostub.Status" (s.message.encode schema)).bind
        Typed.ofMessage := rfl
  rw [hb, hd]
  exact ofMessage_message s

end SchemaRpc.Status

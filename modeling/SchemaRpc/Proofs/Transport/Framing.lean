import SchemaRpc.Frame.Buffer

namespace SchemaRpc

theorem Header.split?_encode (h : Header) (rest : Bytes) :
    split? (h.encode ++ rest) = some (h, rest) := by
  have hid : Bytes.ofBigEndian (Bytes.bigEndian 4 h.id.toNat) = h.id.toNat := by
    rw [Bytes.ofBigEndian_bigEndian]
    exact Nat.mod_eq_of_lt h.id.toNat_lt
  have hlength : Bytes.ofBigEndian (Bytes.bigEndian 4 h.length.toNat) = h.length.toNat := by
    rw [Bytes.ofBigEndian_bigEndian]
    exact Nat.mod_eq_of_lt h.length.toNat_lt
  have hs : split? (h.encode ++ rest) =
      some (⟨h.flags, .ofNat (Bytes.ofBigEndian (Bytes.bigEndian 4 h.id.toNat)),
        .ofNat (Bytes.ofBigEndian (Bytes.bigEndian 4 h.length.toNat))⟩, rest) := rfl
  rw [hs, hid, hlength, UInt32.ofNat_toNat, UInt32.ofNat_toNat]

theorem Header.split?_append {h : Header} {bytes rest : Bytes} (hs : split? bytes = some (h, rest))
    (more : Bytes) : split? (bytes ++ more) = some (h, rest ++ more) := by
  unfold split? at hs
  split at hs
  · cases hs
    rfl
  · cases hs

structure Frame.Passes (limit : UInt32) (f : Frame) : Prop where
  check : f.header.check limit = .ok ()
  length : f.payload.length = f.header.length.toNat

inductive Frame.Regular (limit : UInt32) : Frame → Prop
  | mk {flags : UInt8} {kind : FrameKind} {id : UInt32} {payload : Bytes}
      (named : FrameKind.ofFlags? flags = some kind) (hid : id ≠ 0)
      (short : payload.length ≤ limit.toNat) : Regular limit (ofFlags flags id payload)

theorem FrameKind.not_reserved_of_ofFlags? {flags : UInt8} {kind : FrameKind}
    (named : ofFlags? flags = some kind) :
    flags &&& Header.reservedBits = 0 ∧ flags &&& ~~~Header.reservedBits = flags := by
  have known : flags = 0x00 ∨ flags = 0x10 ∨ flags = 0x01 ∨ flags = 0x05 ∨ flags = 0x0D ∨
      flags = 0x03 ∨ flags = 0x07 := by
    grind [ofFlags?]
  rcases known with rfl | rfl | rfl | rfl | rfl | rfl | rfl <;> decide

theorem Frame.toNat_length_ofFlags (flags : UInt8) (id : UInt32) (payload : Bytes) :
    (ofFlags flags id payload).header.length.toNat = payload.length % 4294967296 :=
  UInt32.toNat_ofNat'

theorem Frame.check_ofFlags {limit id : UInt32} {flags : UInt8} {payload : Bytes} {kind : FrameKind}
    (named : FrameKind.ofFlags? flags = some kind) (hid : id ≠ 0) :
    (ofFlags flags id payload).header.check limit =
      if limit.toNat < payload.length % 4294967296 then
        .error (Header.tooLarge (.ofNat payload.length) limit)
      else .ok () := by
  have hlimit : limit < (ofFlags flags id payload).header.length ↔
      limit.toNat < payload.length % 4294967296 := by
    rw [UInt32.lt_iff_toNat_lt, toNat_length_ofFlags]
  obtain ⟨hbits, hflags⟩ := FrameKind.not_reserved_of_ofFlags? named
  rw [Header.check]
  simp only [hlimit]
  simp [ofFlags, hid, hbits, Header.kind, hflags, named, Except.map]

theorem Frame.Regular.passes {limit : UInt32} {f : Frame} (h : f.Regular limit) :
    f.Passes limit := by
  obtain @⟨flags, kind, id, payload, named, hid, short⟩ := h
  have hn : payload.length % 4294967296 = payload.length :=
    Nat.mod_eq_of_lt (Nat.lt_of_le_of_lt short limit.toNat_lt)
  refine ⟨?_, (hn.symm.trans (toNat_length_ofFlags flags id payload).symm)⟩
  rw [check_ofFlags named hid, hn, if_neg (Nat.not_lt.2 short)]

theorem Frame.passes_ofKind {limit id : UInt32} {payload : Bytes} (kind : FrameKind) (hid : id ≠ 0)
    (hl : payload.length ≤ limit.toNat) : (ofKind kind id payload).Passes limit :=
  (Regular.mk (FrameKind.ofFlags?_flags kind) hid hl).passes

namespace FrameBuffer

def Awaits (b : FrameBuffer) (bytes : Bytes) (frames : List Frame) : Prop :=
  match b.phase with
  | .header => b.bytes ++ bytes = frames.flatMap Frame.encode
  | .payload h => ∃ payload rest, frames = ⟨h, payload⟩ :: rest ∧
      b.bytes ++ bytes = payload ++ rest.flatMap Frame.encode

variable {b : FrameBuffer} {bytes : Bytes} {frames : List Frame}

theorem awaits_empty (limit : UInt32) : (empty limit).Awaits [] [] := rfl

theorem Awaits.append (h : b.Awaits bytes frames) (more : List Frame) :
    b.Awaits (bytes ++ more.flatMap Frame.encode) (frames ++ more) := by
  unfold Awaits at h ⊢
  split at h
  · rw [← List.append_assoc, h, List.flatMap_append]
  · obtain ⟨payload, rest, rfl, hb⟩ := h
    refine ⟨payload, rest ++ more, rfl, ?_⟩
    rw [← List.append_assoc, hb, List.flatMap_append, List.append_assoc]

theorem Awaits.advance (h : b.Awaits bytes frames) (hp : ∀ f ∈ frames, f.Passes b.limit) :
    b.advance = .stuck ∨ ∃ next taken rest, b.advance = .moved taken next ∧
      frames = taken ++ rest ∧ next.Awaits bytes rest ∧ next.limit = b.limit := by
  obtain ⟨limit, held, phase⟩ := b
  cases phase with
  | header =>
      have h : held ++ bytes = frames.flatMap Frame.encode := h
      rw [FrameBuffer.advance]
      simp only
      cases hs : Header.split? held with
      | none => exact .inl rfl
      | some p =>
          obtain ⟨found, left⟩ := p
          have hsplit := Header.split?_append hs bytes
          cases frames with
          | nil =>
              rw [h] at hsplit
              cases hsplit
          | cons f rest =>
              rw [h, List.flatMap_cons, Frame.encode, List.append_assoc, Header.split?_encode]
                at hsplit
              obtain ⟨rfl, hleft⟩ := Prod.mk.inj (Option.some.inj hsplit)
              have hcheck : f.header.check limit = .ok () := (hp f List.mem_cons_self).check
              simp only [hcheck]
              exact .inr ⟨_, [], f :: rest, rfl, rfl, ⟨f.payload, rest, rfl, hleft.symm⟩, rfl⟩
  | payload header =>
      obtain ⟨payload, rest, rfl, hb⟩ := h
      have hlength := (hp _ List.mem_cons_self).length
      rw [FrameBuffer.advance]
      simp only at hb ⊢
      cases ht : held.take? header.length.toNat with
      | none => exact .inl rfl
      | some p =>
          obtain ⟨taken, left⟩ := p
          obtain ⟨hn, rfl⟩ := Bytes.take?_eq_some_iff.1 ht
          rw [List.append_assoc] at hb
          obtain ⟨rfl, hrest⟩ := List.append_inj hb (hn.trans hlength.symm)
          exact .inr ⟨_, [⟨header, taken⟩], rest, rfl, rfl, hrest, rfl⟩

theorem Awaits.drain (h : b.Awaits bytes frames) (hp : ∀ f ∈ frames, f.Passes b.limit) :
    ∃ next taken rest, b.drain = (next, .ok taken) ∧ frames = taken ++ rest ∧
      next.Awaits bytes rest ∧ next.limit = b.limit := by
  fun_induction FrameBuffer.drain b generalizing frames with
  | case1 b hs => exact ⟨b, [], frames, rfl, rfl, h, rfl⟩
  | case2 b e hs =>
      rcases h.advance hp with hn | ⟨next, taken, rest, hn, -⟩
      · rw [hs] at hn; cases hn
      · rw [hs] at hn; cases hn
  | case3 b first next hs last more hd ih =>
      rcases h.advance hp with hn | ⟨next', taken, rest, hn, rfl, ha, hl⟩
      · rw [hs] at hn; cases hn
      · rw [hs] at hn
        cases hn
        obtain ⟨final, others, left, hdrain, rfl, hf, hlimit⟩ :=
          ih ha fun f hf => hl ▸ hp f (List.mem_append_right _ hf)
        refine ⟨final, first ++ others, left, ?_, (List.append_assoc ..).symm, hf, hlimit.trans hl⟩
        rw [hdrain] at hd
        obtain ⟨rfl, rfl⟩ := Prod.mk.inj hd
        rfl

theorem Awaits.push {data : Bytes} (h : b.Awaits (data ++ bytes) frames)
    (hp : ∀ f ∈ frames, f.Passes b.limit) :
    ∃ next taken rest, b.push data = (next, .ok taken) ∧ frames = taken ++ rest ∧
      next.Awaits bytes rest ∧ next.limit = b.limit := by
  have ha : ({ b with bytes := b.bytes ++ data } : FrameBuffer).Awaits bytes frames := by
    unfold Awaits at h ⊢
    rwa [List.append_assoc]
  exact ha.drain hp

end FrameBuffer

end SchemaRpc

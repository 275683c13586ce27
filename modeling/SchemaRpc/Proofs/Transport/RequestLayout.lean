import SchemaRpc.Frame.Route
import SchemaRpc.Proofs.Text.Utf8
import SchemaRpc.Proofs.Wire.Reading

namespace SchemaRpc

namespace Route

@[ext]
structure Layout (payload : Bytes) where
  len : Bytes
  route : String
  message : Bytes
  spelled : Varint.Spelled 0 (Utf8.encode route).length len
  payload_eq : payload = len ++ (Utf8.encode route ++ message)

namespace Layout

variable {payload : Bytes}

theorem delimited_eq (l : Layout payload) :
    Reader.delimited payload = .ok (Utf8.encode l.route) l.message := by
  have := Reader.reads_delimited l.spelled l.message
  rwa [List.append_assoc, ← l.payload_eq] at this

theorem split_eq (l : Layout payload) :
    split payload =
      if l.route.startsWith "/" then .ok (l.route, l.message) else .error (malformed l.route) := by
  rw [split, l.delimited_eq]
  simp only [Utf8.decode_encode]

theorem unique (l l' : Layout payload) : l = l' := by
  have hread := l.delimited_eq
  rw [l'.delimited_eq] at hread
  injection hread with hname hmessage
  have hroute := Utf8.encode_injective hname
  have hlen : l.len ++ (Utf8.encode l.route ++ l.message) =
      l'.len ++ (Utf8.encode l.route ++ l.message) := by
    rw [← l.payload_eq, ← hname, ← hmessage, ← l'.payload_eq]
  exact Layout.ext (List.append_cancel_right hlen) hroute.symm hmessage.symm

def written (route : String) (message : Bytes)
    (fits : (Utf8.encode route).length < 18446744073709551616) : Layout (join route message) where
  len := Varint.encodeNat (Utf8.encode route).length
  route := route
  message := message
  spelled := Varint.spelled_encodeNat_of_lt fits
  payload_eq := List.append_assoc ..

end Layout

theorem layout_of_split {payload message : Bytes} {route : String}
    (h : split payload = .ok (route, message)) :
    ∃ l : Layout payload, l.route = route ∧ l.message = message ∧ route.startsWith "/" = true := by
  rw [split] at h
  split at h
  · cases h
  next name rest hread =>
  split at h
  · cases h
  next found hname =>
  split at h
  · next slash =>
      cases h
      obtain ⟨n, left, hn, ht⟩ := Reader.bind_eq_ok hread
      obtain ⟨len, rfl, hlen⟩ := Reader.spelled_of_varint hn
      obtain ⟨hl, rfl⟩ := Reader.length_of_take ht
      have henc := Utf8.encode_of_decode hname
      exact ⟨⟨len, route, message, by rwa [henc, hl], by rw [henc]⟩, rfl, rfl, slash⟩
  · cases h

theorem startsWith_slash_iff {route : String} :
    route.startsWith "/" = true ↔ route.toList.head? = some '/' := by
  rw [String.startsWith_string_iff]
  cases route.toList with
  | nil => simp
  | cons c rest => simp [List.cons_prefix_cons, eq_comm]

theorem layout_unambiguous (route : String) (message : Bytes)
    (fits : (Utf8.encode route).length < 18446744073709551616) :
    (route.toList.head? = some '/' → split (join route message) = .ok (route, message)) ∧
      (route.toList.head? ≠ some '/' →
        split (join route message) = .error (.protocol s!"Malformed route '{route}'")) ∧
      (∃ l : Layout (join route message), l.route = route ∧ l.message = message) ∧
      (∀ payload found rest, split payload = .ok (found, rest) ↔
        ∃ l : Layout payload, l.route = found ∧ l.message = rest ∧ found.toList.head? = some '/') ∧
      ∀ payload (l l' : Layout payload), l = l' := by
  have hsplit := (Layout.written route message fits).split_eq
  refine ⟨fun slash => ?_, fun bare => ?_, ⟨.written route message fits, rfl, rfl⟩,
    fun payload found rest => ⟨fun h => ?_, ?_⟩, fun _ => Layout.unique⟩
  · rw [hsplit]
    exact if_pos (startsWith_slash_iff.2 slash)
  · rw [hsplit]
    exact if_neg fun slash => bare (startsWith_slash_iff.1 slash)
  · obtain ⟨l, hr, hm, slash⟩ := layout_of_split h
    exact ⟨l, hr, hm, startsWith_slash_iff.1 slash⟩
  · rintro ⟨l, rfl, rfl, slash⟩
    rw [l.split_eq]
    exact if_pos (startsWith_slash_iff.2 slash)

theorem layout_unambiguous_padded :
    split (join "/a.B/C" [8, 1]) = .ok ("/a.B/C", [8, 1]) ∧
      split ([0x86, 0] ++ (Utf8.encode "/a.B/C" ++ [8, 1])) = .ok ("/a.B/C", [8, 1]) := by
  have short : (Utf8.encode "/a.B/C").length = 6 := by decide
  have fits : (Utf8.encode "/a.B/C").length < 18446744073709551616 := by
    rw [short]
    decide
  have spelled : Varint.Spelled 0 (Utf8.encode "/a.B/C").length [0x86, 0] := by
    rw [short]
    exact .more (b := 0x86) (by decide) (by decide) (.last (b := 0) (by decide) (by decide))
  obtain ⟨joined, -, -, taken, -⟩ := layout_unambiguous "/a.B/C" [8, 1] fits
  let padded : Layout ([0x86, 0] ++ (Utf8.encode "/a.B/C" ++ [8, 1])) :=
    ⟨[0x86, 0], "/a.B/C", [8, 1], spelled, rfl⟩
  exact ⟨joined (by decide), (taken _ _ _).2 ⟨padded, rfl, rfl, by decide⟩⟩

end Route

end SchemaRpc

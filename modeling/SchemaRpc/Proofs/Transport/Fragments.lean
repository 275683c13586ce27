import SchemaRpc.Proofs.Transport.Framing

namespace SchemaRpc

theorem Header.eq_of_split? {h : Header} {bytes rest : Bytes} (hs : split? bytes = some (h, rest)) :
    bytes = h.encode ++ rest := by
  have number : ∀ word : Bytes, word.length = 4 →
      Bytes.bigEndian 4 (UInt32.ofNat (Bytes.ofBigEndian word)).toNat = word := by
    intro word hw
    have hlt := Bytes.ofBigEndian_lt word
    rw [hw] at hlt
    rw [UInt32.toNat_ofNat_of_lt' hlt, ← hw, Bytes.bigEndian_ofBigEndian]
  unfold split? at hs
  split at hs
  · cases hs
    rw [encode, number _ rfl, number _ rfl]
    rfl
  · cases hs

@[simp] theorem Header.length_encode (h : Header) : h.encode.length = size := by
  simp [encode, size]

@[simp] theorem Frame.length_encode (f : Frame) : f.encode.length = f.size := by
  simp [encode, size]

theorem Header.split?_eq_none {bytes : Bytes} (hs : split? bytes = none) : bytes.length < size := by
  rcases bytes with _ | ⟨_, _ | ⟨_, _ | ⟨_, _ | ⟨_, _ | ⟨_, _ | ⟨_, _ | ⟨_, _ | ⟨_, _ | ⟨_, _⟩⟩⟩⟩⟩⟩⟩⟩⟩
  case cons.cons.cons.cons.cons.cons.cons.cons.cons => cases hs
  all_goals simp [size]

namespace FrameBuffer

def extend (b : FrameBuffer) (data : Bytes) : FrameBuffer :=
  { b with bytes := b.bytes ++ data }

theorem extend_extend (b : FrameBuffer) (first second : Bytes) :
    (b.extend first).extend second = b.extend (first ++ second) := by
  rw [extend, extend, extend, List.append_assoc]

theorem extend_nil (b : FrameBuffer) : b.extend [] = b := by
  rw [extend, List.append_nil]

theorem empty_extend (limit : UInt32) (data : Bytes) :
    (empty limit).extend data = ⟨limit, data, .header⟩ := rfl

def held (b : FrameBuffer) : Bytes :=
  match b.phase with
  | .header => b.bytes
  | .payload h => h.encode ++ b.bytes

theorem held_extend (b : FrameBuffer) (data : Bytes) : (b.extend data).held = b.held ++ data := by
  obtain ⟨limit, bytes, phase⟩ := b
  cases phase with
  | header => rfl
  | payload h => exact (List.append_assoc ..).symm

def Sane (b : FrameBuffer) : Prop :=
  ∀ h, b.phase = .payload h → h.check b.limit = .ok ()

theorem sane_header (limit : UInt32) (bytes : Bytes) : Sane ⟨limit, bytes, .header⟩ := by
  intro h hp
  cases hp

inductive Moves : FrameBuffer → List Frame → FrameBuffer → Prop
  | header {limit : UInt32} {h : Header} {rest : Bytes} (check : h.check limit = .ok ()) :
      Moves ⟨limit, h.encode ++ rest, .header⟩ [] ⟨limit, rest, .payload h⟩
  | payload {limit : UInt32} {h : Header} {payload rest : Bytes}
      (length : payload.length = h.length.toNat) :
      Moves ⟨limit, payload ++ rest, .payload h⟩ [⟨h, payload⟩] ⟨limit, rest, .header⟩

inductive Refuses : FrameBuffer → Error → Prop
  | header {limit : UInt32} {h : Header} {rest : Bytes} {e : Error}
      (check : h.check limit = .error e) : Refuses ⟨limit, h.encode ++ rest, .header⟩ e

variable {b mid next last : FrameBuffer} {frames more : List Frame} {e : Error} {data : Bytes}

theorem Moves.advance (h : b.Moves frames next) : b.advance = .moved frames next := by
  cases h with
  | header check =>
      rw [FrameBuffer.advance]
      simp only [Header.split?_encode, check]
  | @payload limit h payload rest length =>
      have ht : (payload ++ rest).take? h.length.toNat = some (payload, rest) :=
        Bytes.take?_eq_some_iff.2 ⟨length, rfl⟩
      rw [FrameBuffer.advance]
      simp only [ht]

theorem Refuses.advance (h : b.Refuses e) : b.advance = .refused e := by
  cases h with
  | header check =>
      rw [FrameBuffer.advance]
      simp only [Header.split?_encode, check]

theorem moves_of_advance (h : b.advance = .moved frames next) : b.Moves frames next := by
  obtain ⟨limit, bytes, phase⟩ := b
  cases phase with
  | header =>
      simp only [advance] at h
      split at h
      · cases h
      · next hs =>
          split at h
          · cases h
          · next check =>
              cases h
              cases Header.eq_of_split? hs
              exact .header check
  | payload header =>
      simp only [advance] at h
      split at h
      · cases h
      · next hs =>
          cases h
          obtain ⟨length, rfl⟩ := Bytes.take?_eq_some_iff.1 hs
          exact .payload length

theorem refuses_of_advance (h : b.advance = .refused e) : b.Refuses e := by
  obtain ⟨limit, bytes, phase⟩ := b
  cases phase with
  | header =>
      simp only [advance] at h
      split at h
      · cases h
      · next hs =>
          split at h
          · next check =>
              cases h
              cases Header.eq_of_split? hs
              exact .header check
          · cases h
  | payload header =>
      simp only [advance] at h
      split at h <;> cases h

theorem stuck_cases (h : b.advance = .stuck) :
    (b.phase = .header ∧ b.bytes.length < Header.size) ∨
      ∃ header, b.phase = .payload header ∧ b.bytes.length < header.length.toNat := by
  obtain ⟨limit, bytes, phase⟩ := b
  cases phase with
  | header =>
      simp only [advance] at h
      split at h
      · next hs => exact .inl ⟨rfl, Header.split?_eq_none hs⟩
      · split at h <;> cases h
  | payload header =>
      simp only [advance] at h
      split at h
      · next hs =>
          refine .inr ⟨header, rfl, ?_⟩
          rw [Bytes.take?_eq] at hs
          split at hs
          · cases hs
          · next hl => exact Nat.lt_of_not_le hl
      · cases h

theorem stuck_empty (limit : UInt32) : (empty limit).advance = .stuck := rfl

theorem Moves.extend (h : b.Moves frames next) (data : Bytes) :
    (b.extend data).Moves frames (next.extend data) := by
  cases h with
  | header check =>
      rw [FrameBuffer.extend, List.append_assoc]
      exact .header check
  | payload length =>
      rw [FrameBuffer.extend, List.append_assoc]
      exact .payload length

theorem Refuses.extend (h : b.Refuses e) (data : Bytes) : (b.extend data).Refuses e := by
  cases h with
  | header check =>
      rw [FrameBuffer.extend, List.append_assoc]
      exact .header check

theorem Moves.held (h : b.Moves frames next) :
    b.held = frames.flatMap Frame.encode ++ next.held := by
  cases h with
  | header => rfl
  | @payload limit h payload rest length =>
      rw [List.flatMap_singleton]
      exact (List.append_assoc ..).symm

theorem Moves.passes (h : b.Moves frames next) (sane : b.Sane) :
    (∀ f ∈ frames, f.Passes b.limit) ∧ next.Sane ∧ next.limit = b.limit := by
  cases h with
  | header check =>
      refine ⟨nofun, fun _ hp => ?_, rfl⟩
      cases hp
      exact check
  | payload length =>
      refine ⟨fun f hf => ?_, sane_header _ _, rfl⟩
      rw [List.mem_singleton.1 hf]
      exact ⟨sane _ rfl, length⟩

inductive Drains : FrameBuffer → List Frame → FrameBuffer → Prop
  | stop (b : FrameBuffer) : Drains b [] b
  | move {b mid last : FrameBuffer} {frames more : List Frame} (first : b.Moves frames mid)
      (rest : Drains mid more last) : Drains b (frames ++ more) last

namespace Drains

theorem extend (h : b.Drains frames last) (data : Bytes) :
    (b.extend data).Drains frames (last.extend data) := by
  induction h with
  | stop b => exact .stop _
  | move first _ ih => exact .move (first.extend data) ih

theorem trans (h : b.Drains frames mid) (hm : mid.Drains more last) :
    b.Drains (frames ++ more) last := by
  induction h with
  | stop b => exact hm
  | move first _ ih =>
      rw [List.append_assoc]
      exact .move first (ih hm)

theorem held (h : b.Drains frames last) :
    b.held = frames.flatMap Frame.encode ++ last.held := by
  induction h with
  | stop b => rfl
  | move first _ ih => rw [first.held, ih, List.flatMap_append, List.append_assoc]

theorem passes (h : b.Drains frames last) (sane : b.Sane) :
    (∀ f ∈ frames, f.Passes b.limit) ∧ last.Sane ∧ last.limit = b.limit := by
  induction h with
  | stop b => exact ⟨nofun, sane, rfl⟩
  | move first _ ih =>
      obtain ⟨hf, hs, hl⟩ := first.passes sane
      obtain ⟨hr, hlast, hlimit⟩ := ih hs
      refine ⟨fun f hm => ?_, hlast, hlimit.trans hl⟩
      cases List.mem_append.1 hm with
      | inl hm => exact hf f hm
      | inr hm => exact hl ▸ hr f hm

theorem eq_of_not_moves (h : b.Drains frames last) (hn : ∀ taken next, ¬b.Moves taken next) :
    frames = [] ∧ last = b := by
  cases h with
  | stop b => exact ⟨rfl, rfl⟩
  | move first _ => exact absurd first (hn _ _)

theorem resume (h : b.Drains frames mid) (hl : b.Drains more last)
    (done : ∀ taken next, ¬last.Moves taken next) :
    ∃ rest, more = frames ++ rest ∧ mid.Drains rest last := by
  induction h generalizing more with
  | stop b => exact ⟨more, rfl, hl⟩
  | move first _ ih =>
      cases hl with
      | stop b => exact absurd first (done _ _)
      | move other rest =>
          have he := first.advance.symm.trans other.advance
          cases he
          obtain ⟨left, rfl, hd⟩ := ih rest
          exact ⟨left, (List.append_assoc ..).symm, hd⟩

theorem whole {limit : UInt32} (hp : ∀ f ∈ frames, f.Passes limit) (rest : Bytes) :
    Drains ⟨limit, frames.flatMap Frame.encode ++ rest, .header⟩ frames ⟨limit, rest, .header⟩ := by
  induction frames with
  | nil => exact .stop _
  | cons f others ih =>
      have hf := hp f List.mem_cons_self
      rw [List.flatMap_cons, Frame.encode, List.append_assoc, List.append_assoc]
      have hrest := ih fun g hg => hp g (List.mem_cons_of_mem _ hg)
      exact .move (.header hf.check) (.move (.payload hf.length) hrest)

end Drains

theorem not_moves_of_stuck (h : b.advance = .stuck) : ∀ taken next, ¬b.Moves taken next := by
  intro taken next hm
  rw [hm.advance] at h
  cases h

theorem Refuses.eq_header (h : b.Refuses e) :
    ∃ (header : Header) (rest : Bytes),
      b = ⟨b.limit, header.encode ++ rest, .header⟩ ∧ header.check b.limit = .error e := by
  cases h with
  | header check => exact ⟨_, _, rfl, check⟩

theorem Drains.eq_of_payload {h : Header} (hd : b.Drains frames last) (hp : b.phase = .payload h)
    (hn : frames = []) : last = b := by
  cases hd with
  | stop => rfl
  | move first _ =>
      cases first with
      | header => cases hp
      | payload => cases hn

theorem Refuses.not_moves (h : b.Refuses e) : ∀ taken next, ¬b.Moves taken next := by
  intro taken next hm
  have := hm.advance.symm.trans h.advance
  cases this

theorem drain_of_stuck (h : b.advance = .stuck) : b.drain = (b, .ok []) := by
  rw [drain]
  split
  · rfl
  · next hr => rw [h] at hr; cases hr
  · next hm => rw [h] at hm; cases hm

theorem Refuses.drain (h : b.Refuses e) : b.drain = (b, .error e) := by
  have ha := h.advance
  rw [FrameBuffer.drain]
  split
  · next hs => rw [ha] at hs; cases hs
  · next hr => rw [ha] at hr; cases hr; rfl
  · next hm => rw [ha] at hm; cases hm

theorem Moves.drain (h : b.Moves frames next) :
    b.drain = (next.drain.1, next.drain.2.map (frames ++ ·)) := by
  have ha := h.advance
  rw [FrameBuffer.drain]
  split
  · next hs => rw [ha] at hs; cases hs
  · next hr => rw [ha] at hr; cases hr
  · next hm => rw [ha] at hm; cases hm; rfl

theorem Drains.drain (h : b.Drains frames last) :
    b.drain = (last.drain.1, last.drain.2.map (frames ++ ·)) := by
  induction h with
  | stop b =>
      cases hd : b.drain with
      | mk next answer => cases answer <;> rfl
  | @move b mid last frames more first _ ih =>
      rw [first.drain, ih]
      cases last.drain.2 with
      | error e => rfl
      | ok taken => simp [Except.map, List.append_assoc]

theorem drains_cases (b : FrameBuffer) :
    ∃ frames last, b.Drains frames last ∧ (last.advance = .stuck ∨ ∃ e, last.Refuses e) := by
  fun_induction FrameBuffer.drain b with
  | case1 b hs => exact ⟨[], b, .stop b, .inl hs⟩
  | case2 b e hr => exact ⟨[], b, .stop b, .inr ⟨e, refuses_of_advance hr⟩⟩
  | case3 b frames next hm last more hd ih =>
      obtain ⟨rest, final, hr, hf⟩ := ih
      exact ⟨frames ++ rest, final, .move (moves_of_advance hm) hr, hf⟩

theorem Drains.drain_of_stuck (h : b.Drains frames last) (hs : last.advance = .stuck) :
    b.drain = (last, .ok frames) := by
  rw [h.drain, FrameBuffer.drain_of_stuck hs, Except.map, List.append_nil]

theorem Drains.drain_of_refuses (h : b.Drains frames last) (hr : last.Refuses e) :
    b.drain = (last, .error e) := by
  rw [h.drain, hr.drain]
  rfl

def feed (b : FrameBuffer) : List Bytes → FrameBuffer × List (Except Error (List Frame))
  | [] => (b, [])
  | data :: rest =>
    let (next, answer) := b.push data
    let (last, answers) := next.feed rest
    (last, answer :: answers)

theorem feed_cons (b : FrameBuffer) (data : Bytes) (rest : List Bytes) :
    b.feed (data :: rest) =
      (((b.push data).1.feed rest).1, (b.push data).2 :: ((b.push data).1.feed rest).2) := rfl

theorem push_eq (b : FrameBuffer) (data : Bytes) : b.push data = (b.extend data).drain := rfl

theorem feed_append (b : FrameBuffer) (first second : List Bytes) :
    b.feed (first ++ second) =
      (((b.feed first).1.feed second).1, (b.feed first).2 ++ ((b.feed first).1.feed second).2) := by
  induction first generalizing b with
  | nil => rfl
  | cons data rest ih => rw [List.cons_append, feed_cons, ih, feed_cons, List.cons_append]

theorem Refuses.feed (h : b.Refuses e) (cut : List Bytes) :
    (b.feed cut).2 = List.replicate cut.length (.error e) := by
  induction cut generalizing b with
  | nil => rfl
  | cons data rest ih =>
      have hp : b.push data = (b.extend data, .error e) := (h.extend data).drain
      rw [feed_cons, hp, ih (h.extend data), List.length_cons, List.replicate_succ]

theorem feed_of_drains {cut : List Bytes} (settled : b.advance = .stuck)
    (h : (b.extend cut.flatten).Drains frames last) (hs : last.advance = .stuck) :
    ∃ answers : List (List Frame), b.feed cut = (last, answers.map .ok) ∧
      answers.flatten = frames := by
  induction cut generalizing b frames with
  | nil =>
      rw [List.flatten_nil, extend_nil] at h
      obtain ⟨rfl, rfl⟩ := h.eq_of_not_moves (not_moves_of_stuck settled)
      exact ⟨[], rfl, rfl⟩
  | cons data rest ih =>
      rw [List.flatten_cons, ← extend_extend] at h
      -- what the first piece completes comes first in the whole as well
      obtain ⟨taken, mid, hd, hm⟩ := drains_cases (b.extend data)
      obtain ⟨left, rfl, hleft⟩ := (hd.extend rest.flatten).resume h (not_moves_of_stuck hs)
      rcases hm with hstuck | ⟨e, hr⟩
      · obtain ⟨answers, ha, rfl⟩ := ih hstuck hleft
        refine ⟨taken :: answers, ?_, rfl⟩
        rw [feed_cons, push_eq, hd.drain_of_stuck hstuck, ha]
        rfl
      · have hx := hr.extend rest.flatten
        obtain ⟨-, rfl⟩ := hleft.eq_of_not_moves hx.not_moves
        rw [hx.advance] at hs
        cases hs

structure Stop (b : FrameBuffer) (e : Error) where
  before : List Bytes
  fragment : Bytes
  answers : List (List Frame)
  lost : List Frame
  mid : FrameBuffer
  last : FrameBuffer
  fed : b.feed before = (mid, answers.map .ok)
  taken : (b.extend before.flatten).Drains answers.flatten mid
  stuck : mid.advance = .stuck
  drains : (mid.extend fragment).Drains lost last
  refuses : last.Refuses e

theorem stop_of_drains {cut : List Bytes} (settled : b.advance = .stuck)
    (h : (b.extend cut.flatten).Drains frames last) (hr : last.Refuses e) :
    ∃ (s : Stop b e) (after : List Bytes), cut = s.before ++ s.fragment :: after ∧
      frames = s.answers.flatten ++ s.lost ∧ last = s.last.extend after.flatten := by
  induction cut generalizing b frames with
  | nil =>
      rw [List.flatten_nil, extend_nil] at h
      obtain ⟨-, rfl⟩ := h.eq_of_not_moves (not_moves_of_stuck settled)
      rw [hr.advance] at settled
      cases settled
  | cons data rest ih =>
      rw [List.flatten_cons, ← extend_extend] at h
      obtain ⟨taken, mid, hd, hm⟩ := drains_cases (b.extend data)
      obtain ⟨left, rfl, hleft⟩ := (hd.extend rest.flatten).resume h hr.not_moves
      rcases hm with hstuck | ⟨e', hr'⟩
      · obtain ⟨s, after, rfl, rfl, rfl⟩ := ih hstuck hleft
        refine ⟨⟨data :: s.before, s.fragment, taken :: s.answers, s.lost, s.mid, s.last, ?_, ?_,
          s.stuck, s.drains, s.refuses⟩, after, rfl, (List.append_assoc ..).symm, rfl⟩
        · rw [feed_cons, push_eq, hd.drain_of_stuck hstuck, s.fed]
          rfl
        · rw [List.flatten_cons, ← extend_extend, List.flatten_cons]
          exact (hd.extend s.before.flatten).trans s.taken
      · have hx := hr'.extend rest.flatten
        obtain ⟨rfl, rfl⟩ := hleft.eq_of_not_moves hx.not_moves
        cases hx.advance.symm.trans hr.advance
        refine ⟨⟨[], data, [], taken, b, mid, rfl, ?_, settled, hd, hr'⟩, rest, rfl, ?_, rfl⟩
        · rw [List.flatten_nil, extend_nil]
          exact .stop b
        · rw [List.append_nil]
          rfl

end FrameBuffer

end SchemaRpc

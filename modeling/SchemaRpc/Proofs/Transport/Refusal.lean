import SchemaRpc.Proofs.Transport.Fragments

namespace SchemaRpc.FrameBuffer

structure RefusedAt (limit : UInt32) (bytes : Bytes) (frames : List Frame) (h : Header) (e : Error) :
    Prop where
  passes : ∀ f ∈ frames, f.Passes limit
  check : h.check limit = .error e
  bytes : frames.flatMap Frame.encode ++ h.encode <+: bytes

def headerEnd (frames : List Frame) : Nat :=
  (frames.flatMap Frame.encode).length + Header.size

/-- The pushes before the one with the last byte up to an end succeed, and give `answers`. That one
fails, and whatever the pushes after it bring, they fail in the same way. -/
structure Breaks (limit : UInt32) (cut : List Bytes) (position : Nat) (e : Error)
    (answers : List (List Frame)) (before : List Bytes) : Prop where
  starts : before.flatten.length < position
  fails : ∃ fragment after, cut = before ++ fragment :: after ∧
    position ≤ before.flatten.length + fragment.length ∧
    ∀ later : List Bytes, ((empty limit).feed (before ++ fragment :: later)).2 =
      answers.map .ok ++ List.replicate (later.length + 1) (.error e)

variable {limit : UInt32} {bytes : Bytes} {cut : List Bytes} {frames : List Frame} {h : Header}
  {e : Error} {last : FrameBuffer}

theorem RefusedAt.drains (hr : RefusedAt limit bytes frames h e) :
    ∃ rest, bytes = frames.flatMap Frame.encode ++ (h.encode ++ rest) ∧
      ((empty limit).extend bytes).Drains frames ⟨limit, h.encode ++ rest, .header⟩ := by
  obtain ⟨rest, rfl⟩ := hr.bytes
  refine ⟨rest, List.append_assoc .., ?_⟩
  rw [empty_extend, List.append_assoc]
  exact .whole hr.passes _

theorem Drains.refusedAt (hd : ((empty limit).extend bytes).Drains frames last)
    (hr : last.Refuses e) : ∃ h, RefusedAt limit bytes frames h e := by
  obtain ⟨passes, -, hl⟩ := hd.passes (sane_header _ _)
  obtain ⟨h, rest, hlast, check⟩ := hr.eq_header
  have hb : bytes = frames.flatMap Frame.encode ++ last.held := hd.held
  rw [hlast] at hb
  rw [hl] at check
  exact ⟨h, passes, check, rest, (List.append_assoc ..).trans hb.symm⟩

theorem Stop.length_held_lt {b : FrameBuffer} (s : Stop b e) (sane : s.mid.Sane) :
    s.mid.held.length < (s.lost.head?.map Frame.size).getD Header.size := by
  obtain ⟨passes, -, -⟩ := s.drains.passes (b := s.mid.extend s.fragment) sane
  have hheld := s.drains.held
  rw [held_extend] at hheld
  have hsize : Header.size ≤ (s.lost.head?.map Frame.size).getD Header.size := by
    cases s.lost.head? with
    | none => exact Nat.le_refl _
    | some f => exact Nat.le_add_right _ _
  rcases stuck_cases s.stuck with ⟨hp, hl⟩ | ⟨header, hp, hl⟩
  · have hh : s.mid.held = s.mid.bytes := by rw [FrameBuffer.held, hp]
    rw [hh]
    exact Nat.lt_of_lt_of_le hl hsize
  · have hh : s.mid.held = header.encode ++ s.mid.bytes := by rw [FrameBuffer.held, hp]
    cases hlost : s.lost with
    | nil =>
        have hlast := s.drains.eq_of_payload (h := header) hp hlost
        obtain ⟨_, _, hb, -⟩ := s.refuses.eq_header
        rw [hlast] at hb
        have hphase : s.mid.phase = .header := congrArg FrameBuffer.phase hb
        rw [hp] at hphase
        cases hphase
    | cons f rest =>
        rw [hlost] at hheld passes
        have hf := passes f List.mem_cons_self
        rw [hh, List.flatMap_cons, Frame.encode, List.append_assoc, List.append_assoc,
          List.append_assoc] at hheld
        have hsplit := Header.split?_encode header (s.mid.bytes ++ s.fragment)
        rw [hheld, Header.split?_encode] at hsplit
        obtain ⟨rfl, -⟩ := Prod.mk.inj (Option.some.inj hsplit)
        rw [hh, List.length_append, Header.length_encode]
        show Header.size + s.mid.bytes.length < Header.size + f.payload.length
        rw [hf.length]
        omega

def completeWithin : Nat → List Frame → List Frame
  | _, [] => []
  | n, f :: rest => if f.size ≤ n then f :: completeWithin (n - f.size) rest else []

theorem completeWithin_append {taken lost : List Frame} {n : Nat}
    (complete : (taken.flatMap Frame.encode).length ≤ n)
    (next : ∀ f ∈ lost.head?, n < (taken.flatMap Frame.encode).length + f.size) :
    completeWithin n (taken ++ lost) = taken := by
  induction taken generalizing n with
  | nil =>
      cases lost with
      | nil => rfl
      | cons f rest =>
          have hf := next f rfl
          simp only [List.flatMap_nil, List.length_nil, Nat.zero_add] at hf
          rw [List.nil_append, completeWithin, if_neg (Nat.not_le_of_lt hf)]
  | cons f rest ih =>
      simp only [List.flatMap_cons, List.length_append, Frame.length_encode] at complete next
      have hn : completeWithin (n - f.size) (rest ++ lost) = rest := by
        refine ih (by omega) fun g hg => ?_
        have := next g hg
        omega
      rw [List.cons_append, completeWithin, if_pos (by omega), hn]

theorem completeWithin_eq_self_iff {n : Nat} {frames : List Frame} :
    completeWithin n frames = frames ↔ (frames.flatMap Frame.encode).length ≤ n := by
  induction frames generalizing n with
  | nil => simp [completeWithin]
  | cons f rest ih =>
      simp only [completeWithin, List.flatMap_cons, List.length_append, Frame.length_encode]
      split
      · next hf =>
          simp only [List.cons.injEq, true_and, ih]
          omega
      · next hf => simp; omega

def delivered (limit : UInt32) (cut : List Bytes) : List Frame :=
  ((empty limit).feed cut).2.flatMap fun answer => answer.toOption.getD []

theorem flatMap_answers (answers : List (List Frame)) (n : Nat) (e : Error) :
    ((answers.map .ok ++ List.replicate n (.error e) : List (Except Error (List Frame))).flatMap
      fun answer => answer.toOption.getD []) = answers.flatten := by
  have hok : ((answers.map .ok : List (Except Error (List Frame))).flatMap
      fun answer => answer.toOption.getD []) = answers.flatten := by
    rw [List.flatMap_def, List.map_map]
    exact congrArg _ (List.map_id answers)
  have herror : ((List.replicate n (.error e) : List (Except Error (List Frame))).flatMap
      fun answer => answer.toOption.getD []) = [] := by
    induction n with
    | zero => rfl
    | succ n ih => rw [List.replicate_succ, List.flatMap_cons, ih]; rfl
  rw [List.flatMap_append, hok, herror, List.append_nil]

theorem breaks_of_refusedAt (hr : RefusedAt limit cut.flatten frames h e) :
    ∃ answers before, Breaks limit cut (headerEnd frames) e answers before ∧
      answers.flatten = completeWithin before.flatten.length frames := by
  obtain ⟨rest, hbytes, hd⟩ := hr.drains
  have hrefuses : Refuses ⟨limit, h.encode ++ rest, .header⟩ e := .header hr.check
  obtain ⟨s, after, hcut, hframes, hlast⟩ :=
    stop_of_drains (stuck_empty limit) hd hrefuses
  obtain ⟨-, sane, -⟩ := s.taken.passes (sane_header _ _)
  have htaken : s.before.flatten = s.answers.flatten.flatMap Frame.encode ++ s.mid.held :=
    s.taken.held
  have hlost : s.mid.held ++ s.fragment = s.lost.flatMap Frame.encode ++ s.last.held := by
    rw [← held_extend]
    exact s.drains.held
  have hheld := s.length_held_lt sane
  have hheader : Header.size ≤ s.last.held.length := by
    obtain ⟨header, tail, hb, -⟩ := s.refuses.eq_header
    rw [hb]
    simp [FrameBuffer.held]
  have hend : headerEnd frames = (s.answers.flatten.flatMap Frame.encode).length +
      (s.lost.flatMap Frame.encode).length + Header.size := by
    rw [headerEnd, hframes, List.flatMap_append, List.length_append]
  have hfirst : (s.lost.head?.map Frame.size).getD Header.size ≤
      (s.lost.flatMap Frame.encode).length + Header.size := by
    cases s.lost with
    | nil => simp
    | cons f others => simp; omega
  have hltaken := congrArg List.length htaken
  have hllost := congrArg List.length hlost
  simp only [List.length_append] at hltaken hllost
  refine ⟨s.answers, s.before, ⟨by omega, s.fragment, after, hcut, by omega, fun later => ?_⟩, ?_⟩
  · have hpush : s.mid.push s.fragment = (s.last, .error e) := s.drains.drain_of_refuses s.refuses
    rw [feed_append, s.fed, feed_cons, hpush, s.refuses.feed, List.replicate_succ]
  · rw [hframes]
    refine (completeWithin_append (by omega) fun f hf => ?_).symm
    rw [hf] at hheld
    simp only [Option.map_some, Option.getD_some] at hheld
    omega

theorem Breaks.delivered {position : Nat} {answers : List (List Frame)} {before : List Bytes}
    (hb : Breaks limit cut position e answers before) :
    FrameBuffer.delivered limit cut = answers.flatten := by
  obtain ⟨fragment, after, rfl, -, hall⟩ := hb.fails
  rw [FrameBuffer.delivered, hall after, flatMap_answers]

theorem feed_of_not_refused (hn : ∀ frames h e, ¬RefusedAt limit cut.flatten frames h e) :
    ∃ frames last, ((empty limit).extend cut.flatten).Drains frames last ∧
      ∀ other : List Bytes, other.flatten = cut.flatten →
        ∃ answers : List (List Frame),
          (empty limit).feed other = (last, answers.map .ok) ∧ answers.flatten = frames := by
  obtain ⟨frames, last, hd, hs | ⟨e, hr⟩⟩ := drains_cases ((empty limit).extend cut.flatten)
  · refine ⟨frames, last, hd, fun other ho => ?_⟩
    exact feed_of_drains (stuck_empty limit) (ho ▸ hd) hs
  · obtain ⟨h, hr⟩ := hd.refusedAt hr
    exact absurd hr (hn frames h e)

theorem fragments_indistinguishable {left right : List Bytes}
    (same : left.flatten = right.flatten) :
    (∃ (last : FrameBuffer) (given taken : List (List Frame)),
        (empty limit).feed left = (last, given.map .ok) ∧
        (empty limit).feed right = (last, taken.map .ok) ∧
        given.flatten = taken.flatten ∧ ∀ frames h e, ¬RefusedAt limit left.flatten frames h e) ∨
      ∃ frames h e, RefusedAt limit left.flatten frames h e ∧
        (∃ given before, Breaks limit left (headerEnd frames) e given before) ∧
        ∃ taken before, Breaks limit right (headerEnd frames) e taken before := by
  rcases Classical.em (∃ frames h e, RefusedAt limit left.flatten frames h e) with hr | hn
  · obtain ⟨frames, h, e, hr⟩ := hr
    obtain ⟨given, first, hb, -⟩ := breaks_of_refusedAt hr
    obtain ⟨taken, second, hb', -⟩ := breaks_of_refusedAt (same ▸ hr)
    exact .inr ⟨frames, h, e, hr, ⟨given, first, hb⟩, taken, second, hb'⟩
  · have hn : ∀ frames h e, ¬RefusedAt limit left.flatten frames h e :=
      fun frames h e hr => hn ⟨frames, h, e, hr⟩
    obtain ⟨frames, last, -, hall⟩ := feed_of_not_refused hn
    obtain ⟨given, hleft, hg⟩ := hall left rfl
    obtain ⟨taken, hright, ht⟩ := hall right same.symm
    exact .inl ⟨last, given, taken, hleft, hright, hg.trans ht.symm, hn⟩

def answered : Frame := .ofKind .response 1 [0x08, 0x01]

def reserved : Header := ⟨0, 0, 0⟩

theorem refusedAt_reserved :
    RefusedAt defaultLimit (answered.encode ++ reserved.encode) [answered] reserved
      Header.idReserved where
  passes := by
    intro f hf
    rw [List.mem_singleton.1 hf]
    exact Frame.passes_ofKind .response (by decide) (by decide)
  check := rfl
  bytes := List.prefix_refl _

theorem refusedAt_together :
    RefusedAt defaultLimit [answered.encode ++ reserved.encode].flatten [answered] reserved
      Header.idReserved := refusedAt_reserved

theorem fragments_indistinguishable_reserved :
    ((answered.encode ++ reserved.encode).map fun b => [b]).flatten =
        [answered.encode ++ reserved.encode].flatten ∧
      ∃ frames h e, RefusedAt defaultLimit
          ((answered.encode ++ reserved.encode).map fun b => [b]).flatten frames h e ∧
        (∃ given before, Breaks defaultLimit ((answered.encode ++ reserved.encode).map fun b => [b])
          (headerEnd frames) e given before) ∧
        ∃ taken before, Breaks defaultLimit [answered.encode ++ reserved.encode]
          (headerEnd frames) e taken before := by
  have same : ((answered.encode ++ reserved.encode).map fun b => [b]).flatten =
      [answered.encode ++ reserved.encode].flatten := by decide
  refine ⟨same, ?_⟩
  rcases @fragments_indistinguishable defaultLimit _ _ same with ⟨_, _, _, _, _, _, hn⟩ | hr
  · refine absurd ?_ (hn [answered] reserved Header.idReserved)
    rw [same]
    exact refusedAt_reserved
  · exact hr

theorem delivered_of_refusedAt (hr : RefusedAt limit cut.flatten frames h e) :
    ∃ before fragment after, cut = before ++ fragment :: after ∧
      before.flatten.length < headerEnd frames ∧
      headerEnd frames ≤ before.flatten.length + fragment.length ∧
      delivered limit cut = completeWithin before.flatten.length frames ∧
      (delivered limit cut = frames ↔
        (frames.flatMap Frame.encode).length ≤ before.flatten.length) := by
  obtain ⟨answers, before, hb, ha⟩ := breaks_of_refusedAt hr
  obtain ⟨fragment, after, hcut, hend, -⟩ := hb.fails
  have hd : delivered limit cut = completeWithin before.flatten.length frames :=
    hb.delivered.trans ha
  refine ⟨before, fragment, after, hcut, hb.starts, hend, hd, ?_⟩
  rw [hd, completeWithin_eq_self_iff]

theorem delivered_together : delivered defaultLimit [answered.encode ++ reserved.encode] = [] := by
  obtain ⟨answers, before, hb, ha⟩ := breaks_of_refusedAt refusedAt_together
  obtain ⟨fragment, after, hcut, -⟩ := hb.fails
  cases before with
  | nil => exact hb.delivered.trans ha
  | cons first others => simp at hcut

theorem delivered_of_refusedAt_reserved :
    RefusedAt defaultLimit (answered.encode ++ reserved.encode) [answered] reserved
        Header.idReserved ∧
      delivered defaultLimit [answered.encode, reserved.encode] = [answered] ∧
      delivered defaultLimit [answered.encode ++ reserved.encode] = [] := by
  have apart : RefusedAt defaultLimit [answered.encode, reserved.encode].flatten [answered]
      reserved Header.idReserved := refusedAt_reserved
  obtain ⟨before, fragment, after, hcut, -, hend, -, hall⟩ := delivered_of_refusedAt apart
  refine ⟨refusedAt_reserved, hall.2 ?_, delivered_together⟩
  cases before with
  | nil =>
      cases hcut
      exact absurd hend (by decide)
  | cons first others =>
      obtain ⟨rfl, -⟩ := List.cons.inj hcut
      simp

theorem frames_lost :
    ¬∀ (limit : UInt32) (cut : List Bytes) (frames : List Frame) (h : Header) (e : Error),
      RefusedAt limit cut.flatten frames h e → delivered limit cut = frames := by
  intro hall
  have hd := hall _ _ _ _ _ refusedAt_together
  rw [delivered_together] at hd
  cases hd

end SchemaRpc.FrameBuffer

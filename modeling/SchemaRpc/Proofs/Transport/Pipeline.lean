import SchemaRpc.Outlet
import SchemaRpc.Proofs.Transport.Fragments

namespace SchemaRpc

namespace Outbox

inductive Takes (o : Outbox) : Frame → Outbox → Prop
  | offered {ticket now : Nat} {f : Frame} {next : Outbox}
      (done : o.offer ticket f now = (next, .queued)) : Takes o f next
  | posted {f : Frame} {next : Outbox} (done : o.post f = (next, .ok ())) : Takes o f next
  | resumed {w : Waiter} {next : Outbox} (waits : w ∈ o.waiting)
      (done : o.answer w = (.ok (), next)) : Takes o w.frame next

inductive Lines (o : Outbox) : Outbox → Prop
  | waits {ticket now : Nat} {f : Frame} {next : Outbox}
      (done : o.offer ticket f now = (next, .waits)) : Lines o next
  | refused {w : Waiter} {e : Error} {next : Outbox} (waits : w ∈ o.waiting)
      (done : o.answer w = (.error e, next)) : Lines o next
  | withdrawn (ticket : Nat) : Lines o (o.withdraw ticket)

variable {o next : Outbox} {f : Frame}

theorem Takes.queue (h : o.Takes f next) :
    o.isOpen = true ∧ next.isOpen = true ∧ next.queue = o.queue ++ [f] := by
  cases h with
  | offered done =>
      unfold offer at done
      split at done
      · cases done
      · next ho =>
          have ho : o.isOpen = true := by simpa using ho
          split at done
          · cases done; exact ⟨ho, ho, rfl⟩
          · split at done <;> cases done
  | posted done =>
      unfold post at done
      split at done
      · cases done
      · next ho =>
          have ho : o.isOpen = true := by simpa using ho
          split at done <;> cases done
          exact ⟨ho, ho, rfl⟩
  | resumed waits done =>
      unfold answer at done
      split at done
      · cases done
      · next ho =>
          have ho : o.isOpen = true := by simpa using ho
          split at done <;> cases done
          exact ⟨ho, ho, rfl⟩

theorem Lines.queue (h : o.Lines next) : next.isOpen = o.isOpen ∧ next.queue = o.queue := by
  cases h with
  | waits done =>
      unfold offer at done
      split at done
      · cases done
      · split at done
        · cases done
        · split at done <;> cases done
          exact ⟨rfl, rfl⟩
  | refused waits done =>
      unfold answer at done
      split at done
      · cases done; exact ⟨rfl, rfl⟩
      · split at done <;> cases done
        exact ⟨rfl, rfl⟩
  | withdrawn ticket => exact ⟨rfl, rfl⟩

end Outbox

namespace Outlet

def batch (o : Outlet) : List (List Frame) :=
  match o.writer with
  | .idle => if o.outbox.queue.isEmpty then [] else [o.outbox.queue.take Writer.batchLimit]
  | _ => []

/-- From one state to another, `sent` are the frames that are queued, `batches` those that the writer
joins, and `taken` the bytes that the reading end takes away. -/
inductive Works (o : Outlet) : List Frame → List (List Frame) → Bytes → Outlet → Prop
  | rest : Works o [] [] [] o
  | queue {mid : Outlet} {sent : List Frame} {batches : List (List Frame)} {taken : Bytes}
      {f : Frame} {outbox : Outbox} (run : Works o sent batches taken mid)
      (takes : mid.outbox.Takes f outbox) :
      Works o (sent ++ [f]) batches taken { mid with outbox := outbox }
  | line {mid : Outlet} {sent : List Frame} {batches : List (List Frame)} {taken : Bytes}
      {outbox : Outbox} (run : Works o sent batches taken mid) (lines : mid.outbox.Lines outbox) :
      Works o sent batches taken { mid with outbox := outbox }
  | write {mid next : Outlet} {sent : List Frame} {batches : List (List Frame)} {taken : Bytes}
      {senders : Bool} (run : Works o sent batches taken mid)
      (step : mid.advance? senders = some next) : Works o sent (batches ++ mid.batch) taken next
  | read {mid : Outlet} {sent : List Frame} {batches : List (List Frame)} {taken : Bytes}
      (run : Works o sent batches taken mid) (n : Nat) :
      Works o sent batches (taken ++ (mid.pipe.read n).2)
        { mid with pipe := (mid.pipe.read n).1 }

structure Working (o : Outlet) : Prop where
  isOpen : o.pipe.isOpen = true
  writer : o.writer = .idle ∨ (∃ rest, o.writer = .writing rest) ∨
    o.writer = .stopped (.ok ()) ∧ o.outbox.isOpen = false ∧ o.outbox.queue = []

def IsDone (o : Outlet) : Prop :=
  o.outbox.queue = [] ∧ o.writer.rest = []

def IsBatch (frames : List Frame) : Prop :=
  frames ≠ [] ∧ frames.length ≤ Writer.batchLimit

variable {o mid next last : Outlet} {sent frames : List Frame} {batches more : List (List Frame)}
  {taken read : Bytes} {senders : Bool}

theorem Works.trans {others : List Frame} (h : o.Works sent batches taken mid)
    (hm : mid.Works others more read last) :
    o.Works (sent ++ others) (batches ++ more) (taken ++ read) last := by
  induction hm with
  | rest => simpa using h
  | queue _ takes ih => rw [← List.append_assoc]; exact ih.queue takes
  | line _ lines ih => exact ih.line lines
  | write _ step ih => rw [← List.append_assoc]; exact ih.write step
  | read _ n ih => rw [← List.append_assoc]; exact ih.read n

theorem working_advance (hw : o.Working) (h : o.advance? senders = some next) :
    next.Working ∧ next.stream = o.stream ∧ o.batch.flatten ++ next.outbox.queue = o.outbox.queue ∧
      ∀ g ∈ o.batch, IsBatch g := by
  rcases hw.writer with hidle | ⟨rest, hwriting⟩ | ⟨hstopped, -, -⟩
  · simp only [advance?, hidle] at h
    split at h
    · next hq =>
        have hq : o.outbox.queue = [] := List.isEmpty_iff.1 hq
        split at h <;> cases h
        refine ⟨⟨hw.isOpen, .inr (.inr ⟨rfl, rfl, rfl⟩)⟩, ?_, ?_, ?_⟩
        · simp [stream, stop, Outbox.close, hidle, hq, Writer.rest]
        · simp [batch, hidle, hq, stop, Outbox.close]
        · simp [batch, hidle, hq]
    · next hq =>
        cases h
        refine ⟨⟨hw.isOpen, .inr (.inl ⟨_, rfl⟩)⟩, ?_, ?_, ?_⟩
        · exact stream_takeBatch o (by rw [hidle]; rfl)
        · simp [batch, hidle, hq, takeBatch]
        · intro g hg
          simp only [batch, hidle, hq] at hg
          rw [List.mem_singleton.1 hg]
          refine ⟨?_, List.length_take_le _ _⟩
          simpa [Writer.batchLimit] using hq
  · have hb : o.batch = [] := by rw [batch, hwriting]
    rw [hb]
    have hs : next.writer.isStopped = false → next.stream = o.stream := stream_of_advance? h
    cases rest with
    | nil =>
        simp only [advance?, hwriting] at h
        cases h
        exact ⟨⟨hw.isOpen, .inl rfl⟩, hs rfl, rfl, List.forall_mem_nil _⟩
    | cons b rest =>
        simp only [advance?, hwriting, hw.isOpen] at h
        split at h
        · next hn => cases hn
        · split at h <;> cases h
          exact ⟨⟨hw.isOpen, .inr (.inl ⟨_, rfl⟩)⟩, hs rfl, rfl, List.forall_mem_nil _⟩
  · rw [advance?, hstopped] at h
    cases h

theorem Works.keeps (h : o.Works sent batches taken next) (hw : o.Working) :
    next.Working ∧ taken ++ next.stream = o.stream ++ sent.flatMap Frame.encode ∧
      batches.flatten ++ next.outbox.queue = o.outbox.queue ++ sent ∧
      ∀ g ∈ batches, IsBatch g := by
  induction h with
  | rest => exact ⟨hw, by simp, by simp, List.forall_mem_nil _⟩
  | @queue mid sent batches taken f outbox _ takes ih =>
      obtain ⟨hm, hs, hb, hg⟩ := ih
      obtain ⟨ho, hn, hq⟩ := takes.queue
      refine ⟨⟨hm.isOpen, ?_⟩, ?_, ?_, hg⟩
      · rcases hm.writer with hi | hr | ⟨-, hc, -⟩
        · exact .inl hi
        · exact .inr (.inl hr)
        · rw [ho] at hc
          cases hc
      · rw [List.flatMap_append, ← List.append_assoc, ← hs]
        simp [stream, hq]
      · rw [← List.append_assoc, ← hb]
        simp [hq]
  | @line mid sent batches taken outbox _ lines ih =>
      obtain ⟨hm, hs, hb, hg⟩ := ih
      obtain ⟨ho, hq⟩ := lines.queue
      refine ⟨⟨hm.isOpen, ?_⟩, ?_, ?_, hg⟩
      · simp only [ho, hq]
        exact hm.writer
      · rw [← hs]
        simp [stream, hq]
      · rw [← hb, hq]
  | write _ step ih =>
      obtain ⟨hm, hs, hb, hg⟩ := ih
      obtain ⟨hn, hstream, hq, hbatch⟩ := working_advance hm step
      refine ⟨hn, hstream ▸ hs, ?_, fun g hmem => ?_⟩
      · rw [← hb, ← hq]
        simp
      · cases List.mem_append.1 hmem with
        | inl hmem => exact hg g hmem
        | inr hmem => exact hbatch g hmem
  | @read mid sent batches taken _ n ih =>
      obtain ⟨hm, hs, hb, hg⟩ := ih
      refine ⟨⟨hm.isOpen, hm.writer⟩, ?_, hb, hg⟩
      have hbytes := mid.pipe.bytes_read n
      rw [← hs, stream, stream, ← hbytes]
      simp only [List.append_assoc]

theorem limit_of_advance? (h : o.advance? senders = some next) :
    next.pipe.limit = o.pipe.limit := by
  unfold advance? at h
  split at h
  · cases h
  · cases h; rfl
  · split at h
    · split at h <;> cases h
      rfl
    · cases h; rfl
  · cases h; rfl
  · split at h
    · cases h; rfl
    · split at h <;> cases h
      rfl

theorem Works.limit (h : o.Works sent batches taken next) : next.pipe.limit = o.pipe.limit := by
  induction h with
  | rest => rfl
  | queue _ _ ih => exact ih
  | line _ _ ih => exact ih
  | write _ step ih => exact (limit_of_advance? step).trans ih
  | read _ _ ih => exact ih

def emptied (o : Outlet) : Outlet :=
  { o with pipe := { o.pipe with bytes := [] } }

theorem works_emptied (o : Outlet) : o.Works [] [] o.pipe.bytes o.emptied := by
  have h := (Works.rest (o := o)).read o.pipe.bytes.length
  simpa [Pipe.read, emptied] using h

theorem works_flush (rest : Bytes) (hw : o.Working) (room : 0 < o.pipe.limit)
    (hr : o.writer = .writing rest) :
    ∃ read last, o.Works [] [] read last ∧ last.Working ∧ last.writer = .idle ∧
      last.pipe.bytes = [] ∧ last.pipe.limit = o.pipe.limit ∧ last.outbox = o.outbox := by
  -- a pipe that has been emptied takes at least one byte more
  induction hn : rest.length using Nat.strongRecOn generalizing o rest with
  | _ n ih =>
    have hempty := works_emptied o
    cases rest with
    | nil =>
        have step : o.emptied.advance? true = some { o.emptied with writer := .idle } := by
          simp [advance?, emptied, hr]
        have h := hempty.write step
        have hb : o.emptied.batch = [] := by simp [batch, emptied, hr]
        rw [hb] at h
        exact ⟨_, _, h, ⟨hw.isOpen, .inl rfl⟩, rfl, rfl, rfl, rfl⟩
    | cons b rest =>
        have step : o.emptied.advance? true = some { o.emptied with
            pipe := (o.emptied.pipe.write (b :: rest)).1
            writer := .writing (o.emptied.pipe.write (b :: rest)).2 } := by
          have hroom : o.pipe.limit ≠ 0 := by omega
          simp [advance?, emptied, hr, hw.isOpen, Pipe.room, hroom]
        have h := hempty.write step
        have hb : o.emptied.batch = [] := by simp [batch, emptied, hr]
        rw [hb] at h
        have hlt : (o.emptied.pipe.write (b :: rest)).2.length < n := by
          simp only [Pipe.write, Pipe.room, emptied, List.length_drop, List.length_nil, ← hn,
            List.length_cons]
          omega
        obtain ⟨read, last, hlast, hwork, hidle, hbytes, hlimit, hbox⟩ :=
          ih _ hlt (o := { o.emptied with
            pipe := (o.emptied.pipe.write (b :: rest)).1
            writer := .writing (o.emptied.pipe.write (b :: rest)).2 }) _
            ⟨hw.isOpen, .inr (.inl ⟨_, rfl⟩)⟩ room rfl rfl
        exact ⟨_, last, h.trans hlast, hwork, hidle, hbytes, hlimit, hbox⟩

theorem takes_batch (hi : o.writer = .idle) (hq : o.outbox.queue ≠ []) :
    o.Works [] [o.outbox.queue.take Writer.batchLimit] [] o.takeBatch := by
  have hq : o.outbox.queue.isEmpty = false := by simpa using hq
  have step : o.advance? true = some o.takeBatch := by simp [advance?, hi, hq]
  have h := (Works.rest (o := o)).write step
  have hb : o.batch = [o.outbox.queue.take Writer.batchLimit] := by simp [batch, hi, hq]
  rwa [hb] at h

theorem Working.takeBatch (hw : o.Working) : o.takeBatch.Working :=
  ⟨hw.isOpen, .inr (.inl ⟨_, rfl⟩)⟩

theorem works_done (hw : o.Working) (room : 0 < o.pipe.limit) :
    ∃ more read last, o.Works [] more read last ∧ last.IsDone := by
  -- the batch at hand comes first, and then the queue grows shorter with every batch
  have idle : ∀ (n : Nat) (o : Outlet), o.Working → 0 < o.pipe.limit → o.writer = .idle →
      o.outbox.queue.length = n → ∃ more read last, o.Works [] more read last ∧ last.IsDone := by
    intro n
    induction n using Nat.strongRecOn with
    | _ n ih =>
      intro o hw room hi hn
      by_cases hq : o.outbox.queue = []
      · exact ⟨[], [], o, .rest, hq, by rw [hi]; rfl⟩
      · have hb := takes_batch hi hq
        obtain ⟨read, mid, hflush, hmid, hidle, -, hlimit, hbox⟩ :=
          works_flush _ hw.takeBatch room rfl
        have hlt : mid.outbox.queue.length < n := by
          have : o.outbox.queue.length ≠ 0 := by simpa using hq
          rw [hbox]
          simp only [Outlet.takeBatch, List.length_drop, Writer.batchLimit]
          omega
        obtain ⟨more, bytes, last, hlast, hd⟩ :=
          ih _ hlt mid hmid (by rw [hlimit]; exact room) hidle rfl
        exact ⟨_, _, last, (hb.trans hflush).trans hlast, hd⟩
  rcases hw.writer with hi | ⟨rest, hr⟩ | ⟨hs, -, hq⟩
  · exact idle _ o hw room hi rfl
  · obtain ⟨read, mid, hflush, hmid, hidle, -, hlimit, -⟩ := works_flush rest hw room hr
    obtain ⟨more, bytes, last, hlast, hd⟩ := idle _ mid hmid (by rw [hlimit]; exact room) hidle rfl
    exact ⟨_, _, last, hflush.trans hlast, hd⟩
  · exact ⟨[], [], o, .rest, hq, by rw [hs]; rfl⟩

structure Calm (o : Outlet) : Prop where
  working : o.Working
  idle : o.writer = .idle
  queue : o.outbox.queue = []
  isOpen : o.outbox.isOpen = true
  waiting : o.outbox.waiting = []
  capacity : Writer.batchLimit ≤ o.outbox.capacity
  room : 0 < o.pipe.limit

theorem works_queue (hopen : o.outbox.isOpen = true) (hwait : o.outbox.waiting = [])
    (hroom : o.outbox.queue.length + frames.length ≤ o.outbox.capacity) :
    o.Works frames [] []
      { o with outbox := { o.outbox with queue := o.outbox.queue ++ frames } } := by
  induction frames generalizing o with
  | nil => simpa using Works.rest (o := o)
  | cons f rest ih =>
      simp only [List.length_cons] at hroom
      have hpost : o.outbox.post f = (o.outbox.enqueue f, .ok ()) := by
        have : 0 < o.outbox.room := by
          simp only [Outbox.room]
          omega
        simp [Outbox.post, hopen, Outbox.hasRoom, hwait, this]
      have hfirst := (Works.rest (o := o)).queue (.posted hpost)
      have hrest := ih (o := { o with outbox := o.outbox.enqueue f }) hopen hwait (by
        simp only [Outbox.enqueue, List.length_append, List.length_singleton]
        omega)
      have h := hfirst.trans hrest
      simpa [Outbox.enqueue] using h

theorem Calm.works_group (hc : o.Calm) {group : List Frame} (hg : IsBatch group) :
    ∃ read last, o.Works group [group] read last ∧ last.Calm := by
  have hqueued : o.Works group [] [] _ := works_queue hc.isOpen hc.waiting (by
    have := hc.capacity
    have := hg.2
    rw [hc.queue, List.length_nil]
    omega)
  rw [hc.queue, List.nil_append] at hqueued
  have hbatch := takes_batch (o := { o with outbox := { o.outbox with queue := group } }) hc.idle hg.1
  rw [List.take_of_length_le hg.2] at hbatch
  have hw : Working { o with outbox := { o.outbox with queue := group } } :=
    ⟨hc.working.isOpen, .inl hc.idle⟩
  obtain ⟨read, last, hflush, hlast, hidle, -, hlimit, hbox⟩ :=
    works_flush _ hw.takeBatch hc.room rfl
  refine ⟨read, last, by simpa using (hqueued.trans hbatch).trans hflush, ?_⟩
  refine ⟨hlast, hidle, ?_, ?_, ?_, ?_, ?_⟩
  · rw [hbox]
    exact List.drop_of_length_le hg.2
  · rw [hbox]; exact hc.isOpen
  · rw [hbox]; exact hc.waiting
  · rw [hbox]; exact hc.capacity
  · rw [hlimit]; exact hc.room

theorem Calm.works_groups (hc : o.Calm) {groups : List (List Frame)} (hg : ∀ g ∈ groups, IsBatch g) :
    ∃ read last, o.Works groups.flatten groups read last ∧ last.Calm := by
  induction groups generalizing o with
  | nil => exact ⟨[], o, .rest, hc⟩
  | cons g rest ih =>
      obtain ⟨read, mid, hfirst, hmid⟩ := hc.works_group (hg g List.mem_cons_self)
      obtain ⟨others, last, hrest, hlast⟩ := ih hmid fun x hx => hg x (List.mem_cons_of_mem _ hx)
      exact ⟨_, last, hfirst.trans hrest, hlast⟩

theorem working_empty (capacity patience room : Nat) :
    (empty (.empty capacity patience) (.empty room)).Working :=
  ⟨rfl, .inl rfl⟩

theorem calm_empty {capacity room : Nat} (hc : Writer.batchLimit ≤ capacity) (hr : 0 < room)
    (patience : Nat) : (empty (.empty capacity patience) (.empty room)).Calm where
  working := working_empty ..
  idle := rfl
  queue := rfl
  isOpen := rfl
  waiting := rfl
  capacity := Nat.le_trans hc (Nat.le_max_left ..)
  room := hr

theorem stream_of_isDone (hd : o.IsDone) : o.stream = o.pipe.bytes := by
  rw [stream, hd.1, hd.2, List.flatMap_nil, List.append_nil, List.append_nil]

theorem Calm.isDone (hc : o.Calm) : o.IsDone :=
  ⟨hc.queue, by rw [hc.idle]; rfl⟩

theorem Works.of_empty {capacity patience room : Nat}
    (h : (empty (.empty capacity patience) (.empty room)).Works sent batches taken o)
    (hd : o.IsDone) : batches.flatten = sent ∧ taken ++ o.pipe.bytes = sent.flatMap Frame.encode := by
  obtain ⟨-, hs, hb, -⟩ := h.keeps (working_empty capacity patience room)
  rw [hd.1, List.append_nil] at hb
  rw [stream_of_isDone hd] at hs
  exact ⟨hb, hs⟩

theorem frames_arrive {limit : UInt32} {frames : List Frame}
    (regular : ∀ f ∈ frames, f.Regular limit) (capacity patience room : Nat) :
    (∀ batches taken o,
      (empty (.empty capacity patience) (.empty room)).Works frames batches taken o →
        (∀ g ∈ batches, IsBatch g) ∧
        (o.IsDone → batches.flatten = frames ∧
          taken ++ o.pipe.bytes = frames.flatMap Frame.encode ∧
          ∀ fragments : List Bytes, fragments.flatten = taken ++ o.pipe.bytes →
            ∃ answers : List (List Frame),
              (FrameBuffer.empty limit).feed fragments =
                (FrameBuffer.empty limit, answers.map .ok) ∧ answers.flatten = frames) ∧
        (0 < room → ∃ more read last, o.Works [] more read last ∧ last.IsDone)) ∧
    ∀ groups : List (List Frame), (∀ g ∈ groups, IsBatch g) → groups.flatten = frames →
      Writer.batchLimit ≤ capacity → 0 < room →
        ∃ taken o, (empty (.empty capacity patience) (.empty room)).Works frames groups taken o ∧
          o.IsDone := by
  refine ⟨fun batches taken o hrun => ⟨?batches, fun done => ?arrive, fun hroom => ?done⟩,
    fun groups hgroups hframes hcapacity hroom => ?groups⟩
  case batches => exact (hrun.keeps (working_empty ..)).2.2.2
  case arrive =>
    obtain ⟨hbatches, hbytes⟩ := hrun.of_empty done
    refine ⟨hbatches, hbytes, fun fragments hcut => ?_⟩
    have hwhole := FrameBuffer.Drains.whole (fun f hf => (regular f hf).passes) []
    rw [List.append_nil, ← hbytes, ← hcut] at hwhole
    exact FrameBuffer.feed_of_drains (FrameBuffer.stuck_empty limit) hwhole
      (FrameBuffer.stuck_empty limit)
  case done =>
    obtain ⟨hw, -⟩ := hrun.keeps (working_empty ..)
    exact works_done hw (by rw [hrun.limit]; exact hroom)
  case groups =>
    obtain ⟨taken, last, hrun, hlast⟩ := (calm_empty hcapacity hroom patience).works_groups hgroups
    exact ⟨taken, last, hframes ▸ hrun, hlast.isDone⟩

theorem frames_arrive_bytewise :
    (∀ f ∈ [Frame.ofKind .request 9 [0x08, 0x01], Frame.ofKind .response 10 []],
        f.Regular FrameBuffer.defaultLimit) ∧
      ∃ taken o, (empty (.empty 64 0) (.empty 1)).Works
          [.ofKind .request 9 [0x08, 0x01], .ofKind .response 10 []]
          [[.ofKind .request 9 [0x08, 0x01]], [.ofKind .response 10 []]] taken o ∧
        ∃ answers : List (List Frame),
          (FrameBuffer.empty FrameBuffer.defaultLimit).feed
              ((taken ++ o.pipe.bytes).map fun b => [b]) =
            (FrameBuffer.empty FrameBuffer.defaultLimit, answers.map .ok) ∧
          answers.flatten = [.ofKind .request 9 [0x08, 0x01], .ofKind .response 10 []] := by
  have regular : ∀ f ∈ [Frame.ofKind .request 9 [0x08, 0x01], Frame.ofKind .response 10 []],
      f.Regular FrameBuffer.defaultLimit := by
    intro f hf
    simp only [List.mem_cons, List.not_mem_nil, or_false] at hf
    rcases hf with rfl | rfl
    · exact .mk (FrameKind.ofFlags?_flags .request) (by decide) (by decide)
    · exact .mk (FrameKind.ofFlags?_flags .response) (by decide) (by decide)
  obtain ⟨hruns, hgroups⟩ := frames_arrive regular 64 0 1
  obtain ⟨taken, o, hrun, hdone⟩ :=
    hgroups [[.ofKind .request 9 [0x08, 0x01]], [.ofKind .response 10 []]]
      (by simp [IsBatch, Writer.batchLimit]) rfl (by decide) (by decide)
  obtain ⟨-, -, harrive⟩ := (hruns _ _ _ hrun).2.1 hdone
  exact ⟨regular, taken, o, hrun, harrive _ (by rw [← List.flatMap_def, List.flatMap_singleton'])⟩

end Outlet

end SchemaRpc

import SchemaRpc.Outbox

namespace SchemaRpc.Outbox

def Refuses (e : Error) : Prop :=
  e = .connectionClosed ∨ e = .backpressureTimeout

inductive Offered (o : Outbox) (ticket : Nat) (frame : Frame) : Outbox × Offer → Prop
  | queued : Offered o ticket frame (o.enqueue frame, .queued)
  | waits (deadline : Nat) : Offered o ticket frame
      ({ o with waiting := o.waiting ++ [⟨ticket, frame, deadline⟩] }, .waits)
  | refused (e : Error) (cause : Refuses e) : Offered o ticket frame (o, .refused e)

theorem offered (o : Outbox) (ticket : Nat) (frame : Frame) (now : Nat) :
    o.Offered ticket frame (o.offer ticket frame now) := by
  unfold offer
  split
  · exact .refused _ (.inl rfl)
  · split
    · exact .queued
    · split
      · exact .refused _ (.inr rfl)
      · exact .waits _

theorem posted (o : Outbox) (frame : Frame) :
    ∃ frames, (∀ f ∈ frames, f = frame) ∧ (o.post frame).1.queue = o.queue ++ frames ∧
      (o.post frame).1.waiting = o.waiting := by
  unfold post
  split
  · exact ⟨[], nofun, (List.append_nil _).symm, rfl⟩
  · split
    · exact ⟨[frame], fun f hf => List.mem_singleton.1 hf, rfl, rfl⟩
    · exact ⟨[], nofun, (List.append_nil _).symm, rfl⟩

inductive Resumed (o : Outbox) (w : Waiter) : Except Error Unit × Outbox → Prop
  | queued : Resumed o w (.ok (), (o.withdraw w.ticket).enqueue w.frame)
  | refused (e : Error) (cause : Refuses e) : Resumed o w (.error e, o.withdraw w.ticket)

theorem resumed {o : Outbox} {ticket now : Nat} {answer : Except Error Unit × Outbox}
    (h : o.resume? ticket now = some answer) :
    ∃ w ∈ o.waiting, w.ticket = ticket ∧ o.Resumed w answer := by
  obtain ⟨w, hw, ha⟩ := Option.map_eq_some_iff.1 h
  have ht := List.find?_some hw
  simp only [Bool.and_eq_true, beq_iff_eq] at ht
  refine ⟨w, List.mem_of_find?_eq_some hw, ht.1, ?_⟩
  rw [← ha, Outbox.answer]
  split
  · exact .refused _ (.inl rfl)
  · split
    · exact .queued
    · exact .refused _ (.inr rfl)

theorem mem_withdraw {o : Outbox} {ticket : Nat} {w : Waiter} :
    w ∈ (o.withdraw ticket).waiting ↔ w ∈ o.waiting ∧ w.ticket ≠ ticket := by
  simp [withdraw]

end SchemaRpc.Outbox

import SchemaRpc.Proofs.Transport.Network
import SchemaRpc.Proofs.Transport.Telling

namespace SchemaRpc

namespace Session

variable {s s' : Session}

theorem ids_refuse (s : Session) (k : Nat) (e : Error) : (s.refuse k e).ids = s.ids := by
  unfold refuse
  split
  · rfl
  · exact ids_modifyCall _ _ fun _ => rfl

theorem ids_dropGuard (s : Session) (k : Nat) : (s.dropGuard k).ids = s.ids := by
  unfold dropGuard
  split
  · rfl
  · split
    · rfl
    · simp only
      split
      · exact ids_modifyCall s k fun _ => rfl
      · exact ids_modifyCall s k fun _ => rfl

theorem ids_giveBack (s : Session) (k : Nat) (result : Except Error Bytes) :
    (s.giveBack k result).ids = s.ids := by
  refine .trans ?_ (s.ids_dropGuard k)
  exact ids_modifyCall _ _ fun _ => rfl

theorem ids_failPending (s : Session) : s.failPending.ids = s.ids := by
  rw [failPending_eq]
  exact ids_of_bare (bare_tellAll _ _ s)

theorem ids_register (s : Session) (style : Style) (route : String) (request : Bytes) :
    s.ids <+: (s.register style route request).ids := by
  unfold register
  split
  · exact (List.prefix_append _ _).map _
  · split
    · exact List.prefix_refl _
    · exact (List.prefix_append _ _).map _

theorem ids_endInput (s : Session) : s.endInput.ids = s.ids := by
  unfold endInput
  split
  · rw [ids_failPending]
    rfl
  · rfl

theorem Step.ids_isPrefix (h : s.Step s') : s.ids <+: s'.ids := by
  have hsame : s'.ids = s.ids → s.ids <+: s'.ids := fun he => he ▸ List.prefix_refl _
  cases h with
  | register style path request => exact s.ids_register style path.route request
  | post k now =>
      refine hsame ?_
      unfold Session.post
      split
      · rfl
      · split
        · simp only
          split
          · exact ids_modifyCall _ _ fun _ => rfl
          · exact ids_modifyCall _ _ fun _ => rfl
          · exact ids_refuse _ _ _
        · rfl
  | resumeSending k now =>
      refine hsame ?_
      unfold Session.resumeSending
      split
      · rfl
      · exact ids_modifyCall _ _ fun _ => rfl
      · exact ids_refuse _ _ _
  | resume k =>
      refine hsame ?_
      unfold Session.resume
      split
      · rfl
      · split
        · exact ids_giveBack _ _ _
        · exact ids_giveBack _ _ _
        · split
          · rfl
          · exact ids_giveBack _ _ _
        · rfl
  | dropReceiver k c found held => exact hsame (ids_modifyCall _ _ fun _ => rfl)
  | dropGuard k c found held unheard => exact hsame (ids_dropGuard s k)
  | drop k =>
      refine hsame ?_
      unfold Session.drop
      split
      · rfl
      · rfl
      · rfl
      · refine .trans ?_ (((s.dropReceiver k).ids_dropGuard k).trans ?_)
        · exact ids_modifyCall _ _ fun _ => rfl
        · exact ids_modifyCall _ _ fun _ => rfl
      · refine .trans ?_ ((s.withdraw k).ids_dropGuard k)
        exact ids_modifyCall _ _ fun _ => rfl
  | close => exact hsame (ids_failPending _)
  | abandon => exact List.prefix_refl _
  | endInput => exact hsame (ids_endInput s)

theorem ids_read (s : Session) (data : Bytes) : (s.read data).1.ids = s.ids := by
  unfold read
  split
  · split
    · rfl
    · exact ids_endInput _
  · rfl

end Session

namespace Network

variable {n next : Network} {routers : Nat → Router}

structure Grows (n next : Network) : Prop where
  ids : n.session.ids <+: next.session.ids
  sent : n.sent <+: next.sent
  replied : n.replied <+: next.replied

theorem Step.grows (h : n.Step routers next) : n.Grows next := by
  cases h with
  | session step => exact ⟨step.ids_isPrefix, List.prefix_append _ _, List.prefix_refl _⟩
  | next k found heard took =>
      refine ⟨?_, List.prefix_refl _, List.prefix_refl _⟩
      have hbare := (n.session.bare_next k).1
      rw [took] at hbare
      exact (Session.ids_of_bare hbare).symm ▸ List.prefix_refl _
  | sessionReads size reading =>
      refine ⟨?_, List.prefix_refl _, List.prefix_refl _⟩
      exact (Session.ids_read _ _).symm ▸ List.prefix_refl _
  | route next =>
      refine ⟨?_, List.prefix_refl _, List.prefix_refl _⟩
      exact (Session.ids_of_bare (Session.bare_route _ _).1).symm ▸ List.prefix_refl _
  | task free k now => exact ⟨List.prefix_refl _, List.prefix_refl _, List.prefix_append _ _⟩
  | _ => exact ⟨List.prefix_refl _, List.prefix_refl _, List.prefix_refl _⟩

end Network

end SchemaRpc

import SchemaRpc.Proofs.Transport.Network

namespace SchemaRpc.Network

inductive Move where
  | register (style : Style) (path : MethodPath) (request : Bytes)
  | post (k now : Nat)
  | resumeSending (k now : Nat)
  | resume (k : Nat)
  | next (k : Nat)
  | sessionWrites
  | serverReads (size : Nat)
  | dispatch (free : Nat)
  | task (free k now : Nat)
  | serverWrites
  | sessionReads (size : Nat)
  | route

variable {routers : Nat → Router} {limit : UInt32}

def move? (routers : Nat → Router) (n : Network) : Move → Option Network
  | .register style path request => some (n.withSession (n.session.register style path.route request))
  | .post k now => some (n.withSession (n.session.post k now))
  | .resumeSending k now => some (n.withSession (n.session.resumeSending k now))
  | .resume k => some (n.withSession (n.session.resume k))
  | .next k =>
    match n.session.calls[k]?, n.session.next k with
    | some c, (s, .item item) =>
      if c.isHeard then some { n with session := s, taken := n.taken ++ [(k, item)] } else none
    | _, _ => none
  | .sessionWrites => (n.session.outlet.advance? n.session.hasSenders).map n.withRequests
  | .serverReads size => if n.connection.isServing then some (n.serverReads size) else none
  | .dispatch free =>
    match n.arrived with
    | f :: rest => some (n.dispatch (routers n.runs.length) free f rest)
    | [] => none
  | .task free k now => some (n.withConnection (n.connection.runTask free k now).1)
  | .serverWrites => (n.connection.outlet.advance? n.connection.hasSenders).map n.withReplies
  | .sessionReads size => if n.session.isReading then some (n.sessionReads size) else none
  | .route =>
    match n.landed with
    | f :: rest => some (n.route f rest)
    | [] => none

def play? (routers : Nat → Router) : List Move → Network → Option Network
  | [], n => some n
  | m :: moves, n => (n.move? routers m).bind (play? routers moves)

theorem step_of_move? {n last : Network} {m : Move} (h : n.move? routers m = some last) :
    n.Step routers last := by
  unfold move? at h
  cases m with
  | register style path request =>
      cases h
      exact .session (.register style path request)
  | post k now =>
      cases h
      exact .session (.post k now)
  | resumeSending k now =>
      cases h
      exact .session (.resumeSending k now)
  | resume k =>
      cases h
      exact .session (.resume k)
  | next k =>
      simp only at h
      split at h
      · next hc took =>
          split at h
          · next heard =>
              cases h
              exact .next k hc heard took
          · cases h
      · cases h
  | sessionWrites =>
      obtain ⟨o, ho, rfl⟩ := Option.map_eq_some_iff.1 h
      exact .sessionWrites ho
  | serverReads size =>
      simp only at h
      split at h
      · next serving =>
          cases h
          exact .serverReads size serving
      · cases h
  | dispatch free =>
      simp only at h
      split at h
      · next arrived =>
          cases h
          exact .dispatch free arrived
      · cases h
  | task free k now =>
      cases h
      exact .task free k now
  | serverWrites =>
      obtain ⟨o, ho, rfl⟩ := Option.map_eq_some_iff.1 h
      exact .serverWrites ho
  | sessionReads size =>
      simp only at h
      split at h
      · next reading =>
          cases h
          exact .sessionReads size reading
      · cases h
  | route =>
      simp only at h
      split at h
      · next landed =>
          cases h
          exact .route landed
      · cases h

theorem Reachable.play {moves : List Move} {n last : Network} (h : Reachable routers limit n)
    (played : play? routers moves n = some last) : Reachable routers limit last := by
  induction moves generalizing n with
  | nil =>
      cases played
      exact h
  | cons m moves ih =>
      obtain ⟨middle, hm, hrest⟩ := Option.bind_eq_some_iff.1 played
      exact ih (h.step (step_of_move? hm)) hrest

theorem Reachable.exists_of_play {moves : List Move} {n : Network} {test : Network → Bool}
    (h : Reachable routers limit n) (passes : (play? routers moves n).any test = true) :
    ∃ last, Reachable routers limit last ∧ test last = true := by
  obtain ⟨last, played, ht⟩ := (Option.any_eq_true _ _).1 passes
  exact ⟨last, h.play played, ht⟩

end SchemaRpc.Network

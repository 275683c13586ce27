import Mathlib.Data.List.Basic
import SchemaRpc.Stub

namespace SchemaRpc.Stub

variable {σ τ : Type}

section Runs

variable {α β : Type}

theorem run_mapM_cons (f : α → StateM σ β) (a : α) (l : List α) (world : σ) :
    ((a :: l).mapM f).run world = (((f a).run world).1 :: ((l.mapM f).run ((f a).run world).2).1,
      ((l.mapM f).run ((f a).run world).2).2) := by
  rw [List.mapM_cons]
  rfl

theorem length_mapM_run (f : α → StateM σ β) (l : List α) (world : σ) :
    ((l.mapM f).run world).1.length = l.length := by
  induction l generalizing world with
  | nil => rfl
  | cons a l ih => rw [run_mapM_cons, List.length_cons, List.length_cons, ih]

end Runs

section FirstUses

def newUses : List String → List String → List String
  | _, [] => []
  | seen, a :: rest => if a ∈ seen then newUses seen rest else a :: newUses (seen ++ [a]) rest

structure FirstUses (used made : List String) : Prop where
  mem : ∀ a, a ∈ made ↔ a ∈ used
  ordered : made.Pairwise fun a b => used.idxOf a < used.idxOf b

variable {used made : List String} {a : String}

theorem FirstUses.ordered_append (h : FirstUses used made) (a : String) :
    made.Pairwise fun b c => (used ++ [a]).idxOf b < (used ++ [a]).idxOf c := by
  refine h.ordered.imp_of_mem fun hb hc before => ?_
  rwa [List.idxOf_append_of_mem ((h.mem _).1 hb), List.idxOf_append_of_mem ((h.mem _).1 hc)]

theorem FirstUses.again (h : FirstUses used made) (known : a ∈ made) :
    FirstUses (used ++ [a]) made where
  mem b := by
    have : b = a → b ∈ used := fun e => e ▸ (h.mem a).1 known
    simpa [h.mem b] using this
  ordered := h.ordered_append a

theorem FirstUses.fresh (h : FirstUses used made) (new : a ∉ made) :
    FirstUses (used ++ [a]) (made ++ [a]) where
  mem b := by simp [h.mem b]
  ordered := by
    refine List.pairwise_append.2 ⟨h.ordered_append a, List.pairwise_singleton _ _, ?_⟩
    intro b hb c hc
    have old : b ∈ used := (h.mem b).1 hb
    have absent : a ∉ used := fun ha => new ((h.mem a).2 ha)
    rw [List.mem_singleton.1 hc, List.idxOf_append_of_mem old, List.idxOf_append_of_notMem absent]
    exact Nat.lt_add_right _ (List.idxOf_lt_length_of_mem old)

theorem firstUses_append (h : FirstUses used made) (rest : List String) :
    FirstUses (used ++ rest) (made ++ newUses made rest) := by
  induction rest generalizing used made with
  | nil => simpa [newUses] using h
  | cons a rest ih =>
      rw [newUses, List.append_cons]
      split
      · next known => exact ih (h.again known)
      · next new => simpa using ih (h.fresh new)

end FirstUses

section Building

def addresses (selector : ServiceSelector) (endpoints : Endpoints) : List String :=
  newUses [] (selector.toList.map endpoints.address)

theorem firstUses_addresses (selector : ServiceSelector) (endpoints : Endpoints) :
    FirstUses (selector.toList.map endpoints.address) (addresses selector endpoints) := by
  have nothing : FirstUses [] [] := ⟨fun _ => .rfl, .nil⟩
  exact firstUses_append nothing _

example : addresses ⟨true, true, true⟩ ⟨"b", "a", "b"⟩ = ["b", "a"] := by decide

theorem connectGroups_eq (connector : String → StateM σ τ) (wanted : List String)
    (made : List (String × τ)) :
    connectGroups connector wanted made = do
      let transports ← (newUses (made.map (·.1)) wanted).mapM connector
      return made ++ (newUses (made.map (·.1)) wanted).zip transports := by
  induction wanted generalizing made with
  | nil => simp [connectGroups, newUses]
  | cons a wanted ih =>
      have known : made.any (·.1 == a) = decide (a ∈ made.map (·.1)) := by
        rw [Bool.eq_iff_iff]
        simp
      rw [connectGroups, newUses, known]
      by_cases h : a ∈ made.map (·.1)
      · simpa [h] using ih made
      · simp [h, ih]

theorem build_eq (connector : String → StateM σ τ) (selector : ServiceSelector)
    (endpoints : Endpoints) :
    build connector selector endpoints = do
      let transports ← (addresses selector endpoints).mapM connector
      return ⟨selector, endpoints, (addresses selector endpoints).zip transports⟩ := by
  simp [build, connectGroups_eq, addresses]

end Building

section Bindings

variable {s : Stub τ} {transports : List τ} {g h : ServiceGroup}

theorem mem_addresses {selector : ServiceSelector} {endpoints : Endpoints}
    (wanted : selector.contains g = true) : endpoints.address g ∈ addresses selector endpoints := by
  rw [(firstUses_addresses selector endpoints).mem]
  refine List.mem_map_of_mem (List.mem_filter.2 ⟨?_, wanted⟩)
  cases g <;> decide

theorem lt_length_addresses {selector : ServiceSelector} (endpoints : Endpoints)
    (wanted : selector.contains g = true) :
    (addresses selector endpoints).idxOf (endpoints.address g) < (addresses selector endpoints).length :=
  List.idxOf_lt_length_of_mem (mem_addresses wanted)

section Made

variable (made : s.connections = (addresses s.selector s.endpoints).zip transports)
  (length : transports.length = (addresses s.selector s.endpoints).length)

include made length

theorem place_eq (wanted : s.selector.contains g = true) :
    (s.connections.findIdx? fun c => c.1 == s.endpoints.address g) =
      some ((addresses s.selector s.endpoints).idxOf (s.endpoints.address g)) := by
  have firsts : s.connections.map (·.1) = addresses s.selector s.endpoints := by
    rw [made, List.map_fst_zip (Nat.le_of_eq length.symm)]
  have first : (addresses s.selector s.endpoints).idxOf (s.endpoints.address g) =
      s.connections.findIdx fun c => c.1 == s.endpoints.address g := by
    rw [← firsts, List.idxOf, List.findIdx_map]
    rfl
  refine List.findIdx?_eq_some_iff_findIdx_eq.2 ⟨?_, first.symm⟩
  rw [made, List.length_zip, length, Nat.min_self]
  exact lt_length_addresses s.endpoints wanted

theorem bindingOf_eq (wanted : s.selector.contains g = true) :
    s.bindingOf g = .connection ((addresses s.selector s.endpoints).idxOf (s.endpoints.address g)) := by
  rw [bindingOf, if_pos wanted, place_eq made length wanted]

theorem shares_iff (wantedG : s.selector.contains g = true) (wantedH : s.selector.contains h = true) :
    s.shares g h = true ↔ s.endpoints.address g = s.endpoints.address h := by
  rw [shares, decide_eq_true_iff, bindingOf_eq made length wantedG, bindingOf_eq made length wantedH,
    Binding.connection.injEq, List.idxOf_inj (mem_addresses wantedG)]

end Made

theorem bindingOf_unwanted (unwanted : s.selector.contains g = false) : s.bindingOf g = .disabled := by
  rw [bindingOf, if_neg (by simp [unwanted])]

theorem transport_eq {s : Stub (Transport σ)} {transports : List (Transport σ)}
    (made : s.connections = (addresses s.selector s.endpoints).zip transports)
    (length : transports.length = (addresses s.selector s.endpoints).length)
    (wanted : s.selector.contains g = true) :
    transports[(addresses s.selector s.endpoints).idxOf (s.endpoints.address g)]? =
      some (s.transport g) := by
  have inside := lt_length_addresses s.endpoints wanted
  rw [← length] at inside
  have pair : s.connections[(addresses s.selector s.endpoints).idxOf (s.endpoints.address g)]? =
      some (s.endpoints.address g, transports[(addresses s.selector s.endpoints).idxOf
        (s.endpoints.address g)]) := by
    rw [made, List.getElem?_zip_eq_some]
    exact ⟨List.getElem?_idxOf (mem_addresses wanted), List.getElem?_eq_getElem inside⟩
  rw [transport, bindingOf_eq made length wanted]
  simp only [pair, Option.map_some, Option.getD_some]
  exact List.getElem?_eq_getElem inside

theorem transport_unwanted {s : Stub (Transport σ)} (unwanted : s.selector.contains g = false) :
    s.transport g = .disabled := by
  rw [transport, bindingOf_unwanted unwanted]

structure Refuses (t : Transport σ) : Prop where
  unary : ∀ path request, t.unary path request = pure (.error (.serviceDisabled path.service))
  serverStreaming : ∀ path request,
    t.serverStreaming path request = pure (.error (.serviceDisabled path.service))
  call : ∀ {Req Resp : Type} [Typed Req] [Typed Resp] (m : UnaryMethod Req Resp) request,
    t.call m request = pure (.error (.serviceDisabled m.path.service))
  stream : ∀ {Req Resp : Type} [Typed Req] [Typed Resp] (m : StreamingMethod Req Resp) request,
    t.stream m request = pure (.error (.serviceDisabled m.path.service))

theorem refuses_disabled : Refuses (Transport.disabled : Transport σ) where
  unary _ _ := rfl
  serverStreaming _ _ := rfl
  call _ _ := rfl
  stream _ _ := rfl

structure Bound (s : Stub (Transport σ)) (transports : List (Transport σ)) : Prop where
  wanted : ∀ g, s.selector.contains g = true → ∃ i : Nat, s.bindingOf g = .connection i ∧
    (addresses s.selector s.endpoints)[i]? = some (s.endpoints.address g) ∧
    transports[i]? = some (s.transport g)
  shared : ∀ g h, s.selector.contains g = true → s.selector.contains h = true →
    (s.shares g h = true ↔ s.endpoints.address g = s.endpoints.address h)
  unwanted : ∀ g, s.selector.contains g = false →
    s.bindingOf g = .disabled ∧ s.transport g = .disabled

theorem bound_of_made {s : Stub (Transport σ)} {transports : List (Transport σ)}
    (made : s.connections = (addresses s.selector s.endpoints).zip transports)
    (length : transports.length = (addresses s.selector s.endpoints).length) :
    Bound s transports where
  wanted _ wanted := ⟨_, bindingOf_eq made length wanted, List.getElem?_idxOf (mem_addresses wanted),
    transport_eq made length wanted⟩
  shared _ _ := shares_iff made length
  unwanted _ unwanted := ⟨bindingOf_unwanted unwanted, transport_unwanted unwanted⟩

end Bindings

section Uses

inductive Use where
  | connect
  | close
deriving DecidableEq, Repr

def perform (s : Stub (Transport σ)) : Use → StateM σ (Except Error Unit)
  | .connect => s.connect
  | .close => s.close

def firstFailure (outcomes : List (Except Error Unit)) : Except Error Unit :=
  (outcomes.find? fun o => !o.isOk).getD (.ok ())

inductive Served (transports : List (Transport σ)) : Use → σ → Except Error Unit → σ → Prop where
  | connected {world world' : σ} {outcomes : List (Except Error Unit)}
      (asked : (transports.mapM Transport.connect).run world = (outcomes, world'))
      (all : ∀ o ∈ outcomes, o = .ok ()) : Served transports .connect world (.ok ()) world'
  | refused {before after : List (Transport σ)} {t : Transport σ} {world world₁ world' : σ}
      {outcomes : List (Except Error Unit)} {e : Error}
      (split : transports = before ++ t :: after)
      (asked : (before.mapM Transport.connect).run world = (outcomes, world₁))
      (all : ∀ o ∈ outcomes, o = .ok ())
      (fails : t.connect.run world₁ = (.error e, world')) :
      Served transports .connect world (.error e) world'
  | closed {world world' : σ} {outcomes : List (Except Error Unit)}
      (asked : (transports.mapM Transport.close).run world = (outcomes, world')) :
      Served transports .close world (firstFailure outcomes) world'

inductive AllServed (transports : List (Transport σ)) :
    List Use → σ → List (Except Error Unit) → σ → Prop where
  | nil {world : σ} : AllServed transports [] world [] world
  | cons {use : Use} {uses : List Use} {world world₁ world' : σ} {result : Except Error Unit}
      {results : List (Except Error Unit)} (first : Served transports use world result world₁)
      (others : AllServed transports uses world₁ results world') :
      AllServed transports (use :: uses) world (result :: results) world'

variable {transports : List (Transport σ)} {world : σ}

theorem Served.behind {t : Transport σ} {world₁ world' : σ} {result : Except Error Unit}
    (first : t.connect.run world = (.ok (), world₁))
    (others : Served transports .connect world₁ result world') :
    Served (t :: transports) .connect world result world' := by
  cases others with
  | connected asked all =>
      refine .connected ?_ (List.forall_mem_cons.2 ⟨rfl, all⟩)
      rw [run_mapM_cons, first, asked]
  | @refused before _ _ _ _ _ _ _ split asked all fails =>
      have behind : t :: transports = (t :: before) ++ _ := congrArg (t :: ·) split
      refine .refused behind ?_ (List.forall_mem_cons.2 ⟨rfl, all⟩) fails
      rw [run_mapM_cons, first, asked]

theorem served_connectAll (transports : List (Transport σ)) (world : σ) :
    Served transports .connect world ((connectAll transports).run world).1
      ((connectAll transports).run world).2 := by
  induction transports generalizing world with
  | nil => exact .connected (rfl : _ = ([], world)) (List.forall_mem_nil _)
  | cons t transports ih =>
      rw [connectAll, StateT.run_bind]
      cases first : t.connect.run world with | mk outcome world₁ =>
      cases outcome with
      | ok => exact (ih world₁).behind first
      | error e =>
          have foremost : t :: transports = [] ++ t :: transports := rfl
          exact .refused foremost rfl (List.forall_mem_nil _) first

theorem firstFailure_cons (o : Except Error Unit) (outcomes : List (Except Error Unit)) :
    firstFailure (o :: outcomes) = o.bind fun () => firstFailure outcomes := by
  cases o <;> rfl

theorem run_closeAll (transports : List (Transport σ)) (world : σ) :
    (closeAll transports).run world = (firstFailure ((transports.mapM Transport.close).run world).1,
      ((transports.mapM Transport.close).run world).2) := by
  induction transports generalizing world with
  | nil => rfl
  | cons t transports ih =>
      rw [run_mapM_cons, firstFailure_cons, closeAll]
      simp only [StateT.run_bind, ih]
      rfl

theorem served_perform (s : Stub (Transport σ)) (use : Use) (world : σ) :
    Served (s.connections.map (·.2)) use world ((s.perform use).run world).1
      ((s.perform use).run world).2 := by
  cases use with
  | connect => exact served_connectAll _ world
  | close =>
      rw [perform, close, run_closeAll]
      exact .closed rfl

theorem allServed_perform (s : Stub (Transport σ)) (uses : List Use) (world : σ) :
    AllServed (s.connections.map (·.2)) uses world ((uses.mapM s.perform).run world).1
      ((uses.mapM s.perform).run world).2 := by
  induction uses generalizing world with
  | nil => exact .nil
  | cons use uses ih =>
      rw [run_mapM_cons]
      exact .cons (s.served_perform use world) (ih _)

end Uses

theorem lifecycle (connector : String → StateM σ (Transport σ)) (selector : ServiceSelector)
    (endpoints : Endpoints) (world : σ) :
    FirstUses (selector.toList.map endpoints.address) (addresses selector endpoints) ∧
    ∃ transports world',
      ((addresses selector endpoints).mapM connector).run world = (transports, world') ∧
      ∃ s : Stub (Transport σ), (build connector selector endpoints).run world = (s, world') ∧
        s.selector = selector ∧ s.endpoints = endpoints ∧ Bound s transports ∧
        Refuses (Transport.disabled : Transport σ) ∧
        ∀ uses world, AllServed transports uses world ((uses.mapM s.perform).run world).1
          ((uses.mapM s.perform).run world).2 := by
  rcases made : ((addresses selector endpoints).mapM connector).run world with ⟨transports, world'⟩
  have length : transports.length = (addresses selector endpoints).length := by
    rw [← length_mapM_run connector (addresses selector endpoints) world, made]
  let s : Stub (Transport σ) := ⟨selector, endpoints, (addresses selector endpoints).zip transports⟩
  have all : s.connections.map (·.2) = transports := List.map_snd_zip (Nat.le_of_eq length)
  refine ⟨firstUses_addresses selector endpoints, transports, world', rfl, s, ?_, rfl, rfl,
    bound_of_made rfl length, refuses_disabled, fun uses later => all ▸ s.allServed_perform uses later⟩
  rw [build_eq, StateT.run_bind, made]
  rfl

namespace Shared

abbrev Log := List (String × Use)

def transport (address : String) : Transport Log where
  connect := do
    modify ((address, .connect) :: ·)
    return if address = "b" then .error .io else .ok ()
  close := do
    modify ((address, .close) :: ·)
    return if address = "a" then .error .connectionClosed else .ok ()
  unary _ request := pure (.ok request)
  serverStreaming _ request := pure (.ok [.ok request])

def endpoints : Endpoints := ⟨"a", "b", "a"⟩

def transports : List (Transport Log) := [transport "a", transport "b"]

def stub : Stub (Transport Log) := ⟨.all, endpoints, ["a", "b"].zip transports⟩

end Shared

theorem lifecycle_shared :
    Bound Shared.stub Shared.transports ∧ Shared.stub.shares .catalog .lambda = true ∧
      AllServed Shared.transports [.connect, .close] [] [.error .io, .error .connectionClosed]
        [("b", .close), ("a", .close), ("b", .connect), ("a", .connect)] := by
  obtain ⟨-, transports, world, made, s, built, -, -, bound, -, served⟩ :=
    lifecycle (fun address => pure (Shared.transport address)) .all Shared.endpoints []
  obtain rfl : Shared.transports = transports := congrArg Prod.fst made
  obtain rfl : Shared.stub = s := congrArg Prod.fst built
  exact ⟨bound, rfl, served [.connect, .close] []⟩

end SchemaRpc.Stub

import SchemaRpc.Endpoints
import SchemaRpc.Text.Quoted
import SchemaRpc.Transport

namespace SchemaRpc

inductive Binding where
  | disabled
  | connection (index : Nat)
deriving DecidableEq, Repr

structure Stub (τ : Type) where
  selector : ServiceSelector
  endpoints : Endpoints
  connections : List (String × τ)
deriving Repr

namespace Stub

variable {σ τ : Type}

def connectGroups (connector : String → StateM σ τ) :
    List String → List (String × τ) → StateM σ (List (String × τ))
  | [], made => return made
  | address :: rest, made =>
    if made.any (·.1 == address) then connectGroups connector rest made
    else do
      let transport ← connector address
      connectGroups connector rest (made ++ [(address, transport)])

def build (connector : String → StateM σ τ) (selector : ServiceSelector) (endpoints : Endpoints) :
    StateM σ (Stub τ) := do
  let connections ← connectGroups connector (selector.toList.map endpoints.address) []
  return ⟨selector, endpoints, connections⟩

def bindingOf (s : Stub τ) (g : ServiceGroup) : Binding :=
  if s.selector.contains g then
    match s.connections.findIdx? fun c => c.1 == s.endpoints.address g with
    | some index => .connection index
    | none => .disabled
  else .disabled

def shares (s : Stub τ) (g h : ServiceGroup) : Bool :=
  decide (s.bindingOf g = s.bindingOf h)

def transport (s : Stub (Transport σ)) (g : ServiceGroup) : Transport σ :=
  match s.bindingOf g with
  | .disabled => .disabled
  | .connection index => (s.connections[index]?.map (·.2)).getD .disabled

def connectAll : List (Transport σ) → StateM σ (Except Error Unit)
  | [] => return .ok ()
  | t :: rest => do
    match ← t.connect with
    | .ok () => connectAll rest
    | .error e => return .error e

/-- Closes all in order; the first failure is the answer. -/
def closeAll : List (Transport σ) → StateM σ (Except Error Unit)
  | [] => return .ok ()
  | t :: rest => do
    let first ← t.close
    let others ← closeAll rest
    return first.bind fun () => others

def connect (s : Stub (Transport σ)) : StateM σ (Except Error Unit) :=
  connectAll (s.connections.map (·.2))

def close (s : Stub (Transport σ)) : StateM σ (Except Error Unit) :=
  closeAll (s.connections.map (·.2))

def display (s : Stub τ) : String :=
  let selected := ServiceGroup.all.map fun g => toString (s.selector.contains g)
  let addresses := s.connections.map fun c => Quoted.ofString c.1
  "Stub \x7b selector: ServiceSelector \x7b selected: [" ++ ", ".intercalate selected ++
    "] \x7d, connections: [" ++ ", ".intercalate addresses ++ "] \x7d"

end Stub

end SchemaRpc

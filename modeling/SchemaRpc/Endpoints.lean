import SchemaRpc.Error
import SchemaRpc.Json.Parser
import SchemaRpc.Text.Blank

namespace SchemaRpc

inductive ServiceGroup where
  | catalog
  | auth
  | lambda
deriving DecidableEq, Repr

namespace ServiceGroup

def all : List ServiceGroup := [.catalog, .auth, .lambda]

def name : ServiceGroup → String
  | .catalog => "catalog"
  | .auth => "auth"
  | .lambda => "lambda"

def ofName? (name : String) : Option ServiceGroup :=
  all.find? fun g => g.name == name

def variableName : ServiceGroup → String
  | .catalog => "PROTOSTUB_CATALOG_ADDR"
  | .auth => "PROTOSTUB_AUTH_ADDR"
  | .lambda => "PROTOSTUB_LAMBDA_ADDR"

end ServiceGroup

structure Endpoints where
  catalog : String
  auth : String
  lambda : String
deriving DecidableEq, Repr

namespace Endpoints

def defaultAddress : String := "127.0.0.1:50051"

def uniform (address : String) : Endpoints :=
  ⟨address, address, address⟩

instance : Inhabited Endpoints := ⟨uniform defaultAddress⟩

def address (e : Endpoints) : ServiceGroup → String
  | .catalog => e.catalog
  | .auth => e.auth
  | .lambda => e.lambda

def withAddress (e : Endpoints) (g : ServiceGroup) (address : String) : Endpoints :=
  match g with
  | .catalog => { e with catalog := address }
  | .auth => { e with auth := address }
  | .lambda => { e with lambda := address }

/-- A variable's text without blanks around it; a blank one counts as unset. -/
def addressOf (setting : Option String) : String :=
  match setting.map Blank.trim with
  | some address => if address.isEmpty then defaultAddress else address
  | none => defaultAddress

def ofVariables (lookup : String → Option String) : Endpoints :=
  let read (g : ServiceGroup) : String := addressOf (lookup g.variableName)
  ⟨read .catalog, read .auth, read .lambda⟩

/-- Takes a member of an object: an unknown key is passed over, a known one may come once. -/
def absorbMember (state : Endpoints × List ServiceGroup) (member : String × Json) :
    Except Error (Endpoints × List ServiceGroup) :=
  match ServiceGroup.ofName? member.1, member.2 with
  | none, _ => .ok state
  | some g, .string address =>
    if g ∈ state.2 then .error .json else .ok (state.1.withAddress g address, g :: state.2)
  | some _, _ => .error .json

/-- Reads an object, or an array with the addresses in order. What is missing has the default
address; what an unknown key stands for is not read. -/
def ofJsonText (text : String) : Except Error Endpoints :=
  match Json.parseAll? .outermost text with
  | some (.object members) => (members.foldlM absorbMember (default, [])).map (·.1)
  | some (.array items) =>
    if items.length ≤ ServiceGroup.all.length then
      ((ServiceGroup.all.map (·.name)).zip items |>.foldlM absorbMember (default, [])).map (·.1)
    else .error .json
  | _ => .error .json

def toJson (e : Endpoints) : Json :=
  .object (ServiceGroup.all.map fun g => (g.name, .string (e.address g)))

end Endpoints

structure ServiceSelector where
  catalog : Bool
  auth : Bool
  lambda : Bool
deriving DecidableEq, Repr

namespace ServiceSelector

def all : ServiceSelector := ⟨true, true, true⟩

def none : ServiceSelector := ⟨false, false, false⟩

def contains (s : ServiceSelector) : ServiceGroup → Bool
  | .catalog => s.catalog
  | .auth => s.auth
  | .lambda => s.lambda

def update (s : ServiceSelector) (wanted : Bool) : ServiceGroup → ServiceSelector
  | .catalog => { s with catalog := wanted }
  | .auth => { s with auth := wanted }
  | .lambda => { s with lambda := wanted }

def insert (s : ServiceSelector) (g : ServiceGroup) : ServiceSelector := s.update true g

def erase (s : ServiceSelector) (g : ServiceGroup) : ServiceSelector := s.update false g

def ofList (groups : List ServiceGroup) : ServiceSelector :=
  groups.foldl insert none

def toList (s : ServiceSelector) : List ServiceGroup :=
  ServiceGroup.all.filter s.contains

@[simp] theorem contains_insert (s : ServiceSelector) (g h : ServiceGroup) :
    (s.insert g).contains h = (decide (h = g) || s.contains h) := by
  cases g <;> cases h <;> simp [insert, update, contains]

@[simp] theorem contains_erase (s : ServiceSelector) (g h : ServiceGroup) :
    (s.erase g).contains h = (!decide (h = g) && s.contains h) := by
  cases g <;> cases h <;> simp [erase, update, contains]

end ServiceSelector

end SchemaRpc

import SchemaRpc.Typed

namespace SchemaRpc.Auth

inductive AuthStatus where
  | unspecified
  | ok
  | invalidCredentials
  | locked
  | unrecognized
deriving DecidableEq, Repr, Inhabited

namespace AuthStatus

def number : AuthStatus → Int32
  | .unspecified => 0
  | .ok => 1
  | .invalidCredentials => 2
  | .locked => 3
  | .unrecognized => EnumType.unrecognized

def ofNumber (n : Int32) : AuthStatus :=
  if n = 0 then .unspecified
  else if n = 1 then .ok
  else if n = 2 then .invalidCredentials
  else if n = 3 then .locked
  else .unrecognized

def enumType : EnumType :=
  ⟨"auth.AuthStatus", [("AUTH_STATUS_UNSPECIFIED", 0), ("AUTH_STATUS_OK", 1),
    ("AUTH_STATUS_INVALID_CREDENTIALS", 2), ("AUTH_STATUS_LOCKED", 3)]⟩

theorem ofNumber_number (s : AuthStatus) : ofNumber s.number = s := by
  cases s <;> decide

end AuthStatus

inductive RefreshStatus where
  | unspecified
  | ok
  | expired
  | revoked
  | unrecognized
deriving DecidableEq, Repr, Inhabited

namespace RefreshStatus

def number : RefreshStatus → Int32
  | .unspecified => 0
  | .ok => 1
  | .expired => 2
  | .revoked => 3
  | .unrecognized => EnumType.unrecognized

def ofNumber (n : Int32) : RefreshStatus :=
  if n = 0 then .unspecified
  else if n = 1 then .ok
  else if n = 2 then .expired
  else if n = 3 then .revoked
  else .unrecognized

def enumType : EnumType :=
  ⟨"auth.RefreshStatus", [("REFRESH_STATUS_UNSPECIFIED", 0), ("REFRESH_STATUS_OK", 1),
    ("REFRESH_STATUS_EXPIRED", 2), ("REFRESH_STATUS_REVOKED", 3)]⟩

theorem ofNumber_number (s : RefreshStatus) : ofNumber s.number = s := by
  cases s <;> decide

end RefreshStatus

def schema : Schema := ⟨[
  ⟨"auth.AuthenticateRequest", [
    .text "username" "username" 1,
    .text "password" "password" 2]⟩,
  ⟨"auth.AuthenticateResponse", [
    .single "status" "status" 1 (.enumeration AuthStatus.enumType),
    .text "token" "token" 2,
    .single "expires_at" "expiresAt" 3 .timestamp]⟩,
  ⟨"auth.RefreshTokenRequest", [
    .text "token" "token" 1]⟩,
  ⟨"auth.RefreshTokenResponse", [
    .single "status" "status" 1 (.enumeration RefreshStatus.enumType),
    .text "token" "token" 2,
    .single "expires_at" "expiresAt" 3 .timestamp]⟩,
  ⟨"auth.Policy", [
    .text "namespace" "namespace" 1,
    .text "name" "name" 2,
    (Field.nested "catalog_rule" "catalogRule" 3 "auth.CatalogRule").inGroup "rule",
    (Field.nested "lambda_rule" "lambdaRule" 4 "auth.LambdaRule").inGroup "rule",
    (Field.text "actions" "actions" 5).repeated]⟩,
  ⟨"auth.CatalogRule", [
    .text "catalog_name" "catalogName" 1,
    .flag "read" "read" 2,
    .flag "write" "write" 3]⟩,
  ⟨"auth.LambdaRule", [
    .text "lambda_name" "lambdaName" 1,
    .flag "invoke" "invoke" 2]⟩,
  ⟨"auth.GetPolicyRequest", [
    .text "namespace" "namespace" 1,
    .text "name" "name" 2]⟩,
  ⟨"auth.ListPoliciesRequest", [
    .text "namespace" "namespace" 1]⟩]⟩

structure AuthenticateRequest where
  username : String
  password : String
deriving DecidableEq, Repr, Inhabited

structure AuthenticateResponse where
  status : AuthStatus
  token : String
  expiresAt : Option Instant
deriving DecidableEq, Repr, Inhabited

structure RefreshTokenRequest where
  token : String
deriving DecidableEq, Repr, Inhabited

structure RefreshTokenResponse where
  status : RefreshStatus
  token : String
  expiresAt : Option Instant
deriving DecidableEq, Repr, Inhabited

structure CatalogRule where
  catalogName : String
  read : Bool
  write : Bool
deriving DecidableEq, Repr, Inhabited

structure LambdaRule where
  lambdaName : String
  invoke : Bool
deriving DecidableEq, Repr, Inhabited

inductive PolicyRule where
  | catalog (r : CatalogRule)
  | lambda (r : LambdaRule)
deriving DecidableEq, Repr

structure Policy where
  ns : String
  name : String
  rule : Option PolicyRule
  actions : List String
deriving DecidableEq, Repr, Inhabited

structure GetPolicyRequest where
  ns : String
  name : String
deriving DecidableEq, Repr, Inhabited

structure ListPoliciesRequest where
  ns : String
deriving DecidableEq, Repr, Inhabited

instance : Typed AuthenticateRequest where
  schema := schema
  name := "auth.AuthenticateRequest"
  entries x := [(1, .string x.username), (2, .string x.password)]
  ofFields m := .ok ⟨m.stringAt 1, m.stringAt 2⟩

instance : Typed AuthenticateResponse where
  schema := schema
  name := "auth.AuthenticateResponse"
  entries x := [(1, .enumeration x.status.number), (2, .string x.token)] ++
    Typed.optional 3 (x.expiresAt.map .timestamp)
  ofFields m := .ok ⟨AuthStatus.ofNumber (m.enumAt 1), m.stringAt 2, m.timestampAt? 3⟩

instance : Typed RefreshTokenRequest where
  schema := schema
  name := "auth.RefreshTokenRequest"
  entries x := [(1, .string x.token)]
  ofFields m := .ok ⟨m.stringAt 1⟩

instance : Typed RefreshTokenResponse where
  schema := schema
  name := "auth.RefreshTokenResponse"
  entries x := [(1, .enumeration x.status.number), (2, .string x.token)] ++
    Typed.optional 3 (x.expiresAt.map .timestamp)
  ofFields m := .ok ⟨RefreshStatus.ofNumber (m.enumAt 1), m.stringAt 2, m.timestampAt? 3⟩

instance : Typed CatalogRule where
  schema := schema
  name := "auth.CatalogRule"
  entries x := [(1, .string x.catalogName), (2, .bool x.read), (3, .bool x.write)]
  ofFields m := .ok ⟨m.stringAt 1, m.boolAt 2, m.boolAt 3⟩

instance : Typed LambdaRule where
  schema := schema
  name := "auth.LambdaRule"
  entries x := [(1, .string x.lambdaName), (2, .bool x.invoke)]
  ofFields m := .ok ⟨m.stringAt 1, m.boolAt 2⟩

def PolicyRule.entry : PolicyRule → Nat × Value
  | .catalog r => (3, .message (Typed.toMessage r))
  | .lambda r => (4, .message (Typed.toMessage r))

def PolicyRule.ofFields (m : Message) : Except Error (Option PolicyRule) :=
  match (m.which? schema "rule").map (·.number) with
  | some 3 => (Typed.at? CatalogRule m 3).map (·.map .catalog)
  | some 4 => (Typed.at? LambdaRule m 4).map (·.map .lambda)
  | _ => .ok none

instance : Typed Policy where
  schema := schema
  name := "auth.Policy"
  entries x :=
    [(1, .string x.ns), (2, .string x.name), (5, .list (x.actions.map .string))] ++
    (x.rule.map (·.entry)).toList
  ofFields m := do return ⟨m.stringAt 1, m.stringAt 2, ← PolicyRule.ofFields m, m.stringsAt 5⟩

instance : Typed GetPolicyRequest where
  schema := schema
  name := "auth.GetPolicyRequest"
  entries x := [(1, .string x.ns), (2, .string x.name)]
  ofFields m := .ok ⟨m.stringAt 1, m.stringAt 2⟩

instance : Typed ListPoliciesRequest where
  schema := schema
  name := "auth.ListPoliciesRequest"
  entries x := [(1, .string x.ns)]
  ofFields m := .ok ⟨m.stringAt 1⟩

end SchemaRpc.Auth

import SchemaRpc.Router
import SchemaRpc.Text.UpperCase

namespace SchemaRpc.Backend

def catalogNamed (ns name : String) : Catalog :=
  { (default : Catalog) with
    ns := ns
    name := name
    publicName := UpperCase.ofString name
    version := ⟨3, by decide, by decide⟩ }

def getCatalog (q : Catalog.GetCatalogRequest) : Outcome Catalog :=
  if q.name = "missing" then .failed (.notFound s!"{q.ns}/{q.name}")
  else .returned (catalogNamed q.ns q.name)

def createCatalog (q : Catalog.CreateCatalogRequest) : Outcome Catalog :=
  match q.catalog with
  | some c => .returned c
  | none => .failed (.invalidArgument "catalog is required")

def listCatalogs (q : Catalog.ListCatalogsRequest) : List Catalog × Outcome Unit :=
  ((List.range (max q.limit.toNat 1)).map fun i => catalogNamed q.ns s!"cat{i}",
    if q.limit = 0 then .pending
    else if q.ns = "broken" then .failed ⟨.dataLoss, "broken"⟩
    else .returned ())

def authenticate (q : Auth.AuthenticateRequest) : Outcome Auth.AuthenticateResponse :=
  .returned
    { status := if q.password = "hunter2" then .ok else .invalidCredentials
      token := s!"token-{q.username}"
      expiresAt := none }

def invoke (q : Lambda.InvokeRequest) : Outcome Lambda.InvokeResponse :=
  if q.name = "hang" then .pending
  else if q.name = "closed" then .failed Error.connectionClosed.toStatus
  else .returned ⟨q.payload, (SafeInt.ofInt? q.payload.length).getD .zero⟩

def router : Router :=
  Router.empty.unary Catalog.getCatalog getCatalog
    |>.unary Catalog.createCatalog createCatalog
    |>.serverStreaming Catalog.listCatalogs listCatalogs
    |>.unary Auth.authenticate authenticate
    |>.unary Lambda.invoke invoke

end SchemaRpc.Backend

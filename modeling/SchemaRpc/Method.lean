import SchemaRpc.Services.Auth
import SchemaRpc.Services.Catalog
import SchemaRpc.Services.Lambda

namespace SchemaRpc

structure MethodPath where
  service : String
  method : String
deriving DecidableEq, Repr

def MethodPath.route (p : MethodPath) : String :=
  s!"/{p.service}/{p.method}"

inductive Style where
  | unary
  | serverStreaming
deriving DecidableEq, Repr

def Style.name : Style → String
  | .unary => "Unary"
  | .serverStreaming => "ServerStreaming"

structure UnaryMethod (Req Resp : Type) where
  path : MethodPath

structure StreamingMethod (Req Resp : Type) where
  path : MethodPath

def UnaryMethod.display {Req Resp : Type} (m : UnaryMethod Req Resp) : String :=
  s!"UnaryMethod({m.path.route})"

def StreamingMethod.display {Req Resp : Type} (m : StreamingMethod Req Resp) : String :=
  s!"StreamingMethod({m.path.route})"

namespace Catalog

def service : String := "catalog.CatalogService"

def getCatalog : UnaryMethod GetCatalogRequest Catalog := ⟨⟨service, "GetCatalog"⟩⟩

def createCatalog : UnaryMethod CreateCatalogRequest Catalog := ⟨⟨service, "CreateCatalog"⟩⟩

def listCatalogs : StreamingMethod ListCatalogsRequest Catalog := ⟨⟨service, "ListCatalogs"⟩⟩

end Catalog

namespace Auth

def authenticationService : String := "auth.AuthenticationService"

def policyService : String := "auth.PolicyService"

def authenticate : UnaryMethod AuthenticateRequest AuthenticateResponse :=
  ⟨⟨authenticationService, "Authenticate"⟩⟩

def refreshToken : UnaryMethod RefreshTokenRequest RefreshTokenResponse :=
  ⟨⟨authenticationService, "RefreshToken"⟩⟩

def getPolicy : UnaryMethod GetPolicyRequest Policy := ⟨⟨policyService, "GetPolicy"⟩⟩

def listPolicies : StreamingMethod ListPoliciesRequest Policy := ⟨⟨policyService, "ListPolicies"⟩⟩

end Auth

namespace Lambda

def service : String := "lambda.LambdaService"

def invoke : UnaryMethod InvokeRequest InvokeResponse := ⟨⟨service, "Invoke"⟩⟩

end Lambda

end SchemaRpc

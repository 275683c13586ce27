import SchemaRpc.Services.Auth
import SchemaRpc.Services.Catalog
import SchemaRpc.Services.Lambda
import SchemaRpc.Typed.Status

namespace SchemaRpc.Services

def schema : Schema :=
  ⟨Catalog.schema.types ++ Auth.schema.types ++ Lambda.schema.types ++ Status.schema.types⟩

structure Package where
  carrier : Type
  typed : Typed carrier

def Package.of (α : Type) [h : Typed α] : Package := ⟨α, h⟩

def Package.name (p : Package) : String := p.typed.name

def packages : List Package :=
  [.of Catalog, .of Catalog.FieldSchema, .of Catalog.IntSchema, .of Catalog.FloatSchema,
    .of Catalog.StringSchema, .of Catalog.BoolSchema, .of Catalog.GetCatalogRequest,
    .of Catalog.CreateCatalogRequest, .of Catalog.ListCatalogsRequest,
    .of Auth.AuthenticateRequest, .of Auth.AuthenticateResponse, .of Auth.RefreshTokenRequest,
    .of Auth.RefreshTokenResponse, .of Auth.Policy, .of Auth.CatalogRule, .of Auth.LambdaRule,
    .of Auth.GetPolicyRequest, .of Auth.ListPoliciesRequest, .of Lambda.InvokeRequest,
    .of Lambda.InvokeResponse, .of Status]

def package? (name : String) : Option Package :=
  packages.find? fun p => p.name == name

end SchemaRpc.Services

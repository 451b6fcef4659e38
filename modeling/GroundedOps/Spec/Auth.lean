import GroundedOps.Spec.Policy

/-!
# Bearer authentication

`JwtAuthenticator` of `interfaces/http/auth.py`. What `jwt.decode` accepts, with the injected
key, issuer, audience and algorithms, is the parameter `decode`: the claims of a token, or
`none` for a `PyJWTError`.
-/

namespace GroundedOps

/-- The value of a claim: a text, a list of values, or any other JSON value. -/
inductive ClaimValue
  | text (value : String)
  | list (items : List ClaimValue)
  | other

/-- `claims.get` -/
abbrev TokenClaims := String → Option ClaimValue

namespace JwtAuthenticator

def maxIdentityValueLength : ℕ := 128

def maxMemberships : ℕ := 100

/-- The checks of one identity value or membership. -/
def identityText : ClaimValue → Option String
  | .text value =>
    if isBlank value || maxIdentityValueLength < value.length then none else some value
  | _ => none

/-- `_identity_value`; `none` is `_InvalidPrincipalClaims`. -/
def identityValue (claims : TokenClaims) (name : String) : Option String :=
  (claims name).bind identityText

/-- `_memberships` -/
def memberships (claims : TokenClaims) (name : String) : Option (List String) :=
  match (claims name).getD (.list []) with
  | .list items =>
    if maxMemberships < items.length then none
    else (items.mapM identityText).map (Dict.firsts id)
  | _ => none

/-- `_principal_from` -/
def principalFrom (claims : TokenClaims) : Option Principal := do
  let id ← identityValue claims "sub"
  let tenantId ← identityValue claims "tenant_id"
  let roles ← memberships claims "roles"
  let groups ← memberships claims "groups"
  return { id, tenantId, roles, groups }

/-- `authenticate`; `none` is the 401 response. -/
def authenticate (decode : String → Option TokenClaims) (token : String) : Option Principal :=
  (decode token).bind principalFrom

end JwtAuthenticator

end GroundedOps

import Registrar.Allocator
import Registrar.Token.Register
/-!
Accounts: subjects sign up, log in, and use, renew or give up their token pairs. Callers see only
whether they are unauthorized or something inside failed.
-/
set_option autoImplicit false

namespace Registrar

inductive AccountError where
  | unauthorized
  | internal
  deriving DecidableEq, Repr

def AccountError.message : AccountError → String
  | .unauthorized => "unauthorized"
  | .internal => "internal server error"

namespace AccountError

def ofToken : TokenError → AccountError
  | .notFound | .revocationIncomplete _ _ => .unauthorized
  | .storeUnavailable _ | .writeFailed _ | .interrupted _ => .internal

def ofRefusal : TokenRefusal → AccountError
  | .invalid | .expired => .unauthorized

def ofAlloc : AllocError → AccountError := fun _ => .internal

end AccountError

inductive TermsError where
  | accessNotPositive
  | refreshTooShort (access refresh : Span)
  deriving DecidableEq, Repr

def TermsError.message : TermsError → String
  | .accessNotPositive => "access token ttl must be positive"
  | .refreshTooShort access refresh =>
    "refresh token ttl (" ++ refresh.text ++ ") must exceed access token ttl (" ++ access.text ++ ")"

/-- How long the halves of a pair live. -/
structure Terms where
  access : Span
  refresh : Span
  access_pos : 0 < access
  access_lt : access < refresh
  deriving DecidableEq, Repr

def Terms.of (access refresh : Span) : Except TermsError Terms :=
  if pos : 0 < access then
    if lt : access < refresh then .ok ⟨access, refresh, pos, lt⟩
    else .error (.refreshTooShort access refresh)
  else .error .accessNotPositive

structure Accounts where
  allocator : Allocator
  terms : Terms
  deriving Repr

abbrev AccountFlow := ExceptT AccountError Flow

namespace Accounts

def clock : AccountFlow Clock := .mk (.now fun t => .done (.ok t))

def mint : AccountFlow String := .mk (.mint fun id => .done (.ok id))

/-- An expiry beyond the calendar ends everything. -/
def expiry (t : Clock) (ttl : Span) : AccountFlow Instant :=
  match t.wall.after? ttl with
  | some e => pure e
  | none => .mk .crash

def tokens {α : Type} (f : TokenFlow α) : AccountFlow α := f.adapt .ofToken

def decoded {α : Type} (r : Except TokenRefusal α) : AccountFlow α :=
  .mk (.done (r.mapError .ofRefusal))

/-- A new subject, named by the next identifier of the day. -/
def register (a : Accounts) (ctx : Context) : AccountFlow Subject := do
  let id ← (ExceptT.mk (a.allocator.allocateToday ctx)).adapt .ofAlloc
  pure ⟨id.text⟩

def pair (subject : Subject) (accessId refreshId : String) (accessExpiry refreshExpiry : Instant) :
    TokenPair where
  accessToken := AccessClaims.token ⟨accessId, refreshId, subject, accessExpiry⟩
  refreshToken := RefreshClaims.token ⟨refreshId, subject, refreshExpiry⟩
  accessId := accessId
  refreshId := refreshId
  accessExpiry := accessExpiry
  refreshExpiry := refreshExpiry

def login (a : Accounts) (ctx : Context) (subject : Subject) : AccountFlow TokenPair := do
  let t ← clock
  let accessId ← mint
  let refreshId ← mint
  let accessExpiry ← expiry t a.terms.access
  let refreshExpiry ← expiry t a.terms.refresh
  let p := pair subject accessId refreshId accessExpiry refreshExpiry
  tokens (Tokens.record ctx subject p)
  pure p

def confirm (ctx : Context) (id : String) (claimed : Subject) : AccountFlow Subject := do
  let subject ← tokens (Tokens.resolve ctx id)
  if subject = claimed then pure subject else throw .unauthorized

def authenticate (ctx : Context) (token : String) : AccountFlow Access := do
  let t ← clock
  let claims ← decoded (AccessClaims.ofToken t.wall token)
  let subject ← confirm ctx claims.accessId claims.subject
  pure ⟨claims.accessId, claims.refreshId, subject⟩

def logout (ctx : Context) (token : String) : AccountFlow Unit := do
  let access ← authenticate ctx token
  tokens (Tokens.revoke ctx access)

/-- A new pair for an old one: only who removes the old entry goes on. -/
def refresh (a : Accounts) (ctx : Context) (token : String) : AccountFlow TokenPair := do
  let t ← clock
  let claims ← decoded (RefreshClaims.ofToken t.wall token)
  let subject ← confirm ctx claims.refreshId claims.subject
  let removed ← tokens (Tokens.revokeOne ctx claims.refreshId)
  if removed = 1 then a.login ctx subject else throw .unauthorized

end Accounts

end Registrar

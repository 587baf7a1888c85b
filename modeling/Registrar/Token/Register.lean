import Registrar.Flow
import Registrar.Token.Plain
/-!
The register of issued token pairs: one store entry for each half, under the half's own identifier,
with the subject as its value. Each call is one or two single-key operations; nothing spans both
halves at once.
-/
set_option autoImplicit false

namespace Registrar

structure TokenPair where
  accessToken : String
  refreshToken : String
  accessId : String
  refreshId : String
  accessExpiry : Instant
  refreshExpiry : Instant
  deriving DecidableEq, Repr

def TokenPair.wellFormed (p : TokenPair) : Bool := p.accessExpiry < p.refreshExpiry

structure Access where
  accessId : String
  refreshId : String
  subject : Subject
  deriving DecidableEq, Repr

inductive TokenError where
  | storeUnavailable (e : StoreError)
  | writeFailed (key : String)
  | notFound
  | revocationIncomplete (accessRemoved refreshRemoved : Nat)
  | interrupted (i : Interrupted)
  deriving DecidableEq, Repr

def TokenError.message : TokenError → String
  | .storeUnavailable e => "store unavailable: " ++ e.message
  | .writeFailed key => "store did not confirm write of " ++ key
  | .notFound => "token not found"
  | .revocationIncomplete a r =>
    "revocation incomplete (access removed: " ++ String.ofList (Numeral.decimal a) ++
      ", refresh removed: " ++ String.ofList (Numeral.decimal r) ++ ")"
  | .interrupted .cancelled => "operation cancelled"
  | .interrupted .deadlineExceeded => "deadline exceeded"

abbrev TokenFlow := ExceptT TokenError Flow

namespace Tokens

def answer {α : Type} : Except Interrupted (Except StoreError α) → Except TokenError α
  | .error i => .error (.interrupted i)
  | .ok (.error e) => .error (.storeUnavailable e)
  | .ok (.ok a) => .ok a

def ask (ctx : Context) (c : StoreCall) : TokenFlow c.Answer :=
  .mk (.call (.under ctx) (.store c) none fun o => .done (answer o))

def clock : TokenFlow Clock := .mk (.now fun t => .done (.ok t))

/-- Writes both halves, each for the time it has left; an expiry in the past is written too. -/
def record (ctx : Context) (subject : Subject) (p : TokenPair) : TokenFlow Unit := do
  let t ← clock
  let accessTtl := t.wall.untilInstant p.accessExpiry
  let refreshTtl := t.wall.untilInstant p.refreshExpiry
  let access : Bool ← ask ctx (.set p.accessId subject.name accessTtl)
  let refresh : Bool ← ask ctx (.set p.refreshId subject.name refreshTtl)
  match access, refresh with
  | false, _ => throw (.writeFailed p.accessId)
  | true, false => throw (.writeFailed p.refreshId)
  | true, true => pure ()

def resolve (ctx : Context) (id : String) : TokenFlow Subject := do
  let value : Option String ← ask ctx (.get id)
  match value with
  | some name => pure ⟨name⟩
  | none => throw .notFound

/-- Removes one half, which may be gone already; says how many entries went. -/
def revokeOne (ctx : Context) (id : String) : TokenFlow Nat := ask ctx (.del [id])

/-- Removes both halves. Anything but one entry for each is an error. -/
def revoke (ctx : Context) (a : Access) : TokenFlow Unit := do
  let access ← revokeOne ctx a.accessId
  let refresh ← revokeOne ctx a.refreshId
  if access = 1 ∧ refresh = 1 then pure ()
  else throw (.revocationIncomplete access refresh)

end Tokens

end Registrar

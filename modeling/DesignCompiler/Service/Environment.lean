import DesignCompiler.Fault
import DesignCompiler.Number.Decimal

/-!
# `DesignCompiler.Service.Environment`: what the service is told from outside

Access tokens and the time limit for requests come from four variables. An empty variable counts as
unset. A token of an account wins over a personal one, of which there are two.
-/

set_option autoImplicit false

namespace DesignCompiler

/-- The variables that the service looks at. -/
structure Environment where
  accessToken : Option Text
  token : Option Text
  accountToken : Option Text
  timeout : Option Text

/-- How the service identifies itself. -/
inductive Credential
  /-- By a token of an account. -/
  | account (token : Text)
  /-- By a personal token. -/
  | personal (token : Text)
  deriving DecidableEq

/-- The header of a request that carries a credential. -/
def Credential.header : Credential → Text × Text
  | .account token => ("Authorization".toList, "Bearer ".toList ++ token)
  | .personal token => ("X-Figma-Token".toList, token)

namespace Environment

/-- A variable that is set and not empty. -/
def filled? (setting : Option Text) : Option Text := setting.filter (!·.isEmpty)

/-- The credential to use. A token of an account wins even if a personal one is set. -/
def credential (env : Environment) : Except Fault Credential :=
  match filled? env.accountToken, filled? env.accessToken, filled? env.token with
  | some token, _, _ => .ok (.account token)
  | none, some token, _ => .ok (.personal token)
  | none, none, some token => .ok (.personal token)
  | none, none, none => .error .noToken

/-- The seconds that a request may take if nobody says otherwise. -/
def usualTimeout : Binary64 := .ofQuotient 30 1

/-- The seconds that a request may take. A variable that is set and writes no number is a fault and
not the default. -/
def seconds (env : Environment) : Except Fault Binary64 :=
  match filled? env.timeout with
  | none => .ok usualTimeout
  | some t =>
    match Decimal.readLoose? t with
    | some x => .ok x
    | none => .error (.badTimeout t)

end Environment

end DesignCompiler

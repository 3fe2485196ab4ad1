import HeadlessErp.Cache.Response
import HeadlessErp.Js.Record

/-!
# Tokens and accounts

The tokens of a client (`packages/sdk/src/auth.ts`) and the fingerprint of an account, by which the
client marks what it keeps on the device (`fingerprint` of `packages/sdk/src/offline.ts`).
-/

namespace HeadlessErp

/-- A token, with the payload that `decodeTokenPayload` reads from it. -/
structure SessionToken (N : Type) where
  text : String
  payload : Option (Record N)

section
variable {N : Type} [JsNumber N]

/-- The account a token speaks for. -/
def tokenSubjectOf (token : SessionToken N) : String :=
  let payload := token.payload.getD []
  match (payload.get "user_id").orElse (payload.get "sub") with
  | .str subject => if subject ≠ "" then subject else token.text
  | _ => token.text

/-- `tokenExpiryMs`. -/
def tokenExpiryMs (token : SessionToken N) : Option N :=
  match (token.payload.getD []).get "exp" with
  | .num exp => if JsNumber.isFinite exp then some exp else none
  | _ => none

/-- `isTokenExpired`, with the skew of half a minute. -/
def isTokenExpired (token : SessionToken N) (now : Nat) : Bool :=
  match tokenExpiryMs token with
  | none => false
  | some exp => JsNumber.lt (JsNumber.sub exp (JsNumber.ofInt 30000)) (JsNumber.ofInt now)

/-- A number below `2 ^ 32` with eight hexadecimal digits. -/
def hex8 (n : Nat) : String :=
  let digits := Nat.toDigits 16 n
  String.ofList (List.replicate (8 - digits.length) '0' ++ digits)

/-- `fingerprint`. -/
def fingerprint (value : String) : String := hex8 (fnv1a value).toNat

/-- The fingerprint of the account of a token. -/
def accountFingerprint (token : Option (SessionToken N)) : Option String :=
  token.map fun token => fingerprint (tokenSubjectOf token)

end

end HeadlessErp

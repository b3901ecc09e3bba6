-- The errors of the core (`api.rs`, `lib.rs`): the server's typed codes, what an
-- HTTP call can end in, and the error that crosses the FFI.
import PigeonMobile.Store

namespace PigeonMobile

/-- A typed Pigeon error code. -/
inductive ErrorCode where
  | Forbidden
  | UnknownToken
  | MissingToken
  | BadJson
  | NotJson
  | NotFound
  | LimitExceeded
  | BadSignature
  | Unrecognized
  | UserInUse
  | InvalidUsername
  | Unknown
  | Other (code : String)
  deriving DecidableEq

def ErrorCode.from_wire (code : String) : ErrorCode :=
  match code with
  | "P_FORBIDDEN" => .Forbidden
  | "P_UNKNOWN_TOKEN" => .UnknownToken
  | "P_MISSING_TOKEN" => .MissingToken
  | "P_BAD_JSON" => .BadJson
  | "P_NOT_JSON" => .NotJson
  | "P_NOT_FOUND" => .NotFound
  | "P_LIMIT_EXCEEDED" => .LimitExceeded
  | "P_BAD_SIGNATURE" => .BadSignature
  | "P_UNRECOGNIZED" => .Unrecognized
  | "P_USER_IN_USE" => .UserInUse
  | "P_INVALID_USERNAME" => .InvalidUsername
  | "P_UNKNOWN" => .Unknown
  | other => .Other other

/-- A Client–Server API failure. -/
inductive ApiError where
  | Server (status : Nat) (code : ErrorCode) (message : String)
  | Network (reason : String)
  | Malformed (reason : String)

/-- Worth a retry: a network blip, or a rate limit. -/
def ApiError.is_transient : ApiError → Bool
  | .Network _ => true
  | .Server _ .LimitExceeded _ => true
  | _ => false

/-- The error that crosses the FFI. -/
inductive CoreError where
  | Crypto (reason : String)
  | Api (code : ErrorCode) (reason : String)
  | Network (reason : String)
  | Protocol (reason : String)
  | Storage (reason : String)

/-- `CoreError::from(StoreError)`. -/
def StoreError.toCore : StoreError → CoreError
  | .Db reason => .Storage ("database error: " ++ reason)
  | .Malformed reason => .Storage ("malformed event: " ++ reason)

/-- `CoreError::from(ApiError)`. -/
def ApiError.toCore : ApiError → CoreError
  | .Server _ code message => .Api code message
  | .Network reason => .Network reason
  | .Malformed reason => .Protocol reason

end PigeonMobile

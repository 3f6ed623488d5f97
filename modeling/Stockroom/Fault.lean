import Stockroom.Duration
import Stockroom.Identifier.Notation
import Stockroom.Json.Fault

/-!
# Faults

Why an operation failed, as a cause. Each cause belongs to a kind that callers branch on; the words
are for people. A row that cannot be read and a value that cannot be stored fail the same way every
time, so sending the same request again helps only against the other storage faults and against
faults of the broker.
-/
namespace Stockroom

/-! ## Causes -/

/-- Why a request was refused. -/
inductive Refusal
  /-- The idempotency key is blank. -/
  | keyRequired
  /-- A field that must name something does not. -/
  | notIdentifier (field value : String)
  | notExactDecimal (value : String)
  | notPositive (value : String)
  /-- A balance would need more digits than a quantity has. -/
  | balanceOverflow (item location : Identifier)
  /-- Refused for a reason given in words. -/
  | because (words : String)
  deriving DecidableEq

/-- Why stored data could not be used. -/
inductive Corruption
  /-- A row is not the record it should be. -/
  | unreadable
  /-- The balances of an item have no sum. -/
  | totalOverflow
  | because (words : String)
  deriving DecidableEq

/-- Why a value could not be written or a text read. -/
inductive EncodingFault
  /-- An instant lies outside the range that can be stored. -/
  | instant
  /-- A text is not the JSON it should be. -/
  | json (fault : Json.Fault)
  | because (words : String)
  deriving DecidableEq

/-- Why a storage task ended without an answer. -/
inductive TaskFault
  /-- It asked for room for more events than memory can hold. -/
  | batchTooLarge
  /-- It set itself a deadline that its clock never shows. -/
  | deadlineTooFar
  | because (words : String)
  deriving DecidableEq

/-- Why a message was not published. -/
inductive PublishFault
  | rejected (topic reason : String)
  | unreachable (reason : String)
  | timedOut (limit : Duration)
  deriving DecidableEq

/-- Why an operation failed. -/
inductive Fault
  | refused (why : Refusal)
  /-- The idempotency key was used before, for another request. -/
  | conflict (key endpoint : String)
  /-- The database does not support what was asked of it. -/
  | storage (what : String)
  | timedOut (limit : Duration)
  | corrupt (why : Corruption)
  | encoding (why : EncodingFault)
  | taskFailed (why : TaskFault)
  | publish (why : PublishFault)
  deriving DecidableEq

/-! ## Kinds -/

/-- What a caller branches on. -/
inductive Fault.Kind
  | invalidRequest
  | idempotencyConflict
  | transientStorageFailure
  | publishFailure
  deriving DecidableEq

/-- The kind of a fault. -/
def Fault.kind : Fault → Kind
  | refused _ => .invalidRequest
  | conflict _ _ => .idempotencyConflict
  | publish _ => .publishFailure
  | storage _ | timedOut _ | corrupt _ | encoding _ | taskFailed _ => .transientStorageFailure

/-- Whether the same request may succeed when it is sent again. -/
def Fault.isRetryable : Fault → Bool
  | storage _ | timedOut _ | taskFailed _ | publish _ => true
  | refused _ | conflict _ _ | corrupt _ | encoding _ => false

/-! ## In words -/

/-- The refusal in words. -/
def Refusal.text : Refusal → String
  | keyRequired => "Idempotency-Key required"
  | notIdentifier field value => field ++ " is not a valid id: " ++ Text.quoted value
  | notExactDecimal value => "quantity is not an exact decimal: " ++ Text.quoted value
  | notPositive value => "quantity must be greater than zero: " ++ Text.quoted value
  | balanceOverflow item location =>
    "balance of " ++ item.text ++ " at " ++ location.text ++ " would overflow"
  | because words => words

/-- The corruption in words. -/
def Corruption.text : Corruption → String
  | unreadable => "the row is not the record it should be"
  | totalOverflow => "on hand total overflows"
  | because words => words

/-- The fault of writing or reading in words. -/
def EncodingFault.text : EncodingFault → String
  | instant => "failed to encode timestamp. timestamp_nanos_opt returned None"
  | json fault => fault.text
  | because words => words

/-- The fault of a task in words. -/
def TaskFault.text : TaskFault → String
  | batchTooLarge => "the batch is too large"
  | deadlineTooFar => "overflow when adding duration to instant"
  | because words => words

/-- The fault of a publish in words. -/
def PublishFault.message : PublishFault → String
  | rejected topic reason => "broker rejected message on " ++ topic ++ ": " ++ reason
  | unreachable reason => "broker unreachable: " ++ reason
  | timedOut limit => "publish timed out after " ++ limit.text

/-- The fault in words. -/
def Fault.message : Fault → String
  | refused why => "invalid request: " ++ why.text
  | conflict key endpoint =>
    "idempotency key " ++ Text.quoted key ++ " was already used for a different request on " ++
      endpoint
  | storage what => "storage failure: Unsupported: " ++ what
  | timedOut limit => "storage operation timed out after " ++ limit.text
  | corrupt why => "stored record is corrupt: " ++ why.text
  | encoding why => "failed to encode record: " ++ why.text
  | taskFailed why => "storage task failed: " ++ why.text
  | publish why => why.message

end Stockroom

import Stockroom.Fault
import Stockroom.Ledger.Answer
import Stockroom.Stored

/-!
# Receipts

A request that was carried out leaves a receipt under its idempotency key and endpoint: the digest
of the request and the answer it was given. The same request under the same key is answered from
the receipt, any other request is refused.
-/
namespace Stockroom

/-- What a request left behind. -/
structure Receipt where
  idempotencyKey : String
  endpoint : String
  actor : Identifier
  /-- The digest of the request. -/
  digest : String
  /-- The answer, given again word for word. -/
  body : String
  createdAt : Instant
  deriving DecidableEq

namespace Receipt

/-- The key of the receipt for an idempotency key at an endpoint. -/
def key (idempotencyKey endpoint : String) : Bytes :=
  Bytes.ofText endpoint ++ 0 :: Bytes.ofText idempotencyKey

/-- The stored answer for a request with this digest. -/
def replay (r : Receipt) (digest : String) : Except Fault String :=
  if r.digest = digest then .ok r.body else .error (.conflict r.idempotencyKey r.endpoint)

/-- The stored answer for a request with this digest, as an answer. -/
def answer (r : Receipt) (digest : String) : Except Fault MoveAnswer := do
  match MoveAnswer.ofJson (← r.replay digest) with
  | .ok answer => return answer
  | .error e => throw (.encoding (.json e))

/-- Read the fields of a receipt. -/
def fields : Cbor.Fields Receipt := do
  let idempotencyKey ← Stored.field
  let endpoint ← Stored.field
  let actor ← Stored.field
  let digest ← Stored.field
  let body ← Stored.field
  let createdAt ← Stored.field
  return ⟨idempotencyKey, endpoint, actor, digest, body, createdAt⟩

instance : Stored Receipt where
  encode r :=
    Stored.record [Stored.put r.idempotencyKey, Stored.put r.endpoint, Stored.put r.actor,
      Stored.put r.digest, Stored.put r.body, Stored.put r.createdAt]
  read := Cbor.readRecord fields

end Receipt

end Stockroom

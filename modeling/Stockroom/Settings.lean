import Stockroom.Bytes
import Stockroom.Relay.Settings
import Stockroom.Text.Blank

/-!
# Settings from the environment

Every setting can be given as an environment variable. A variable that is not set, is not text or
does not hold what it should counts as not set. The batch holds one event at least, and the lease is
raised where it would not outlast a pass.
-/
namespace Stockroom

/-- The bytes that environment variables are set to. -/
abbrev Environment := String → Option Bytes

namespace Environment

/-- A variable as text. -/
def text? (env : Environment) (name : String) : Option String := (env name).bind Bytes.toText?

/-- A variable as a number of 64 bits, or what holds where it is none. -/
def number (env : Environment) (name : String) (otherwise : Nat) : Nat :=
  ((env.text? name).bind fun s => Text.readBelow (2 ^ 64) s.toList).getD otherwise

/-- A variable as a number of milliseconds, or what holds where it is none. -/
def millis (env : Environment) (name : String) (otherwise : Duration) : Duration :=
  .ofMillis (env.number name otherwise.millis)

/-- A variable as text without blanks around it. A blank one counts as not set. -/
def unblank? (env : Environment) (name : String) : Option String :=
  ((env.text? name).map Text.trim).filter (· ≠ "")

end Environment

/-- The relay settings in an environment. -/
def Relay.Settings.ofEnvironment (env : Environment) : Relay.Settings :=
  let standard := Relay.Settings.standard
  { batchSize := max (env.number "OUTBOX_BATCH_SIZE" standard.batchSize) 1
    idleInterval := env.millis "OUTBOX_IDLE_MS" standard.idleInterval
    backoffFloor := env.millis "OUTBOX_BACKOFF_FLOOR_MS" standard.backoffFloor
    backoffCap := env.millis "OUTBOX_BACKOFF_CAP_MS" standard.backoffCap
    storageTimeout := env.millis "OUTBOX_TX_TIMEOUT_MS" standard.storageTimeout
    publishTimeout := env.millis "OUTBOX_PUBLISH_TIMEOUT_MS" standard.publishTimeout
    lease := env.millis "OUTBOX_LEASE_MS" standard.lease : Relay.Settings }.coveringLease

/-- How the program runs. -/
structure Settings where
  databasePath : String
  logLevel : String
  /-- Where the broker is; there is one in the process itself if this is not given. -/
  brokerUrl : Option String
  relay : Relay.Settings

/-- The settings in an environment. -/
def Settings.ofEnvironment (env : Environment) : Settings where
  databasePath := (env.text? "STOCK_DB_PATH").getD "./stock-db"
  logLevel := (env.text? "LOG_LEVEL").getD "info"
  brokerUrl := env.unblank? "NATS_URL"
  relay := .ofEnvironment env

end Stockroom

import Mathlib.Data.Finset.Basic
import Mathlib.Data.Finset.Card
import Silkjam.Lib.Dict

/-!
# The configuration

The listings of proxies and servers that the orchestrator applies and the API reads. What pydantic
checks of a value is in its type; what `validate_semantics` finds wrong with a listing is in its
`errors`.
-/

namespace Silkjam

/-- A `str`. -/
abbrev Text := List Char

abbrev Port := {p : Int // 0 < p ∧ p ≤ 65535}

structure ProxyListing where
  port : Port
  voicePort : Option Port := none
  voiceIpBinding : Bool := true
  enabled : Bool
  subdomains : Dict Text Text := {}
  errors : List Text := []

def ProxyListing.valid (listing : ProxyListing) : Bool :=
  listing.errors.length = 0

structure SleepProperties where
  timeout : Option {n : Nat // 0 < n} := none

structure BackupProperties where
  interval : Option {n : Nat // 0 < n}

structure Version where
  name : Text
  protocol : Int
  deriving DecidableEq

def UNKNOWN_VERSION : Version where
  name := ['u', 'n', 'k', 'n', 'o', 'w', 'n']
  protocol := 0

structure ServerListing where
  version : Version := UNKNOWN_VERSION
  sleepProperties : SleepProperties := {}
  backupProperties : BackupProperties := { interval := some ⟨60, Nat.succ_pos 59⟩ }
  enabled : Bool
  errors : List Text := []

def ServerListing.valid (listing : ServerListing) : Bool :=
  listing.errors.length = 0

structure Config where
  proxyListing : Dict Text ProxyListing := {}
  serverListing : Dict Text ServerListing := {}

end Silkjam

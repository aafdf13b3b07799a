import Silkjam.Config
import Silkjam.Supervisor.System

/-!
# The orchestrator

An `MCOrchestrator` is a supervisor of proxies and backends. It has a table of each by the name in
the listing it was made from. The objects are told apart by a number (`UnitId`): one that is made
again for a name that was listed before is another unit.
-/

namespace Silkjam.Orchestrator

/-- Transport protocol for a locally bound port. -/
inductive PortProtocol where
  | tcp | udp
  deriving DecidableEq

/-- Identity of a supervised object. -/
inductive UnitId where
  | proxy (n : Nat)
  | backend (n : Nat)
  deriving DecidableEq

def UnitId.number : UnitId → Nat
  | .proxy n | .backend n => n

/-- An `MCProxy`, as far as the orchestrator reads it. -/
structure MCProxy where
  id : Nat
  listing : ProxyListing

def MCProxy.unit (proxy : MCProxy) : UnitId :=
  .proxy proxy.id

def MCProxy.port (proxy : MCProxy) : Port :=
  proxy.listing.port

def MCProxy.voicePort (proxy : MCProxy) : Option Port :=
  proxy.listing.voicePort

/-- An `MCBackend`, as the orchestrator makes it; the voice host is the public domain with the port
`voiceHost`. -/
structure MCBackend where
  id : Nat
  listing : ServerListing
  voiceHost : Option Port

def MCBackend.unit (backend : MCBackend) : UnitId :=
  .backend backend.id

/-- An `MCOrchestrator`; `nextObject` is the number of the next object it makes. -/
structure MCOrchestrator where
  supervisor : Supervisor UnitId := {}
  config : Config := {}
  proxies : Dict Text MCProxy := {}
  backends : Dict Text MCBackend := {}
  serverPortRange : Int × Int
  acquiredServerPorts : PortProtocol → Finset Int := fun _ => ∅
  nextObject : Nat := 0

end Silkjam.Orchestrator

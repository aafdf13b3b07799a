import Mathlib.Data.Int.Range
import Silkjam.Lib.FirstFit
import Silkjam.Lib.Transition
import Silkjam.Orchestrator.State

/-!
# Port allocation

`acquire_port` is a context manager: entering it takes the first port of the server range that is
neither acquired nor a proxy's, and exiting it gives the port back. The contexts that were entered
and not exited yet hold their ports, and these are the acquired ones (`Exclusive`), in whatever
order contexts are entered and exited (`ports_exclusive`).
-/

namespace Silkjam.Orchestrator

open FirstFit Transition

/-- Return configured and active proxy ports for a transport protocol. -/
def MCOrchestrator.reservedProxyPorts (o : MCOrchestrator) (protocol : PortProtocol) : Finset Int :=
  let listings := o.config.proxyListing.values.filter fun listing => listing.enabled && listing.valid
  match protocol with
  | .tcp =>
    let configuredPorts := (listings.map fun listing => listing.port.1).toFinset
    let activePorts := (o.proxies.values.map fun proxy => proxy.port.1).toFinset
    configuredPorts ∪ activePorts
  | .udp =>
    let configuredPorts :=
      (listings.filterMap fun listing => listing.voicePort.map Subtype.val).toFinset
    let activePorts :=
      (o.proxies.values.filterMap fun proxy => proxy.voicePort.map Subtype.val).toFinset
    configuredPorts ∪ activePorts

structure AcquirePortError where
  message : String

def PortProtocol.str : PortProtocol → String
  | .tcp => "tcp"
  | .udp => "udp"

def MCOrchestrator.unavailablePorts (o : MCOrchestrator) (protocol : PortProtocol) : Finset Int :=
  o.acquiredServerPorts protocol ∪ o.reservedProxyPorts protocol

def MCOrchestrator.setAcquired (o : MCOrchestrator) (protocol : PortProtocol) (ports : Finset Int) :
    MCOrchestrator :=
  { o with acquiredServerPorts := Function.update o.acquiredServerPorts protocol ports }

/-- `acquire_port`, up to its `yield`. -/
def MCOrchestrator.acquirePort (o : MCOrchestrator) (protocol : PortProtocol) :
    Except AcquirePortError (Int × MCOrchestrator) :=
  let (lo, hi) := o.serverPortRange
  match firstFree (Int.range lo (hi + 1)) (o.unavailablePorts protocol) with
  | none =>
    let name := protocol.str
    .error ⟨s!"Could not acquire {name} port in range {lo}:{hi}"⟩
  | some port =>
    .ok (port, o.setAcquired protocol (insert port (o.acquiredServerPorts protocol)))

/-- The `finally` block of `acquire_port`. -/
def MCOrchestrator.releasePort (o : MCOrchestrator) (protocol : PortProtocol) (port : Int) :
    MCOrchestrator :=
  o.setAcquired protocol ((o.acquiredServerPorts protocol).erase port)

/-! ### The contexts of `acquire_port` -/

/-- The contexts that were entered and not exited, each with its protocol and its port. -/
structure Ports where
  orchestrator : MCOrchestrator
  contexts : Dict Nat (PortProtocol × Int) := {}
  nextContext : Nat := 0

inductive PortAction where
  | enter (protocol : PortProtocol)
  | exit (context : Nat)

namespace Ports

/-- A new context holds `port`. -/
def hold (s : Ports) (o : MCOrchestrator) (protocol : PortProtocol) (port : Int) : Ports where
  orchestrator := o
  contexts := s.contexts.set s.nextContext (protocol, port)
  nextContext := s.nextContext + 1

/-- A context that could not be entered leaves everything as it was. -/
def step (s : Ports) : PortAction → Option Ports
  | .enter protocol =>
    match s.orchestrator.acquirePort protocol with
    | .error _ => some s
    | .ok (port, o) => some (s.hold o protocol port)
  | .exit context =>
    (s.contexts.get? context).map fun (protocol, port) =>
      { s with
        orchestrator := s.orchestrator.releasePort protocol port
        contexts := s.contexts.erase context }

/-- No port is acquired yet. -/
def start (o : MCOrchestrator) : Ports where
  orchestrator := { o with acquiredServerPorts := fun _ => ∅ }

def Holds (s : Ports) (context : Nat) (protocol : PortProtocol) (port : Int) : Prop :=
  s.contexts.get? context = some (protocol, port)

/-- The action enters or exits a context for `protocol`. -/
def Concerns (s : Ports) (protocol : PortProtocol) : PortAction → Prop
  | .enter protocol' => protocol' = protocol
  | .exit context => ∃ port, s.Holds context protocol port

def IsEnter (_ : Ports) : PortAction → Prop
  | .enter _ => True
  | .exit _ => False

instance (s : Ports) (context : Nat) (protocol : PortProtocol) (port : Int) :
    Decidable (s.Holds context protocol port) :=
  inferInstanceAs (Decidable (_ = _))

abbrev Reachable (o : MCOrchestrator) (s : Ports) : Prop :=
  Reach step (fun _ _ => True) (start o) s

/-- The acquired ports are those that the contexts hold, each held by one, whatever happens to the
rest of the orchestrator. -/
structure Booked (s : Ports) : Prop where
  fresh : ∀ {n protocol port}, s.Holds n protocol port → n < s.nextContext
  distinct : ∀ {n n' protocol port}, s.Holds n protocol port → s.Holds n' protocol port → n = n'
  acquired : ∀ {protocol port},
    port ∈ s.orchestrator.acquiredServerPorts protocol ↔ ∃ n, s.Holds n protocol port

/-- The acquired ports of each protocol are those that its contexts hold, each held by one. -/
structure Exclusive (o : MCOrchestrator) (s : Ports) : Prop where
  fixed : s.orchestrator = { o with acquiredServerPorts := s.orchestrator.acquiredServerPorts }
  fresh : ∀ {n protocol port}, s.Holds n protocol port → n < s.nextContext
  distinct : ∀ {n n' protocol port}, s.Holds n protocol port → s.Holds n' protocol port → n = n'
  acquired : ∀ {protocol port},
    port ∈ s.orchestrator.acquiredServerPorts protocol ↔ ∃ n, s.Holds n protocol port
  allowed : ∀ {n protocol port}, s.Holds n protocol port →
    (o.serverPortRange.1 ≤ port ∧ port ≤ o.serverPortRange.2) ∧ port ∉ o.reservedProxyPorts protocol

section
variable {o : MCOrchestrator} {s s' : Ports} {protocol : PortProtocol} {port : Int} {n : Nat}

theorem Exclusive.range_eq (h : Exclusive o s) :
    s.orchestrator.serverPortRange = o.serverPortRange := by
  rw [h.fixed]

theorem Exclusive.reserved_eq (h : Exclusive o s) (protocol : PortProtocol) :
    s.orchestrator.reservedProxyPorts protocol = o.reservedProxyPorts protocol := by
  rw [h.fixed]
  rfl

theorem mem_range {r : Int × Int} : port ∈ Int.range r.1 (r.2 + 1) ↔ r.1 ≤ port ∧ port ≤ r.2 := by
  rw [Int.mem_range_iff, Int.lt_add_one_iff]

theorem acquirePort_ok {o' : MCOrchestrator} :
    o.acquirePort protocol = .ok (port, o') ↔
      firstFree (Int.range o.serverPortRange.1 (o.serverPortRange.2 + 1))
        (o.unavailablePorts protocol) = some port ∧
      o' = o.setAcquired protocol (insert port (o.acquiredServerPorts protocol)) := by
  unfold MCOrchestrator.acquirePort
  dsimp only
  cases firstFree (Int.range o.serverPortRange.1 (o.serverPortRange.2 + 1))
    (o.unavailablePorts protocol) with
  | none => simp
  | some p =>
    simp only [Except.ok.injEq, Prod.mk.injEq, Option.some.injEq]
    constructor
    · rintro ⟨rfl, rfl⟩
      exact ⟨rfl, rfl⟩
    · rintro ⟨rfl, rfl⟩
      exact ⟨rfl, rfl⟩

theorem acquirePort_error :
    (∃ e, o.acquirePort protocol = .error e) ↔
      firstFree (Int.range o.serverPortRange.1 (o.serverPortRange.2 + 1))
        (o.unavailablePorts protocol) = none := by
  unfold MCOrchestrator.acquirePort
  dsimp only
  cases firstFree (Int.range o.serverPortRange.1 (o.serverPortRange.2 + 1))
    (o.unavailablePorts protocol) with
  | none => simp
  | some p => simp

theorem holds_hold {o' : MCOrchestrator} {q : PortProtocol} {p : Int} :
    (s.hold o' protocol port).Holds n q p ↔
      n = s.nextContext ∧ q = protocol ∧ p = port ∨ n ≠ s.nextContext ∧ s.Holds n q p := by
  unfold hold Holds
  dsimp only
  by_cases hn : n = s.nextContext
  · rw [hn, Dict.get?_set_self, Option.some.injEq, Prod.mk.injEq, eq_comm (a := protocol),
      eq_comm (a := port)]
    simp
  · rw [Dict.get?_set_of_ne _ _ hn]
    simp [hn]

theorem Exclusive.booked (h : Exclusive o s) : Booked s :=
  ⟨h.fresh, h.distinct, h.acquired⟩

theorem Booked.keeps (h : Booked s) {o' : MCOrchestrator} {q : PortProtocol} {p : Int}
    (hp : s.Holds n q p) : (s.hold o' protocol port).Holds n q p :=
  holds_hold.2 (.inr ⟨(h.fresh hp).ne, hp⟩)

/-- A port that is taken is held by a new context and by no other. -/
theorem Booked.enter {o' : MCOrchestrator} (h : Booked s)
    (hacquire : s.orchestrator.acquirePort protocol = .ok (port, o')) :
    Booked (s.hold o' protocol port) := by
  obtain ⟨hfirst, rfl⟩ := acquirePort_ok.1 hacquire
  obtain ⟨-, hfree⟩ := firstFree_mem hfirst
  rw [MCOrchestrator.unavailablePorts, Finset.mem_union, not_or] at hfree
  refine ⟨?_, ?_, ?_⟩
  · intro n q p hp
    obtain ⟨rfl, -, -⟩ | ⟨-, hp⟩ := holds_hold.1 hp
    · exact Nat.lt_succ_self _
    · exact Nat.lt_succ_of_lt (h.fresh hp)
  · intro n n' q p hp hp'
    obtain ⟨hn, hq, hport⟩ | ⟨-, hold⟩ := holds_hold.1 hp <;>
      obtain ⟨hn', hq', hport'⟩ | ⟨-, hold'⟩ := holds_hold.1 hp'
    · exact hn.trans hn'.symm
    · subst hq hport
      exact absurd (h.acquired.2 ⟨_, hold'⟩) hfree.1
    · subst hq' hport'
      exact absurd (h.acquired.2 ⟨_, hold⟩) hfree.1
    · exact h.distinct hold hold'
  · intro q p
    dsimp only [hold, MCOrchestrator.setAcquired]
    by_cases hq : q = protocol
    · subst hq
      rw [Function.update_self, Finset.mem_insert, h.acquired]
      constructor
      · rintro (rfl | ⟨n, hp⟩)
        · exact ⟨s.nextContext, holds_hold.2 (.inl ⟨rfl, rfl, rfl⟩)⟩
        · exact ⟨n, h.keeps hp⟩
      · rintro ⟨n, hp⟩
        obtain ⟨-, -, rfl⟩ | ⟨-, hp⟩ := holds_hold.1 hp
        · exact .inl rfl
        · exact .inr ⟨n, hp⟩
    · rw [Function.update_of_ne hq, h.acquired]
      constructor
      · rintro ⟨n, hp⟩
        exact ⟨n, h.keeps hp⟩
      · rintro ⟨n, hp⟩
        obtain ⟨-, hq', -⟩ | ⟨-, hp⟩ := holds_hold.1 hp
        · exact absurd hq' hq
        · exact ⟨n, hp⟩

theorem Exclusive.enter {o' : MCOrchestrator} (h : Exclusive o s)
    (hacquire : s.orchestrator.acquirePort protocol = .ok (port, o')) :
    Exclusive o (s.hold o' protocol port) := by
  obtain ⟨hfresh, hdistinct, hacquired⟩ := h.booked.enter hacquire
  obtain ⟨hfirst, rfl⟩ := acquirePort_ok.1 hacquire
  obtain ⟨hrange, hfree⟩ := firstFree_mem hfirst
  rw [mem_range, h.range_eq] at hrange
  rw [MCOrchestrator.unavailablePorts, Finset.mem_union, not_or, h.reserved_eq] at hfree
  refine ⟨?_, hfresh, hdistinct, hacquired, ?_⟩
  · dsimp only [hold, MCOrchestrator.setAcquired]
    rw [h.fixed]
  · intro n q p hp
    obtain ⟨-, rfl, rfl⟩ | ⟨-, hp⟩ := holds_hold.1 hp
    · exact ⟨hrange, hfree.2⟩
    · exact h.allowed hp

theorem step_enter {o' : MCOrchestrator}
    (hacquire : s.orchestrator.acquirePort protocol = .ok (port, o')) :
    s.step (.enter protocol) = some (s.hold o' protocol port) := by
  unfold step
  dsimp only
  rw [hacquire]

theorem holds_erase {m : Nat} {q : PortProtocol} {p : Int} :
    (s.contexts.erase n).get? m = some (q, p) ↔ m ≠ n ∧ s.Holds m q p := by
  by_cases hm : m = n
  · subst hm
    simp
  · simp [Dict.get?_erase_of_ne _ hm, hm, Holds]

/-- Giving back the port of a context frees it for the others. -/
theorem Booked.exit (h : Booked s) (hheld : s.Holds n protocol port) :
    Booked
      { s with
        orchestrator := s.orchestrator.releasePort protocol port
        contexts := s.contexts.erase n } := by
  refine ⟨fun hp => h.fresh (holds_erase.1 hp).2,
    fun hp hp' => h.distinct (holds_erase.1 hp).2 (holds_erase.1 hp').2, ?_⟩
  intro q p
  dsimp only [MCOrchestrator.releasePort, MCOrchestrator.setAcquired, Holds]
  simp only [holds_erase]
  by_cases hq : q = protocol
  · subst hq
    rw [Function.update_self, Finset.mem_erase, h.acquired]
    constructor
    · rintro ⟨hne, m, hp⟩
      refine ⟨m, ?_, hp⟩
      rintro rfl
      rw [Holds, hheld] at hp
      cases hp
      exact hne rfl
    · rintro ⟨m, hm, hp⟩
      refine ⟨?_, m, hp⟩
      rintro rfl
      exact hm (h.distinct hp hheld)
  · rw [Function.update_of_ne hq, h.acquired]
    constructor
    · rintro ⟨m, hp⟩
      refine ⟨m, ?_, hp⟩
      rintro rfl
      rw [Holds, hheld] at hp
      cases hp
      exact hq rfl
    · rintro ⟨m, -, hp⟩
      exact ⟨m, hp⟩

theorem Exclusive.exit (h : Exclusive o s) (hheld : s.Holds n protocol port) :
    Exclusive o
      { s with
        orchestrator := s.orchestrator.releasePort protocol port
        contexts := s.contexts.erase n } := by
  obtain ⟨hfresh, hdistinct, hacquired⟩ := h.booked.exit hheld
  refine ⟨?_, hfresh, hdistinct, hacquired, fun hp => h.allowed (holds_erase.1 hp).2⟩
  dsimp only [MCOrchestrator.releasePort, MCOrchestrator.setAcquired]
  rw [h.fixed]

theorem Exclusive.step {a : PortAction} (h : Exclusive o s) (hstep : s.step a = some s') :
    Exclusive o s' := by
  cases a with
  | enter protocol =>
    unfold Ports.step at hstep
    dsimp only at hstep
    split at hstep
    · cases hstep
      exact h
    · next port o' hacquire =>
      cases hstep
      exact h.enter hacquire
  | exit context =>
    obtain ⟨⟨protocol, port⟩, hheld, rfl⟩ := Option.map_eq_some_iff.1 hstep
    exact h.exit hheld

theorem exclusive_start (o : MCOrchestrator) : Exclusive o (start o) := by
  have hnone (n : Nat) (protocol : PortProtocol) (port : Int) :
      ¬ (start o).Holds n protocol port := by
    rintro ⟨⟩
  exact ⟨rfl, fun h => absurd h (hnone _ _ _), fun h => absurd h (hnone _ _ _),
    ⟨fun h => absurd h (Finset.notMem_empty _), fun ⟨n, h⟩ => absurd h (hnone _ _ _)⟩,
    fun h => absurd h (hnone _ _ _)⟩

theorem Reachable.exclusive (h : Reachable o s) : Exclusive o s :=
  h.invariant (exclusive_start o) fun _ _ _ hs _ hstep => hs.step hstep

/-- `acquire_port` raises when no port of the range is left. -/
theorem Exclusive.error_iff (h : Exclusive o s) :
    (∃ e, s.orchestrator.acquirePort protocol = .error e) ↔
      ∀ port, o.serverPortRange.1 ≤ port → port ≤ o.serverPortRange.2 →
        (∃ n, s.Holds n protocol port) ∨ port ∈ o.reservedProxyPorts protocol := by
  rw [acquirePort_error, firstFree_eq_none_iff, h.range_eq]
  simp only [mem_range, MCOrchestrator.unavailablePorts, Finset.mem_union, h.acquired,
    h.reserved_eq, and_imp]

theorem step_other {a : PortAction} (hother : ¬ s.Concerns protocol a)
    (hstep : s.step a = some s') :
    s'.orchestrator.acquiredServerPorts protocol =
      s.orchestrator.acquiredServerPorts protocol := by
  cases a with
  | enter protocol' =>
    have hne : protocol ≠ protocol' := Ne.symm hother
    unfold Ports.step at hstep
    dsimp only at hstep
    split at hstep
    · cases hstep
      rfl
    · next port o' hacquire =>
      cases hstep
      obtain ⟨-, rfl⟩ := acquirePort_ok.1 hacquire
      exact Function.update_of_ne hne _ _
  | exit context =>
    obtain ⟨⟨protocol', port⟩, hheld, rfl⟩ := Option.map_eq_some_iff.1 hstep
    have hne : protocol ≠ protocol' := by
      rintro rfl
      exact hother ⟨port, hheld⟩
    exact Function.update_of_ne hne _ _

theorem Exclusive.reach_fill (h : Exclusive o s) (protocol : PortProtocol) (k : Nat) :
    ∃ s', Reach Ports.step IsEnter s s' ∧ Exclusive o s' ∧
      s'.orchestrator.unavailablePorts protocol =
        fill (Int.range o.serverPortRange.1 (o.serverPortRange.2 + 1))
          (s.orchestrator.unavailablePorts protocol) k := by
  induction k with
  | zero => exact ⟨s, .refl, h, rfl⟩
  | succ k ih =>
    obtain ⟨s₁, hreach, hex, hunavailable⟩ := ih
    unfold fill
    rw [← hunavailable]
    cases hfirst : firstFree (Int.range o.serverPortRange.1 (o.serverPortRange.2 + 1))
      (s₁.orchestrator.unavailablePorts protocol) with
    | none => exact ⟨s₁, hreach, hex, rfl⟩
    | some port =>
      have hacquire := (acquirePort_ok (o := s₁.orchestrator)).2 ⟨hex.range_eq ▸ hfirst, rfl⟩
      refine ⟨_, .tail (.enter protocol) hreach trivial (step_enter hacquire),
        hex.enter hacquire, ?_⟩
      dsimp only [hold, MCOrchestrator.unavailablePorts, MCOrchestrator.setAcquired]
      rw [Function.update_self, Finset.insert_union]
      rfl

theorem Exclusive.exists_holds (h : Exclusive o s)
    (hrange : o.serverPortRange.1 ≤ port ∧ port ≤ o.serverPortRange.2)
    (hfree : port ∉ s.orchestrator.unavailablePorts protocol) :
    ∃ s' n, Reach Ports.step IsEnter s s' ∧ s'.Holds n protocol port := by
  obtain ⟨k, hk⟩ := exists_firstFree_fill (mem_range.2 hrange) hfree
  obtain ⟨s₁, hreach, hex, hunavailable⟩ := h.reach_fill protocol k
  rw [← hunavailable, ← hex.range_eq] at hk
  have hacquire := (acquirePort_ok (o := s₁.orchestrator)).2 ⟨hk, rfl⟩
  exact ⟨_, s₁.nextContext, .tail (.enter protocol) hreach trivial (step_enter hacquire),
    Dict.get?_set_self s₁.contexts s₁.nextContext (protocol, port)⟩

theorem Exclusive.released (h : Exclusive o s) (hheld : s.Holds n protocol port)
    (hstep : s.step (.exit n) = some s') :
    port ∉ s'.orchestrator.unavailablePorts protocol := by
  have hex := h.step hstep
  obtain ⟨⟨protocol', port'⟩, hheld', rfl⟩ := Option.map_eq_some_iff.1 hstep
  cases (show s.contexts.get? n = some (protocol, port) from hheld).symm.trans hheld'
  rw [MCOrchestrator.unavailablePorts, Finset.mem_union, hex.reserved_eq, not_or]
  refine ⟨?_, (h.allowed hheld).2⟩
  simp [MCOrchestrator.releasePort, MCOrchestrator.setAcquired]

end

/-- **Port allocation is exclusive and leak-free.** In every state reached by entering and exiting
contexts: the ports held for a protocol are pairwise distinct, in the range, and no proxy's; they
are the acquired ones, which only contexts for the protocol change; acquiring raises just when every
port of the range is held or reserved, and then changes nothing; and a port that is given back can
be acquired at once, or after the free ones before it. -/
theorem ports_exclusive {o : MCOrchestrator} {s : Ports} (h : Reachable o s)
    (protocol : PortProtocol) :
    (∀ n n' port, s.Holds n protocol port → s.Holds n' protocol port → n = n') ∧
    (∀ n port, s.Holds n protocol port → o.serverPortRange.1 ≤ port ∧
      port ≤ o.serverPortRange.2 ∧ port ∉ o.reservedProxyPorts protocol) ∧
    (∀ port, port ∈ s.orchestrator.acquiredServerPorts protocol ↔ ∃ n, s.Holds n protocol port) ∧
    (∀ a s', s.step a = some s' → ¬ s.Concerns protocol a →
      s'.orchestrator.acquiredServerPorts protocol =
        s.orchestrator.acquiredServerPorts protocol) ∧
    ((∃ e, s.orchestrator.acquirePort protocol = .error e) ↔
      ∀ port, o.serverPortRange.1 ≤ port → port ≤ o.serverPortRange.2 →
        (∃ n, s.Holds n protocol port) ∨ port ∈ o.reservedProxyPorts protocol) ∧
    ((∃ e, s.orchestrator.acquirePort protocol = .error e) → s.step (.enter protocol) = some s) ∧
    (∀ n port s', s.Holds n protocol port → s.step (.exit n) = some s' →
      (∃ port' o', s'.orchestrator.acquirePort protocol = .ok (port', o')) ∧
      ∃ s'' n', Reach step IsEnter s' s'' ∧ s''.Holds n' protocol port) := by
  have hex := h.exclusive
  refine ⟨fun _ _ _ => hex.distinct, fun _ _ hp => ?_, fun _ => hex.acquired,
    fun _ _ hstep hother => step_other hother hstep, hex.error_iff, ?_, ?_⟩
  · obtain ⟨⟨hlo, hhi⟩, hfree⟩ := hex.allowed hp
    exact ⟨hlo, hhi, hfree⟩
  · rintro ⟨e, he⟩
    unfold step
    dsimp only
    rw [he]
  · intro n port s' hheld hstep
    have hfree := hex.released hheld hstep
    have hex' := hex.step hstep
    refine ⟨?_, hex'.exists_holds (hex.allowed hheld).1 hfree⟩
    cases hacquire : s'.orchestrator.acquirePort protocol with
    | ok r => exact ⟨r.1, r.2, rfl⟩
    | error e =>
      have hnone := acquirePort_error.1 ⟨e, hacquire⟩
      rw [hex'.range_eq, firstFree_eq_none_iff] at hnone
      exact absurd (hnone port (mem_range.2 (hex.allowed hheld).1)) hfree

/-- The first of two ports is given back and acquired again; then no port of the range is left. -/
theorem ports_exclusive_full :
    ∃ s, Reachable { serverPortRange := (40000, 40001) } s ∧ s.Holds 2 .tcp 40001 ∧
      s.Holds 3 .tcp 40000 ∧ ∃ e, s.orchestrator.acquirePort .tcp = .error e := by
  obtain ⟨s, hs, hsecond, hfirst⟩ := Reach.exists_of_runIn step (fun _ _ => True)
    (start { serverPortRange := (40000, 40001) })
    [.enter .tcp, .enter .udp, .enter .tcp, .exit 1, .exit 0, .enter .tcp]
    (p := fun s => s.Holds 2 .tcp 40001 ∧ s.Holds 3 .tcp 40000) (by decide +kernel)
  obtain ⟨-, -, -, -, hraises, -⟩ := ports_exclusive hs .tcp
  refine ⟨s, hs, hsecond, hfirst, hraises.2 fun port hlo hhi => .inl ?_⟩
  dsimp only at hlo hhi
  obtain rfl | rfl : port = 40000 ∨ port = 40001 := by omega
  · exact ⟨3, hfirst⟩
  · exact ⟨2, hsecond⟩

end Ports

end Silkjam.Orchestrator

import Silkjam.Server.Launch
import Silkjam.Supervisor.Outcomes

/-!
# A start that fails

Every prefix of `_start` leaves a state on which `_stop` works as far as the ports go: the contexts
that were entered are on the stack (`Keeping`), whatever step raised, and `Supervisor._stop` closes
the stack first. After that `_stop` reads `server_proc`. If neither this start nor an earlier one
came as far as creating the process, the attribute is not set, and the `AttributeError` takes the
place of what `_start` raised.
-/

namespace Silkjam.Server

open Supervisor Transition Orchestrator Failing

namespace Launch

/-! ### The contexts -/

/-- The contexts that the backend entered and that are open are those on its stack. -/
structure Keeping (w : Launch) : Prop where
  booked : Ports.Booked w.ports
  fresh : ∀ n ∈ w.own, n < w.ports.nextContext
  onStack : ∀ n ∈ w.own, w.ports.contexts.get? n ≠ none → n ∈ w.held

/-- From `w` to `w'` the code of `_start` ran. -/
structure Starts (w w' : Launch) : Prop where
  id : w'.id = w.id
  sup : w'.sup = w.sup
  units : w'.units = w.units
  started : w'.started = w.started
  serverProc : w'.serverProc = w.serverProc
  raised : w'.raised = w.raised
  stack : w.stack ≠ none → w'.stack ≠ none
  keeping : w.stack ≠ none → w.Keeping → w'.Keeping

section
variable {w w' w'' : Launch}

theorem Starts.refl (w : Launch) : Starts w w :=
  ⟨rfl, rfl, rfl, rfl, rfl, rfl, fun h => h, fun _ h => h⟩

theorem Starts.trans (h : Starts w w') (h' : Starts w' w'') : Starts w w'' :=
  ⟨h'.id.trans h.id, h'.sup.trans h.sup, h'.units.trans h.units, h'.started.trans h.started,
    h'.serverProc.trans h.serverProc, h'.raised.trans h.raised,
    fun hs => h'.stack (h.stack hs), fun hs hk => h'.keeping (h.stack hs) (h.keeping hs hk)⟩

theorem acquirePort_supervisor {o o' : MCOrchestrator} {protocol : PortProtocol} {port : Int}
    (h : o.acquirePort protocol = .ok (port, o')) : o'.supervisor = o.supervisor := by
  rw [(Ports.acquirePort_ok.1 h).2]
  rfl

theorem enterPort_keeps (protocol : PortProtocol) : Keeps Starts (enterPort protocol) := by
  intro w
  unfold after EStateM.run enterPort
  cases hacquire : w.ports.orchestrator.acquirePort protocol with
  | error e => exact .refl w
  | ok r =>
    obtain ⟨port, o⟩ := r
    refine ⟨rfl, acquirePort_supervisor hacquire, rfl, rfl, rfl, rfl, ?_, ?_⟩
    · intro hstack
      simpa using hstack
    · intro hstack hkeeping
      obtain ⟨stack, hs⟩ := Option.ne_none_iff_exists'.1 hstack
      refine ⟨hkeeping.booked.enter hacquire, ?_, ?_⟩
      · intro n hn
        rcases List.mem_cons.1 hn with rfl | hn
        · exact Nat.lt_succ_self _
        · exact Nat.lt_succ_of_lt (hkeeping.fresh n hn)
      · intro n hn hopen
        rcases List.mem_cons.1 hn with rfl | hn
        · simp [held, hs]
        · have hne : n ≠ w.ports.nextContext := (hkeeping.fresh n hn).ne
          have hopen' : w.ports.contexts.get? n ≠ none := by
            rwa [← Dict.get?_set_of_ne w.ports.contexts (protocol, port) hne]
          have hin := hkeeping.onStack n hn hopen'
          simp only [held, hs, Option.getD_some, Option.map_some] at hin ⊢
          exact List.mem_cons_of_mem _ hin

theorem answer_keeps {α : Type} (r : Except (Exc UnitId) α) : Keeps Starts (answer r) := by
  cases r with
  | ok a => exact keeps_pure Starts.refl a
  | error e => exact keeps_throw Starts.refl (foreign e)

theorem write_keeps {f : Launch → Launch} (hf : ∀ w, ∃ icon properties voicechat,
    f w = { w with icon := icon, properties := properties, voicechatProperties := voicechat }) :
    Keeps Starts (modify f : EStateM (Exc UnitId) Launch PUnit) := by
  apply keeps_modify
  intro w
  obtain ⟨icon, properties, voicechat, heq⟩ := hf w
  rw [heq]
  exact ⟨rfl, rfl, rfl, rfl, rfl, rfl, fun h => h, fun _ h => ⟨h.booked, h.fresh, h.onStack⟩⟩

theorem keeps_then {α β : Type} {x : EStateM (Exc UnitId) Launch α}
    {f : α → EStateM (Exc UnitId) Launch β} (hx : Keeps Starts x) (hf : ∀ a, Keeps Starts (f a)) :
    Keeps Starts (x >>= f) := by
  refine keeps_bind ?_ hx hf
  intro w₁ w₂ w₃ h h'
  exact h.trans h'

/-- Whatever step of it raises, `_start` leaves the contexts it entered on the stack. -/
theorem prepare_keeps (files : Files) : Keeps Starts (prepare files) := by
  unfold prepare
  refine keeps_then (answer_keeps _) fun icon => ?_
  refine keeps_then (write_keeps fun w => ⟨_, _, _, rfl⟩) fun _ => ?_
  refine keeps_then (enterPort_keeps .tcp) fun serverPort => ?_
  refine keeps_then (enterPort_keeps .tcp) fun rconPort => ?_
  refine keeps_then (answer_keeps _) fun properties => ?_
  refine keeps_then (write_keeps fun w => ⟨_, _, _, rfl⟩) fun _ => ?_
  refine keeps_then (answer_keeps _) fun _ => ?_
  refine keeps_then (write_keeps fun w => ⟨_, _, _, rfl⟩) fun _ => ?_
  cases files.voicechat with
  | none => exact keeps_pure Starts.refl ()
  | some voicechat =>
    refine keeps_then (enterPort_keeps .udp) fun voicePort => ?_
    refine keeps_then (answer_keeps _) fun properties => ?_
    refine keeps_then (write_keeps fun w => ⟨_, _, _, rfl⟩) fun _ => ?_
    exact answer_keeps _

theorem enterPort_raises (protocol : PortProtocol) :
    Raises (· ≠ attributeError) (enterPort protocol) := by
  intro w e w' hrun
  unfold EStateM.run enterPort at hrun
  split at hrun
  · cases hrun
    decide
  · cases hrun

theorem answer_raises {α : Type} (r : Except (Exc UnitId) α) :
    Raises (· ≠ attributeError) (answer r) := by
  cases r with
  | ok a => exact raises_pure a
  | error e => exact raises_throw (foreign_ne_attributeError e)

theorem prepare_raises (files : Files) : Raises (· ≠ attributeError) (prepare files) := by
  unfold prepare
  refine raises_bind (answer_raises _) fun icon => ?_
  refine raises_bind (raises_modify _) fun _ => ?_
  refine raises_bind (enterPort_raises .tcp) fun serverPort => ?_
  refine raises_bind (enterPort_raises .tcp) fun rconPort => ?_
  refine raises_bind (answer_raises _) fun properties => ?_
  refine raises_bind (raises_modify _) fun _ => ?_
  refine raises_bind (answer_raises _) fun _ => ?_
  refine raises_bind (raises_modify _) fun _ => ?_
  cases files.voicechat with
  | none => exact raises_pure ()
  | some voicechat =>
    refine raises_bind (enterPort_raises .udp) fun voicePort => ?_
    refine raises_bind (answer_raises _) fun properties => ?_
    refine raises_bind (raises_modify _) fun _ => ?_
    exact answer_raises _

theorem start_ok {files : Files} (h : (start files).run w = .ok () w') :
    Starts (superStart w) w' :=
  (prepare_keeps files).ok h

theorem start_error {files : Files} {e : Exc UnitId} (h : (start files).run w = .error e w') :
    Starts (superStart w) w' ∧ e ≠ attributeError :=
  ⟨(prepare_keeps files).error h, prepare_raises files _ _ _ h⟩

theorem Keeping.superStart (h : w.Keeping) (hstack : w.stack = none) :
    (superStart w).Keeping := by
  refine ⟨h.booked, h.fresh, fun n hn hopen => ?_⟩
  have hin := h.onStack n hn hopen
  rw [held, hstack] at hin
  exact hin

/-! ### Closing the stack -/

/-- From `s` to `s'` contexts were exited. -/
structure Closing (s s' : Ports) : Prop where
  booked : s.Booked → s'.Booked
  closed : ∀ n, s.contexts.get? n = none → s'.contexts.get? n = none
  nextContext : s'.nextContext = s.nextContext
  supervisor : s'.orchestrator.supervisor = s.orchestrator.supervisor

theorem Closing.refl (s : Ports) : Closing s s :=
  ⟨fun h => h, fun _ h => h, rfl, rfl⟩

theorem Closing.trans {s s' s'' : Ports} (h : Closing s s') (h' : Closing s' s'') : Closing s s'' :=
  ⟨fun hb => h'.booked (h.booked hb), fun n hn => h'.closed n (h.closed n hn),
    h'.nextContext.trans h.nextContext, h'.supervisor.trans h.supervisor⟩

theorem exit_closing {s s' : Ports} {n : Nat} (h : s.step (.exit n) = some s') :
    Closing s s' ∧ s'.contexts.get? n = none ∧ ∀ m ≠ n, s'.contexts.get? m = s.contexts.get? m := by
  obtain ⟨⟨protocol, port⟩, hheld, rfl⟩ := Option.map_eq_some_iff.1 h
  refine ⟨⟨fun hb => hb.exit hheld, ?_, rfl, rfl⟩, ?_, ?_⟩
  · intro m hm
    by_cases hne : m = n
    · rw [hne]
      exact Dict.get?_erase_self _ _
    · exact (Dict.get?_erase_of_ne _ hne).trans hm
  · exact Dict.get?_erase_self _ _
  · intro m hne
    exact Dict.get?_erase_of_ne _ hne

theorem exitAll_closing (l : List Nat) (s : Ports) :
    Closing s (l.foldl (fun s n => (s.step (.exit n)).getD s) s) ∧
      ∀ n ∈ l, (l.foldl (fun s n => (s.step (.exit n)).getD s) s).contexts.get? n = none := by
  induction l generalizing s with
  | nil => exact ⟨.refl s, by simp⟩
  | cons n l ih =>
    obtain ⟨hrest, hclosed⟩ := ih ((s.step (.exit n)).getD s)
    have hfirst : Closing s ((s.step (.exit n)).getD s) ∧
        ((s.step (.exit n)).getD s).contexts.get? n = none := by
      cases hstep : s.step (.exit n) with
      | none => exact ⟨.refl s, Option.map_eq_none_iff.1 hstep⟩
      | some s' => exact ⟨(exit_closing hstep).1, (exit_closing hstep).2.1⟩
    refine ⟨hfirst.1.trans hrest, fun m hm => ?_⟩
    rcases List.mem_cons.1 hm with rfl | hm
    · exact hrest.closed m hfirst.2
    · exact hclosed m hm

/-- No context of the backend is open. -/
def Released (w : Launch) : Prop :=
  w.stack = none ∧ ∀ n ∈ w.own, w.ports.contexts.get? n = none

theorem Keeping.closeStack (h : w.Keeping) : w.closeStack.Keeping ∧ w.closeStack.Released := by
  obtain ⟨hclosing, hclosed⟩ := exitAll_closing w.held w.ports
  have hreleased (n : Nat) (hn : n ∈ w.own) : w.closeStack.ports.contexts.get? n = none := by
    by_cases hopen : w.ports.contexts.get? n = none
    · exact hclosing.closed n hopen
    · exact hclosed n (h.onStack n hn hopen)
  refine ⟨⟨hclosing.booked h.booked, ?_, fun n hn hopen => absurd (hreleased n hn) hopen⟩,
    rfl, hreleased⟩
  intro n hn
  rw [show w.closeStack.ports.nextContext = w.ports.nextContext from hclosing.nextContext]
  exact h.fresh n hn

theorem closeStack_sup (w : Launch) : w.closeStack.sup = w.sup :=
  (exitAll_closing w.held w.ports).1.supervisor

theorem Keeping.released (h : w.Keeping) (hstack : w.stack = none) : w.Released := by
  refine ⟨hstack, fun n hn => ?_⟩
  by_contra hopen
  have hin := h.onStack n hn hopen
  rw [Launch.held, hstack] at hin
  cases hin

theorem ports_supervisor {a : PortAction} {s s' : Ports} (hstep : s.step a = some s') :
    s'.orchestrator.supervisor = s.orchestrator.supervisor := by
  cases a with
  | exit n => exact (exit_closing hstep).1.supervisor
  | enter protocol =>
    unfold Ports.step at hstep
    dsimp only at hstep
    split at hstep
    · cases hstep
      rfl
    · next port o hacquire =>
      cases hstep
      exact acquirePort_supervisor hacquire

theorem Keeping.ports {a : PortAction} {ports : Ports} (h : w.Keeping)
    (hstep : w.ports.step a = some ports) : ({ w with ports := ports } : Launch).Keeping := by
  cases a with
  | exit n =>
    obtain ⟨hclosing, hclosed, hkept⟩ := exit_closing hstep
    refine ⟨hclosing.booked h.booked, fun m hm => ?_, fun m hm hopen => ?_⟩
    · rw [hclosing.nextContext]
      exact h.fresh m hm
    · exact h.onStack m hm fun hnone => hopen (hclosing.closed m hnone)
  | enter protocol =>
    unfold Ports.step at hstep
    dsimp only at hstep
    split at hstep
    · cases hstep
      exact h
    · next port o hacquire =>
      cases hstep
      refine ⟨h.booked.enter hacquire, fun m hm => ?_, fun m hm hopen => ?_⟩
      · exact Nat.lt_succ_of_lt (h.fresh m hm)
      · have hne : m ≠ w.ports.nextContext := (h.fresh m hm).ne
        apply h.onStack m hm
        rwa [← Dict.get?_set_of_ne w.ports.contexts (protocol, port) hne]

theorem Keeping.orchestrator {o : MCOrchestrator} (h : w.Keeping)
    (hacquired : o.acquiredServerPorts = w.ports.orchestrator.acquiredServerPorts) :
    ({ w with ports := { w.ports with orchestrator := o } } : Launch).Keeping := by
  refine ⟨⟨h.booked.fresh, h.booked.distinct, ?_⟩, h.fresh, h.onStack⟩
  intro protocol port
  show port ∈ o.acquiredServerPorts protocol ↔ _
  rw [hacquired]
  exact h.booked.acquired

end

/-! ### The units of the backend -/

/-- Nothing runs, and nothing is queued. -/
structure Resting (s : Supervisor BackendUnit) : Prop where
  running : s.running = []
  queue : s.queue = []
  loop : s.loop = .idle
  state : ∀ u, (s.state u).status.isOff = true ∧ (s.state u).pendingStart = false

section
variable {s : Supervisor BackendUnit}

theorem Resting.stopUnit (h : Resting s) (u : BackendUnit) :
    Resting (s.stopUnitNowait u true).1 := by
  obtain ⟨hoff, hpending⟩ := h.state u
  have hstopped : Resting (s.modify (s.ref u) fun st => { st with status := .stopped }) := by
    refine ⟨h.running, h.queue, h.loop, fun v => ?_⟩
    by_cases hv : v = u
    · subst hv
      have hself : (s.modify (s.ref v) fun st => { st with status := .stopped }).state v =
          { s.state v with status := .stopped } := Function.update_self _ _ _
      rw [hself]
      exact ⟨rfl, hpending⟩
    · have hne : s.ref v ≠ s.ref u := fun heq => hv (congrArg StateRef.unit heq)
      have hsame : (s.modify (s.ref u) fun st => { st with status := .stopped }).state v =
          s.state v := Function.update_of_ne hne _ _
      rw [hsame]
      exact h.state v
  unfold stopUnitNowait
  split
  · exact h
  · cases hstatus : (s.state u).status with
    | ready => simpa [hpending] using hstopped
    | stopped => simpa [hpending] using hstopped
    | _ => rw [hstatus] at hoff; cases hoff

theorem Resting.stop (h : Resting s) : Resting s.stop := by
  have hall : ∀ (l : List BackendUnit) (s : Supervisor BackendUnit), Resting s →
      Resting (l.foldl (fun s u => (s.stopUnitNowait u true).1) s) := by
    intro l
    induction l with
    | nil => exact fun s h => h
    | cons u l ih => exact fun s h => ih _ (h.stopUnit u)
  have hstopped : Resting s.stopAll := hall s.units s h
  unfold Supervisor.stop
  dsimp only
  rw [if_neg (by simp [hstopped.running, hstopped.queue])]
  exact hstopped

end

theorem init_resting (listing : ServerListing) : Resting (MCBackend.init listing).units := by
  refine ⟨rfl, rfl, rfl, fun u => ?_⟩
  cases u <;> exact ⟨rfl, rfl⟩

/-! ### Runs in which no start succeeds -/

theorem waitAll_ok {waits : List Wait} (h : ∀ wait ∈ waits, wait.isRaised = false) :
    waitAll waits = .ok () := by
  induction waits with
  | nil => rfl
  | cons wait waits ih =>
    cases wait with
    | exited => rfl
    | timedOut => exact ih fun wait hw => h wait (List.mem_cons_of_mem _ hw)
    | raised e => cases h _ List.mem_cons_self

theorem closeProcess_quiet {env : Teardown} (h : env.quiet = true) : closeProcess env = .ok () := by
  obtain ⟨exited, drain, stop, sigint, sigterm, logs⟩ := env
  simp only [Teardown.quiet, Bool.and_eq_true, Bool.not_eq_true'] at h
  obtain ⟨⟨⟨⟨hdrain, hstop⟩, hsigint⟩, hsigterm⟩, hlogs⟩ := h
  have hwaits : waitAll [stop, sigint, sigterm] = .ok () := by
    apply waitAll_ok
    simp [hstop, hsigint, hsigterm]
  cases drain with
  | error e => cases hdrain
  | ok _ =>
    cases logs with
    | error e => cases hlogs
    | ok _ =>
      unfold closeProcess
      rw [hwaits]
      cases exited <;> rfl

/-- No start of the backend succeeds, nothing of the environment raises while it stops, and it is
not removed with an unfinished task. -/
def FailsQuietly (w : Launch) : Action → Prop
  | .sup a => RemovesIdle w.unit w.sup a
  | .initialised _ (.ok _) => False
  | .closed _ env => env.quiet = true
  | _ => True

instance (w : Launch) : (a : Action) → Decidable (FailsQuietly w a)
  | .sup a => inferInstanceAs (Decidable (RemovesIdle w.unit w.sup a))
  | .initialised _ (.ok _) => inferInstanceAs (Decidable False)
  | .initialised _ (.error _) => inferInstanceAs (Decidable True)
  | .closed _ env => inferInstanceAs (Decidable (env.quiet = true))
  | .ports _ | .reconfigure .. | .units _ | .enter .. | .created .. | .exit _ | .release _
  | .unitsFailed .. => inferInstanceAs (Decidable True)

/-- `_start` has raised, and `_stop` is still to run or runs. -/
def Tearing (w : Launch) : Prop :=
  w.code = .idle ∧ w.started = true ∧ w.stack ≠ none ∨
  w.code = .stopping ∧ w.started = false ∧ w.stack ≠ none ∨
  w.code = .closing ∧ w.started = false ∧ w.stack = none ∧ w.serverProc ≠ none

/-- The backend is at rest, in `_start`, or on its way out after a start that failed. -/
def Phase (w : Launch) : Prop :=
  w.code = .idle ∧ w.started = false ∧ w.stack = none ∨
  (w.code = .creating ∨ w.code = .initialising) ∧ w.started = true ∧ w.stack ≠ none ∧
    (∃ t, Enters w.sup w.unit t) ∨
  w.Tearing ∧ ∃ t e, w.raised t = some e ∧ FailedWith w.sup w.unit t e

/-- The invariant. -/
structure Coherent (w : Launch) : Prop where
  wf : WFOn (· = w.unit) w.sup
  truthful : Truthful w.sup
  keeping : w.Keeping
  resting : Resting w.units
  phase : w.Phase
  told : ∀ t e, w.raised t = some e → e ≠ attributeError ∧
    (w.sup.taskResult t ≠ none ∨ FailedWith w.sup w.unit t e ∧ w.Tearing)

section
variable {w w₁ w' : Launch} {t : TaskId} {e : Exc UnitId} {o : Outcome UnitId}

theorem inEnter_iff : w.inEnter t = true ↔ Enters w.sup w.unit t := by
  unfold inEnter Enters
  split
  · next u r c hk =>
    rw [decide_eq_true_eq, hk]
    constructor
    · intro hu
      exact ⟨_, r, rfl, hu, rfl⟩
    · rintro ⟨k, r', hk', hu, -⟩
      cases hk'
      exact hu
  · next hno =>
    refine iff_of_false (by simp) ?_
    rintro ⟨⟨u, pc, c⟩, r, hk, hu, hpc⟩
    cases hpc
    exact hno _ _ _ hk

theorem inExit_iff (hw : WFOn (· = w.unit) w.sup) :
    w.inExit t = true ↔ Exits w.sup (w.sup.ref w.unit) t := by
  unfold inExit
  split
  · next u r c hk =>
    rw [decide_eq_true_eq]
    constructor
    · rintro rfl
      obtain rfl : r = w.sup.ref w.unit := ref_of_live hw hk rfl
      exact ⟨_, hk, rfl, rfl⟩
    · rintro ⟨k, hk', hu, -⟩
      rw [hk] at hk'
      cases hk'
      exact hu
  · next hno =>
    refine iff_of_false (by simp) ?_
    rintro ⟨⟨u, pc, c⟩, hk, hu, hpc⟩
    cases hpc
    exact hno _ _ _ hk

/-- A step that leaves the orchestrator as a supervisor alone. -/
theorem Coherent.congr (h : w.Coherent) (hid : w'.id = w.id) (hsup : w'.sup = w.sup)
    (hraised : w'.raised = w.raised) (hkeeping : w'.Keeping) (hresting : Resting w'.units)
    (hphase : w'.Phase) (htearing : w.Tearing → w'.Tearing) : w'.Coherent := by
  have hunit : w'.unit = w.unit := congrArg UnitId.backend hid
  refine ⟨?_, ?_, hkeeping, hresting, hphase, fun t e he => ?_⟩
  · rw [hsup, hunit]
    exact h.wf
  · rw [hsup]
    exact h.truthful
  · rw [hraised] at he
    rw [hsup, hunit]
    obtain ⟨hne, htold⟩ := h.told t e he
    exact ⟨hne, htold.imp_right fun ⟨hfailed, ht⟩ => ⟨hfailed, htearing ht⟩⟩

/-- A step of the orchestrator that is no segment of the backend's coroutines. -/
theorem Coherent.sup {a : Supervisor.Action UnitId} (h : w.Coherent)
    (hok : RemovesIdle w.unit w.sup a) (hresumes : ¬ w.Resumes a) (hstep : w.stepSup a = some w') :
    w'.Coherent := by
  obtain ⟨s', hsup, rfl⟩ := Option.map_eq_some_iff.1 hstep
  have hwf : WFOn (· = w.unit) s' := (stepOn_evolves h.wf (hok.registered h.wf) hsup).wf
  have henters (t : TaskId) (ht : Enters w.sup w.unit t) : Enters s' w.unit t := by
    refine ht.step h.wf (fun o ha => ?_) hsup
    rw [ha] at hresumes
    exact hresumes (.inl (inEnter_iff.2 ht))
  have hfails (t : TaskId) (e : Exc UnitId) (ht : FailedWith w.sup w.unit t e) :
      FailedWith s' w.unit t e := by
    refine ht.step h.wf hwf (fun o ha => ?_) hsup
    rw [ha] at hresumes
    exact hresumes (.inr ((inExit_iff h.wf).2 ht.1))
  refine ⟨hwf, h.truthful.step h.wf hsup, h.keeping.orchestrator rfl, h.resting, ?_, ?_⟩
  · rcases h.phase with hidle | ⟨hcode, hstarted, hstack, t, ht⟩ | ⟨htearing, t, e, he, ht⟩
    · exact .inl hidle
    · exact .inr (.inl ⟨hcode, hstarted, hstack, t, henters t ht⟩)
    · exact .inr (.inr ⟨htearing, t, e, he, hfails t e ht⟩)
  · intro t e he
    obtain ⟨hne, hended | ⟨hfailed, htearing⟩⟩ := h.told t e he
    · obtain ⟨res, hres⟩ := Option.ne_none_iff_exists'.1 hended
      refine ⟨hne, .inl ?_⟩
      rw [show (w.setSup s').sup = s' from rfl, step_result h.wf hsup hres]
      simp
    · exact ⟨hne, .inr ⟨hfails t e hfailed, htearing⟩⟩

theorem Coherent.startFailed (h : w.Coherent) (hid : w₁.id = w.id) (hsup : w₁.sup = w.sup)
    (hraised : w₁.raised = w.raised) (hkeeping : w₁.Keeping) (hresting : Resting w₁.units)
    (hstarted : w₁.started = true) (hstack : w₁.stack ≠ none) (hne : e ≠ attributeError)
    (henters : Enters w.sup w.unit t) (hstep : w₁.startFailed t e = some w') : w'.Coherent := by
  obtain ⟨s', hs', rfl⟩ := Option.map_eq_some_iff.1 hstep
  replace hs' : w.sup.step (.resume t (.raise e)) = some s' := hsup ▸ hs'
  have hunit : w₁.unit = w.unit := congrArg UnitId.backend hid
  have hwf : WFOn (· = w.unit) s' := (stepOn_evolves h.wf (by simp) hs').wf
  have hfailed : FailedWith s' w.unit t e := henters.raised h.wf hwf hs'
  have hkeeping' : ({ w₁ with
      code := .idle
      raised := Function.update w₁.raised t (some e) } : Launch).Keeping :=
    ⟨hkeeping.booked, hkeeping.fresh, hkeeping.onStack⟩
  have htearing : Tearing (({ w₁ with
      code := .idle
      raised := Function.update w₁.raised t (some e) } : Launch).setSup s') :=
    .inl ⟨rfl, hstarted, hstack⟩
  refine ⟨hunit ▸ hwf, h.truthful.step h.wf hs', hkeeping'.orchestrator rfl, hresting,
    .inr (.inr ⟨htearing, t, e, Function.update_self _ _ _, hunit ▸ hfailed⟩), ?_⟩
  intro t' e' he'
  by_cases ht : t' = t
  · subst ht
    replace he' : Function.update w₁.raised t' (some e) t' = some e' := he'
    rw [Function.update_self] at he'
    cases he'
    exact ⟨hne, .inr ⟨hunit ▸ hfailed, htearing⟩⟩
  · replace he' : w.raised t' = some e' := by
      rw [← hraised, ← he']
      exact (Function.update_of_ne ht _ _).symm
    obtain ⟨hne', hended | ⟨hfailed', -⟩⟩ := h.told t' e' he'
    · obtain ⟨res, hres⟩ := Option.ne_none_iff_exists'.1 hended
      refine ⟨hne', .inl ?_⟩
      show s'.taskResult t' ≠ none
      rw [step_result h.wf hs' hres]
      simp
    · exact absurd henters (hfailed'.not_enters h.wf)

theorem Coherent.ended (h : w.Coherent) (hid : w₁.id = w.id) (hsup : w₁.sup = w.sup)
    (hraised : w₁.raised = w.raised) (hkeeping : w₁.Keeping) (hresting : Resting w₁.units)
    (hstarted : w₁.started = false) (hstack : w₁.stack = none)
    (hexits : Supervisor.Exits w.sup (w.sup.ref w.unit) t) (ho : o ≠ .suspend)
    (hstep : w₁.ended t o = some w') : w'.Coherent := by
  obtain ⟨s', hs', rfl⟩ := Option.map_eq_some_iff.1 hstep
  replace hs' : w.sup.step (.resume t o) = some s' := hsup ▸ hs'
  have hunit : w₁.unit = w.unit := congrArg UnitId.backend hid
  have hwf : WFOn (· = w.unit) s' := (stepOn_evolves h.wf (by simp) hs').wf
  have hlast : w.sup.lastSegment t o = true := by
    obtain ⟨-, -, hlast⟩ := hexits.enabled ho
    exact hlast
  have hkeeping' : ({ w₁ with code := .idle } : Launch).Keeping :=
    ⟨hkeeping.booked, hkeeping.fresh, hkeeping.onStack⟩
  refine ⟨hunit ▸ hwf, h.truthful.step h.wf hs', hkeeping'.orchestrator rfl, hresting,
    .inl ⟨rfl, hstarted, hstack⟩, ?_⟩
  intro t' e' he'
  obtain ⟨hne', htold⟩ := h.told t' e' (hraised ▸ he')
  refine ⟨hne', .inl ?_⟩
  show s'.taskResult t' ≠ none
  rcases htold with hended | ⟨hfailed, -⟩
  · obtain ⟨res, hres⟩ := Option.ne_none_iff_exists'.1 hended
    rw [step_result h.wf hs' hres]
    simp
  · obtain ⟨k, hk, hu, hpc⟩ := hexits
    obtain rfl : t' = t := live_unique h.wf ⟨k, hk, hu, by rw [hpc]; rfl⟩ hfailed.live
    exact Exits.ends (r := w.sup.ref w.unit) h.wf ⟨k, hk, hu, hpc⟩ hs' hlast

/-- While a task awaits `__aenter__` the backend is at rest or in `_start`. -/
theorem Coherent.starting (h : w.Coherent) (henters : Enters w.sup w.unit t) :
    w.code = .idle ∧ w.started = false ∧ w.stack = none ∨
      (w.code = .creating ∨ w.code = .initialising) ∧ w.started = true ∧ w.stack ≠ none := by
  rcases h.phase with hidle | ⟨hcode, hstarted, hstack, -⟩ | ⟨-, t', e, -, hfailed⟩
  · exact .inl hidle
  · exact .inr ⟨hcode, hstarted, hstack⟩
  · exact absurd henters (hfailed.not_enters h.wf)

/-- While a task awaits `__aexit__` the backend is at rest, or `_start` raised in that task. -/
theorem Coherent.exiting (h : w.Coherent)
    (hexits : Supervisor.Exits w.sup (w.sup.ref w.unit) t) :
    w.code = .idle ∧ w.started = false ∧ w.stack = none ∨
      w.Tearing ∧ ∃ e, w.raised t = some e ∧ FailedWith w.sup w.unit t e := by
  obtain ⟨k, hk, hu, hpc⟩ := hexits
  have hlive : w.sup.Live t w.unit := ⟨k, hk, hu, by rw [hpc]; rfl⟩
  rcases h.phase with hidle | ⟨-, -, -, t', k', r, hk', hu', hpc'⟩ | ⟨htearing, t', e, he, hfailed⟩
  · exact .inl hidle
  · obtain rfl := live_unique h.wf hlive ⟨k', hk', hu', by rw [hpc']; rfl⟩
    rw [hk] at hk'
    cases hk'
    rw [hpc] at hpc'
    cases hpc'
  · obtain rfl := live_unique h.wf hlive hfailed.live
    exact .inr ⟨htearing, e, he, hfailed⟩

theorem Coherent.enter {files : Files} (h : w.Coherent)
    (hstep : w.step (.enter t files) = some w') : w'.Coherent := by
  simp only [Launch.step] at hstep
  split at hstep
  · next hguard =>
    have henters := inEnter_iff.1 hguard.1
    obtain ⟨-, hstarted, hstack⟩ := (h.starting henters).resolve_right (by simp [hguard.2])
    rw [if_neg (by simp [hstarted])] at hstep
    have hopened : (superStart { w with started := true }).Keeping :=
      Keeping.superStart (w := { w with started := true })
        ⟨h.keeping.booked, h.keeping.fresh, h.keeping.onStack⟩ hstack
    split at hstep
    · next w₁ hrun =>
      cases hstep
      have hs := start_ok hrun
      have hkeeping := hs.keeping (by simp [superStart]) hopened
      have hunits : w₁.units = w.units := hs.units
      have hsup : w₁.sup = w.sup := hs.sup
      have hunit : w₁.unit = w.unit := congrArg UnitId.backend hs.id
      refine h.congr hs.id hsup hs.raised ⟨hkeeping.booked, hkeeping.fresh, hkeeping.onStack⟩
        (hunits ▸ h.resting) ?_ ?_
      · refine .inr (.inl ⟨.inl rfl, hs.started, hs.stack (by simp [superStart]), t, ?_⟩)
        show Enters w₁.sup w₁.unit t
        rw [hsup, hunit]
        exact henters
      · rintro (⟨-, hs', -⟩ | ⟨hcode, -⟩ | ⟨hcode, -⟩)
        · rw [hstarted] at hs'
          cases hs'
        · rw [hguard.2] at hcode
          cases hcode
        · rw [hguard.2] at hcode
          cases hcode
    · next e w₁ hrun =>
      obtain ⟨hs, hne⟩ := start_error hrun
      have hunits : w₁.units = w.units := hs.units
      exact h.startFailed hs.id hs.sup hs.raised (hs.keeping (by simp [superStart]) hopened)
        (hunits ▸ h.resting) hs.started (hs.stack (by simp [superStart])) hne henters hstep
  · cases hstep

theorem Coherent.awaitFailed (h : w.Coherent) (henters : Enters w.sup w.unit t)
    (hcode : w.code = .creating ∨ w.code = .initialising)
    (hstep : w.startFailed t (foreign e) = some w') : w'.Coherent := by
  obtain ⟨-, hstarted, hstack⟩ := (h.starting henters).resolve_left (by
    rintro ⟨hidle, -⟩
    rw [hidle] at hcode
    simp at hcode)
  exact h.startFailed rfl rfl rfl h.keeping h.resting hstarted hstack
    (foreign_ne_attributeError e) henters hstep

theorem Coherent.created {r : Except (Exc UnitId) Process} (h : w.Coherent)
    (hstep : w.step (.created t r) = some w') : w'.Coherent := by
  simp only [Launch.step] at hstep
  split at hstep
  · next hguard =>
    have henters := inEnter_iff.1 hguard.1
    obtain ⟨-, hstarted, hstack⟩ := (h.starting henters).resolve_left (by simp [hguard.2])
    cases r with
    | ok proc =>
      cases hstep
      refine h.congr rfl rfl rfl ⟨h.keeping.booked, h.keeping.fresh, h.keeping.onStack⟩ h.resting
        (.inr (.inl ⟨.inr rfl, hstarted, hstack, t, henters⟩)) ?_
      rintro (⟨hcode, -⟩ | ⟨hcode, -⟩ | ⟨hcode, -⟩) <;>
      · rw [hguard.2] at hcode
        cases hcode
    | error e => exact h.awaitFailed henters (.inl hguard.2) hstep
  · cases hstep

theorem Coherent.initialised {r : Except (Exc UnitId) Unit} (h : w.Coherent)
    (hok : FailsQuietly w (.initialised t r)) (hstep : w.step (.initialised t r) = some w') :
    w'.Coherent := by
  simp only [Launch.step] at hstep
  split at hstep
  · next hguard =>
    cases r with
    | ok _ => exact hok.elim
    | error e => exact h.awaitFailed (inEnter_iff.1 hguard.1) (.inr hguard.2) hstep
  · cases hstep

theorem Coherent.exit (h : w.Coherent) (hstep : w.step (.exit t) = some w') : w'.Coherent := by
  simp only [Launch.step] at hstep
  split at hstep
  · next hguard =>
    have hexits := (inExit_iff h.wf).1 hguard.1
    split at hstep
    · next hstarted =>
      cases hstep
      obtain ⟨htearing, e, he, hfailed⟩ := (h.exiting hexits).resolve_left (by simp [hstarted])
      have hstack : w.stack ≠ none := by
        rcases htearing with ⟨-, -, hs⟩ | ⟨-, hs, -⟩ | ⟨-, hs, -⟩
        · exact hs
        · rw [hs] at hstarted
          cases hstarted
        · rw [hs] at hstarted
          cases hstarted
      refine h.congr rfl rfl rfl ⟨h.keeping.booked, h.keeping.fresh, h.keeping.onStack⟩
        h.resting.stop ?_ ?_
      · exact .inr (.inr ⟨.inr (.inl ⟨rfl, rfl, hstack⟩), t, e, he, hfailed⟩)
      · exact fun _ => .inr (.inl ⟨rfl, rfl, hstack⟩)
    · next hstarted =>
      replace hstarted := Bool.eq_false_iff.2 hstarted
      have hstack : w.stack = none := by
        rcases h.exiting hexits with ⟨-, -, hs⟩ | ⟨⟨-, hs, -⟩ | ⟨hcode, -⟩ | ⟨hcode, -⟩, -⟩
        · exact hs
        · rw [hs] at hstarted
          cases hstarted
        · simp [hcode] at hguard
        · simp [hcode] at hguard
      exact h.ended rfl rfl rfl h.keeping h.resting hstarted hstack hexits (by simp) hstep
  · cases hstep

theorem Coherent.release (h : w.Coherent) (hstep : w.step (.release t) = some w') :
    w'.Coherent := by
  simp only [Launch.step] at hstep
  split at hstep
  · next hguard =>
    have hexits := (inExit_iff h.wf).1 hguard.1
    obtain ⟨htearing, e, he, hfailed⟩ := (h.exiting hexits).resolve_left (by simp [hguard.2.1])
    have hstarted : w.started = false := by
      rcases htearing with ⟨hcode, -⟩ | ⟨-, hs, -⟩ | ⟨-, hs, -⟩
      · simp [hcode] at hguard
      · exact hs
      · exact hs
    obtain ⟨hkeeping, hreleased⟩ := h.keeping.closeStack
    have hsup := closeStack_sup w
    split at hstep
    · exact h.ended (show w.closeStack.id = w.id from rfl) hsup rfl hkeeping h.resting hstarted rfl
        hexits (by simp) hstep
    · next proc hproc =>
      cases hstep
      have hclosing : Tearing { w.closeStack with code := .closing } :=
        .inr (.inr ⟨rfl, hstarted, rfl, by simp [closeStack, hproc]⟩)
      refine h.congr rfl hsup rfl ⟨hkeeping.booked, hkeeping.fresh, hkeeping.onStack⟩ h.resting
        (.inr (.inr ⟨hclosing, t, e, he, ?_⟩)) fun _ => hclosing
      show FailedWith w.closeStack.sup w.unit t e
      rw [hsup]
      exact hfailed
  · cases hstep

theorem Coherent.closed {env : Teardown} (h : w.Coherent) (hstep : w.step (.closed t env) = some w') :
    w'.Coherent := by
  simp only [Launch.step] at hstep
  split at hstep
  · next hguard =>
    have hexits := (inExit_iff h.wf).1 hguard.1
    obtain ⟨⟨hcode, -⟩ | ⟨hcode, -⟩ | ⟨-, hstarted, hstack, -⟩, -⟩ :=
      (h.exiting hexits).resolve_left (by simp [hguard.2])
    · simp [hcode] at hguard
    · simp [hcode] at hguard
    · split at hstep
      · exact h.ended rfl rfl rfl h.keeping h.resting hstarted hstack hexits (by simp) hstep
      · exact h.ended rfl rfl rfl h.keeping h.resting hstarted hstack hexits (by simp) hstep
  · cases hstep

/-- **Every step of a run in which no start succeeds.** -/
theorem Coherent.step {a : Action} (h : w.Coherent) (hok : FailsQuietly w a)
    (hstep : w.step a = some w') : w'.Coherent := by
  cases a with
  | sup a =>
    simp only [Launch.step] at hstep
    split at hstep
    · cases hstep
    · next hresumes => exact h.sup hok hresumes hstep
  | ports a =>
    simp only [Launch.step] at hstep
    split at hstep
    · cases hstep
    · obtain ⟨ports, hports, rfl⟩ := Option.map_eq_some_iff.1 hstep
      have hsup := ports_supervisor hports
      refine h.congr rfl hsup rfl (h.keeping.ports hports) h.resting ?_ fun ht => ht
      have hphase := h.phase
      unfold Phase at hphase ⊢
      rwa [show ({ w with ports := ports } : Launch).sup = w.sup from hsup]
  | reconfigure config proxies =>
    cases hstep
    exact h.congr rfl rfl rfl (h.keeping.orchestrator rfl) h.resting h.phase fun ht => ht
  | units a =>
    simp only [Launch.step] at hstep
    split at hstep
    · next hguard =>
      exfalso
      have hidle : w.units.loop.isIdle = true := by
        rw [h.resting.loop]
        rfl
      rcases hguard.1 with hcode | ⟨-, hbusy⟩
      · rcases h.phase with ⟨hc, -⟩ | ⟨hc | hc, -⟩ | ⟨⟨hc, -⟩ | ⟨hc, -⟩ | ⟨hc, -⟩, -⟩ <;>
          simp [hcode] at hc
      · rw [hidle] at hbusy
        cases hbusy
    · cases hstep
  | enter t files => exact h.enter hstep
  | created t r => exact h.created hstep
  | initialised t r => exact h.initialised hok hstep
  | exit t => exact h.exit hstep
  | release t => exact h.release hstep
  | unitsFailed t e =>
    simp only [Launch.step, h.resting.loop] at hstep
    simp [Supervisor.Loop.raised] at hstep
  | closed t env => exact h.closed hstep

/-- A step ends the task in which `_start` raised: `_stop` raises the `AttributeError`, or
returns. -/
theorem Coherent.ends {a : Action} (h : w.Coherent) (hok : FailsQuietly w a)
    (hfailed : FailedWith w.sup w.unit t e) (htearing : w.Tearing) (hstep : w.step a = some w')
    (hends : w'.sup.taskResult t ≠ none) :
    ∃ o, w.sup.step (.resume t o) = some w'.sup ∧ w'.Released ∧
      (w.serverProc = none ∧ o = .raise attributeError ∨
        w.serverProc ≠ none ∧ o = .ok .none) := by
  have hsame : w'.sup ≠ w.sup := by
    intro hsup
    rw [hsup, hfailed.unfinished] at hends
    exact hends rfl
  have hno (t' : TaskId) (henters : w.inEnter t' = true) : False :=
    hfailed.not_enters h.wf (inEnter_iff.1 henters)
  have heq (t' : TaskId) (hexits : w.inExit t' = true) : t' = t := by
    obtain ⟨k, hk, hu, hpc⟩ := (inExit_iff h.wf).1 hexits
    exact live_unique h.wf hfailed.live ⟨k, hk, hu, by rw [hpc]; rfl⟩
  cases a with
  | sup a =>
    simp only [Launch.step] at hstep
    split at hstep
    · cases hstep
    · next hresumes =>
      have hwf : WFOn (· = w.unit) w'.sup := by
        have hid : w'.unit = w.unit := by
          obtain ⟨s', -, rfl⟩ := Option.map_eq_some_iff.1 hstep
          rfl
        exact hid ▸ (h.sup hok hresumes hstep).wf
      obtain ⟨s', hsup, rfl⟩ := Option.map_eq_some_iff.1 hstep
      have hkept := hfailed.step h.wf hwf (fun o ha => by
        rw [ha] at hresumes
        exact hresumes (.inr ((inExit_iff h.wf).2 hfailed.1))) hsup
      exact absurd hkept.unfinished hends
  | ports a =>
    simp only [Launch.step] at hstep
    split at hstep
    · cases hstep
    · obtain ⟨ports, hports, rfl⟩ := Option.map_eq_some_iff.1 hstep
      exact absurd (ports_supervisor hports) hsame
  | reconfigure config proxies =>
    cases hstep
    exact absurd rfl hsame
  | units a =>
    simp only [Launch.step] at hstep
    split at hstep
    · obtain ⟨units, -, rfl⟩ := Option.map_eq_some_iff.1 hstep
      exact absurd rfl hsame
    · cases hstep
  | enter t' files | created t' r | initialised t' r =>
    simp only [Launch.step] at hstep
    split at hstep
    · next hguard => exact (hno t' hguard.1).elim
    · cases hstep
  | exit t' =>
    simp only [Launch.step] at hstep
    split at hstep
    · next hguard =>
      split at hstep
      · cases hstep
        exact absurd rfl hsame
      · next hstarted =>
        rcases htearing with ⟨-, hs, -⟩ | ⟨hcode, -⟩ | ⟨hcode, -⟩
        · exact absurd hs hstarted
        · simp [hcode] at hguard
        · simp [hcode] at hguard
    · cases hstep
  | release t' =>
    simp only [Launch.step] at hstep
    split at hstep
    · next hguard =>
      obtain rfl := heq t' hguard.1
      have hsup := closeStack_sup w
      obtain ⟨-, hreleased⟩ := h.keeping.closeStack
      split at hstep
      · next hproc =>
        obtain ⟨s', hs', rfl⟩ := Option.map_eq_some_iff.1 hstep
        have hsup' : w.sup.step (.resume t' (.raise attributeError)) = some s' := hsup ▸ hs'
        exact ⟨_, hsup', hreleased, .inl ⟨hproc, rfl⟩⟩
      · cases hstep
        exact absurd hsup hsame
    · cases hstep
  | unitsFailed t' e' =>
    simp only [Launch.step, h.resting.loop] at hstep
    simp [Supervisor.Loop.raised] at hstep
  | closed t' env =>
    simp only [Launch.step] at hstep
    split at hstep
    · next hguard =>
      obtain rfl := heq t' hguard.1
      obtain ⟨hcode, -⟩ | ⟨hcode, -⟩ | ⟨-, -, hstack, hproc⟩ := htearing
      · simp [hcode] at hguard
      · simp [hcode] at hguard
      · rw [closeProcess_quiet hok] at hstep
        obtain ⟨s', hs', rfl⟩ := Option.map_eq_some_iff.1 hstep
        exact ⟨_, hs', h.keeping.released hstack, .inr ⟨hproc, rfl⟩⟩
    · cases hstep

/-- Whatever the step, the backend stays itself and the orchestrator's supervisor takes at most
one step of its own. -/
theorem step_sup {a : Action} (hstep : w.step a = some w') :
    w'.unit = w.unit ∧ (w'.sup = w.sup ∨ ∃ b, w.sup.step b = some w'.sup) := by
  have hstepSup (w₁ : Launch) (b : Supervisor.Action UnitId) (hid : w₁.id = w.id)
      (hsup : w₁.sup = w.sup) (h : w₁.stepSup b = some w') :
      w'.unit = w.unit ∧ (w'.sup = w.sup ∨ ∃ b, w.sup.step b = some w'.sup) := by
    obtain ⟨s', hs', rfl⟩ := Option.map_eq_some_iff.1 h
    exact ⟨congrArg UnitId.backend hid, .inr ⟨b, hsup ▸ hs'⟩⟩
  have hfailed {w₁ : Launch} {t : TaskId} {e : Exc UnitId} (hid : w₁.id = w.id)
      (hsup : w₁.sup = w.sup) (h : w₁.startFailed t e = some w') :
      w'.unit = w.unit ∧ (w'.sup = w.sup ∨ ∃ b, w.sup.step b = some w'.sup) :=
    hstepSup { w₁ with code := .idle, raised := Function.update w₁.raised t (some e) } _ hid hsup h
  have hended (w₁ : Launch) {t : TaskId} {o : Outcome UnitId} (hid : w₁.id = w.id)
      (hsup : w₁.sup = w.sup) (h : w₁.ended t o = some w') :
      w'.unit = w.unit ∧ (w'.sup = w.sup ∨ ∃ b, w.sup.step b = some w'.sup) :=
    hstepSup { w₁ with code := .idle } _ hid hsup h
  cases a with
  | sup a =>
    simp only [Launch.step] at hstep
    split at hstep
    · cases hstep
    · exact hstepSup w a rfl rfl hstep
  | ports a =>
    simp only [Launch.step] at hstep
    split at hstep
    · cases hstep
    · obtain ⟨ports, hports, rfl⟩ := Option.map_eq_some_iff.1 hstep
      exact ⟨rfl, .inl (ports_supervisor hports)⟩
  | reconfigure config proxies =>
    cases hstep
    exact ⟨rfl, .inl rfl⟩
  | units a =>
    simp only [Launch.step] at hstep
    split at hstep
    · obtain ⟨units, -, rfl⟩ := Option.map_eq_some_iff.1 hstep
      exact ⟨rfl, .inl rfl⟩
    · cases hstep
  | enter t files =>
    simp only [Launch.step] at hstep
    split at hstep
    · split at hstep
      · exact hstepSup { w with code := .started } _ rfl rfl hstep
      · split at hstep
        · next hrun =>
          cases hstep
          exact ⟨congrArg UnitId.backend (start_ok hrun).id, .inl (start_ok hrun).sup⟩
        · next hrun => exact hfailed (start_error hrun).1.id (start_error hrun).1.sup hstep
    · cases hstep
  | created t r =>
    simp only [Launch.step] at hstep
    split at hstep
    · split at hstep
      · cases hstep
        exact ⟨rfl, .inl rfl⟩
      · exact hfailed rfl rfl hstep
    · cases hstep
  | initialised t r =>
    simp only [Launch.step] at hstep
    split at hstep
    · split at hstep
      · exact hstepSup { w.startUnits with code := .started } _ rfl rfl hstep
      · exact hfailed rfl rfl hstep
    · cases hstep
  | exit t =>
    simp only [Launch.step] at hstep
    split at hstep
    · split at hstep
      · cases hstep
        exact ⟨rfl, .inl rfl⟩
      · exact hended w rfl rfl hstep
    · cases hstep
  | release t =>
    simp only [Launch.step] at hstep
    split at hstep
    · split at hstep
      · exact hended w.closeStack rfl (closeStack_sup w) hstep
      · cases hstep
        exact ⟨rfl, .inl (closeStack_sup w)⟩
    · cases hstep
  | unitsFailed t e =>
    simp only [Launch.step] at hstep
    split at hstep
    · obtain ⟨units, -, hunits⟩ := Option.bind_eq_some_iff.1 hstep
      exact hended { w with units := units } rfl rfl hunits
    · cases hstep
  | closed t env =>
    simp only [Launch.step] at hstep
    split at hstep
    · split at hstep
      · exact hended w rfl rfl hstep
      · exact hended w rfl rfl hstep
    · cases hstep

/-! ### The start that failed -/

/-- Runs in which no start of the backend succeeds. -/
def Reachable (w : Launch) : Prop :=
  ∃ id o listing properties voiceHost,
    Reach Launch.step FailsQuietly (init id o listing properties voiceHost) w

theorem init_coherent (id : Nat) (o : MCOrchestrator) (listing : ServerListing)
    (properties : ServerProperties) (voiceHost : Option Text) :
    (init id o listing properties voiceHost).Coherent where
  wf := init_wf
  truthful := by
    intro d hd
    cases hd
  keeping :=
    ⟨(Ports.exclusive_start { o with supervisor := {} }).booked, fun _ h => absurd h (by simp [init]),
      fun _ h => absurd h (by simp [init])⟩
  resting := init_resting listing
  phase := .inl ⟨rfl, rfl, rfl⟩
  told := by
    intro t e he
    cases he

theorem Reachable.coherent (h : Reachable w) : w.Coherent := by
  obtain ⟨id, o, listing, properties, voiceHost, h⟩ := h
  refine h.invariant (init_coherent id o listing properties voiceHost) ?_
  intro w a w' hw hok hstep
  exact hw.step hok hstep

/-- The next segment of `_stop` can run in task `t`, whatever the environment answers. -/
def TearsDown (w : Launch) (t : TaskId) : Prop :=
  (w.step (.exit t)).isSome ∨ (w.step (.release t)).isSome ∨
    ∀ env, (w.step (.closed t env)).isSome

theorem ended_isSome (hsup : w₁.sup = w.sup) (ho : o ≠ .suspend)
    (hexits : Supervisor.Exits w.sup (w.sup.ref w.unit) t) : (w₁.ended t o).isSome := by
  obtain ⟨s', hs', -⟩ := hexits.enabled ho
  have hstep : ({ w₁ with code := .idle } : Launch).sup.step (.resume t o) = some s' := by
    show w₁.sup.step (.resume t o) = some s'
    rw [hsup, hs']
  unfold Launch.ended stepSup
  rw [hstep]
  rfl

theorem Coherent.tearsDown (h : w.Coherent) (hfailed : FailedWith w.sup w.unit t e)
    (htearing : w.Tearing) : w.TearsDown t := by
  have hexit : w.inExit t = true := (inExit_iff h.wf).2 hfailed.1
  rcases htearing with ⟨hcode, hstarted, -⟩ | ⟨hcode, -, -⟩ | ⟨hcode, -, -, -⟩
  · left
    simp [Launch.step, hexit, hcode, hstarted]
  · right
    left
    have hidle : w.units.loop.isIdle = true := by
      rw [h.resting.loop]
      rfl
    have hended := ended_isSome (o := .raise attributeError) (closeStack_sup w) (by simp) hfailed.1
    simp only [Launch.step]
    rw [if_pos ⟨hexit, hcode, hidle⟩]
    cases w.serverProc with
    | none => exact hended
    | some proc => rfl
  · right
    right
    intro env
    simp only [Launch.step]
    rw [if_pos ⟨hexit, hcode⟩]
    cases closeProcess env with
    | ok _ => exact ended_isSome rfl (by simp) hfailed.1
    | error e => exact ended_isSome rfl (by simp) hfailed.1

theorem reported {res : TaskResult UnitId} {d : UnitId × TaskId × Val UnitId}
    (h : w.Coherent) (hres : w.sup.taskResult t = some res)
    (hlater : Reach Launch.step (fun _ _ => True) w w') (hd : d ∈ w'.sup.reports t) :
    res = .returned d.2.2 := by
  have hinv : WFOn (fun _ => False) w'.sup ∧ Truthful w'.sup ∧ w'.sup.taskResult t = some res := by
    have htables : WFOn (fun _ => False) w.sup := ⟨h.wf.toTables, fun _ h => h.elim⟩
    refine hlater.invariant
      (P := fun w => WFOn (fun _ => False) w.sup ∧ Truthful w.sup ∧ w.sup.taskResult t = some res)
      ⟨htables, h.truthful, hres⟩ ?_
    rintro w₁ a w₂ ⟨hwf, htruthful, hres⟩ - hstep
    obtain ⟨-, hsup | ⟨b, hb⟩⟩ := step_sup hstep
    · rw [hsup]
      exact ⟨hwf, htruthful, hres⟩
    · exact ⟨(stepOn_evolves hwf (fun _ _ h => h.elim) hb).wf, htruthful.step hwf hb,
        step_result hwf hb hres⟩
  obtain ⟨-, htruthful, hkept⟩ := hinv
  obtain ⟨hin, ht⟩ := List.mem_filter.1 hd
  have hresult := htruthful d hin
  rw [of_decide_eq_true ht, hkept] at hresult
  exact Option.some.inj hresult

/-- Task `t` has returned `e`, and its entry is left for the next turn of the supervise loop. -/
def Delivers (w : Launch) (t : TaskId) (e : Exc UnitId) : Prop :=
  w.sup.taskResult t = some (.returned (.exc e)) ∧ (t, w.unit) ∈ w.sup.running

/-- **A start that failed**: `_stop` can always go on, and when it ends every port is released. The
exception is what the task delivers exactly if `server_proc` is set and the lock is held; whatever
is reported of the task is the exception, and recognised, exactly if `server_proc` is set. -/
theorem failed_start (h : Reachable w) (he : w.raised t = some e)
    (hlive : w.sup.taskResult t = none) :
    w.TearsDown t ∧
    ∀ a w', FailsQuietly w a → w.step a = some w' → w'.sup.taskResult t ≠ none →
      (w'.Released ∧ Ports.Booked w'.ports) ∧
      (w'.Delivers t e ↔ w.serverProc ≠ none ∧ w.sup.locked = true) ∧
      ∀ w'' v, Reach Launch.step (fun _ _ => True) w' w'' →
        (w.unit, t, v) ∈ w''.sup.reports t →
          (v = .exc e ↔ w.serverProc ≠ none) ∧
          (e = acquirePortError → (portFailed (w.unit, t, v) = true ↔ w.serverProc ≠ none)) := by
  have hcoherent := h.coherent
  obtain ⟨hne, hended | ⟨hfailed, htearing⟩⟩ := hcoherent.told t e he
  · exact absurd hlive hended
  refine ⟨hcoherent.tearsDown hfailed htearing, ?_⟩
  intro a w' hok hstep hends
  have hcoherent' := hcoherent.step hok hstep
  obtain ⟨o, hresume, hreleased, ho⟩ := hcoherent.ends hok hfailed htearing hstep hends
  obtain ⟨res, hres⟩ := Option.ne_none_iff_exists'.1 hends
  have hlast : w.sup.lastSegment t o = true := by
    have hsuspend : o ≠ .suspend := by
      rcases ho with ⟨-, rfl⟩ | ⟨-, rfl⟩ <;> simp
    obtain ⟨-, -, hlast⟩ := hfailed.1.enabled hsuspend
    exact hlast
  obtain ⟨hkept, hlost⟩ := hfailed.1.outcome hcoherent.wf hresume hlast
  -- the result of the exit
  have hresult : o.exitResult (w.sup.heap (w.sup.ref w.unit)).result =
      if w.serverProc = none then .exc attributeError else .exc e := by
    rcases ho with ⟨hproc, rfl⟩ | ⟨hproc, rfl⟩
    · rw [if_pos hproc]
      rfl
    · rw [if_neg hproc]
      exact hfailed.2
  have hreturns (v : Val UnitId) (hv : w'.sup.taskResult t = some (.returned v)) :
      v = if w.serverProc = none then .exc attributeError else .exc e := by
    by_cases hcond : w.sup.locked = true ∨ (w.sup.state w.unit).task ≠ none
    · rw [(hkept hcond).1, hresult] at hv
      cases hv
      rfl
    · rw [hlost hcond] at hv
      cases hv
  have hiff : (if w.serverProc = none then Val.exc attributeError else .exc e) = .exc e ↔
      w.serverProc ≠ none := by
    by_cases hproc : w.serverProc = none
    · simp [hproc, Ne.symm hne]
    · simp [hproc]
  have hunit := (step_sup hstep).1
  refine ⟨⟨hreleased, hcoherent'.keeping.booked⟩, ?_, ?_⟩
  · unfold Delivers
    rw [hunit]
    constructor
    · rintro ⟨hdone, hentry⟩
      have hproc := hiff.1 (hreturns _ hdone).symm
      refine ⟨hproc, ?_⟩
      by_cases hcond : w.sup.locked = true ∨ (w.sup.state w.unit).task ≠ none
      · exact (hkept hcond).2.2.1 hentry
      · rw [hlost hcond] at hdone
        cases hdone
    · rintro ⟨hproc, hlocked⟩
      obtain ⟨hdone, -, hentry⟩ := hkept (.inl hlocked)
      rw [hresult, hiff.2 hproc] at hdone
      exact ⟨hdone, hentry.2 hlocked⟩
  · intro w'' v hlater hreport
    have hdone := reported hcoherent' hres hlater hreport
    have hv := hreturns v (hres.trans (congrArg some hdone))
    constructor
    · rw [hv]
      exact hiff
    · rintro rfl
      rw [hv, ← hiff]
      by_cases hproc : w.serverProc = none
      · simp [hproc, portFailed, Launch.unit, attributeError, acquirePortError]
      · simp [hproc, portFailed, Launch.unit]

/-- A start, the first of the backend, in which the server does not come up. -/
theorem failed_start_reported :
    ∃ w w' : Launch, Reachable w ∧ w.raised 0 = some (.other 7) ∧
      w.step (.closed 0 ⟨false, .ok (), .exited, .exited, .exited, .ok ()⟩) = some w' ∧
      w'.Released ∧ w'.Delivers 0 (.other 7) := by
  obtain ⟨w, hw, hraised, hlive, hproc, hlocked, hend⟩ :=
    Reach.exists_of_runIn Launch.step FailsQuietly
    (init 0 { serverPortRange := (40000, 40009) } { enabled := true } ⟨none, none, none, false⟩
      none)
    [.sup (.supervise [] .firstEventOrUnit), .sup (.addUnit (.backend 0) false false),
      .sup .monitorStep, .sup (.wake []), .sup (.resume 0 .suspend),
      .enter 0 ⟨.ok none, .ok ⟨none, none, none, false⟩, .ok (), none⟩, .created 0 (.ok ⟨1⟩),
      .initialised 0 (.error (.other 5)), .exit 0, .release 0]
    (p := fun w => w.raised 0 = some (.other 7) ∧ w.sup.taskResult 0 = none ∧
      w.serverProc.isSome = true ∧ w.sup.locked = true ∧
      (w.step (.closed 0 ⟨false, .ok (), .exited, .exited, .exited, .ok ()⟩)).any (fun w' => decide
        (w'.sup.taskResult 0 ≠ none)) = true)
    (by decide +kernel)
  obtain ⟨w', hstep, hw'⟩ := (Option.any_eq_true ..).1 hend
  have hquiet : w.FailsQuietly (.closed 0 ⟨false, .ok (), .exited, .exited, .exited, .ok ()⟩) :=
    show Teardown.quiet _ = true from rfl
  obtain ⟨-, hends⟩ := failed_start ⟨_, _, _, _, _, hw⟩ hraised hlive
  obtain ⟨⟨hreleased, -⟩, hdelivers, -⟩ := hends _ w' hquiet hstep (of_decide_eq_true hw')
  exact ⟨w, w', ⟨_, _, _, _, _, hw⟩, hraised, hstep, hreleased,
    hdelivers.2 ⟨Option.isSome_iff_ne_none.1 hproc, hlocked⟩⟩

/-- No port is free. The `AttributeError` of `_stop` takes the place of the `AcquirePortError`. -/
theorem acquire_error_masked :
    ∃ w w' : Launch, Reachable w ∧ w.raised 0 = some acquirePortError ∧ w.sup.locked = true ∧
      w.step (.release 0) = some w' ∧ ¬ w'.Delivers 0 acquirePortError ∧
      ∃ w'' : Launch, Reach Launch.step FailsQuietly w' w'' ∧
        w''.sup.reports 0 = [(.backend 0, 0, .exc attributeError)] ∧
        portFailed (.backend 0, 0, .exc attributeError) = false := by
  obtain ⟨w, hw, hraised, hlocked, hend⟩ :=
    Reach.exists_of_runIn Launch.step FailsQuietly
    (init 0 { serverPortRange := (40001, 40000) } { enabled := true } ⟨none, none, none, false⟩
      none)
    [.sup (.supervise [] .firstEventOrUnit), .sup (.addUnit (.backend 0) false false),
      .sup .monitorStep, .sup (.wake []), .sup (.resume 0 .suspend),
      .enter 0 ⟨.ok none, .ok ⟨none, none, none, false⟩, .ok (), none⟩, .exit 0]
    (p := fun w => w.raised 0 = some acquirePortError ∧ w.sup.locked = true ∧
      (w.step (.release 0)).any (fun w' => decide
        (w'.sup.taskResult 0 = some (.returned (.exc attributeError)) ∧
          (runIn Launch.step FailsQuietly w' [.sup .monitorStep, .sup (.wake [0])]).any (fun w'' =>
            w''.sup.reports 0 = [(.backend 0, 0, .exc attributeError)]) = true)) = true)
    (by decide +kernel)
  obtain ⟨w', hstep, hw'⟩ := (Option.any_eq_true ..).1 hend
  obtain ⟨hres, hlater⟩ := of_decide_eq_true hw'
  obtain ⟨w'', hrun, hreports⟩ := (Option.any_eq_true ..).1 hlater
  refine ⟨w, w', ⟨_, _, _, _, _, hw⟩, hraised, hlocked, hstep, ?_, w'', ?_,
    of_decide_eq_true hreports, by decide⟩
  · rintro ⟨hdone, -⟩
    rw [hres] at hdone
    cases hdone
  · exact Reach.of_runIn _ hrun

end

end Launch

end Silkjam.Server

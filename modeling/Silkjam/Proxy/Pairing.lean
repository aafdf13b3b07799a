import Silkjam.Lib.Ledger
import Silkjam.Proxy.Logins
import Silkjam.Proxy.Tracking
import Silkjam.Server.Steps

/-!
# The logins of a network

Any number of clients count the players of the backends up and down and have their sessions tracked
by their proxies. Each login that a backend counts is the one of one client that is logging in, or
forwarded, and each task that tracks a session is the one of one client; when a client is closed its
login has ended, unless it was abandoned (`logins_paired`).
-/

namespace Silkjam.Proxy

open Protocol Transition Server

namespace Network

/-- The login of client `i`, if the backend `b` counts it. -/
def loginAt (s : Network) (b : BackendId) (i : Nat) : Option Nat :=
  (s.clients i).bind fun c => if c.backend = b then c.session else none

/-- The task that tracks the session of client `i`, if it is one of the proxy `n`. -/
def trackerAt (s : Network) (n : Nat) (i : Nat) : Option Nat :=
  (s.clients i).bind fun c => if c.proxy = n then c.tracker else none

/-- The tasks of a proxy. -/
def tasks (p : MCProxy) : Set Nat :=
  {t | p.sessionTasks t ≠ none}

/-- Logins and tasks are paired with clients. -/
structure Paired (s : Network) : Prop where
  fresh : ∀ i, s.nextClient ≤ i → s.clients i = none
  holds : ∀ i c, s.clients i = some c → c.Holds
  logins : ∀ b, Ledger (s.loginAt b) (s.backends b).sessions (s.backends b).nextSession
  trackers : ∀ n, Ledger (s.trackerAt n) (tasks (s.proxies n)) (s.proxies n).nextTask
  tracked : ∀ i c t, s.clients i = some c → c.tracker = some t →
    ∃ task, (s.proxies c.proxy).sessionTasks t = some task ∧ task.backend = c.backend ∧
      task.clientIp = c.ip ∧ (c.Untracked → (s.proxies c.proxy).Finished t)
  only : ∀ n, (s.proxies n).Only

section
variable {s s' : Network} {i : Nat} {c c' : Client} {b : BackendId} {n : Nat} {ip : Text}

theorem loginAt_update (hclients : s'.clients = Function.update s.clients i (some c'))
    (b : BackendId) : s'.loginAt b =
      Function.update (s.loginAt b) i (if c'.backend = b then c'.session else none) := by
  funext j
  unfold loginAt
  rw [hclients]
  by_cases hj : j = i
  · subst hj
    rw [Function.update_self, Function.update_self, Option.bind_some]
  · rw [Function.update_of_ne hj, Function.update_of_ne hj]

theorem trackerAt_update (hclients : s'.clients = Function.update s.clients i (some c'))
    (n : Nat) : s'.trackerAt n =
      Function.update (s.trackerAt n) i (if c'.proxy = n then c'.tracker else none) := by
  funext j
  unfold trackerAt
  rw [hclients]
  by_cases hj : j = i
  · subst hj
    rw [Function.update_self, Function.update_self, Option.bind_some]
  · rw [Function.update_of_ne hj, Function.update_of_ne hj]

theorem loginAt_eq (hc : s.clients i = some c) (b : BackendId) :
    s.loginAt b i = if c.backend = b then c.session else none := by
  unfold loginAt
  rw [hc, Option.bind_some]

theorem trackerAt_eq (hc : s.clients i = some c) (n : Nat) :
    s.trackerAt n i = if c.proxy = n then c.tracker else none := by
  unfold trackerAt
  rw [hc, Option.bind_some]

theorem logins_same (h : s.Paired) (hc : s.clients i = some c)
    (hsession : c'.session = c.session) (hbackend : c'.backend = c.backend ∨ c.session = none)
    (hclients : s'.clients = Function.update s.clients i (some c'))
    (hsessions : (s'.backends b).sessions = (s.backends b).sessions)
    (hnext : (s'.backends b).nextSession = (s.backends b).nextSession) :
    Ledger (s'.loginAt b) (s'.backends b).sessions (s'.backends b).nextSession := by
  rw [loginAt_update hclients, hsessions, hnext]
  refine (h.logins b).update_same ?_
  rw [loginAt_eq hc, hsession]
  obtain hbackend | hnone := hbackend
  · rw [hbackend]
  · rw [hnone, ite_self, ite_self]

theorem ledger_progress {p p' : MCProxy} {held : Nat → Option Nat}
    (h : Ledger held (tasks p) p.nextTask) (hprogress : p.Progress p') :
    Ledger held (tasks p') p'.nextTask := by
  have htasks : tasks p' = tasks p := by
    ext t
    show p'.sessionTasks t ≠ none ↔ p.sessionTasks t ≠ none
    obtain heq | ⟨task, phase, htask, -, heq⟩ := hprogress.tasks t
    · rw [heq]
    · rw [htask, heq]
      exact ⟨fun _ => nofun, fun _ => nofun⟩
  rw [htasks, hprogress.nextTask]
  exact h

theorem trackers_same (h : s.Paired) (hc : s.clients i = some c) (hproxy : c'.proxy = c.proxy)
    (htracker : c'.tracker = c.tracker ∨ c.proxy ≠ n)
    (hclients : s'.clients = Function.update s.clients i (some c'))
    (hprogress : (s.proxies n).Progress (s'.proxies n)) :
    Ledger (s'.trackerAt n) (tasks (s'.proxies n)) (s'.proxies n).nextTask := by
  rw [trackerAt_update hclients]
  refine ledger_progress ((h.trackers n).update_same ?_) hprogress
  rw [trackerAt_eq hc, hproxy]
  obtain htracker | hn := htracker
  · rw [htracker]
  · rw [if_neg hn, if_neg hn]

theorem Paired.tasksMade (h : s.Paired) (n : Nat) : (s.proxies n).TasksMade := by
  intro t ht
  by_contra hne
  exact absurd ((h.trackers n).below t hne) (Nat.not_lt.2 ht)

/-- The clients' sessions, when the tasks of the proxies go on. -/
theorem tracked_step (h : s.Paired) (hc : s.clients i = some c)
    (hclients : s'.clients = Function.update s.clients i (some c'))
    (hextends : ∀ n, (s.proxies n).Extends (s'.proxies n))
    (hself : ∀ t, c'.tracker = some t →
      ∃ task, (s'.proxies c'.proxy).sessionTasks t = some task ∧ task.backend = c'.backend ∧
        task.clientIp = c'.ip ∧ (c'.Untracked → (s'.proxies c'.proxy).Finished t)) :
    ∀ j d t, s'.clients j = some d → d.tracker = some t →
      ∃ task, (s'.proxies d.proxy).sessionTasks t = some task ∧ task.backend = d.backend ∧
        task.clientIp = d.ip ∧ (d.Untracked → (s'.proxies d.proxy).Finished t) := by
  intro j d t hd ht
  rw [hclients] at hd
  by_cases hj : j = i
  · subst hj
    rw [Function.update_self] at hd
    cases hd
    exact hself t ht
  · rw [Function.update_of_ne hj] at hd
    obtain ⟨task, htask, hbackend, hip, hfinished⟩ := h.tracked j d t hd ht
    obtain ⟨task', htask', hbackend', hip', hphase⟩ := hextends d.proxy t task htask
    refine ⟨task', htask', hbackend'.trans hbackend, hip'.trans hip, fun huntracked => ?_⟩
    intro task'' htask''
    obtain rfl := Option.some.inj (htask'.symm.trans htask'')
    exact hphase (hfinished huntracked task htask)

theorem tracked_same (h : s.Paired) (hc : s.clients i = some c) (hproxy : c'.proxy = c.proxy)
    (hip : c'.ip = c.ip) (hbackend : c'.backend = c.backend ∨ c.tracker = none)
    (htracker : c'.tracker = c.tracker)
    (huntracked : c'.Untracked → c.Untracked ∨ c.tracker = none)
    (hextends : (s.proxies c.proxy).Extends (s'.proxies c.proxy)) (t : Nat)
    (ht : c'.tracker = some t) :
    ∃ task, (s'.proxies c'.proxy).sessionTasks t = some task ∧ task.backend = c'.backend ∧
      task.clientIp = c'.ip ∧ (c'.Untracked → (s'.proxies c'.proxy).Finished t) := by
  rw [htracker] at ht
  obtain ⟨task, htask, htaskBackend, htaskIp, hfinished⟩ := h.tracked i c t hc ht
  obtain ⟨task', htask', hbackend', hip', hphase⟩ := hextends t task htask
  have hsame : c'.backend = c.backend := by
    obtain hbackend | hnone := hbackend
    · exact hbackend
    · exact absurd (hnone.symm.trans ht) nofun
  rw [hproxy, hip, hsame]
  refine ⟨task', htask', hbackend'.trans htaskBackend, hip'.trans htaskIp, fun h' => ?_⟩
  intro task'' htask''
  obtain rfl := Option.some.inj (htask'.symm.trans htask'')
  obtain hbefore | hnone := huntracked h'
  · exact hphase (hfinished hbefore task htask)
  · exact absurd (hnone.symm.trans ht) nofun

theorem backends_incrOnlinePlayers (s : Network) (i : Nat) (c : Client) (b : BackendId) :
    (((s.incrOnlinePlayers i c).backends b).sessions =
        if b = c.backend then insert (s.backends b).nextSession (s.backends b).sessions
        else (s.backends b).sessions) ∧
      ((s.incrOnlinePlayers i c).backends b).nextSession =
        if b = c.backend then (s.backends b).nextSession + 1 else (s.backends b).nextSession := by
  unfold incrOnlinePlayers setBackend setClient
  dsimp only
  by_cases hb : b = c.backend
  · subst hb
    rw [Function.update_self, if_pos rfl, if_pos rfl]
    exact ⟨rfl, rfl⟩
  · rw [Function.update_of_ne hb, if_neg hb, if_neg hb]
    exact ⟨rfl, rfl⟩

theorem backends_decrOnlinePlayers (s : Network) (i : Nat) (c : Client) (session : Nat)
    (b : BackendId) :
    (((s.decrOnlinePlayers i c session).backends b).sessions =
        if b = c.backend then (s.backends b).sessions.erase session
        else (s.backends b).sessions) ∧
      ((s.decrOnlinePlayers i c session).backends b).nextSession = (s.backends b).nextSession := by
  unfold decrOnlinePlayers setBackend setClient
  dsimp only
  by_cases hb : b = c.backend
  · subst hb
    rw [Function.update_self, if_pos rfl]
    exact ⟨rfl, rfl⟩
  · rw [Function.update_of_ne hb, if_neg hb]
    exact ⟨rfl, rfl⟩

/-- The effect of a client on the logins that the backends count. -/
theorem Paired.effect_logins (h : s.Paired) (hc : s.clients i = some c) (heffect : Effect s i c s')
    (b : BackendId) :
    Ledger (s'.loginAt b) (s'.backends b).sessions (s'.backends b).nextSession := by
  cases heffect with
  | own hsame | untrack hsame =>
    exact logins_same h hc hsame.session (hsame.backend.imp_right And.left) rfl rfl rfl
  | track hsame =>
    refine logins_same h hc ?_ ?_ rfl rfl rfl
    · exact hsame.session
    · exact hsame.backend.imp_right And.left
  | @login c' hsame htracker hsession =>
    obtain ⟨hsessions, hnext⟩ := backends_incrOnlinePlayers s i c' b
    have hnone : s.loginAt b i = none := by
      rw [loginAt_eq hc, hsession, ite_self]
    have hclients : (s.incrOnlinePlayers i c').clients = Function.update s.clients i
        (some { c' with session := some (s.backends c'.backend).nextSession }) := rfl
    rw [loginAt_update hclients, hsessions, hnext]
    by_cases hb : b = c'.backend
    · rw [if_pos hb, if_pos hb, if_pos hb.symm, Finset.coe_insert, hb]
      exact (h.logins _).issue (hb ▸ hnone)
    · rw [if_neg hb, if_neg hb, if_neg (Ne.symm hb)]
      exact (h.logins b).update_same hnone
  | @logout c' session hsame huntracked hsession =>
    have hbackend : c'.backend = c.backend := by
      obtain hbackend | ⟨hnone, -⟩ := hsame.backend
      · exact hbackend
      · exact absurd (hnone.symm.trans hsession) nofun
    obtain ⟨hsessions, hnext⟩ := backends_decrOnlinePlayers s i c' session b
    have hclients : (s.decrOnlinePlayers i c' session).clients =
        Function.update s.clients i (some { c' with session := none }) := rfl
    rw [loginAt_update hclients, hsessions, hnext, ite_self]
    by_cases hb : b = c'.backend
    · have hheld : s.loginAt b i = some session := by
        rw [loginAt_eq hc, if_pos (hbackend.symm.trans hb.symm), hsession]
      rw [if_pos hb, Finset.coe_erase]
      exact (h.logins b).release hheld
    · have hheld : s.loginAt b i = none := by
        rw [loginAt_eq hc, if_neg fun hb' => hb (hb'.symm.trans hbackend.symm)]
      rw [if_neg hb]
      exact (h.logins b).update_same hheld

/-- What a client does to the proxies, but for beginning to track its session. -/
theorem progress_cancelSession (p : MCProxy) (t : Nat) :
    p.Progress ((p.step (.cancelSession t)).getD p) := by
  cases hstep : p.step (.cancelSession t) with
  | none => exact ⟨rfl, fun _ => .inl rfl⟩
  | some p' =>
    refine MCProxy.step_progress ?_ hstep
    nofun

theorem proxies_setProxy (s : Network) (n m : Nat) (p : MCProxy) :
    (s.setProxy n p).proxies m = if m = n then p else s.proxies m :=
  Function.update_apply ..

theorem Paired.effect_trackers (h : s.Paired) (hc : s.clients i = some c)
    (heffect : Effect s i c s') (n : Nat) :
    Ledger (s'.trackerAt n) (tasks (s'.proxies n)) (s'.proxies n).nextTask := by
  cases heffect with
  | own hsame =>
    exact trackers_same h hc hsame.proxy (.inl hsame.tracker) rfl ⟨rfl, fun _ => .inl rfl⟩
  | login hsame | logout hsame =>
    refine trackers_same h hc ?_ (.inl ?_) rfl ⟨rfl, fun _ => .inl rfl⟩
    · exact hsame.proxy
    · exact hsame.tracker
  | @untrack c' t hsame htracker =>
    refine trackers_same h hc hsame.proxy (.inl hsame.tracker) rfl ?_
    show (s.proxies n).Progress ((s.setProxy c.proxy _).proxies n)
    rw [proxies_setProxy]
    split
    · next hn =>
      subst hn
      exact progress_cancelSession _ _
    · exact ⟨rfl, fun _ => .inl rfl⟩
  | @track c' task hsame htracker hpc hbackend hip hphase =>
    by_cases hn : n = c.proxy
    · subst hn
      have hnone : s.trackerAt c.proxy i = none := by
        rw [trackerAt_eq hc, if_pos rfl, htracker]
      have htasks : tasks ((s.proxies c.proxy).startSession task) =
          insert (s.proxies c.proxy).nextTask (tasks (s.proxies c.proxy)) := by
        ext t
        show Function.update (s.proxies c.proxy).sessionTasks _ (some task) t ≠ none ↔ _
        rw [Set.mem_insert_iff, Function.update_apply]
        split
        · next ht => exact ⟨fun _ => .inl ht, fun _ => nofun⟩
        · next ht => exact ⟨.inr, fun hmem => hmem.resolve_left ht⟩
      have hclients : ((s.setProxy c.proxy ((s.proxies c.proxy).startSession task)).setClient i
          { c' with tracker := some (s.proxies c.proxy).nextTask }).clients = Function.update s.clients i
            (some { c' with tracker := some (s.proxies c.proxy).nextTask }) := rfl
      rw [trackerAt_update hclients, if_pos hsame.proxy]
      show Ledger _ (tasks ((s.setProxy c.proxy _).proxies c.proxy))
        ((s.setProxy c.proxy _).proxies c.proxy).nextTask
      rw [proxies_setProxy, if_pos rfl, htasks]
      exact (h.trackers c.proxy).issue hnone
    · refine trackers_same h hc ?_ (.inr (Ne.symm hn)) rfl ?_
      · exact hsame.proxy
      · show (s.proxies n).Progress ((s.setProxy c.proxy _).proxies n)
        rw [proxies_setProxy, if_neg hn]
        exact ⟨rfl, fun _ => .inl rfl⟩

theorem Paired.effect_tracked (h : s.Paired) (hc : s.clients i = some c)
    (heffect : Effect s i c s') :
    ∀ j d t, s'.clients j = some d → d.tracker = some t →
      ∃ task, (s'.proxies d.proxy).sessionTasks t = some task ∧ task.backend = d.backend ∧
        task.clientIp = d.ip ∧ (d.Untracked → (s'.proxies d.proxy).Finished t) := by
  cases heffect with
  | own hsame huntracked =>
    refine tracked_step h hc rfl (fun n => .refl _) ?_
    exact tracked_same h hc hsame.proxy hsame.ip (hsame.backend.imp_right And.right) hsame.tracker
      huntracked (.refl _)
  | logout hsame huntracked =>
    refine tracked_step h hc rfl (fun n => .refl _) ?_
    refine tracked_same h hc ?_ ?_ ?_ ?_ huntracked (.refl _)
    · exact hsame.proxy
    · exact hsame.ip
    · exact hsame.backend.imp_right And.right
    · exact hsame.tracker
  | login hsame htracker =>
    refine tracked_step h hc rfl (fun n => .refl _) fun t ht => ?_
    exact absurd ((hsame.tracker.trans htracker).symm.trans ht) nofun
  | @untrack c' t hsame htracker =>
    have hextends (n : Nat) : (s.proxies n).Extends ((s.setProxy c.proxy
        (((s.proxies c.proxy).step (.cancelSession t)).getD (s.proxies c.proxy))).proxies n) := by
      rw [proxies_setProxy]
      split
      · next hn =>
        subst hn
        exact (progress_cancelSession _ _).extends
      · exact .refl _
    refine tracked_step h hc rfl hextends fun t' ht' => ?_
    obtain rfl : t = t' := Option.some.inj (htracker.symm.trans (hsame.tracker.symm.trans ht'))
    obtain ⟨task, htask, hbackend, hip, -⟩ := h.tracked i c t hc htracker
    obtain ⟨task', htask', hbackend', hip', -⟩ := hextends c.proxy t task htask
    have hsameBackend : c'.backend = c.backend := by
      obtain hsameBackend | ⟨-, hnone⟩ := hsame.backend
      · exact hsameBackend
      · exact absurd (hnone.symm.trans htracker) nofun
    rw [hsame.proxy, hsame.ip, hsameBackend]
    refine ⟨task', htask', hbackend'.trans hbackend, hip'.trans hip, fun _ => ?_⟩
    show ((s.setProxy c.proxy _).proxies c.proxy).Finished t
    rw [proxies_setProxy, if_pos rfl]
    exact MCProxy.finished_cancelSession
  | @track c' task hsame htracker hpc hbackend hip hphase =>
    have hextends (n : Nat) : (s.proxies n).Extends
        ((s.setProxy c.proxy ((s.proxies c.proxy).startSession task)).proxies n) := by
      rw [proxies_setProxy]
      split
      · next hn =>
        subst hn
        exact MCProxy.extends_startSession (h.tasksMade _)
      · exact .refl _
    refine tracked_step h hc rfl hextends fun t ht => ?_
    obtain rfl := Option.some.inj ht
    rw [hsame.proxy]
    refine ⟨task, ?_, hbackend, hip, ?_⟩
    · show ((s.setProxy c.proxy _).proxies c.proxy).sessionTasks _ = some task
      rw [proxies_setProxy, if_pos rfl]
      exact Function.update_self ..
    · exact fun huntracked => absurd huntracked (Client.not_untracked (.inl hpc))

theorem Paired.effect_only (h : s.Paired) (heffect : Effect s i c s') (n : Nat) :
    (s'.proxies n).Only := by
  cases heffect with
  | own | login | logout => exact h.only n
  | @untrack c' t hsame htracker =>
    show ((s.setProxy c.proxy _).proxies n).Only
    rw [proxies_setProxy]
    split
    · cases hstep : (s.proxies c.proxy).step (.cancelSession t) with
      | none => exact h.only c.proxy
      | some p => exact (h.only c.proxy).step (h.tasksMade c.proxy) hstep
    · exact h.only n
  | @track c' task hsame htracker hpc hbackend hip hphase =>
    show ((s.setProxy c.proxy _).proxies n).Only
    rw [proxies_setProxy]
    split
    · exact (h.only c.proxy).startSession (h.tasksMade c.proxy)
    · exact h.only n

theorem backend_step {m m' : MCBackend} {a : Server.Action} (hstep : m.step a = some m')
    (hbegin : a ≠ .beginSession) (hend : ∀ session, a ≠ .endSession session) :
    m'.sessions = m.sessions ∧ m'.nextSession = m.nextSession := by
  cases MCBackend.step_effect hstep with
  | units h | supervise _ _ h | stopMcproc h => exact ⟨h.sessions, h.nextSession⟩
  | turn _ h => exact ⟨h.sessions, h.nextSession⟩
  | off h | entered h | exit h => exact ⟨h.sessions, h.nextSession⟩
  | beginSession => exact absurd rfl hbegin
  | endSession => exact absurd rfl (hend _)
  | poll _ hsessions hnext => exact ⟨hsessions, hnext⟩

theorem sessions_init (listing : ServerListing) : (MCBackend.init listing).sessions = ∅ :=
  rfl

theorem only_init (voiceIpBinding : Bool) : (MCProxy.init voiceIpBinding).Only := by
  intro p sid session h
  cases h

theorem tasks_init (voiceIpBinding : Bool) : tasks (MCProxy.init voiceIpBinding) = ∅ :=
  Set.eq_empty_iff_forall_notMem.2 fun _ h => h rfl

section
variable (voiceIpBinding : Nat → Bool) (listings : BackendId → ServerListing)

theorem backends_init (b : BackendId) :
    (init voiceIpBinding listings).backends b = MCBackend.init (listings b) :=
  rfl

theorem proxies_init (n : Nat) :
    (init voiceIpBinding listings).proxies n = MCProxy.init (voiceIpBinding n) :=
  rfl

theorem clients_init (i : Nat) : (init voiceIpBinding listings).clients i = none :=
  rfl

theorem init_paired : (init voiceIpBinding listings).Paired where
  fresh i _ := clients_init voiceIpBinding listings i
  holds i c h := nomatch (clients_init voiceIpBinding listings i).symm.trans h
  logins b := by
    have hnone : (init voiceIpBinding listings).loginAt b = fun _ => none := rfl
    rw [backends_init, hnone, sessions_init, Finset.coe_empty]
    exact .empty _
  trackers n := by
    have hnone : (init voiceIpBinding listings).trackerAt n = fun _ => none := rfl
    rw [proxies_init, hnone, tasks_init]
    exact .empty _
  tracked i c t h := nomatch (clients_init voiceIpBinding listings i).symm.trans h
  only n := only_init (voiceIpBinding n)

end

theorem Paired.connect (h : s.Paired) (hstep : s.step (.connect n ip) = some s') : s'.Paired := by
  cases hstep
  have hnone : s.clients s.nextClient = none := h.fresh _ (Nat.le_refl _)
  have hearly : ({ proxy := n, ip := ip } : Client).Holds := ⟨⟨rfl, rfl, rfl⟩, rfl, rfl⟩
  have hclient : ∀ i c, Function.update s.clients s.nextClient
      (some { proxy := n, ip := ip }) i = some c →
        i = s.nextClient ∧ c = { proxy := n, ip := ip } ∨ s.clients i = some c := by
    intro i c hc
    rw [Function.update_apply] at hc
    split at hc
    · next hi => exact .inl ⟨hi, (Option.some.inj hc).symm⟩
    · exact .inr hc
  refine ⟨?_, ?_, ?_, ?_, ?_, h.only⟩
  · intro i hi
    have hi' : i ≠ s.nextClient := Nat.ne_of_gt hi
    show Function.update s.clients s.nextClient _ i = none
    rw [Function.update_of_ne hi']
    exact h.fresh i (Nat.le_of_succ_le hi)
  · intro i c hc
    obtain ⟨-, rfl⟩ | hc := hclient i c hc
    · exact hearly
    · exact h.holds i c hc
  · intro b
    rw [loginAt_update (s := s) rfl, ite_self]
    refine (h.logins b).update_same ?_
    unfold loginAt
    rw [hnone]
    rfl
  · intro n
    rw [trackerAt_update (s := s) rfl, ite_self]
    refine (h.trackers n).update_same ?_
    unfold trackerAt
    rw [hnone]
    rfl
  · intro i c t hc ht
    obtain ⟨-, rfl⟩ | hc := hclient i c hc
    · cases ht
    · exact h.tracked i c t hc ht

theorem Paired.client {a : ClientAction} (h : s.Paired) (hc : s.clients i = some c)
    (hstep : s.clientStep i c a = some s') : s'.Paired := by
  obtain ⟨heffect, c', hclients, hholds⟩ := clientStep_stepped (h.holds i c hc) hstep
  have hnext : s'.nextClient = s.nextClient := by
    cases heffect <;> rfl
  refine ⟨?_, ?_, h.effect_logins hc heffect, h.effect_trackers hc heffect,
    h.effect_tracked hc heffect, h.effect_only heffect⟩
  · intro j hj
    rw [hnext] at hj
    have hji : j ≠ i := by
      rintro rfl
      exact absurd ((h.fresh j hj).symm.trans hc) nofun
    rw [hclients, Function.update_of_ne hji]
    exact h.fresh j hj
  · intro j d hd
    rw [hclients, Function.update_apply] at hd
    split at hd
    · exact Option.some.inj hd ▸ hholds
    · exact h.holds j d hd

theorem Paired.setProxy {p : MCProxy} (h : s.Paired) (hprogress : (s.proxies n).Progress p)
    (honly : p.Only) : (s.setProxy n p).Paired := by
  refine ⟨h.fresh, h.holds, h.logins, ?_, ?_, ?_⟩
  · intro m
    refine ledger_progress (h.trackers m) ?_
    rw [proxies_setProxy]
    split
    · next hm => exact hm ▸ hprogress
    · exact ⟨rfl, fun _ => .inl rfl⟩
  · intro i c t hc ht
    have hextends : (s.proxies c.proxy).Extends ((s.setProxy n p).proxies c.proxy) := by
      rw [proxies_setProxy]
      split
      · next hm => exact hm ▸ hprogress.extends
      · exact .refl _
    exact tracked_same h hc rfl rfl (.inl rfl) rfl .inl hextends t ht
  · intro m
    rw [proxies_setProxy]
    split
    · exact honly
    · exact h.only m

theorem Paired.setBackend {m : MCBackend} (h : s.Paired)
    (hsessions : m.sessions = (s.backends b).sessions)
    (hnext : m.nextSession = (s.backends b).nextSession) : (s.setBackend b m).Paired := by
  refine ⟨h.fresh, h.holds, ?_, h.trackers, h.tracked, h.only⟩
  intro b'
  have hsame : ((s.setBackend b m).backends b').sessions = (s.backends b').sessions ∧
      ((s.setBackend b m).backends b').nextSession = (s.backends b').nextSession := by
    unfold Network.setBackend
    dsimp only
    rw [Function.update_apply]
    split
    · next hb =>
      subst hb
      exact ⟨hsessions, hnext⟩
    · exact ⟨rfl, rfl⟩
  show Ledger (s.loginAt b') ((s.setBackend b m).backends b').sessions _
  rw [hsame.1, hsame.2]
  exact h.logins b'

/-- **A step keeps the pairing.** -/
theorem Paired.step {a : NetworkAction} (h : s.Paired) (hstep : s.step a = some s') :
    s'.Paired := by
  cases a with
  | connect n ip => exact h.connect hstep
  | client i a =>
    obtain ⟨c, hc, hclient⟩ := Option.bind_eq_some_iff.1 hstep
    exact h.client hc hclient
  | proxy n a =>
    dsimp only [Network.step] at hstep
    split at hstep
    · cases hstep
    · next ha =>
      obtain ⟨p, hp, rfl⟩ := Option.map_eq_some_iff.1 hstep
      refine h.setProxy (MCProxy.step_progress ?_ hp) ((h.only n).step (h.tasksMade n) hp)
      rintro _ _ _ _ rfl
      exact ha rfl
  | backend b a =>
    dsimp only [Network.step] at hstep
    split at hstep
    · cases hstep
    · next ha =>
      obtain ⟨m, hm, rfl⟩ := Option.map_eq_some_iff.1 hstep
      obtain ⟨hsessions, hnext⟩ := backend_step hm (by rintro rfl; exact ha rfl)
        (by rintro _ rfl; exact ha rfl)
      exact h.setBackend hsessions hnext

/-! ### The backends and proxies of a network -/

/-- A client whose task is over has left nothing behind, unless it was abandoned. -/
theorem Paired.over (h : s.Paired) (hc : s.clients i = some c) (hpc : c.pc = .over) :
    c.writerClosed = true ∧ (c.abandoned = false → c.session = none ∧ c.upstream ≠ .opened ∧
      ∀ t, c.tracker = some t → (s.proxies c.proxy).Finished t) := by
  have hholds := h.holds i c hc
  unfold Client.Holds at hholds
  rw [hpc] at hholds
  refine ⟨hholds.1, fun habandoned => ?_⟩
  obtain ⟨hsession, hupstream⟩ := hholds.2 habandoned
  refine ⟨hsession, hupstream, fun t ht => ?_⟩
  obtain ⟨task, -, -, -, hfinished⟩ := h.tracked i c t hc ht
  exact hfinished ⟨.inr (.inr hpc), habandoned⟩

end

/-- A client whose player joins, and what happens then. -/
def joining (actions : List ClientAction) : List NetworkAction :=
  .connect 0 [] :: .client 0 (.identified (some (0, .modern ⟨767, "", 25565, 2⟩))) ::
    .client 0 (.started true) :: .client 0 (.connected ⟨[], [], false⟩) ::
      actions.map (.client 0)

/-- The login of a client whose task is cancelled while the Login Start is read stays counted. -/
theorem login_abandoned :
    ∃ s, Reach Network.step (fun _ _ => True) (init (fun _ => true) fun _ => { enabled := true }) s ∧
      (s.clients 0).any (fun c => c.pc = .over && c.abandoned) = true ∧
      0 ∈ (s.backends 0).sessions :=
  Reach.exists_of_runIn Network.step (fun _ _ => True)
    (init (fun _ => true) fun _ => { enabled := true }) (joining [.cancel, .closed])
    (by decide +kernel)

end Network

end Silkjam.Proxy

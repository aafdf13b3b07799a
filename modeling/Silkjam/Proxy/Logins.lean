import Silkjam.Proxy.Client

/-!
# The login of a client

What the task of a client holds at each of its awaits (`Holds`), and what a step of it does to the
logins that the backends count and to the sessions that the proxies track (`Effect`). That covers
every step, cancellations included (`clientStep_stepped`).
-/

namespace Silkjam.Proxy

open Protocol Transition Server

namespace Client

def IsJoining (c : Client) : Prop :=
  ∃ handshake, c.handshake = some handshake ∧ handshake.isJoining = true

/-- Nothing was done for the client yet. -/
structure Early (c : Client) : Prop where
  upstream : c.upstream = .none
  session : c.session = none
  tracker : c.tracker = none

/-- What the task of the client holds, where it is. -/
def Holds (c : Client) : Prop :=
  match c.pc with
  | .identifying | .waking | .connecting | .handling | .refusing =>
    c.Early ∧ c.writerClosed = false ∧ c.abandoned = false
  | .loggingIn =>
    c.IsJoining ∧ c.session ≠ none ∧ c.tracker = none ∧ c.upstream = .opened ∧
      c.writerClosed = false ∧ c.abandoned = false
  | .relaying | .gathering =>
    (c.session ≠ none ↔ c.IsJoining) ∧ (c.session = none → c.tracker = none) ∧
      c.upstream = .opened ∧ c.writerClosed = false ∧ c.abandoned = false
  | .untracking =>
    c.session = none ∧ c.upstream = .opened ∧ c.writerClosed = false ∧ c.abandoned = false
  | .closingBackend =>
    c.session = none ∧ c.upstream = .closed ∧ c.writerClosed = false ∧ c.abandoned = false
  | .closing | .over =>
    c.writerClosed = true ∧ (c.abandoned = false → c.session = none ∧ c.upstream ≠ .opened)

/-- The task that tracks its session has ended, if there was one. -/
def Untracked (c : Client) : Prop :=
  (c.pc = .closingBackend ∨ c.pc = .closing ∨ c.pc = .over) ∧ c.abandoned = false

/-- The login, the tracked session and what they belong to are the same. -/
structure SameLogin (c c' : Client) : Prop where
  proxy : c'.proxy = c.proxy
  ip : c'.ip = c.ip
  backend : c'.backend = c.backend ∨ c.session = none ∧ c.tracker = none
  session : c'.session = c.session
  tracker : c'.tracker = c.tracker

end Client

/-- What the step of a client does to the logins and sessions. -/
inductive Effect (s : Network) (i : Nat) (c : Client) : Network → Prop where
  | own {c' : Client} (h : c.SameLogin c')
      (huntracked : c'.Untracked → c.Untracked ∨ c.tracker = none) :
      Effect s i c (s.setClient i c')
  | login {c' : Client} (h : c.SameLogin c') (htracker : c.tracker = none)
      (hsession : c.session = none) : Effect s i c (s.incrOnlinePlayers i c')
  | logout {c' : Client} {session : Nat} (h : c.SameLogin c')
      (huntracked : c'.Untracked → c.Untracked ∨ c.tracker = none)
      (hsession : c.session = some session) : Effect s i c (s.decrOnlinePlayers i c' session)
  | track {c' : Client} {task : SessionTask} (h : c.SameLogin c') (htracker : c.tracker = none)
      (hpc : c'.pc = .relaying) (hbackend : task.backend = c'.backend)
      (hip : task.clientIp = c'.ip) (hphase : task.phase = .created) :
      Effect s i c ((s.setProxy c.proxy ((s.proxies c.proxy).startSession task)).setClient i
        { c' with tracker := some (s.proxies c.proxy).nextTask })
  | untrack {c' : Client} {t : Nat} (h : c.SameLogin c') (htracker : c.tracker = some t) :
      Effect s i c ((s.setProxy c.proxy
        (((s.proxies c.proxy).step (.cancelSession t)).getD (s.proxies c.proxy))).setClient i c')

section
variable {s s' : Network} {i : Nat} {c : Client} {a : ClientAction}

theorem Client.SameLogin.of_eq {c c' : Client} (hproxy : c'.proxy = c.proxy) (hip : c'.ip = c.ip)
    (hbackend : c'.backend = c.backend) (hsession : c'.session = c.session)
    (htracker : c'.tracker = c.tracker) : c.SameLogin c' :=
  ⟨hproxy, hip, .inl hbackend, hsession, htracker⟩

/-- The client after its step holds what it should, and the rest of the network is as the effect
says. -/
def Stepped (s : Network) (i : Nat) (c : Client) (s' : Network) : Prop :=
  Effect s i c s' ∧ ∃ c', s'.clients = Function.update s.clients i (some c') ∧ c'.Holds

theorem stepped_own {c' : Client} (h : c.SameLogin c')
    (huntracked : c'.Untracked → c.Untracked ∨ c.tracker = none) (hholds : c'.Holds) :
    Stepped s i c (s.setClient i c') :=
  ⟨.own h huntracked, c', rfl, hholds⟩

theorem Client.not_untracked (hpc : c.pc = .relaying ∨ c.pc = .gathering ∨ c.pc = .untracking) :
    ¬ c.Untracked := by
  rintro ⟨hpc', -⟩
  obtain h | h | h := hpc <;> rw [h] at hpc' <;> obtain h | h | h := hpc' <;> cases h

theorem stepped_identified (h : c.Holds) (hpc : c.pc = .identifying)
    (result : Option (BackendId × Handshake)) : Stepped s i c (s.identified i c result) := by
  unfold Client.Holds at h
  rw [hpc] at h
  obtain ⟨hearly, hwriter, habandoned⟩ := h
  have hsame {pc : ClientPc} {b : BackendId} {handshake : Option Handshake} :
      c.SameLogin { c with backend := b, handshake := handshake, pc := pc } :=
    ⟨rfl, rfl, .inr ⟨hearly.session, hearly.tracker⟩, rfl, rfl⟩
  have hearly' : ∀ b handshake pc, ({ c with backend := b, handshake := handshake, pc := pc } :
      Client).Early := fun _ _ _ => ⟨hearly.upstream, hearly.session, hearly.tracker⟩
  unfold Network.identified
  split
  · refine stepped_own (.of_eq rfl rfl rfl rfl rfl) (fun _ => .inr hearly.tracker)
      ⟨rfl, fun _ => ⟨hearly.session, ?_⟩⟩
    show c.upstream ≠ .opened
    rw [hearly.upstream]
    decide
  · split
    · split
      · exact stepped_own hsame (fun _ => .inr hearly.tracker) ⟨hearly' _ _ _, hwriter, habandoned⟩
      · exact stepped_own hsame (fun _ => .inr hearly.tracker) ⟨hearly' _ _ _, hwriter, habandoned⟩
    · exact stepped_own hsame (fun _ => .inr hearly.tracker) ⟨hearly' _ _ _, hwriter, habandoned⟩

theorem stepped_connected {handshake : Handshake} {rest : Rest} (h : c.Holds)
    (hpc : c.pc = .connecting) (hhandshake : c.handshake = some handshake) :
    Stepped s i c (s.connected i c handshake rest) := by
  unfold Client.Holds at h
  rw [hpc] at h
  obtain ⟨hearly, hwriter, habandoned⟩ := h
  unfold Network.connected
  split
  · exact stepped_own (.of_eq rfl rfl rfl rfl rfl) (fun _ => .inr hearly.tracker) ⟨rfl, nofun⟩
  · split
    · next hjoining =>
      refine ⟨.login (.of_eq rfl rfl rfl rfl rfl) hearly.tracker hearly.session, _, rfl, ?_⟩
      exact ⟨⟨handshake, hhandshake, hjoining⟩, nofun, hearly.tracker, rfl, hwriter, habandoned⟩
    · next hjoining =>
      have hnone : ¬ c.IsJoining := by
        rintro ⟨handshake', hhandshake', hjoining'⟩
        obtain rfl := Option.some.inj (hhandshake.symm.trans hhandshake')
        exact hjoining hjoining'
      refine stepped_own (.of_eq rfl rfl rfl rfl rfl) (fun _ => .inr hearly.tracker)
        ⟨?_, fun _ => hearly.tracker, rfl, hwriter, habandoned⟩
      exact ⟨fun hsession => absurd hearly.session hsession, fun hjoins => absurd hjoins hnone⟩

theorem stepped_loggedIn {handshake : Handshake} {login : Option Protocol.LoginStart}
    {sessionId : Nat} {rest : Rest} (h : c.Holds) (hpc : c.pc = .loggingIn) :
    Stepped s i c (s.loggedIn i c handshake login sessionId rest) := by
  unfold Client.Holds at h
  rw [hpc] at h
  obtain ⟨hjoining, hsession, htracker, hupstream, hwriter, habandoned⟩ := h
  have hholds : (c.session ≠ none ↔ c.IsJoining) := ⟨fun _ => hjoining, fun _ => hsession⟩
  unfold Network.loggedIn
  split
  · exact stepped_own (.of_eq rfl rfl rfl rfl rfl) (fun _ => .inr htracker)
      ⟨hholds, fun _ => htracker, hupstream, hwriter, habandoned⟩
  · next login =>
    refine ⟨?_, _, rfl, hholds, fun hnone => absurd hnone hsession, hupstream, hwriter, habandoned⟩
    have hsame : c.SameLogin (c.startRelay
        (handshake.encode.toOption.getD [] ++ encodeLoginStartPacket login) rest) :=
      .of_eq rfl rfl rfl rfl rfl
    exact .track hsame htracker rfl rfl rfl rfl

theorem stepped_gathered (h : c.Holds) (hpc : c.pc = .gathering) :
    Stepped s i c (s.gathered i c) := by
  unfold Client.Holds at h
  rw [hpc] at h
  obtain ⟨-, htracker, hupstream, hwriter, habandoned⟩ := h
  unfold Network.gathered
  split
  · next hsession =>
    exact stepped_own (.of_eq rfl rfl rfl rfl rfl) (fun _ => .inr (htracker hsession))
      ⟨hsession, rfl, hwriter, habandoned⟩
  · next session hsession =>
    split
    · next hnone =>
      refine ⟨?_, _, rfl, rfl, rfl, hwriter, habandoned⟩
      exact .logout (.of_eq rfl rfl rfl rfl rfl) (fun _ => .inr hnone) hsession
    · refine ⟨?_, _, rfl, rfl, hupstream, hwriter, habandoned⟩
      exact .logout (.of_eq rfl rfl rfl rfl rfl)
        (fun h => absurd h (Client.not_untracked (.inr (.inr rfl)))) hsession

theorem stepped_untracked {t : Nat} (h : c.Holds) (hpc : c.pc = .untracking)
    (htracker : c.tracker = some t) : Stepped s i c (s.untracked i c t) := by
  unfold Client.Holds at h
  rw [hpc] at h
  obtain ⟨hsession, -, hwriter, habandoned⟩ := h
  exact ⟨.untrack (.of_eq rfl rfl rfl rfl rfl) htracker, _, rfl, hsession, rfl, hwriter, habandoned⟩

theorem stepped_pump {c₁ : Client} {b : RelayAction UInt8} (hsame : c.SameLogin c₁)
    (hpc : c₁.pc = .relaying ∨ c₁.pc = .gathering)
    (hholds : ∀ r, ({ c₁ with relay := some r } : Client).Holds)
    (hstep : s.pump i c₁ b = some s') : Stepped s i c s' := by
  obtain ⟨r, -, hr⟩ := Option.bind_eq_some_iff.1 hstep
  obtain ⟨r', -, rfl⟩ := Option.map_eq_some_iff.1 hr
  refine stepped_own ⟨hsame.proxy, hsame.ip, hsame.backend, hsame.session, hsame.tracker⟩
    (fun h => absurd h (Client.not_untracked ?_)) (hholds r')
  exact hpc.imp_right .inl

theorem Client.Holds.relaying (h : c.Holds) {pc : ClientPc} (hpc : c.pc = .relaying)
    (hpc' : pc = .relaying ∨ pc = .gathering) (r : Relay UInt8) :
    ({ c with pc := pc, relay := some r } : Client).Holds := by
  unfold Holds at h ⊢
  rw [hpc] at h
  obtain rfl | rfl := hpc'
  · exact h
  · exact h

theorem stepped_leaveRelay {b : RelayAction UInt8} (h : c.Holds) (hpc : c.pc = .relaying)
    (hstep : s.leaveRelay i c b = some s') : Stepped s i c s' := by
  unfold Network.leaveRelay at hstep
  refine stepped_pump ?_ (.inr rfl) ?_ hstep
  · exact .of_eq rfl rfl rfl rfl rfl
  · exact fun r => h.relaying hpc (.inr rfl) r

/-- The task leaves before it has done anything, or after everything was undone. -/
theorem stepped_close (h : c.Holds) (hpc : c.Early ∨ c.pc = .closingBackend) :
    Stepped s i c (s.setClient i c.close) := by
  obtain hearly | hpc := hpc
  · refine stepped_own (.of_eq rfl rfl rfl rfl rfl) (fun _ => .inr hearly.tracker)
      ⟨rfl, fun _ => ⟨hearly.session, ?_⟩⟩
    show c.upstream ≠ .opened
    rw [hearly.upstream]
    decide
  · unfold Client.Holds at h
    rw [hpc] at h
    obtain ⟨hsession, hupstream, -, habandoned⟩ := h
    refine stepped_own (.of_eq rfl rfl rfl rfl rfl) (fun _ => .inl ⟨.inl hpc, habandoned⟩)
      ⟨rfl, fun _ => ⟨hsession, ?_⟩⟩
    show c.upstream ≠ .opened
    rw [hupstream]
    decide

theorem stepped_over (h : c.Holds) (hpc : c.pc = .closing) :
    Stepped s i c (s.setClient i { c with pc := .over }) := by
  unfold Client.Holds at h
  rw [hpc] at h
  exact stepped_own (.of_eq rfl rfl rfl rfl rfl)
    (fun huntracked => .inl ⟨.inr (.inl hpc), huntracked.2⟩) h

theorem Client.Holds.early (h : c.Holds) (hpc : c.pc = .identifying ∨ c.pc = .waking ∨
    c.pc = .connecting ∨ c.pc = .handling ∨ c.pc = .refusing) :
    c.Early ∧ c.writerClosed = false ∧ c.abandoned = false := by
  unfold Holds at h
  obtain hpc | hpc | hpc | hpc | hpc := hpc <;> rwa [hpc] at h

theorem stepped_cancel (h : c.Holds) (hstep : s.cancel i c = some s') : Stepped s i c s' := by
  unfold Network.cancel at hstep
  split at hstep
  case h_1 hpc | h_2 hpc | h_3 hpc | h_4 hpc | h_5 hpc =>
    cases hstep
    exact stepped_close h (.inl (h.early (by simp [hpc])).1)
  case h_6 hpc =>
    cases hstep
    exact stepped_close h (.inr hpc)
  case h_7 | h_8 =>
    cases hstep
    exact stepped_own (.of_eq rfl rfl rfl rfl rfl) (fun h => nomatch h.2) ⟨rfl, nofun⟩
  case h_9 hpc => exact stepped_leaveRelay h hpc hstep
  case h_10 hpc =>
    obtain ⟨t, htracker, rfl⟩ := Option.map_eq_some_iff.1 hstep
    exact stepped_untracked h hpc htracker
  case h_11 hpc =>
    cases hstep
    exact stepped_over h hpc
  case h_12 => cases hstep

/-- **The step of a client.** -/
theorem clientStep_stepped (h : c.Holds) (hstep : s.clientStep i c a = some s') :
    Stepped s i c s' := by
  cases a <;> dsimp only [Network.clientStep] at hstep
  case cancel => exact stepped_cancel h hstep
  case raised =>
    split at hstep
    case h_5 => cases hstep
    all_goals
      next hpc =>
      cases hstep
      exact stepped_close h (.inl (h.early (by simp [hpc])).1)
  all_goals
    split at hstep
    case isFalse => cases hstep
  case identified.isTrue result hpc =>
    cases hstep
    exact stepped_identified h hpc result
  case started.isTrue success hpc =>
    cases hstep
    obtain ⟨hearly, hwriter, habandoned⟩ := h.early (.inr (.inl hpc))
    refine stepped_own (.of_eq rfl rfl rfl rfl rfl) (fun _ => .inr hearly.tracker) ?_
    cases success
    · exact ⟨⟨hearly.upstream, hearly.session, hearly.tracker⟩, hwriter, habandoned⟩
    · exact ⟨⟨hearly.upstream, hearly.session, hearly.tracker⟩, hwriter, habandoned⟩
  case connected.isTrue rest hpc =>
    obtain ⟨handshake, hhandshake, rfl⟩ := Option.map_eq_some_iff.1 hstep
    exact stepped_connected h hpc hhandshake
  case refused.isTrue hpc =>
    cases hstep
    obtain ⟨hearly, hwriter, habandoned⟩ := h.early (by simp [hpc])
    exact stepped_own (.of_eq rfl rfl rfl rfl rfl) (fun _ => .inr hearly.tracker)
      ⟨⟨hearly.upstream, hearly.session, hearly.tracker⟩, hwriter, habandoned⟩
  case loggedIn.isTrue login sessionId rest hpc =>
    obtain ⟨handshake, -, rfl⟩ := Option.map_eq_some_iff.1 hstep
    exact stepped_loggedIn h hpc
  case up.isTrue b hpc =>
    exact stepped_pump (.of_eq rfl rfl rfl rfl rfl) (.inl hpc) (hpc ▸ h.relaying hpc (.inl rfl))
      hstep
  case down.isTrue b hpc =>
    exact stepped_pump (.of_eq rfl rfl rfl rfl rfl) (.inl hpc) (hpc ▸ h.relaying hpc (.inl rfl))
      hstep
  case returned.isTrue hpc => exact stepped_leaveRelay h hpc hstep
  case gathered.isTrue hpc =>
    cases hstep
    exact stepped_gathered h hpc
  case untracked.isTrue hpc =>
    obtain ⟨t, htracker, rfl⟩ := Option.map_eq_some_iff.1 hstep
    exact stepped_untracked h hpc htracker
  case backendClosed.isTrue hpc =>
    cases hstep
    exact stepped_close h (.inr hpc)
  case handled.isTrue hpc =>
    cases hstep
    exact stepped_close h (.inl (h.early (by simp [hpc])).1)
  case kicked.isTrue hpc =>
    cases hstep
    exact stepped_close h (.inl (h.early (by simp [hpc])).1)
  case closed.isTrue hpc =>
    cases hstep
    exact stepped_over h hpc

end

end Silkjam.Proxy

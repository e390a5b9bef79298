import Ficant.Platform.Registry
import Ficant.Lib.Except

namespace Ficant.Platform

open Lib

/-!
# Revocation

What holds over whole runs of the platform port, for any number of calls and any order of their
steps.

* `Moves` — everything that one step of a call can do;
* `SessionInv`, `AppInv`, `GrantInv` — what the steps keep;
* `grants_bound` — what every grant is bound to, as long as the grant counter does not wrap around;
* `revocation_final` — revoked sessions and applications stay revoked in every run whose steps are
  `proper`: a revoked session is not opened again in the second in which it was issued, a session
  record is replaced only while no application is revoked in it, no authorisation is half done when
  its application is revoked, and the grant counter does not wrap around.
-/

/-! ### Signed texts -/

/-- Bytes come back from their hexadecimal text. -/
theorem hex_injective : Function.Injective hex := by
  intro a b h
  have hchars : a.flatMap hexByte = b.flatMap hexByte := by
    simpa [hex] using congrArg String.toList h
  have ha := parseHexBytes_flatMap a
  rw [hchars, parseHexBytes_flatMap] at ha
  exact (Option.some.inj ha).symm

theorem nul_not_mem_decimalChars (n : ℤ) : nul ∉ decimalChars n :=
  not_mem_decimalChars (by decide) (by decide) n

theorem nul_not_mem_hex (bytes : List UInt8) : nul ∉ (hex bytes).toList := by
  have hdigit : ∀ n < 16, nul ≠ Nat.digitChar n := by decide
  intro hmem
  simp only [hex, String.toList_ofList, List.mem_flatMap, hexByte, List.mem_cons,
    List.not_mem_nil, or_false] at hmem
  obtain ⟨b, -, hb | hb⟩ := hmem
  · exact hdigit _ (by have := b.toNat_lt; omega) hb
  · exact hdigit _ (by omega) hb

/-- The fingerprint and the second of issue can be read from the text of a session identifier. -/
theorem identifierText_inj {purpose purpose' subject subject' : String}
    {fingerprint fingerprint' : ContentHash} {role role' : PlatformRole}
    {issuedAt issuedAt' expiresAt expiresAt' : ℤ} {sequence sequence' : ℕ}
    (h : identifierText purpose subject fingerprint role issuedAt expiresAt sequence =
      identifierText purpose' subject' fingerprint' role' issuedAt' expiresAt' sequence') :
    hex fingerprint.bytes = hex fingerprint'.bytes ∧ issuedAt = issuedAt' := by
  have hdecimal := nul_not_mem_decimalChars
  -- from the end: the counter, the expiry, the second of issue, the role, the fingerprint
  obtain ⟨h, -⟩ := field_inj (hdecimal _) (hdecimal _) h
  obtain ⟨h, -⟩ := field_inj (hdecimal _) (hdecimal _) h
  obtain ⟨h, hissued⟩ := field_inj (hdecimal _) (hdecimal _) h
  obtain ⟨h, -⟩ := field_inj (hdecimal _) (hdecimal _) h
  obtain ⟨-, hfingerprint⟩ := field_inj (nul_not_mem_hex _) (nul_not_mem_hex _) h
  exact ⟨String.toList_injective hfingerprint, decimalChars_injective hissued⟩

/-- The counter can be read from the text of a grant. -/
theorem sequence_of_grantText {sessionId sessionId' appId appId' : String}
    {issuedAt issuedAt' expiresAt expiresAt' : ℤ} {sequence sequence' : ℕ}
    (h : grantText sessionId appId issuedAt expiresAt sequence =
      grantText sessionId' appId' issuedAt' expiresAt' sequence') : sequence = sequence' := by
  obtain ⟨-, hsequence⟩ :=
    field_inj (nul_not_mem_decimalChars _) (nul_not_mem_decimalChars _) h
  exact Int.ofNat.inj (decimalChars_injective hsequence)

/-- The session was issued by the platform for the identity with that key. -/
def IssuedFor (platform : PlatformApplication) (key : String) (view : SessionView) : Prop :=
  ∃ identity generation, identityKey identity = key ∧
    view = (platform.sessionOf identity generation view.issuedAt view.expiresAt).view

/-- Sessions with one identifier belong to one identity and were issued in one second. -/
theorem IssuedFor.eq_of_sessionId {platform : PlatformApplication}
    (hsign : Function.Injective platform.sign) {key key' : String} {view view' : SessionView}
    (h : IssuedFor platform key view) (h' : IssuedFor platform key' view')
    (hid : view.sessionId = view'.sessionId) :
    key = key' ∧ view.issuedAt = view'.issuedAt := by
  obtain ⟨identity, generation, rfl, hview⟩ := h
  obtain ⟨identity', generation', rfl, hview'⟩ := h'
  rw [hview, hview'] at hid
  have hbytes := hsign (hex_injective hid)
  have htext := String.ofList_injective (utf8_inj hbytes)
  exact identifierText_inj htext

/-! ### What a step can do -/

/-- The second lock of a call for an application lies behind it. -/
def Phase.late : Phase → Bool
  | allowed _ _ | stamped _ _ _ _ | done => true
  | _ => false

/-- The call is about to issue a grant. -/
def Phase.granting : Phase → Bool
  | allowed _ _ | stamped _ _ _ _ => true
  | _ => false

section Moves

variable (platform : PlatformApplication) (server : Server) (id : ℕ) (call : Call)

/-- A new session takes the place of the identity's session and is handed out. -/
def replaces (session : ActiveSession) : Effect :=
  ⟨server.sessions.insert (identityKey call.identity) session, server.grantSequence, .done,
    [.handedOut id (identityKey call.identity) session.view]⟩

/-- Everything that one step of a call can do. -/
inductive Moves : Effect → Prop
  /-- The call moves on by itself. -/
  | on {phase : Phase} (hlate : call.phase.late = true → phase.late = true)
      (hgranting : phase.granting = true → call.phase.granting = true)
      (hstamped : ∀ session app issuedAt expiresAt, phase = .stamped session app issuedAt expiresAt →
        expiresAt ≤ session.expiresAt) : Moves (movesTo server phase)
  /-- A failure is returned. -/
  | failing (failure : PlatformFailure) : Moves (fails server id failure)
  /-- `current_session` shows the session there is. -/
  | shown {session : ActiveSession}
      (hsession : server.sessions.get? (identityKey call.identity) = some session) :
      Moves ⟨server.sessions, server.grantSequence, .done,
        [.handedOut id (identityKey call.identity) session.view]⟩
  /-- `current_session` opens a session. -/
  | opened {now expiresAt : ℤ} (hphase : call.phase = .checked now)
      (hoperation : call.operation = .currentSession)
      (hnone : server.sessions.get? (identityKey call.identity) = none) :
      Moves (replaces server id call
        (platform.sessionOf call.identity 0 server.clock expiresAt))
  /-- `refresh_session` replaces the session. -/
  | refreshed {now expiresAt : ℤ} {current : ActiveSession} (hphase : call.phase = .checked now)
      (hoperation : call.operation = .refreshSession)
      (hcurrent : server.sessions.get? (identityKey call.identity) = some current) :
      Moves (replaces server id call
        (platform.sessionOf call.identity (current.generation + 1) server.clock expiresAt))
  /-- `revoke_session` removes the session. -/
  | closed {session : ActiveSession} (hphase : call.phase = .entered)
      (hoperation : call.operation = .revokeSession)
      (hsession : server.sessions.get? (identityKey call.identity) = some session) :
      Moves ⟨server.sessions.erase (identityKey call.identity), server.grantSequence, .done,
        [.sessionRevoked id (identityKey call.identity) session.view]⟩
  /-- `authorize_app` allows an application again. -/
  | authorized {session : SessionView} {app : AppRegistration} {state : ActiveSession}
      {appId : String} (hphase : call.phase = .copied session app)
      (hoperation : call.operation = .authorizeApp appId)
      (hstate : server.sessions.get? (identityKey call.identity) = some state) :
      Moves ⟨server.sessions.insert (identityKey call.identity)
          { state with revokedApps := state.revokedApps.filter (· ≠ appId) },
        server.grantSequence, .allowed session app, []⟩
  /-- `refresh_app` finds the application not revoked. -/
  | renewed {session : SessionView} {app : AppRegistration} {state : ActiveSession}
      {appId : String} (hoperation : call.operation = .refreshApp appId)
      (hstate : server.sessions.get? (identityKey call.identity) = some state)
      (hallowed : appId ∉ state.revokedApps) : Moves (movesTo server (.allowed session app))
  /-- `revoke_app` bars an application. -/
  | barred {session : SessionView} {app : AppRegistration} {state : ActiveSession}
      {appId : String} (hphase : call.phase = .copied session app)
      (hoperation : call.operation = .revokeApp appId)
      (hstate : server.sessions.get? (identityKey call.identity) = some state) :
      Moves ⟨server.sessions.insert (identityKey call.identity)
          { state with revokedApps := appId :: state.revokedApps.filter (· ≠ appId) },
        server.grantSequence, .done, [.appRevoked id (identityKey call.identity) appId]⟩
  /-- A grant is issued. -/
  | drew {session : SessionView} {app : AppRegistration} {issuedAt expiresAt : ℤ}
      (hphase : call.phase = .stamped session app issuedAt expiresAt) :
      Moves (stampedStep platform server id call session app issuedAt expiresAt)

end Moves

section Cases

variable {platform : PlatformApplication} {server : Server} {id : ℕ} {call : Call}

/-- A call may end where it is. -/
theorem moves_done : Moves platform server id call (movesTo server .done) := by
  refine .on (fun _ => rfl) (fun h => absurd h (by decide)) ?_
  intro _ _ _ _ h
  cases h

/-- The second step of `current_session`: the session there is, or a new one. -/
theorem moves_handsOut_current {now : ℤ} (hphase : call.phase = .checked now)
    (hoperation : call.operation = .currentSession) :
    Moves platform server id call (handsOut server id call
      (currentSession platform call.identity server.clock now server.sessions)) := by
  unfold currentSession
  split
  · rename_i session hsession
    split
    · exact .failing _
    · exact .shown hsession
  · rename_i hnone
    unfold PlatformApplication.issueSession
    split
    · exact .failing _
    · exact .opened hphase hoperation hnone

/-- The second step of `refresh_session`: a new session in the place of the old one. -/
theorem moves_handsOut_refresh {now : ℤ} (hphase : call.phase = .checked now)
    (hoperation : call.operation = .refreshSession) :
    Moves platform server id call (handsOut server id call
      (refreshSession platform call.identity server.clock now server.sessions)) := by
  unfold refreshSession
  split
  · exact .failing _
  · rename_i current hcurrent
    split
    · exact .failing _
    split
    · exact .failing _
    unfold PlatformApplication.issueSession
    split
    · exact .failing _
    · exact .refreshed hphase hoperation hcurrent

/-- The first lock of an application call: a copy of the session, or a failure. -/
theorem moves_appStep {now : ℤ} {appId : String} (hphase : call.phase = .checked now) :
    Moves platform server id call (appStep platform server id call now appId) := by
  unfold appStep
  split
  · refine .on ?_ ?_ ?_
    · rw [hphase]
      exact fun h => absurd h (by simp [Phase.late])
    · exact fun h => absurd h (by simp [Phase.granting])
    · intro _ _ _ _ h
      cases h
  · exact .failing _

/-- The second lock: the application is revoked, authorised again, or found to be revoked. -/
theorem moves_copiedStep {session : SessionView} {app : AppRegistration}
    (hphase : call.phase = .copied session app) :
    Moves platform server id call (copiedStep server id call session app) := by
  -- The step takes the lock, looks at the session and writes, all at once.
  unfold copiedStep
  split
  · rename_i appId hoperation
    unfold authorizeApp
    split
    · rename_i sessions hsessions
      split at hsessions
      · cases hsessions
      · rename_i state hstate
        obtain rfl := Except.ok.inj hsessions
        exact .authorized hphase hoperation hstate
    · exact .failing _
  · rename_i appId hoperation
    unfold refreshApp
    split
    · rename_i hallowed
      split at hallowed
      · cases hallowed
      · rename_i state hstate
        split at hallowed
        · cases hallowed
        · rename_i hnot
          exact .renewed hoperation hstate hnot
    · exact .failing _
  · rename_i appId hoperation
    unfold revokeApp
    split
    · rename_i sessions hsessions
      split at hsessions
      · cases hsessions
      · rename_i state hstate
        obtain rfl := Except.ok.inj hsessions
        exact .barred hphase hoperation hstate
    · exact .failing _
  · exact moves_done

/-- **Inversion.** Every step of a call is one of the moves. -/
theorem moves_effect : Moves platform server id call (effect platform server id call) := by
  -- One case for each phase a call can be in.
  unfold effect
  split
  · rename_i hphase
    unfold enteredStep
    split
    · rename_i hoperation
      unfold revokeSession
      split
      · rename_i session sessions hsessions
        split at hsessions
        · cases hsessions
        · rename_i current hcurrent
          obtain ⟨rfl, rfl⟩ := Prod.mk.inj (Except.ok.inj hsessions)
          exact .closed hphase hoperation hcurrent
      · exact .failing _
    · refine .on ?_ (fun h => absurd h (by simp [Phase.granting])) ?_
      · rw [hphase]
        exact fun h => absurd h (by decide)
      · intro _ _ _ _ h
        cases h
  · rename_i now hphase
    unfold checkedStep
    split
    · rename_i hoperation
      exact moves_handsOut_current hphase hoperation
    · rename_i hoperation
      exact moves_handsOut_refresh hphase hoperation
    · exact moves_done
    · exact moves_appStep hphase
    · exact moves_appStep hphase
    · exact moves_appStep hphase
  · rename_i session app hphase
    exact moves_copiedStep hphase
  · rename_i session app hphase
    unfold allowedStep
    split
    · rename_i issuedAt expiresAt htimes
      -- A grant never outlives its session.
      refine .on (fun _ => rfl) (fun _ => by rw [hphase]; rfl) ?_
      intro session' app' issuedAt' expiresAt' h
      obtain ⟨rfl, rfl, rfl, rfl⟩ := Phase.stamped.inj h
      unfold PlatformApplication.grantTimes at htimes
      split at htimes
      · cases htimes
      · simp only at htimes
        split at htimes
        · cases htimes
        · obtain ⟨-, rfl⟩ := Prod.mk.inj (Except.ok.inj htimes)
          exact min_le_right _ _
    · exact .failing _
  · rename_i session app issuedAt expiresAt hphase
    exact .drew hphase
  · exact moves_done

end Cases

/-! ### Proper runs -/

/-- The second in which a session of that identity was issued, when the event revokes it. -/
def Event.revokedAt? (key : String) : Event → Option ℤ
  | .sessionRevoked _ key' view => if key' = key then some view.issuedAt else none
  | _ => none

/-- No application is revoked in the session record of that identity. -/
def noRevokedApp (server : Server) (key : String) : Bool :=
  (server.sessions.get? key).all fun session => session.revokedApps.isEmpty

/-- The call is an authorisation of that application for that identity. -/
def Call.authorizes (call : Call) (key appId : String) : Bool :=
  identityKey call.identity = key ∧ call.operation = .authorizeApp appId

/-- The step of a call takes none of the branches that forget a revocation. -/
def properStep (server : Server) (call : Call) : Bool :=
  let key := identityKey call.identity
  match call.phase, call.operation with
  | .checked _, .currentSession => (server.sessions.get? key).isSome ||
      (server.log.filterMap (Event.revokedAt? key)).all (· < server.clock)
  | .checked _, .refreshSession => noRevokedApp server key
  | .entered, .revokeSession => noRevokedApp server key
  | .copied _ _, .revokeApp appId =>
    server.calls.all fun other => !other.authorizes key appId || other.phase.late
  | .stamped _ _ _ _, _ => server.grantSequence + 1 < 2 ^ 64
  | _, _ => true

/-- The action is no step of a call, or a proper one. -/
def proper (server : Server) : Action → Bool
  | .advance id => (server.calls[id]?).all (properStep server)
  | _ => true

/-- Every step of the run is proper. -/
def properRun (platform : PlatformApplication) : Server → List Action → Bool
  | _, [] => true
  | server, action :: rest =>
    proper server action && properRun platform (step platform server action) rest

/-- The step of a call does not take the grant counter around to zero. -/
def countedStep (server : Server) (call : Call) : Bool :=
  match call.phase with
  | .stamped _ _ _ _ => server.grantSequence + 1 < 2 ^ 64
  | _ => true

/-- The action is no step of a call, or a counted one. -/
def counted (server : Server) : Action → Bool
  | .advance id => (server.calls[id]?).all (countedStep server)
  | _ => true

/-- The grant counter does not wrap around in the run. -/
def countedRun (platform : PlatformApplication) : Server → List Action → Bool
  | _, [] => true
  | server, action :: rest =>
    counted server action && countedRun platform (step platform server action) rest

/-- A proper action is counted. -/
theorem counted_of_proper {server : Server} {action : Action} (h : proper server action = true) :
    counted server action = true := by
  cases action with
  | call | tick => rfl
  | advance id =>
    unfold proper at h
    unfold counted
    rw [Option.all_eq_true] at h ⊢
    intro call hcall
    have hproper := h call hcall
    unfold properStep at hproper
    unfold countedStep
    split
    · rename_i hphase
      simpa only [hphase] using hproper
    · rfl

/-! ### Sessions -/

/-- A revoked session is not handed out again. -/
def SessionsFinal (log : List Event) : Prop :=
  log.Pairwise fun e e' => ∀ id key view id' key' view', e = .sessionRevoked id key view →
    e' = .handedOut id' key' view' → view'.sessionId ≠ view.sessionId

/-- The session there is was issued after those that were revoked. -/
structure SessionInv (platform : PlatformApplication) (server : Server) : Prop where
  issued : ∀ key session, server.sessions.get? key = some session →
    IssuedFor platform key session.view ∧ session.view.issuedAt ≤ server.clock
  later : ∀ key session id view, server.sessions.get? key = some session →
    .sessionRevoked id key view ∈ server.log → view.issuedAt < session.view.issuedAt
  revoked : ∀ id key view, .sessionRevoked id key view ∈ server.log → IssuedFor platform key view
  final : SessionsFinal server.log

/-- The event is about an application or a failure. -/
def Event.sessionless : Event → Bool
  | .handedOut _ _ _ | .sessionRevoked _ _ _ => false
  | _ => true

/-- Events that hand out no session keep the property. -/
theorem SessionsFinal.append {log events : List Event} (h : SessionsFinal log)
    (hevents : ∀ e ∈ events, ∀ id key view, e ≠ .handedOut id key view) :
    SessionsFinal (log ++ events) := by
  refine List.pairwise_append.mpr ⟨h, ?_, ?_⟩
  · refine List.Pairwise.imp_of_mem (fun {a b} _ hb _ => ?_)
      (List.pairwise_of_forall fun _ _ => trivial)
    intro _ _ _ id' key' view' _ hhanded
    exact absurd hhanded (hevents b hb id' key' view')
  · intro a _ b hb _ _ _ id' key' view' _ hhanded
    exact absurd hhanded (hevents b hb id' key' view')

section Sessions

variable {platform : PlatformApplication} {server : Server} {id : ℕ} {call : Call} {e : Effect}

/-- A step that leaves the sessions as they are seen keeps the invariant. -/
theorem SessionInv.quiet (h : SessionInv platform server)
    (hsessions : ∀ key session', e.sessions.get? key = some session' →
      ∃ session, server.sessions.get? key = some session ∧ session'.view = session.view)
    (hevents : ∀ event ∈ e.events, event.sessionless = true) :
    SessionInv platform (server.after id call e) := by
  -- Nothing the step logs revokes a session.
  have hold : ∀ id' key view, Event.sessionRevoked id' key view ∈ server.log ++ e.events →
      .sessionRevoked id' key view ∈ server.log := by
    intro id' key view hmem
    rcases List.mem_append.mp hmem with hmem | hmem
    · exact hmem
    · exact absurd (hevents _ hmem) (by simp [Event.sessionless])
  refine ⟨?_, ?_, ?_, h.final.append ?_⟩
  · intro key session' hget
    obtain ⟨session, hsession, hview⟩ := hsessions key session' hget
    rw [hview]
    exact h.issued key session hsession
  · intro key session' id' view hget hmem
    obtain ⟨session, hsession, hview⟩ := hsessions key session' hget
    rw [hview]
    exact h.later key session id' view hsession (hold id' key view hmem)
  · intro id' key view hmem
    exact h.revoked id' key view (hold id' key view hmem)
  · intro event hevent id' key view heq
    subst heq
    exact absurd (hevents _ hevent) (by simp [Event.sessionless])

/-- A session issued after the revoked ones of its identity is none of the revoked ones. -/
theorem SessionInv.handOut (hsign : Function.Injective platform.sign)
    (h : SessionInv platform server) {key : String} {view : SessionView}
    (hissued : IssuedFor platform key view)
    (hlater : ∀ id' old, .sessionRevoked id' key old ∈ server.log → old.issuedAt < view.issuedAt) :
    SessionsFinal (server.log ++ [.handedOut id key view]) := by
  refine List.pairwise_append.mpr ⟨h.final, List.pairwise_singleton _ _, ?_⟩
  intro a ha b hb id₁ key₁ old id₂ key₂ view₂ hrevoked hhanded hid
  subst hrevoked
  rw [List.mem_singleton.mp hb] at hhanded
  obtain ⟨-, rfl, rfl⟩ := Event.handedOut.inj hhanded
  -- one identifier means one identity and one second
  obtain ⟨rfl, hsecond⟩ := hissued.eq_of_sessionId hsign (h.revoked _ _ _ ha) hid
  have hlt := hlater id₁ old ha
  omega

/-- A new session that is later than the revoked ones of its identity keeps the invariant. -/
theorem SessionInv.replace (hsign : Function.Injective platform.sign)
    (h : SessionInv platform server) {generation : ℕ} {expiresAt : ℤ}
    (hlater : ∀ id' old, .sessionRevoked id' (identityKey call.identity) old ∈ server.log →
      old.issuedAt < server.clock) :
    SessionInv platform (server.after id call (replaces server id call
      (platform.sessionOf call.identity generation server.clock expiresAt))) := by
  have hissued : IssuedFor platform (identityKey call.identity)
      (platform.sessionOf call.identity generation server.clock expiresAt).view :=
    ⟨call.identity, generation, rfl, rfl⟩
  -- A session that is handed out is no revocation.
  have hold : ∀ id' key view view', Event.sessionRevoked id' key view ∈
      server.log ++ [.handedOut id (identityKey call.identity) view'] →
      .sessionRevoked id' key view ∈ server.log := by
    intro id' key view view' hmem
    rcases List.mem_append.mp hmem with hmem | hmem
    · exact hmem
    · exact absurd (List.mem_singleton.mp hmem) (by simp)
  refine ⟨?_, ?_, ?_, h.handOut hsign hissued hlater⟩
  · intro key session hget
    simp only [Server.after, replaces, SortedMap.get?_insert] at hget
    split at hget
    -- The identity whose session was replaced, or any other.
    · rename_i hkey
      subst hkey
      obtain rfl := Option.some.inj hget
      exact ⟨hissued, le_refl _⟩
    · exact h.issued key session hget
  · intro key session id' view hget hmem
    have hmem := hold id' key view _ hmem
    simp only [Server.after, replaces, SortedMap.get?_insert] at hget
    split at hget
    · rename_i hkey
      subst hkey
      obtain rfl := Option.some.inj hget
      exact hlater id' view hmem
    · exact h.later key session id' view hget hmem
  · intro id' key view hmem
    exact h.revoked id' key view (hold id' key view _ hmem)

/-- The second of issue of a revoked session is among those that are looked at. -/
theorem mem_revokedAt {log : List Event} {id' : ℕ} {key : String} {view : SessionView}
    (h : .sessionRevoked id' key view ∈ log) :
    view.issuedAt ∈ log.filterMap (Event.revokedAt? key) :=
  List.mem_filterMap.mpr ⟨_, h, by simp [Event.revokedAt?]⟩

/-- **One step.** A proper step of a call keeps the invariant of the sessions. -/
theorem SessionInv.step (hsign : Function.Injective platform.sign)
    (h : SessionInv platform server) (hproper : properStep server call = true)
    (hmoves : Moves platform server id call e) :
    SessionInv platform (server.after id call e) := by
  have hsame : ∀ key session', server.sessions.get? key = some session' →
      ∃ session, server.sessions.get? key = some session ∧ session'.view = session.view :=
    fun key session' hget => ⟨session', hget, rfl⟩
  have hinsert : ∀ (state : ActiveSession) (apps : List String),
      server.sessions.get? (identityKey call.identity) = some state →
      ∀ key session', (server.sessions.insert (identityKey call.identity)
        { state with revokedApps := apps }).get? key = some session' →
      ∃ session, server.sessions.get? key = some session ∧ session'.view = session.view := by
    intro state apps hstate key session' hget
    rw [SortedMap.get?_insert] at hget
    split at hget
    · rename_i hkey
      subst hkey
      obtain rfl := Option.some.inj hget
      exact ⟨state, hstate, rfl⟩
    · exact ⟨session', hget, rfl⟩
  cases hmoves with
  | on => exact h.quiet hsame fun _ hmem => absurd hmem List.not_mem_nil
  | failing failure =>
    refine h.quiet hsame fun event hmem => ?_
    rw [List.mem_singleton.mp hmem]
    rfl
  | @shown session hsession =>
    have hissued := (h.issued _ _ hsession).1
    have hlater := fun id' old => h.later _ session id' old hsession
    refine ⟨h.issued, ?_, ?_, h.handOut hsign hissued hlater⟩
    · intro key session' id' view hget hmem
      rcases List.mem_append.mp hmem with hmem | hmem
      · exact h.later key session' id' view hget hmem
      · exact absurd (List.mem_singleton.mp hmem) (by simp)
    · intro id' key view hmem
      rcases List.mem_append.mp hmem with hmem | hmem
      · exact h.revoked id' key view hmem
      · exact absurd (List.mem_singleton.mp hmem) (by simp)
  | @opened now expiresAt hphase hoperation hnone =>
    -- a proper step opens a session only in a later second
    refine h.replace hsign fun id' old hmem => ?_
    simp only [properStep, hphase, hoperation, hnone, Option.isSome_none, Bool.false_or] at hproper
    exact of_decide_eq_true (List.all_eq_true.mp hproper _ (mem_revokedAt hmem))
  | @refreshed now expiresAt current hphase hoperation hcurrent =>
    refine h.replace hsign fun id' old hmem => ?_
    exact lt_of_lt_of_le (h.later _ _ id' old hcurrent hmem) (h.issued _ _ hcurrent).2
  | @closed session hphase hoperation hsession =>
    have hissued := (h.issued _ _ hsession).1
    refine ⟨?_, ?_, ?_, h.final.append ?_⟩
    · intro key session' hget
      simp only [Server.after, SortedMap.get?_erase] at hget
      split at hget
      · cases hget
      · exact h.issued key session' hget
    · intro key session' id' view hget hmem
      simp only [Server.after, SortedMap.get?_erase] at hget
      split at hget
      · cases hget
      · rename_i hkey
        rcases List.mem_append.mp hmem with hmem | hmem
        · exact h.later key session' id' view hget hmem
        · obtain ⟨-, rfl, -⟩ := Event.sessionRevoked.inj (List.mem_singleton.mp hmem)
          exact absurd rfl hkey
    · intro id' key view hmem
      rcases List.mem_append.mp hmem with hmem | hmem
      · exact h.revoked id' key view hmem
      · obtain ⟨-, rfl, rfl⟩ := Event.sessionRevoked.inj (List.mem_singleton.mp hmem)
        exact hissued
    · intro event hmem id' key view heq
      rw [List.mem_singleton.mp hmem] at heq
      cases heq
  | @authorized session app state appId hphase hoperation hstate =>
    exact h.quiet (hinsert state _ hstate) fun _ hmem => absurd hmem List.not_mem_nil
  | renewed => exact h.quiet hsame fun _ hmem => absurd hmem List.not_mem_nil
  | @barred session app state appId hphase hoperation hstate =>
    refine h.quiet (hinsert state _ hstate) fun event hmem => ?_
    rw [List.mem_singleton.mp hmem]
    rfl
  | drew =>
    refine h.quiet hsame fun event hmem => ?_
    rw [List.mem_singleton.mp hmem]
    rfl

end Sessions

/-! ### Applications -/

/-- An application that was revoked for an identity is not refreshed for it before it has been
    authorised again: no call of `refresh_app` that starts after the revocation returns a grant, unless
    a call of `authorize_app` starts between the revocation and the grant. -/
def AppsFinal (log : List Event) : Prop :=
  ∀ before id key issued rest, log = before ++ .granted id key issued :: rest →
    ∀ earlier id' appId later, before = earlier ++ .appRevoked id' key appId :: later →
      .called id (.refreshApp appId) key ∈ later →
        ∃ id'', .called id'' (.authorizeApp appId) key ∈ later

/-- The application is still revoked for the identity; `later` is what happened since. -/
structure Barred (server : Server) (key appId : String) (later : List Event) : Prop where
  revoked : ∃ session, server.sessions.get? key = some session ∧ appId ∈ session.revokedApps
  authorizing : ∀ call ∈ server.calls, call.authorizes key appId = true → call.phase.late = true
  refreshing : ∀ id call, .called id (.refreshApp appId) key ∈ later →
    server.calls[id]? = some call → call.phase.granting = false

/-- Revoked applications stay barred until they are authorised again. -/
structure AppInv (server : Server) : Prop where
  called : ∀ id operation key, .called id operation key ∈ server.log →
    ∃ call, server.calls[id]? = some call ∧ call.operation = operation ∧
      identityKey call.identity = key
  barred : ∀ earlier id key appId later,
    server.log = earlier ++ .appRevoked id key appId :: later →
    (∀ id', .called id' (.authorizeApp appId) key ∉ later) → Barred server key appId later
  final : AppsFinal server.log

section Apps

variable {platform : PlatformApplication} {server : Server} {id : ℕ} {call : Call} {e : Effect}

/-- A split of a longer log is at its last event, or is one of the old log. -/
theorem snoc_eq_append_cons {α : Type} {l before rest : List α} {a b : α}
    (h : l ++ [a] = before ++ b :: rest) :
    (l = before ∧ a = b ∧ rest = []) ∨ ∃ middle, rest = middle ++ [a] ∧ l = before ++ b :: middle := by
  rcases List.eq_nil_or_concat rest with rfl | ⟨middle, c, rfl⟩
  · left
    obtain ⟨hl, ha⟩ := List.append_inj' h rfl
    exact ⟨hl, (List.cons.inj ha).1, rfl⟩
  · right
    rw [List.concat_eq_append, ← List.cons_append, ← List.append_assoc] at h
    obtain ⟨hl, ha⟩ := List.append_inj' h rfl
    refine ⟨middle, ?_, hl⟩
    rw [List.concat_eq_append, (List.cons.inj ha).1]

/-- A call that is past its second lock stays past it. -/
theorem Moves.late (h : Moves platform server id call e) (hlate : call.phase.late = true) :
    e.phase.late = true := by
  cases h with
  | on hkept => exact hkept hlate
  | _ => rfl

/-- A call comes to issue a grant only after it had authorised the application, or found it not
    revoked. -/
theorem Moves.granting (h : Moves platform server id call e) (hgranting : e.phase.granting = true) :
    call.phase.granting = true ∨ (∃ appId, call.operation = .authorizeApp appId) ∨
      ∃ appId state, call.operation = .refreshApp appId ∧
        server.sessions.get? (identityKey call.identity) = some state ∧
        appId ∉ state.revokedApps := by
  cases h with
  | on _ hkept => exact .inl (hkept hgranting)
  | @authorized session app state appId _ hoperation _ => exact .inr (.inl ⟨appId, hoperation⟩)
  | @renewed session app state appId hoperation hstate hallowed =>
    exact .inr (.inr ⟨appId, state, hoperation, hstate, hallowed⟩)
  | _ => cases hgranting

/-- A proper step of a call leaves a barred application barred. -/
theorem Barred.revoked_step {key appId : String} {later : List Event}
    (h : Barred server key appId later) (hcall : call ∈ server.calls)
    (hproper : properStep server call = true) (hmoves : Moves platform server id call e) :
    ∃ session, e.sessions.get? key = some session ∧ appId ∈ session.revokedApps := by
  obtain ⟨session, hsession, hrevoked⟩ := h.revoked
  -- the record is replaced or removed only while nothing is revoked in it
  have hkept : noRevokedApp server (identityKey call.identity) = true →
      key ≠ identityKey call.identity := by
    rintro hnone rfl
    rw [noRevokedApp, hsession, Option.all_some, List.isEmpty_iff] at hnone
    rw [hnone] at hrevoked
    cases hrevoked
  cases hmoves with
  | @opened now expiresAt hphase hoperation hnone =>
    have hkey : key ≠ identityKey call.identity := by
      rintro rfl
      rw [hnone] at hsession
      cases hsession
    refine ⟨session, ?_, hrevoked⟩
    rw [replaces, SortedMap.get?_insert, if_neg hkey]
    exact hsession
  | @refreshed now expiresAt current hphase hoperation hcurrent =>
    simp only [properStep, hphase, hoperation] at hproper
    refine ⟨session, ?_, hrevoked⟩
    rw [replaces, SortedMap.get?_insert, if_neg (hkept hproper)]
    exact hsession
  | @closed current hphase hoperation hcurrent =>
    simp only [properStep, hphase, hoperation] at hproper
    refine ⟨session, ?_, hrevoked⟩
    rw [SortedMap.get?_erase, if_neg (hkept hproper)]
    exact hsession
  | @authorized view app state appId' hphase hoperation hstate =>
    by_cases hkey : key = identityKey call.identity
    · subst hkey
      obtain rfl := Option.some.inj (hsession.symm.trans hstate)
      refine ⟨{ session with revokedApps := session.revokedApps.filter (· ≠ appId') }, ?_, ?_⟩
      · rw [SortedMap.get?_insert_self]
      · -- an authorisation of this application would have its second lock behind it
        have hne : appId ≠ appId' := by
          rintro rfl
          have hlate := h.authorizing call hcall (decide_eq_true ⟨rfl, hoperation⟩)
          rw [hphase] at hlate
          cases hlate
        simpa [hne] using hrevoked
    · refine ⟨session, ?_, hrevoked⟩
      rw [SortedMap.get?_insert, if_neg hkey]
      exact hsession
  | @barred view app state appId' hphase hoperation hstate =>
    by_cases hkey : key = identityKey call.identity
    · subst hkey
      obtain rfl := Option.some.inj (hsession.symm.trans hstate)
      refine ⟨{ session with revokedApps := appId' :: session.revokedApps.filter (· ≠ appId') }, ?_,
        ?_⟩
      · rw [SortedMap.get?_insert_self]
      · by_cases hsame : appId = appId'
        · simp [hsame]
        · simpa [hsame] using hrevoked
    · refine ⟨session, ?_, hrevoked⟩
      rw [SortedMap.get?_insert, if_neg hkey]
      exact hsession
  | _ => exact ⟨session, hsession, hrevoked⟩

/-- **One step.** An application that is barred stays so: only an authorisation takes it from the
    record, and none is under way. -/
theorem Barred.step {key appId : String} {later : List Event} (hinv : AppInv server)
    (h : Barred server key appId later) (hlater : ∀ event ∈ later, event ∈ server.log)
    (hcall : server.calls[id]? = some call) (hproper : properStep server call = true)
    (hmoves : Moves platform server id call e)
    (hevents : ∀ event ∈ e.events, ∀ id' operation key', event ≠ .called id' operation key') :
    Barred (server.after id call e) key appId (later ++ e.events) := by
  refine ⟨h.revoked_step (List.mem_of_getElem? hcall) hproper hmoves, ?_, ?_⟩
  · intro other hother hauthorizes
    rcases List.mem_or_eq_of_mem_set hother with hother | rfl
    · exact h.authorizing other hother hauthorizes
    · exact hmoves.late (h.authorizing call (List.mem_of_getElem? hcall) hauthorizes)
  · intro id' other hcalled hget
    have hcalled : .called id' (.refreshApp appId) key ∈ later := by
      rcases List.mem_append.mp hcalled with hcalled | hcalled
      · exact hcalled
      · exact absurd rfl (hevents _ hcalled id' _ key)
    simp only [Server.after, List.getElem?_set] at hget
    split at hget
    · rename_i hid
      subst hid
      split at hget
      · obtain rfl := Option.some.inj hget
        -- the call of `refresh_app` that moves finds the application revoked
        by_contra hgranting
        rw [Bool.not_eq_false] at hgranting
        obtain ⟨call', hcall', hoperation, hkey⟩ := hinv.called _ _ _ (hlater _ hcalled)
        obtain rfl := Option.some.inj (hcall.symm.trans hcall')
        rcases hmoves.granting hgranting with hbefore | ⟨other, hother⟩ |
          ⟨other, state, hother, hstate, hallowed⟩
        · rw [h.refreshing id call hcalled hcall] at hbefore
          cases hbefore
        · rw [hoperation] at hother
          cases hother
        · rw [hoperation] at hother
          obtain rfl := Operation.refreshApp.inj hother
          obtain ⟨session, hsession, hrevoked⟩ := h.revoked
          rw [hkey] at hstate
          obtain rfl := Option.some.inj (hsession.symm.trans hstate)
          exact hallowed hrevoked
      · cases hget
    · exact h.refreshing id' other hcalled hget

/-- A step adds one event at most: of its own call, and a grant only at the end of `issue_grant`. -/
theorem Moves.events (h : Moves platform server id call e) :
    e.events = [] ∨ ∃ event, e.events = [event] ∧
      (∀ id' operation key, event ≠ .called id' operation key) ∧
      (∀ id' key issued, event = .granted id' key issued →
        id' = id ∧ key = identityKey call.identity ∧ call.phase.granting = true) ∧
      (∀ id' key appId, event = .appRevoked id' key appId →
        key = identityKey call.identity ∧ call.operation = .revokeApp appId ∧
          (∃ session app, call.phase = .copied session app) ∧
          ∃ session, e.sessions.get? key = some session ∧ appId ∈ session.revokedApps) := by
  -- Which events a step can log, and what is known when it does.
  cases h with
  | on | authorized | renewed => exact .inl rfl
  | failing | shown | opened | refreshed | closed =>
    refine .inr ⟨_, rfl, ?_, ?_, ?_⟩
    all_goals
      intro _ _ _ heq
      cases heq
  | @barred session app state appId hphase hoperation hstate =>
    refine .inr ⟨_, rfl, ?_, ?_, ?_⟩
    · intro _ _ _ heq
      cases heq
    · intro _ _ _ heq
      cases heq
    · intro _ _ _ heq
      obtain ⟨-, rfl, rfl⟩ := Event.appRevoked.inj heq
      refine ⟨rfl, hoperation, ⟨session, app, hphase⟩, _, SortedMap.get?_insert_self _ _ _, ?_⟩
      exact List.mem_cons_self
  | @drew session app issuedAt expiresAt hphase =>
    refine .inr ⟨_, rfl, ?_, ?_, ?_⟩
    · intro _ _ _ heq
      cases heq
    · intro _ _ _ heq
      obtain ⟨rfl, rfl, -⟩ := Event.granted.inj heq
      exact ⟨rfl, rfl, by rw [hphase]; rfl⟩
    · intro _ _ _ heq
      cases heq

/-- A new event that is no grant keeps what holds of the grants. -/
theorem AppsFinal.snoc {log : List Event} {event : Event} (h : AppsFinal log)
    (hgranted : ∀ id key issued, event = .granted id key issued →
      ∀ earlier id' appId later, log = earlier ++ .appRevoked id' key appId :: later →
        .called id (.refreshApp appId) key ∈ later →
          ∃ id'', .called id'' (.authorizeApp appId) key ∈ later) :
    AppsFinal (log ++ [event]) := by
  intro before id key issued rest hlog
  rcases snoc_eq_append_cons hlog with ⟨rfl, hevent, rfl⟩ | ⟨middle, rfl, hmiddle⟩
  · exact hgranted id key issued hevent
  · exact h before id key issued middle hmiddle

/-- **One step.** A proper step of a call keeps the invariant of the applications. -/
theorem AppInv.step (h : AppInv server) (hcall : server.calls[id]? = some call)
    (hproper : properStep server call = true) (hmoves : Moves platform server id call e) :
    AppInv (server.after id call e) := by
  have hid : id < server.calls.length := (List.getElem?_eq_some_iff.mp hcall).1
  have hcalls : ∀ (id' : ℕ) (old : Call), server.calls[id']? = some old →
      ∃ new : Call, (server.after id call e).calls[id']? = some new ∧ new.operation = old.operation ∧
        new.identity = old.identity := by
    intro id' old hold
    by_cases hsame : id = id'
    · subst hsame
      obtain rfl := Option.some.inj (hcall.symm.trans hold)
      exact ⟨_, List.getElem?_set_self hid, rfl, rfl⟩
    · refine ⟨old, ?_, rfl, rfl⟩
      rw [Server.after, List.getElem?_set_ne hsame]
      exact hold
  have hcalled : ∀ id' operation key, .called id' operation key ∈ server.log →
      ∃ call', (server.after id call e).calls[id']? = some call' ∧ call'.operation = operation ∧
        identityKey call'.identity = key := by
    intro id' operation key hmem
    obtain ⟨old, hold, hoperation, hkey⟩ := h.called id' operation key hmem
    obtain ⟨new, hnew, hop, hident⟩ := hcalls id' old hold
    exact ⟨new, hnew, hop.trans hoperation, by rw [hident, hkey]⟩
  have hstays : ∀ earlier id' key appId later,
      server.log = earlier ++ .appRevoked id' key appId :: later →
      (∀ id'', .called id'' (.authorizeApp appId) key ∉ later ++ e.events) →
      (∀ event ∈ e.events, ∀ id'' operation key', event ≠ .called id'' operation key') →
      Barred (server.after id call e) key appId (later ++ e.events) := by
    intro earlier id' key appId later hlog hnone hevents
    have hbarred := h.barred earlier id' key appId later hlog
      fun id'' hmem => hnone id'' (List.mem_append_left _ hmem)
    refine hbarred.step h ?_ hcall hproper hmoves hevents
    intro event hevent
    rw [hlog]
    exact List.mem_append_right _ (List.mem_cons_of_mem _ hevent)
  rcases hmoves.events with hnil | ⟨event, hevent, hnocall, hgranted, hrevoked⟩
  · have hlog : (server.after id call e).log = server.log := by
      rw [Server.after, hnil, List.append_nil]
    refine ⟨?_, ?_, ?_⟩
    · rw [hlog]
      exact hcalled
    · intro earlier id' key appId later hsplit hnone
      rw [hlog] at hsplit
      have hbarred := hstays earlier id' key appId later hsplit (by rwa [hnil, List.append_nil])
        (by rw [hnil]; exact fun _ hmem => absurd hmem List.not_mem_nil)
      rwa [hnil, List.append_nil] at hbarred
    · rw [hlog]
      exact h.final
  · have hlog : (server.after id call e).log = server.log ++ [event] := by
      rw [Server.after, hevent]
    refine ⟨?_, ?_, ?_⟩
    · rw [hlog]
      intro id' operation key hmem
      rcases List.mem_append.mp hmem with hmem | hmem
      · exact hcalled id' operation key hmem
      · exact absurd (List.mem_singleton.mp hmem).symm (hnocall id' operation key)
    · intro earlier id' key appId later hsplit hnone
      rw [hlog] at hsplit
      rcases snoc_eq_append_cons hsplit with ⟨-, heq, rfl⟩ | ⟨middle, rfl, hmiddle⟩
      · -- the application is revoked by this very step
        obtain ⟨rfl, hoperation, ⟨view, app, hphase⟩, hsession⟩ := hrevoked id' key appId heq
        refine ⟨hsession, ?_, fun _ _ hmem => absurd hmem List.not_mem_nil⟩
        intro other hother hauthorizes
        rcases List.mem_or_eq_of_mem_set hother with hother | rfl
        · simp only [properStep, hphase, hoperation] at hproper
          have hlate := List.all_eq_true.mp hproper other hother
          rw [hauthorizes] at hlate
          simpa using hlate
        · have hauthorizes := (of_decide_eq_true hauthorizes).2
          simp [hoperation] at hauthorizes
      · have hbarred := hstays earlier id' key appId middle hmiddle (by rwa [hevent])
          (by
            rw [hevent]
            intro event' hmem
            rw [List.mem_singleton.mp hmem]
            exact hnocall)
        rwa [hevent] at hbarred
    · rw [hlog]
      refine h.final.snoc ?_
      intro id' key issued heq earlier idr appId later hsplit hrefresh
      obtain ⟨rfl, rfl, hgranting⟩ := hgranted id' key issued heq
      by_contra hnone
      have hbarred := h.barred earlier idr _ appId later hsplit
        fun id'' hmem => hnone ⟨id'', hmem⟩
      rw [hbarred.refreshing id' call hrefresh hcall] at hgranting
      cases hgranting

/-- A new call keeps the invariant of the applications. -/
theorem AppInv.newCall (h : AppInv server) (operation : Operation) (identity : TrustedIdentity) :
    AppInv { server with
      calls := server.calls ++ [⟨operation, identity, .entered⟩]
      log := server.log ++ [.called server.calls.length operation (identityKey identity)] } := by
  refine ⟨?_, ?_, ?_⟩
  · intro id' operation' key hmem
    rcases List.mem_append.mp hmem with hmem | hmem
    · obtain ⟨old, hold, hfields⟩ := h.called id' operation' key hmem
      have hlt := (List.getElem?_eq_some_iff.mp hold).1
      exact ⟨old, by rw [List.getElem?_append_left hlt]; exact hold, hfields⟩
    · obtain ⟨rfl, rfl, rfl⟩ := Event.called.inj (List.mem_singleton.mp hmem)
      exact ⟨⟨operation', identity, .entered⟩, by simp, rfl, rfl⟩
  · intro earlier id' key appId later hsplit hnone
    rcases snoc_eq_append_cons hsplit with ⟨-, heq, -⟩ | ⟨middle, rfl, hmiddle⟩
    · cases heq
    · have hbarred := h.barred earlier id' key appId middle hmiddle
        fun id'' hmem => hnone id'' (List.mem_append_left _ hmem)
      refine ⟨hbarred.revoked, ?_, ?_⟩
      · intro other hother hauthorizes
        rcases List.mem_append.mp hother with hother | hother
        · exact hbarred.authorizing other hother hauthorizes
        · -- the new call would be an authorisation after the revocation
          rw [List.mem_singleton.mp hother] at hauthorizes
          obtain ⟨hkey, hoperation⟩ := of_decide_eq_true hauthorizes
          simp only at hkey hoperation
          refine absurd ?_ (hnone server.calls.length)
          rw [hkey, hoperation]
          exact List.mem_append_right _ List.mem_cons_self
      · intro id'' other hmem hget
        rcases List.mem_append.mp hmem with hmem | hmem
        · have hlog : .called id'' (.refreshApp appId) key ∈ server.log := by
            rw [hmiddle]
            exact List.mem_append_right _ (List.mem_cons_of_mem _ hmem)
          obtain ⟨old, hold, -⟩ := h.called _ _ _ hlog
          have hlt := (List.getElem?_eq_some_iff.mp hold).1
          rw [List.getElem?_append_left hlt] at hget
          exact hbarred.refreshing id'' other hmem hget
        · obtain ⟨rfl, -, -⟩ := Event.called.inj (List.mem_singleton.mp hmem)
          rw [List.getElem?_concat_length] at hget
          rw [← Option.some.inj hget]
          rfl
  · refine h.final.snoc ?_
    intro _ _ _ heq
    cases heq

/-- A rejected credential keeps the invariant of the applications. -/
theorem AppInv.reject (h : AppInv server) (id : ℕ) (failure : PlatformFailure) :
    AppInv { server with log := server.log ++ [.failed id failure] } := by
  refine ⟨?_, ?_, ?_⟩
  · intro id' operation key hmem
    rcases List.mem_append.mp hmem with hmem | hmem
    · exact h.called id' operation key hmem
    · exact absurd (List.mem_singleton.mp hmem) (by simp)
  -- A rejected call logs its own event only, so every revocation is an earlier one.
  · intro earlier id' key appId later hsplit hnone
    rcases snoc_eq_append_cons hsplit with ⟨-, heq, -⟩ | ⟨middle, rfl, hmiddle⟩
    · cases heq
    · have hbarred := h.barred earlier id' key appId middle hmiddle
        fun id'' hmem => hnone id'' (List.mem_append_left _ hmem)
      refine ⟨hbarred.revoked, hbarred.authorizing, ?_⟩
      intro id'' other hmem hget
      rcases List.mem_append.mp hmem with hmem | hmem
      · exact hbarred.refreshing id'' other hmem hget
      · exact absurd (List.mem_singleton.mp hmem) (by simp)
  · refine h.final.snoc ?_
    intro _ _ _ heq
    cases heq

end Apps

/-! ### Grants -/

/-- The grant has only scopes of both the application and the identity, expires no later than its
    session, and its launch credential is the tag of its own text. -/
structure IssuedGrant.Bound (platform : PlatformApplication) (key : String) (g : IssuedGrant) :
    Prop where
  owner : identityKey g.identity = key
  scopes : ∀ scope ∈ g.grant.scopes,
    scope ∈ g.grant.app.grantScopes ∧ scope ∈ g.identity.principal.scopes
  expires : g.grant.expiresAt ≤ g.session.expiresAt
  credential : g.grant.launchCredential = platform.sign (utf8 (String.ofList g.preimage))

/-- Grants are bound, and no two have one preimage. -/
structure GrantsBound (platform : PlatformApplication) (log : List Event) : Prop where
  bound : ∀ id key issued, .granted id key issued ∈ log → issued.Bound platform key
  distinct : log.Pairwise fun e e' => ∀ id key issued id' key' issued', e = .granted id key issued →
    e' = .granted id' key' issued' → issued.preimage ≠ issued'.preimage

/-- The counter is ahead of all grants. -/
structure GrantInv (platform : PlatformApplication) (server : Server) : Prop where
  stamped : ∀ call ∈ server.calls, ∀ session app issuedAt expiresAt,
    call.phase = .stamped session app issuedAt expiresAt → expiresAt ≤ session.expiresAt
  sequence : ∀ id key issued, .granted id key issued ∈ server.log →
    issued.sequence < server.grantSequence
  grants : GrantsBound platform server.log

section Grants

variable {platform : PlatformApplication} {server : Server} {id : ℕ} {call : Call} {e : Effect}

/-- Events that are no grants keep the property. -/
theorem GrantsBound.append {log events : List Event} (h : GrantsBound platform log)
    (hevents : ∀ e ∈ events, ∀ id key issued, e ≠ .granted id key issued) :
    GrantsBound platform (log ++ events) := by
  refine ⟨?_, List.pairwise_append.mpr ⟨h.distinct, ?_, ?_⟩⟩
  · intro id key issued hmem
    rcases List.mem_append.mp hmem with hmem | hmem
    · exact h.bound id key issued hmem
    · exact absurd rfl (hevents _ hmem id key issued)
  · refine List.Pairwise.imp_of_mem (fun {a b} ha _ _ => ?_)
      (List.pairwise_of_forall fun _ _ => trivial)
    intro id key issued _ _ _ hgranted _
    exact absurd hgranted (hevents a ha id key issued)
  · intro a _ b hb _ _ _ id' key' issued' _ hgranted
    exact absurd hgranted (hevents b hb id' key' issued')

/-- A step that issues no grant keeps the invariant. -/
theorem GrantInv.quiet (h : GrantInv platform server)
    (hstamped : ∀ session app issuedAt expiresAt, e.phase = .stamped session app issuedAt expiresAt →
      expiresAt ≤ session.expiresAt)
    (hsequence : e.grantSequence = server.grantSequence)
    (hevents : ∀ event ∈ e.events, ∀ id key issued, event ≠ .granted id key issued) :
    GrantInv platform (server.after id call e) := by
  refine ⟨?_, ?_, h.grants.append hevents⟩
  · intro other hother
    rcases List.mem_or_eq_of_mem_set hother with hother | rfl
    · exact h.stamped other hother
    · exact hstamped
  · intro id' key issued hmem
    rw [Server.after, hsequence]
    rcases List.mem_append.mp hmem with hmem | hmem
    · exact h.sequence id' key issued hmem
    · exact absurd rfl (hevents _ hmem id' key issued)

/-- A counted step of a call keeps the invariant of the grants. -/
theorem GrantInv.advance (h : GrantInv platform server) (hcall : server.calls[id]? = some call)
    (hcounted : countedStep server call = true) (hmoves : Moves platform server id call e) :
    GrantInv platform (server.after id call e) := by
  cases hmoves with
  | on _ _ hstamped => exact h.quiet hstamped rfl fun _ hmem => absurd hmem List.not_mem_nil
  | authorized | renewed =>
    refine h.quiet ?_ rfl fun _ hmem => absurd hmem List.not_mem_nil
    intro _ _ _ _ heq
    cases heq
  | failing | shown | opened | refreshed | closed | barred =>
    refine h.quiet ?_ rfl ?_
    · intro _ _ _ _ heq
      cases heq
    · intro event hmem id' key issued heq
      rw [List.mem_singleton.mp hmem] at heq
      cases heq
  | @drew session app issuedAt expiresAt hphase =>
    -- the counter does not wrap around, so the number is larger than all before it
    simp only [countedStep, hphase, decide_eq_true_eq] at hcounted
    have hexpires := h.stamped call (List.mem_of_getElem? hcall) _ _ _ _ hphase
    have hnext : (stampedStep platform server id call session app issuedAt expiresAt).grantSequence =
        server.grantSequence + 1 := Nat.mod_eq_of_lt hcounted
    refine ⟨?_, ?_, ?_, ?_⟩
    · intro other hother
      rcases List.mem_or_eq_of_mem_set hother with hother | rfl
      · exact h.stamped other hother
      · intro _ _ _ _ heq
        cases heq
    · intro id' key issued hmem
      rw [Server.after, hnext]
      rcases List.mem_append.mp hmem with hmem | hmem
      · have hlt := h.sequence id' key issued hmem
        simp only
        omega
      · obtain ⟨-, -, rfl⟩ := Event.granted.inj (List.mem_singleton.mp hmem)
        exact Nat.lt_succ_self _
    · intro id' key issued hmem
      rcases List.mem_append.mp hmem with hmem | hmem
      · exact h.grants.bound id' key issued hmem
      · obtain ⟨-, rfl, rfl⟩ := Event.granted.inj (List.mem_singleton.mp hmem)
        refine ⟨rfl, ?_, hexpires, rfl⟩
        intro scope hscope
        obtain ⟨happ, hidentity⟩ := List.mem_filter.mp hscope
        exact ⟨happ, of_decide_eq_true hidentity⟩
    · refine List.pairwise_append.mpr ⟨h.grants.distinct, List.pairwise_singleton _ _, ?_⟩
      intro a ha b hb id₁ key₁ issued₁ id₂ key₂ issued₂ hfirst hsecond hpreimage
      subst hfirst
      have hlt := h.sequence _ _ _ ha
      rw [List.mem_singleton.mp hb] at hsecond
      obtain ⟨-, -, rfl⟩ := Event.granted.inj hsecond
      have hsequence := sequence_of_grantText hpreimage
      simp only at hsequence
      omega

end Grants

/-! ### Whole runs -/

section Runs

variable {platform : PlatformApplication} {server : Server}

/-- What holds of the server in a proper run. -/
structure Inv (platform : PlatformApplication) (server : Server) : Prop where
  sessions : SessionInv platform server
  apps : AppInv server
  grants : GrantInv platform server

/-- The invariants hold when the server starts. -/
theorem inv_start (clock : ℤ) : Inv platform (start clock) := by
  refine ⟨⟨?_, ?_, ?_, List.Pairwise.nil⟩, ⟨?_, ?_, ?_⟩, ⟨?_, ?_, ?_, List.Pairwise.nil⟩⟩
  · intro key session hget
    cases hget
  · intro key session id view hget
    cases hget
  · intro id key view hmem
    cases hmem
  · intro id operation key hmem
    cases hmem
  · intro earlier id key appId later hsplit
    exact absurd hsplit (by simp [start])
  · intro before id key issued rest hsplit
    exact absurd hsplit (by simp [start])
  · intro call hcall
    cases hcall
  · intro id key issued hmem
    cases hmem
  · intro id key issued hmem
    cases hmem

/-- Events that are about no session and no grant leave these invariants alone. -/
theorem SessionInv.log (h : SessionInv platform server) {calls : List Call} {event : Event}
    (hevent : event.sessionless = true) :
    SessionInv platform { server with calls, log := server.log ++ [event] } := by
  have hold : ∀ id key view, Event.sessionRevoked id key view ∈ server.log ++ [event] →
      .sessionRevoked id key view ∈ server.log := by
    intro id key view hmem
    rcases List.mem_append.mp hmem with hmem | hmem
    · exact hmem
    · rw [← List.mem_singleton.mp hmem] at hevent
      cases hevent
  refine ⟨h.issued, ?_, ?_, h.final.append ?_⟩
  · intro key session id view hget hmem
    exact h.later key session id view hget (hold id key view hmem)
  · intro id key view hmem
    exact h.revoked id key view (hold id key view hmem)
  · intro event' hmem id key view heq
    rw [← List.mem_singleton.mp hmem, heq] at hevent
    cases hevent

/-- An event that is no grant keeps the invariant of the grants. -/
theorem GrantInv.log (h : GrantInv platform server) {calls : List Call} {event : Event}
    (hcalls : ∀ call ∈ calls, call ∈ server.calls ∨ call.phase = .entered)
    (hevent : ∀ id key issued, event ≠ .granted id key issued) :
    GrantInv platform { server with calls, log := server.log ++ [event] } := by
  refine ⟨?_, ?_, h.grants.append ?_⟩
  · intro call hcall session app issuedAt expiresAt hphase
    rcases hcalls call hcall with hold | hnew
    · exact h.stamped call hold session app issuedAt expiresAt hphase
    · rw [hnew] at hphase
      cases hphase
  · intro id key issued hmem
    rcases List.mem_append.mp hmem with hmem | hmem
    · exact h.sequence id key issued hmem
    · exact absurd (List.mem_singleton.mp hmem).symm (hevent id key issued)
  · intro event' hmem
    rw [List.mem_singleton.mp hmem]
    exact hevent

/-- **One step.** A counted step keeps the invariant of the grants. -/
theorem GrantInv.step (h : GrantInv platform server) {action : Action}
    (hcounted : counted server action = true) :
    GrantInv platform (Platform.step platform server action) := by
  cases action with
  | call operation credential =>
    unfold Platform.step
    simp only
    split
    · exact h.log (fun _ hcall => .inl hcall) fun _ _ _ heq => by cases heq
    · refine h.log ?_ ?_
      · intro call hcall
        rcases List.mem_append.mp hcall with hcall | hcall
        · exact .inl hcall
        · exact .inr (by rw [List.mem_singleton.mp hcall])
      · intro _ _ _ heq
        cases heq
  -- Only a call that goes on can draw from the counter.
  | advance id =>
    unfold Platform.step
    simp only
    split
    · exact h
    · rename_i call hcall
      have hcountedStep : countedStep server call = true := by
        simpa [counted, hcall] using hcounted
      exact h.advance hcall hcountedStep moves_effect
  | tick seconds => exact ⟨h.stamped, h.sequence, h.grants⟩

/-- **One step.** A proper step keeps all three invariants. -/
theorem Inv.step (hsign : Function.Injective platform.sign) (h : Inv platform server)
    {action : Action} (hproper : proper server action = true) :
    Inv platform (Platform.step platform server action) := by
  -- The grant clauses were kept by every counted step already.
  suffices hkept : SessionInv platform (Platform.step platform server action) ∧
      AppInv (Platform.step platform server action) from
    ⟨hkept.1, hkept.2, h.grants.step (counted_of_proper hproper)⟩
  cases action with
  | call operation credential =>
    unfold Platform.step
    simp only
    split
    · exact ⟨h.sessions.log rfl, h.apps.reject _ _⟩
    · rename_i identity hidentity
      exact ⟨h.sessions.log rfl, h.apps.newCall operation identity⟩
  | advance id =>
    unfold Platform.step
    simp only
    split
    · exact ⟨h.sessions, h.apps⟩
    · rename_i call hcall
      have hproper : properStep server call = true := by
        simpa [proper, hcall] using hproper
      exact ⟨h.sessions.step hsign hproper moves_effect, h.apps.step hcall hproper moves_effect⟩
  -- The clock runs on and the sessions stay in the past.
  | tick seconds =>
    have hclock : server.clock ≤ server.clock + seconds := by omega
    refine ⟨⟨?_, h.sessions.later, h.sessions.revoked, h.sessions.final⟩,
      ⟨h.apps.called, ?_, h.apps.final⟩⟩
    · intro key session hget
      obtain ⟨hissued, hle⟩ := h.sessions.issued key session hget
      exact ⟨hissued, le_trans hle hclock⟩
    · intro earlier id key appId later hsplit hnone
      obtain ⟨hrevoked, hauthorizing, hrefreshing⟩ :=
        h.apps.barred earlier id key appId later hsplit hnone
      exact ⟨hrevoked, hauthorizing, hrefreshing⟩

/-- **Whole runs**, by induction on the actions. -/
theorem Inv.run (hsign : Function.Injective platform.sign) {actions : List Action}
    (h : Inv platform server) (hproper : properRun platform server actions = true) :
    Inv platform (Platform.run platform server actions) := by
  induction actions generalizing server with
  | nil => exact h
  | cons action rest ih =>
    rw [properRun, Bool.and_eq_true] at hproper
    exact ih (h.step hsign hproper.1) hproper.2

/-- The same for the grants alone, in runs that only count them. -/
theorem GrantInv.run {actions : List Action} (h : GrantInv platform server)
    (hcounted : countedRun platform server actions = true) :
    GrantInv platform (Platform.run platform server actions) := by
  induction actions generalizing server with
  | nil => exact h
  | cons action rest ih =>
    rw [countedRun, Bool.and_eq_true] at hcounted
    exact ih (h.step hcounted.1) hcounted.2

/-- **Grants.** As long as the grant counter does not wrap around, every grant is bound to its
    application, its identity and its session, with a preimage of its own, whatever is opened,
    refreshed or revoked in between. -/
theorem grants_bound (clock : ℤ) (actions : List Action)
    (hcounted : countedRun platform (start clock) actions = true) :
    GrantsBound platform (run platform (start clock) actions).log :=
  ((inv_start clock).grants.run hcounted).grants

/-- **Revocation.** In every proper run, from the start of the server and for any number of calls:
    a revoked session is never handed out again; a revoked application is not refreshed before it has
    been authorised again; and every grant is bound to its application, its identity and its session,
    with a preimage of its own. -/
theorem revocation_final (hsign : Function.Injective platform.sign) (clock : ℤ)
    (actions : List Action) (hproper : properRun platform (start clock) actions = true) :
    SessionsFinal (run platform (start clock) actions).log ∧
      AppsFinal (run platform (start clock) actions).log ∧
      GrantsBound platform (run platform (start clock) actions).log := by
  have h := Inv.run hsign (inv_start clock) hproper
  exact ⟨h.sessions.final, h.apps.final, h.grants.grants⟩

end Runs

/-! ### Two runs that forget a revocation -/

namespace OneAnalyst

/-- An identity of the loopback server. -/
def analyst : TrustedIdentity :=
  ⟨⟨"analyst", ⟨1⟩, ⟨2⟩, [⟨3⟩], .researcher, ["rates:read"], .filled 7⟩, none⟩

/-- An application that the identity may launch. -/
def rates : AppRegistration := ⟨"rates", ["analyst"], ["rates:read", "rates:write"]⟩

/-- Sessions of fifteen minutes and grants of one; the tag of a text is the text itself. -/
def platform : PlatformApplication where
  policy := ⟨900, 60, by decide, by decide⟩
  sign := id
  credentialMatches := fun _ _ => false
  identities := []
  implicit := some analyst
  apps := [rates]

/-- A call of the identity with all its steps. -/
def whole (id steps : ℕ) (operation : Operation) : List Action :=
  .call operation .implicit :: List.replicate steps (.advance id)

/-- A session is opened, revoked, and opened again in the same second. -/
def reopened : List Action :=
  whole 0 2 .currentSession ++ whole 1 1 .revokeSession ++ whole 2 2 .currentSession

/-- An application is revoked, the session is refreshed, and the application is refreshed. -/
def refreshedAfterwards : List Action :=
  whole 0 2 .currentSession ++ whole 1 3 (.revokeApp "rates") ++ whole 2 2 .refreshSession ++
    whole 3 5 (.refreshApp "rates")

/-- The same calls, with the revocations kept: the application is authorised again before the session
    is revoked, and the next session is opened a second later. -/
def kept : List Action :=
  whole 0 2 .currentSession ++ whole 1 3 (.revokeApp "rates") ++ whole 2 5 (.refreshApp "rates") ++
    whole 3 5 (.authorizeApp "rates") ++ whole 4 1 .revokeSession ++ [.tick 1] ++
    whole 5 2 .currentSession

/-- The session of the identity, in its generation. -/
def session (generation : ℕ) : SessionView := (platform.sessionOf analyst generation 0 900).view

end OneAnalyst

/-- A run with every operation, in which both kinds of revocation are kept. -/
theorem revocation_final_kept :
    SessionsFinal (run OneAnalyst.platform (start 0) OneAnalyst.kept).log ∧
      AppsFinal (run OneAnalyst.platform (start 0) OneAnalyst.kept).log ∧
      GrantsBound OneAnalyst.platform (run OneAnalyst.platform (start 0) OneAnalyst.kept).log :=
  revocation_final (fun _ _ h => h) 0 OneAnalyst.kept (by decide +kernel)

/-- A session opened again in the same second has the identifier of the revoked one, and a refresh of
    the session forgets that an application was revoked. -/
theorem revocation_undone :
    Function.Injective OneAnalyst.platform.sign ∧
      ¬SessionsFinal (run OneAnalyst.platform (start 0) OneAnalyst.reopened).log ∧
      ¬AppsFinal (run OneAnalyst.platform (start 0) OneAnalyst.refreshedAfterwards).log := by
  refine ⟨fun _ _ h => h, ?_, ?_⟩
  -- First without a refresh, where the next session carries the same view; then with one.
  · intro h
    have hlog : (run OneAnalyst.platform (start 0) OneAnalyst.reopened).log =
        [.called 0 .currentSession (identityKey OneAnalyst.analyst),
          .handedOut 0 (identityKey OneAnalyst.analyst) (OneAnalyst.session 0),
          .called 1 .revokeSession (identityKey OneAnalyst.analyst),
          .sessionRevoked 1 (identityKey OneAnalyst.analyst) (OneAnalyst.session 0),
          .called 2 .currentSession (identityKey OneAnalyst.analyst),
          .handedOut 2 (identityKey OneAnalyst.analyst) (OneAnalyst.session 0)] := by
      decide +kernel
    rw [hlog] at h
    have hpair := (List.pairwise_iff_getElem.mp h) 3 5 (by simp) (by simp) (by omega)
    exact hpair _ _ _ _ _ _ rfl rfl rfl
  · intro h
    have hlog : (run OneAnalyst.platform (start 0) OneAnalyst.refreshedAfterwards).log =
        ([.called 0 .currentSession (identityKey OneAnalyst.analyst),
          .handedOut 0 (identityKey OneAnalyst.analyst) (OneAnalyst.session 0),
          .called 1 (.revokeApp "rates") (identityKey OneAnalyst.analyst)] ++
          .appRevoked 1 (identityKey OneAnalyst.analyst) "rates" ::
          [.called 2 .refreshSession (identityKey OneAnalyst.analyst),
            .handedOut 2 (identityKey OneAnalyst.analyst) (OneAnalyst.session 1),
            .called 3 (.refreshApp "rates") (identityKey OneAnalyst.analyst)]) ++
        .granted 3 (identityKey OneAnalyst.analyst)
          ⟨OneAnalyst.analyst, OneAnalyst.session 1, OneAnalyst.platform.grantOf OneAnalyst.analyst
            (OneAnalyst.session 1) OneAnalyst.rates 0 60 0, 0⟩ :: [] := by
      decide +kernel
    obtain ⟨id, hid⟩ := h _ _ _ _ _ hlog _ _ _ _ rfl (by simp)
    simp at hid

end Ficant.Platform

import Ficant.Lib.Fields
import Ficant.Lib.SortedMap
import Ficant.Primitives.HashText

namespace Ficant.Platform

open Lib

/-!
# Sessions and application grants

The platform port of the API server (`ficant-api/src/registry.rs`, `ficant-api/src/session.rs`):
sessions of trusted identities and short-lived grants for the applications they may launch.

* `PlatformApplication` — the identities, the applications and the lifetimes;
* `currentSession`, `refreshSession`, `revokeSession`, … — what the code does while it holds the lock
  on the sessions;
* `advance` — one such section, or one reading of the clock, of a call that is under way;
* `run` — any number of calls, in any order of their steps, with a clock that never goes back.

HMAC-SHA-256 is third-party code: `sign` is the tag under the platform's key, and `credentialMatches`
the check of a bearer credential.  The registry of visible applications is not modelled: it reads the
sessions and changes nothing.
-/

/-! ### Identities, applications, sessions -/

/-- `PlatformRole`. -/
inductive PlatformRole
  | platformAdmin | researcher
  deriving DecidableEq, Repr

/-- `AuthorizedPrincipal`, as far as sessions read it. -/
structure AuthorizedPrincipal where
  subjectId : String
  actorId : Ulid
  tenantId : Ulid
  allowedOwnerIds : List Ulid
  activeRole : PlatformRole
  scopes : List String
  credentialFingerprint : ContentHash
  deriving DecidableEq

/-- `TrustedIdentity`. -/
structure TrustedIdentity where
  principal : AuthorizedPrincipal
  bearerDigest : Option (List UInt8)
  deriving DecidableEq

/-- `SessionPolicy`. -/
structure SessionPolicy where
  sessionTtlSeconds : ℤ
  appGrantTtlSeconds : ℤ
  positive : 0 < sessionTtlSeconds ∧ 0 < appGrantTtlSeconds
  shorter : appGrantTtlSeconds < sessionTtlSeconds

/-- `AppRegistration`, without what only the browser reads. -/
structure AppRegistration where
  appId : String
  allowedSubjects : List String
  grantScopes : List String
  deriving DecidableEq

/-- `RequestCredential`. -/
inductive RequestCredential
  | bearer (value : List UInt8)
  | implicit
  | invalid

/-- `SessionView`. -/
structure SessionView where
  sessionId : String
  subjectId : String
  actorId : Ulid
  activeRole : PlatformRole
  tenantId : Ulid
  allowedOwnerIds : List Ulid
  scopes : List String
  credentialFingerprint : ContentHash
  issuedAt : ℤ
  expiresAt : ℤ
  deriving DecidableEq

/-- `AppGrantView`. -/
structure AppGrantView where
  app : AppRegistration
  scopes : List String
  issuedAt : ℤ
  expiresAt : ℤ
  launchCredential : List UInt8
  deriving DecidableEq

/-- `ActiveSession`. -/
structure ActiveSession where
  view : SessionView
  generation : ℕ
  revokedApps : List String
  deriving DecidableEq

/-- `PlatformFailureCode`, as far as sessions raise it. -/
inductive PlatformFailureCode
  | unauthenticated | expired | internal | invalidRequest | notFound | forbidden
  deriving DecidableEq, Repr

/-- `PlatformFailure`. -/
structure PlatformFailure where
  code : PlatformFailureCode
  retryable : Bool
  context : String
  deriving DecidableEq

/-- `unauthenticated`. -/
def unauthenticated : PlatformFailure := ⟨.unauthenticated, false, "credential-rejected"⟩

/-- `expired`. -/
def expired : PlatformFailure := ⟨.expired, false, "session-expired"⟩

/-- `internal_failure`. -/
def internalFailure : PlatformFailure := ⟨.internal, false, "platform-state"⟩

/-- `PlatformApplication` without its sessions and its counter. -/
structure PlatformApplication where
  policy : SessionPolicy
  sign : List UInt8 → List UInt8
  credentialMatches : List UInt8 → List UInt8 → Bool
  identities : List TrustedIdentity
  implicit : Option TrustedIdentity
  apps : List AppRegistration

/-! ### Identifiers -/

/-- `hex`. -/
def hex (bytes : List UInt8) : String := String.ofList (bytes.flatMap hexByte)

/-- The character between two fields of a signed text. -/
def nul : Char := Char.ofNat 0

/-- The code of a role in a signed text. -/
def PlatformRole.code : PlatformRole → ℤ
  | platformAdmin => 1
  | researcher => 2

/-- `identity_key`. -/
def identityKey (identity : TrustedIdentity) : String :=
  hex identity.principal.credentialFingerprint.bytes

/-- The text that `signed_identifier` signs. -/
def identifierText (purpose subjectId : String) (credentialFingerprint : ContentHash)
    (activeRole : PlatformRole) (issuedAt expiresAt : ℤ) (sequence : ℕ) : List Char :=
  let front := field nul purpose.toList subjectId.toList
  let front := field nul front (hex credentialFingerprint.bytes).toList
  let front := field nul front (decimalChars activeRole.code)
  let front := field nul front (decimalChars issuedAt)
  let front := field nul front (decimalChars expiresAt)
  field nul front (decimalChars sequence)

/-- The text that `issue_grant` signs. -/
def grantText (sessionId appId : String) (issuedAt expiresAt : ℤ) (sequence : ℕ) : List Char :=
  let front := field nul "app-grant/v1".toList sessionId.toList
  let front := field nul front appId.toList
  let front := field nul front (decimalChars issuedAt)
  let front := field nul front (decimalChars expiresAt)
  field nul front (decimalChars sequence)

/-- `checked_add` on 64-bit integers. -/
def checkedAdd (a b : ℤ) : Option ℤ :=
  if -2 ^ 63 ≤ a + b ∧ a + b < 2 ^ 63 then some (a + b) else none

namespace PlatformApplication

variable (platform : PlatformApplication)

/-- `identity`. -/
def identity : RequestCredential → Except PlatformFailure TrustedIdentity
  | .bearer value =>
    match platform.identities.find? fun identity =>
        identity.bearerDigest.any (platform.credentialMatches value) with
    | some identity => .ok identity
    | none => .error unauthenticated
  | .implicit =>
    match platform.implicit with
    | some identity => .ok identity
    | none => .error unauthenticated
  | .invalid => .error unauthenticated

/-- `signed_identifier`. -/
def signedIdentifier (purpose subjectId : String) (credentialFingerprint : ContentHash)
    (activeRole : PlatformRole) (issuedAt expiresAt : ℤ) (sequence : ℕ) : String :=
  hex (platform.sign (utf8 (String.ofList (identifierText purpose subjectId credentialFingerprint
    activeRole issuedAt expiresAt sequence))))

/-- The session that `issue_session` makes. -/
def sessionOf (identity : TrustedIdentity) (generation : ℕ) (issuedAt expiresAt : ℤ) :
    ActiveSession :=
  let principal := identity.principal
  { view :=
      { sessionId := platform.signedIdentifier "session/v1" principal.subjectId
          principal.credentialFingerprint principal.activeRole issuedAt expiresAt generation
        subjectId := principal.subjectId
        actorId := principal.actorId
        activeRole := principal.activeRole
        tenantId := principal.tenantId
        allowedOwnerIds := principal.allowedOwnerIds
        scopes := principal.scopes
        credentialFingerprint := principal.credentialFingerprint
        issuedAt, expiresAt }
    generation
    revokedApps := [] }

/-- `issue_session`; `clock` is the second in which it is called. -/
def issueSession (clock : ℤ) (identity : TrustedIdentity) (generation : ℕ) :
    Except PlatformFailure ActiveSession :=
  match checkedAdd clock platform.policy.sessionTtlSeconds with
  | none => .error internalFailure
  | some expiresAt => .ok (platform.sessionOf identity generation clock expiresAt)

/-- `app_for_subject`. -/
def appForSubject (identity : TrustedIdentity) (appId : String) :
    Except PlatformFailure AppRegistration :=
  if appId = "" then .error ⟨.invalidRequest, false, "empty-app-id"⟩
  else
    match platform.apps.find? fun app => app.appId = appId with
    | none => .error ⟨.notFound, false, "unknown-app"⟩
    | some app =>
      if identity.principal.subjectId ∉ app.allowedSubjects then
        .error ⟨.forbidden, false, "app-subject-denied"⟩
      else .ok app

/-- The times of `issue_grant`; `clock` is the second in which it is called. -/
def grantTimes (clock : ℤ) (session : SessionView) : Except PlatformFailure (ℤ × ℤ) :=
  match checkedAdd clock platform.policy.appGrantTtlSeconds with
  | none => .error internalFailure
  | some policyExpiry =>
    let expiresAt := min policyExpiry session.expiresAt
    if expiresAt ≤ clock then .error expired else .ok (clock, expiresAt)

/-- The grant of `issue_grant`, with the number it drew. -/
def grantOf (identity : TrustedIdentity) (session : SessionView) (app : AppRegistration)
    (issuedAt expiresAt : ℤ) (sequence : ℕ) : AppGrantView :=
  { app
    scopes := app.grantScopes.filter fun scope => scope ∈ identity.principal.scopes
    issuedAt, expiresAt
    launchCredential := platform.sign (utf8 (String.ofList
      (grantText session.sessionId app.appId issuedAt expiresAt sequence))) }

end PlatformApplication

/-! ### The sections under the lock -/

/-- The sessions, by the key of the identity. -/
abbrev Sessions := SortedMap String ActiveSession

section Sections

variable (platform : PlatformApplication) (identity : TrustedIdentity) (clock now : ℤ)
  (sessions : Sessions)

/-- `current_session`; `now` was read before the lock was taken. -/
def currentSession : Except PlatformFailure (SessionView × Sessions) :=
  match sessions.get? (identityKey identity) with
  | some session =>
    if session.view.expiresAt ≤ now then .error expired else .ok (session.view, sessions)
  | none => do
    let session ← platform.issueSession clock identity 0
    pure (session.view, sessions.insert (identityKey identity) session)

/-- `refresh_session`. -/
def refreshSession : Except PlatformFailure (SessionView × Sessions) :=
  match sessions.get? (identityKey identity) with
  | none => .error unauthenticated
  | some current =>
    if current.view.expiresAt ≤ now then .error expired
    else if 2 ^ 64 ≤ current.generation + 1 then .error internalFailure
    else do
      let refreshed ← platform.issueSession clock identity (current.generation + 1)
      pure (refreshed.view, sessions.insert (identityKey identity) refreshed)

/-- `revoke_session`: the session that is removed, and the others. -/
def revokeSession : Except PlatformFailure (ActiveSession × Sessions) :=
  match sessions.get? (identityKey identity) with
  | none => .error unauthenticated
  | some session => .ok (session, sessions.erase (identityKey identity))

/-- `active_session`. -/
def activeSession : Except PlatformFailure SessionView :=
  match sessions.get? (identityKey identity) with
  | none => .error unauthenticated
  | some session => if session.view.expiresAt ≤ now then .error expired else .ok session.view

/-- The first half of every call for an application. -/
def checkApp (appId : String) : Except PlatformFailure (SessionView × AppRegistration) := do
  let session ← activeSession identity now sessions
  let app ← platform.appForSubject identity appId
  pure (session, app)

/-- The second section of `authorize_app`. -/
def authorizeApp (appId : String) : Except PlatformFailure Sessions :=
  match sessions.get? (identityKey identity) with
  | none => .error unauthenticated
  | some state => .ok (sessions.insert (identityKey identity)
      { state with revokedApps := state.revokedApps.filter (· ≠ appId) })

/-- The second section of `refresh_app`. -/
def refreshApp (appId : String) : Except PlatformFailure Unit :=
  match sessions.get? (identityKey identity) with
  | none => .error unauthenticated
  | some state => if appId ∈ state.revokedApps then .error expired else .ok ()

/-- The second section of `revoke_app`. -/
def revokeApp (appId : String) : Except PlatformFailure Sessions :=
  match sessions.get? (identityKey identity) with
  | none => .error unauthenticated
  | some state => .ok (sessions.insert (identityKey identity)
      { state with revokedApps := appId :: state.revokedApps.filter (· ≠ appId) })

end Sections

/-! ### Calls under way -/

/-- The calls of the port. -/
inductive Operation
  | currentSession | refreshSession | revokeSession
  | authorizeApp (appId : String) | refreshApp (appId : String) | revokeApp (appId : String)
  deriving DecidableEq

/-- How far a call has come. -/
inductive Phase
  /-- The credential is accepted, nothing else was read. -/
  | entered
  /-- The clock was read; the lock is next. -/
  | checked (now : ℤ)
  /-- The session was copied and the lock released; the second lock is next. -/
  | copied (session : SessionView) (app : AppRegistration)
  /-- `issue_grant` is next. -/
  | allowed (session : SessionView) (app : AppRegistration)
  /-- `issue_grant` has read the clock; the counter is next. -/
  | stamped (session : SessionView) (app : AppRegistration) (issuedAt expiresAt : ℤ)
  | done
  deriving DecidableEq

/-- A call of an identity. -/
structure Call where
  operation : Operation
  identity : TrustedIdentity
  phase : Phase
  deriving DecidableEq

/-- A grant with what it was made from. -/
structure IssuedGrant where
  identity : TrustedIdentity
  session : SessionView
  grant : AppGrantView
  sequence : ℕ
  deriving DecidableEq

/-- The text under the launch credential of a grant. -/
def IssuedGrant.preimage (g : IssuedGrant) : List Char :=
  grantText g.session.sessionId g.grant.app.appId g.grant.issuedAt g.grant.expiresAt g.sequence

/-- What can be seen of a run, in the order in which it happens; calls are numbered. -/
inductive Event
  | called (id : ℕ) (operation : Operation) (key : String)
  | handedOut (id : ℕ) (key : String) (view : SessionView)
  | sessionRevoked (id : ℕ) (key : String) (view : SessionView)
  | appRevoked (id : ℕ) (key : String) (appId : String)
  | granted (id : ℕ) (key : String) (issued : IssuedGrant)
  | failed (id : ℕ) (failure : PlatformFailure)
  deriving DecidableEq

/-- The server with its calls under way and what has happened so far. -/
structure Server where
  clock : ℤ
  sessions : Sessions
  grantSequence : ℕ
  calls : List Call
  log : List Event

/-- What one step of a call does. -/
structure Effect where
  sessions : Sessions
  grantSequence : ℕ
  phase : Phase
  events : List Event

section Steps

variable (platform : PlatformApplication) (server : Server) (id : ℕ) (call : Call)

/-- A step that only moves the call on. -/
def movesTo (phase : Phase) : Effect := ⟨server.sessions, server.grantSequence, phase, []⟩

/-- A step that returns a failure. -/
def fails (failure : PlatformFailure) : Effect :=
  ⟨server.sessions, server.grantSequence, .done, [.failed id failure]⟩

/-- The step of a call that hands out a session. -/
def handsOut : Except PlatformFailure (SessionView × Sessions) → Effect
  | .ok (view, sessions) => ⟨sessions, server.grantSequence, .done,
      [.handedOut id (identityKey call.identity) view]⟩
  | .error failure => fails server id failure

/-- The step of a call whose credential was accepted. -/
def enteredStep : Effect :=
  match call.operation with
  | .revokeSession =>
    match revokeSession call.identity server.sessions with
    | .ok (session, sessions) => ⟨sessions, server.grantSequence, .done,
        [.sessionRevoked id (identityKey call.identity) session.view]⟩
    | .error failure => fails server id failure
  | _ => movesTo server (.checked server.clock)

/-- The first section of a call for an application. -/
def appStep (now : ℤ) (appId : String) : Effect :=
  match checkApp platform call.identity now server.sessions appId with
  | .ok (session, app) => movesTo server (.copied session app)
  | .error failure => fails server id failure

/-- The step of a call that has read the clock. -/
def checkedStep (now : ℤ) : Effect :=
  match call.operation with
  | .currentSession => handsOut server id call
      (currentSession platform call.identity server.clock now server.sessions)
  | .refreshSession => handsOut server id call
      (refreshSession platform call.identity server.clock now server.sessions)
  | .revokeSession => movesTo server .done
  | .authorizeApp appId => appStep platform server id call now appId
  | .refreshApp appId => appStep platform server id call now appId
  | .revokeApp appId => appStep platform server id call now appId

/-- The second section of a call for an application. -/
def copiedStep (session : SessionView) (app : AppRegistration) : Effect :=
  match call.operation with
  | .authorizeApp appId =>
    match authorizeApp call.identity server.sessions appId with
    | .ok sessions => ⟨sessions, server.grantSequence, .allowed session app, []⟩
    | .error failure => fails server id failure
  | .refreshApp appId =>
    match refreshApp call.identity server.sessions appId with
    | .ok () => movesTo server (.allowed session app)
    | .error failure => fails server id failure
  | .revokeApp appId =>
    match revokeApp call.identity server.sessions appId with
    | .ok sessions => ⟨sessions, server.grantSequence, .done,
        [.appRevoked id (identityKey call.identity) appId]⟩
    | .error failure => fails server id failure
  | _ => movesTo server .done

/-- The clock of `issue_grant`. -/
def allowedStep (session : SessionView) (app : AppRegistration) : Effect :=
  match platform.grantTimes server.clock session with
  | .ok (issuedAt, expiresAt) => movesTo server (.stamped session app issuedAt expiresAt)
  | .error failure => fails server id failure

/-- The counter of `issue_grant`; it wraps around. -/
def stampedStep (session : SessionView) (app : AppRegistration) (issuedAt expiresAt : ℤ) : Effect :=
  { sessions := server.sessions
    grantSequence := (server.grantSequence + 1) % 2 ^ 64
    phase := .done
    events := [.granted id (identityKey call.identity)
      { identity := call.identity, session
        grant := platform.grantOf call.identity session app issuedAt expiresAt
          server.grantSequence
        sequence := server.grantSequence }] }

/-- The next step of a call. -/
def effect : Effect :=
  match call.phase with
  | .entered => enteredStep server id call
  | .checked now => checkedStep platform server id call now
  | .copied session app => copiedStep server id call session app
  | .allowed session app => allowedStep platform server id session app
  | .stamped session app issuedAt expiresAt =>
    stampedStep platform server id call session app issuedAt expiresAt
  | .done => movesTo server .done

end Steps

/-- What a client or the clock can do. -/
inductive Action
  /-- A client calls an operation. -/
  | call (operation : Operation) (credential : RequestCredential)
  /-- A call does its next step. -/
  | advance (id : ℕ)
  /-- Seconds pass. -/
  | tick (seconds : ℕ)

/-- The server after a step of a call. -/
def Server.after (server : Server) (id : ℕ) (call : Call) (e : Effect) : Server :=
  { clock := server.clock
    sessions := e.sessions
    grantSequence := e.grantSequence
    calls := server.calls.set id { call with phase := e.phase }
    log := server.log ++ e.events }

/-- One step of the server. -/
def step (platform : PlatformApplication) (server : Server) : Action → Server
  | .call operation credential =>
    match platform.identity credential with
    | .error failure =>
      { server with log := server.log ++ [.failed server.calls.length failure] }
    | .ok identity =>
      { server with
        calls := server.calls ++ [⟨operation, identity, .entered⟩]
        log := server.log ++ [.called server.calls.length operation (identityKey identity)] }
  | .advance id =>
    match server.calls[id]? with
    | none => server
    | some call => server.after id call (effect platform server id call)
  | .tick seconds => { server with clock := server.clock + seconds }

/-- The server when it starts. -/
def start (clock : ℤ) : Server := ⟨clock, ∅, 0, [], []⟩

/-- A whole run. -/
def run (platform : PlatformApplication) (server : Server) (actions : List Action) : Server :=
  actions.foldl (step platform) server

end Ficant.Platform

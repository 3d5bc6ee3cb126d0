import Pglens.Redact.Credential
import Pglens.Server.Store

/-! The handlers of internal/server/commands.go against one database. Each SQL statement is one
step; a result post is a transaction whose row lock is held to its end, and what it writes is seen
when it commits. The clock readings, the random identifiers, the order in which handlers run and the
errors that end them are the run's. There is one tenant. -/
namespace Pglens.Commands
open Pglens.Lib

inductive Kind
  | explain
  | cancel
  | terminate
  | pgstattuple
  deriving DecidableEq, Repr

inductive CommandState
  | pending
  | claimed
  | done
  | failed
  | expired
  deriving DecidableEq, Repr

def CommandState.final : CommandState → Bool
  | .pending | .claimed => false
  | .done | .failed | .expired => true

/-- The outcomes of a result; validateResult refuses any other text. -/
inductive Outcome
  | ok
  | error
  | rejected
  deriving DecidableEq, Repr

inductive AuditOutcome
  | requested
  | expired
  | result (outcome : Outcome)
  deriving DecidableEq, Repr

structure Subject where
  instanceID : UUID
  kind : Kind
  args : Text
  requestedBy : Text
  deriving DecidableEq, Repr

/-- A row of the commands table. -/
structure Command where
  commandID : UUID
  agentID : UUID
  clusterID : ℤ
  subject : Subject
  state : CommandState
  claimToken : Option UUID
  createdAt : Time
  claimedAt : Option Time
  finishedAt : Option Time
  expiresAt : Time
  result : Option Text
  error : Option Text
  deriving DecidableEq, Repr

/-- Which statement wrote an audit row. This is no column of the table. -/
inductive Cause
  | request
  | move
  | late
  deriving DecidableEq, Repr

/-- A row of the command_audit table. -/
structure AuditRow where
  commandID : UUID
  subject : Subject
  outcome : AuditOutcome
  detail : Option Text
  cause : Cause
  deriving DecidableEq, Repr

/-- What has happened to a command. The history is no table; it is kept beside them. -/
inductive Happening
  | claimed (commandID agentID token : UUID) (now reading : Time)
  | expired (commandID : UUID) (now : Time)
  | accepted (commandID token : UUID) (outcome : Outcome)
  deriving DecidableEq, Repr

def commandClaimLease : ℤ := 2*Duration.minute
def commandQueueLimit : ℕ := 20

section Rows

/-- The request of enqueue, with what the lookup of its instance returns. -/
structure EnqueueRequest where
  agentID : UUID
  clusterID : ℤ
  subject : Subject
  deriving DecidableEq, Repr

structure ResultRequest where
  claimToken : UUID
  outcome : Outcome
  result : Text
  error : Text
  deriving DecidableEq, Repr

/-- The row that enqueue inserts. -/
def EnqueueRequest.command (req : EnqueueRequest) (commandID : UUID) (now expiresAt : Time) : Command :=
  ⟨commandID,req.agentID,req.clusterID,req.subject,.pending,none,now,none,none,Server.stamp expiresAt,none,none⟩

def Command.requestedRow (c : Command) : AuditRow := ⟨c.commandID,c.subject,.requested,none,.request⟩

/-- The condition of expireCommands. -/
def Command.lapsed (now : Time) (c : Command) : Bool := !c.state.final && !now.before c.expiresAt

def Command.expire (now : Time) (c : Command) : Command := { c with state := .expired, finishedAt := some now }

def Command.expiredRow (c : Command) : AuditRow :=
  ⟨c.commandID,c.subject,.expired,some (Text.ascii (if c.claimedAt.isNone then "expired before the agent claimed it"
    else "claimed by the agent, no result before expiry")),.move⟩

def leaseEnd (reading : Time) : Time := Server.stamp (reading.add commandClaimLease)

def greatest (t u : Time) : Time := if t.before u then u else t

def Command.claim (now reading : Time) (token : UUID) (c : Command) : Command :=
  { c with
    state := .claimed
    claimedAt := some now
    claimToken := some token
    expiresAt := greatest c.expiresAt (leaseEnd reading) }

def nullable (text : Text) : Option Text := if text=[] then none else some text

/-- What the result's UPDATE leaves. -/
def Command.finish (req : ResultRequest) (now : Time) (c : Command) : Command :=
  { c with
    state := if req.outcome=.ok then .done else .failed
    result := nullable req.result
    error := nullable req.error
    finishedAt := some now }

/-- The UPDATE's condition. -/
def Command.holdsClaim (token : UUID) (c : Command) : Bool := c.state == .claimed && c.claimToken == some token

def Command.resultRow (req : ResultRequest) (c : Command) : AuditRow :=
  ⟨c.commandID,c.subject,.result req.outcome,nullable req.error,.move⟩

/-- The row of a result for an expired command: what the agent that held the claim reported, or a
rejection. -/
def Command.lateRow (req : ResultRequest) (c : Command) : AuditRow :=
  ⟨c.commandID,c.subject,.result (if c.claimToken=some req.claimToken then req.outcome else .rejected),
    nullable req.error,.late⟩

def validateResult (req : ResultRequest) : Option String :=
  if req.claimToken=UUID.nil then some "claim_token is required"
  else if req.outcome=.ok ∧ req.error≠[] then some "ok result cannot include error"
  else if req.outcome≠.ok ∧ req.result≠[] then some "failed result cannot include result"
  else if req.outcome≠.ok ∧ req.error=[] then some "failed result requires error"
  else none

def withheldResultText : Text := Text.ascii "the plan is withheld because it may hold a credential"
def withheldErrorText : Text := Text.ascii "the error text is withheld because it may hold a credential"

/-- What result makes of a request that may hold a credential. -/
def ResultRequest.withhold (req : ResultRequest) : ResultRequest :=
  if req.outcome=.ok ∧ Redact.mayHoldCredential req.result then
    { req with outcome := .error, result := [], error := withheldResultText }
  else if req.error≠[] ∧ Redact.mayHoldCredential req.error then { req with error := withheldErrorText }
  else req

end Rows

section Tables

structure Tables where
  commands : List Command
  audit : List AuditRow
  history : List Happening

namespace Tables

def rows (db : Tables) (id : UUID) : List Command := db.commands.filter fun c => c.commandID == id

def updateRow (db : Tables) (id : UUID) (f : Command → Command) : Tables :=
  { db with commands := db.commands.map fun c => if c.commandID == id then f c else c }

def insert (db : Tables) (c : Command) : Tables :=
  { db with commands := c::db.commands, audit := c.requestedRow::db.audit }

/-- The statement of expireCommands. -/
def expireCommands (db : Tables) (now : Time) : Tables where
  commands := db.commands.map fun c => if c.lapsed now then c.expire now else c
  audit := (db.commands.filter (Command.lapsed now)).map Command.expiredRow++db.audit
  history := (db.commands.filter (Command.lapsed now)).map (fun c => .expired c.commandID now)++db.history

def claim (db : Tables) (id agentID token : UUID) (now reading : Time) : Tables :=
  { db.updateRow id (Command.claim now reading token) with
    history := .claimed id agentID token now reading::db.history }

/-- The commit of a result. -/
def accept (db : Tables) (id : UUID) (req : ResultRequest) (row : Command) (audit : AuditRow) : Tables :=
  { db.updateRow id (fun _ => row) with
    audit := audit::db.audit
    history := .accepted id req.claimToken req.outcome::db.history }

def note (db : Tables) (audit : AuditRow) : Tables := { db with audit := audit::db.audit }

end Tables

end Tables

/-- Where a handler stands. From `filing` on, and in `late` and `refused`, its transaction may hold a
row lock. -/
inductive Session
  | idle
  | counting (req : EnqueueRequest)
  | inserting (req : EnqueueRequest)
  | sweeping (agentID : UUID)
  | claiming (agentID : UUID)
  | lookingUp (id : UUID) (req : ResultRequest)
  | updating (id : UUID) (req : ResultRequest)
  /-- The UPDATE has found no row. -/
  | missing (id : UUID) (req : ResultRequest)
  | refused
  | late (req : ResultRequest) (found : Command)
  | filing (id : UUID) (req : ResultRequest) (row : Command)
  | auditing (id : UUID) (req : ResultRequest) (row : Command)
  | committing (id : UUID) (req : ResultRequest) (row : Command) (audit : AuditRow)
  | committingLate (audit : AuditRow)
  deriving DecidableEq, Repr

structure State where
  tables : Tables
  /-- The agents with a revoked_at. -/
  revoked : UUID → Bool
  locks : UUID → Option ℕ
  sessions : ℕ → Session

def State.start (revoked : UUID → Bool) : State := ⟨⟨[],[],[]⟩,revoked,fun _ => none,fun _ => .idle⟩

/-- A step: a handler starts, runs its next statement, or ends early, which rolls its transaction
back; or an agent is revoked. Every statement that reads now() has it as `now`. -/
inductive Act
  | enqueue (n : ℕ) (req : EnqueueRequest)
  | count (n : ℕ) (now : Time)
  | insert (n : ℕ) (now reading : Time) (commandID : UUID)
  | poll (n : ℕ) (agentID : UUID)
  | sweep (n : ℕ) (now : Time)
  | claim (n : ℕ) (now reading : Time) (token : UUID) (pick : Option UUID)
  | get (now : Time)
  | post (n : ℕ) (id : UUID) (req : ResultRequest)
  | lookUp (n : ℕ)
  | update (n : ℕ) (now : Time)
  | select (n : ℕ)
  | file (n : ℕ)
  | audit (n : ℕ)
  | commit (n : ℕ)
  | fail (n : ℕ)
  | revoke (agentID : UUID) (revoked : Bool)
  deriving DecidableEq, Repr

namespace State

def enter (s : State) (n : ℕ) (session : Session) : State :=
  { s with sessions := Function.update s.sessions n session }

/-- The handler returns, and its locks are released. -/
def leave (s : State) (n : ℕ) : State :=
  { s with
    sessions := Function.update s.sessions n .idle
    locks := fun id => if s.locks id=some n then none else s.locks id }

def lock (s : State) (n : ℕ) (id : UUID) : State := { s with locks := Function.update s.locks id (some n) }

/-- expireCommands waits for the rows that it would update. -/
def expireCommands (s : State) (now : Time) : Option State :=
  if s.tables.commands.any fun c => c.lapsed now && (s.locks c.commandID).isSome then none
  else some { s with tables := s.tables.expireCommands now }

/-- The rows that the claim of an agent chooses from. It skips those that are locked. -/
def claimable (s : State) (agentID : UUID) (now : Time) : List Command :=
  s.tables.commands.filter fun c => c.agentID == agentID && c.state == .pending && now.before c.expiresAt &&
    !s.revoked agentID && (s.locks c.commandID).isNone

/-- The UPDATE of claim. `pick` is the row it takes, the oldest or one of several such, or `none` when
there is none to take. -/
def claim (s : State) (agentID token : UUID) (now reading : Time) : Option UUID → Option State
  | none => if s.claimable agentID now = [] then some s else none
  | some id =>
    if (s.claimable agentID now).any fun c => c.commandID == id &&
        (s.claimable agentID now).all fun d => !d.createdAt.before c.createdAt
    then some { s with tables := s.tables.claim id agentID token now reading }
    else none

/-- The result's UPDATE waits for the row's lock. -/
def update (s : State) (n : ℕ) (now : Time) (id : UUID) (req : ResultRequest) : Option State :=
  match (s.tables.rows id).find? (Command.holdsClaim req.claimToken) with
  | none => some (s.enter n (.missing id req))
  | some c => if (s.locks id).isSome then none else some ((s.lock n id).enter n (.filing id req (c.finish req now)))

/-- The SELECT FOR UPDATE of a result whose UPDATE found no row. -/
def select (s : State) (n : ℕ) (id : UUID) (req : ResultRequest) : Option State :=
  match (s.tables.rows id).head? with
  | none => some (s.enter n .refused)
  | some c =>
    if (s.locks id).isSome then none
    else some ((s.lock n id).enter n (if c.state=.expired then .late req c else .refused))

end State

/-- One step. `ttl` is the service's command TTL. -/
def step (ttl : ℤ) (s : State) : Act → Option State
  | .enqueue n req => match s.sessions n with
    | .idle => some (s.enter n (.counting req))
    | _ => none
  | .count n now => match s.sessions n with
    | .counting req =>
      let pending := s.tables.commands.countP fun c =>
        c.agentID == req.agentID && c.state == .pending && now.before c.expiresAt
      if commandQueueLimit≤pending then some (s.leave n) else some (s.enter n (.inserting req))
    | _ => none
  | .insert n now reading id => match s.sessions n with
    | .inserting req =>
      if s.tables.rows id = [] then
        some { s.leave n with tables := s.tables.insert (req.command id now (reading.add ttl)) }
      else some (s.leave n)
    | _ => none
  | .poll n agentID => match s.sessions n with
    | .idle => some (s.enter n (.sweeping agentID))
    | _ => none
  | .sweep n now => match s.sessions n with
    | .sweeping agentID => (s.expireCommands now).map fun t => t.enter n (.claiming agentID)
    | _ => none
  | .claim n now reading token pick => match s.sessions n with
    | .claiming agentID => (s.claim agentID token now reading pick).map fun t => t.leave n
    | _ => none
  | .get now => s.expireCommands now
  | .post n id req => match s.sessions n with
    | .idle => if (validateResult req).isNone then some (s.enter n (.lookingUp id req.withhold)) else none
    | _ => none
  | .lookUp n => match s.sessions n with
    | .lookingUp id req =>
      if (s.tables.rows id).any fun c => s.revoked c.agentID then some (s.leave n)
      else some (s.enter n (.updating id req))
    | _ => none
  | .update n now => match s.sessions n with
    | .updating id req => s.update n now id req
    | _ => none
  | .select n => match s.sessions n with
    | .missing id req => s.select n id req
    | _ => none
  | .file n => match s.sessions n with
    | .filing id req row => some (s.enter n (.auditing id req row))
    | _ => none
  | .audit n => match s.sessions n with
    | .auditing id req row => some (s.enter n (.committing id req row (row.resultRow req)))
    | .late req found => some (s.enter n (.committingLate (found.lateRow req)))
    | _ => none
  | .commit n => match s.sessions n with
    | .committing id req row audit => some { s.leave n with tables := s.tables.accept id req row audit }
    | .committingLate audit => some { s.leave n with tables := s.tables.note audit }
    | _ => none
  | .fail n => some (s.leave n)
  | .revoke agentID revoked => some { s with revoked := Function.update s.revoked agentID revoked }

end Pglens.Commands

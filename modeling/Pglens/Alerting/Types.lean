import Pglens.Server.Store
import Mathlib.Algebra.Order.Ring.Unbundled.Rat
import Mathlib.Order.WithBotTop

/-! The types of internal/alert, with the keys of episodes and the match of silences. A rule's tier
and metric are left out: the first is not read, and the second only by the sources, whose samples
are inputs here. -/
namespace Pglens.Alerting
open Duration
open Wire (Labels)

inductive Severity
  | critical
  | warning
  | info
  deriving DecidableEq, Repr

def Severity.text : Severity → String
  | .critical => "critical"
  | .warning => "warning"
  | .info => "info"

inductive Scope
  | inst
  | cluster
  | database
  deriving DecidableEq, Repr

inductive State
  | pending
  | firing
  | resolved
  deriving DecidableEq, Repr

inductive Comparator
  | gt
  | ge
  | lt
  | le
  | eq
  | ne
  deriving DecidableEq, Repr

/-- A float64, as comparisons take it: `none` is NaN. -/
abbrev Float64 := Option (WithBot (WithTop ℚ))

def Float64.lt : Float64 → Float64 → Bool
  | some v, some w => decide (v<w)
  | _, _ => false

def Float64.eq : Float64 → Float64 → Bool
  | some v, some w => decide (v=w)
  | _, _ => false

/-- Compare; a rule without a comparator is never true. -/
def compare (v : Float64) (c : Option Comparator) (threshold : Float64) : Bool :=
  match c with
  | none => false
  | some .gt => threshold.lt v
  | some .ge => threshold.lt v || threshold.eq v
  | some .lt => v.lt threshold
  | some .le => v.lt threshold || v.eq threshold
  | some .eq => v.eq threshold
  | some .ne => !v.eq threshold

structure Rule where
  id : String
  enabled : Bool
  severity : Severity
  scope : Scope
  comparator : Option Comparator
  threshold : Float64
  forDuration : ℤ
  eventType : String
  summary : String
  deriving DecidableEq

structure Sample where
  clusterID : Option ℤ
  instanceID : Option UUID
  datname : String
  labels : Labels
  value : Float64
  ts : Time
  inapplicable : Bool
  deriving DecidableEq

structure Alert where
  key : String
  ruleID : String
  severity : Severity
  state : State
  clusterID : Option ℤ
  instanceID : Option UUID
  datname : String
  labels : Labels
  value : Float64
  summary : String
  startedAt : Time
  lastEvalAt : Time
  resolvedAt : Option Time
  suppressed : Bool
  deriving DecidableEq

/-- What the package calls of other packages: the text of a UUID, the canonical label string,
the layout of an instant, and the compiler of regular expressions. -/
structure Codec where
  uuidText : UUID → String
  canonicalLabels : Labels → String
  format : Time → String
  compile : String → Option (String → Bool)

variable (codec : Codec)

def uuidText : Option UUID → String
  | some id => codec.uuidText id
  | none => "<nil>"

def Key (r : Rule) (s : Sample) : String :=
  let subject := match r.scope with
    | .cluster => match s.clusterID with
      | some id => toString id
      | none => ""
    | .database => uuidText codec s.instanceID++":"++s.datname
    | .inst => uuidText codec s.instanceID++if s.datname ≠ "" then ":"++s.datname else ""
  r.id++"/"++subject++"/"++codec.canonicalLabels s.labels

/-- The start of an alert's episode at the precision the table keeps. -/
def startOf (a : Alert) : Time := Server.stamp a.startedAt

def dedupID (a : Alert) : String := a.key++"/"++codec.format { startOf a with loc := 0 }

structure Matcher where
  name : String
  value : String
  isRegex : Bool
  negate : Bool
  deriving DecidableEq, Repr

structure Silence where
  matchers : List Matcher
  startsAt : Time
  endsAt : Time
  deriving DecidableEq, Repr

def Silence.active (s : Silence) (now : Time) : Bool := !now.before s.startsAt && now.before s.endsAt

def anchored (v : String) : Option (String → Bool) :=
  (codec.compile v).bind fun _ => codec.compile ("^(?:"++v++")$")

def reserved (k : String) (a : Alert) : String :=
  match k with
  | "rule_id" => a.ruleID
  | "severity" => a.severity.text
  | "cluster_id" => match a.clusterID with
    | some id => toString id
    | none => ""
  | "instance_id" => match a.instanceID with
    | some id => codec.uuidText id
    | none => ""
  | "datname" => a.datname
  | _ => ""

def Matcher.holds (m : Matcher) (a : Alert) : Bool :=
  let v := if reserved codec m.name a = "" then a.labels.get m.name else reserved codec m.name a
  let ok := if m.isRegex then
      match anchored codec m.value with
      | some re => re v
      | none => false
    else v == m.value
  if m.negate then !ok else ok

/-- Silence.Matches. -/
def Silence.covers (s : Silence) (a : Alert) : Bool :=
  !s.matchers.isEmpty && s.matchers.all fun m => m.holds codec a

def firstMatch (ss : List Silence) (a : Alert) (now : Time) : Option Silence :=
  ss.find? fun s => s.active now && s.covers codec a

def builtin : List Rule :=
  [⟨"agent_down",true,.critical,.inst,some .lt,some ↑(1 : ℚ),90*second,"",
      "No payload received from the agent"⟩,
   ⟨"instance_unreachable",true,.critical,.inst,none,some ↑(0 : ℚ),0,"instance_unreachable",
      "The server has received no report from the instance agent within the staleness window; " ++
      "agent_down is raised with it"⟩,
   ⟨"check_failing",true,.warning,.inst,some .gt,some ↑(0 : ℚ),5*minute,"",
      "A check has been failing for over five minutes"⟩,
   ⟨"no_primary_in_cluster",true,.critical,.cluster,none,some ↑(0 : ℚ),0,"no_primary_in_cluster",
      "No instance in the cluster reports the primary role"⟩,
   ⟨"agent_buffer_full",true,.warning,.inst,some .gt,some ↑(0 : ℚ),minute,"",
      "The agent is dropping samples"⟩,
   ⟨"clock_skew",true,.warning,.inst,some .gt,some ↑(30 : ℚ),minute,"",
      "Agent clock skew above 30 seconds"⟩,
   ⟨"cardinality_budget_exceeded",true,.warning,.inst,some .gt,some ↑(0 : ℚ),5*minute,"",
      "Series are being truncated by the cardinality budget"⟩,
   ⟨"failover_detected",true,.critical,.cluster,none,some ↑(0 : ℚ),0,"failover_detected",
      "A failover was observed"⟩,
   ⟨"split_brain_detected",true,.critical,.cluster,none,some ↑(0 : ℚ),0,"split_brain_detected",
      "More than one primary in the cluster"⟩,
   ⟨"slot_inactive",true,.warning,.inst,none,some ↑(0 : ℚ),0,"slot_inactive",
      "A replication slot has been inactive and is retaining WAL"⟩,
   ⟨"slot_lost",true,.critical,.inst,none,some ↑(0 : ℚ),0,"slot_lost",
      "A replication slot has lost WAL its consumer still needed; a physical standby must be rebuilt, " ++
      "a logical slot recreated and its subscriber resynchronised"⟩]

def defaultEngineInterval : ℤ := 30*second
def historyRetention : ℤ := 90*24*hour
def purgeInterval : ℤ := hour
def metricGrace : ℤ := 10*minute

/-- The event types whose condition outlives the event that opened it. -/
def spellEvents : List String :=
  ["instance_unreachable","no_primary_in_cluster","slot_inactive","slot_lost"]

def lookback (interval : ℤ) : ℤ :=
  let interval := if interval≤0 then defaultEngineInterval else interval
  if 2*minute < 2*interval then 2*interval else 2*minute

/-- How long an episode may go unsampled before a pass closes it. -/
def endGrace (r : Rule) (interval : ℤ) : ℤ :=
  if r.eventType∈spellEvents then lookback interval
  else if r.eventType ≠ "" then 0
  else metricGrace

end Pglens.Alerting

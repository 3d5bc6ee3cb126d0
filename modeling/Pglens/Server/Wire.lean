import Pglens.Time
import Pglens.Pgtype
import Mathlib.Data.Rat.Defs

/-! The fields of internal/wire that the server's pipeline reads. A Go map is the list of its
entries in the order a loop over it takes them. The parsers, hashes and redaction rules the pipeline
calls are the fields of a `Codec`: nothing here depends on what they compute. -/
namespace Pglens.Wire

abbrev Bytes := List UInt8

abbrev Labels := List (String × String)

/-- A lookup in a Go map of strings: the empty string for a key that is not there. -/
def Labels.get (l : Labels) (key : String) : String := (l.lookup key).getD ""

/-- Metric.Kind, with the text of a kind the server does not know. -/
inductive MetricKind
  | gauge
  | counter
  | other (text : String)
  deriving DecidableEq, Repr

structure Metric where
  name : String
  labels : Labels
  value : ℚ
  kind : MetricKind
  deriving DecidableEq, Repr

structure Fact where
  kind : String
  key : String
  labels : Labels
  valueText : String
  valueJSON : Bytes
  deriving DecidableEq, Repr

structure Result where
  check : String
  ts : Time
  database : String := ""
  statsReset : Option Time := none
  truncated : Bool := false
  isPartial : Bool := false
  error : String := ""
  skipReason : String := ""
  metrics : List Metric := []
  facts : List Fact := []
  queryTexts : List (String × String) := []
  deriving DecidableEq, Repr

/-- `toAddr` is the upstream's address, and a port that is not positive says nothing. -/
structure Edge where
  toAddr : String
  port : ℤ
  type : String
  confidence : String
  deriving DecidableEq, Repr

structure Instance where
  instanceID : String
  targetName : String := ""
  clusterID : String
  addr : String := ""
  port : ℤ := 0
  pgVersion : ℤ := 0
  role : String
  results : List Result := []
  topologyEdges : List Edge := []
  deriving DecidableEq, Repr

structure Envelope where
  sentAt : Time
  transmittedAt : Time := .zero
  instances : List Instance
  deriving DecidableEq, Repr

/-- What the pipeline calls of other packages. -/
structure Codec where
  parseClusterID : String → Option ClusterID
  parseUUID : String → Option UUID
  /-- strconv.ParseInt in base ten, which is also strconv.Atoi. -/
  parseInt : String → Option ℤ
  toLower : String → String
  equalFold : String → String → Bool
  canonicalLabels : Labels → String
  seriesID : SeriesKey → ℤ
  jsonValid : Bytes → Bool
  mayHoldCredential : String → Bool
  withheld : String
  withholdLockTreeQueries : Bytes → Bytes
  withholdXminIdentity : Bytes → Bytes

/-- FactKind, under its name: the check that reports the kind, and whether a complete
result of it replaces the facts of the kind. -/
structure FactKind where
  name : String
  check : String
  replace : Bool
  deriving DecidableEq, Repr

def factKinds : List FactKind :=
  [⟨"index_def","index_stats",true⟩,
   ⟨"setting","settings",true⟩,
   ⟨"lock_tree","locks",false⟩,
   ⟨"plan","",false⟩,
   ⟨"check_skip","",false⟩,
   ⟨"monitoring_role","monitoring_role",true⟩,
   ⟨"trigger","trigger_inventory",true⟩,
   ⟨"fk_unindexed","fk_indexes",true⟩,
   ⟨"extension","extensions",true⟩,
   ⟨"spatial_column","postgis_columns",true⟩,
   ⟨"sequence","sequences",true⟩,
   ⟨"partitioned_table","partitions",true⟩,
   ⟨"function_tracking","function_stats",true⟩,
   ⟨"security_definer_function","function_security",true⟩,
   ⟨"subscription","logical_replication",true⟩,
   ⟨"bloat_unreadable","bloat_estimate",false⟩,
   ⟨"xmin_horizon","activity",true⟩]

def lookupFactKind (kind : String) : Option FactKind := factKinds.find? fun k => k.name == kind

/-- ReplacedFactKinds. The source sorts the names; no check has two kinds it replaces. -/
def replacedFactKinds (check : String) : List String :=
  (factKinds.filter fun k => k.replace && k.check == check).map FactKind.name

inductive FactError
  | kindRequired
  | keyRequired
  | unknownKind (kind : String)
  | oneValueRequired
  | malformedJSON
  deriving DecidableEq, Repr

def Fact.emptySetting (f : Fact) : Bool :=
  f.kind == "setting" && f.valueText == "" && f.valueJSON.isEmpty

def Fact.validate (c : Codec) (f : Fact) : Option FactError :=
  if f.kind = "" then some .kindRequired
  else if f.key = "" then some .keyRequired
  else if (lookupFactKind f.kind).isNone then some (.unknownKind f.kind)
  else if f.emptySetting then none
  else if (f.valueText != "") = !f.valueJSON.isEmpty then some .oneValueRequired
  else if !f.valueJSON.isEmpty && !c.jsonValid f.valueJSON then some .malformedJSON
  else none

end Pglens.Wire

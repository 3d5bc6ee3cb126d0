import Mathlib.Data.Nat.Notation

/-! Identifiers and enumerations shared by the agent and the server. -/
namespace Pglens

/-- uuid.UUID: sixteen bytes. -/
abbrev UUID := BitVec 128

/-- pgtype.ClusterID: a PostgreSQL system identifier. -/
abbrev ClusterID := BitVec 64

abbrev InstanceID := UUID

/-- uuid.Nil, the zero value that stands for no instance. -/
def UUID.nil : UUID := 0#128

/-- pgtype.Role. The empty string, which stands for no role, is `none` of `Option Role`;
normalizeRole and the check constraint of the instances table admit no other text. -/
inductive Role
  | primary
  | standby
  | unknown
  deriving DecidableEq, Repr

/-- pgtype.SeriesKey identifies one time series. `labels` is the canonical label string. -/
structure SeriesKey where
  metric : String
  inst : UUID
  database : String
  labels : String
  deriving DecidableEq, Repr

end Pglens

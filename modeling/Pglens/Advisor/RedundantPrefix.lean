import Pglens.Advisor.Indexes

/-! The rule index.redundant_prefix of internal/advisor: an index whose columns another index of its
table goes on from. Columns are compared without regard to case. -/
namespace Pglens.Advisor
open Pglens.Lib List Option Text Prod

section Code

variable (u : Strings)

/-- The fields of an IndexStat that the rule reads. -/
structure IndexStat where
  datname : Text
  name : Text
  tableName : Text
  indexDef : Text
  isUnique : Bool
  deriving DecidableEq

end Code

section Rule
variable {u : Strings}

variable {all : List (IndexStat × ℕ)} {out : List Finding} {f : Finding}

/-- An index as the snapshot has it, with its definition. -/
structure Reads (x : IndexStat) (d : Definition) : Prop where
  indexDef : x.indexDef=d.print
  tableName : x.tableName = d.schema.value++dot::d.table.value

end Rule

section Runs

end Runs

end Pglens.Advisor

import Pglens.Lib.Ranking
import Pglens.Lib.Text
import Mathlib.Data.List.Count

/-! selectDatabases of internal/agent: which of a target's databases are listed, and which of them
the budget monitors. -/
namespace Pglens.Agent
open Pglens.Lib List

structure DbRow where
  name : Text
  xactCommit : ℤ
  deriving DecidableEq, Repr

/-- The options selectDatabases reads. A pattern is the texts it matches. -/
structure ConnOptions where
  includes : List (Text → Bool)
  excludes : List (Text → Bool)
  maxDatabases : ℤ

structure Database where
  name : Text
  monitored : Bool
  skipReason : Text
  deriving DecidableEq, Repr

/-- The comparison of the budget: the busiest first, and then by name. -/
def busier (a b : DbRow) : Bool :=
  if a.xactCommit≠b.xactCommit then decide (b.xactCommit<a.xactCommit) else decide (a.name<b.name)

/-- The rows that no exclude matches and, when there are includes, that one of them matches. -/
def eligible (dbs : List DbRow) (opts : ConnOptions) : List DbRow :=
  let filtered := dbs.filter fun db => !opts.excludes.any fun ex => ex db.name
  if 0<opts.includes.length then filtered.filter fun db => opts.includes.any fun inc => inc db.name
  else filtered

def monitoredDatabase (db : DbRow) : Database := ⟨db.name,true,[]⟩

def skippedDatabase (db : DbRow) : Database := ⟨db.name,false,Text.utf8 "db_budget"⟩

def selectDatabases (sorter : SliceSort DbRow) (dbs : List DbRow) (opts : ConnOptions) : List Database :=
  let filtered := sorter.sort busier (eligible dbs opts)
  if (filtered.length : ℤ) ≤ opts.maxDatabases then filtered.map monitoredDatabase
  else filtered.mapIdx fun i db => if (i : ℤ) < opts.maxDatabases then monitoredDatabase db else skippedDatabase db

/-- The places the budget has. -/
def ConnOptions.places (opts : ConnOptions) : ℕ := (max opts.maxDatabases 0).toNat

end Pglens.Agent

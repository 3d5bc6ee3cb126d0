import Pglens.Server.Rows

/-! The instances and events tables, as far as the statements of Pipeline.Process select from them.
The other tables are only written. -/
namespace Pglens.Server

structure InstanceRow where
  instanceID : UUID
  clusterID : ℤ
  targetName : String
  addr : String
  port : ℤ
  role : Role
  deriving DecidableEq, Repr

structure Store where
  instances : List InstanceRow
  events : List EventRow
  deriving DecidableEq, Repr

/-- A timestamptz holds whole microseconds; the driver cuts the rest off. -/
def stamp (t : Time) : Time := { t with ns := t.ns-t.ns%Duration.microsecond }

/-- storedRole's SELECT; no row is the empty role. -/
def Store.role (st : Store) (id : UUID) : Option Role :=
  (st.instances.find? fun r => r.instanceID == id).map InstanceRow.role

/-- The lookup of an upstream by target_name. -/
def Store.byTargetName (st : Store) (cluster : ℤ) (name : String) : Option UUID :=
  (st.instances.find? fun r => r.clusterID == cluster && r.targetName == name).map
    InstanceRow.instanceID

/-- The lookup by address, and by port when there is one, of at most two rows. -/
def Store.byAddr (st : Store) (cluster : ℤ) (addr : String) (port : ℤ) : List UUID :=
  ((st.instances.filter fun r => r.clusterID == cluster && r.addr == addr &&
    (decide (port≤0) || r.port == port)).map InstanceRow.instanceID).take 2

/-- The row is a cardinality_truncated event of the check on the instance. -/
def EventRow.marks (o : Origin) (check : String) (ev : EventRow) : Bool :=
  ev.tenantID == Server.tenantID && ev.clusterID == o.clusterID && ev.instanceID == some o.instanceID &&
    ev.type == .cardinalityTruncated &&
    match ev.payload with
    | .truncated check' _ => check' == check
    | _ => false

def truncationEventWindow : ℤ := 10*Duration.minute

/-- The store has such an event inside the window before `ts`. -/
def Store.recentlyTruncated (st : Store) (o : Origin) (check : String) (ts : Time) : Bool :=
  st.events.any fun ev => ev.marks o check && ev.ts.after (stamp (ts.add (-truncationEventWindow)))

def Store.setRole (st : Store) (id : UUID) (role : Role) : Store :=
  { st with instances := st.instances.map fun r =>
      if r.instanceID=id then { r with role := role } else r }

def Store.addEvents (st : Store) (evs : List EventRow) : Store :=
  { st with events := st.events++evs.map fun ev => { ev with ts := stamp ev.ts } }

end Pglens.Server

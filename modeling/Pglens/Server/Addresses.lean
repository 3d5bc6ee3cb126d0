import Pglens.Lib.Txn
import Pglens.Server.Store
import Pglens.Topology.Undo

/-! A standby reports its upstream by address. resolveAddr of Pipeline.Process looks for the
instance first in the envelope, then in the cache of the call's lookups, then in the store. -/
namespace Pglens.Server
open Pglens.Lib Pglens.Wire Function

/-- What the envelope itself says about addresses. -/
structure Addresses where
  addrToInstance : String → Option UUID := fun _ => none
  targetNameToInstance : String → Option UUID := fun _ => none
  addrOnly : String → Option UUID := fun _ => none
  ambiguousAddr : String → Bool := fun _ => false
  clusterPrimaries : ClusterID → UUID × ℕ := fun _ => (UUID.nil,0)

def endpointKey (addr : String) (port : ℤ) : String :=
  if 0<port then addr++":"++toString port else addr

def clusterAddr (cluster : ℤ) (addr : String) : String := toString cluster++"/"++addr

def Addresses.add (c : Codec) (a : Addresses) (inst : Instance) : Addresses :=
  let id := c.parseUUID inst.instanceID
  let cid := c.parseClusterID inst.clusterID
  let a := match id with
    | none => a
    | some id =>
      if inst.addr = "" then a else
      let a := if 0 < inst.port then
        { a with addrToInstance :=
            update a.addrToInstance (endpointKey inst.addr inst.port) (some id) }
        else a
      match cid with
      | none => a
      | some cid =>
        let key := clusterAddr cid.toInt inst.addr
        let shared := (a.addrOnly key).any fun prev => prev != id
        { a with
          ambiguousAddr := if shared then update a.ambiguousAddr key true
            else a.ambiguousAddr
          addrOnly := update a.addrOnly key (some id) }
  let a := match id with
    | none => a
    | some id => if inst.targetName = "" then a else
      { a with targetNameToInstance :=
          update a.targetNameToInstance inst.targetName (some id) }
  match id,cid with
  | some id,some cid =>
    if inst.role = "primary" then
      { a with clusterPrimaries :=
          update a.clusterPrimaries cid (id,(a.clusterPrimaries cid).2+1) }
    else a
  | _,_ => a

def addressesOf (c : Codec) (env : Envelope) : Addresses := env.instances.foldl (.add c) {}

/-- The transaction and the cache of address lookups, which live as long as the call. -/
@[ext]
structure Lookups where
  txn : Txn
  cache : String → Option UUID

/-- The lookup of an upstream by its name. A lookup that fails finds nothing. -/
def lookUpName (st : Store) (cluster : ℤ) (addr : String) (q : Lookups) : Option UUID × Lookups :=
  if addr = "" then (none,q) else
  let r := q.txn.query
  (if r.1 then st.byTargetName cluster addr else none,⟨r.2,q.cache⟩)

/-- The lookup by address and port, which takes a single row for an answer. -/
def lookUpHost (st : Store) (cluster : ℤ) (addr : String) (port : ℤ) (q : Lookups) :
    Option UUID × Lookups :=
  let r := q.txn.query
  (match (if r.1 then st.byAddr cluster addr port else []) with
    | [id] => some id
    | _ => none,⟨r.2,q.cache⟩)

def Lookups.remember (q : Lookups) (key : String) (answer : Option UUID) :
    Option UUID × Lookups :=
  match answer with
  | some id => (some id,{ q with cache := update q.cache key (some id) })
  | none => (none,q)

/-- The part of resolveAddr that asks the store. -/
def lookUpAddr (st : Store) (cluster : ℤ) (addr : String) (port : ℤ) (q : Lookups) :
    Option UUID × Lookups :=
  let r := lookUpName st cluster addr q
  let r := match r.1 with
    | some id => (some id,r.2)
    | none => lookUpHost st cluster addr port r.2
  r.2.remember (clusterAddr cluster (endpointKey addr port)) r.1

/-- What the envelope alone says about an address: `some none` that it names no instance. -/
def Addresses.resolve (a : Addresses) (cluster : ℤ) (addr : String) (port : ℤ) :
    Option (Option UUID) :=
  match a.targetNameToInstance addr,a.addrToInstance (endpointKey addr port) with
  | some id,_ => some (some id)
  | none,some id => some (some id)
  | none,none =>
    if port=0 then
      let key := clusterAddr cluster addr
      if a.ambiguousAddr key then some none else (a.addrOnly key).map some
    else none

def resolveAddr (a : Addresses) (st : Store) (cluster : ℤ) (addr : String) (port : ℤ)
    (q : Lookups) : Option UUID × Lookups :=
  match a.resolve cluster addr port with
  | some answer => (answer,q)
  | none =>
    match q.cache (clusterAddr cluster (endpointKey addr port)) with
    | some id => (some id,q)
    | none => lookUpAddr st cluster addr port q

def confidence (text : String) : Option Topology.Confidence :=
  if text = "high" then some .high else if text = "low" then some .low else none

/-- One edge of a standby: `none` when it is refused or its upstream is not known. -/
def resolveEdge (a : Addresses) (st : Store) (cid : ClusterID) (id : UUID) (we : Wire.Edge)
    (q : Lookups) : Option Topology.Edge × Lookups :=
  match confidence we.confidence with
  | none => (none,q)
  | some conf =>
    let r := resolveAddr a st cid.toInt we.toAddr we.port q
    -- A single primary of the cluster is an unambiguous upstream.
    let p := a.clusterPrimaries cid
    let upstream := r.1.orElse fun _ => if p.2=1 then some p.1 else none
    (upstream.map fun toID => ⟨id,toID,we.type,"",conf⟩,r.2)

def resolveEdges (a : Addresses) (st : Store) (cid : ClusterID) (id : UUID) :
    List Wire.Edge → Lookups → List Topology.Edge × Lookups
  | [],q => ([],q)
  | we::wes,q =>
    let r := resolveEdge a st cid id we q
    let rest := resolveEdges a st cid id wes r.2
    (r.1.toList++rest.1,rest.2)

/-- Only a standby has an upstream. -/
def upstreams (inst : Instance) : List Wire.Edge :=
  if inst.role = "standby" then inst.topologyEdges else []

end Pglens.Server

import Pglens.Lib.FinMap
import Pglens.Lib.Ranking
import Pglens.Lib.Text
import Mathlib.Data.Finset.Card
import Mathlib.Data.List.Dedup

/-! buildBlockingTree and blockedCount of web/src/lib/locks.ts. The maps have the text of a pid as
their key, and two pids with one text are one pid here, so keys are pids. An entry of the forest is
either a cycle marker, a reference, or the entry its session is expanded in. The last kind is
created once for a session, so its objects are addressed by the key; of the other kinds only the
session is read. -/
namespace Pglens.Locks
open Pglens.Lib

/-- The fields buildBlockingTree reads. A blocked_by that is absent is empty. -/
structure LockNode (K : Type) where
  pid : K
  blockedBy : List K
  deriving DecidableEq, Repr

/-- An element of the children of an entry. -/
inductive Child (K : Type)
  | tree (node : LockNode K)
  | cycle (node : LockNode K)
  | reference (node : LockNode K)
  deriving DecidableEq, Repr

def Child.node {K : Type} : Child K → LockNode K
  | .tree node | .cycle node | .reference node => node

/-- The texts of pids, and String.prototype.localeCompare with numeric collation. -/
structure Pids (K : Type) where
  keyOf : K → Text
  localeCompare : Text → Text → Ordering

/-- The maps place works on. `placed` has the children of each entry so far, and `referenced` the pairs
whose texts are in the set of that name. -/
structure Placement (K : Type) where
  placed : FinMap K (List (Child K))
  parentOf : FinMap K K
  rootOf : FinMap K K
  referenced : Finset (K × K)

structure Forest (K : Type) where
  entries : FinMap K (List (Child K))
  roots : List (LockNode K)

section Build
variable {K : Type} [DecidableEq K]

def known (nodes : List (LockNode K)) (key : K) : Bool := nodes.any fun node => node.pid == key

def compareByPID (pids : Pids K) (left right : LockNode K) : Bool :=
  pids.localeCompare (pids.keyOf left.pid) (pids.keyOf right.pid) == .lt

/-- The text that stands for a pair in `referenced`. -/
def pairText (pids : Pids K) (root child : K) : Text := pids.keyOf root++0x3e::pids.keyOf child

/-- One node joins the siblings of each of its known blockers. -/
def addSibling (nodes : List (LockNode K)) (children : FinMap K (List (LockNode K))) (node : LockNode K) :
    FinMap K (List (LockNode K)) :=
  (node.blockedBy.dedup.filter (known nodes)).foldl
    (fun children blocker => children.set blocker ((children.get blocker).getD []++[node])) children

/-- The map from a known blocker to its waiters, ordered by pid. -/
def childrenOf (sorter : SliceSort (LockNode K)) (pids : Pids K) (nodes : List (LockNode K)) :
    FinMap K (List (LockNode K)) :=
  (nodes.foldl (addSibling nodes) .empty).update fun _ siblings => sorter.sort (compareByPID pids) siblings

def waitersOf (sorter : SliceSort (LockNode K)) (pids : Pids K) (nodes : List (LockNode K)) (key : K) :
    List (LockNode K) :=
  ((childrenOf sorter pids nodes).get key).getD []

def Placement.empty : Placement K := ⟨.empty,.empty,.empty,∅⟩

/-- The walk of parentOf up from a key, none when the fuel does not reach its end. -/
def isAncestorOrSelf (parentOf : FinMap K K) (candidate : K) : ℕ → K → Option Bool
  | 0,_ => none
  | fuel+1,key =>
    if key=candidate then some true
    else match parentOf.get key with
      | none => some false
      | some up => isAncestorOrSelf parentOf candidate fuel up

def Placement.push (p : Placement K) (current : K) (child : Child K) : Placement K :=
  { p with placed := p.placed.set current ((p.placed.get current).getD []++[child]) }

/-- A session is placed under the current one. -/
def Placement.adopt (p : Placement K) (current root : K) (child : LockNode K) : Placement K :=
  Placement.push
    { p with
      placed := p.placed.set child.pid []
      parentOf := p.parentOf.set child.pid current
      rootOf := p.rootOf.set child.pid root } current (.tree child)

def visitChild (pids : Pids K) (fuel : ℕ) (current root : K)
    (st : Placement K × List (LockNode K)) (child : LockNode K) :
    Option (Placement K × List (LockNode K)) :=
  match st.1.placed.get child.pid with
  | none => some (st.1.adopt current root child,st.2++[child])
  | some _ => (isAncestorOrSelf st.1.parentOf child.pid fuel current).map fun ancestor =>
    if ancestor then (st.1.push current (.cycle child),st.2)
    else if st.1.rootOf.get child.pid ≠ some root then
      if ∃ pair∈st.1.referenced, pairText pids pair.1 pair.2 = pairText pids root child.pid then st
      else (Placement.push { st.1 with referenced := insert (root,child.pid) st.1.referenced } current
        (.reference child),st.2)
    else st

/-- The loop of place over its queue, none when the fuel does not reach. -/
def drain (pids : Pids K) (waiters : K → List (LockNode K)) (fuel : ℕ) :
    ℕ → List (LockNode K) → Placement K → Option (Placement K)
  | 0,queue,p => if queue.isEmpty then some p else none
  | n+1,queue,p => match queue with
    | [] => some p
    | current::queue =>
      ((waiters current.pid).foldlM
        (visitChild pids fuel current.pid ((p.rootOf.get current.pid).getD current.pid)) (p,queue)).bind
        fun r => drain pids waiters fuel n r.2 r.1

def Placement.start (p : Placement K) (node : LockNode K) : Placement K :=
  { p with placed := p.placed.set node.pid [], rootOf := p.rootOf.set node.pid node.pid }

/-- The loop of place over its starts. -/
def addStarts (starts : List (LockNode K)) (p : Placement K) : Placement K × List (LockNode K) :=
  starts.foldl (fun st node =>
    if (st.1.placed.get node.pid).isSome then st else (st.1.start node,st.2++[node])) (p,[])

def place (pids : Pids K) (waiters : K → List (LockNode K)) (fuel : ℕ)
    (starts : List (LockNode K)) (p : Placement K) :
    Option (Placement K × List (LockNode K)) :=
  let r := addStarts starts p
  (drain pids waiters fuel fuel r.2 r.1).map fun p => (p,r.2)

def hasKnownBlocker (nodes : List (LockNode K)) (node : LockNode K) : Bool := node.blockedBy.any (known nodes)

/-- The loop over the sessions that no unblocked one leads to. -/
def placeCycles (pids : Pids K) (waiters : K → List (LockNode K)) (fuel : ℕ) (unplaced : List (LockNode K))
    (st : Placement K × List (LockNode K)) : Option (Placement K × List (LockNode K)) :=
  unplaced.foldlM (fun st node =>
    if (st.1.placed.get node.pid).isSome then some st
    else (place pids waiters fuel [node] st.1).map fun r => (r.1,st.2++r.2)) st

/-- The placement that buildBlockingTree ends with, and its top entries. -/
def buildPlacement (sorter : SliceSort (LockNode K)) (pids : Pids K) (nodes : List (LockNode K)) :
    Option (Placement K × List (LockNode K)) :=
  let waiters := waitersOf sorter pids nodes
  let rootNodes := sorter.sort (compareByPID pids) (nodes.filter fun node => !hasKnownBlocker nodes node)
  (place pids waiters nodes.length rootNodes .empty).bind fun r =>
    placeCycles pids waiters nodes.length
      (sorter.sort (compareByPID pids) (nodes.filter fun node => !(r.1.placed.get node.pid).isSome)) r

def buildBlockingTree (sorter : SliceSort (LockNode K)) (pids : Pids K) (nodes : List (LockNode K)) :
    Option (Forest K) :=
  (buildPlacement sorter pids nodes).map fun r => ⟨r.1.placed,r.2⟩

/-- The visit of blockedCount, with the entries visited and the keys of the blocked sessions. -/
def Forest.visit (f : Forest K) : ℕ → K → Finset K × Finset K → Option (Finset K × Finset K)
  | 0,_,_ => none
  | fuel+1,key,st =>
    if key∈st.1 then some st
    else ((f.entries.get key).getD []).foldlM (fun st child => match child with
      | .cycle _ => some st
      | .tree node | .reference node => Forest.visit f fuel node.pid (st.1,insert node.pid st.2))
      (insert key st.1,st.2)

def blockedCount (f : Forest K) (roots : List (LockNode K)) : Option ℕ :=
  (roots.foldlM (fun st root => f.visit (f.entries.keys.card+1) root.pid st) (∅,∅)).map fun st => st.2.card

end Build

end Pglens.Locks

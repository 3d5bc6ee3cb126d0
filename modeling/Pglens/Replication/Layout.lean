import Pglens.Lib.Ranking
import Pglens.Lib.Traversal
import Pglens.Replication.Graph
import Mathlib.Data.Finset.Sort

/-! layoutGraph of web/src/lib/replication.ts. Its loop sets a depth again when it finds a smaller
one and queues the node once more. The queue is in the order of the depths, so that never happens
and the loop is a breadth-first search from the primaries. -/
namespace Pglens.Replication
open Pglens.Lib List FinMap

structure GraphPosition where
  x : ℕ
  y : ℕ
  deriving DecidableEq, Repr

structure PositionedReplicationNode extends ReplicationNode where
  position : GraphPosition
  deriving DecidableEq, Repr

structure PositionedReplicationGraph where
  nodes : List PositionedReplicationNode
  edges : List ReplicationGraphEdge
  deriving DecidableEq, Repr

/-- The order of nodes under a collation. A node without an address comes after those with one. -/
def nodeSort (localeCompare : String → String → Ordering) (a b : ReplicationNode) : Ordering :=
  (localeCompare (a.address.getD "\uffff") (b.address.getD "\uffff")).then (localeCompare a.id b.id)

def nodesByID (nodes : List ReplicationNode) : FinMap String ReplicationNode :=
  nodes.foldl (fun m node => m.set node.id node) .empty

def isPrimary (node : ReplicationNode) : Bool := node.role == some "primary"

/-- The upstream of an edge and its downstream. -/
def edgeParentChild (edge : ReplicationGraphEdge) (nodes : FinMap String ReplicationNode) : String × String :=
  let fromPrimary := (nodes.get edge.fromID).any isPrimary
  let toPrimary := (nodes.get edge.toID).any isPrimary
  if fromPrimary && !toPrimary then (edge.fromID,edge.toID)
  else if toPrimary && !fromPrimary then (edge.toID,edge.fromID)
  else (edge.toID,edge.fromID)

section Layout
variable (sorter : (α : Type) → SliceSort α) (localeCompare : String → String → Ordering)

/-- The comparison of ids by their nodes. Every id that is compared has one. -/
def byNode (nodes : List ReplicationNode) (a b : String) : Bool :=
  match (nodesByID nodes).get a,(nodesByID nodes).get b with
  | some nodeA,some nodeB => nodeSort localeCompare nodeA nodeB == .lt
  | _,_ => false

/-- The child of an edge joins the children of its parent. -/
def addChild (nodes : FinMap String ReplicationNode) (m : FinMap String (List String)) (edge : ReplicationGraphEdge) :
    FinMap String (List String) :=
  m.set (edgeParentChild edge nodes).1
    ((m.get (edgeParentChild edge nodes).1).getD []++[(edgeParentChild edge nodes).2])

def childrenOf (graph : ReplicationGraph) : FinMap String (List String) :=
  (graph.edges.foldl (addChild (nodesByID graph.nodes)) .empty).update
    fun _ children => (sorter String).sort (byNode localeCompare graph.nodes) children

def children (graph : ReplicationGraph) (parent : String) : List String :=
  ((childrenOf sorter localeCompare graph).get parent).getD []

/-- One child of the node at the front of the queue. -/
def relax (nextDepth : ℕ) (st : FinMap String ℕ × List String) (child : String) :
    FinMap String ℕ × List String :=
  match st.1.get child with
  | none => (st.1.set child nextDepth,st.2++[child])
  | some currentDepth => if nextDepth<currentDepth then (st.1.set child nextDepth,st.2++[child]) else st

/-- The loop over the queue, none when the fuel does not reach. -/
def walk (next : String → List String) : ℕ → FinMap String ℕ × List String → Option (FinMap String ℕ)
  | 0,st => if st.2.isEmpty then some st.1 else none
  | n+1,st => match st.2 with
    | [] => some st.1
    | parent::queue => walk next n ((next parent).foldl (relax ((st.1.get parent).getD 0+1)) (st.1,queue))

def primaryIDs (graph : ReplicationGraph) : List String :=
  (sorter String).sort (byNode localeCompare graph.nodes) ((graph.nodes.filter isPrimary).map ReplicationNode.id)

def startDepths (primaries : List String) : FinMap String ℕ := primaries.foldl (fun m id => m.set id 0) .empty

/-- The depth of every node. What no primary leads to is put below the primaries, or at the top without
one. -/
def depths (graph : ReplicationGraph) : Option (FinMap String ℕ) :=
  let primaries := primaryIDs sorter localeCompare graph
  (walk (children sorter localeCompare graph) graph.nodes.length (startDepths primaries,primaries)).map fun depth =>
    ((sorter ReplicationNode).sort (fun a b => nodeSort localeCompare a b == .lt)
      (graph.nodes.filter fun node => !(depth.get node.id).isSome)).foldl
      (fun m node => m.set node.id (if 0<primaries.length then 1 else 0)) depth

def rowOf (depth : FinMap String ℕ) (node : ReplicationNode) : ℕ := (depth.get node.id).getD 0

def addToRow (depth : FinMap String ℕ) (m : FinMap ℕ (List String)) (node : ReplicationNode) :
    FinMap ℕ (List String) :=
  m.set (rowOf depth node) ((m.get (rowOf depth node)).getD []++[node.id])

def rows (graph : ReplicationGraph) (depth : FinMap String ℕ) : FinMap ℕ (List String) :=
  (graph.nodes.foldl (addToRow depth) .empty).update
    fun _ row => (sorter String).sort (byNode localeCompare graph.nodes) row

def placements (rows : FinMap ℕ (List String)) : List (String × GraphPosition) :=
  (rows.keys.sort (· ≤ ·)).flatMap fun y => ((rows.get y).getD []).zipIdx.map fun r => (r.1,⟨r.2,y⟩)

def positions (rows : FinMap ℕ (List String)) : FinMap String GraphPosition :=
  (placements rows).foldl (fun m r => m.set r.1 r.2) .empty

def layoutGraph (graph : ReplicationGraph) : Option PositionedReplicationGraph :=
  (depths sorter localeCompare graph).map fun depth =>
    let placed := positions (rows sorter localeCompare graph depth)
    ⟨graph.nodes.map fun node => { node with position := (placed.get node.id).getD ⟨0,0⟩ },graph.edges⟩

end Layout

def searchOf (st : FinMap String ℕ × List String) : Search String := ⟨st.1.get,st.2⟩

lemma get_set_eq_update (m : FinMap String ℕ) (id : String) (d : ℕ) :
    (m.set id d).get = Function.update m.get id (some d) := by
  funext k
  by_cases hk : k=id
  · subst hk
    simp
  · rw [get_set_of_ne _ _ hk,Function.update_of_ne hk]

variable {n : ℕ} {st : FinMap String ℕ × List String}

lemma searchOf_relax (hbound : ∀ y e, st.1.get y=some e → e≤n)
    (child : String) : searchOf (relax n st child) = (searchOf st).meet n child := by
  cases hd : st.1.get child with
  | none =>
    simp only [relax,hd,searchOf,Search.meet,get_set_eq_update]
    rfl
  | some e =>
    have hle := hbound child e hd
    simp [relax,hd,searchOf,Search.meet,Nat.not_lt.mpr hle]

lemma searchOf_foldl (cs : List String) (hbound : ∀ y e, st.1.get y=some e → e≤n) :
    searchOf (cs.foldl (relax n) st) = cs.foldl (Search.meet n) (searchOf st) := by
  induction cs generalizing st with
  | nil => rfl
  | cons c cs ih =>
    rw [foldl_cons,foldl_cons,← searchOf_relax hbound c]
    refine ih fun y e he => ?_
    have hdepth : ((searchOf st).meet n c).depth y = some e := by
      rw [← searchOf_relax hbound]
      exact he
    rw [Search.meet] at hdepth
    split_ifs at hdepth
    · exact hbound y e hdepth
    · dsimp only at hdepth
      by_cases hy : y=c
      · rw [hy,Function.update_self] at hdepth
        exact (Option.some.inj hdepth).ge
      · rw [Function.update_of_ne hy] at hdepth
        exact hbound y e hdepth

lemma walk_spec {next : String → List String} {start : String → Prop} {t : Search String}
    (hsound : Search.Sound next start (searchOf st))
    (hrun : Search.run next n (searchOf st)=some t) :
    ∃ depth, walk next n st = some depth ∧ depth.get=t.depth := by
  induction n generalizing st with
  | zero =>
    rw [Search.run] at hrun
    split_ifs at hrun with hempty
    cases hrun
    exact ⟨st.1,if_pos hempty,rfl⟩
  | succ n ih =>
    obtain ⟨m,queue⟩ := st
    cases queue with
    | nil =>
      cases hrun
      exact ⟨m,rfl,rfl⟩
    | cons parent queue =>
      obtain ⟨d,hd⟩ := hsound.queued parent (by simp [searchOf])
      have hd' : m.get parent = some d := hd
      have hfold : searchOf ((next parent).foldl (relax ((m.get parent).getD 0+1)) (m,queue)) =
          Search.expand next parent { searchOf (m,parent::queue) with queue := queue } := by
        rw [searchOf_foldl]
        · rfl
        · intro y e he
          rw [hd',Option.getD_some]
          exact hsound.span parent queue d rfl hd y e he
      have hrun' : Search.run next n
          (searchOf ((next parent).foldl (relax ((m.get parent).getD 0+1)) (m,queue))) = some t := by
        rw [hfold]
        exact hrun
      exact ih (hfold ▸ hsound.expand rfl) hrun'

/-- The edges lead from one node to the other. -/
def ParentChild (graph : ReplicationGraph) (parent child : String) : Prop :=
  ∃ e∈graph.edges, edgeParentChild e (nodesByID graph.nodes) = (parent,child)

def Primary (graph : ReplicationGraph) (id : String) : Prop := ∃ n∈graph.nodes, isPrimary n = true ∧ n.id=id

section Depths
variable (sorter : (α : Type) → SliceSort α) (localeCompare : String → String → Ordering)
  {graph : ReplicationGraph}

lemma mem_children {x y : String} :
    y ∈ children sorter localeCompare graph x ↔ ParentChild graph x y := by
  have hpush : ((graph.edges.foldl (addChild (nodesByID graph.nodes)) .empty).get x).getD [] = _ :=
    getD_foldl_push (fun e => (edgeParentChild e (nodesByID graph.nodes)).1)
      (fun e => (edgeParentChild e (nodesByID graph.nodes)).2) graph.edges .empty x
  have hsort : children sorter localeCompare graph x = _ :=
    (sorter String).getD_map_sort (byNode localeCompare graph.nodes)
      ((graph.edges.foldl (addChild (nodesByID graph.nodes)) .empty).get x)
  rw [hsort,SliceSort.mem_sort,hpush,get_empty]
  simp [ParentChild,Prod.ext_iff,and_assoc]

lemma edgeParentChild_mem (e : ReplicationGraphEdge) (nodes : FinMap String ReplicationNode) :
    (edgeParentChild e nodes).2 = e.fromID ∨ (edgeParentChild e nodes).2 = e.toID := by
  simp only [edgeParentChild]
  split_ifs <;> simp

lemma mem_primaryIDs {x : String} :
    x ∈ primaryIDs sorter localeCompare graph ↔ Primary graph x := by
  rw [primaryIDs,SliceSort.mem_sort]
  simp [Primary,and_assoc]

lemma get_startDepths {primaries : List String} (hnodup : primaries.Nodup) (x : String) (d : ℕ) :
    (startDepths primaries).get x = some d ↔ x∈primaries ∧ d=0 := by
  by_cases hx : x∈primaries
  · have hget : (startDepths primaries).get x = some 0 :=
      get_foldl_set_of_mem (fun x => x) (fun _ => 0) (by simpa using hnodup) hx .empty
    simp [hget,hx,eq_comm]
  · have hget : (startDepths primaries).get x = none :=
      get_foldl_set_of_notMem (fun x => x) (fun _ => 0) (by simpa using hx) .empty
    simp [hget,hx]

/-- The loop ends, and a node that a primary leads to gets its distance from the primaries. -/
theorem depths_spec (hids : (graph.nodes.map ReplicationNode.id).Nodup)
    (hends : ∀ e∈graph.edges, e.fromID ∈ graph.nodes.map ReplicationNode.id ∧
      e.toID ∈ graph.nodes.map ReplicationNode.id) :
    ∃ depth, depths sorter localeCompare graph = some depth ∧
      ∀ x d, Distance (ParentChild graph) (Primary graph) d x → depth.get x = some d := by
  set primaries := primaryIDs sorter localeCompare graph with hprimaries
  have hnodup : primaries.Nodup := (sorter String).nodup_sort _ (hids.sublist (filter_sublist.map _))
  have hsound : Search.Sound (children sorter localeCompare graph) (Primary graph)
      (searchOf (startDepths primaries,primaries)) := by
    refine Search.sound_starts _ (fun x d => ?_) fun x => mem_primaryIDs sorter localeCompare
    rw [← mem_primaryIDs sorter localeCompare]
    exact get_startDepths hnodup x d
  have hwithin : Search.Within (children sorter localeCompare graph) (graph.nodes.map ReplicationNode.id).toFinset
      (searchOf (startDepths primaries,primaries)) := by
    constructor
    · intro x _ y hy
      obtain ⟨e,he,hpair⟩ := (mem_children sorter localeCompare).mp hy
      obtain hend | hend := edgeParentChild_mem e (nodesByID graph.nodes)
      · obtain rfl : y=e.fromID := by simpa [hpair] using hend
        exact mem_toFinset.mpr (hends e he).1
      · obtain rfl : y=e.toID := by simpa [hpair] using hend
        exact mem_toFinset.mpr (hends e he).2
    · intro x hx
      obtain ⟨n,hn,_,rfl⟩ := (mem_primaryIDs sorter localeCompare).mp hx
      exact mem_toFinset.mpr (mem_map_of_mem hn)
  have hpotential : Search.potential (graph.nodes.map ReplicationNode.id).toFinset
      (searchOf (startDepths primaries,primaries)) ≤ graph.nodes.length := by
    refine (Search.potential_le hnodup fun x hx => ⟨hwithin.queue x hx,hsound.queued x hx⟩).trans ?_
    exact (toFinset_card_le _).trans (length_map ..).le
  obtain ⟨t,hrun,ht⟩ := Search.run_of_potential hwithin hpotential
  obtain ⟨depth,hwalk,hdepth⟩ := walk_spec hsound hrun
  refine ⟨_,by rw [depths,← hprimaries,hwalk]; rfl,fun x d hdist => ?_⟩
  have hnext : (fun x y => y ∈ children sorter localeCompare graph x) = ParentChild graph := by
    funext x y
    exact propext (mem_children sorter localeCompare)
  have hx : depth.get x = some d := by
    rw [hdepth]
    refine ((hsound.run hrun).depth_iff ht x d).mpr ?_
    rwa [hnext]
  -- only nodes without a depth are written after the loop
  rw [get_foldl_set_of_notMem ReplicationNode.id,hx]
  intro hmem
  obtain ⟨n,hn,rfl⟩ := mem_map.mp hmem
  rw [SliceSort.mem_sort,mem_filter,hx] at hn
  simp at hn

end Depths

/-- The rows are lists of different ids, and no id is in two of them. -/
structure Layered (rows : FinMap ℕ (List String)) : Prop where
  nodup : ∀ y, ((rows.get y).getD []).Nodup
  disjoint : ∀ y y' id, id ∈ (rows.get y).getD [] → id ∈ (rows.get y').getD [] → y=y'

lemma nodup_placements {rows : FinMap ℕ (List String)} (h : Layered rows) :
    ((placements rows).map Prod.fst).Nodup := by
  have hrow : ∀ y, (((rows.get y).getD []).zipIdx.map fun r => (r.1,(⟨r.2,y⟩ : GraphPosition))).map Prod.fst =
      (rows.get y).getD [] := by
    intro y
    rw [map_map]
    exact zipIdx_map_fst 0 _
  rw [placements,map_flatMap,nodup_flatMap]
  constructor
  · intro y _
    rw [hrow]
    exact h.nodup y
  · refine (Finset.sort_nodup _ _).imp fun {y y'} hne id hid hid' => hne ?_
    exact h.disjoint y y' id (hrow y ▸ hid) (hrow y' ▸ hid')

lemma get_positions {rows : FinMap ℕ (List String)} (h : Layered rows) {x y : ℕ} {id : String}
    (hid : ((rows.get y).getD [])[x]?=some id) : (positions rows).get id = some ⟨x,y⟩ := by
  have hkey : y∈rows.keys := by
    rw [rows.mem_keys]
    cases hrow : rows.get y with
    | some row => rfl
    | none =>
      rw [hrow] at hid
      simp at hid
  have hmem : (id,(⟨x,y⟩ : GraphPosition)) ∈ placements rows :=
    mem_flatMap.mpr ⟨y,(Finset.mem_sort _).mpr hkey,
      mem_map.mpr ⟨(id,x),mk_mem_zipIdx_iff_getElem?.mpr hid,rfl⟩⟩
  exact get_foldl_set_of_mem Prod.fst Prod.snd (nodup_placements h) hmem .empty

section Rows
variable (sorter : (α : Type) → SliceSort α) (localeCompare : String → String → Ordering)
  {graph : ReplicationGraph}

lemma getD_rows (depth : FinMap String ℕ) (y : ℕ) :
    ((rows sorter localeCompare graph depth).get y).getD [] =
    (sorter String).sort (byNode localeCompare graph.nodes)
      ((graph.nodes.filter fun n => rowOf depth n=y).map ReplicationNode.id) := by
  have hpush : ((graph.nodes.foldl (addToRow depth) .empty).get y).getD [] = _ :=
    getD_foldl_push (rowOf depth) ReplicationNode.id graph.nodes .empty y
  rw [get_empty,Option.getD_none,nil_append] at hpush
  rw [← hpush]
  exact (sorter String).getD_map_sort (byNode localeCompare graph.nodes) _

lemma mem_row {depth : FinMap String ℕ} {y : ℕ} {id : String} :
    id ∈ ((rows sorter localeCompare graph depth).get y).getD [] ↔
        ∃ n∈graph.nodes, rowOf depth n = y ∧ n.id=id := by
  rw [getD_rows,SliceSort.mem_sort]
  simp [and_assoc]

variable (hids : (graph.nodes.map ReplicationNode.id).Nodup)
include hids

lemma layered_rows (depth : FinMap String ℕ) :
    Layered (rows sorter localeCompare graph depth) := by
  constructor
  · intro y
    rw [getD_rows]
    exact (sorter String).nodup_sort _ (hids.sublist (filter_sublist.map _))
  · intro y y' id hid hid'
    obtain ⟨n,_,rfl,rfl⟩ := (mem_row sorter localeCompare).mp hid
    obtain ⟨n',_,rfl,heq⟩ := (mem_row sorter localeCompare).mp hid'
    rw [rowOf,rowOf,heq]

lemma position_spec (depth : FinMap String ℕ)
    {n : ReplicationNode} (hn : n∈graph.nodes) : ∃ x,
      (positions (rows sorter localeCompare graph depth)).get n.id = some ⟨x,rowOf depth n⟩ ∧
        (((rows sorter localeCompare graph depth).get (rowOf depth n)).getD [])[x]? = some n.id := by
  obtain ⟨x,hx⟩ := getElem?_of_mem ((mem_row sorter localeCompare).mpr ⟨n,hn,rfl,rfl⟩)
  exact ⟨x,get_positions (layered_rows sorter localeCompare hids depth) hx,hx⟩

lemma position_inj (depth : FinMap String ℕ)
    {n n' : ReplicationNode} (hn : n∈graph.nodes) (hn' : n'∈graph.nodes)
    (heq : (positions (rows sorter localeCompare graph depth)).get n.id =
      (positions (rows sorter localeCompare graph depth)).get n'.id) : n=n' := by
  obtain ⟨x,hpos,hx⟩ := position_spec sorter localeCompare hids depth hn
  obtain ⟨x',hpos',hx'⟩ := position_spec sorter localeCompare hids depth hn'
  rw [hpos,hpos',Option.some.injEq,GraphPosition.mk.injEq] at heq
  obtain ⟨rfl,hrow⟩ := heq
  rw [hrow,hx'] at hx
  exact inj_on_of_nodup_map hids hn hn' (Option.some.inj hx).symm

end Rows

/-- The layout has every edge, between the nodes of its endpoints, and every instance with a node
for each unknown endpoint. Positions are different, the primaries are in the first row, and what
they lead to is in the row of its distance from them. -/
theorem layout_by_distance (sorter : (α : Type) → SliceSort α) (localeCompare : String → String → Ordering)
    (instances : List InstanceSummary) (topology : List TopologyEdge)
    (hdistinct : (instances.map InstanceSummary.instanceID).Nodup) : ∃ graph out,
      graph = buildGraph instances topology ∧ layoutGraph sorter localeCompare graph = some out ∧
      out.edges = graph.edges ∧ List.Forall₂ (Draws instances graph.nodes) topology.zipIdx out.edges ∧
      out.nodes.map PositionedReplicationNode.toReplicationNode = graph.nodes ∧
      (∃ added, graph.nodes=instances.map instanceNode++added ∧
          ∀ n∈added, ∃ id, n=unresolvedNode id) ∧
      (out.nodes.map fun n => n.id).Nodup ∧ (out.nodes.map PositionedReplicationNode.position).Nodup ∧
      (∀ n∈out.nodes, n.role=some "primary" → n.position.y=0) ∧
      ∀ n∈out.nodes, ∀ d, Distance (ParentChild graph) (Primary graph) d n.id → n.position.y=d := by
  obtain ⟨hext,hdraws⟩ := buildGraph_spec instances topology
  generalize buildGraph instances topology = graph at hext hdraws
  have hids : (graph.nodes.map ReplicationNode.id).Nodup := by
    refine hext.nodup ?_
    rw [map_map]
    exact hdistinct
  have hends : ∀ e∈graph.edges, e.fromID ∈ graph.nodes.map ReplicationNode.id ∧
      e.toID ∈ graph.nodes.map ReplicationNode.id := by
    refine ((forall₂_and_left _ _).mp (hdraws.flip.imp fun drawn e hdrawn => ⟨?_,hdrawn⟩)).1
    obtain ⟨source,target,rfl,hsource,htarget⟩ := hdrawn
    exact ⟨hsource.node,htarget.node⟩
  obtain ⟨depth,hdepths,hdistance⟩ := depths_spec sorter localeCompare hids hends
  set placed := positions (rows sorter localeCompare graph depth) with hplaced
  have hlayout : layoutGraph sorter localeCompare graph = some ⟨graph.nodes.map fun node =>
      { node with position := (placed.get node.id).getD ⟨0,0⟩ },graph.edges⟩ := by
    rw [layoutGraph,hdepths]
    rfl
  have hrow : ∀ n∈graph.nodes, ∀ d, Distance (ParentChild graph) (Primary graph) d n.id →
      ((placed.get n.id).getD ⟨0,0⟩).y = d := by
    intro n hn d hdist
    obtain ⟨x,hpos,_⟩ := position_spec sorter localeCompare hids depth hn
    rw [hplaced,hpos,Option.getD_some,rowOf,hdistance n.id d hdist,Option.getD_some]
  refine ⟨graph,_,rfl,hlayout,rfl,hdraws,?_,hext.added,?_,?_,fun n hn hprimary => ?_,fun n hn d hdist => ?_⟩
  · rw [map_map]
    exact map_id _
  · rw [map_map]
    exact hids
  · rw [map_map]
    refine List.Nodup.map_on (fun n hn n' hn' heq => ?_) hids.of_map
    refine position_inj sorter localeCompare hids depth hn hn' ?_
    obtain ⟨x,hpos,_⟩ := position_spec sorter localeCompare hids depth hn
    obtain ⟨x',hpos',_⟩ := position_spec sorter localeCompare hids depth hn'
    have hsame : (placed.get n.id).getD ⟨0,0⟩ = (placed.get n'.id).getD ⟨0,0⟩ := heq
    rw [hplaced,hpos,hpos'] at hsame
    rw [hpos,hpos']
    exact congrArg some hsame
  · obtain ⟨m,hm,rfl⟩ := mem_map.mp hn
    have hstart : Primary graph m.id := ⟨m,hm,by simpa [isPrimary] using hprimary,rfl⟩
    exact hrow m hm 0 ⟨.start hstart,fun _ _ => Nat.zero_le _⟩
  · obtain ⟨m,hm,rfl⟩ := mem_map.mp hn
    exact hrow m hm d hdist

/-- A standby of a primary, and a standby that reports an upstream nobody monitors. -/
theorem layout_by_distance_unknown : ∃ graph out,
    graph = buildGraph [⟨"p","10.0.0.1",5432,"primary",17,.T0,true⟩,⟨"s","10.0.0.2",5432,"standby",17,.T0,true⟩]
      [⟨"s","p","physical",none,.high,none⟩,⟨"s","x","physical",none,.low,some none⟩] ∧
    layoutGraph SliceSort.insertion compare graph = some out ∧ out.edges=graph.edges ∧
    (out.nodes.map PositionedReplicationNode.position).Nodup := by
  obtain ⟨graph,out,hgraph,hlayout,hedges,_,_,_,_,hpositions,_⟩ := layout_by_distance SliceSort.insertion compare
    [⟨"p","10.0.0.1",5432,"primary",17,.T0,true⟩,⟨"s","10.0.0.2",5432,"standby",17,.T0,true⟩]
    [⟨"s","p","physical",none,.high,none⟩,⟨"s","x","physical",none,.low,some none⟩] (by decide)
  exact ⟨graph,out,hgraph,hlayout,hedges,hpositions⟩

end Pglens.Replication

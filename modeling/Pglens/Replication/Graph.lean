import Pglens.Topology.Engine
import Mathlib.Data.List.Nodup
import Mathlib.Data.List.Forall2

/-! buildGraph of web/src/lib/replication.ts. The map `known` gets an entry with every node that is
pushed, so it has the ids of the nodes. -/
namespace Pglens.Replication
open Pglens.Lib List

inductive PermTier
  | T0
  | T1
  | T2
  deriving DecidableEq, Repr

/-- The fields of an instance that buildGraph reads. -/
structure InstanceSummary where
  instanceID : String
  addr : String
  port : ℤ
  role : String
  pgVersion : ℤ
  permTier : PermTier
  up : Bool
  deriving DecidableEq, Repr

/-- A field that may be absent or null is an option of an option. -/
structure TopologyEdge where
  fromID : String
  toID : String
  type : String
  syncState : Option (Option String)
  confidence : Topology.Confidence
  note : Option (Option String)
  deriving DecidableEq, Repr

structure ReplicationNode where
  id : String
  role : Option String
  address : Option String
  port : Option ℤ
  version : Option ℤ
  tier : Option PermTier
  up : Option Bool
  unresolved : Bool := false
  deriving DecidableEq, Repr

structure ReplicationGraphEdge where
  id : String
  fromID : String
  toID : String
  type : String
  syncState : Option String
  confidence : Topology.Confidence
  note : Option (Option String)
  deriving DecidableEq, Repr

structure ReplicationGraph where
  nodes : List ReplicationNode
  edges : List ReplicationGraphEdge
  deriving DecidableEq, Repr

def unresolvedNode (id : String) : ReplicationNode where
  id := "unresolved:"++id
  role := some "unresolved"
  address := none
  port := none
  version := none
  tier := none
  up := none
  unresolved := true

def instanceNode (i : InstanceSummary) : ReplicationNode where
  id := i.instanceID
  role := some i.role
  address := some i.addr
  port := some i.port
  version := some i.pgVersion
  tier := some i.permTier
  up := some i.up

def known (nodes : List ReplicationNode) (id : String) : Bool := nodes.any fun node => node.id == id

/-- The id an endpoint has in the graph, with the nodes after it. -/
def edgeEndpoint (id : String) (nodes : List ReplicationNode) : String × List ReplicationNode :=
  if known nodes id then (id,nodes)
  else if known nodes ("unresolved:"++id) then ("unresolved:"++id,nodes)
  else ("unresolved:"++id,nodes++[unresolvedNode id])

/-- The edge of a topology edge between two endpoints. -/
def graphEdge (e : TopologyEdge) (index : ℕ) (source target : String) : ReplicationGraphEdge where
  id := "edge-"++toString index++"-"++source++"-"++target
  fromID := source
  toID := target
  type := e.type
  syncState := e.syncState.getD none
  confidence := e.confidence
  note := e.note

/-- One round of the loop over the topology. -/
def addEdge (st : List ReplicationNode × List ReplicationGraphEdge) (e : TopologyEdge × ℕ) :
    List ReplicationNode × List ReplicationGraphEdge :=
  let source := edgeEndpoint e.1.fromID st.1
  let target := edgeEndpoint e.1.toID source.2
  (target.2,st.2++[graphEdge e.1 e.2 source.1 target.1])

def buildGraph (instances : List InstanceSummary) (topology : List TopologyEdge) : ReplicationGraph :=
  let r := topology.zipIdx.foldl addEdge (instances.map instanceNode,[])
  ⟨r.1,r.2⟩

/-- An endpoint is the node with its id, or an unresolved one when no instance has it. -/
structure Resolves (instances : List InstanceSummary) (nodes : List ReplicationNode) (id endpoint : String) : Prop where
  named : endpoint=id ∨ (endpoint = "unresolved:"++id ∧ id ∉ instances.map InstanceSummary.instanceID)
  node : endpoint ∈ nodes.map ReplicationNode.id

/-- The graph has a topology edge between the nodes of its endpoints. -/
def Draws (instances : List InstanceSummary) (nodes : List ReplicationNode) (e : TopologyEdge × ℕ)
    (drawn : ReplicationGraphEdge) : Prop :=
  ∃ source target, drawn = graphEdge e.1 e.2 source target ∧ Resolves instances nodes e.1.fromID source ∧
    Resolves instances nodes e.1.toID target

/-- The nodes after some endpoints: those before and unresolved ones, with different ids. -/
structure Extends (nodes nodes' : List ReplicationNode) : Prop where
  added : ∃ added : List ReplicationNode, nodes' = nodes++added ∧ ∀ n∈added, ∃ id, n = unresolvedNode id
  nodup : (nodes.map ReplicationNode.id).Nodup → (nodes'.map ReplicationNode.id).Nodup

lemma Extends.refl (nodes : List ReplicationNode) : Extends nodes nodes := ⟨⟨[],by simp,by simp⟩,id⟩

variable {nodes nodes' : List ReplicationNode} {id : String} {instances : List InstanceSummary}

lemma Extends.trans {nodes'' : List ReplicationNode} (h : Extends nodes nodes')
    (h' : Extends nodes' nodes'') : Extends nodes nodes'' := by
  obtain ⟨added,rfl,hadded⟩ := h.added
  obtain ⟨added',rfl,hadded'⟩ := h'.added
  refine ⟨⟨added++added',by simp,fun n hn => ?_⟩,h'.nodup ∘ h.nodup⟩
  exact (mem_append.mp hn).elim (hadded n) (hadded' n)

lemma Extends.ids (h : Extends nodes nodes')
    (hid : id ∈ nodes.map ReplicationNode.id) : id ∈ nodes'.map ReplicationNode.id := by
  obtain ⟨added,rfl,_⟩ := h.added
  rw [map_append]
  exact mem_append_left _ hid

lemma Resolves.mono {endpoint : String} (h : Resolves instances nodes id endpoint)
    (hext : Extends nodes nodes') : Resolves instances nodes' id endpoint :=
  ⟨h.named,hext.ids h.node⟩

lemma known_iff : known nodes id = true ↔ id ∈ nodes.map ReplicationNode.id := by
  simp [known]

lemma edgeEndpoint_spec
    (hinstances : ∀ i∈instances, i.instanceID ∈ nodes.map ReplicationNode.id) (id : String) :
    Extends nodes (edgeEndpoint id nodes).2 ∧
      Resolves instances (edgeEndpoint id nodes).2 id (edgeEndpoint id nodes).1 := by
  rw [edgeEndpoint]
  by_cases hknown : known nodes id = true
  · rw [if_pos hknown]
    exact ⟨.refl nodes,.inl rfl,known_iff.mp hknown⟩
  rw [if_neg hknown]
  have hother : id ∉ instances.map InstanceSummary.instanceID := by
    intro hid
    obtain ⟨i,hi,rfl⟩ := mem_map.mp hid
    exact hknown (known_iff.mpr (hinstances i hi))
  by_cases hunresolved : known nodes ("unresolved:"++id) = true
  · rw [if_pos hunresolved]
    exact ⟨.refl nodes,.inr ⟨rfl,hother⟩,known_iff.mp hunresolved⟩
  rw [if_neg hunresolved]
  refine ⟨⟨⟨[unresolvedNode id],rfl,by simp⟩,fun hnodup => ?_⟩,.inr ⟨rfl,hother⟩,
      by simp [unresolvedNode]⟩
  rw [known_iff] at hunresolved
  rw [map_append]
  exact nodup_append.mpr ⟨hnodup,by simp,by simpa [unresolvedNode] using hunresolved⟩

lemma foldl_addEdge (topology : List (TopologyEdge × ℕ))
    (hinstances : ∀ i∈instances, i.instanceID ∈ nodes.map ReplicationNode.id)
    (edges : List ReplicationGraphEdge) :
    Extends nodes (topology.foldl addEdge (nodes,edges)).1 ∧ ∃ drawn,
      (topology.foldl addEdge (nodes,edges)).2 = edges++drawn ∧
        List.Forall₂ (Draws instances (topology.foldl addEdge (nodes,edges)).1) topology drawn := by
  induction topology generalizing nodes edges with
  | nil => exact ⟨.refl nodes,[],by simp,.nil⟩
  | cons e topology ih =>
    obtain ⟨hsource,hfrom⟩ := edgeEndpoint_spec hinstances e.1.fromID
    obtain ⟨htarget,hto⟩ := edgeEndpoint_spec (fun i hi => hsource.ids (hinstances i hi)) e.1.toID
    obtain ⟨hext,drawn,hedges,hdrawn⟩ := ih (fun i hi => htarget.ids (hsource.ids (hinstances i hi)))
      (edges++[graphEdge e.1 e.2 (edgeEndpoint e.1.fromID nodes).1
        (edgeEndpoint e.1.toID (edgeEndpoint e.1.fromID nodes).2).1])
    have hdraws : Draws instances ((e::topology).foldl addEdge (nodes,edges)).1 e
        (graphEdge e.1 e.2 (edgeEndpoint e.1.fromID nodes).1
          (edgeEndpoint e.1.toID (edgeEndpoint e.1.fromID nodes).2).1) :=
      ⟨_,_,rfl,hfrom.mono (htarget.trans hext),hto.mono hext⟩
    refine ⟨(hsource.trans htarget).trans hext,_,?_,.cons hdraws hdrawn⟩
    rw [append_cons]
    exact hedges

lemma buildGraph_spec (instances : List InstanceSummary) (topology : List TopologyEdge) :
    Extends (instances.map instanceNode) (buildGraph instances topology).nodes ∧
      List.Forall₂ (Draws instances (buildGraph instances topology).nodes) topology.zipIdx
        (buildGraph instances topology).edges := by
  have hinstances : ∀ i∈instances, i.instanceID ∈ (instances.map instanceNode).map ReplicationNode.id := by
    intro i hi
    rw [map_map]
    exact mem_map_of_mem hi
  obtain ⟨hext,drawn,hedges,hdrawn⟩ := foldl_addEdge topology.zipIdx hinstances []
  refine ⟨hext,?_⟩
  rw [nil_append] at hedges
  rw [buildGraph,hedges]
  exact hdrawn

end Pglens.Replication

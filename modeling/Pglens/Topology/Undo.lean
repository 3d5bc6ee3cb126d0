import Pglens.Topology.Engine
import Mathlib.Tactic.SplitIfs

/-! ApplyUndoable marks what an observation can change before and after it is applied, and its undo
puts back, piece by piece, what still holds what was written. With nothing in between it is the
inverse of `apply`, up to the addresses that were handed out. -/
namespace Pglens.Topology
open Pglens.Lib Function Option

/-- What `apply` can change for one instance and its cluster: the pointer with a copy of
the state behind it, and the entries of the cluster. -/
structure TopoMark where
  inst : Option InstancePtr
  lastPrim : Option LastPrimaryInfo
  failover : Option Time
  splitBrain : Option Time

def Engine.mark (e : Engine) (id : InstanceID) (c : ClusterID) : TopoMark :=
  ⟨e.instances.get id,e.lastPrimary c,e.lastFailoverTime c,e.lastSplitBrain c⟩

def sameObservation (a b : Observation) : Bool :=
  decide (a.instanceID=b.instanceID) && decide (a.clusterID=b.clusterID) &&
    decide (a.role=b.role) && decide (a.priorRole=b.priorRole) &&
    a.timestamp.equal b.timestamp && decide (a.edges=b.edges)

def sameInstanceState (a b : InstanceState) : Bool :=
  decide (a.role=b.role) && decide (a.clusterID=b.clusterID) &&
    a.timestamp.equal b.timestamp && a.orphanAt.equal b.orphanAt &&
    a.orphanedAt.equal b.orphanedAt && decide (a.quietCycles=b.quietCycles) &&
    a.orphanSeenAt.equal b.orphanSeenAt && a.orphanSeenSent.equal b.orphanSeenSent &&
    sameObservation a.lastObs b.lastObs &&
    FinMap.equalFunc Time.equal a.edgeSeenAt b.edgeSeenAt

/-- Puts back a per-cluster time unless it no longer holds what was written. -/
def revertTime (m : ClusterID → Option Time) (c : ClusterID) (before written : Option Time) :
    ClusterID → Option Time :=
  match m c,written with
  | none,none => update m c before
  | some cur,some t => if cur.equal t then update m c before else m
  | _,_ => m

/-- The instance part of `revert`: the state behind the pointer is put back, and the index
with it. -/
def Engine.revertInstance (e : Engine) (id : InstanceID) (before written : Option InstancePtr) :
    Engine :=
  match e.instances.get id,written with
  | some live,some w =>
    if live.addr=w.addr ∧ sameInstanceState live.state w.state then
      let index := dropFrom e.clusterInstances w.state.clusterID id
      match before with
      | none => { e with instances := e.instances.erase id, clusterInstances := index }
      | some b => { e with
          instances := e.instances.set id ⟨live.addr,b.state⟩
          clusterInstances := addTo index b.state.clusterID id }
    else e
  | _,_ => e

def Engine.revert (e : Engine) (id : InstanceID) (c : ClusterID) (before written : TopoMark) :
    Engine :=
  let e := e.revertInstance id before.inst written.inst
  { e with
    lastPrimary :=
      if (e.lastPrimary c).map LastPrimaryInfo.addr=written.lastPrim.map LastPrimaryInfo.addr
      then update e.lastPrimary c before.lastPrim else e.lastPrimary
    lastFailoverTime := revertTime e.lastFailoverTime c before.failover written.failover
    lastSplitBrain := revertTime e.lastSplitBrain c before.splitBrain written.splitBrain }

structure Undo where
  instanceID : InstanceID
  clusterID : ClusterID
  before : TopoMark
  written : TopoMark

def Undo.run (u : Undo) (e : Engine) : Engine := e.revert u.instanceID u.clusterID u.before u.written

def Engine.applyUndoable (e : Engine) (now : Time) (obs : Observation) :
    List Event × Undo × Engine :=
  let r := e.apply now obs
  (r.1,⟨obs.instanceID,obs.clusterID,e.mark obs.instanceID obs.clusterID,
    r.2.mark obs.instanceID obs.clusterID⟩,r.2)

def undoAll (undos : List Undo) (e : Engine) : Engine := undos.foldl (fun e u => u.run e) e

lemma sameInstanceState_refl (s : InstanceState) : sameInstanceState s s = true := by
  simp [sameInstanceState,sameObservation,FinMap.equalFunc_refl]

lemma revertTime_written (m : ClusterID → Option Time) (c : ClusterID) (before : Option Time) :
    revertTime m c before (m c) = update m c before := by
  cases h : m c <;> simp [revertTime,h]

/-- The cluster index is exact: an instance is in it under the cluster it is tracked with. -/
def Engine.Indexed (e : Engine) : Prop :=
  ∀ id c, id ∈ e.clusterInstances c ↔ ∃ p, e.instances.get id = some p ∧ p.state.clusterID=c

lemma newEngine_indexed : newEngine.Indexed := by
  intro id c
  simp [newEngine]

section Evict
variable (e : Engine) (before : Time) (c : ClusterID)

lemma evict_lastPrimary : (e.evict before).lastPrimary c =
    if e.liveCluster before c then e.lastPrimary c else none := by simp only [Engine.evict]

lemma evict_lastFailoverTime : (e.evict before).lastFailoverTime c =
    if e.liveCluster before c then e.lastFailoverTime c else none := by simp only [Engine.evict]

lemma evict_lastSplitBrain : (e.evict before).lastSplitBrain c =
    if e.liveCluster before c then e.lastSplitBrain c else none := by simp only [Engine.evict]

end Evict

variable {e e' : Engine} {before : Time} {id i : InstanceID} {index : ClusterID → Finset InstanceID}
  {c c' : ClusterID} {obs : Observation}

lemma evict_get_stale
    (h : ∀ p, e.instances.get id=some p → p.state.timestamp.before before=true) :
    (e.evict before).instances.get id = none := by
  cases hg : e.instances.get id with
  | none => simp [Engine.evict,hg]
  | some p => simpa [Engine.evict,hg] using h p hg

lemma evict_get_fresh {p : InstancePtr}
    (h : e.instances.get id=some p) (hp : p.state.timestamp.before before=false) :
    ∃ seen, (e.evict before).instances.get id =
      some ⟨p.addr,{ p.state with edgeSeenAt := seen }⟩ := by
  have hns := (Time.before_eq_false_iff _ _).mp hp
  simpa [Engine.evict,h] using hns

lemma evict_indexed (h : e.Indexed) (before : Time) : (e.evict before).Indexed := by
  intro id c
  have hmem : id ∈ (e.evict before).clusterInstances c ↔ e.liveCluster before c = true ∧
      id ∈ e.clusterInstances c ∧ ((e.instances.get id).map fun p =>
        p.state.timestamp.before before && decide (p.state.clusterID=c)) ≠ some true := by
    by_cases hl : e.liveCluster before c = true <;> simp [Engine.evict,hl]
  rw [hmem,h id c]
  constructor
  · rintro ⟨-,⟨p,hp,hpc⟩,hlive⟩
    have hb : p.state.timestamp.before before = false := by simpa [hp,hpc] using hlive
    obtain ⟨seen,hget⟩ := evict_get_fresh hp hb
    exact ⟨_,hget,hpc⟩
  · rintro ⟨q,hq,hqc⟩
    obtain ⟨p,hp,hb⟩ : ∃ p, e.instances.get id = some p ∧ p.state.timestamp.before before = false := by
      by_contra hall
      rw [evict_get_stale fun p hp => by by_contra hb; exact hall ⟨p,hp,by simpa using hb⟩] at hq
      cases hq
    obtain ⟨seen,hget⟩ := evict_get_fresh hp hb
    obtain rfl := some.inj (hget.symm.trans hq)
    have hk : id∈e.instances.keys := by rw [e.instances.mem_keys,hp]; rfl
    have hl : e.liveCluster before c = true := decide_eq_true ⟨id,hk,p,hp,hb,hqc⟩
    exact ⟨hl,⟨p,hp,hqc⟩,by rw [hp,map_some,hb]; simp⟩

/-- What applying an observation of instance `id` in cluster `c` leaves alone. -/
structure Engine.Moves (e e' : Engine) (id : InstanceID) (c : ClusterID) : Prop where
  others : ∀ i, i≠id → e'.instances.get i = e.instances.get i
  ptr : ∃ p, e'.instances.get id = some p ∧ ∀ q, e.instances.get id = some q → p.addr=q.addr
  index : ∀ i, i≠id → ∀ c', i ∈ e'.clusterInstances c' ↔ i ∈ e.clusterInstances c'
  lastPrimary : ∀ c', c'≠c → e'.lastPrimary c' = e.lastPrimary c'
  failover : ∀ c', c'≠c → e'.lastFailoverTime c' = e.lastFailoverTime c'
  splitBrain : ∀ c', c'≠c → e'.lastSplitBrain c' = e.lastSplitBrain c'

section Frames
variable (e : Engine) (now : Time) (obs : Observation)

lemma roleChange_times (held : Option Role) :
    (e.roleChange now held obs).2 = e.lastFailoverTime ∨
    (e.roleChange now held obs).2 =
      update e.lastFailoverTime obs.clusterID (some now) := by
  unfold Engine.roleChange
  dsimp only
  repeat' split
  all_goals first | exact .inl rfl | exact .inr rfl

lemma roleChange_frame (held : Option Role) {c : ClusterID} (hc : c≠obs.clusterID) :
    (e.roleChange now held obs).2 c = e.lastFailoverTime c := by
  rcases roleChange_times e now obs held with h | h
  · rw [h]
  · rw [h,update_of_ne hc]

lemma detectSplitBrain_writes (c : ClusterID) :
    ∃ last, (e.detectSplitBrain c now).2 =
      { e with lastSplitBrain := update e.lastSplitBrain c last } := by
  unfold Engine.detectSplitBrain
  dsimp only
  split_ifs
  · exact ⟨some now,rfl⟩
  · exact ⟨e.lastSplitBrain c,by simp⟩
  · exact ⟨e.lastSplitBrain c,by simp⟩
  · exact ⟨none,rfl⟩

/-- What an instance state says apart from its orphan episode. -/
def InstanceState.sighting (s : InstanceState) : Role × ClusterID × Time × Observation :=
  (s.role,s.clusterID,s.timestamp,s.lastObs)

lemma quietCycle_sighting (s : InstanceState) (sent : Time) :
    (s.quietCycle now sent).sighting = s.sighting := by
  unfold InstanceState.quietCycle
  dsimp only
  split_ifs <;> rfl

lemma seeEdges_sighting (edges : List Edge) (s : InstanceState) :
    (edges.foldl (InstanceState.seeEdge now) s).sighting = s.sighting := by
  induction edges generalizing s with
  | nil => rfl
  | cons edge edges ih =>
    rw [List.foldl_cons,ih,InstanceState.seeEdge]
    split_ifs <;> rfl

lemma orphanStep_sighting (s : InstanceState) : (s.orphanStep now obs).1.sighting = s.sighting := by
  unfold InstanceState.orphanStep
  split
  · dsimp only
    split_ifs
    · exact seeEdges_sighting now _ s
    · exact seeEdges_sighting now _ s
    · rw [quietCycle_sighting,seeEdges_sighting]
  · exact quietCycle_sighting now s _
  · rfl

lemma renew_sighting (inst : Option InstanceState) :
    ((InstanceState.renew inst now obs).orphanStep now obs).1.sighting =
      (obs.role,obs.clusterID,now,obs) := by
  rw [orphanStep_sighting]
  cases inst <;> rfl

end Frames

lemma mem_dropFrom : i ∈ dropFrom index c id c' ↔ i ∈ index c' ∧ ¬(c'=c ∧ i=id) := by
  by_cases hc : c'=c
  · subst hc; simp [dropFrom,and_comm]
  · simp [dropFrom,hc]

lemma mem_addTo : i ∈ addTo index c id c' ↔ i ∈ index c' ∨ (c'=c ∧ i=id) := by
  by_cases hc : c'=c
  · subst hc; simp [addTo,or_comm]
  · simp [addTo,hc]

lemma mem_reindex {held : ClusterID} (h : ∀ c', id ∈ index c' → c'=held) (i : InstanceID)
    (c' : ClusterID) :
    i ∈ addTo (if held≠c then dropFrom index held id else index) c id c' ↔
      if i=id then c' = c else i ∈ index c' := by
  rw [mem_addTo]
  by_cases hi : i=id
  · subst hi
    rw [if_pos rfl]
    refine ⟨?_,fun hc => .inr ⟨hc,rfl⟩⟩
    rintro (hm | hc)
    · by_cases hne : held≠c
      · rw [if_pos hne,mem_dropFrom] at hm
        exact absurd ⟨h c' hm.1,rfl⟩ hm.2
      · rw [if_neg hne] at hm
        exact (h c' hm).trans (not_not.mp hne)
    · exact hc.1
  · by_cases hne : held ≠ c <;> simp [hne,mem_dropFrom,hi]

lemma track_moves (h : e.Indexed) (now : Time) (obs : Observation) (addr : ℕ)
    (haddr : ∀ q, e.instances.get obs.instanceID=some q → addr=q.addr) :
    let t := (e.track now obs addr (e.known obs.instanceID)).2
    e.Moves t obs.instanceID obs.clusterID ∧ t.Indexed := by
  intro t
  have hheld : ∀ c, obs.instanceID ∈ e.clusterInstances c →
      c = ((e.known obs.instanceID).map
        InstanceState.clusterID).getD 0 := by
    intro c hc
    obtain ⟨p,hp,hpc⟩ := (h _ _).mp hc
    simp [hp,hpc]
  have hmem : ∀ i c, i ∈ t.clusterInstances c ↔
      if i=obs.instanceID then c = obs.clusterID else i ∈ e.clusterInstances c :=
    mem_reindex hheld
  have hget : ∃ p, t.instances.get obs.instanceID = some p ∧ p.addr=addr ∧
      p.state.clusterID = obs.clusterID := by
    refine ⟨_,FinMap.get_set_self _ _ _,rfl,?_⟩
    exact congrArg (·.2.1) (renew_sighting now obs _)
  have hothers : ∀ i, i≠obs.instanceID → t.instances.get i = e.instances.get i :=
    fun i hi => FinMap.get_set_of_ne _ _ hi
  obtain ⟨p,hp,hpa,hpc⟩ := hget
  refine ⟨⟨hothers,⟨p,hp,fun q hq => hpa.trans (haddr q hq)⟩,?_,?_,?_,fun _ _ => rfl⟩,?_⟩
  · intro i hi c
    rw [hmem,if_neg hi]
  · intro c hc
    change (if obs.role=.primary then _ else _ : ClusterID → Option LastPrimaryInfo) c = _
    split_ifs
    · rw [update_of_ne hc]
    · rfl
  · exact fun c hc => roleChange_frame e now obs _ hc
  · intro i c
    rw [hmem]
    split_ifs with hi
    · subst hi
      simp [hp,hpc,eq_comm]
    · rw [hothers i hi,h i c]

lemma Engine.Moves.refl (h : (e.instances.get id).isSome=true)
    (c : ClusterID) : e.Moves e id c where
  others _ _ := rfl
  ptr := by
    obtain ⟨p,hp⟩ := isSome_iff_exists.mp h
    exact ⟨p,hp,fun q hq => by rw [hp] at hq; cases hq; rfl⟩
  index _ _ _ := Iff.rfl
  lastPrimary _ _ := rfl
  failover _ _ := rfl
  splitBrain _ _ := rfl

lemma apply_repeat (now : Time)
    (h : isRepeat (e.known obs.instanceID) obs=true) :
    e.apply now obs = ([],e) := by
  simp [Engine.apply,h]

lemma apply_new (now : Time)
    (h : isRepeat (e.known obs.instanceID) obs=false) :
    ∃ heap addr, e.heap≤heap ∧ (∀ q, e.instances.get obs.instanceID=some q → addr=q.addr) ∧
      let t := { e with heap := heap }.track now obs addr
        (e.known obs.instanceID)
      e.apply now obs = (t.1++(t.2.detectSplitBrain obs.clusterID now).1,
        (t.2.detectSplitBrain obs.clusterID now).2) := by
  refine ⟨if (e.instances.get obs.instanceID).isSome then e.heap else e.heap+1,
    ((e.instances.get obs.instanceID).map InstancePtr.addr).getD e.heap,?_,?_,?_⟩
  · split_ifs
    · exact le_rfl
    · exact Nat.le_succ _
  · intro q hq
    simp [hq]
  · simp [Engine.apply,h]

lemma apply_moves (h : e.Indexed) (now : Time) (obs : Observation) :
    (e.apply now obs).2.Indexed ∧ e.Moves (e.apply now obs).2 obs.instanceID obs.clusterID := by
  cases hr : isRepeat (e.known obs.instanceID) obs with
  | true =>
    rw [apply_repeat now hr]
    refine ⟨h,Engine.Moves.refl ?_ _⟩
    cases hg : e.instances.get obs.instanceID with
    | none => simp [Engine.known,isRepeat,hg] at hr
    | some p => rfl
  | false =>
    obtain ⟨heap,addr,-,haddr,happly⟩ := apply_new now hr
    obtain ⟨hm,hi⟩ := track_moves (e := { e with heap := heap }) h now obs addr haddr
    obtain ⟨last,hlast⟩ := detectSplitBrain_writes
      ({ e with heap := heap }.track now obs addr _).2 now obs.clusterID
    rw [happly]
    dsimp only
    rw [hlast]
    refine ⟨hi,hm.others,hm.ptr,hm.index,hm.lastPrimary,hm.failover,fun c hc => ?_⟩
    exact (update_of_ne hc _ _).trans (hm.splitBrain c hc)

lemma Engine.Moves.revertInstance (h : e.Indexed) (h' : e'.Indexed) (hm : e.Moves e' id c) :
    e'.revertInstance id (e.instances.get id) (e'.instances.get id) =
      { e' with instances := e.instances, clusterInstances := e.clusterInstances } := by
  obtain ⟨p,hp,haddr⟩ := hm.ptr
  have hdrop : ∀ i c', i ∈ dropFrom e'.clusterInstances p.state.clusterID id c' ↔
      i ≠ id ∧ i ∈ e.clusterInstances c' := by
    intro i c'
    rw [mem_dropFrom]
    by_cases hi : i=id
    · subst hi
      simp only [h' i c',hp,some.injEq]
      grind
    · simp [hi,hm.index i hi c']
  unfold Engine.revertInstance
  simp only [hp,sameInstanceState_refl,and_self,if_true]
  cases hb : e.instances.get id with
  | none =>
    have hinst : e'.instances.erase id = e.instances := by
      ext i : 1
      by_cases hi : i=id
      · subst hi; simp [hb]
      · rw [FinMap.get_erase_of_ne _ hi,hm.others i hi]
    have hindex : dropFrom e'.clusterInstances p.state.clusterID id = e.clusterInstances := by
      funext c'
      ext i
      rw [hdrop]
      refine ⟨And.right,fun hi => ⟨?_,hi⟩⟩
      rintro rfl
      obtain ⟨q,hq,-⟩ := (h _ _).mp hi
      rw [hb] at hq
      cases hq
    simp only [hinst,hindex]
  | some b =>
    have hinst : e'.instances.set id ⟨p.addr,b.state⟩ = e.instances := by
      ext i : 1
      by_cases hi : i=id
      · subst hi; simp [hb,haddr b hb]
      · rw [FinMap.get_set_of_ne _ _ hi,hm.others i hi]
    have hindex : addTo (dropFrom e'.clusterInstances p.state.clusterID id) b.state.clusterID id =
        e.clusterInstances := by
      funext c'
      ext i
      rw [mem_addTo,hdrop]
      by_cases hi : i=id
      · subst hi
        simp [h i c',hb,eq_comm]
      · simp [hi]
    simp only [hinst,hindex]

lemma Engine.Moves.revert (h : e.Indexed) (h' : e'.Indexed) (hm : e.Moves e' id c) :
    e'.revert id c (e.mark id c) (e'.mark id c) = { e with heap := e'.heap } := by
  unfold Engine.revert Engine.mark
  simp only [hm.revertInstance h h',if_true,revertTime_written]
  congr 1
  · exact update_eq_iff.mpr ⟨rfl,hm.lastPrimary⟩
  · exact update_eq_iff.mpr ⟨rfl,hm.failover⟩
  · exact update_eq_iff.mpr ⟨rfl,hm.splitBrain⟩

lemma applyUndoable_run (h : e.Indexed) (now : Time) (obs : Observation) :
    (e.applyUndoable now obs).2.1.run (e.applyUndoable now obs).2.2 =
      { e with heap := (e.apply now obs).2.heap } :=
  (apply_moves h now obs).2.revert h (apply_moves h now obs).1

lemma Undo.run_heap (u : Undo) (e : Engine) (heap : ℕ) :
    u.run { e with heap := heap } = { u.run e with heap := heap } := by
  have hinst : { e with heap := heap }.revertInstance u.instanceID u.before.inst u.written.inst =
      { e.revertInstance u.instanceID u.before.inst u.written.inst with heap := heap } := by
    unfold Engine.revertInstance
    dsimp only
    repeat' split
    all_goals rfl
  unfold Undo.run Engine.revert
  rw [hinst]

end Pglens.Topology

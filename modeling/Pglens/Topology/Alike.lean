import Pglens.Topology.Undo

/-! Two engines are alike when they differ only in the addresses behind their pointers. Alike
engines emit the same events for every sequence of observations. -/
namespace Pglens.Topology
open Pglens.Lib

def LastPrimaryInfo.info (lp : LastPrimaryInfo) : InstanceID × Time := (lp.instanceID,lp.timestamp)

structure Engine.Alike (e e' : Engine) : Prop where
  instances : ∀ id, (e.instances.get id).map InstancePtr.state =
    (e'.instances.get id).map InstancePtr.state
  index : e.clusterInstances=e'.clusterInstances
  lastPrimary : ∀ c, (e.lastPrimary c).map LastPrimaryInfo.info =
    (e'.lastPrimary c).map LastPrimaryInfo.info
  failover : e.lastFailoverTime=e'.lastFailoverTime
  splitBrain : e.lastSplitBrain=e'.lastSplitBrain

namespace Engine.Alike
variable {e e' e'' : Engine}

lemma refl (e : Engine) : e.Alike e := ⟨fun _ => rfl,rfl,fun _ => rfl,rfl,rfl⟩

lemma symm (h : e.Alike e') : e'.Alike e :=
  ⟨fun id => (h.instances id).symm,h.index.symm,fun c => (h.lastPrimary c).symm,h.failover.symm,
    h.splitBrain.symm⟩

lemma trans (h : e.Alike e') (h' : e'.Alike e'') : e.Alike e'' :=
  ⟨fun id => (h.instances id).trans (h'.instances id),h.index.trans h'.index,
    fun c => (h.lastPrimary c).trans (h'.lastPrimary c),h.failover.trans h'.failover,
    h.splitBrain.trans h'.splitBrain⟩

lemma heap (e : Engine) (n m : ℕ) : { e with heap := n }.Alike { e with heap := m } :=
  ⟨fun _ => rfl,rfl,fun _ => rfl,rfl,rfl⟩

lemma recentPrimary (h : e.Alike e') (now : Time) (obs : Observation) :
    (e.recentPrimary now obs).map LastPrimaryInfo.info =
      (e'.recentPrimary now obs).map LastPrimaryInfo.info := by
  have hl := h.lastPrimary obs.clusterID
  unfold Engine.recentPrimary
  cases hp : e.lastPrimary obs.clusterID <;> cases hp' : e'.lastPrimary obs.clusterID <;>
    simp_all [LastPrimaryInfo.info,Option.filter]

lemma roleChange (h : e.Alike e') (now : Time) (held : Option Role) (obs : Observation) :
    e.roleChange now held obs = e'.roleChange now held obs := by
  have hr := h.recentPrimary now obs
  unfold Engine.roleChange
  rw [h.failover]
  cases hp : e.recentPrimary now obs <;> cases hp' : e'.recentPrimary now obs <;>
    simp_all [LastPrimaryInfo.info]

lemma track (h : e.Alike e') (now : Time) (obs : Observation) (addr addr' : ℕ)
    (inst : Option InstanceState) :
    (e.track now obs addr inst).1 = (e'.track now obs addr' inst).1 ∧
      (e.track now obs addr inst).2.Alike (e'.track now obs addr' inst).2 := by
  simp only [Engine.track,h.roleChange]
  refine ⟨trivial,?_,?_,?_,rfl,h.splitBrain⟩
  · intro id
    by_cases hi : id=obs.instanceID
    · subst hi; simp
    · simp only [FinMap.get_set_of_ne _ _ hi,h.instances id]
  · rw [h.index]
  · intro c
    by_cases hr : obs.role=.primary
    · by_cases hc : c=obs.clusterID
      · subst hc; simp [hr,LastPrimaryInfo.info]
      · simp [hr,hc,h.lastPrimary c]
    · simp [hr,h.lastPrimary c]

lemma primaries (h : e.Alike e') (c : ClusterID) (now : Time) :
    e.primaries c now = e'.primaries c now := by
  ext id
  have hi := congrArg (Option.map fun s =>
    s.countsAsPrimary now ((e'.lastFailoverTime c).getD .zero)) (h.instances id)
  simp only [Option.map_map,Function.comp_def] at hi
  simp only [Engine.primaries,Finset.mem_filter,h.index,h.failover,hi]

lemma detectSplitBrain (h : e.Alike e') (c : ClusterID) (now : Time) :
    (e.detectSplitBrain c now).1 = (e'.detectSplitBrain c now).1 ∧
      (e.detectSplitBrain c now).2.Alike (e'.detectSplitBrain c now).2 := by
  unfold Engine.detectSplitBrain
  dsimp only
  rw [h.primaries,h.failover,h.splitBrain]
  split_ifs
  · exact ⟨rfl,h.instances,h.index,h.lastPrimary,rfl,rfl⟩
  · exact ⟨rfl,h⟩
  · exact ⟨rfl,h⟩
  · exact ⟨rfl,h.instances,h.index,h.lastPrimary,rfl,rfl⟩

lemma apply (h : e.Alike e') (now : Time) (obs : Observation) :
    (e.apply now obs).1 = (e'.apply now obs).1 ∧
      (e.apply now obs).2.Alike (e'.apply now obs).2 := by
  have hi : e.known obs.instanceID = e'.known obs.instanceID := h.instances obs.instanceID
  cases hr : isRepeat (e.known obs.instanceID) obs with
  | true =>
    rw [apply_repeat now hr,apply_repeat now (hi ▸ hr)]
    exact ⟨rfl,h⟩
  | false =>
    obtain ⟨heap,addr,-,-,ha⟩ := apply_new now hr
    obtain ⟨heap',addr',-,-,ha'⟩ := apply_new (e := e') now (hi ▸ hr)
    have hh : { e with heap := heap }.Alike { e' with heap := heap' } :=
      ⟨h.instances,h.index,h.lastPrimary,h.failover,h.splitBrain⟩
    obtain ⟨ht,hta⟩ := hh.track now obs addr addr' (e.known obs.instanceID)
    obtain ⟨hs,hsa⟩ := hta.detectSplitBrain obs.clusterID now
    rw [ha,ha',← hi]
    exact ⟨by rw [ht,hs],hsa⟩

lemma applyAll (h : e.Alike e') (steps : List (Time × Observation)) :
    (e.applyAll steps).1 = (e'.applyAll steps).1 ∧
      (e.applyAll steps).2.Alike (e'.applyAll steps).2 := by
  induction steps generalizing e e' with
  | nil => exact ⟨rfl,h⟩
  | cons step steps ih =>
    obtain ⟨now,obs⟩ := step
    obtain ⟨ha,haa⟩ := h.apply now obs
    obtain ⟨hr,hra⟩ := ih haa
    exact ⟨congrArg₂ List.cons ha hr,hra⟩

end Engine.Alike

end Pglens.Topology

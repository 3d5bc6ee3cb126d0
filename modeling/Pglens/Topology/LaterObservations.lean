import Pglens.Topology.Reachable
import Pglens.Topology.Replay

/-! The undo of an observation puts back each piece that still holds what the observation wrote. It
tells by comparing values, so it cannot tell a later observation that left an equal value from none:
a repeat of the envelope, or a second clearing of the split-brain entry. -/
namespace Pglens.Topology
open Pglens.Lib Function Option

def Engine.Accepts (e : Engine) (obs : Observation) : Prop :=
  isRepeat ((e.instances.get obs.instanceID).map InstancePtr.state) obs = false

instance (e : Engine) (obs : Observation) : Decidable (e.Accepts obs) :=
  inferInstanceAs (Decidable (_=_))

/-- The promotion of an instance held as standby or unknown takes over from a recent
primary: what sets the failover time of the cluster. -/
def Engine.TakesOver (e : Engine) (now : Time) (held : Option Role) (obs : Observation) : Prop :=
  obs.role = .primary ∧ (held=some .standby ∨ held=some .unknown) ∧
    (e.recentPrimary now obs).isSome = true

instance (e : Engine) (now : Time) (held : Option Role) (obs : Observation) :
    Decidable (e.TakesOver now held obs) := inferInstanceAs (Decidable (_ ∧ _))

def Engine.FailsOver (e : Engine) (now : Time) (obs : Observation) : Prop :=
  e.TakesOver now ((e.instances.get obs.instanceID).map (·.state.role)) obs

instance (e : Engine) (now : Time) (obs : Observation) : Decidable (e.FailsOver now obs) :=
  inferInstanceAs (Decidable (e.TakesOver _ _ _))

lemma roleChange_failover (e : Engine) (now : Time) (held : Option Role) (obs : Observation) :
    (e.roleChange now held obs).2 = if e.TakesOver now held obs
      then update e.lastFailoverTime obs.clusterID (some now) else e.lastFailoverTime := by
  by_cases ht : e.TakesOver now held obs
  · rw [if_pos ht]
    obtain ⟨hr,hheld,hsome⟩ := ht
    obtain ⟨lp,hlp⟩ := isSome_iff_exists.mp hsome
    rcases hheld with rfl | rfl <;> simp [Engine.roleChange,hr,hlp]
  · rw [if_neg ht]
    unfold Engine.TakesOver at ht
    unfold Engine.roleChange
    dsimp only
    repeat' split
    all_goals simp_all

variable {e : Engine} {obs : Observation}

lemma apply_accepted (now : Time) (h : e.Accepts obs) :
    ∃ heap addr last, e.heap≤heap ∧
      let t := ({ e with heap := heap }.track now obs addr
        (e.known obs.instanceID)).2
      (e.apply now obs).2 =
        { t with lastSplitBrain := update t.lastSplitBrain obs.clusterID last } := by
  obtain ⟨heap,addr,hheap,-,happly⟩ := apply_new now h
  obtain ⟨last,hlast⟩ := detectSplitBrain_writes ({ e with heap := heap }.track now obs addr
    (e.known obs.instanceID)).2 now obs.clusterID
  exact ⟨heap,addr,last,hheap,(congrArg Prod.snd happly).trans hlast⟩

lemma apply_failover (now : Time) (h : e.Accepts obs) :
    (e.apply now obs).2.lastFailoverTime = if e.FailsOver now obs
      then update e.lastFailoverTime obs.clusterID (some now) else e.lastFailoverTime := by
  obtain ⟨heap,addr,last,-,happly⟩ := apply_accepted now h
  rw [happly]
  have hheld : (e.known obs.instanceID).map InstanceState.role =
      (e.instances.get obs.instanceID).map (·.state.role) := map_map _ _ _
  change ({ e with heap := heap }.roleChange now
    ((e.known obs.instanceID).map InstanceState.role) obs).2 = _
  rw [hheld]
  exact roleChange_failover { e with heap := heap } now _ obs

lemma apply_lastPrimary (now : Time) (h : e.Accepts obs) :
    ∃ addr, e.heap≤addr ∧ (e.apply now obs).2.heap = (if obs.role=.primary then addr+1 else addr) ∧
      (e.apply now obs).2.lastPrimary = if obs.role=.primary
        then update e.lastPrimary obs.clusterID (some ⟨addr,obs.instanceID,now⟩)
        else e.lastPrimary := by
  obtain ⟨heap,addr,last,hheap,happly⟩ := apply_accepted now h
  refine ⟨heap,hheap,?_,?_⟩ <;> rw [happly] <;> rfl

lemma apply_heap_le (e : Engine) (now : Time) (obs : Observation) :
    e.heap ≤ (e.apply now obs).2.heap := by
  by_cases h : e.Accepts obs
  · obtain ⟨addr,hle,hheap,-⟩ := apply_lastPrimary now h
    rw [hheap]
    split_ifs <;> omega
  · rw [apply_repeat now (by simpa [Engine.Accepts] using h)]

section Addresses

def Engine.Addressed (e : Engine) : Prop := ∀ c lp, e.lastPrimary c = some lp → lp.addr<e.heap

lemma apply_addressed {e : Engine} (h : e.Addressed) (now : Time) (obs : Observation) :
    (e.apply now obs).2.Addressed := by
  intro c lp hlp
  by_cases ha : e.Accepts obs
  · obtain ⟨addr,hle,hheap,hl⟩ := apply_lastPrimary now ha
    rw [hl] at hlp
    rw [hheap]
    by_cases hr : obs.role=.primary
    · rw [if_pos hr] at hlp ⊢
      by_cases hc : c=obs.clusterID
      · subst hc
        rw [update_self] at hlp
        cases hlp
        exact Nat.lt_succ_self addr
      · rw [update_of_ne hc] at hlp
        have := h c lp hlp
        omega
    · rw [if_neg hr] at hlp ⊢
      exact lt_of_lt_of_le (h c lp hlp) hle
  · rw [apply_repeat now (by simpa [Engine.Accepts] using ha)] at hlp ⊢
    exact h c lp hlp

lemma revertInstance_frame (e : Engine) (id : InstanceID) (before written : Option InstancePtr) :
    let e' := e.revertInstance id before written
    e'.lastPrimary = e.lastPrimary ∧ e'.lastFailoverTime=e.lastFailoverTime ∧
      e'.lastSplitBrain = e.lastSplitBrain ∧ e'.heap=e.heap := by
  unfold Engine.revertInstance
  repeat' split
  all_goals exact ⟨rfl,rfl,rfl,rfl⟩

lemma Undo.run_lastPrimary (u : Undo) (e : Engine) :
    (u.run e).lastPrimary =
      if (e.lastPrimary u.clusterID).map LastPrimaryInfo.addr =
        u.written.lastPrim.map LastPrimaryInfo.addr
      then update e.lastPrimary u.clusterID u.before.lastPrim else e.lastPrimary := by
  unfold Undo.run Engine.revert
  dsimp only
  rw [(revertInstance_frame e u.instanceID u.before.inst u.written.inst).1]

lemma Undo.run_heap_eq (u : Undo) (e : Engine) : (u.run e).heap = e.heap :=
  (revertInstance_frame e u.instanceID u.before.inst u.written.inst).2.2.2

/-- In a session, what the undo functions put back has been handed out too. -/
structure Session.Addressed (s : Session) : Prop where
  engine : s.engine.Addressed
  undos : ∀ u∈s.undos, ∀ lp, u.before.lastPrim = some lp → lp.addr<s.engine.heap

lemma step_addressed {s : Session} (h : s.Addressed) (op : Op) : (s.step op).Addressed := by
  cases op with
  | apply now obs =>
    exact ⟨apply_addressed h.engine now obs,fun u hu lp hlp =>
      lt_of_lt_of_le (h.undos u hu lp hlp) (apply_heap_le _ _ _)⟩
  | applyUndoable now obs =>
    refine ⟨apply_addressed h.engine now obs,fun u hu lp hlp =>
      lt_of_lt_of_le ?_ (apply_heap_le s.engine now obs)⟩
    rcases List.mem_append.mp hu with hu | hu
    · exact h.undos u hu lp hlp
    · obtain rfl := List.mem_singleton.mp hu
      exact h.engine _ lp hlp
  | undo i seen =>
    cases hu : s.undos[i]? with
    | none =>
      have hs : s.step (.undo i seen) = s := by simp only [Session.step,hu]
      rwa [hs]
    | some u =>
      have hmem : u∈s.undos := List.mem_of_getElem? hu
      simp only [Session.step,hu]
      refine ⟨fun c lp hlp => ?_,fun v hv lp hlp => ?_⟩
      · dsimp only at hlp ⊢
        rw [Undo.run_heap_eq]
        rw [Undo.run_lastPrimary] at hlp
        split_ifs at hlp
        · by_cases hc : c = (u.withSeen seen).clusterID
          · subst hc
            rw [update_self] at hlp
            exact h.undos u hmem lp hlp
          · rw [update_of_ne hc] at hlp
            exact h.engine c lp hlp
        · exact h.engine c lp hlp
      · dsimp only
        rw [Undo.run_heap_eq]
        exact h.undos v hv lp hlp
  | evict before =>
    refine ⟨fun c lp hlp => h.engine c lp ?_,h.undos⟩
    rw [Session.step,evict_lastPrimary] at hlp
    split_ifs at hlp
    exact hlp

lemma run_addressed (ops : List Op) : (Session.new.run ops).engine.Addressed := by
  have hrun : ∀ s : Session, s.Addressed → (s.run ops).Addressed := by
    induction ops with
    | nil => exact fun s h => h
    | cons op ops ih => exact fun s h => ih _ (step_addressed h op)
  refine (hrun Session.new ⟨fun c lp h => ?_,fun u h => ?_⟩).engine
  · cases h
  · cases h

end Addresses

section Later

/-- Some observation of the sequence does `P` in the state it comes to. -/
def Engine.Somewhere (e : Engine) (steps : List (Time × Observation))
    (P : Engine → Time → Observation → Prop) : Prop :=
  ∃ done now obs rest, steps = done++(now,obs)::rest ∧ P (e.applyAll done).2 now obs

def SetsPrimary (c : ClusterID) (e : Engine) (_ : Time) (obs : Observation) : Prop :=
  obs.clusterID = c ∧ e.Accepts obs ∧ obs.role=.primary

def SetsFailover (c : ClusterID) (e : Engine) (now : Time) (obs : Observation) : Prop :=
  obs.clusterID = c ∧ e.Accepts obs ∧ e.FailsOver now obs

/-- One sets its split-brain entry, with the event, or clears it, having found fewer than
two live primaries. -/
def SetsSplitBrain (c : ClusterID) (e : Engine) (now : Time) (obs : Observation) : Prop :=
  obs.clusterID = c ∧ e.Accepts obs ∧
    ((∃ ev ∈ (e.apply now obs).1, ev.type=.splitBrainDetected) ∨
      ((e.apply now obs).2.primaries c now).card<2)

/-- What undoing `obs` after the observations `later` leaves alone, when it was applied in `e`
and left `e₁`: each piece that one of them touched. -/
structure LaterKept (e₁ : Engine) (obs : Observation) (later : List (Time × Observation))
    (undone : Engine) : Prop where
  inst : observationsOf obs.instanceID later ≠ [] →
    undone.instances.get obs.instanceID = (e₁.applyAll later).2.instances.get obs.instanceID
  primary : e₁.Somewhere later (SetsPrimary obs.clusterID) →
    undone.lastPrimary obs.clusterID = (e₁.applyAll later).2.lastPrimary obs.clusterID
  failover : e₁.Somewhere later (SetsFailover obs.clusterID) →
    undone.lastFailoverTime obs.clusterID = (e₁.applyAll later).2.lastFailoverTime obs.clusterID
  splitBrain : e₁.Somewhere later (SetsSplitBrain obs.clusterID) →
    undone.lastSplitBrain obs.clusterID = (e₁.applyAll later).2.lastSplitBrain obs.clusterID

def sameTime : Option Time → Option Time → Bool
  | none,none => true
  | some t,some u => t.equal u
  | _,_ => false

/-- No piece that a later observation touched reads as `obs` wrote it, unless `obs` had left
it as it found it. -/
structure NoneAsWritten (e e₁ : Engine) (obs : Observation) (later : List (Time × Observation)) :
    Prop where
  inst : observationsOf obs.instanceID later ≠ [] →
    ∀ live w, (e₁.applyAll later).2.instances.get obs.instanceID = some live →
      e₁.instances.get obs.instanceID = some w → sameInstanceState live.state w.state = true →
      e.instances.get obs.instanceID = some live
  failover : e₁.Somewhere later (SetsFailover obs.clusterID) →
    let now := (e₁.applyAll later).2.lastFailoverTime obs.clusterID
    sameTime now (e₁.lastFailoverTime obs.clusterID) = true →
      e.lastFailoverTime obs.clusterID = now
  splitBrain : e₁.Somewhere later (SetsSplitBrain obs.clusterID) →
    let now := (e₁.applyAll later).2.lastSplitBrain obs.clusterID
    sameTime now (e₁.lastSplitBrain obs.clusterID) = true →
      e.lastSplitBrain obs.clusterID = now

lemma revertTime_self (m : ClusterID → Option Time) (c : ClusterID) (before written : Option Time) :
    revertTime m c before written c = if sameTime (m c) written then before else m c := by
  cases hm : m c <;> cases written <;> simp [revertTime,sameTime,hm]
  split_ifs <;> simp [hm]

variable {e : Engine} {c : ClusterID}

lemma applyAll_ptr (hi : e.Indexed) {id : InstanceID} {w : InstancePtr}
    (h : e.instances.get id=some w) (steps : List (Time × Observation)) :
    ∃ live, (e.applyAll steps).2.instances.get id = some live ∧ live.addr=w.addr := by
  induction steps generalizing e w with
  | nil => exact ⟨w,h,rfl⟩
  | cons step steps ih =>
    obtain ⟨now,obs⟩ := step
    obtain ⟨hi',hm⟩ := apply_moves hi now obs
    by_cases hid : id=obs.instanceID
    · subst hid
      obtain ⟨p,hp,haddr⟩ := hm.ptr
      obtain ⟨live,hlive,hla⟩ := ih hi' hp
      exact ⟨live,hlive,hla.trans (haddr w h)⟩
    · exact ih hi' ((hm.others id hid).trans h)

lemma applyAll_newPrimary {n : ℕ} (steps : List (Time × Observation)) (hn : n≤e.heap)
    (h : ∃ lp, e.lastPrimary c=some lp ∧ n≤lp.addr) :
    ∃ lp, (e.applyAll steps).2.lastPrimary c = some lp ∧ n≤lp.addr := by
  induction steps generalizing e with
  | nil => exact h
  | cons step steps ih =>
    obtain ⟨now,obs⟩ := step
    apply ih (hn.trans (apply_heap_le e now obs))
    by_cases ha : e.Accepts obs
    · obtain ⟨addr,hle,-,hl⟩ := apply_lastPrimary now ha
      rw [hl]
      by_cases hc : c=obs.clusterID
      · by_cases hr : obs.role=.primary
        · rw [if_pos hr]
          subst hc
          exact ⟨_,update_self _ _ _,hn.trans hle⟩
        · rw [if_neg hr]
          exact h
      · have hsame : (if obs.role=.primary then update e.lastPrimary obs.clusterID
            (some ⟨addr,obs.instanceID,now⟩) else e.lastPrimary) c = e.lastPrimary c := by
          split_ifs
          · exact update_of_ne hc _ _
          · rfl
        rw [hsame]
        exact h
    · rw [apply_repeat now (by simpa [Engine.Accepts] using ha)]
      exact h

lemma applyAll_heap_le (e : Engine) (steps : List (Time × Observation)) :
    e.heap ≤ (e.applyAll steps).2.heap := by
  induction steps generalizing e with
  | nil => exact le_rfl
  | cons step steps ih => exact (apply_heap_le e step.1 step.2).trans (ih _)

lemma somewhere_newPrimary {later : List (Time × Observation)}
    (h : e.Somewhere later (SetsPrimary c)) :
    ∃ lp, (e.applyAll later).2.lastPrimary c = some lp ∧ e.heap≤lp.addr := by
  obtain ⟨done,now,obs,rest,rfl,rfl,ha,hr⟩ := h
  rw [applyAll_append]
  have hle := applyAll_heap_le e done
  apply applyAll_newPrimary rest (hle.trans (apply_heap_le _ now obs))
  obtain ⟨addr,haddr,-,hl⟩ := apply_lastPrimary now ha
  rw [hl,if_pos hr]
  exact ⟨_,update_self _ _ _,hle.trans haddr⟩

section Pieces
variable {e e₂ : Engine} {now : Time} {obs : Observation} {live w : InstancePtr}

lemma undone_inst_iff (h : e.Indexed)
    (hw : (e.apply now obs).2.instances.get obs.instanceID=some w)
    (hlive : e₂.instances.get obs.instanceID=some live) (haddr : live.addr=w.addr) :
    ((e.applyUndoable now obs).2.1.run e₂).instances.get obs.instanceID = some live ↔
      (sameInstanceState live.state w.state=true →
        e.instances.get obs.instanceID=some live) := by
  change (e₂.revertInstance obs.instanceID (e.instances.get obs.instanceID)
    ((e.apply now obs).2.instances.get obs.instanceID)).instances.get obs.instanceID = _ ↔ _
  unfold Engine.revertInstance
  rw [hw]
  simp only [hlive,haddr,true_and]
  by_cases hs : sameInstanceState live.state w.state = true
  · rw [if_pos hs]
    cases hb : e.instances.get obs.instanceID with
    | none => simp [hs]
    | some b =>
      have hba : b.addr=w.addr := by
        obtain ⟨q,hq,hqa⟩ := (apply_moves h now obs).2.ptr
        obtain rfl := some.inj (hw.symm.trans hq)
        exact (hqa b hb).symm
      obtain ⟨baddr,bstate⟩ := b
      obtain ⟨laddr,lstate⟩ := live
      simp_all
  · rw [if_neg hs]
    simp [hlive,hs]

lemma undone_time_iff (m : ClusterID → Option Time) (c : ClusterID) (before written : Option Time) :
    revertTime m c before written c = m c ↔ (sameTime (m c) written=true → before=m c) := by
  rw [revertTime_self]
  split_ifs with h <;> simp [h]

lemma undone_primary (h : e.Addressed) {later : List (Time × Observation)}
    (hs : (e.apply now obs).2.Somewhere later (SetsPrimary obs.clusterID)) :
    let e₂ := ((e.apply now obs).2.applyAll later).2
    ((e.applyUndoable now obs).2.1.run e₂).lastPrimary obs.clusterID =
      e₂.lastPrimary obs.clusterID := by
  intro e₂
  obtain ⟨lp,hlp,hfresh⟩ := somewhere_newPrimary hs
  have hne : (e₂.lastPrimary obs.clusterID).map LastPrimaryInfo.addr ≠
      ((e.apply now obs).2.lastPrimary obs.clusterID).map LastPrimaryInfo.addr := by
    intro heq
    rw [hlp] at heq
    obtain ⟨lw,hlw,haddr⟩ := map_eq_some_iff.mp heq.symm
    have := apply_addressed h now obs _ lw hlw
    omega
  exact congrFun ((Undo.run_lastPrimary _ e₂).trans (if_neg hne)) _

end Pieces

/-- An undo leaves alone what later observations touched exactly when none of it reads as
the undone observation wrote it. The last primary it always leaves: a primary's observation
is told by its address. -/
theorem undo_keeps_later_iff (ops : List Op) (now : Time) (obs : Observation)
    (later : List (Time × Observation)) :
    let e := (Session.new.run ops).engine
    let r := e.applyUndoable now obs
    LaterKept r.2.2 obs later (r.2.1.run (r.2.2.applyAll later).2) ↔
      NoneAsWritten e r.2.2 obs later := by
  intro e r
  have hi : e.Indexed := run_indexed ops
  have hi₁ : r.2.2.Indexed := (apply_moves hi now obs).1
  obtain ⟨w,hw,-⟩ := (apply_moves hi now obs).2.ptr
  obtain ⟨live,hlive,haddr⟩ := applyAll_ptr hi₁ hw later
  have hinst := undone_inst_iff hi hw hlive haddr
  obtain ⟨-,hfail,hsplit,-⟩ := revertInstance_frame (r.2.2.applyAll later).2 obs.instanceID
    (e.instances.get obs.instanceID) (r.2.2.instances.get obs.instanceID)
  have hfailover : (r.2.1.run (r.2.2.applyAll later).2).lastFailoverTime obs.clusterID = _ ↔ _ :=
    (Eq.congr_left (congrArg (revertTime · _ _ _ _) hfail)).trans (undone_time_iff _ _ _ _)
  have hsplitBrain : (r.2.1.run (r.2.2.applyAll later).2).lastSplitBrain obs.clusterID = _ ↔ _ :=
    (Eq.congr_left (congrArg (revertTime · _ _ _ _) hsplit)).trans (undone_time_iff _ _ _ _)
  constructor
  · intro h
    refine ⟨fun hobs live' w' hl hw' => ?_,fun hs => hfailover.mp (h.failover hs),
      fun hs => hsplitBrain.mp (h.splitBrain hs)⟩
    obtain rfl := some.inj (hlive.symm.trans hl)
    obtain rfl := some.inj (hw.symm.trans hw')
    exact hinst.mp ((h.inst hobs).trans hlive)
  · intro h
    exact ⟨fun hobs => (hinst.mpr (h.inst hobs live w hlive hw)).trans hlive.symm,
      undone_primary (run_addressed ops),fun hs => hfailover.mpr (h.failover hs),
      fun hs => hsplitBrain.mpr (h.splitBrain hs)⟩

/-- An envelope that is sent again after its first attempt was applied, and before that
attempt is undone: the undo takes the retry's sighting away. -/
theorem undo_discards_repeat :
    let obs : Observation := ⟨UUID.nil,1,.primary,none,⟨5,0⟩,[]⟩
    let r := newEngine.applyUndoable ⟨10,0⟩ obs
    let later := [(⟨20,0⟩,obs)]
    observationsOf obs.instanceID later ≠ [] ∧
      ((r.2.2.applyAll later).2.instances.get obs.instanceID).isSome = true ∧
      ((r.2.1.run (r.2.2.applyAll later).2).instances.get obs.instanceID) = none := by
  decide

end Later

end Pglens.Topology

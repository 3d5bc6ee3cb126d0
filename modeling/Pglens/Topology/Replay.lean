import Pglens.Topology.Undo

/-! An agent that reads delivered envelopes again from its disk buffer replays a suffix of its
observations. The engine remembers only the last of them, so a replay of several is taken for new
cycles. When such a replay is silent is told from the state before it. -/
namespace Pglens.Topology
open Pglens.Lib List Option FinMap Duration
open InstanceState (renew seeEdge orphanStep)

/-- An orphan_standby event is due: the observation is evidence of an episode that has
lasted the orphan window, and so long since it was last reported. -/
def OrphanDue (s : InstanceState) (now : Time) (obs : Observation) : Prop :=
  obs.role = .standby ∧ obs.orphaned=true ∧ s.orphanAt.isZero=false ∧
    orphanWindow ≤ now.sub s.orphanAt ∧ orphanWindow ≤ now.sub s.orphanedAt

/-- The instance and the other live primaries of the cluster are two or more, once it is seen
in its unchanged role. -/
def Engine.Crowded (e : Engine) (now : Time) (obs : Observation) : Prop :=
  2 ≤ ((e.primaries obs.clusterID now).erase obs.instanceID).card +
    if obs.role=.primary ∧ ((e.lastFailoverTime obs.clusterID).getD .zero).ns ≤ now.ns
    then 1 else 0

/-- No failover of the cluster is recent. -/
def Engine.Settled (e : Engine) (now : Time) (c : ClusterID) : Prop :=
  ((e.lastFailoverTime c).getD .zero).isZero = true ∨
    30*second < now.sub ((e.lastFailoverTime c).getD .zero)

/-- A split_brain_detected event is due once the instance is seen in its unchanged role: none
was reported within the window. -/
def Engine.SplitBrainDue (e : Engine) (now : Time) (obs : Observation) : Prop :=
  e.Crowded now obs ∧ e.Settled now obs.clusterID ∧
    ∀ last ∈ e.lastSplitBrain obs.clusterID, splitBrainWindow ≤ now.sub last

variable {e : Engine} {obs : Observation} {s : InstanceState} {now : Time} {p : InstancePtr}
  {i : InstanceID} {c : ClusterID} {run : List (Time × Observation)}

lemma roleChange_same : e.roleChange now (some obs.role) obs = ([],e.lastFailoverTime) := by
  simp [Engine.roleChange]

lemma roleChange_of_ne {r : Role} (h : r≠obs.role) : (e.roleChange now (some r) obs).1 ≠ [] := by
  unfold Engine.roleChange
  dsimp only
  rw [if_neg (by simpa using h)]
  split_ifs
  · split <;> simp
  · simp
  · simp

lemma seeEdges_orphaned (h : obs.orphaned=true) (now : Time)
    (s : InstanceState) : obs.edges.foldl (seeEdge now) s = s := by
  have hlow : ∀ edge∈obs.edges, edge.confidence≠.high := by
    simpa [Observation.orphaned] using (Bool.and_eq_true_iff.mp h).1
  generalize obs.edges = edges at hlow ⊢
  induction edges with
  | nil => rfl
  | cons edge edges ih =>
    rw [foldl_cons,seeEdge,if_neg (hlow edge (by simp))]
    exact ih fun edge' h' => hlow edge' (by simp [h'])

lemma sub_self (now : Time) : now.sub now = 0 := by
  simp [Time.sub,maxDuration,minDuration]

lemma orphanStep_silent_iff (s : InstanceState) (now : Time) (obs : Observation) :
    (s.orphanStep now obs).2 = [] ↔ ¬OrphanDue s now obs := by
  unfold orphanStep OrphanDue
  cases hr : obs.role with
  | primary => simp
  | unknown => simp
  | standby =>
    cases ho : obs.orphaned with
    | false => simp
    | true =>
      simp only [seeEdges_orphaned ho,if_true,InstanceState.orphanEvidence]
      cases hz : s.orphanAt.isZero with
      | true => simp [sub_self,orphanWindow,second]
      | false =>
        simp only [Bool.false_eq_true,if_false,true_and]
        split_ifs with hdue <;> simp [hdue]

def Observation.evidence (obs : Observation) : Bool :=
  decide (obs.role=.standby) && obs.orphaned

def Observation.connected (obs : Observation) : Bool :=
  match obs.role with
  | .primary => true
  | .standby => obs.edges.any fun edge => decide (edge.confidence=.high)
  | .unknown => false

section Cycle
variable (s now)

lemma seeEdges_orphanAt (edges : List Edge) (h : s.orphanAt=.zero) :
    (edges.foldl (seeEdge now) s).orphanAt = .zero := by
  induction edges generalizing s with
  | nil => exact h
  | cons edge edges ih =>
    apply ih
    unfold seeEdge
    split_ifs
    · rfl
    · exact h

lemma seeEdges_resolved {edges : List Edge} (h : ∃ edge∈edges, edge.confidence=.high) :
    (edges.foldl (seeEdge now) s).orphanAt = .zero := by
  induction edges generalizing s with
  | nil => simp at h
  | cons edge edges ih =>
    by_cases he : edge.confidence=.high
    · refine seeEdges_orphanAt _ now edges ?_
      rw [seeEdge,if_pos he]
      rfl
    · obtain ⟨edge',hmem,hhigh⟩ := h
      rcases mem_cons.mp hmem with rfl | hmem
      · exact absurd hhigh he
      · exact ih _ ⟨edge',hmem,hhigh⟩

lemma quietCycle_orphanAt (sent : Time) (h : s.orphanAt=.zero) :
    (s.quietCycle now sent).orphanAt = .zero := by
  unfold InstanceState.quietCycle
  dsimp only
  split_ifs
  · rfl
  · exact h

lemma orphanStep_connected (h : obs.connected=true) :
    (s.orphanStep now obs).2 = [] ∧ (s.orphanStep now obs).1.orphanAt = .zero := by
  unfold Observation.connected at h
  unfold orphanStep
  cases hr : obs.role with
  | primary => exact ⟨rfl,rfl⟩
  | unknown => simp [hr] at h
  | standby =>
    simp only [hr] at h
    have ho : obs.orphaned=false := by simp [Observation.orphaned,h]
    simp only [ho,Bool.false_eq_true,if_false,true_and]
    refine quietCycle_orphanAt _ now _ (seeEdges_resolved s now ?_)
    simpa using h

lemma orphanStep_quiet (hc : obs.connected=false) (he : obs.evidence=false) :
    s.orphanStep now obs = (s.quietCycle now obs.timestamp,[]) := by
  unfold Observation.connected at hc
  unfold Observation.evidence at he
  unfold orphanStep
  cases hr : obs.role with
  | primary => simp [hr] at hc
  | unknown => rfl
  | standby =>
    have ho : obs.orphaned=false := by simpa [hr] using he
    have hnil : obs.edges=[] := by
      simp only [hr] at hc
      simpa [Observation.orphaned,hc] using ho
    simp [ho,hnil]

lemma orphanStep_evidence (he : obs.evidence=true) :
    s.orphanStep now obs =
      let t := s.orphanEvidence now obs.timestamp
      if orphanWindow ≤ now.sub t.orphanAt ∧ orphanWindow ≤ now.sub t.orphanedAt then
        ({ t with orphanedAt := now },[⟨.orphanStandby,now,obs.instanceID,obs.clusterID,
          .duration (seconds (now.sub t.orphanAt))⟩])
      else (t,[]) := by
  obtain ⟨hr,ho⟩ := Bool.and_eq_true_iff.mp he
  unfold orphanStep
  simp only [of_decide_eq_true hr,seeEdges_orphaned ho,ho,if_true]

/-- When the last evidence came and when it was sent. -/
def InstanceState.seen (s : InstanceState) : Time × Time := (s.orphanSeenAt,s.orphanSeenSent)

lemma seeEdges_seen (edges : List Edge) (s : InstanceState) :
    (edges.foldl (seeEdge now) s).seen = s.seen := by
  induction edges generalizing s with
  | nil => rfl
  | cons edge edges ih =>
    rw [foldl_cons,ih,seeEdge]
    split_ifs <;> rfl

lemma quietCycle_seen (sent : Time) : (s.quietCycle now sent).seen = s.seen := by
  unfold InstanceState.quietCycle
  dsimp only
  split_ifs <;> rfl

lemma orphanStep_seen (he : obs.evidence=false) : (s.orphanStep now obs).1.seen = s.seen := by
  unfold Observation.evidence at he
  unfold orphanStep
  cases hr : obs.role with
  | primary => rfl
  | unknown => exact quietCycle_seen s now _
  | standby =>
    have ho : obs.orphaned=false := by simpa [hr] using he
    simp only [ho,Bool.false_eq_true,if_false]
    rw [quietCycle_seen,seeEdges_seen]

/-- A window since the last evidence on both clocks is needed to end the episode. -/
theorem quietCycle_keeps {sent : Time} (h : now.sub s.orphanSeenAt<orphanWindow ∨
    sent.isZero=false ∧ s.orphanSeenSent.isZero=false ∧ sent.ns<s.orphanSeenSent.ns) :
    s.quietCycle now sent = { s with quietCycles := s.quietCycles+1 } := by
  unfold InstanceState.quietCycle
  refine if_neg (Bool.not_eq_true _ ▸ ?_)
  unfold orphanGapEnds
  rcases h with h | ⟨hsent,hseen,hlt⟩
  · exact if_pos (.inr h)
  · have hsub : sent.sub s.orphanSeenSent < orphanWindow :=
      not_le.mp fun hle => absurd (Time.lt_of_lt_sub le_rfl (lt_of_lt_of_le (by decide) hle)) (by omega)
    dsimp only
    rw [hsent,hseen]
    simp [hsub]

end Cycle

lemma countsAsPrimary_observed (lastFailover : Time)
    (h : s.sighting=(obs.role,obs.clusterID,now,obs)) :
    s.countsAsPrimary now lastFailover = decide (obs.role=.primary ∧ lastFailover.ns≤now.ns) := by
  simp only [InstanceState.sighting,Prod.mk.injEq] at h
  rw [Bool.eq_iff_iff]
  simp [InstanceState.countsAsPrimary,h.1,h.2.2.1,sub_self,failoverWindow,second]

lemma track_times (addr : ℕ) (hs : s.role=obs.role) :
    (e.track now obs addr (some s)).2.lastFailoverTime = e.lastFailoverTime := by
  simp only [Engine.track,map_some,hs,roleChange_same]

lemma mem_primaries_track (addr : ℕ) (hs : s.role=obs.role) (id : InstanceID) :
    id ∈ (e.track now obs addr (some s)).2.primaries obs.clusterID now ↔
      if id=obs.instanceID then
        obs.role = .primary ∧ ((e.lastFailoverTime obs.clusterID).getD .zero).ns ≤ now.ns
      else id ∈ e.primaries obs.clusterID now := by
  have hobs := countsAsPrimary_observed ((e.lastFailoverTime obs.clusterID).getD .zero)
    (renew_sighting now obs (some s))
  rw [Engine.primaries,Finset.mem_filter,track_times addr hs]
  by_cases hi : id=obs.instanceID
  · subst hi
    simp only [Engine.track,mem_addTo,get_set_self,map_some,hobs]
    simp
  · have hindex : id ∈ (e.track now obs addr (some s)).2.clusterInstances obs.clusterID ↔
        id ∈ e.clusterInstances obs.clusterID := by
      simp only [Engine.track,mem_addTo,hi,and_false,or_false]
      split_ifs <;> simp [mem_dropFrom,hi]
    rw [if_neg hi,hindex,Engine.primaries,Finset.mem_filter]
    simp only [Engine.track,get_set_of_ne _ _ hi]

lemma card_primaries_track (addr : ℕ) (hs : s.role=obs.role) :
    ((e.track now obs addr (some s)).2.primaries obs.clusterID now).card =
      ((e.primaries obs.clusterID now).erase obs.instanceID).card +
        if obs.role=.primary ∧ ((e.lastFailoverTime obs.clusterID).getD .zero).ns ≤ now.ns
        then 1 else 0 := by
  split_ifs with hp
  · rw [← Finset.card_insert_of_notMem (Finset.notMem_erase obs.instanceID _)]
    congr 1
    ext id
    rw [mem_primaries_track addr hs]
    by_cases hi : id = obs.instanceID <;> simp [hi,hp]
  · change _ = Finset.card _
    congr 1
    ext id
    rw [mem_primaries_track addr hs]
    by_cases hi : id = obs.instanceID <;> simp [hi,hp]

lemma detectSplitBrain_silent_iff (e : Engine) (c : ClusterID) (now : Time) :
    (e.detectSplitBrain c now).1 = [] ↔
      ¬(2 ≤ (e.primaries c now).card ∧
        (((e.lastFailoverTime c).getD .zero).isZero=true ∨
          30*second<now.sub ((e.lastFailoverTime c).getD .zero)) ∧
        ∀ last ∈ e.lastSplitBrain c, splitBrainWindow ≤ now.sub last) := by
  unfold Engine.detectSplitBrain
  dsimp only
  split_ifs with h1 h2 h3
  · exact ⟨fun h => absurd h (by simp),fun h => absurd ⟨h1,h2,h3⟩ h⟩
  · exact ⟨fun _ h => h3 h.2.2,fun _ => rfl⟩
  · exact ⟨fun _ h => h2 h.2.1,fun _ => rfl⟩
  · exact ⟨fun _ h => h1 h.1,fun _ => rfl⟩

lemma track_silent_iff (e : Engine) (now : Time) (obs : Observation) (addr : ℕ) (s : InstanceState) :
    (e.track now obs addr (some s)).1 = [] ↔ s.role=obs.role ∧ ¬OrphanDue s now obs := by
  have ho : ((renew (some s) now obs).orphanStep now obs).2 = [] ↔
      ¬OrphanDue s now obs := orphanStep_silent_iff _ now obs
  simp only [Engine.track,append_eq_nil_iff,ho,map_some]
  by_cases hs : s.role=obs.role
  · simp [hs,roleChange_same]
  · simp [hs,roleChange_of_ne hs]

lemma track_crowded_iff (addr : ℕ) (hs : s.role=obs.role) :
    2 ≤ ((e.track now obs addr (some s)).2.primaries obs.clusterID now).card ↔
      e.Crowded now obs := by
  rw [card_primaries_track addr hs,Engine.Crowded]

lemma track_splitBrain_silent_iff (addr : ℕ) (hs : s.role=obs.role) :
    ((e.track now obs addr (some s)).2.detectSplitBrain obs.clusterID now).1 = [] ↔
      ¬e.SplitBrainDue now obs := by
  rw [detectSplitBrain_silent_iff,track_crowded_iff addr hs,track_times addr hs]
  rfl

lemma apply_silent_iff (hp : e.instances.get obs.instanceID=some p)
    (hr : isRepeat (some p.state) obs=false) :
    (e.apply now obs).1 = [] ↔
      p.state.role = obs.role ∧ ¬OrphanDue p.state now obs ∧ ¬e.SplitBrainDue now obs := by
  obtain ⟨heap,addr,-,-,ha⟩ := apply_new (e := e) now (by rw [Engine.known,hp]; exact hr)
  simp only [ha,Engine.known,hp,map_some,append_eq_nil_iff,track_silent_iff,and_assoc]
  refine and_congr_right fun hs => and_congr_right fun _ => ?_
  exact track_splitBrain_silent_iff addr hs

lemma detectSplitBrain_kept (h : (e.detectSplitBrain c now).1=[])
    (hc : 2 ≤ (e.primaries c now).card) : (e.detectSplitBrain c now).2 = e := by
  unfold Engine.detectSplitBrain at h ⊢
  dsimp only at h ⊢
  rw [if_pos hc] at h ⊢
  split_ifs at h ⊢
  all_goals rfl

lemma detectSplitBrain_cleared (hc : ¬2 ≤ (e.primaries c now).card) :
    (e.detectSplitBrain c now).2 =
      { e with lastSplitBrain := Function.update e.lastSplitBrain c none } := by
  unfold Engine.detectSplitBrain
  dsimp only
  rw [if_neg hc]

lemma apply_renews (now : Time)
    (h : isRepeat (e.known obs.instanceID) obs=false) :
    ∃ addr, (e.apply now obs).2.instances = e.instances.set obs.instanceID ⟨addr,
      ((renew (e.known obs.instanceID)
        now obs).orphanStep now obs).1⟩ := by
  obtain ⟨heap,addr,-,-,ha⟩ := apply_new now h
  obtain ⟨last,hlast⟩ := detectSplitBrain_writes
    ({ e with heap := heap }.track now obs addr _).2 now obs.clusterID
  rw [ha]
  dsimp only
  rw [hlast]
  exact ⟨addr,rfl⟩

lemma apply_sets (now : Time)
    (h : isRepeat (e.known obs.instanceID) obs=false) :
    ∃ p, p.state.sighting = (obs.role,obs.clusterID,now,obs) ∧
      (e.apply now obs).2.instances = e.instances.set obs.instanceID p := by
  obtain ⟨addr,haddr⟩ := apply_renews now h
  exact ⟨_,renew_sighting now obs _,haddr⟩

lemma apply_others (e : Engine) (now : Time) (obs : Observation)
    (hi : i≠obs.instanceID) : (e.apply now obs).2.instances.get i = e.instances.get i := by
  cases hr : isRepeat (e.known obs.instanceID) obs with
  | true => rw [apply_repeat now hr]
  | false =>
    obtain ⟨p,-,hp⟩ := apply_sets now hr
    rw [hp,get_set_of_ne _ _ hi]

lemma apply_then_repeats (e : Engine) (now : Time) (obs : Observation) :
    ∃ p, (e.apply now obs).2.instances.get obs.instanceID = some p ∧
      (obs.timestamp.isZero=false → isRepeat (some p.state) obs=true) := by
  cases hr : isRepeat (e.known obs.instanceID) obs with
  | true =>
    rw [apply_repeat now hr]
    cases hg : e.instances.get obs.instanceID with
    | none => simp [Engine.known,isRepeat,hg] at hr
    | some p => exact ⟨p,rfl,fun _ => by simpa [Engine.known,hg] using hr⟩
  | false =>
    obtain ⟨p,hsight,hp⟩ := apply_sets now hr
    refine ⟨p,by rw [hp,get_set_self],fun hz => ?_⟩
    simp only [InstanceState.sighting,Prod.mk.injEq] at hsight
    simp [isRepeat,hsight.2.2.2,hz]

def observationsOf (i : InstanceID) (steps : List (Time × Observation)) : List Observation :=
  (steps.map Prod.snd).filter fun obs => decide (obs.instanceID=i)

def Stamped (os : List Observation) : Prop :=
  (∀ o∈os, o.timestamp.isZero=false) ∧
    os.Pairwise fun a b => a.timestamp.ns<b.timestamp.ns

/-- No observation of the instance emits an event, whenever it comes in the run. -/
def Engine.Silent (e : Engine) (i : InstanceID) (steps : List (Time × Observation)) : Prop :=
  ∀ done x rest, steps = done++x::rest → x.2.instanceID=i →
    ((e.applyAll done).2.apply x.1 x.2).1 = []

lemma applyAll_others {steps : List (Time × Observation)} (h : observationsOf i steps=[]) :
    (e.applyAll steps).2.instances.get i = e.instances.get i := by
  induction steps generalizing e with
  | nil => rfl
  | cons step steps ih =>
    obtain ⟨now,obs⟩ := step
    have hi : ¬obs.instanceID=i := by
      intro hi
      simp [observationsOf,hi] at h
    have hrest : observationsOf i steps = [] := by
      simpa [observationsOf,hi] using h
    exact (ih hrest).trans (apply_others e now obs fun h => hi h.symm)

lemma applyAll_last (h : (observationsOf i run).getLast?=some obs) :
    ∃ p, (e.applyAll run).2.instances.get i = some p ∧
      (obs.timestamp.isZero=false → isRepeat (some p.state) obs=true) := by
  induction run generalizing e with
  | nil => simp [observationsOf] at h
  | cons step run ih =>
    obtain ⟨now,o⟩ := step
    change ∃ p, ((e.apply now o).2.applyAll run).2.instances.get i = some p ∧ _
    cases hrun : observationsOf i run with
    | nil =>
      by_cases hi : o.instanceID=i
      · subst hi
        obtain rfl : o=obs := by
          simp only [observationsOf] at hrun
          simpa [observationsOf,hrun] using h
        rw [applyAll_others hrun]
        exact apply_then_repeats e now o
      · simp only [observationsOf] at hrun
        simp [observationsOf,hi,hrun] at h
    | cons o' os =>
      apply ih
      by_cases hi : o.instanceID=i
      · simp only [observationsOf] at hrun
        simp only [observationsOf,map_cons,filter_cons,hi,decide_true,if_true,hrun,
          getLast?_cons_cons] at h ⊢
        exact h
      · simpa [observationsOf,hi] using h

lemma observationsOf_split (i : InstanceID) (done : List (Time × Observation)) (now : Time)
    (rest : List (Time × Observation)) (hi : obs.instanceID=i) :
    observationsOf i (done++(now,obs)::rest) =
      observationsOf i done++obs::observationsOf i rest := by
  simp [observationsOf,hi]

lemma applyAll_append (e : Engine) (steps steps' : List (Time × Observation)) :
    (e.applyAll (steps++steps')).2 = ((e.applyAll steps).2.applyAll steps').2 := by
  induction steps generalizing e with
  | nil => rfl
  | cons step steps ih => exact ih _

lemma not_repeat (h : obs.timestamp.ns≠s.lastObs.timestamp.ns) : isRepeat (some s) obs = false := by
  simp [isRepeat,Time.equal,h]

lemma repeat_stamp (h : isRepeat (some s) obs=true) :
    obs.timestamp.ns = s.lastObs.timestamp.ns := by
  by_contra hne
  exact absurd (h.symm.trans (not_repeat hne)) (by decide)

lemma apply_seen (now : Time)
    (hp : e.instances.get obs.instanceID=some p) (hr : isRepeat (some p.state) obs=false) :
    ∃ q, (e.apply now obs).2.instances.get obs.instanceID = some q ∧
      q.state.orphanSeenSent =
        if obs.evidence then obs.timestamp else p.state.orphanSeenSent := by
  obtain ⟨addr,haddr⟩ := apply_renews now (by rw [Engine.known,hp]; exact hr)
  rw [Engine.known,hp,map_some] at haddr
  refine ⟨_,by rw [haddr,get_set_self],?_⟩
  by_cases hev : obs.evidence=true
  · rw [if_pos hev,orphanStep_evidence _ now hev]
    dsimp only
    split_ifs <;> rfl
  · rw [if_neg hev]
    exact congrArg Prod.snd (orphanStep_seen (renew (some p.state) now obs) now
      (Bool.not_eq_true _ ▸ hev))

/-- The engine remembers when the newest orphan evidence of an instance was sent, if it took
it: every one but the first observation. -/
theorem applyAll_seen (hst : Stamped (observationsOf i run)) :
    ∀ o ∈ (observationsOf i run).tail, o.evidence=true →
      ∃ p, (e.applyAll run).2.instances.get i = some p ∧ p.state.orphanSeenSent.isZero=false ∧
        o.timestamp.ns ≤ p.state.orphanSeenSent.ns := by
  induction run using List.reverseRecOn with
  | nil => simp [observationsOf]
  | append_singleton run step ih =>
    obtain ⟨now,obs⟩ := step
    intro o ho hev
    rw [applyAll_append]
    change ∃ p, ((e.applyAll run).2.apply now obs).2.instances.get i = some p ∧ _
    by_cases hi : obs.instanceID=i
    · subst hi
      have hobs : observationsOf obs.instanceID (run++[(now,obs)]) =
        observationsOf obs.instanceID run++[obs] := observationsOf_split _ run now [] rfl
      rw [hobs] at hst ho
      obtain ⟨hbefore,-,hlt⟩ := pairwise_append.mp hst.2
      cases hlast : (observationsOf obs.instanceID run).getLast? with
      | none =>
        rw [getLast?_eq_none_iff.mp hlast] at ho
        cases ho
      | some last =>
        have hmem : last ∈ observationsOf obs.instanceID run := mem_of_getLast? hlast
        obtain ⟨p,hp,hrep⟩ := applyAll_last (e := e) hlast
        have hne : obs.timestamp.ns≠p.state.lastObs.timestamp.ns := by
          rw [← repeat_stamp (hrep (hst.1 last (by simp [hmem])))]
          exact (hlt last hmem obs (by simp)).ne'
        obtain ⟨q,hq,hsent⟩ := apply_seen now hp (not_repeat hne)
        refine ⟨q,hq,?_⟩
        rw [hsent]
        rw [tail_append_of_ne_nil (ne_nil_of_mem hmem)] at ho
        by_cases hx : obs.evidence=true
        · rw [if_pos hx]
          refine ⟨hst.1 obs (by simp),?_⟩
          rcases mem_append.mp ho with ho | ho
          · exact (hlt o (mem_of_mem_tail ho) obs (by simp)).le
          · rw [mem_singleton.mp ho]
        · rw [if_neg hx]
          rcases mem_append.mp ho with ho | ho
          · obtain ⟨p',hp',hseen⟩ := ih ⟨fun o ho => hst.1 o (by simp [ho]),hbefore⟩ o ho hev
            obtain rfl := some.inj (hp.symm.trans hp')
            exact hseen
          · exact absurd (mem_singleton.mp ho ▸ hev) hx
    · have hskip : observationsOf i (run++[(now,obs)]) = observationsOf i run := by
        simp [observationsOf,hi]
      rw [hskip] at hst ho
      obtain ⟨p,hp,hseen⟩ := ih hst o ho hev
      exact ⟨p,by rw [apply_others _ now obs fun h => hi h.symm,hp],hseen⟩

/-- A replayed observation that is no news, behind the replayed ones of `before`: `e` is the
engine before the replay and `s` what it holds of the instance. -/
structure Engine.NoNews (e : Engine) (s : InstanceState) (before : List (Time × Observation))
    (now : Time) (obs : Observation) : Prop where
  role : s.role=obs.role
  orphan : (∀ x∈before, x.2.connected=false) → ¬OrphanDue s now obs
  splitBrain : e.Crowded now obs → e.Settled now obs.clusterID →
    (∃ last ∈ e.lastSplitBrain obs.clusterID, now.sub last<splitBrainWindow) ∧
      ∀ x∈before, x.2.clusterID=obs.clusterID → e.Crowded x.1 x.2

/-- What a silent replay of observations of instance `i` leaves of the engine, apart from the
state of `i` itself. -/
structure Engine.Replayed (e : Engine) (i : InstanceID) (before : List (Time × Observation))
    (e' : Engine) : Prop where
  others : ∀ j, j≠i → e'.instances.get j = e.instances.get j
  index : ∀ j, j≠i → ∀ c, j ∈ e'.clusterInstances c ↔ j ∈ e.clusterInstances c
  failover : e'.lastFailoverTime=e.lastFailoverTime
  reported : ∀ c, (∀ x∈before, x.2.clusterID=c → e.Crowded x.1 x.2) →
    e'.lastSplitBrain c = e.lastSplitBrain c
  cleared : ∀ c, ∀ x∈before, x.2.clusterID=c → ¬e.Crowded x.1 x.2 →
    e'.lastSplitBrain c = none

section Replayed
variable {e' : Engine} {before : List (Time × Observation)}

lemma Engine.Replayed.refl (e : Engine) (i : InstanceID) : e.Replayed i [] e where
  others _ _ := rfl
  index _ _ _ := Iff.rfl
  failover := rfl
  reported _ _ := rfl
  cleared _ _ h := nomatch h

lemma Engine.Replayed.crowded_iff (h : e.Replayed i before e') (hi : obs.instanceID=i) :
    e'.Crowded now obs ↔ e.Crowded now obs := by
  have hother : (e'.primaries obs.clusterID now).erase obs.instanceID =
      (e.primaries obs.clusterID now).erase obs.instanceID := by
    ext j
    simp only [Finset.mem_erase,Engine.primaries,Finset.mem_filter,h.failover]
    refine and_congr_right fun hj => ?_
    rw [hi] at hj
    rw [h.others j hj,h.index j hj]
  unfold Engine.Crowded
  rw [hother,h.failover]

lemma Engine.Replayed.due_iff (h : e.Replayed i before e') (hi : obs.instanceID=i) :
    ¬e'.SplitBrainDue now obs ↔ (e.Crowded now obs → e.Settled now obs.clusterID →
      (∃ last ∈ e.lastSplitBrain obs.clusterID, now.sub last<splitBrainWindow) ∧
        ∀ x∈before, x.2.clusterID=obs.clusterID → e.Crowded x.1 x.2) := by
  have hsettled : e'.Settled now obs.clusterID ↔ e.Settled now obs.clusterID := by
    unfold Engine.Settled
    rw [h.failover]
  unfold Engine.SplitBrainDue
  rw [h.crowded_iff hi,hsettled]
  simp only [not_and]
  refine forall_congr' fun _ => forall_congr' fun _ => ?_
  by_cases hall : ∀ x∈before, x.2.clusterID=obs.clusterID → e.Crowded x.1 x.2
  · rw [h.reported _ hall]
    simp only [not_forall,not_le,exists_prop]
    exact ⟨fun hlast => ⟨hlast,hall⟩,And.left⟩
  · refine ⟨fun hdue => absurd ?_ hdue,fun hboth => absurd hboth.2 hall⟩
    simp only [not_forall] at hall
    obtain ⟨x,hx,hc,hfew⟩ := hall
    rw [h.cleared _ x hx hc hfew]
    simp

lemma Engine.Replayed.snoc (h : e.Replayed i before e') (hi : obs.instanceID=i)
    (hp : e'.instances.get i=some p) (hr : isRepeat (some p.state) obs=false)
    (hrole : p.state.role=obs.role) (hdue : ¬e'.SplitBrainDue now obs) :
    e.Replayed i (before++[(now,obs)]) (e'.apply now obs).2 := by
  subst hi
  obtain ⟨heap,addr,-,-,ha⟩ := apply_new (e := e') now (by rw [Engine.known,hp]; exact hr)
  rw [Engine.known,hp,map_some] at ha
  obtain ⟨last,hlast⟩ := detectSplitBrain_writes
    ({ e' with heap := heap }.track now obs addr (some p.state)).2 now obs.clusterID
  have hcrowded : 2 ≤ (({ e' with heap := heap }.track now obs addr
      (some p.state)).2.primaries obs.clusterID now).card ↔ e.Crowded now obs :=
    (track_crowded_iff addr hrole).trans (h.crowded_iff rfl)
  have hsilent : (({ e' with heap := heap }.track now obs addr
      (some p.state)).2.detectSplitBrain obs.clusterID now).1 = [] :=
    (track_splitBrain_silent_iff addr hrole).mpr hdue
  rw [congrArg Prod.snd ha]
  refine ⟨fun j hj => ?_,fun j hj c => ?_,?_,fun c hall => ?_,fun c x hx hc hfew => ?_⟩
  · rw [hlast]
    exact (get_set_of_ne _ _ hj).trans (h.others j hj)
  · rw [hlast]
    refine Iff.trans ?_ (h.index j hj c)
    simp only [Engine.track,mem_addTo,hj,and_false,or_false]
    split_ifs <;> simp [mem_dropFrom,hj]
  · rw [hlast]
    exact (track_times addr hrole).trans h.failover
  · have hbefore := h.reported c fun x hx => hall x (by simp [hx])
    by_cases hc : obs.clusterID=c
    · rw [detectSplitBrain_kept hsilent (hcrowded.mpr (hall (now,obs) (by simp) hc))]
      exact hbefore
    · rw [hlast]
      exact (Function.update_of_ne (Ne.symm hc) _ _).trans hbefore
  · by_cases hnow : obs.clusterID=c ∧ ¬e.Crowded now obs
    · obtain ⟨rfl,hnow⟩ := hnow
      rw [detectSplitBrain_cleared (hcrowded.not.mpr hnow)]
      exact Function.update_self ..
    · have hbefore : e'.lastSplitBrain c = none := by
        rcases mem_append.mp hx with hx | hx
        · exact h.cleared c x hx hc hfew
        · obtain rfl := mem_singleton.mp hx
          exact absurd ⟨hc,hfew⟩ hnow
      by_cases hobs : obs.clusterID=c
      · rw [detectSplitBrain_kept hsilent (hcrowded.mpr (not_not.mp fun hfew => hnow ⟨hobs,hfew⟩))]
        exact hbefore
      · rw [hlast]
        exact (Function.update_of_ne (Ne.symm hobs) _ _).trans hbefore

end Replayed

/-- What a silent replay leaves of the instance itself, `s` before it and `q` behind `before`.
As long as evidence is still to come, the episode is the one of `s` or began in the replay. -/
structure InstanceState.Replayed (s : InstanceState) (before rest : List (Time × Observation))
    (q : InstanceState) : Prop where
  role : q.role=s.role
  seen : q.orphanSeenSent=s.orphanSeenSent ∨
    ∃ x∈before, x.2.evidence=true ∧ q.orphanSeenAt=x.1
  episode : s.role=.standby → (∃ x∈rest, x.2.evidence=true) →
    (q.orphanAt=s.orphanAt ∧ q.orphanedAt=s.orphanedAt ∧
      ∀ x∈before, x.2.connected=false) ∨
    (q.orphanAt.isZero=true ∨ ∃ x∈before, x.2.evidence=true ∧ q.orphanAt=x.1) ∧
      (s.orphanAt.isZero=true ∨ ∃ x∈before, x.2.connected=true)

section Replayed
variable {q : InstanceState} {before rest : List (Time × Observation)}

/-- The server's clock readings of the replay: what comes behind a piece of orphan evidence
comes within the window. -/
def Prompt (steps : List (Time × Observation)) : Prop :=
  steps.Pairwise fun x y => x.2.evidence=true → y.1.sub x.1 < orphanWindow

lemma exists_snoc {α : Type*} {P : α → Prop} {l : List α} {y : α} (h : ∃ x∈l, P x) :
    ∃ x ∈ l++[y], P x := by
  obtain ⟨x,hx,hP⟩ := h
  exact ⟨x,mem_append_left _ hx,hP⟩

lemma OrphanDue.evidence (h : OrphanDue s now obs) : obs.evidence=true := by
  simp [Observation.evidence,h.1,h.2.1]

lemma InstanceState.Replayed.due_iff (h : s.Replayed before ((now,obs)::rest) q)
    (hrole : s.role=obs.role) (hprompt : ∀ x∈before, x.2.evidence=true → now.sub x.1<orphanWindow) :
    OrphanDue q now obs ↔ (∀ x∈before, x.2.connected=false) ∧ OrphanDue s now obs := by
  by_cases hev : obs.evidence=true
  · have hstandby : obs.role=.standby := of_decide_eq_true (Bool.and_eq_true_iff.mp hev).1
    rcases h.episode (hrole.trans hstandby) ⟨_,mem_cons_self,hev⟩ with
      ⟨hat,hed,halone⟩ | ⟨hq,hs⟩
    · unfold OrphanDue
      rw [hat,hed]
      exact ⟨fun hdue => ⟨halone,hdue⟩,And.right⟩
    · constructor
      · rintro ⟨-,-,hzero,hlong,-⟩
        rcases hq with hq | ⟨x,hx,hxe,hq⟩
        · exact absurd (hq.symm.trans hzero) (by decide)
        · rw [hq] at hlong
          exact absurd hlong (not_le.mpr (hprompt x hx hxe))
      · rintro ⟨halone,-,-,hzero,-⟩
        rcases hs with hs | ⟨x,hx,hc⟩
        · exact absurd (hs.symm.trans hzero) (by decide)
        · exact absurd (hc.symm.trans (halone x hx)) (by decide)
  · exact ⟨fun h => absurd h.evidence hev,fun h => absurd h.2.evidence hev⟩

lemma evidence_connected (h : obs.evidence=true) : obs.connected=false := by
  obtain ⟨hrole,horphaned⟩ := Bool.and_eq_true_iff.mp h
  have hlow := (Bool.and_eq_true_iff.mp horphaned).1
  simpa [Observation.connected,of_decide_eq_true hrole] using hlow

lemma renewed_role (q : InstanceState) (now : Time) (obs : Observation) :
    ((renew (some q) now obs).orphanStep now obs).1.role = obs.role :=
  congrArg Prod.fst (renew_sighting now obs (some q))

lemma InstanceState.Replayed.evidence (h : s.Replayed before ((now,obs)::rest) q)
    (hrole : s.role=obs.role) (hev : obs.evidence=true) (hdue : ¬OrphanDue q now obs) :
    s.Replayed (before++[(now,obs)]) rest
      ((renew (some q) now obs).orphanStep now obs).1 := by
  have hsilent : ((renew (some q) now obs).orphanStep now obs).2 = [] :=
    (orphanStep_silent_iff _ now obs).mpr hdue
  have hstep : ((renew (some q) now obs).orphanStep now obs).1 =
      (renew (some q) now obs).orphanEvidence now obs.timestamp := by
    rw [orphanStep_evidence _ now hev] at hsilent ⊢
    dsimp only at hsilent ⊢
    split_ifs at hsilent ⊢
    rfl
  refine ⟨(renewed_role q now obs).trans hrole.symm,?_,fun hs hlater => ?_⟩
  · rw [hstep]
    exact .inr ⟨(now,obs),by simp,hev,rfl⟩
  have hconn := evidence_connected hev
  rw [hstep]
  rcases h.episode hs ⟨_,mem_cons_self,hev⟩ with ⟨hat,hed,halone⟩ | ⟨hq,hzero⟩
  · by_cases hz : s.orphanAt.isZero=true
    · exact .inr ⟨.inr ⟨(now,obs),by simp,hev,if_pos (hat ▸ hz)⟩,.inl hz⟩
    · exact .inl ⟨(if_neg (hat ▸ hz)).trans hat,hed,
        forall_mem_append.mpr ⟨halone,forall_mem_singleton.mpr hconn⟩⟩
  · refine .inr ⟨?_,hzero.imp id exists_snoc⟩
    by_cases hz : q.orphanAt.isZero=true
    · exact .inr ⟨(now,obs),by simp,hev,if_pos hz⟩
    · obtain ⟨x,hx,hxe,hq⟩ := hq.resolve_left hz
      exact .inr ⟨x,by simp [hx],hxe,(if_neg hz).trans hq⟩

lemma InstanceState.Replayed.unseen (h : s.Replayed before ((now,obs)::rest) q)
    (hev : obs.evidence=false) :
    let q' := ((renew (some q) now obs).orphanStep now obs).1
    q'.orphanSeenSent = s.orphanSeenSent ∨
      ∃ x ∈ before++[(now,obs)], x.2.evidence=true ∧ q'.orphanSeenAt=x.1 := by
  intro q'
  have hseen : q'.seen=q.seen := orphanStep_seen (renew (some q) now obs) now hev
  have hat : q'.orphanSeenAt=q.orphanSeenAt := congrArg Prod.fst hseen
  have hsent : q'.orphanSeenSent=q.orphanSeenSent := congrArg Prod.snd hseen
  rw [hat,hsent]
  exact h.seen.imp id exists_snoc

lemma connected_evidence (h : obs.connected=true) : obs.evidence=false := by
  by_contra hev
  exact absurd (h.symm.trans (evidence_connected (by simpa using hev))) (by decide)

lemma InstanceState.Replayed.connected (h : s.Replayed before ((now,obs)::rest) q)
    (hrole : s.role=obs.role) (hconn : obs.connected=true) :
    s.Replayed (before++[(now,obs)]) rest
      ((renew (some q) now obs).orphanStep now obs).1 := by
  refine ⟨(renewed_role q now obs).trans hrole.symm,h.unseen (connected_evidence hconn),
    fun _ _ => .inr ⟨.inl ?_,.inr ⟨(now,obs),by simp,hconn⟩⟩⟩
  rw [(orphanStep_connected _ now hconn).2]
  rfl

lemma InstanceState.Replayed.quiet (h : s.Replayed before ((now,obs)::rest) q)
    (hrole : s.role=obs.role) (hconn : obs.connected=false) (hev : obs.evidence=false)
    (hgap : (∃ x∈rest, x.2.evidence=true) → now.sub q.orphanSeenAt<orphanWindow ∨
      obs.timestamp.isZero=false ∧ q.orphanSeenSent.isZero=false ∧
        obs.timestamp.ns<q.orphanSeenSent.ns) :
    s.Replayed (before++[(now,obs)]) rest
      ((renew (some q) now obs).orphanStep now obs).1 := by
  refine ⟨(renewed_role q now obs).trans hrole.symm,h.unseen hev,fun hs hlater => ?_⟩
  rw [orphanStep_quiet _ now hconn hev,
    quietCycle_keeps (renew (some q) now obs) now (hgap hlater)]
  obtain ⟨x,hx,hxe⟩ := hlater
  rcases h.episode hs ⟨x,mem_cons_of_mem _ hx,hxe⟩ with ⟨hat,hed,halone⟩ | ⟨hq,hzero⟩
  · exact .inl ⟨hat,hed,forall_mem_append.mpr ⟨halone,forall_mem_singleton.mpr hconn⟩⟩
  · exact .inr ⟨hq.imp id exists_snoc,hzero.imp id exists_snoc⟩

/-- Evidence that is still to come was sent before the evidence the engine has seen. -/
def InstanceState.Ahead (s : InstanceState) (rest : List (Time × Observation)) : Prop :=
  rest.Pairwise fun x y => y.2.evidence=true →
    s.orphanSeenSent.isZero = false ∧ x.2.timestamp.ns<s.orphanSeenSent.ns

lemma forall_split_cons {α : Type*} {P : List α → α → Prop} (x : α) (xs : List α) :
    (∀ done y rest, x::xs=done++y::rest → P done y) ↔
      P [] x ∧ ∀ done y rest, xs = done++y::rest → P (x::done) y := by
  constructor
  · exact fun h => ⟨h [] x xs rfl,fun done y rest hxs => h (x::done) y rest (by rw [hxs]; rfl)⟩
  · rintro ⟨hx,hxs⟩ done y rest hsplit
    cases done with
    | nil =>
      obtain ⟨rfl,-⟩ := List.cons.inj hsplit
      exact hx
    | cons z done =>
      obtain ⟨rfl,htail⟩ := List.cons.inj hsplit
      exact hxs done y rest htail

lemma InstanceState.Replayed.step (h : s.Replayed before ((now,obs)::rest) q)
    (hrole : s.role=obs.role) (hdue : ¬OrphanDue q now obs)
    (hsent : obs.timestamp.isZero=false) (hahead : s.Ahead ((now,obs)::rest))
    (hprompt : ∀ x∈before, x.2.evidence=true → now.sub x.1<orphanWindow) :
    s.Replayed (before++[(now,obs)]) rest
      ((renew (some q) now obs).orphanStep now obs).1 := by
  by_cases hev : obs.evidence=true
  · exact h.evidence hrole hev hdue
  by_cases hconn : obs.connected=true
  · exact h.connected hrole hconn
  refine h.quiet hrole (by simpa using hconn) (by simpa using hev) ?_
  rintro ⟨y,hy,hye⟩
  rcases h.seen with hseen | ⟨x,hx,hxe,hseen⟩
  · have hbehind := (pairwise_cons.mp hahead).1 y hy hye
    exact .inr ⟨hsent,hseen ▸ hbehind⟩
  · exact .inl (hseen ▸ hprompt x hx hxe)

lemma replay_silent_iff {e' : Engine} (he : e.Replayed i before e')
    (hp : e'.instances.get i=some p) (hs : s.Replayed before rest p.state)
    (hi : ∀ x∈rest, x.2.instanceID=i) (hst : Stamped (rest.map Prod.snd))
    (hahead : s.Ahead rest) (hprompt : Prompt (before++rest))
    (hfresh : ∀ x∈rest.head?, x.2.timestamp.ns≠p.state.lastObs.timestamp.ns) :
    e'.Silent i rest ↔
      ∀ done x later, rest = done++x::later → e.NoNews s (before++done) x.1 x.2 := by
  induction rest generalizing before e' p with
  | nil => simp [Engine.Silent]
  | cons x rest ih =>
    obtain ⟨now,obs⟩ := x
    obtain rfl : obs.instanceID=i := hi _ mem_cons_self
    have hr : isRepeat (some p.state) obs = false := not_repeat (hfresh (now,obs) rfl)
    have hwindow : ∀ x∈before, x.2.evidence=true → now.sub x.1 < orphanWindow :=
      fun x hx => (pairwise_append.mp hprompt).2.2 x hx (now,obs) mem_cons_self
    have hone : (e'.apply now obs).1 = [] ↔ e.NoNews s before now obs := by
      rw [apply_silent_iff hp hr,he.due_iff rfl,hs.role]
      constructor
      · rintro ⟨hrole,horphan,hsplit⟩
        exact ⟨hrole,fun halone hdue => horphan ((hs.due_iff hrole hwindow).mpr ⟨halone,hdue⟩),hsplit⟩
      · rintro ⟨hrole,horphan,hsplit⟩
        refine ⟨hrole,fun hdue => ?_,hsplit⟩
        obtain ⟨halone,hdue⟩ := (hs.due_iff hrole hwindow).mp hdue
        exact horphan halone hdue
    refine (forall_split_cons (P := fun done x => x.2.instanceID=obs.instanceID →
      ((e'.applyAll done).2.apply x.1 x.2).1=[]) (now,obs) rest).trans (Iff.trans ?_
        (forall_split_cons (P := fun done x => e.NoNews s (before++done) x.1 x.2)
          (now,obs) rest).symm)
    rw [append_nil,forall_prop_of_true rfl]
    change (e'.apply now obs).1 = [] ∧ (e'.apply now obs).2.Silent obs.instanceID rest ↔ _
    rw [hone]
    refine and_congr_right fun hnews => ?_
    obtain ⟨hrole,horphan,hsplit⟩ := (apply_silent_iff hp hr).mp (hone.mpr hnews)
    obtain ⟨addr,haddr⟩ := apply_renews (e := e') now (by rw [Engine.known,hp]; exact hr)
    rw [Engine.known,hp,map_some] at haddr
    have hnext := ih (he.snoc rfl hp hr hrole hsplit) (by rw [haddr,get_set_self])
      (hs.step hnews.role horphan (hst.1 obs (by simp)) hahead hwindow)
      (fun x hx => hi x (mem_cons_of_mem _ hx))
      ⟨fun o ho => hst.1 o (mem_cons_of_mem _ ho),(pairwise_cons.mp hst.2).2⟩
      (pairwise_cons.mp hahead).2 (by simpa using hprompt) ?_
    · rw [hnext]
      simp
    · intro x hx
      have hlast : ((renew (some p.state) now obs).orphanStep now obs).1.lastObs =
        obs := congrArg (fun v => v.2.2.2) (renew_sighting now obs (some p.state))
      dsimp only
      rw [hlast]
      exact ((pairwise_cons.mp hst.2).1 x.2 (List.mem_map_of_mem (mem_of_mem_head? hx))).ne'

end Replayed

variable {os : List Observation} {replay : List (Time × Observation)}

lemma Stamped.suffix {os' : List Observation} (h : Stamped os) (hsuf : os' <:+ os) : Stamped os' :=
  ⟨fun o ho => h.1 o (hsuf.subset ho),h.2.sublist hsuf.sublist⟩

lemma Stamped.mem_tail (h : Stamped os) {o o' : Observation}
    (ho : o∈os) (ho' : o'∈os) (hlt : o.timestamp.ns<o'.timestamp.ns) : o'∈os.tail := by
  cases os with
  | nil => cases ho
  | cons first os =>
    rcases mem_cons.mp ho' with rfl | ho'
    · rcases mem_cons.mp ho with rfl | ho
      · exact absurd hlt (lt_irrefl _)
      · exact absurd ((pairwise_cons.mp h.2).1 o ho) hlt.not_gt
    · exact ho'

lemma ahead_of_suffix
    (hst : Stamped (observationsOf i run)) (hsuf : replay.map Prod.snd <:+ observationsOf i run)
    (hp : (e.applyAll run).2.instances.get i=some p) : p.state.Ahead replay := by
  have hmem : ∀ x∈replay, x.2 ∈ observationsOf i run :=
    fun x hx => hsuf.subset (List.mem_map_of_mem hx)
  refine (pairwise_map.mp (hst.suffix hsuf).2).imp_of_mem fun {x y} hx hy hlt hev => ?_
  obtain ⟨q,hq,hzero,hle⟩ := applyAll_seen (e := e) hst y.2
    (hst.mem_tail (hmem x hx) (hmem y hy) hlt) hev
  obtain rfl := some.inj (hp.symm.trans hq)
  exact ⟨hzero,hlt.trans_le hle⟩

lemma replay_one_silent (e : Engine) (hst : Stamped (observationsOf i run))
    (hsuf : observationsOf i replay <:+ observationsOf i run)
    (hlen : (observationsOf i replay).length ≤ 1) : (e.applyAll run).2.Silent i replay := by
  rintro done ⟨now,obs⟩ rest hsplit rfl
  rw [hsplit,observationsOf_split _ done now rest rfl] at hsuf hlen
  have hnil : observationsOf obs.instanceID done = [] ∧ observationsOf obs.instanceID rest = [] := by
    simp only [length_append,length_cons] at hlen
    exact ⟨length_eq_zero_iff.mp (by omega),length_eq_zero_iff.mp (by omega)⟩
  rw [hnil.1,hnil.2] at hsuf
  obtain ⟨before,hbefore⟩ := hsuf
  have hlast : (observationsOf obs.instanceID run).getLast? = some obs := by rw [← hbefore]; simp
  obtain ⟨p,hp,hrep⟩ := applyAll_last (e := e) hlast
  have hz := hst.1 obs (by rw [← hbefore]; simp)
  have hget := applyAll_others (e := (e.applyAll run).2) hnil.1
  rw [apply_repeat now (by rw [Engine.known,hget,hp]; exact hrep hz)]

/-- The last observation alone is silent when it comes again, however it comes among the other
instances'. Two or more are silent exactly when none of them is news to the state before the replay,
provided that what comes behind a piece of orphan evidence comes within the orphan window of it. -/
theorem replay_silent_iff_no_news (e : Engine) (i : InstanceID)
    (run replay : List (Time × Observation)) (hst : Stamped (observationsOf i run))
    (hsuf : observationsOf i replay <:+ observationsOf i run) :
    ((observationsOf i replay).length ≤ 1 → (e.applyAll run).2.Silent i replay) ∧
    (2≤replay.length → (∀ x∈replay, x.2.instanceID=i) → Prompt replay →
      ∃ p, (e.applyAll run).2.instances.get i=some p ∧
        ((e.applyAll run).2.Silent i replay ↔ ∀ done x rest, replay=done++x::rest →
          (e.applyAll run).2.NoNews p.state done x.1 x.2)) := by
  refine ⟨replay_one_silent e hst hsuf,fun hlen hi hprompt => ?_⟩
  have hown : observationsOf i replay = replay.map Prod.snd := by
    refine filter_eq_self.mpr fun o ho => ?_
    obtain ⟨x,hx,rfl⟩ := List.mem_map.mp ho
    exact decide_eq_true (hi x hx)
  rw [hown] at hsuf
  have hreplay := hst.suffix hsuf
  obtain _ | ⟨x,_ | ⟨y,rest⟩⟩ := replay
  · simp at hlen
  · simp at hlen
  obtain ⟨before,hbefore⟩ := hsuf
  obtain ⟨last,hlast⟩ : ∃ last, ((y::rest).map Prod.snd).getLast? = some last :=
    ⟨_,getLast?_eq_getLast_of_ne_nil (by simp)⟩
  have hrun : (observationsOf i run).getLast? = some last := by
    rw [← hbefore,getLast?_append,map_cons,getLast?_cons_of_ne_nil (by simp),hlast]
    rfl
  obtain ⟨p,hp,hrep⟩ := applyAll_last (e := e) hrun
  have hmem : last ∈ (y::rest).map Prod.snd := mem_of_getLast? hlast
  refine ⟨p,hp,replay_silent_iff (.refl _ i) hp ⟨rfl,.inl rfl,fun _ _ => .inl ⟨rfl,rfl,by simp⟩⟩
    hi hreplay (ahead_of_suffix hst ⟨before,hbefore⟩ hp) hprompt ?_⟩
  rintro _ ⟨⟩
  rw [← repeat_stamp (hrep (hreplay.1 last (mem_cons_of_mem _ hmem)))]
  exact ((pairwise_cons.mp hreplay.2).1 last hmem).ne

section Standby

/-- A standby whose upstream is not resolved, at a reading of the server's clock and a sent
time in seconds. -/
def orphanAt (now sent : ℤ) : Time × Observation :=
  (⟨now*second,0⟩,⟨1,7,.standby,none,⟨sent*second,0⟩,[⟨1,3,"","",.low⟩]⟩)

def standbyRun : List (Time × Observation) :=
  [orphanAt 100 1,(⟨101*second,0⟩,⟨2,7,.primary,none,⟨1*second,0⟩,[]⟩),
    orphanAt 110 11,orphanAt 120 21]

/-- A standby's last two envelopes come again, beside a primary and in an orphan episode that
has not lasted the window. -/
theorem replay_of_orphans_silent :
    Stamped (observationsOf 1 standbyRun) ∧
      (newEngine.applyAll standbyRun).2.Silent 1 [orphanAt 121 11,orphanAt 122 21] := by
  have hst : Stamped (observationsOf 1 standbyRun) := by
    constructor <;> simp [observationsOf,standbyRun,orphanAt,second,Time.isZero]
  obtain ⟨p,hp,hiff⟩ := (replay_silent_iff_no_news newEngine 1 standbyRun
    [orphanAt 121 11,orphanAt 122 21] hst ⟨[(orphanAt 100 1).2],rfl⟩).2 (by decide) (by decide)
    (by unfold Prompt; decide)
  have hrole : p.state.role=.standby := some.inj
    ((congrArg (Option.map fun p : InstancePtr => p.state.role) hp).symm.trans (by rfl))
  have hat : p.state.orphanAt = ⟨100*second,0⟩ := some.inj
    ((congrArg (Option.map fun p : InstancePtr => p.state.orphanAt) hp).symm.trans (by rfl))
  have hone : ∀ before, ∀ x ∈ [orphanAt 121 11,orphanAt 122 21],
      (newEngine.applyAll standbyRun).2.NoNews p.state before x.1 x.2 := by
    intro before x hx
    have hearly : ¬orphanWindow ≤ x.1.sub ⟨100*second,0⟩ ∧
        ¬(newEngine.applyAll standbyRun).2.Crowded x.1 x.2 ∧ x.2.role=.standby := by
      unfold Engine.Crowded
      revert x
      decide
    obtain ⟨hshort,hfew,hstandby⟩ := hearly
    exact ⟨hrole.trans hstandby.symm,fun _ hdue => hshort (hat ▸ hdue.2.2.2.1),
      fun hmany => absurd hmany hfew⟩
  exact ⟨hst,hiff.mpr fun done x rest hsplit => hone done x (by rw [hsplit]; simp)⟩

end Standby

def promotion : List (Time × Observation) :=
  [(⟨100*second,0⟩,⟨1,7,.standby,none,⟨1*second,0⟩,[]⟩),
   (⟨101*second,0⟩,⟨1,7,.primary,none,⟨2*second,0⟩,[]⟩)]

/-- The two envelopes read again from the disk buffer: the standby one is taken for a
demotion. -/
theorem replayed_promotion_emits :
    Stamped (observationsOf 1 promotion) ∧
    observationsOf 1 promotion <:+ observationsOf 1 promotion ∧
    ¬(newEngine.applyAll promotion).2.Silent 1 promotion := by
  refine ⟨?_,suffix_refl _,fun h => ?_⟩
  · constructor <;> simp [observationsOf,promotion,second,Time.isZero]
  · have hfirst := h [] _ _ rfl rfl
    revert hfirst
    decide

end Pglens.Topology

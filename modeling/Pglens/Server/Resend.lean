import Pglens.Server.Samples
import Pglens.Server.Skipping
import Pglens.Topology.Replay

/-! The second call of a stored envelope finds its counters settled and its observations repeated.
Whether a cardinality_truncated event is due it asks the store, which holds microseconds, while the
first call also asked what it had staged itself, in nanoseconds. -/
namespace Pglens.Server
open Pglens.Lib Pglens.Wire List

def Loop.pending (l : Loop) : Delta.Baselines :=
  l.batches.foldl (fun prev (b : Delta.Batch) => b.install prev) l.delta.prev

def Held (topo : Topology.Engine) (env : Envelope) (inst : Instance) (cid : ClusterID) (id : UUID)
    (edges : List Topology.Edge) : Prop :=
  Topology.isRepeat ((topo.instances.get id).map Topology.InstancePtr.state)
    ⟨id,cid,normalizeRole inst.role,none,env.sentAt,edges⟩ = true

variable {env : Envelope} {cid : ClusterID} {id : UUID} {c : Codec} {w : World} {st : Store}

lemma Held.apply {topo : Topology.Engine} {inst : Instance} {edges : List Topology.Edge}
    (h : Held topo env inst cid id edges) (st : Store) (now : Time) :
    topo.apply now (topologyObservation st env inst cid id edges) = ([],topo) :=
  Topology.apply_repeat now h

section Step
variable {c : Codec} {st : Store} {call : Call} {l : Loop} {inst : Instance} {cid : ClusterID}
  {id : UUID}

end Step

def takenIDs (c : Codec) (inst : Instance) : Option (ClusterID × UUID) :=
  if unknownKind inst then none else
  match c.parseClusterID inst.clusterID,c.parseUUID inst.instanceID with
  | some cid,some id => some (cid,id)
  | _,_ => none

section Taken
variable {c : Codec} {st : Store} {env : Envelope} {inst : Instance} {cid : ClusterID} {id : UUID}

lemma takenIDs_some (h : takenIDs c inst=some (cid,id)) :
    unknownKind inst = false ∧ c.parseClusterID inst.clusterID = some cid ∧
      c.parseUUID inst.instanceID = some id := by
  unfold takenIDs at h
  split_ifs at h with hu
  split at h
  · rename_i hc hid
    cases h
    exact ⟨by simpa using hu,hc,hid⟩
  · cases h

lemma ownEdges_taken (h : takenIDs c inst=some (cid,id)) (cache : String → Option UUID) :
    (ownEdges c st env cache inst).1 = [(⟨cid.toInt,id⟩,(resolveEdges (addressesOf c env) st cid id
      (upstreams inst) ⟨.sound,cache⟩).1)] := by
  obtain ⟨hu,hc,hid⟩ := takenIDs_some h
  simp [ownEdges,hc,hid,hu]

lemma ownEdges_none (h : takenIDs c inst=none) (cache : String → Option UUID) :
    (ownEdges c st env cache inst).1 = [] := by
  unfold takenIDs at h
  unfold ownEdges
  split
  · rename_i hc hid
    rw [hc,hid] at h
    dsimp only at h ⊢
    split_ifs at h ⊢ with hu
    rfl
  · rfl

end Taken

/-- What a step leaves alone that takes no instance. -/
structure Loop.Left (l m : Loop) : Prop where
  staged : m.staged=l.staged
  batches : m.batches=l.batches
  delta : m.delta=l.delta
  topo : m.topo = { l.topo with heap := m.topo.heap }

section Effects
variable {c : Codec} {st : Store} {call : Call} {l m : Loop} {inst : Instance} {cid : ClusterID}
  {id : UUID} {pos : ℕ}

lemma step_left (hi : l.topo.Indexed) (h : takenIDs c inst=none)
    (hm : l.step c st call inst pos = .ok m) : l.Left m := by
  by_cases hu : unknownKind inst = true
  · obtain ⟨hs,hb,hd,-,ht⟩ := step_rejected hi hu hm
    exact ⟨hs,hb,hd,ht⟩
  · unfold takenIDs at h
    rw [if_neg hu] at h
    unfold Loop.step at hm
    cases hc : c.parseClusterID inst.clusterID with
    | none =>
      rw [hc] at hm
      cases hm
      exact ⟨rfl,rfl,rfl,rfl⟩
    | some cid =>
      cases hid : c.parseUUID inst.instanceID with
      | none =>
        rw [hc,hid] at hm
        cases hm
        exact ⟨rfl,rfl,rfl,rfl⟩
      | some id =>
        rw [hc,hid] at h
        cases h

lemma Loop.Left.pending (h : l.Left m) : m.pending=l.pending := by
  unfold Loop.pending
  rw [h.batches,h.delta]

lemma step_takes (c : Codec) (st : Store) (call : Call)
    (hl : l.lookups.txn=.sound) (hid : takenIDs c inst=some (cid,id)) (pos : ℕ) :
    let edges := (resolveEdges (addressesOf c call.env) st cid id (upstreams inst)
      ⟨.sound,l.lookups.cache⟩).1
    let t := l.topo.apply (call.clock.observed pos)
      (topologyObservation st call.env inst cid id edges)
    let x : Context := ⟨c,st,inst,⟨cid.toInt,id⟩,edges⟩
    let os := instanceSamples x inst.results
    ∃ s m, (InstanceState.start l.delta (t.1.map (topologyEvent x.origin))).addResults x .sound
        inst.results = .taken s .sound ∧
      l.step c st call inst pos = .ok m ∧ m.topo=t.2 ∧
      m.delta = (l.delta.begin.observeAll l.delta os).2.2 ∧
      m.pending = (l.delta.begin.observeAll l.delta os).2.1.install l.pending ∧
      m.staged.events = l.staged.events++s.events ∧
      m.staged.rates = l.staged.rates++s.rates := by
  intro edges t x os
  obtain ⟨hu,hc,hid⟩ := takenIDs_some hid
  have hr := addResults_sound (x := x) (s := .start l.delta (t.1.map (topologyEvent x.origin)))
    inst.results
  rw [if_neg (by simpa [unknownKind] using hu)] at hr
  obtain ⟨s,hs⟩ := hr
  have hmoved : (s.batch,s.delta) = (l.delta.begin.observeAll l.delta os).2 :=
    (addResults_follows rfl hs).moved
  have hs' : (InstanceState.start l.delta ((l.topo.applyUndoable (call.clock.observed pos)
      (topologyObservation st call.env inst cid id edges)).1.map (topologyEvent x.origin))).addResults
      x .sound inst.results = .taken s .sound := hs
  unfold Loop.step
  rw [hc,hid]
  dsimp only
  rw [addInstance_sound hl]
  unfold Loop.addResolved
  simp only [edges,x] at hs'
  simp only [hs',Txn.execAll_sound]
  refine ⟨s,_,hs,rfl,rfl,congrArg Prod.snd hmoved,?_,rfl,rfl⟩
  have hprev : s.delta.prev=l.delta.prev := by
    rw [show s.delta=_ from congrArg Prod.snd hmoved]
    exact (Delta.begun_observeAll l.delta os).2.2
  simp only [Loop.pending,foldl_append,hprev,← show s.batch=_ from congrArg Prod.fst hmoved]
  rfl

/-- What every step and every run keep of an instance that they do not take. -/
structure Loop.Apart (i : UUID) (l m : Loop) : Prop where
  instances : m.topo.instances.get i = l.topo.instances.get i
  pending : ∀ k : SeriesKey, k.inst=i → m.pending k = l.pending k
  events : ∀ ev∈m.staged.events, ev∈l.staged.events ∨
    ∀ cluster check, ev.marks ⟨cluster,i⟩ check = false

structure Loop.Grows (l m : Loop) : Prop where
  indexed : m.topo.Indexed
  prev : m.delta.prev=l.delta.prev
  maxGap : m.delta.maxGap=l.delta.maxGap
  events : ∀ ev∈l.staged.events, ev∈m.staged.events

lemma Loop.Apart.trans {i : UUID} {n : Loop} (h : Loop.Apart i l m) (h' : Loop.Apart i m n) :
    Loop.Apart i l n :=
  ⟨h'.instances.trans h.instances,fun k hk => (h'.pending k hk).trans (h.pending k hk),
    fun ev hm => (h'.events ev hm).elim (h.events ev) Or.inr⟩

lemma Loop.Grows.trans {n : Loop} (h : l.Grows m) (h' : m.Grows n) : l.Grows n :=
  ⟨h'.indexed,h'.prev.trans h.prev,h'.maxGap.trans h.maxGap,
    fun ev hm => h'.events ev (h.events ev hm)⟩

lemma Loop.Left.apart (h : l.Left m) (i : UUID) : Loop.Apart i l m :=
  ⟨by rw [h.topo],fun k _ => by rw [h.pending],fun ev hm => .inl (by rwa [h.staged] at hm)⟩

lemma Loop.Left.grows (h : l.Left m) (hi : l.topo.Indexed) : l.Grows m :=
  ⟨by rw [h.topo]; exact hi,by rw [h.delta],by rw [h.delta],fun ev hm => by rwa [h.staged]⟩

lemma topologyEvent_marks (o o' : Origin) (ev : Topology.Event) (check : String) :
    (topologyEvent o ev).marks o' check = false := by
  simp [topologyEvent,EventRow.marks]

lemma step_apart (c : Codec) (st : Store) (call : Call)
    (hl : l.lookups.txn=.sound) (hi : l.topo.Indexed) (inst : Instance) (pos : ℕ) :
    ∃ m, l.step c st call inst pos = .ok m ∧
      m.lookups = ⟨.sound,(ownEdges c st call.env l.lookups.cache inst).2⟩ ∧ l.Grows m ∧
      ∀ i, (∀ cid id, takenIDs c inst=some (cid,id) → id≠i) → Loop.Apart i l m := by
  obtain ⟨m,hm,hlook,hmi,-⟩ := step_sound c st call inst hl hi pos
  refine ⟨m,hm,hlook,?_⟩
  cases htaken : takenIDs c inst with
  | none =>
    have hleft := step_left hi htaken hm
    exact ⟨hleft.grows hi,fun i _ => hleft.apart i⟩
  | some p =>
    obtain ⟨cid,id⟩ := p
    obtain ⟨s,m',hs,hm',htopo,hdelta,hpending,hev,-⟩ := step_takes c st call hl htaken pos
    obtain rfl := Except.ok.inj (hm.symm.trans hm')
    obtain ⟨-,hcommit,hprev⟩ := Delta.begun_observeAll l.delta (instanceSamples
      ⟨c,st,inst,⟨cid.toInt,id⟩,(resolveEdges (addressesOf c call.env) st cid id (upstreams inst)
        ⟨.sound,l.lookups.cache⟩).1⟩ inst.results)
    refine ⟨⟨hmi,by rw [hdelta,hprev],?_,fun ev hmem => by
      rw [hev]; exact mem_append_left _ hmem⟩,fun i hne => ?_⟩
    · rw [hdelta]
      exact (congrArg Delta.Engine.maxGap hcommit).trans (Delta.observeAll_maxGap _ _)
    · have hi : i≠id := (hne cid id rfl).symm
      refine ⟨by rw [htopo]; exact Topology.apply_others _ _ _ hi,fun k hk => ?_,fun ev hmem => ?_⟩
      · rw [hpending]
        refine (Delta.install_begun _ _).2 fun o ho hko => hi ?_
        rw [← hk,hko]
        exact instanceSamples_key o ho
      · rw [hev] at hmem
        rcases mem_append.mp hmem with hmem | hmem
        · exact .inl hmem
        · refine .inr fun cluster check => ?_
          rcases addResults_marks hs ev hmem with hstart | htype | hinst
          · obtain ⟨tev,-,rfl⟩ := mem_map.mp hstart
            exact topologyEvent_marks _ _ _ _
          · simp [EventRow.marks,htype]
          · simp [EventRow.marks,hinst,hi.symm]

/-- No instance of the list that is taken is `i`. -/
def NotAmong (c : Codec) (todo : List (Instance × ℕ)) (i : UUID) : Prop :=
  ∀ p∈todo, ∀ cid id, takenIDs c p.1 = some (cid,id) → id≠i

lemma run_apart (c : Codec) (st : Store) (call : Call) (hl : l.lookups.txn=.sound)
    (hi : l.topo.Indexed) (todo : List (Instance × ℕ)) :
    ∃ m, l.run c st call todo = .ok m ∧ l.Grows m ∧ ∀ i, NotAmong c todo i → Loop.Apart i l m := by
  induction todo generalizing l with
  | nil =>
    exact ⟨l,rfl,⟨hi,rfl,rfl,fun _ h => h⟩,fun i _ => ⟨rfl,fun _ _ => rfl,fun _ h => .inl h⟩⟩
  | cons p todo ih =>
    obtain ⟨inst,pos⟩ := p
    obtain ⟨m,hm,hlook,hgrows,hapart⟩ := step_apart c st call hl hi inst pos
    obtain ⟨n,hn,hgrows',hapart'⟩ := ih (l := m) (by rw [hlook]) hgrows.indexed
    refine ⟨n,?_,hgrows.trans hgrows',fun i hne => ?_⟩
    · unfold Loop.run
      rw [hm]
      exact hn
    · exact (hapart i (hne _ mem_cons_self)).trans
        (hapart' i fun p hp => hne p (mem_cons_of_mem _ hp))

end Effects

def samplesOf (c : Codec) (id : UUID) (inst : Instance) : List Delta.Observation :=
  instanceSamples ⟨c,⟨[],[]⟩,inst,⟨0,id⟩,[]⟩ inst.results

def HeldAll (topo : Topology.Engine) (c : Codec) (st : Store) (env : Envelope) :
    (String → Option UUID) → List (Instance × ℕ) → Prop
  | _,[] => True
  | cache,(inst,_)::todo =>
    (∀ cid id, takenIDs c inst=some (cid,id) → ∀ p ∈ (ownEdges c st env cache inst).1,
      Held topo env inst cid id p.2) ∧
    HeldAll topo c st env (ownEdges c st env cache inst).2 todo

def Distinct (c : Codec) (todo : List (Instance × ℕ)) : Prop :=
  (todo.filterMap fun p => c.parseUUID p.1.instanceID).Nodup

section Calls
variable {c : Codec} {st st' : Store} {call : Call} {l m : Loop} {todo : List (Instance × ℕ)}
  {env : Envelope} {cache : String → Option UUID} {p : Instance × ℕ} {cid : ClusterID} {id : UUID}
  {inst : Instance} {pos : ℕ}

lemma HeldAll.congr {topo topo' : Topology.Engine} (h : HeldAll topo c st env cache todo)
    (hsame : ∀ p∈todo, ∀ cid id, takenIDs c p.1=some (cid,id) →
      topo'.instances.get id=topo.instances.get id) : HeldAll topo' c st env cache todo := by
  induction todo generalizing cache with
  | nil => trivial
  | cons p todo ih =>
    obtain ⟨inst,pos⟩ := p
    refine ⟨fun cid id hid e he => ?_,ih h.2 fun p hp => hsame p (mem_cons_of_mem _ hp)⟩
    have hheld := h.1 cid id hid e he
    unfold Held at hheld ⊢
    rw [hsame _ mem_cons_self cid id hid]
    exact hheld

lemma Distinct.tail (h : Distinct c (p::todo)) : Distinct c todo := by
  unfold Distinct at h ⊢
  rw [filterMap_cons] at h
  split at h
  · exact h
  · exact h.of_cons

lemma Distinct.head (h : Distinct c (p::todo))
    (hid : takenIDs c p.1=some (cid,id)) : NotAmong c todo id := by
  intro q hq cid' id' hid' heq
  subst heq
  have hp := (takenIDs_some hid).2.2
  have hq' := (takenIDs_some hid').2.2
  unfold Distinct at h
  rw [filterMap_cons,hp] at h
  exact (nodup_cons.mp h).1 (mem_filterMap.mpr ⟨q,hq,hq'⟩)

lemma start_written (x : Context) (delta : Delta.Engine) (events : List EventRow) :
    Written x (.start delta events) := fun _ _ h => nomatch h

/-- What a first call leaves of an instance that it takes. -/
structure Loop.Took (c : Codec) (st : Store) (env : Envelope) (cache : String → Option UUID) (maxGap : ℤ)
    (inst : Instance) (cid : ClusterID) (id : UUID) (m : Loop) : Prop where
  held : ∀ p ∈ (ownEdges c st env cache inst).1, Held m.topo env inst cid id p.2
  settled : ∀ o ∈ samplesOf c id inst, Delta.Settled m.pending maxGap o
  marked : ∀ r∈inst.results, r.truncated=true →
    st.recentlyTruncated ⟨cid.toInt,id⟩ r.check r.ts = true ∨
      ∃ ev∈m.staged.events, ev.marks ⟨cid.toInt,id⟩ r.check = true ∧ r.ts.sub ev.ts < truncationEventWindow

lemma Loop.Took.later {maxGap : ℤ} (h : Loop.Took c st env cache maxGap inst cid id l)
    (hapart : Loop.Apart id l m) (hgrows : l.Grows m) :
    Loop.Took c st env cache maxGap inst cid id m := by
  refine ⟨fun p hp => ?_,fun o ho => ?_,fun r hr htr => ?_⟩
  · have hheld := h.held p hp
    unfold Held at hheld ⊢
    rw [hapart.instances]
    exact hheld
  · obtain ⟨q,hq,hlate⟩ := h.settled o ho
    refine ⟨q,?_,hlate⟩
    rw [hapart.pending o.key (instanceSamples_key o ho)]
    exact hq
  · exact (h.marked r hr htr).imp_right fun ⟨ev,hev,hmarks⟩ => ⟨ev,hgrows.events ev hev,hmarks⟩

lemma step_took (hl : l.lookups.txn=.sound) (hgap : 0≤l.delta.maxGap)
    (hz : call.env.sentAt.isZero=false) (hid : takenIDs c inst=some (cid,id))
    (hord : Delta.Ordered l.delta.maxGap (samplesOf c id inst))
    (hpend : ∀ k : SeriesKey, k.inst=id → l.pending k=l.delta.prev k)
    (hstep : l.step c st call inst pos = .ok m) :
    Loop.Took c st call.env l.lookups.cache l.delta.maxGap inst cid id m := by
  obtain ⟨s,m',hs,hm',htopo,hdelta,hpending,hev,-⟩ := step_takes c st call hl hid pos
  obtain rfl := Except.ok.inj (hstep.symm.trans hm')
  refine ⟨fun p hp => ?_,fun o ho => ?_,fun r hr htr => ?_⟩
  · rw [ownEdges_taken hid] at hp
    obtain rfl := mem_singleton.mp hp
    unfold Held
    rw [htopo]
    obtain ⟨ptr,hptr,hrep⟩ := Topology.apply_then_repeats l.topo (call.clock.observed pos)
      (topologyObservation st call.env inst cid id (resolveEdges (addressesOf c call.env) st cid
        id (upstreams inst) ⟨.sound,l.lookups.cache⟩).1)
    have hptr' : ((l.topo.apply (call.clock.observed pos) (topologyObservation st call.env inst
        cid id (resolveEdges (addressesOf c call.env) st cid id (upstreams inst)
          ⟨.sound,l.lookups.cache⟩).1)).2.instances.get id) = some ptr := hptr
    rw [hptr']
    exact hrep hz
  · obtain ⟨q,hq,hlate⟩ := Delta.observeAll_settles hgap hord o ho
    refine ⟨q,?_,hlate⟩
    rw [hpending]
    exact ((Delta.install_begun _ _).1 (hpend o.key (instanceSamples_key o ho))).trans hq
  · rcases (addResults_accounts (start_written _ _ _) hs).2 r hr htr with h | ⟨ev,hmem,h⟩
    · exact .inl h
    · exact .inr ⟨ev,by rw [hev]; exact mem_append_right _ hmem,h⟩

/-- The first call, instance by instance: the engine ends up holding the observations, the
samples are settled once the batches are committed, and each truncated result has an event. -/
theorem run_first (c : Codec) (st : Store) (call : Call) (todo : List (Instance × ℕ))
    (hl : l.lookups.txn=.sound) (hi : l.topo.Indexed) (hgap : 0≤l.delta.maxGap)
    (hz : call.env.sentAt.isZero=false) (hd : Distinct c todo)
    (hord : ∀ p∈todo, ∀ cid id, takenIDs c p.1=some (cid,id) →
      Delta.Ordered l.delta.maxGap (samplesOf c id p.1))
    (hpend : ∀ p∈todo, ∀ cid id, takenIDs c p.1=some (cid,id) →
      ∀ k : SeriesKey, k.inst=id → l.pending k=l.delta.prev k)
    (hrun : l.run c st call todo = .ok m) :
    HeldAll m.topo c st call.env l.lookups.cache todo ∧
      ∀ p∈todo, ∀ cid id, takenIDs c p.1 = some (cid,id) →
        (∀ o ∈ samplesOf c id p.1, Delta.Settled m.pending l.delta.maxGap o) ∧
        ∀ r∈p.1.results, r.truncated=true →
          st.recentlyTruncated ⟨cid.toInt,id⟩ r.check r.ts = true ∨
            ∃ ev∈m.staged.events, ev.marks ⟨cid.toInt,id⟩ r.check = true ∧
              r.ts.sub ev.ts < truncationEventWindow := by
  induction todo generalizing l with
  | nil => exact ⟨trivial,fun p hp => nomatch hp⟩
  | cons p todo ih =>
    obtain ⟨inst,pos⟩ := p
    obtain ⟨m₁,hm₁,hlook,hgrows,hapart⟩ := step_apart c st call hl hi inst pos
    have hl₁ : m₁.lookups.txn=.sound := by rw [hlook]
    obtain ⟨m',hm',hgrows',hapart'⟩ := run_apart c st call hl₁ hgrows.indexed todo
    unfold Loop.run at hrun
    rw [hm₁] at hrun
    obtain rfl := Except.ok.inj (hm'.symm.trans hrun)
    obtain ⟨hheld,hrest⟩ := ih hl₁ hgrows.indexed (by rw [hgrows.maxGap]; exact hgap) hd.tail
      (fun p hp cid id hid => by
        rw [hgrows.maxGap]; exact hord p (mem_cons_of_mem _ hp) cid id hid)
      (fun p hp cid id hid k hk => by
        have hne : ∀ cid' id', takenIDs c inst=some (cid',id') → id'≠id :=
          fun cid' id' hid' => (hd.head hid' p hp cid id hid).symm
        rw [(hapart id hne).pending k hk,hgrows.prev]
        exact hpend p (mem_cons_of_mem _ hp) cid id hid k hk) hm'
    rw [hlook] at hheld
    rw [hgrows.maxGap] at hrest
    have hhead : ∀ cid id, takenIDs c inst = some (cid,id) →
        Loop.Took c st call.env l.lookups.cache l.delta.maxGap inst cid id m' := fun cid id hid =>
      (step_took hl hgap hz hid (hord _ mem_cons_self cid id hid) (hpend _ mem_cons_self cid id hid)
        hm₁).later (hapart' id (hd.head hid)) hgrows'
    exact ⟨⟨fun cid id hid => (hhead cid id hid).held,hheld⟩,forall_mem_cons.mpr
      ⟨fun cid id hid => ⟨(hhead cid id hid).settled,(hhead cid id hid).marked⟩,hrest⟩⟩

structure Loop.Silent (c : Codec) (st : Store) (todo : List (Instance × ℕ)) (l m : Loop) : Prop where
  delta : m.delta=l.delta
  pending : m.pending=l.pending
  topo : m.topo = { l.topo with heap := m.topo.heap }
  rates : m.staged.rates=l.staged.rates
  events : ∃ new, m.staged.events = l.staged.events++new ∧
    (∀ ev∈new, ev.type=.cardinalityTruncated) ∧
    (new=[] ↔ ∀ p∈todo, ∀ cid id, takenIDs c p.1=some (cid,id) → ∀ r∈p.1.results,
      r.truncated=true → st.recentlyTruncated ⟨cid.toInt,id⟩ r.check r.ts=true)

lemma Loop.Left.silent (h : l.Left m) (hid : takenIDs c inst=none) :
    Loop.Silent c st [(inst,pos)] l m := by
  refine ⟨h.delta,h.pending,h.topo,by rw [h.staged],[],by rw [h.staged]; simp,by simp,?_⟩
  simp [hid]

lemma Loop.Silent.trans {n : Loop} (h : Loop.Silent c st [p] l m)
    (h' : Loop.Silent c st todo m n) : Loop.Silent c st (p::todo) l n := by
  obtain ⟨new,hnew,htype,hiff⟩ := h.events
  obtain ⟨new',hnew',htype',hiff'⟩ := h'.events
  refine ⟨h'.delta.trans h.delta,h'.pending.trans h.pending,?_,h'.rates.trans h.rates,
    new++new',by rw [hnew',hnew,append_assoc],fun ev hev => ?_,?_⟩
  · rw [h'.topo,h.topo]
  · exact (mem_append.mp hev).elim (htype ev) (htype' ev)
  · rw [append_eq_nil_iff,hiff,hiff',forall_mem_singleton,forall_mem_cons]

lemma step_second (hl : l.lookups.txn=.sound) (hid : takenIDs c inst=some (cid,id))
    (hpend : l.pending=l.delta.prev) (hheld : ∀ p ∈ (ownEdges c st call.env l.lookups.cache inst).1,
      Held l.topo call.env inst cid id p.2)
    (hsettled : ∀ o ∈ samplesOf c id inst, Delta.Settled l.delta.prev l.delta.maxGap o)
    (hm : l.step c st call inst pos = .ok m) : Loop.Silent c st [(inst,pos)] l m := by
  obtain ⟨s,m',hs,hm',htopo,hdelta,hpending,hev,hrates⟩ := step_takes c st call hl hid pos
  obtain rfl := Except.ok.inj (hm.symm.trans hm')
  have hrep := hheld _ (by rw [ownEdges_taken hid]; exact mem_singleton_self _)
  rw [hrep.apply] at htopo hs
  obtain ⟨hquiet,hsame,hinstall⟩ := Delta.begun_settled hsettled
  obtain ⟨hfollows,-⟩ := (addResults_follows rfl hs).quiet hquiet
  obtain ⟨new,hnew,htype,hiff⟩ := addResults_events rfl hs hquiet
  refine ⟨hdelta.trans hsame,?_,by rw [htopo],?_,new,?_,htype,?_⟩
  · rw [hpending,hpend]
    exact hinstall
  · rw [hrates,hfollows]
    exact append_nil _
  · rw [hev,hnew]
    rfl
  · rw [hiff fun _ => rfl,forall_mem_singleton]
    refine ⟨fun hall cid' id' hid' => ?_,fun hall => hall cid id hid⟩
    obtain ⟨rfl,rfl⟩ := Prod.mk.inj (Option.some.inj (hid.symm.trans hid'))
    exact hall

lemma run_second (hl : l.lookups.txn=.sound) (hi : l.topo.Indexed)
    (hpend : l.pending=l.delta.prev) (hheld : HeldAll l.topo c st' call.env cache todo)
    (hedges : acceptedEdges c st' call.env cache todo =
      acceptedEdges c st call.env l.lookups.cache todo)
    (hsettled : ∀ p∈todo, ∀ cid id, takenIDs c p.1=some (cid,id) →
      ∀ o ∈ samplesOf c id p.1, Delta.Settled l.delta.prev l.delta.maxGap o)
    (hrun : l.run c st call todo = .ok m) : Loop.Silent c st todo l m := by
  induction todo generalizing l cache with
  | nil =>
    cases hrun
    exact ⟨rfl,rfl,rfl,rfl,[],by simp,by simp,by simp⟩
  | cons p todo ih =>
    obtain ⟨inst,pos⟩ := p
    obtain ⟨m₁,hm₁,hlook,hgrows,-⟩ := step_apart c st call hl hi inst pos
    unfold Loop.run at hrun
    rw [hm₁] at hrun
    rw [acceptedEdges_cons,acceptedEdges_cons] at hedges
    obtain ⟨hown,hnext⟩ := append_inj hedges (by
      cases hid : takenIDs c inst with
      | none => rw [ownEdges_none hid,ownEdges_none hid]
      | some q => rw [ownEdges_taken hid,ownEdges_taken hid]; rfl)
    have hone : Loop.Silent c st [(inst,pos)] l m₁ := by
      cases hid : takenIDs c inst with
      | none => exact (step_left hi hid hm₁).silent hid
      | some q =>
        exact step_second hl hid hpend (fun p hp => hheld.1 _ _ hid p (by rw [hown]; exact hp))
          (hsettled _ mem_cons_self _ _ hid) hm₁
    refine hone.trans (ih (l := m₁) (by rw [hlook]) hgrows.indexed
      (by rw [hone.pending,hone.delta,hpend]) (hheld.2.congr fun p _ cid id _ => ?_)
      (by rw [hlook]; exact hnext) (fun p hp => ?_) hrun)
    · rw [hone.topo]
    · rw [hone.delta]
      exact hsettled p (mem_cons_of_mem _ hp)

end Calls

section Between
variable {c : Codec} {w w' : World} {call : Call} {env : Envelope}

lemma process_stored {result : PipelineResult} {rows : Staged}
    (h : w.process c call=(.stored result rows,w')) :
    (w.server.maybeEvict call.clock.start).pool = true ∧
    ∃ l, ((w.swept call.clock.start).loop .sound).run c w.store call call.env.instances.zipIdx = .ok l ∧
      rows = l.staged ∧ w'.store = w.store.commit l.staged ∧ w'.server.topo=l.topo ∧
      w'.server.delta = { l.delta with prev := l.pending } ∧
      w'.server.pool = (w.server.maybeEvict call.clock.start).pool := by
  unfold World.process at h
  dsimp only at h
  split_ifs at h with hp
  · obtain ⟨l,hl,hrows,rfl⟩ := processAll_stored_sound h
    have hc := countChecks_engines { w.server.maybeEvict call.clock.start with
      topo := l.topo
      delta := l.batches.foldl (fun e (b : Delta.Batch) => b.commit e) l.delta }
      call.clock.counted l.staged.outcomes
    exact ⟨hp,l,hl,hrows,rfl,hc.1,hc.2.1.trans (Delta.foldl_commit _ _),hc.2.2⟩
  · cases h

def Among (c : Codec) (env : Envelope) (i : UUID) : Prop :=
  ∃ inst∈env.instances, c.parseUUID inst.instanceID = some i

/-- What happens between the two calls: envelopes of other instances, without a sweep, and
changes of the tables that leave the truncation events of these instances alone. -/
def Elsewhere (c : Codec) (env : Envelope) (w : World) : Happening → Prop
  | .process call => w.server.evicts call.clock.start = false ∧
      ∀ i, Among c call.env i → ¬Among c env i
  | .tables st => ∀ o check ts, Among c env o.instanceID →
      st.recentlyTruncated o check ts = w.store.recentlyTruncated o check ts

structure World.Keeps (c : Codec) (env : Envelope) (w w' : World) : Prop where
  maxGap : w'.server.delta.maxGap=w.server.delta.maxGap
  instances : ∀ i, Among c env i → w'.server.topo.instances.get i = w.server.topo.instances.get i
  baselines : ∀ k : SeriesKey, Among c env k.inst → w'.server.delta.prev k = w.server.delta.prev k
  truncated : ∀ o check ts, Among c env o.instanceID →
    w'.store.recentlyTruncated o check ts = w.store.recentlyTruncated o check ts

lemma commit_events (st : Store) (s : Staged) :
    (st.commit s).events = st.events++s.events.map fun ev => { ev with ts := stamp ev.ts } := by
  have hroles : ∀ f : Store → UUID → Store, (∀ st id, (f st id).events=st.events) →
      ∀ (ids : List UUID) (st : Store), (ids.foldl f st).events = st.events := by
    intro f hf ids
    induction ids with
    | nil => exact fun st => rfl
    | cons id ids ih => exact fun st => (ih _).trans (hf st id)
  refine congrArg (·++_) (hroles _ (fun st id => ?_) s.storedInstances st)
  split <;> rfl

variable {st : Store} {s : Staged} {o : Origin} {check : String} {ts : Time}

lemma commit_recentlyTruncated (h : ∀ ev∈s.events, ev.marks o check=false) :
    (st.commit s).recentlyTruncated o check ts = st.recentlyTruncated o check ts := by
  unfold Store.recentlyTruncated
  rw [commit_events,any_append]
  have hnone : (s.events.map fun ev => { ev with ts := stamp ev.ts }).any (fun ev =>
      ev.marks o check && ev.ts.after (stamp (ts.add (-truncationEventWindow)))) = false := by
    rw [any_map,any_eq_false]
    intro ev hev
    have hm : ({ ev with ts := stamp ev.ts } : EventRow).marks o check = false := h ev hev
    simp [hm]
  rw [hnone,Bool.or_false]

lemma commit_recentlyTruncated_of (h : st.recentlyTruncated o check ts=true) :
    (st.commit s).recentlyTruncated o check ts = true := by
  unfold Store.recentlyTruncated at h ⊢
  rw [commit_events,any_append,h,Bool.true_or]

def World.Pooled (w : World) : Prop := w.server.pool = true ∧ w.server.topo.Indexed

lemma step_keeps {hap : Happening} (hw : w.Pooled) (h : Elsewhere c env w hap) :
    (w.step c hap).Pooled ∧ w.Keeps c env (w.step c hap) := by
  obtain ⟨hp,hi⟩ := hw
  cases hap with
  | tables st => exact ⟨⟨hp,hi⟩,rfl,fun _ _ => rfl,fun _ _ => rfl,h⟩
  | process call =>
    obtain ⟨hevict,helse⟩ := h
    have hsame : w.server.maybeEvict call.clock.start = w.server := maybeEvict_of_not hevict
    have hindexed := step_world_indexed (c := c) hi (.process call)
    change (w.process c call).2.Pooled ∧ w.Keeps c env (w.process c call).2
    change (w.process c call).2.server.topo.Indexed at hindexed
    cases hr : w.process c call with
    | mk reply w' =>
      rw [hr] at hindexed
      cases reply with
      | failed point =>
        obtain ⟨heap,rfl⟩ := process_failed hi hr
        unfold World.swept World.withHeap
        dsimp only
        rw [hsame]
        exact ⟨⟨hp,hi⟩,rfl,fun _ _ => rfl,fun _ _ => rfl,fun _ _ _ _ => rfl⟩
      | unstored result =>
        unfold World.process at hr
        rw [hsame,if_pos hp] at hr
        exact absurd hr processAll_not_unstored
      | stored result rows =>
        obtain ⟨-,l,hl,rfl,hstore,htopo,hdelta,hpool⟩ := process_stored hr
        rw [show w.swept call.clock.start=w by unfold World.swept; rw [hsame]] at hl
        obtain ⟨m,hm,hgrows,hapart⟩ := run_apart c w.store call
          (l := w.loop .sound) rfl hi call.env.instances.zipIdx
        obtain rfl := Except.ok.inj (hl.symm.trans hm)
        have hnot : ∀ i, Among c env i → NotAmong c call.env.instances.zipIdx i := by
          rintro i hamong ⟨inst,pos⟩ hp cid id hid rfl
          exact helse id ⟨inst,fst_mem_of_mem_zipIdx hp,(takenIDs_some hid).2.2⟩ hamong
        refine ⟨⟨by rw [hpool,hsame]; exact hp,hindexed⟩,by rw [hdelta]; exact hgrows.maxGap,
          fun i hamong => ?_,fun k hamong => ?_,fun o check ts hamong => ?_⟩
        · rw [htopo]
          exact (hapart i (hnot i hamong)).instances
        · rw [hdelta]
          exact (hapart k.inst (hnot _ hamong)).pending k rfl
        · rw [hstore]
          refine commit_recentlyTruncated fun ev hev => ?_
          rcases (hapart _ (hnot _ hamong)).events ev hev with hnone | hmarks
          · cases hnone
          · exact hmarks o.clusterID check

lemma run_keeps {hs : List Happening} (hw : w.Pooled)
    (h : Run (fun w hap w' => Elsewhere c env w hap ∧ w'=w.step c hap) w hs w') :
    w'.Pooled ∧ w.Keeps c env w' := by
  refine ⟨h.invariant (P := World.Pooled) (fun _ _ _ hi ⟨he,heq⟩ =>
      heq ▸ (step_keeps hi he).1) hw,
    h.relates (P := World.Pooled) (R := fun w w' => w.Keeps c env w')
      (fun _ => ⟨rfl,fun _ _ => rfl,fun _ _ => rfl,fun _ _ _ _ => rfl⟩) ?_ ?_ hw⟩
  · intro s t u h h'
    exact ⟨h'.maxGap.trans h.maxGap,fun i hi => (h'.instances i hi).trans (h.instances i hi),
      fun k hk => (h'.baselines k hk).trans (h.baselines k hk),
      fun o check ts ho => (h'.truncated o check ts ho).trans (h.truncated o check ts ho)⟩
  · rintro s hap t hi ⟨helse,rfl⟩
    exact step_keeps hi helse

end Between

lemma step_maxGap (hi : w.server.topo.Indexed) (hap : Happening) :
    (w.step c hap).server.delta.maxGap = w.server.delta.maxGap := by
  have hevict : ∀ now, (w.server.maybeEvict now).delta.maxGap = w.server.delta.maxGap := by
    intro now
    unfold Pipeline.maybeEvict
    split_ifs <;> rfl
  cases hap with
  | tables st => rfl
  | process call =>
    change (w.process c call).2.server.delta.maxGap = _
    cases hr : w.process c call with
    | mk reply w' =>
      cases reply with
      | failed point =>
        obtain ⟨heap,rfl⟩ := process_failed hi hr
        exact hevict _
      | unstored result =>
        unfold World.process at hr
        dsimp only at hr
        split_ifs at hr
        · exact absurd hr processAll_not_unstored
        · cases hr
          exact (processNoDB_sameGap _ _ _).2.trans (hevict _)
      | stored result rows =>
        obtain ⟨-,l,hl,-,-,-,hdelta,-⟩ := process_stored hr
        obtain ⟨m,hm,hgrows,-⟩ := run_apart c w.store call
          (l := (w.swept call.clock.start).loop .sound) rfl (maybeEvict_indexed hi _)
          call.env.instances.zipIdx
        obtain rfl := Except.ok.inj (hl.symm.trans hm)
        rw [hdelta]
        exact hgrows.maxGap.trans (hevict _)

lemma World.Reachable.maxGap (h : w.Reachable c) : w.server.delta.maxGap = 10*Duration.minute := by
  obtain ⟨pool,now,st,happenings,hrun⟩ := h
  refine (hrun.invariant (P := fun w => w.server.topo.Indexed ∧
    w.server.delta.maxGap=10*Duration.minute) (fun _ _ _ hi hs => ?_)
    ⟨Topology.newEngine_indexed,rfl⟩).2
  rw [hs]
  exact ⟨step_world_indexed hi.1 _,(step_maxGap hi.1 _).trans hi.2⟩

/-- Each truncated result of an instance that was taken has a stored event of its check less
than a window before it, as the store compares them. -/
def TruncationsStored (c : Codec) (st : Store) (env : Envelope) : Prop :=
  ∀ inst∈env.instances, ∀ cid id, takenIDs c inst = some (cid,id) → ∀ r∈inst.results,
    r.truncated = true → st.recentlyTruncated ⟨cid.toInt,id⟩ r.check r.ts = true

/-- What a first call leaves in the server for the second. -/
structure Received (c : Codec) (st : Store) (env : Envelope) (w : World) : Prop where
  held : HeldAll w.server.topo c st env (fun _ => none) env.instances.zipIdx
  settled : ∀ p∈env.instances.zipIdx, ∀ cid id, takenIDs c p.1 = some (cid,id) →
    ∀ o ∈ samplesOf c id p.1, Delta.Settled w.server.delta.prev w.server.delta.maxGap o

lemma taken_among {p : Instance × ℕ}
    (hp : p∈env.instances.zipIdx) (hid : takenIDs c p.1=some (cid,id)) : Among c env id :=
  ⟨p.1,fst_mem_of_mem_zipIdx hp,(takenIDs_some hid).2.2⟩

lemma Received.keeps {w' : World}
    (h : Received c st env w) (hk : w.Keeps c env w') : Received c st env w' := by
  refine ⟨h.held.congr fun p hp cid id hid => hk.instances id (taken_among hp hid),?_⟩
  intro p hp cid id hid o ho
  obtain ⟨q,hq,hlate⟩ := h.settled p hp cid id hid o ho
  have hko : o.key.inst=id := instanceSamples_key o ho
  rw [hk.maxGap]
  exact ⟨q,(hk.baselines o.key (by rw [hko]; exact taken_among hp hid)).trans hq,hlate⟩

theorem process_received {w₁ : World} (hw : w.Reachable c) {first : Call}
    {result : PipelineResult} {rows : Staged} (hsent : first.env.sentAt.isZero=false)
    (hdistinct : (first.env.instances.filterMap fun inst => c.parseUUID inst.instanceID).Nodup)
    (hordered : ∀ inst∈first.env.instances, ∀ id, c.parseUUID inst.instanceID=some id →
      Delta.Ordered w.server.delta.maxGap (samplesOf c id inst))
    (hstored : w.process c first=(.stored result rows,w₁)) :
    w₁.Pooled ∧ Received c w.store first.env w₁ ∧
      ∀ p∈first.env.instances.zipIdx, ∀ cid id, takenIDs c p.1 = some (cid,id) →
        ∀ r∈p.1.results, r.truncated=true →
          w₁.store.recentlyTruncated ⟨cid.toInt,id⟩ r.check r.ts = true ∨
            ∃ ev∈rows.events, ev.marks ⟨cid.toInt,id⟩ r.check = true ∧
              r.ts.sub ev.ts < truncationEventWindow := by
  obtain ⟨hpool,l,hl,rfl,hstore,htopo,hdelta,hpool₁⟩ := process_stored hstored
  let start := (w.swept first.clock.start).loop .sound
  have hi : start.topo.Indexed := maybeEvict_indexed hw.indexed _
  have hgap : start.delta.maxGap=w.server.delta.maxGap := by
    change (w.server.maybeEvict first.clock.start).delta.maxGap = _
    unfold Pipeline.maybeEvict
    split_ifs <;> rfl
  have hgap₁ : w₁.server.delta.maxGap=start.delta.maxGap := by
    obtain ⟨m,hm,hgrows,-⟩ := run_apart c w.store first (l := start) rfl
      hi first.env.instances.zipIdx
    obtain rfl := Except.ok.inj (hl.symm.trans hm)
    rw [hdelta]
    exact hgrows.maxGap
  have hnonneg : 0 ≤ start.delta.maxGap := by
    rw [hgap,hw.maxGap]
    simp [Duration.minute,Duration.second]
  have hd : Distinct c first.env.instances.zipIdx := by
    rw [← zipIdx_map_fst 0 first.env.instances,filterMap_map] at hdistinct
    exact hdistinct
  obtain ⟨hheld,hall⟩ := run_first c w.store first
    first.env.instances.zipIdx (l := start) rfl hi hnonneg hsent hd
    (fun p hp cid id hid => by
      rw [hgap]
      exact hordered p.1 (fst_mem_of_mem_zipIdx hp) id (takenIDs_some hid).2.2)
    (fun _ _ _ _ _ _ _ => rfl) hl
  refine ⟨⟨by rw [hpool₁]; exact hpool,?_⟩,⟨by rw [htopo]; exact hheld,?_⟩,?_⟩
  · have := step_world_indexed (c := c) hw.indexed (.process first)
    change (w.process c first).2.server.topo.Indexed at this
    rwa [hstored] at this
  · intro p hp cid id hid o ho
    rw [hgap₁,hdelta]
    exact (hall p hp cid id hid).1 o ho
  · intro p hp cid id hid r hr htr
    rcases (hall p hp cid id hid).2 r hr htr with hrec | hev
    · rw [hstore]
      exact .inl (commit_recentlyTruncated_of hrec)
    · exact .inr hev

lemma process_again {call : Call} (hw : w.Pooled)
    (hr : Received c st call.env w) (hevict : w.server.evicts call.clock.start=false)
    (hedges : acceptedEdges c st call.env (fun _ => none) call.env.instances.zipIdx =
      acceptedEdges c w.store call.env (fun _ => none) call.env.instances.zipIdx) :
    let again := w.process c call
    again.2.server.delta = w.server.delta ∧
      again.2.server.topo = { w.server.topo with heap := again.2.server.topo.heap } ∧
      ∀ result rows, again.1 = .stored result rows → rows.rates=[] ∧
        (∀ ev∈rows.events, ev.type=.cardinalityTruncated) ∧
        (rows.events=[] ↔ ∀ p∈call.env.instances.zipIdx, ∀ cid id,
          takenIDs c p.1=some (cid,id) → ∀ r∈p.1.results, r.truncated=true →
            w.store.recentlyTruncated ⟨cid.toInt,id⟩ r.check r.ts=true) := by
  intro again
  obtain ⟨hp,hi⟩ := hw
  have hsame : w.server.maybeEvict call.clock.start = w.server := maybeEvict_of_not hevict
  have hswept : w.swept call.clock.start = w := by unfold World.swept; rw [hsame]
  cases hres : again with
  | mk reply w' =>
    cases reply with
    | failed point =>
      obtain ⟨heap,rfl⟩ := process_failed hi hres
      rw [hswept]
      exact ⟨rfl,rfl,fun _ _ h => nomatch h⟩
    | unstored result =>
      simp only [again,World.process,hsame,if_pos hp] at hres
      exact absurd hres processAll_not_unstored
    | stored result rows =>
      obtain ⟨-,l,hl,rfl,-,htopo,hdelta,-⟩ := process_stored hres
      rw [hswept] at hl
      have hsilent := run_second (c := c) (l := w.loop .sound) rfl hi rfl hr.held hedges
        hr.settled hl
      obtain ⟨new,hnew,htype,hiff⟩ := hsilent.events
      have hevents : l.staged.events=new := hnew
      refine ⟨?_,?_,fun result' rows' h => ?_⟩
      · dsimp only
        rw [hdelta,hsilent.pending,hsilent.delta]
        rfl
      · dsimp only
        rw [htopo]
        exact hsilent.topo
      · obtain ⟨-,rfl⟩ := Reply.stored.inj h
        rw [hevents]
        exact ⟨hsilent.rates,htype,hiff⟩

/-- The call that comes again leaves the engines as they are. A stored reply has no rate, no reset
and no topology event, and no truncation event exactly when the truncations of the first call are
stored; the others are held back in the first call by an event it staged itself. -/
theorem resend_silent_iff (c : Codec) {w w₁ w₂ : World} (hw : w.Reachable c) {first second : Call}
    {result : PipelineResult} {rows : Staged} {between : List Happening}
    (hsent : first.env.sentAt.isZero=false)
    (hdistinct : (first.env.instances.filterMap fun inst => c.parseUUID inst.instanceID).Nodup)
    (hordered : ∀ inst∈first.env.instances, ∀ id, c.parseUUID inst.instanceID=some id →
      Delta.Ordered w.server.delta.maxGap (samplesOf c id inst))
    (hstored : w.process c first=(.stored result rows,w₁))
    (hbetween : Run (fun w h w' => Elsewhere c first.env w h ∧ w'=w.step c h) w₁ between w₂)
    (henv : second.env=first.env) (hevict : w₂.server.evicts second.clock.start=false)
    (hedges : acceptedEdges c w.store first.env (fun _ => none) first.env.instances.zipIdx =
      acceptedEdges c w₂.store first.env (fun _ => none) first.env.instances.zipIdx) :
    let again := w₂.process c second
    again.2.server.delta = w₂.server.delta ∧
      again.2.server.topo = { w₂.server.topo with heap := again.2.server.topo.heap } ∧
      (∀ inst∈first.env.instances, ∀ cid id, takenIDs c inst=some (cid,id) →
        ∀ r∈inst.results, r.truncated=true →
          w₁.store.recentlyTruncated ⟨cid.toInt,id⟩ r.check r.ts=true ∨
            ∃ ev∈rows.events, ev.marks ⟨cid.toInt,id⟩ r.check=true ∧
              r.ts.sub ev.ts<truncationEventWindow) ∧
      ∀ result' rows', again.1 = .stored result' rows' → rows'.rates=[] ∧
        (∀ ev∈rows'.events, ev.type=.cardinalityTruncated) ∧
        (rows'.events=[] ↔ TruncationsStored c w₁.store first.env) := by
  intro again
  obtain ⟨hpooled,hreceived,haccounts⟩ := process_received hw hsent hdistinct hordered hstored
  obtain ⟨hpooled₂,hkeeps⟩ := run_keeps hpooled hbetween
  have hrec₂ := hreceived.keeps hkeeps
  rw [← henv] at hrec₂ hedges
  obtain ⟨hdelta,htopo,hreply⟩ := process_again hpooled₂ hrec₂ hevict hedges
  have hforall : ∀ P : Instance → Prop, (∀ p∈first.env.instances.zipIdx, P p.1) ↔
      ∀ inst∈first.env.instances, P inst := by
    intro P
    conv_rhs => rw [← zipIdx_map_fst 0 first.env.instances]
    exact forall_mem_map.symm
  refine ⟨hdelta,htopo,(hforall _).mp haccounts,fun result' rows' h => ?_⟩
  obtain ⟨hrates,htype,hiff⟩ := hreply result' rows' h
  refine ⟨hrates,htype,hiff.trans ?_⟩
  rw [henv]
  unfold TruncationsStored
  rw [← hforall]
  refine forall₂_congr fun p hp => forall₃_congr fun cid id hid => ?_
  refine forall₃_congr fun r hr htr => ?_
  rw [hkeeps.truncated _ _ _ (taken_among hp hid)]

section Microseconds

/-- A call at 2000 seconds with the results of one primary. -/
def primaryCall (results : List Result) : Call :=
  let now : Time := ⟨2000*Duration.second,0⟩
  ⟨{ sentAt := now,
     instances := [{ instanceID := "x", clusterID := "7", role := "primary", results := results }] },
    ⟨now,fun _ => now,fun _ => now,now⟩,.sound⟩

/-- Two truncated results of one check, 100 nanoseconds less than the window apart. -/
def truncatedCall : Call := primaryCall [
  { check := "c", ts := ⟨1000*Duration.second+500,0⟩, truncated := true },
  { check := "c", ts := ⟨1600*Duration.second+400,0⟩, truncated := true }]

def truncatedWorld : World := ⟨newPipeline true ⟨2000*Duration.second,0⟩,⟨[],[]⟩⟩

def Reply.events : Reply → Option (List EventRow)
  | .stored _ rows => some rows.events
  | _ => none

def Reply.rateTimes : Reply → Option (List Time)
  | .stored _ rows => some (rows.rates.map Delta.Point.ts)
  | _ => none

/-- Two samples of a counter a minute apart, the second in a truncated result. -/
def countedCall : Call := primaryCall [
  { check := "c", ts := ⟨1900*Duration.second,0⟩, metrics := [⟨"m",[],5,.counter⟩] },
  { check := "c", ts := ⟨1960*Duration.second,0⟩, metrics := [⟨"m",[],65,.counter⟩],
    truncated := true }]

def counted : Reply × World := truncatedWorld.process smallCodec countedCall

set_option maxRecDepth 10000 in
/-- The first call stores a rate and a truncation event, which its repetition finds in the
store. -/
theorem resend_leaves_engines :
    let again := counted.2.process smallCodec countedCall
    counted.1.rateTimes = some [⟨1960*Duration.second,0⟩] ∧ again.1.events.isSome=true ∧
      again.2.server.delta = counted.2.server.delta ∧
      ∀ result rows, again.1 = .stored result rows → rows.rates=[] ∧ rows.events=[] := by
  intro again
  have hrates : counted.1.rateTimes = some [⟨1960*Duration.second,0⟩] := by decide
  have hstored : again.1.events.isSome=true := by decide
  have htruncated : TruncationsStored smallCodec counted.2.store countedCall.env := by
    intro inst hm cid id hid r hr
    obtain rfl := mem_singleton.mp hm
    cases hid
    revert r
    decide
  have hordered : ∀ inst∈countedCall.env.instances, ∀ id,
      smallCodec.parseUUID inst.instanceID = some id →
        Delta.Ordered truncatedWorld.server.delta.maxGap (samplesOf smallCodec id inst) := by
    intro inst hm id hid
    obtain rfl := mem_singleton.mp hm
    cases hid
    unfold Delta.Ordered
    decide
  have hevict : counted.2.server.evicts countedCall.clock.start = false := by decide
  obtain ⟨result,rows,hfirst⟩ : ∃ result rows, counted.1 = .stored result rows := by
    cases hreply : counted.1 with
    | stored result rows => exact ⟨result,rows,rfl⟩
    | failed point => rw [hreply] at hrates; cases hrates
    | unstored result => rw [hreply] at hrates; cases hrates
  obtain ⟨hdelta,-,-,hsilent⟩ := @resend_silent_iff smallCodec truncatedWorld counted.2 counted.2
    ⟨true,_,_,[],Run.nil _⟩ countedCall countedCall result rows [] (by decide) (by decide) hordered
    (Prod.ext hfirst rfl) (Run.nil _) rfl hevict rfl
  refine ⟨hrates,hstored,hdelta,fun result' rows' h => ?_⟩
  obtain ⟨hnone,-,hiff⟩ := hsilent result' rows' h
  exact ⟨hnone,hiff.mpr htruncated⟩

set_option maxRecDepth 10000 in
/-- The second result has no event in the first call, since one was staged less than ten
minutes before it. Stored in microseconds, the two are ten minutes apart, and the second call
stages an event. -/
theorem resend_truncated_again :
    let first := truncatedWorld.process smallCodec truncatedCall
    let second := first.2.process smallCodec truncatedCall
    first.1.events.map (List.map EventRow.ts) = some [⟨2000*Duration.second,0⟩,
        ⟨1000*Duration.second+500,0⟩] ∧
      second.1.events.map (List.map fun ev => (ev.type,ev.ts)) =
        some [(.cardinalityTruncated,⟨1600*Duration.second+400,0⟩)] := by
  decide

end Microseconds

end Pglens.Server

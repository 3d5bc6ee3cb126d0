import Pglens.Lib.Runs
import Pglens.Server.Pipeline
import Pglens.Topology.Reachable

/-! The undo functions that the loop has collected bring the topology engine back at every point
where Process returns an error, and the rest of the server has not moved by then. So the envelope's
next attempt finds what the first one found. -/
namespace Pglens.Server
open Pglens.Lib Pglens.Wire Duration

/-- The undo functions of the loop lead back to the engine the call began with. -/
structure Loop.Restorable (e₀ : Topology.Engine) (l : Loop) : Prop where
  indexed : l.topo.Indexed
  restores : Topology.Restores l.undos e₀ l.topo

def Ends (failed : Failure → Prop) (ok : Loop → Prop) : Except Failure Loop → Prop
  | .error f => failed f
  | .ok l => ok l

section Undo
variable {c : Codec} {st : Store} {call : Call} {e₀ : Topology.Engine} {l : Loop}

def Undoable (e₀ : Topology.Engine) : Except Failure Loop → Prop :=
  Ends (fun f => Topology.Restores f.undos e₀ f.topo) (Loop.Restorable e₀)

lemma addResolved_undoable (h : l.Restorable e₀) (inst : Instance) (pos : ℕ) (cid : ClusterID)
    (id : UUID) (edges : List Topology.Edge) (q : Lookups) :
    Undoable e₀ (l.addResolved c st call inst pos cid id edges q) := by
  have hpush := h.restores.push h.indexed (call.clock.observed pos)
    (topologyObservation st call.env inst cid id edges)
  unfold Loop.addResolved
  dsimp only
  split
  · exact hpush
  · -- The rejected instance's own undo function runs at once.
    rw [Topology.applyUndoable_run h.indexed]
    exact ⟨h.indexed,fun heap => h.restores heap⟩
  · split
    · exact hpush
    · exact ⟨(Topology.apply_moves h.indexed _ _).1,hpush⟩

lemma step_undoable (c : Codec) (st : Store) (call : Call) (h : l.Restorable e₀) (inst : Instance)
    (pos : ℕ) : Undoable e₀ (l.step c st call inst pos) := by
  have hreject : ∀ err, (l.reject inst err).Restorable e₀ := fun err => ⟨h.indexed,h.restores⟩
  unfold Loop.step
  split
  · exact hreject _
  · split
    · exact hreject _
    · unfold Loop.addInstance
      split
      · exact h.restores
      · exact addResolved_undoable h _ _ _ _ _ _

lemma run_undoable (c : Codec) (st : Store) (call : Call) (h : l.Restorable e₀)
    (todo : List (Instance × ℕ)) : Undoable e₀ (l.run c st call todo) := by
  induction todo generalizing l with
  | nil => exact h
  | cons p todo ih =>
    obtain ⟨inst,pos⟩ := p
    have hs := step_undoable c st call h inst pos
    unfold Loop.run
    cases hstep : l.step c st call inst pos with
    | error f => rw [hstep] at hs; exact hs
    | ok l' => rw [hstep] at hs; exact ih hs

end Undo

def World.loop (w : World) (txn : Txn) : Loop :=
  { topo := w.server.topo, delta := w.server.delta, lookups := ⟨txn,fun _ => none⟩ }

variable {w w' : World} {c : Codec} {call : Call} {todo : List (Instance × ℕ)}
  {result : PipelineResult}

lemma loop_restorable (h : w.server.topo.Indexed) (txn : Txn) :
    (w.loop txn).Restorable w.server.topo := ⟨h,Topology.Restores.nil _⟩

def World.withHeap (w : World) (heap : ℕ) : World :=
  { w with server := { w.server with topo := { w.server.topo with heap := heap } } }

lemma processAll_failed {point : ErrorPoint} (hi : w.server.topo.Indexed)
    (h : w.processAll c call todo=(.failed point,w')) : ∃ heap, w' = w.withHeap heap := by
  unfold World.processAll at h
  split at h
  · cases h
    exact ⟨w.server.topo.heap,rfl⟩
  · rename_i txn _
    have hrun := run_undoable c w.store call (loop_restorable hi txn) todo
    dsimp only at h
    split at h
    · rename_i f hf
      change (w.loop txn).run c w.store call todo = .error f at hf
      rw [hf] at hrun
      cases h
      exact ⟨f.topo.heap,by rw [hrun.undone]; rfl⟩
    · rename_i l hl
      change (w.loop txn).run c w.store call todo = .ok l at hl
      rw [hl] at hrun
      split at h
      · cases h
        exact ⟨l.topo.heap,by rw [hrun.restores.undone]; rfl⟩
      · cases h

lemma processAll_stored {rows : Staged} (h : w.processAll c call todo=(.stored result rows,w')) :
    ∃ txn l txn', call.txn.exec = some txn ∧ (w.loop txn).run c w.store call todo = .ok l ∧
      l.lookups.txn.execAll (finalStatements l.staged) = .ok txn' ∧ result=l.result ∧
      rows = l.staged ∧ w' = ⟨w.server.commit call.clock.counted l,w.store.commit l.staged⟩ := by
  unfold World.processAll at h
  split at h
  · cases h
  · rename_i txn htxn
    dsimp only at h
    split at h
    · cases h
    · rename_i l hl
      split at h
      · cases h
      · rename_i txn' hend
        cases h
        exact ⟨txn,l,txn',htxn,hl,hend,rfl,rfl,rfl⟩

lemma processAll_not_unstored : w.processAll c call todo ≠ (.unstored result,w') := by
  unfold World.processAll
  dsimp only
  repeat' split
  all_goals exact fun h => nomatch h

section Worlds
variable {c : Codec} {w : World}

/-- What happens to a server and its store: an envelope, or a change that something else
makes to the tables. -/
inductive Happening
  | process (call : Call)
  | tables (st : Store)

def World.step (c : Codec) (w : World) : Happening → World
  | .process call => (w.process c call).2
  | .tables st => { w with store := st }

def World.Reachable (c : Codec) (w : World) : Prop :=
  ∃ pool now st happenings,
    Run (fun w h w' => w'=World.step c w h) ⟨newPipeline pool now,st⟩ happenings w

lemma maybeEvict_indexed {p : Pipeline} (h : p.topo.Indexed) (now : Time) :
    (p.maybeEvict now).topo.Indexed := by
  unfold Pipeline.maybeEvict
  split_ifs
  · exact Topology.evict_indexed h _
  · exact h

lemma countChecks_engines (p : Pipeline) (now : Time) (outcomes : List CheckOutcome) :
    let p' := p.countChecks now outcomes
    p'.topo = p.topo ∧ p'.delta=p.delta ∧ p'.pool=p.pool := by
  induction outcomes generalizing p with
  | nil => exact ⟨rfl,rfl,rfl⟩
  | cons o outcomes ih =>
    have hone : (p.countCheck now o).topo = p.topo ∧ (p.countCheck now o).delta = p.delta ∧
        (p.countCheck now o).pool = p.pool := by
      unfold Pipeline.countCheck Pipeline.count
      split_ifs <;> exact ⟨rfl,rfl,rfl⟩
    obtain ⟨ht,hd,hp⟩ := ih (p.countCheck now o)
    exact ⟨ht.trans hone.1,hd.trans hone.2.1,hp.trans hone.2.2⟩

/-- Without a pool the topology engine stays as it is, and the delta engine keeps its gap. -/
def Pipeline.SameGap (p p' : Pipeline) : Prop :=
  p'.topo = p.topo ∧ p'.delta.maxGap=p.delta.maxGap

lemma Pipeline.SameGap.trans {p p' p'' : Pipeline} (h : p.SameGap p') (h' : p'.SameGap p'') :
    p.SameGap p'' := ⟨h'.1.trans h.1,h'.2.trans h.2⟩

lemma metricsNoDB_sameGap (id : UUID) (inst : Instance) (r : Result) (p : Pipeline)
    (ms : List Metric) : p.SameGap (p.metricsNoDB c id inst r ms).2 := by
  induction ms generalizing p with
  | nil => exact ⟨rfl,rfl⟩
  | cons m ms ih =>
    unfold Pipeline.metricsNoDB
    split
    · exact ⟨rfl,rfl⟩
    · refine Pipeline.SameGap.trans ?_ (ih _)
      split_ifs <;> exact ⟨rfl,rfl⟩

lemma resultsNoDB_sameGap (id : UUID) (inst : Instance) (p : Pipeline) (rs : List Result) :
    p.SameGap (p.resultsNoDB c id inst rs).2 := by
  induction rs generalizing p with
  | nil => exact ⟨rfl,rfl⟩
  | cons r rs ih =>
    unfold Pipeline.resultsNoDB
    dsimp only
    generalize hq : (if r.error ≠ "" then p.count id r.check true
        else if r.skipReason = "" then p.count id r.check false else p) = q
    have hcount : p.SameGap q := by
      rw [← hq]
      split_ifs <;> exact ⟨rfl,rfl⟩
    have hm := metricsNoDB_sameGap (c := c) id inst r q r.metrics
    split <;> rename_i heq <;> rw [heq] at hm
    · exact hcount.trans hm
    · exact (hcount.trans hm).trans (ih _)

lemma processNoDB_sameGap (p : Pipeline) (res : PipelineResult) (todo : List Instance) :
    p.SameGap (p.processNoDB c res todo).2 := by
  induction todo generalizing p res with
  | nil => exact ⟨rfl,rfl⟩
  | cons inst todo ih =>
    have hone : p.SameGap (p.processInstanceNoDB c inst).2 := by
      unfold Pipeline.processInstanceNoDB
      split
      · exact ⟨rfl,rfl⟩
      · exact ⟨rfl,rfl⟩
      · exact resultsNoDB_sameGap _ _ _ _
    unfold Pipeline.processNoDB
    split <;> rename_i heq <;> rw [heq] at hone <;> exact hone.trans (ih _ _)

lemma processAll_indexed (h : w.server.topo.Indexed) (call : Call) (todo : List (Instance × ℕ)) :
    (w.processAll c call todo).2.server.topo.Indexed := by
  cases hr : w.processAll c call todo with
  | mk reply w' =>
    cases reply with
    | failed point =>
      obtain ⟨heap,rfl⟩ := processAll_failed h hr
      exact h
    | unstored result => exact absurd hr processAll_not_unstored
    | stored result rows =>
      obtain ⟨txn,l,txn',-,hl,-,-,-,rfl⟩ := processAll_stored hr
      have hrun := run_undoable c w.store call (loop_restorable h txn) todo
      rw [hl] at hrun
      change (Pipeline.countChecks _ _ _).topo.Indexed
      rw [(countChecks_engines _ _ _).1]
      exact hrun.indexed

lemma step_world_indexed (h : w.server.topo.Indexed) (hap : Happening) :
    (w.step c hap).server.topo.Indexed := by
  cases hap with
  | tables st => exact h
  | process call =>
    have he := maybeEvict_indexed h call.clock.start
    change (World.process c w call).2.server.topo.Indexed
    unfold World.process
    dsimp only
    split_ifs
    · exact processAll_indexed he _ _
    · change (Pipeline.processNoDB _ _ _ _).2.topo.Indexed
      rw [(processNoDB_sameGap _ _ _).1]
      exact he

lemma World.Reachable.indexed (h : w.Reachable c) : w.server.topo.Indexed := by
  obtain ⟨pool,now,st,happenings,hrun⟩ := h
  exact hrun.invariant (P := fun w => w.server.topo.Indexed)
    (fun _ _ _ hi hs => hs ▸ step_world_indexed hi _) Topology.newEngine_indexed

end Worlds

section Retry
variable {c : Codec} {st : Store} {call : Call} {l l' : Loop}

/-- Loops that differ only in the addresses of their topology engines, in the undo functions
that go with them, in what they looked up and in what they reply. -/
structure Loop.Alike (l l' : Loop) : Prop where
  topo : l.topo.Alike l'.topo
  indexed : l.topo.Indexed
  indexed' : l'.topo.Indexed
  delta : l.delta=l'.delta
  staged : l.staged=l'.staged
  batches : l.batches=l'.batches
  txn : l.lookups.txn=l'.lookups.txn

def Agree (R : Loop → Loop → Prop) : Except Failure Loop → Except Failure Loop → Prop
  | .error f,.error f' => f.point=f'.point
  | .ok l,.ok l' => R l l'
  | _,_ => False

lemma Agree.imp {R R' : Loop → Loop → Prop} {x y : Except Failure Loop} (h : Agree R x y)
    (himp : ∀ l l', R l l' → R' l l') : Agree R' x y := by
  cases x <;> cases y <;> first | exact h | exact himp _ _ h

lemma Loop.Alike.addResolved (h : l.Alike l') (inst : Instance) (pos : ℕ) (cid : ClusterID)
    (id : UUID) (edges : List Topology.Edge) {q q' : Lookups} (hq : q.txn=q'.txn) :
    Agree (fun m m' => m.Alike m' ∧ m.lookups.cache=q.cache ∧ m'.lookups.cache=q'.cache ∧
        (l.result=l'.result → m.result=m'.result))
      (l.addResolved c st call inst pos cid id edges q)
      (l'.addResolved c st call inst pos cid id edges q') := by
  let now := call.clock.observed pos
  let obs := topologyObservation st call.env inst cid id edges
  obtain ⟨hev,htopo⟩ := h.topo.apply now obs
  have hev' : (l.topo.applyUndoable now obs).1 = (l'.topo.applyUndoable now obs).1 := hev
  unfold Loop.addResolved
  simp only [now,obs] at hev'
  simp only [hev',h.delta,hq]
  generalize InstanceState.addResults _ _ _ _ = verdict
  cases verdict with
  | failed => rfl
  | rejected err txn =>
    refine ⟨⟨?_,?_,?_,rfl,h.staged,h.batches,rfl⟩,rfl,rfl,fun hres => ?_⟩
    · simp only [Loop.reject,Topology.applyUndoable_run h.indexed,
        Topology.applyUndoable_run h.indexed']
      exact ⟨h.topo.instances,h.topo.index,h.topo.lastPrimary,h.topo.failover,h.topo.splitBrain⟩
    · simp only [Loop.reject,Topology.applyUndoable_run h.indexed]
      exact h.indexed
    · simp only [Loop.reject,Topology.applyUndoable_run h.indexed']
      exact h.indexed'
    · simp only [Loop.reject,hres]
  | taken s txn =>
    dsimp only
    cases txn.execAll (acceptStatements s) with
    | error point => rfl
    | ok txn =>
      refine ⟨⟨htopo,(Topology.apply_moves h.indexed _ _).1,
        (Topology.apply_moves h.indexed' _ _).1,rfl,?_,?_,rfl⟩,rfl,rfl,fun hres => ?_⟩
      · simp only [h.staged]
      · simp only [h.batches]
      · simp only [hres]

/-- Loops alike in everything an envelope's reply is made from. -/
structure Loop.Twin (l l' : Loop) : Prop extends l.Alike l' where
  lookups : l.lookups=l'.lookups
  result : l.result=l'.result

lemma Loop.Twin.step (c : Codec) (st : Store) (call : Call) (h : l.Twin l') (inst : Instance)
    (pos : ℕ) : Agree Loop.Twin (l.step c st call inst pos) (l'.step c st call inst pos) := by
  have hreject : ∀ err, (l.reject inst err).Twin (l'.reject inst err) := fun err =>
    ⟨⟨h.topo,h.indexed,h.indexed',h.delta,h.staged,h.batches,h.txn⟩,h.lookups,by
      simp only [Loop.reject,h.result]⟩
  unfold Loop.step
  split
  · exact hreject _
  · split
    · exact hreject _
    · unfold Loop.addInstance
      rw [h.lookups]
      split
      · rfl
      · exact (h.toAlike.addResolved inst pos _ _ _ rfl).imp fun m m' ⟨ha,hc,hc',hres⟩ =>
          ⟨ha,Lookups.ext ha.txn (hc.trans hc'.symm),hres h.result⟩

lemma Loop.Twin.run (c : Codec) (st : Store) (call : Call)
    (h : l.Twin l') (todo : List (Instance × ℕ)) :
    Agree Loop.Twin (l.run c st call todo) (l'.run c st call todo) := by
  induction todo generalizing l l' with
  | nil => exact h
  | cons p todo ih =>
    obtain ⟨inst,pos⟩ := p
    have hs := h.step c st call inst pos
    unfold Loop.run
    cases hstep : l.step c st call inst pos <;> cases hstep' : l'.step c st call inst pos <;>
      rw [hstep,hstep'] at hs
    · exact hs
    · exact hs.elim
    · exact hs.elim
    · exact ih hs

variable {w w' : World} {point : ErrorPoint}

lemma loop_twin (hi : w.server.topo.Indexed) (heap : ℕ) (txn : Txn) :
    ((w.withHeap heap).loop txn).Twin (w.loop txn) :=
  ⟨⟨⟨fun _ => rfl,rfl,fun _ => rfl,rfl,rfl⟩,hi,hi,rfl,rfl,rfl,rfl⟩,rfl,rfl⟩

lemma processAll_withHeap (hi : w.server.topo.Indexed) (heap : ℕ) (call : Call)
    (todo : List (Instance × ℕ)) :
    ((w.withHeap heap).processAll c call todo).1 = (w.processAll c call todo).1 := by
  unfold World.processAll
  cases call.txn.exec with
  | none => rfl
  | some txn =>
    have hrun := (loop_twin hi heap txn).run c w.store call todo
    change (match ((w.withHeap heap).loop txn).run c w.store call todo with
      | .error f => _ | .ok l => _ : Reply × World).1 = (match (w.loop txn).run c w.store call todo with
      | .error f => _ | .ok l => _ : Reply × World).1
    cases hl : ((w.withHeap heap).loop txn).run c w.store call todo <;>
      cases hl' : (w.loop txn).run c w.store call todo <;> rw [hl,hl'] at hrun
    · exact congrArg Reply.failed hrun
    · exact hrun.elim
    · exact hrun.elim
    · dsimp only
      rw [hrun.txn,hrun.staged,hrun.result]
      split <;> rfl

lemma maybeEvict_of_not {p : Pipeline} {now : Time} (h : p.evicts now=false) :
    p.maybeEvict now = p := by simp [Pipeline.maybeEvict,h]

lemma maybeEvict_settles (p : Pipeline) (now : Time) : (p.maybeEvict now).evicts now = false := by
  by_cases h : p.evicts now = true
  · have hz : now.sub now = 0 := by simp [Time.sub,maxDuration,minDuration]
    unfold Pipeline.maybeEvict
    rw [if_pos h]
    simp [Pipeline.evicts,hz,minute,second]
  · rw [maybeEvict_of_not (by simpa using h)]
    simpa using h

def World.swept (w : World) (now : Time) : World := { w with server := w.server.maybeEvict now }

lemma process_failed (hi : w.server.topo.Indexed) (h : w.process c call=(.failed point,w')) :
    ∃ heap, w' = (w.swept call.clock.start).withHeap heap := by
  unfold World.process at h
  dsimp only at h
  split_ifs at h
  · exact processAll_failed (maybeEvict_indexed hi _) h
  · cases h

lemma process_retry (hi : w.server.topo.Indexed)
    (h : w.process c call=(.failed point,w')) (txn : Txn) :
    (w'.process c { call with txn := txn }).1 = (w.process c { call with txn := txn }).1 := by
  obtain ⟨heap,rfl⟩ := process_failed hi h
  have hsettled : ((w.swept call.clock.start).withHeap heap).server.maybeEvict call.clock.start =
      ((w.swept call.clock.start).withHeap heap).server :=
    maybeEvict_of_not (maybeEvict_settles w.server call.clock.start)
  by_cases hp : (w.server.maybeEvict call.clock.start).pool = true
  · have hp' : ((w.swept call.clock.start).withHeap heap).server.pool = true := hp
    unfold World.process
    dsimp only
    rw [hsettled,if_pos hp,if_pos hp']
    exact processAll_withHeap (maybeEvict_indexed hi _) _ _ _
  · unfold World.process at h
    rw [if_neg hp] at h
    cases h

end Retry

end Pglens.Server

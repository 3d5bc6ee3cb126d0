import Pglens.Server.Rollback

/-! A stored envelope ran on a transaction in which nothing failed, so what it did is what it does
on a sound one. There a rejected instance changes nothing that another instance reads, except the
cache of upstream lookups: its key joins an address and a port with a colon, so an instance can find
an answer to another question than its own. Where two questions under one key are the same question,
it finds what it would have found. -/
namespace Pglens.Server
open Pglens.Lib Pglens.Wire List Duration

section Sound

def Lookups.onSound (q : Lookups) : Lookups := ⟨.sound,q.cache⟩

/-- What ends without a failed statement does the same on a sound transaction, where no
statement fails. -/
structure Faultless {α : Type} (f : Lookups → α × Lookups) : Prop where
  same : ∀ q, ¬(f q).2.txn.Spent → ¬q.txn.Spent ∧ f q.onSound = ((f q).1,(f q).2.onSound)
  sound : ∀ cache, (f ⟨.sound,cache⟩).2.txn = .sound

section Faultless
variable {α β : Type}

lemma Faultless.bind {f : Lookups → α × Lookups} {g : α → Lookups → β × Lookups}
    (hf : Faultless f) (hg : ∀ a, Faultless (g a)) : Faultless fun q => g (f q).1 (f q).2 := by
  refine ⟨fun q h => ?_,fun cache => ?_⟩
  · obtain ⟨hm,hge⟩ := (hg (f q).1).same (f q).2 h
    obtain ⟨hq,hfe⟩ := hf.same q hm
    refine ⟨hq,?_⟩
    rw [hfe]
    exact hge
  · have hs := hf.sound cache
    change (g (f ⟨.sound,cache⟩).1 (f ⟨.sound,cache⟩).2).2.txn = .sound
    generalize f ⟨.sound,cache⟩ = r at hs ⊢
    obtain ⟨a,⟨txn,cache'⟩⟩ := r
    obtain rfl : txn=.sound := hs
    exact (hg a).sound cache'

lemma faultless_pure (a : α) : Faultless fun q => (a,q) := ⟨fun _ h => ⟨h,rfl⟩,fun _ => rfl⟩

lemma faultless_query (a b : α) :
    Faultless fun q => (if q.txn.query.1 then a else b,⟨q.txn.query.2,q.cache⟩) := by
  refine ⟨fun q h => ?_,fun cache => rfl⟩
  obtain ⟨hq,hans⟩ := Txn.query_not_spent h
  refine ⟨hq,?_⟩
  simp [Lookups.onSound,hans]

lemma remember_faultless (key : String) (answer : Option UUID) :
    Faultless fun q => q.remember key answer := by
  cases answer with
  | none => exact faultless_pure none
  | some id => exact ⟨fun _ h => ⟨h,rfl⟩,fun _ => rfl⟩

end Faultless

section Resolve
variable (a : Addresses) (st : Store) (cluster : ℤ) (addr : String) (port : ℤ)

lemma lookUpName_faultless : Faultless (lookUpName st cluster addr) := by
  unfold lookUpName
  split_ifs
  · exact faultless_pure none
  · exact faultless_query _ _

lemma lookUpHost_faultless : Faultless (lookUpHost st cluster addr port) := by
  refine ⟨fun q h => ?_,fun cache => rfl⟩
  obtain ⟨hq,hans⟩ := Txn.query_not_spent h
  refine ⟨hq,?_⟩
  simp [lookUpHost,Lookups.onSound,hans]

lemma lookUpAddr_faultless : Faultless (lookUpAddr st cluster addr port) := by
  have hall := ((lookUpName_faultless st cluster addr).bind (g := fun found q =>
    found.elim (lookUpHost st cluster addr port q) fun id => (some id,q)) fun found => by
      cases found with
      | none => exact lookUpHost_faultless st cluster addr port
      | some id => exact faultless_pure _).bind
    (g := fun found q => q.remember (clusterAddr cluster (endpointKey addr port)) found)
    fun found => remember_faultless _ found
  refine (funext fun q => ?_ : lookUpAddr st cluster addr port=_) ▸ hall
  dsimp only [lookUpAddr]
  cases (lookUpName st cluster addr q).1 <;> rfl

lemma resolveAddr_faultless : Faultless (resolveAddr a st cluster addr port) := by
  unfold resolveAddr
  cases a.resolve cluster addr port with
  | some answer => exact faultless_pure answer
  | none =>
    have hl := lookUpAddr_faultless st cluster addr port
    refine ⟨fun q h => ?_,fun cache => ?_⟩
    · dsimp only [Lookups.onSound] at h ⊢
      cases hc : q.cache (clusterAddr cluster (endpointKey addr port)) with
      | some id =>
        rw [hc] at h
        exact ⟨h,rfl⟩
      | none =>
        rw [hc] at h
        exact hl.same q h
    · dsimp only
      cases cache (clusterAddr cluster (endpointKey addr port)) with
      | some id => rfl
      | none => exact hl.sound cache

lemma resolveEdge_faultless (cid : ClusterID) (id : UUID) (we : Wire.Edge) :
    Faultless (resolveEdge a st cid id we) := by
  unfold resolveEdge
  cases confidence we.confidence with
  | none => exact faultless_pure none
  | some conf =>
    exact (resolveAddr_faultless a st cid.toInt we.toAddr we.port).bind
      (g := fun found q => ((found.orElse fun _ => if (a.clusterPrimaries cid).2=1
        then some (a.clusterPrimaries cid).1 else none).map fun toID =>
          (⟨id,toID,we.type,"",conf⟩ : Topology.Edge),q)) fun found => faultless_pure _

lemma resolveEdges_faultless (cid : ClusterID) (id : UUID) (wes : List Wire.Edge) :
    Faultless (resolveEdges a st cid id wes) := by
  induction wes with
  | nil => exact faultless_pure []
  | cons we wes ih =>
    exact (resolveEdge_faultless a st cid id we).bind
      (g := fun edge q => (edge.toList++(resolveEdges a st cid id wes q).1,
        (resolveEdges a st cid id wes q).2)) fun edge =>
      ih.bind (g := fun edges q => (edge.toList++edges,q)) fun edges => faultless_pure _

end Resolve

def Verdict.Clean : Verdict → Prop
  | .taken _ txn => ¬txn.Spent
  | .rejected _ txn => ¬txn.Spent
  | .failed => False

def Verdict.onSound : Verdict → Verdict
  | .taken s _ => .taken s .sound
  | .rejected err _ => .rejected err .sound
  | .failed => .failed

section Results
variable {x : Context} {s s' : InstanceState} {txn txn' : Txn}

lemma markTruncated_faultless {r : Result} (h : s.markTruncated x txn r=some (s',txn'))
    (hs : ¬txn'.Spent) : ¬txn.Spent ∧ s.markTruncated x .sound r = some (s',.sound) := by
  unfold InstanceState.markTruncated at h ⊢
  split_ifs at h ⊢ with hr
  · unfold truncationEventDue at h ⊢
    split_ifs at h ⊢ with hw
    · cases h
      exact ⟨hs,rfl⟩
    · obtain ⟨⟨due,t⟩,hdue,hres⟩ := Option.map_eq_some_iff.mp h
      obtain ⟨t',ht',he⟩ := Option.map_eq_some_iff.mp hdue
      cases he
      cases hres
      exact ⟨Txn.exec_not_spent ht',by simp⟩
  · cases h
    exact ⟨hs,rfl⟩

lemma addResult_faultless (x : Context) (s : InstanceState) (txn : Txn) (r : Result)
    (h : (s.addResult x txn r).Clean) :
    ¬txn.Spent ∧ s.addResult x .sound r = (s.addResult x txn r).onSound := by
  unfold InstanceState.addResult at h ⊢
  cases hm : (s.note x r).markTruncated x txn r with
  | none => rw [hm] at h; exact h.elim
  | some p =>
    obtain ⟨t,txn'⟩ := p
    rw [hm] at h
    dsimp only at h
    have hs : ¬txn'.Spent := by split at h <;> exact h
    obtain ⟨hq,he⟩ := markTruncated_faultless hm hs
    refine ⟨hq,?_⟩
    rw [he]
    dsimp only
    split <;> rfl

lemma addResults_faultless (rs : List Result) (h : (s.addResults x txn rs).Clean) :
    ¬txn.Spent ∧ s.addResults x .sound rs = (s.addResults x txn rs).onSound := by
  induction rs generalizing s txn with
  | nil => exact ⟨h,rfl⟩
  | cons r rs ih =>
    have hone := addResult_faultless x s txn r
    unfold InstanceState.addResults at h ⊢
    cases hv : s.addResult x txn r with
    | failed => rw [hv] at h; exact h.elim
    | rejected err txn' =>
      rw [hv] at h hone
      obtain ⟨hq,he⟩ := hone h
      exact ⟨hq,by rw [he]; rfl⟩
    | taken s' txn' =>
      rw [hv] at h hone
      obtain ⟨hq',he'⟩ := ih h
      obtain ⟨hq,he⟩ := hone hq'
      exact ⟨hq,by rw [he]; exact he'⟩

end Results

def Loop.onSound (l : Loop) : Loop := { l with lookups := l.lookups.onSound }

section Loops
variable {c : Codec} {st : Store} {call : Call} {l l' : Loop}

lemma addResolved_faultless {inst : Instance} {pos : ℕ} {cid : ClusterID} {id : UUID}
    {edges : List Topology.Edge} {q : Lookups}
    (h : l.addResolved c st call inst pos cid id edges q = .ok l')
    (hs : ¬l'.lookups.txn.Spent) : ¬q.txn.Spent ∧
      l.onSound.addResolved c st call inst pos cid id edges q.onSound = .ok l'.onSound := by
  unfold Loop.addResolved at h ⊢
  dsimp only [Loop.onSound,Lookups.onSound] at h ⊢
  split at h
  · cases h
  · rename_i err txn hv
    cases h
    obtain ⟨hq,he⟩ := addResults_faultless inst.results (by rw [hv]; exact hs)
    refine ⟨hq,?_⟩
    rw [he,hv]
    rfl
  · rename_i s txn hv
    split at h
    · cases h
    · rename_i txn' hexec
      cases h
      obtain ⟨hq,he⟩ := addResults_faultless inst.results
        (by rw [hv]; exact Txn.execAll_not_spent hexec hs)
      refine ⟨hq,?_⟩
      rw [he,hv]
      dsimp only [Verdict.onSound]
      rw [Txn.execAll_sound]

lemma step_faultless {inst : Instance} {pos : ℕ} (h : l.step c st call inst pos = .ok l')
    (hs : ¬l'.lookups.txn.Spent) :
    ¬l.lookups.txn.Spent ∧ l.onSound.step c st call inst pos = .ok l'.onSound := by
  unfold Loop.step at h ⊢
  split at h
  · cases h
    exact ⟨hs,rfl⟩
  · split at h
    · cases h
      exact ⟨hs,rfl⟩
    · unfold Loop.addInstance at h ⊢
      cases he : l.lookups.txn.exec with
      | none => rw [he] at h; cases h
      | some txn =>
        rw [he] at h
        dsimp only at h
        obtain ⟨hq,hok⟩ := addResolved_faultless h hs
        obtain ⟨-,hres⟩ := (resolveEdges_faultless _ _ _ _ _).same _ hq
        refine ⟨Txn.exec_not_spent he,?_⟩
        simp only [Loop.onSound,Lookups.onSound,Txn.exec_sound] at hres hok ⊢
        rw [hres]
        exact hok

lemma run_faultless {todo : List (Instance × ℕ)} (h : l.run c st call todo = .ok l')
    (hs : ¬l'.lookups.txn.Spent) :
    ¬l.lookups.txn.Spent ∧ l.onSound.run c st call todo = .ok l'.onSound := by
  induction todo generalizing l with
  | nil =>
    cases h
    exact ⟨hs,rfl⟩
  | cons p todo ih =>
    obtain ⟨inst,pos⟩ := p
    unfold Loop.run at h ⊢
    cases hstep : l.step c st call inst pos with
    | error f => rw [hstep] at h; cases h
    | ok m =>
      rw [hstep] at h
      obtain ⟨hm,hrest⟩ := ih h
      obtain ⟨hl,hs'⟩ := step_faultless hstep hm
      exact ⟨hl,by rw [hs']; exact hrest⟩

end Loops

end Sound

def ofUnknownKind (m : Metric) : Bool :=
  match m.kind with
  | .other _ => true
  | _ => false

def unknownKind (inst : Instance) : Bool := inst.results.any fun r => r.metrics.any ofUnknownKind

section Rejected
variable {x : Context} {s : InstanceState}

lemma addMetrics_error_iff (r : Result) (ms : List Metric) :
    (∃ err, s.addMetrics x r ms = .error err) ↔ ms.any ofUnknownKind = true := by
  induction ms generalizing s with
  | nil => simp [InstanceState.addMetrics]
  | cons m ms ih =>
    unfold InstanceState.addMetrics
    cases hk : m.kind with
    | other kind => simp [InstanceState.addMetric,hk,ofUnknownKind]
    | gauge =>
      obtain ⟨s',hs'⟩ : ∃ s', s.addMetric x r m = .ok s' := by
        unfold InstanceState.addMetric
        rw [hk]
        dsimp only
        split_ifs <;> exact ⟨_,rfl⟩
      rw [hs']
      simpa [hk,ofUnknownKind] using ih
    | counter =>
      obtain ⟨s',hs'⟩ : ∃ s', s.addMetric x r m = .ok s' := by
        unfold InstanceState.addMetric
        rw [hk]
        dsimp only
        split_ifs <;> exact ⟨_,rfl⟩
      rw [hs']
      simpa [hk,ofUnknownKind] using ih

lemma addResults_sound (rs : List Result) :
    if (rs.any fun r => r.metrics.any ofUnknownKind) = true
    then ∃ err, s.addResults x .sound rs = .rejected err .sound
    else ∃ s', s.addResults x .sound rs = .taken s' .sound := by
  induction rs generalizing s with
  | nil => exact ⟨s,rfl⟩
  | cons r rs ih =>
    obtain ⟨t,ht⟩ : ∃ t, (s.note x r).markTruncated x .sound r = some (t,.sound) := by
      unfold InstanceState.markTruncated truncationEventDue
      split_ifs <;> exact ⟨_,rfl⟩
    have herr := addMetrics_error_iff (x := x) (s := t.describe x r) r r.metrics
    unfold InstanceState.addResults InstanceState.addResult
    rw [ht,any_cons]
    dsimp only
    cases hm : (t.describe x r).addMetrics x r r.metrics with
    | error err =>
      rw [herr.mp ⟨err,hm⟩]
      exact ⟨err,rfl⟩
    | ok u =>
      have hany : r.metrics.any ofUnknownKind = false := by
        by_contra hne
        obtain ⟨err,he⟩ := herr.mpr (by simpa using hne)
        rw [hm] at he
        cases he
      rw [hany,Bool.false_or]
      exact ih

lemma addResults_taken {s' : InstanceState} {txn txn' : Txn} {rs : List Result}
    (h : s.addResults x txn rs = .taken s' txn') :
    (rs.any fun r => r.metrics.any ofUnknownKind) = false := by
  induction rs generalizing s txn with
  | nil => rfl
  | cons r rs ih =>
    unfold InstanceState.addResults at h
    cases hv : s.addResult x txn r with
    | failed => rw [hv] at h; cases h
    | rejected err txn' => rw [hv] at h; cases h
    | taken t txn₁ =>
      rw [hv] at h
      rw [any_cons,ih h,Bool.or_false]
      unfold InstanceState.addResult at hv
      split at hv
      · cases hv
      · rename_i u _ _
        by_contra hne
        obtain ⟨err,he⟩ := (addMetrics_error_iff (x := x) (s := u.describe x r) r r.metrics).mpr
          (by simpa using hne)
        rw [he] at hv
        cases hv

lemma step_rejected {c : Codec} {st : Store} {call : Call} {l m : Loop} {inst : Instance} {pos : ℕ}
    (hi : l.topo.Indexed) (hu : unknownKind inst=true) (h : l.step c st call inst pos = .ok m) :
    m.staged = l.staged ∧ m.batches=l.batches ∧ m.delta=l.delta ∧ m.undos=l.undos ∧
      m.topo = { l.topo with heap := m.topo.heap } := by
  unfold Loop.step at h
  split at h
  · cases h
    exact ⟨rfl,rfl,rfl,rfl,rfl⟩
  · split at h
    · cases h
      exact ⟨rfl,rfl,rfl,rfl,rfl⟩
    · unfold Loop.addInstance at h
      split at h
      · cases h
      · unfold Loop.addResolved at h
        dsimp only at h
        split at h
        · cases h
        · cases h
          refine ⟨rfl,rfl,rfl,rfl,?_⟩
          simp only [Loop.reject,Topology.applyUndoable_run hi]
        · rename_i hv
          exact absurd (hu.symm.trans (addResults_taken hv)) (by decide)

end Rejected

/-- The edges of an instance that is taken, on a sound transaction, and the cache its lookups
leave. -/
def ownEdges (c : Codec) (st : Store) (env : Envelope) (cache : String → Option UUID)
    (inst : Instance) : List (Origin × List Topology.Edge) × (String → Option UUID) :=
  match c.parseClusterID inst.clusterID,c.parseUUID inst.instanceID with
  | some cid,some id =>
    let r := resolveEdges (addressesOf c env) st cid id (upstreams inst) ⟨.sound,cache⟩
    (if unknownKind inst then [] else [(⟨cid.toInt,id⟩,r.1)],r.2.cache)
  | _,_ => ([],cache)

def acceptedEdges (c : Codec) (st : Store) (env : Envelope) :
    (String → Option UUID) → List (Instance × ℕ) → List (Origin × List Topology.Edge)
  | _,[] => []
  | cache,(inst,_)::todo =>
    let r := ownEdges c st env cache inst
    r.1++acceptedEdges c st env r.2 todo

lemma acceptedEdges_cons (c : Codec) (st : Store) (env : Envelope)
    (cache : String → Option UUID) (inst : Instance) (pos : ℕ) (todo : List (Instance × ℕ)) :
    acceptedEdges c st env cache ((inst,pos)::todo) = (ownEdges c st env cache inst).1 ++
      acceptedEdges c st env (ownEdges c st env cache inst).2 todo := rfl

/-- A question to the store: an upstream that the envelope does not know. -/
structure Ask where
  cluster : ℤ
  addr : String
  port : ℤ
  deriving DecidableEq

/-- The key of its answer in the cache. -/
def Ask.key (ask : Ask) : String := clusterAddr ask.cluster (endpointKey ask.addr ask.port)

def asksOf (a : Addresses) (cid : ClusterID) (wes : List Wire.Edge) : List Ask :=
  (wes.filter fun we => (confidence we.confidence).isSome &&
    (a.resolve cid.toInt we.toAddr we.port).isNone).map fun we => ⟨cid.toInt,we.toAddr,we.port⟩

def asks (c : Codec) (env : Envelope) (inst : Instance) : List Ask :=
  match c.parseClusterID inst.clusterID,c.parseUUID inst.instanceID with
  | some cid,some _ => asksOf (addressesOf c env) cid (upstreams inst)
  | _,_ => []

/-- No instance that is skipped asks, under the key of a question of a later one that is not,
for another address and port. -/
def AsksApart (c : Codec) (env : Envelope) (skip : ℕ → Bool) : Prop :=
  env.instances.zipIdx.Pairwise fun x y => skip x.2 = true → skip y.2 = false →
    ∀ ask ∈ asks c env x.1, ∀ ask' ∈ asks c env y.1, ask.key=ask'.key → ask=ask'

section Sim
variable {c : Codec} {st : Store} {call : Call} {l l' : Loop} {inst : Instance}

lemma Loop.Alike.refl (h : l.topo.Indexed) : l.Alike l :=
  ⟨.refl _,h,h,rfl,rfl,rfl,rfl⟩

lemma Loop.Alike.trans {l'' : Loop} (h : l.Alike l') (h' : l'.Alike l'') : l.Alike l'' :=
  ⟨h.topo.trans h'.topo,h.indexed,h'.indexed',h.delta.trans h'.delta,h.staged.trans h'.staged,
    h.batches.trans h'.batches,h.txn.trans h'.txn⟩

lemma Loop.Alike.symm (h : l.Alike l') : l'.Alike l :=
  ⟨h.topo.symm,h.indexed',h.indexed,h.delta.symm,h.staged.symm,h.batches.symm,h.txn.symm⟩

lemma addResolved_sound (hl : l.lookups.txn=.sound) (hi : l.topo.Indexed) (pos : ℕ)
    (cid : ClusterID) (id : UUID) (edges : List Topology.Edge) (cache : String → Option UUID) :
    ∃ m, l.addResolved c st call inst pos cid id edges ⟨.sound,cache⟩ = .ok m ∧
      m.lookups = ⟨.sound,cache⟩ ∧ m.topo.Indexed ∧
      (unknownKind inst=true → m.Alike l ∧ m.undos=l.undos) := by
  have hr := addResults_sound (x := ⟨c,st,inst,⟨cid.toInt,id⟩,edges⟩)
    (s := .start l.delta ((l.topo.applyUndoable (call.clock.observed pos)
      (topologyObservation st call.env inst cid id edges)).1.map
        (topologyEvent ⟨cid.toInt,id⟩))) inst.results
  have hrun := Topology.applyUndoable_run hi (call.clock.observed pos)
    (topologyObservation st call.env inst cid id edges)
  unfold Loop.addResolved
  change if unknownKind inst = true then _ else _ at hr
  split_ifs at hr with hu
  · obtain ⟨err,he⟩ := hr
    simp only [he]
    refine ⟨_,rfl,rfl,?_,fun _ => ⟨⟨?_,?_,hi,rfl,rfl,rfl,hl.symm⟩,rfl⟩⟩
    all_goals simp only [Loop.reject,hrun]
    · exact hi
    · exact Topology.Engine.Alike.heap l.topo _ l.topo.heap
    · exact hi
  · obtain ⟨s,hs⟩ := hr
    simp only [hs,Txn.execAll_sound]
    exact ⟨_,rfl,rfl,(Topology.apply_moves hi _ _).1,fun h => absurd h hu⟩

lemma addInstance_sound (hl : l.lookups.txn=.sound) (pos : ℕ) (cid : ClusterID) (id : UUID) :
    let r := resolveEdges (addressesOf c call.env) st cid id (upstreams inst)
      ⟨.sound,l.lookups.cache⟩
    l.addInstance c st call inst pos cid id =
      l.addResolved c st call inst pos cid id r.1 ⟨.sound,r.2.cache⟩ := by
  intro r
  have hsound : r.2.txn=.sound := (resolveEdges_faultless _ _ _ _ _).sound _
  unfold Loop.addInstance
  rw [hl,Txn.exec_sound]
  change l.addResolved c st call inst pos cid id r.1 r.2 = _
  rw [← hsound]

lemma step_sound (c : Codec) (st : Store) (call : Call) (inst : Instance)
    (hl : l.lookups.txn=.sound) (hi : l.topo.Indexed) (pos : ℕ) :
    let own := ownEdges c st call.env l.lookups.cache inst
    ∃ m, l.step c st call inst pos = .ok m ∧ m.lookups = ⟨.sound,own.2⟩ ∧ m.topo.Indexed ∧
      (unknownKind inst=true → m.Alike l ∧ m.undos=l.undos) := by
  have hreject : ∀ err, (l.reject inst err).Alike l := fun err => ⟨.refl _,hi,hi,rfl,rfl,rfl,rfl⟩
  have hlook : l.lookups = ⟨.sound,l.lookups.cache⟩ := Lookups.ext hl rfl
  unfold Loop.step ownEdges
  cases hc : c.parseClusterID inst.clusterID with
  | none =>
    exact ⟨_,rfl,hlook,hi,fun _ => ⟨hreject _,rfl⟩⟩
  | some cid =>
    cases hid : c.parseUUID inst.instanceID with
    | none =>
      exact ⟨_,rfl,hlook,hi,fun _ => ⟨hreject _,rfl⟩⟩
    | some id =>
      dsimp only
      rw [addInstance_sound hl]
      exact addResolved_sound hl hi pos cid id _ _

lemma step_alike (call : Call) (h : l.Alike l') (hl : l.lookups.txn=.sound) (pos : ℕ)
    (hown : (ownEdges c st call.env l.lookups.cache inst).1 =
      (ownEdges c st call.env l'.lookups.cache inst).1) :
    Agree Loop.Alike (l.step c st call inst pos) (l'.step c st call inst pos) := by
  have hl' : l'.lookups.txn=.sound := h.txn.symm.trans hl
  by_cases hu : unknownKind inst = true
  · obtain ⟨m,hm,-,-,hrej⟩ := step_sound c st call inst hl h.indexed pos
    obtain ⟨m',hm',-,-,hrej'⟩ := step_sound c st call inst hl' h.indexed' pos
    rw [hm,hm']
    exact ((hrej hu).1.trans h).trans (hrej' hu).1.symm
  · have hreject : ∀ err, (l.reject inst err).Alike (l'.reject inst err) := fun err =>
      ⟨h.topo,h.indexed,h.indexed',h.delta,h.staged,h.batches,h.txn⟩
    unfold Loop.step
    unfold ownEdges at hown
    cases hc : c.parseClusterID inst.clusterID with
    | none => exact hreject _
    | some cid =>
      cases hid : c.parseUUID inst.instanceID with
      | none => exact hreject _
      | some id =>
        simp only [hc,hid,hu,Bool.false_eq_true,if_false,List.cons.injEq,Prod.mk.injEq,
          true_and,and_true] at hown
        dsimp only
        rw [addInstance_sound hl,addInstance_sound hl',hown]
        refine (h.addResolved inst pos cid id _ ?_).imp fun _ _ hr => hr.1
        rfl

lemma run_sound (c : Codec) (st : Store) (call : Call)
    (hl : l.lookups.txn=.sound) (hi : l.topo.Indexed) (todo : List (Instance × ℕ)) :
    ∃ m, l.run c st call todo = .ok m ∧ m.lookups.txn=.sound := by
  induction todo generalizing l with
  | nil => exact ⟨l,rfl,hl⟩
  | cons p todo ih =>
    obtain ⟨inst,pos⟩ := p
    obtain ⟨m,hm,hml,hmi,-⟩ := step_sound c st call inst hl hi pos
    obtain ⟨n,hn,hnl⟩ := ih (by rw [hml]) hmi
    refine ⟨n,?_,hnl⟩
    unfold Loop.run
    rw [hm]
    exact hn

lemma ownEdges_length (cache cache' : String → Option UUID) (env : Envelope) :
    (ownEdges c st env cache inst).1.length = (ownEdges c st env cache' inst).1.length := by
  unfold ownEdges
  split
  · dsimp only
    split_ifs <;> rfl
  · rfl

lemma ownEdges_rejected {env : Envelope} {cache : String → Option UUID}
    (h : unknownKind inst=true) : (ownEdges c st env cache inst).1 = [] := by
  unfold ownEdges
  split
  · exact if_pos h
  · rfl

lemma run_skipping (c : Codec) (st : Store) (call : Call)
    (keep : Instance × ℕ → Bool) (h : l.Alike l') (hl : l.lookups.txn=.sound)
    {todo : List (Instance × ℕ)} (hkeep : ∀ p∈todo, keep p=false → unknownKind p.1=true)
    (hedges : acceptedEdges c st call.env l.lookups.cache todo =
      acceptedEdges c st call.env l'.lookups.cache (todo.filter keep)) :
    Agree Loop.Alike (l.run c st call todo) (l'.run c st call (todo.filter keep)) := by
  induction todo generalizing l l' with
  | nil => exact h
  | cons p todo ih =>
    obtain ⟨inst,pos⟩ := p
    have hl' : l'.lookups.txn=.sound := h.txn.symm.trans hl
    have hrest : ∀ p∈todo, keep p = false → unknownKind p.1 = true :=
      fun p hp => hkeep p (mem_cons_of_mem _ hp)
    obtain ⟨m,hm,hml,hmi,hrej⟩ := step_sound c st call inst hl h.indexed pos
    have hmsound : m.lookups.txn=.sound := by rw [hml]
    by_cases hk : keep (inst,pos) = true
    · obtain ⟨m',hm',hml',-⟩ := step_sound c st call inst hl' h.indexed' pos
      rw [filter_cons_of_pos hk] at hedges ⊢
      obtain ⟨hown,hnext⟩ := append_inj hedges (ownEdges_length _ _ _)
      have hstep := step_alike call h hl pos hown
      unfold Loop.run
      rw [hm,hm'] at hstep ⊢
      exact ih hstep hmsound hrest (by rw [hml,hml']; exact hnext)
    · have hu : unknownKind inst = true := hkeep _ mem_cons_self (by simpa using hk)
      have hown : (ownEdges c st call.env l.lookups.cache inst).1 = [] := ownEdges_rejected hu
      rw [filter_cons_of_neg hk] at hedges ⊢
      rw [acceptedEdges_cons,hown,nil_append] at hedges
      conv_lhs => unfold Loop.run
      rw [hm]
      exact ih ((hrej hu).1.trans h) hmsound hrest (by rw [hml]; exact hedges)

end Sim

section Asks
variable {c : Codec} {env : Envelope} {a : Addresses} {st : Store} {asked : List Ask}
  {cache cache' : String → Option UUID}

def Store.answer (st : Store) (ask : Ask) : Option UUID :=
  (lookUpAddr st ask.cluster ask.addr ask.port ⟨.sound,fun _ => none⟩).1

lemma lookUpAddr_sound (st : Store) (ask : Ask) (cache : String → Option UUID) :
    lookUpAddr st ask.cluster ask.addr ask.port ⟨.sound,cache⟩ =
      Lookups.remember ⟨.sound,cache⟩ ask.key (st.answer ask) := by
  have hname : ∀ cache, lookUpName st ask.cluster ask.addr ⟨.sound,cache⟩ =
      ((lookUpName st ask.cluster ask.addr ⟨.sound,fun _ => none⟩).1,⟨.sound,cache⟩) := by
    intro cache
    unfold lookUpName
    split_ifs <;> rfl
  have hremember : ∀ answer, (Lookups.remember ⟨.sound,fun _ => none⟩ ask.key answer).1 = answer := by
    rintro (_ | _) <;> rfl
  unfold Store.answer lookUpAddr
  rw [hname cache,hname fun _ => none]
  dsimp only
  cases (lookUpName st ask.cluster ask.addr ⟨.sound,fun _ => none⟩).1 with
  | some id => rfl
  | none => exact congrArg _ (hremember _).symm

/-- The caches of a loop and of one without the questions of `asked`. -/
def Behind (st : Store) (asked : List Ask) (cache cache' : String → Option UUID) : Prop :=
  ∀ key, cache key = cache' key ∨
    cache' key = none ∧ ∃ ask∈asked, ask.key=key ∧ cache key = st.answer ask

lemma Behind.agree (h : Behind st asked cache cache') (key : String)
    {next next' : String → Option UUID} (hkey : next key=next' key)
    (hn : ∀ k, k≠key → next k=cache k) (hn' : ∀ k, k≠key → next' k=cache' k) :
    Behind st asked next next' := by
  intro k
  by_cases hk : k=key
  · exact .inl (hk ▸ hkey)
  · rw [hn k hk,hn' k hk]
    exact h k

variable {ask : Ask} {wes : List Wire.Edge} {inst : Instance}

lemma resolveAddr_asked (h : a.resolve ask.cluster ask.addr ask.port=none)
    (hc : cache ask.key=none) : resolveAddr a st ask.cluster ask.addr ask.port ⟨.sound,cache⟩ =
      Lookups.remember ⟨.sound,cache⟩ ask.key (st.answer ask) := by
  rw [← lookUpAddr_sound]
  unfold Ask.key at hc
  simp only [resolveAddr,h,hc]

lemma resolveAddr_cached {id : UUID}
    (h : a.resolve ask.cluster ask.addr ask.port=none) (hc : cache ask.key=some id) :
    resolveAddr a st ask.cluster ask.addr ask.port ⟨.sound,cache⟩ = (some id,⟨.sound,cache⟩) := by
  unfold Ask.key at hc
  simp only [resolveAddr,h,hc]

lemma resolveAddr_kept (h : Behind st asked cache cache') (ask : Ask)
    (hapart : a.resolve ask.cluster ask.addr ask.port=none →
      ∀ x∈asked, x.key=ask.key → x=ask) :
    let r := resolveAddr a st ask.cluster ask.addr ask.port ⟨.sound,cache⟩
    let r' := resolveAddr a st ask.cluster ask.addr ask.port ⟨.sound,cache'⟩
    r.1 = r'.1 ∧ Behind st asked r.2.cache r'.2.cache := by
  intro r r'
  cases hr : a.resolve ask.cluster ask.addr ask.port with
  | some answer => simpa only [r,r',resolveAddr,hr,true_and] using h
  | none =>
    cases hc' : cache' ask.key with
    | some id =>
      have hc : cache ask.key = some id := by
        rcases h ask.key with heq | ⟨hnone,-⟩
        · exact heq.trans hc'
        · exact absurd (hc'.symm.trans hnone) (by simp)
      simpa only [r,r',resolveAddr_cached hr hc,resolveAddr_cached hr hc',true_and] using h
    | none =>
      simp only [r',resolveAddr_asked hr hc']
      cases hc : cache ask.key with
      | none =>
        simp only [r,resolveAddr_asked hr hc]
        cases st.answer ask with
        | none => exact ⟨rfl,h⟩
        | some id => exact ⟨rfl,h.agree ask.key (by simp [Lookups.remember])
            (fun _ hk => Function.update_of_ne hk _ _) fun _ hk => Function.update_of_ne hk _ _⟩
      | some id =>
        simp only [r,resolveAddr_cached hr hc]
        -- The loop answers from a question of a skipped instance, which is this one.
        rcases h ask.key with heq | ⟨-,x,hx,hkey,hans⟩
        · exact absurd ((heq.symm.trans hc).symm.trans hc') (by simp)
        · obtain rfl := hapart hr x hx hkey
          rw [← hans,hc]
          exact ⟨rfl,h.agree x.key (by simp [Lookups.remember,hc]) (fun _ _ => rfl)
            fun _ hk => Function.update_of_ne hk _ _⟩

lemma resolveAddr_skipped (h : Behind st asked cache cache') (ask : Ask)
    (hask : a.resolve ask.cluster ask.addr ask.port=none → ask∈asked) :
    Behind st asked
      (resolveAddr a st ask.cluster ask.addr ask.port ⟨.sound,cache⟩).2.cache cache' := by
  cases hr : a.resolve ask.cluster ask.addr ask.port with
  | some answer => simpa only [resolveAddr,hr] using h
  | none =>
    cases hc : cache ask.key with
    | some id =>
      rw [resolveAddr_cached hr hc]
      exact h
    | none =>
      rw [resolveAddr_asked hr hc]
      cases hans : st.answer ask with
      | none => exact h
      | some id =>
        intro key
        by_cases hkey : key=ask.key
        · refine .inr ⟨?_,ask,hask hr,hkey.symm,?_⟩
          · rw [hkey]
            rcases h ask.key with heq | ⟨hnone,-⟩
            · exact heq.symm.trans hc
            · exact hnone
          · simp [Lookups.remember,hkey,hans]
        · simpa [Lookups.remember,hkey] using h key

lemma mem_asksOf {cid : ClusterID} {we : Wire.Edge} (hwe : we∈wes)
    (hconf : (confidence we.confidence).isSome=true)
    (hr : a.resolve cid.toInt we.toAddr we.port=none) :
    ⟨cid.toInt,we.toAddr,we.port⟩ ∈ asksOf a cid wes := by
  unfold asksOf
  exact mem_map.mpr ⟨we,mem_filter.mpr ⟨hwe,by simp [hconf,hr]⟩,rfl⟩

lemma asksOf_cons (a : Addresses) (cid : ClusterID) (we : Wire.Edge) (wes : List Wire.Edge) :
    asksOf a cid wes ⊆ asksOf a cid (we::wes) :=
  (((sublist_cons_self we wes).filter _).map _).subset

lemma resolveEdge_lookups (cid : ClusterID) (id : UUID) (we : Wire.Edge)
    (cache : String → Option UUID) : (resolveEdge a st cid id we ⟨.sound,cache⟩).2 =
      ⟨.sound,(resolveEdge a st cid id we ⟨.sound,cache⟩).2.cache⟩ :=
  Lookups.ext ((resolveEdge_faultless a st cid id we).sound cache) rfl

lemma resolveEdges_kept (cid : ClusterID) (id : UUID) (wes : List Wire.Edge)
    (h : Behind st asked cache cache')
    (hapart : ∀ ask ∈ asksOf a cid wes, ∀ x∈asked, x.key=ask.key → x=ask) :
    let r := resolveEdges a st cid id wes ⟨.sound,cache⟩
    let r' := resolveEdges a st cid id wes ⟨.sound,cache'⟩
    r.1 = r'.1 ∧ Behind st asked r.2.cache r'.2.cache := by
  induction wes generalizing cache cache' with
  | nil => exact ⟨rfl,h⟩
  | cons we wes ih =>
    have hone : (resolveEdge a st cid id we ⟨.sound,cache⟩).1 =
        (resolveEdge a st cid id we ⟨.sound,cache'⟩).1 ∧
        Behind st asked (resolveEdge a st cid id we ⟨.sound,cache⟩).2.cache
          (resolveEdge a st cid id we ⟨.sound,cache'⟩).2.cache := by
      unfold resolveEdge
      cases hconf : confidence we.confidence with
      | none => exact ⟨rfl,h⟩
      | some conf =>
        obtain ⟨hsame,hnext⟩ := resolveAddr_kept (a := a) h ⟨cid.toInt,we.toAddr,we.port⟩
          fun hr => hapart _ (mem_asksOf mem_cons_self (by rw [hconf]; rfl) hr)
        exact ⟨by simp only [hsame],hnext⟩
    obtain ⟨hsame,hnext⟩ := ih hone.2 fun ask hask => hapart ask (asksOf_cons a cid we wes hask)
    simp only [resolveEdges]
    rw [resolveEdge_lookups cid id we cache,resolveEdge_lookups cid id we cache',hone.1,hsame]
    exact ⟨rfl,hnext⟩

lemma resolveEdges_skipped (cid : ClusterID) (id : UUID)
    (h : Behind st asked cache cache') (hasked : asksOf a cid wes ⊆ asked) :
    Behind st asked (resolveEdges a st cid id wes ⟨.sound,cache⟩).2.cache cache' := by
  induction wes generalizing cache with
  | nil => exact h
  | cons we wes ih =>
    have hone : Behind st asked (resolveEdge a st cid id we ⟨.sound,cache⟩).2.cache cache' := by
      unfold resolveEdge
      cases hconf : confidence we.confidence with
      | none => exact h
      | some conf =>
        exact resolveAddr_skipped h ⟨cid.toInt,we.toAddr,we.port⟩ fun hr =>
          hasked (mem_asksOf mem_cons_self (by rw [hconf]; rfl) hr)
    simp only [resolveEdges]
    rw [resolveEdge_lookups cid id we cache]
    exact ih hone fun _ hask => hasked (asksOf_cons a cid we wes hask)

lemma ownEdges_kept (h : Behind st asked cache cache')
    (hapart : ∀ ask ∈ asks c env inst, ∀ x∈asked, x.key=ask.key → x=ask) :
    (ownEdges c st env cache inst).1 = (ownEdges c st env cache' inst).1 ∧
      Behind st asked (ownEdges c st env cache inst).2 (ownEdges c st env cache' inst).2 := by
  unfold asks at hapart
  unfold ownEdges
  cases hc : c.parseClusterID inst.clusterID with
  | none => exact ⟨rfl,h⟩
  | some cid =>
    cases hid : c.parseUUID inst.instanceID with
    | none => exact ⟨rfl,h⟩
    | some id =>
      rw [hc,hid] at hapart
      obtain ⟨hsame,hnext⟩ := resolveEdges_kept cid id (upstreams inst) h hapart
      exact ⟨by simp only [hsame],hnext⟩

lemma ownEdges_skipped (h : Behind st asked cache cache') (hasked : asks c env inst ⊆ asked) :
    Behind st asked (ownEdges c st env cache inst).2 cache' := by
  unfold asks at hasked
  unfold ownEdges
  cases hc : c.parseClusterID inst.clusterID with
  | none => exact h
  | some cid =>
    cases hid : c.parseUUID inst.instanceID with
    | none => exact h
    | some id =>
      rw [hc,hid] at hasked
      exact resolveEdges_skipped cid id h hasked

lemma acceptedEdges_apart {skip : ℕ → Bool} {todo : List (Instance × ℕ)}
    (hskip : ∀ p∈todo, skip p.2=true → unknownKind p.1=true)
    (hapart : todo.Pairwise fun x y => skip x.2=true → skip y.2=false →
      ∀ ask ∈ asks c env x.1, ∀ ask' ∈ asks c env y.1, ask.key=ask'.key → ask=ask')
    (hasked : ∀ x∈asked, ∀ y∈todo, skip y.2=false → ∀ ask ∈ asks c env y.1, x.key=ask.key → x=ask)
    (h : Behind st asked cache cache') :
    acceptedEdges c st env cache todo =
      acceptedEdges c st env cache' (todo.filter fun p => !skip p.2) := by
  induction todo generalizing asked cache cache' with
  | nil => rfl
  | cons p todo ih =>
    obtain ⟨inst,pos⟩ := p
    obtain ⟨hfirst,hrest⟩ := pairwise_cons.mp hapart
    have hskip' : ∀ p∈todo, skip p.2 = true → unknownKind p.1 = true :=
      fun p hp => hskip p (mem_cons_of_mem _ hp)
    have hasked' : ∀ x∈asked, ∀ y∈todo, skip y.2 = false →
        ∀ ask ∈ asks c env y.1, x.key=ask.key → x=ask :=
      fun x hx y hy => hasked x hx y (mem_cons_of_mem _ hy)
    cases hs : skip pos with
    | false =>
      obtain ⟨hsame,hnext⟩ := ownEdges_kept h fun ask (hask : ask ∈ asks c env inst) x hx =>
        hasked x hx (inst,pos) mem_cons_self hs ask hask
      rw [filter_cons_of_pos (by simp [hs]),acceptedEdges_cons,acceptedEdges_cons,hsame,
        ih hskip' hrest hasked' hnext]
    | true =>
      have hown : (ownEdges c st env cache inst).1 = [] :=
        ownEdges_rejected (hskip (inst,pos) mem_cons_self hs)
      rw [filter_cons_of_neg (by simp [hs]),acceptedEdges_cons,hown,nil_append]
      refine @ih (asked++asks c env inst) _ _ hskip' hrest ?_ (ownEdges_skipped ?_ ?_)
      · intro x hx y hy hkept
        rcases mem_append.mp hx with hx | hx
        · exact hasked' x hx y hy hkept
        · exact hfirst y hy hs hkept x hx
      · intro key
        rcases h key with heq | ⟨hnone,x,hx,hkey⟩
        · exact .inl heq
        · exact .inr ⟨hnone,x,mem_append_left _ hx,hkey⟩
      · exact subset_append_right _ _

end Asks

section Commit
variable {c : Codec} {p : Pipeline} {l l' : Loop}

lemma countChecks_topo (p : Pipeline) (now : Time) (topo : Topology.Engine)
    (outcomes : List CheckOutcome) :
    { p with topo := topo }.countChecks now outcomes =
      { p.countChecks now outcomes with topo := topo } := by
  induction outcomes generalizing p with
  | nil => rfl
  | cons o outcomes ih =>
    have hone : { p with topo := topo }.countCheck now o =
        { p.countCheck now o with topo := topo } := by
      unfold Pipeline.countCheck Pipeline.count
      dsimp only
      split_ifs <;> rfl
    unfold Pipeline.countChecks at ih ⊢
    rw [foldl_cons,foldl_cons,hone]
    exact ih _

/-- Worlds whose servers differ only in the addresses of their topology engines. -/
structure World.Alike (w w' : World) : Prop where
  store : w.store=w'.store
  topo : w.server.topo.Alike w'.server.topo
  server : { w.server with topo := w'.server.topo } = w'.server

lemma commit_alike (h : l.Alike l') (now : Time) (st : Store) :
    World.Alike ⟨p.commit now l,st.commit l.staged⟩ ⟨p.commit now l',st.commit l'.staged⟩ := by
  have hcommit : ∀ l : Loop, p.commit now l = { (Pipeline.countChecks { p with
      delta := l.batches.foldl (fun e (b : Delta.Batch) => b.commit e) l.delta } now
        l.staged.outcomes) with topo := l.topo } := fun l =>
    countChecks_topo { p with
      delta := l.batches.foldl (fun e (b : Delta.Batch) => b.commit e) l.delta } now l.topo _
  rw [hcommit l,hcommit l',h.staged,h.batches,h.delta]
  exact ⟨rfl,h.topo,rfl⟩

end Commit

lemma run_txn (c : Codec) (st : Store) (call : Call) (txn : Txn) (l : Loop)
    (todo : List (Instance × ℕ)) :
    l.run c st { call with txn := txn } todo = l.run c st call todo := by
  induction todo generalizing l with
  | nil => rfl
  | cons p todo ih =>
    obtain ⟨inst,pos⟩ := p
    have hstep : l.step c st { call with txn := txn } inst pos = l.step c st call inst pos := rfl
    unfold Loop.run
    rw [hstep]
    cases l.step c st call inst pos with
    | error f => rfl
    | ok m => exact ih m

lemma processAll_sound {c : Codec} {w : World} (hi : w.server.topo.Indexed) (call : Call)
    (todo : List (Instance × ℕ)) :
    ∃ l, (w.loop .sound).run c w.store call todo = .ok l ∧
      w.processAll c { call with txn := .sound } todo = (.stored l.result l.staged,
        ⟨w.server.commit call.clock.counted l,w.store.commit l.staged⟩) := by
  obtain ⟨l,hl,hsound⟩ := run_sound c w.store call (l := w.loop .sound) rfl hi todo
  refine ⟨l,hl,?_⟩
  have hrun := (run_txn c w.store call .sound (w.loop .sound) todo).trans hl
  unfold World.processAll
  rw [Txn.exec_sound]
  unfold World.loop at hrun
  dsimp only
  rw [hrun]
  dsimp only
  rw [hsound,Txn.execAll_sound]

lemma processAll_stored_sound {c : Codec} {w w' : World} {call : Call}
    {todo : List (Instance × ℕ)} {result : PipelineResult} {rows : Staged}
    (h : w.processAll c call todo=(.stored result rows,w')) :
    ∃ l, (w.loop .sound).run c w.store call todo = .ok l ∧ rows=l.staged ∧
      w' = ⟨w.server.commit call.clock.counted l,w.store.commit l.staged⟩ := by
  obtain ⟨txn,l,txn',-,hrun,hend,-,hrows,hw'⟩ := processAll_stored h
  have hne : finalStatements l.staged ≠ [] := by simp [finalStatements]
  exact ⟨l.onSound,(run_faultless hrun (Txn.execAll_cons_not_spent hne hend)).2,hrows,hw'⟩

/-- The world and rows that a stored call would have left without some of its instances. -/
def StoredAlike (x : Reply × World) (rows : Staged) (w : World) : Prop :=
  (∃ result, x.1 = .stored result rows) ∧ x.2.Alike w

/-- A failed envelope leaves no trace, and its retry gets the reply the first attempt would
have got. In a stored one a rejected instance leaves nothing of its own; the others leave
what they would have left without it, if it has not asked the store for another address and
port under the key of a question of theirs. -/
theorem rejected_leave_no_trace (c : Codec) {w : World} (hw : w.Reachable c) (call : Call) :
    let swept := w.swept call.clock.start
    let todo := call.env.instances.zipIdx
    (∀ point w', w.process c call=(.failed point,w') →
      w'.store=w.store ∧ w'.server={ swept.server with topo := w'.server.topo } ∧
      (∀ steps, (w'.server.topo.applyAll steps).1=(swept.server.topo.applyAll steps).1) ∧
      ∀ txn, (w'.process c { call with txn := txn }).1 =
        (w.process c { call with txn := txn }).1) ∧
    (∀ result rows w', w.process c call=(.stored result rows,w') →
      (∀ done inst pos rest txn l m, todo=done++(inst,pos)::rest → unknownKind inst=true →
        (swept.loop txn).run c w.store call done = .ok l → l.step c w.store call inst pos = .ok m →
        m.staged=l.staged ∧ m.batches=l.batches ∧ m.delta=l.delta ∧ m.undos=l.undos ∧
          m.topo.Alike l.topo) ∧
      ∀ skip : ℕ → Bool, (∀ p∈todo, skip p.2=true → unknownKind p.1=true) →
        AsksApart c call.env skip → StoredAlike (swept.processAll c { call with txn := .sound }
          (todo.filter fun p => !skip p.2)) rows w') := by
  intro swept todo
  have hi : w.server.topo.Indexed := hw.indexed
  have hsi : swept.server.topo.Indexed := maybeEvict_indexed hi _
  refine ⟨fun point w' h => ?_,fun result rows w' h => ⟨?_,fun skip hskip => ?_⟩⟩
  · refine ⟨?_,?_,fun steps => ?_,process_retry hi h⟩ <;> obtain ⟨heap,rfl⟩ := process_failed hi h
    · rfl
    · rfl
    · exact ((Topology.Engine.Alike.heap swept.server.topo heap
        swept.server.topo.heap).applyAll steps).1
  · intro done inst pos rest txn l m _ hu hrun hstep
    have hundo := run_undoable c w.store call (loop_restorable hsi txn) done
    rw [hrun] at hundo
    obtain ⟨hs,hb,hd,hund,ht⟩ := step_rejected hundo.indexed hu hstep
    exact ⟨hs,hb,hd,hund,ht ▸ Topology.Engine.Alike.heap l.topo _ l.topo.heap⟩
  · intro hapart
    have hall : swept.processAll c call todo = (.stored result rows,w') := by
      unfold World.process at h
      dsimp only at h
      split_ifs at h
      · exact h
      · cases h
    obtain ⟨l,hrun,rfl,rfl⟩ := processAll_stored_sound hall
    obtain ⟨m,hm,halone⟩ := processAll_sound (c := c) hsi call (todo.filter fun p => !skip p.2)
    have hsame : acceptedEdges c w.store call.env (fun _ => none) todo = acceptedEdges c w.store
        call.env (fun _ => none) (todo.filter fun p => !skip p.2) :=
      acceptedEdges_apart hskip hapart (fun _ hx => absurd hx not_mem_nil) fun _ => .inl rfl
    have hagree := run_skipping c w.store call
      (fun p => !skip p.2) (l := swept.loop .sound) (Loop.Alike.refl hsi) rfl
      (fun p hp hk => hskip p hp (by simpa using hk)) hsame
    rw [show (swept.loop .sound).run c w.store call todo = .ok l from hrun,
      show (swept.loop .sound).run c w.store call _ = .ok m from hm] at hagree
    rw [halone]
    exact ⟨⟨m.result,congrArg _ hagree.staged.symm⟩,commit_alike hagree.symm _ _⟩

section Standbys

/-- Two standbys of cluster 7 with an upstream each. The first is rejected. -/
def twoStandbys (up up' : Wire.Edge) : Envelope where
  sentAt := ⟨1000*second,0⟩
  instances := [
    { instanceID := "x", clusterID := "7", role := "standby", topologyEdges := [up],
      results := [{ check := "c", ts := ⟨1000*second,0⟩,
                    metrics := [⟨"m",[],0,.other "histogram"⟩] }] },
    { instanceID := "y", clusterID := "7", role := "standby", topologyEdges := [up'] }]

/-- The first has looked its upstream up at port 5 of "a" when it is rejected. The second names
the host "a:5" and no port. -/
def collidingEnvelope : Envelope :=
  twoStandbys ⟨"a",5,"streaming","high"⟩ ⟨"a:5",0,"streaming","high"⟩

def smallCodec : Codec where
  parseClusterID s := if s = "7" then some 7 else none
  parseUUID s := if s = "x" then some 1 else if s = "y" then some 2 else none
  parseInt _ := none
  toLower s := s
  equalFold a b := a == b
  canonicalLabels _ := ""
  seriesID _ := 0
  jsonValid _ := true
  mayHoldCredential _ := false
  withheld := ""
  withholdLockTreeQueries b := b
  withholdXminIdentity b := b

def soundCall (env : Envelope) : Call :=
  let now : Time := ⟨1000*second,0⟩
  ⟨env,⟨now,fun _ => now,fun _ => now,now⟩,.sound⟩

/-- A new server, and a store in which instance 3 has address "a" and port 5. -/
def collidingWorld : World :=
  ⟨newPipeline true ⟨1000*second,0⟩,⟨[⟨3,7,"","a",5,.primary⟩],[]⟩⟩

lemma collidingWorld_reachable : collidingWorld.Reachable smallCodec :=
  ⟨true,_,_,[],Run.nil _⟩

def Reply.edges : Reply → Option (List (Origin × List TopologyEdgeRow))
  | .stored _ rows => some rows.edges
  | _ => none

set_option maxRecDepth 10000 in
/-- Both standbys have the same upstream, and the second gets the answer of the first, which is
rejected: the same that it would get without it. -/
theorem rejected_leave_no_trace_same_upstream :
    let env := twoStandbys ⟨"a",5,"streaming","high"⟩ ⟨"a",5,"streaming","high"⟩
    let call := soundCall env
    env.instances.map unknownKind = [true,false] ∧
      (env.instances.map (asks smallCodec env)) = [[⟨7,"a",5⟩],[⟨7,"a",5⟩]] ∧
      ∃ result rows w', collidingWorld.process smallCodec call = (.stored result rows,w') ∧
        rows.edges = [(⟨7,2⟩,[⟨"default",7,2,3,"streaming",.high⟩])] ∧
        StoredAlike ((collidingWorld.swept call.clock.start).processAll smallCodec call
          (env.instances.zipIdx.filter fun p => p.2 != 0)) rows w' := by
  intro env call
  have hkinds : env.instances.map unknownKind = [true,false] := by decide
  have hasks : env.instances.map (asks smallCodec env) = [[⟨7,"a",5⟩],[⟨7,"a",5⟩]] := by decide
  have hedges : (collidingWorld.process smallCodec call).1.edges =
      some [(⟨7,2⟩,[⟨"default",7,2,3,"streaming",.high⟩])] := by decide
  have hskip : ∀ p∈env.instances.zipIdx, (p.2 == 0) = true → unknownKind p.1 = true := by decide
  have hapart : AsksApart smallCodec env (· == 0) := by
    unfold AsksApart
    decide
  cases hcall : collidingWorld.process smallCodec call with
  | mk reply w' =>
    rw [hcall] at hedges
    cases reply with
    | stored result rows =>
      have hall := (rejected_leave_no_trace smallCodec collidingWorld_reachable call).2 result rows
        w' hcall
      exact ⟨hkinds,hasks,result,rows,w',rfl,Option.some.inj hedges,hall.2 (· == 0) hskip hapart⟩
    | failed point => cases hedges
    | unstored result => cases hedges

set_option maxRecDepth 10000 in
/-- The second standby's upstream is found in the cache, under the key that the first one's
lookup wrote. Without the first one it has none. -/
theorem rejected_instance_gives_upstream :
    let skipping := collidingWorld.processAll smallCodec (soundCall collidingEnvelope)
      (collidingEnvelope.instances.zipIdx.filter fun p => p.2 != 0)
    (collidingEnvelope.instances.map unknownKind=[true,false]) ∧
      (collidingWorld.process smallCodec (soundCall collidingEnvelope)).1.edges =
        some [(⟨7,2⟩,[⟨"default",7,2,3,"streaming",.high⟩])] ∧
      skipping.1.edges = some [(⟨7,2⟩,[])] := by
  decide

end Standbys

end Pglens.Server

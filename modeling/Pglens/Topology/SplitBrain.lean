import Pglens.Topology.LaterObservations

/-! The engine decides on split brain from five maps that eviction empties at different times.
Here the decision is told by the history alone: the observations it accepted, in order, and the
sweeps. -/
namespace Pglens.Topology
open Pglens.Lib List Function Duration Prod

/-- An accepted observation, with whether it emitted split_brain_detected, or a sweep. -/
inductive Entry
  | saw (now : Time) (obs : Observation) (split : Bool)
  | swept (before : Time)

abbrev Past := List Entry

namespace Past

/-- The latest accepted observation with a property, which may speak of what came before. -/
def lastWhere (P : Past → Time → Observation → Prop) [∀ past now obs,Decidable (P past now obs)] :
    Past → Option (Time × Observation)
  | [] => none
  | .saw now obs _::past => if P past now obs then some (now,obs) else lastWhere P past
  | .swept _::past => lastWhere P past

def latest (i : InstanceID) : Past → Option (Time × Observation) :=
  lastWhere fun _ _ obs => obs.instanceID=i

/-- The latest accepted observation of an instance, unless it was evicted since. -/
def held (i : InstanceID) : Past → Option (Time × Observation)
  | [] => none
  | .saw now obs _::past => if obs.instanceID=i then some (now,obs) else held i past
  | .swept before::past => (held i past).filter fun seen => !seen.1.before before

def lastPrimary (c : ClusterID) : Past → Option (Time × Observation) :=
  lastWhere fun _ _ obs => obs.clusterID=c ∧ obs.role=.primary

/-- A failover: a primary observation of an instance that was standby or unknown before,
within the window after the most recent primary observation of the cluster, which is of
another instance. -/
def FailsOver (past : Past) (now : Time) (obs : Observation) : Prop :=
  obs.role = .primary ∧
    (∃ seen ∈ past.held obs.instanceID, seen.2.role=.standby ∨ seen.2.role=.unknown) ∧
    ∃ lp ∈ past.lastPrimary obs.clusterID,
      now.sub lp.1 < failoverWindow ∧ lp.2.instanceID≠obs.instanceID

instance (past : Past) (now : Time) (obs : Observation) : Decidable (past.FailsOver now obs) :=
  inferInstanceAs (Decidable (_ ∧ _))

def lastFailover (c : ClusterID) : Past → Option (Time × Observation) :=
  lastWhere fun past now obs => obs.clusterID=c ∧ FailsOver past now obs

/-- The instance's latest observation is one as a primary of the cluster, within the window,
and not from before the latest failover. -/
def LivePrimary (past : Past) (c : ClusterID) (t : Time) (i : InstanceID) : Prop :=
  ∃ seen ∈ past.latest i, seen.2.clusterID=c ∧ seen.2.role=.primary ∧
    t.sub seen.1 < failoverWindow ∧ ∀ f ∈ past.lastFailover c, f.1.ns ≤ seen.1.ns

def TwoPrimaries (past : Past) (c : ClusterID) (t : Time) : Prop :=
  ∃ i j, i≠j ∧ past.LivePrimary c t i ∧ past.LivePrimary c t j

def Settled (past : Past) (c : ClusterID) (t : Time) : Prop :=
  ∀ f ∈ past.lastFailover c, 30*second < t.sub f.1

/-- Since the last split_brain_detected of the cluster the window has passed, or an accepted
observation of the cluster has found fewer than two primaries. -/
def Spaced (past : Past) (c : ClusterID) (t : Time) : Prop :=
  ∀ newer last obs older, past = newer++.saw last obs true::older → obs.clusterID=c →
    (∀ now obs', .saw now obs' true ∈ newer → obs'.clusterID≠c) →
    splitBrainWindow ≤ t.sub last ∨
      ∃ newest now obs' split rest, newer = newest++.saw now obs' split::rest ∧
        obs'.clusterID = c ∧
        ¬TwoPrimaries (.saw now obs' split::(rest++.saw last obs true::older)) c now

end Past

structure Recorded where
  engine : Engine
  past : Past

inductive Input
  | observe (now : Time) (obs : Observation)
  | evict (now before : Time)

def Input.now : Input → Time
  | .observe now _ => now
  | .evict now _ => now

def emitsSplitBrain (evs : List Event) : Bool :=
  evs.any fun ev => decide (ev.type=.splitBrainDetected)

def Recorded.step (r : Recorded) : Input → Recorded
  | .observe now obs =>
    if r.engine.Accepts obs then
      ⟨(r.engine.apply now obs).2,.saw now obs (emitsSplitBrain (r.engine.apply now obs).1)::r.past⟩
    else r
  | .evict _ before => ⟨r.engine.evict before,.swept before::r.past⟩

def Recorded.new : Recorded := ⟨newEngine,[]⟩

def Recorded.run (r : Recorded) (inputs : List Input) : Recorded := inputs.foldl Recorded.step r

/-- An instance keeps its cluster, and a sweep's cutoff is the failover window behind the
clock or more. -/
def Input.Fits (cluster : InstanceID → ClusterID) : Input → Prop
  | .observe _ obs => obs.clusterID = cluster obs.instanceID
  | .evict now before => before.ns+failoverWindow ≤ now.ns

def Proper (cluster : InstanceID → ClusterID) : ℤ → List Input → Prop
  | _,[] => True
  | clock,input::inputs =>
    clock ≤ input.now.ns ∧ input.Fits cluster ∧ Proper cluster input.now.ns inputs

section Windows

variable {t u : Time} {d : ℤ}

lemma sub_lt_iff (hd : 0<d) (hd' : d ≤ maxDuration) : t.sub u < d ↔ t.ns-u.ns < d := by
  simp only [Time.sub,maxDuration,minDuration] at *
  split_ifs <;> omega

lemma sub_lt_failoverWindow : t.sub u < failoverWindow ↔ t.ns-u.ns < 120000000000 :=
  sub_lt_iff (by decide) (by decide)

lemma splitBrainWindow_le_sub : splitBrainWindow ≤ t.sub u ↔ 60000000000 ≤ t.ns-u.ns := by
  rw [← not_lt,← not_lt]
  exact not_congr (sub_lt_iff (by decide) (by decide))

lemma settled_sub : 30*second < t.sub u ↔ 30000000000 < t.ns-u.ns :=
  Time.lt_sub_iff (by decide) (by decide)

end Windows

section Apply
variable {e : Engine} {now : Time} {obs : Observation}

def Engine.SplitsAt (e e' : Engine) (c : ClusterID) (now : Time) : Prop :=
  2 ≤ (e'.primaries c now).card ∧
    (((e'.lastFailoverTime c).getD .zero).isZero=true ∨
      30*second<now.sub ((e'.lastFailoverTime c).getD .zero)) ∧
    ∀ last ∈ e.lastSplitBrain c, splitBrainWindow ≤ now.sub last

lemma roleChange_type (held : Option Role) :
    ∀ ev ∈ (e.roleChange now held obs).1, ev.type=.failoverDetected ∨ ev.type=.roleChange := by
  intro ev hev
  unfold Engine.roleChange at hev
  dsimp only at hev
  revert hev
  repeat' split
  all_goals
    intro hev
    simp only [mem_singleton,not_mem_nil] at hev
  all_goals
    subst hev
    simp

lemma orphanStep_type (s : InstanceState) :
    ∀ ev ∈ (s.orphanStep now obs).2, ev.type=.orphanStandby := by
  intro ev hev
  unfold InstanceState.orphanStep at hev
  split at hev
  · dsimp only at hev
    split_ifs at hev
    · rw [mem_singleton.mp hev]
    · cases hev
    · cases hev
  · cases hev
  · cases hev

lemma track_not_splitBrain (e : Engine) (now : Time) (obs : Observation) (addr : ℕ)
    (inst : Option InstanceState) :
    ∀ ev ∈ (e.track now obs addr inst).1, ev.type≠.splitBrainDetected := by
  intro ev hev
  rcases mem_append.mp hev with hev | hev
  · rcases roleChange_type _ ev hev with h | h <;> simp [h]
  · simp [orphanStep_type _ ev hev]

lemma apply_splitBrain (now : Time) (h : e.Accepts obs) :
    let r := e.apply now obs
    (emitsSplitBrain r.1=true ↔ e.SplitsAt r.2 obs.clusterID now) ∧
      (e.SplitsAt r.2 obs.clusterID now → r.2.lastSplitBrain obs.clusterID=some now) ∧
      (¬e.SplitsAt r.2 obs.clusterID now → r.2.lastSplitBrain obs.clusterID =
        if 2 ≤ (r.2.primaries obs.clusterID now).card then e.lastSplitBrain obs.clusterID
        else none) := by
  intro r
  obtain ⟨heap,addr,-,-,happly⟩ := apply_new now h
  have hr : r=_ := happly
  have htrack := track_not_splitBrain { e with heap := heap } now obs addr
    (e.known obs.instanceID)
  generalize ht : { e with heap := heap }.track now obs addr
    (e.known obs.instanceID) = t at hr htrack
  have hlast : t.2.lastSplitBrain=e.lastSplitBrain := by rw [← ht]; rfl
  have htrack' : emitsSplitBrain t.1 = false := by
    simpa [emitsSplitBrain] using htrack
  have hemits : emitsSplitBrain r.1 = emitsSplitBrain (t.2.detectSplitBrain obs.clusterID now).1 := by
    rw [hr]
    simp only [emitsSplitBrain,any_append] at htrack' ⊢
    rw [htrack',Bool.false_or]
  obtain ⟨last,hwrites⟩ := detectSplitBrain_writes t.2 now obs.clusterID
  have hsplits : e.SplitsAt r.2 obs.clusterID now ↔ t.2.SplitsAt t.2 obs.clusterID now := by
    rw [hr]
    dsimp only
    rw [hwrites]
    unfold Engine.SplitsAt
    rw [hlast]
    rfl
  have hprimaries : r.2.primaries obs.clusterID now = t.2.primaries obs.clusterID now := by
    rw [hr]
    dsimp only
    rw [hwrites]
    rfl
  rw [hemits,hsplits,hprimaries,← hlast,hr]
  unfold Engine.detectSplitBrain Engine.SplitsAt
  dsimp only
  split_ifs with h1 h2 h3
  · exact ⟨⟨fun _ => ⟨h1,h2,h3⟩,fun _ => rfl⟩,fun _ => update_self _ _ _,
      fun hn => absurd ⟨h1,h2,h3⟩ hn⟩
  · exact ⟨⟨fun h => absurd h Bool.false_ne_true,fun h => absurd h.2.2 h3⟩,fun h => absurd h.2.2 h3,
      fun _ => rfl⟩
  · exact ⟨⟨fun h => absurd h Bool.false_ne_true,fun h => absurd h.2.1 h2⟩,fun h => absurd h.2.1 h2,
      fun _ => rfl⟩
  · exact ⟨⟨fun h => absurd h Bool.false_ne_true,fun h => absurd h.1 h1⟩,fun h => absurd h.1 h1,
      fun _ => update_self _ _ _⟩

end Apply

def Stale (clock : ℤ) (t : Time) : Prop := t.ns+failoverWindow ≤ clock

/-- The engine keeps what the history says, or has dropped it when it was stale. -/
def Reflects {α β : Type} (clock : ℤ) (time : β → Time) (read : β → α) (kept : Option α)
    (told : Option β) : Prop :=
  kept = told.map read ∨ (kept=none ∧ ∀ b∈told, Stale clock (time b))

/-- The last split_brain_detected of a cluster that nothing has cleared since. -/
noncomputable def Past.lastSplit (c : ClusterID) : Past → Option Time
  | [] => none
  | .saw now obs split::past =>
    open Classical in
    if obs.clusterID=c then
      if split then some now
      else if TwoPrimaries (.saw now obs split::past) c now then lastSplit c past else none
    else lastSplit c past
  | .swept _::past => lastSplit c past

/-- How the engine reads the history at a clock reading, the split-brain entries apart. -/
structure Mirrors (cluster : InstanceID → ClusterID) (clock : ℤ) (r : Recorded) : Prop where
  indexed : r.engine.Indexed
  instances : ∀ i, (r.engine.instances.get i).map (·.state.sighting) =
    (r.past.held i).map fun seen => (seen.2.role,seen.2.clusterID,seen.1,seen.2)
  primary : ∀ c, Reflects clock fst (fun seen => (seen.2.instanceID,seen.1))
    ((r.engine.lastPrimary c).map LastPrimaryInfo.info) (r.past.lastPrimary c)
  failover : ∀ c, Reflects clock fst fst (r.engine.lastFailoverTime c)
    (r.past.lastFailover c)
  times : ∀ now obs split, .saw now obs split ∈ r.past →
    0 < now.ns ∧ now.ns≤clock ∧ obs.clusterID = cluster obs.instanceID
  newest : ∀ now obs split, .saw now obs split ∈ r.past →
    ∃ seen ∈ r.past.latest obs.instanceID, now.ns ≤ seen.1.ns
  gone : ∀ i, r.past.held i = r.past.latest i ∨
    (r.past.held i=none ∧ ∀ seen ∈ r.past.latest i, Stale clock seen.1)

structure Tracks (cluster : InstanceID → ClusterID) (clock : ℤ) (r : Recorded) : Prop
    extends Mirrors cluster clock r where
  split : ∀ c, Reflects clock id id (r.engine.lastSplitBrain c) (r.past.lastSplit c)

section Past
variable {past : Past} {c : ClusterID} {i : InstanceID}

lemma lastWhere_mem {P : Past → Time → Observation → Prop}
    [∀ past now obs,Decidable (P past now obs)] {seen : Time × Observation}
    (h : Past.lastWhere P past=some seen) :
    (∃ split, .saw seen.1 seen.2 split ∈ past) ∧ ∃ past', P past' seen.1 seen.2 := by
  induction past with
  | nil => cases h
  | cons entry past ih =>
    have hrest : Past.lastWhere P past = some seen →
        (∃ split, .saw seen.1 seen.2 split ∈ entry::past) ∧ ∃ past', P past' seen.1 seen.2 := by
      intro h
      obtain ⟨⟨split,hm⟩,hP⟩ := ih h
      exact ⟨⟨split,mem_cons_of_mem _ hm⟩,hP⟩
    cases entry with
    | swept before => exact hrest h
    | saw now obs split =>
      unfold Past.lastWhere at h
      split_ifs at h with hobs
      · cases h
        exact ⟨⟨split,mem_cons_self⟩,past,hobs⟩
      · exact hrest h

lemma lastSplit_mem {last : Time} (h : Past.lastSplit c past=some last) :
    ∃ obs split, .saw last obs split ∈ past ∧ obs.clusterID=c := by
  induction past with
  | nil => cases h
  | cons entry past ih =>
    have hrest : Past.lastSplit c past = some last →
        ∃ obs split, .saw last obs split ∈ entry::past ∧ obs.clusterID=c := by
      intro h
      obtain ⟨obs,split,hm,hc⟩ := ih h
      exact ⟨obs,split,mem_cons_of_mem _ hm,hc⟩
    cases entry with
    | swept before => exact hrest h
    | saw now obs split =>
      unfold Past.lastSplit at h
      split_ifs at h with hobs hsplit htwo
      · cases h
        exact ⟨obs,split,mem_cons_self,hobs⟩
      · exact hrest h
      · exact hrest h

lemma spaced_cons {entry : Entry} {t : Time}
    (h : ∀ now obs split, entry = .saw now obs split → obs.clusterID=c →
      split=false ∧ Past.TwoPrimaries (entry::past) c now) :
    Past.Spaced (entry::past) c t ↔ Past.Spaced past c t := by
  constructor
  · intro hs newer last obs older hp hc hnone
    have hnone' : ∀ now obs', .saw now obs' true ∈ entry::newer → obs'.clusterID≠c := by
      intro now obs' hm
      rcases mem_cons.mp hm with heq | hm
      · intro hc'
        exact absurd (h now obs' true heq.symm hc').1 (by decide)
      · exact hnone now obs' hm
    subst hp
    rcases hs (entry::newer) last obs older rfl hc hnone' with hle | hex
    · exact .inl hle
    · obtain ⟨newest,now,obs',split,rest,heq,hc',htwo⟩ := hex
      cases newest with
      | nil =>
        obtain ⟨rfl,rfl⟩ := List.cons.inj heq
        exact absurd (h now obs' split rfl hc').2 htwo
      | cons x newest =>
        obtain ⟨rfl,rfl⟩ := List.cons.inj heq
        exact .inr ⟨newest,now,obs',split,rest,rfl,hc',htwo⟩
  · intro hs newer last obs older hp hc hnone
    cases newer with
    | nil =>
      obtain ⟨rfl,rfl⟩ := List.cons.inj hp
      exact absurd (h last obs true rfl hc).1 (by decide)
    | cons x newer =>
      obtain ⟨rfl,rfl⟩ := List.cons.inj hp
      rcases hs newer last obs older rfl hc fun now obs' hm =>
        hnone now obs' (mem_cons_of_mem _ hm) with hle | hex
      · exact .inl hle
      · obtain ⟨newest,now,obs',split,rest,rfl,hc',htwo⟩ := hex
        exact .inr ⟨entry::newest,now,obs',split,rest,rfl,hc',htwo⟩

lemma spaced_iff (past : Past) (c : ClusterID) (t : Time) :
    past.Spaced c t ↔ ∀ last ∈ past.lastSplit c, splitBrainWindow ≤ t.sub last := by
  induction past with
  | nil => simp [Past.Spaced,Past.lastSplit]
  | cons entry past ih =>
    cases entry with
    | swept before => exact (spaced_cons (fun _ _ _ h => by cases h)).trans ih
    | saw now obs split =>
      by_cases hc : obs.clusterID=c
      · cases split with
        | true =>
          simp only [Past.lastSplit,hc,if_true,Option.mem_some_iff,forall_eq']
          constructor
          · intro hs
            rcases hs [] now obs past rfl hc (fun _ _ h => nomatch h) with hle | ⟨n,_,_,_,_,heq,_⟩
            · exact hle
            · cases n <;> cases heq
          · intro hle newer last obs' older hp hc' hnone
            cases newer with
            | nil =>
              obtain ⟨heq,-⟩ := List.cons.inj hp
              cases heq
              exact .inl hle
            | cons x newer =>
              obtain ⟨rfl,-⟩ := List.cons.inj hp
              exact absurd hc (hnone now obs mem_cons_self)
        | false =>
          by_cases htwo : Past.TwoPrimaries (.saw now obs false::past) c now
          · rw [spaced_cons fun now' obs' split' heq _ => by cases heq; exact ⟨rfl,htwo⟩,ih]
            simp [Past.lastSplit,hc,htwo]
          · simp only [Past.lastSplit,hc,htwo,if_true,if_false,Bool.false_eq_true]
            refine iff_of_true (fun newer last obs' older hp hc' hnone => ?_) (by simp)
            cases newer with
            | nil =>
              obtain ⟨heq,-⟩ := List.cons.inj hp
              cases heq
            | cons x newer =>
              obtain ⟨rfl,rfl⟩ := List.cons.inj hp
              exact .inr ⟨[],now,obs,false,newer,rfl,hc,htwo⟩
      · rw [spaced_cons fun now' obs' split' heq hc' => by cases heq; exact absurd hc' hc,ih]
        simp [Past.lastSplit,hc]

end Past

section Answers
variable {cluster : InstanceID → ClusterID} {clock clock' : ℤ} {r : Recorded} {t u : Time}
  {c : ClusterID} {α β : Type}

lemma Stale.mono (h : Stale clock u) (hle : clock≤clock') : Stale clock' u := le_trans h hle

lemma Reflects.mono {time : β → Time} {read : β → α} {kept : Option α}
    {told : Option β} (h : Reflects clock time read kept told) (hle : clock≤clock') :
    Reflects clock' time read kept told :=
  h.imp_right fun hn => ⟨hn.1,fun b hb => (hn.2 b hb).mono hle⟩

lemma Reflects.forall_iff {time : β → Time} {read : β → α} {kept : Option α} {told : Option β}
    (h : Reflects clock time read kept told) {P : α → Prop}
    (hstale : ∀ b, Stale clock (time b) → P (read b)) : (∀ a∈kept, P a) ↔ ∀ b∈told, P (read b) := by
  rcases h with rfl | ⟨rfl,hs⟩
  · cases told <;> simp
  · exact iff_of_true (by simp) fun b hb => hstale b (hs b hb)

lemma Reflects.exists_iff {time : β → Time} {read : β → α} {kept : Option α}
    {told : Option β} (h : Reflects clock time read kept told) {P : α → Prop}
    (hstale : ∀ b, Stale clock (time b) → ¬P (read b)) :
    (∃ a∈kept, P a) ↔ ∃ b∈told, P (read b) := by
  rcases h with rfl | ⟨rfl,hs⟩
  · cases told <;> simp
  · exact iff_of_false (by simp) fun ⟨b,hb,hp⟩ => hstale b (hs b hb) hp

lemma Mirrors.mono (h : Mirrors cluster clock r) (hle : clock≤clock') : Mirrors cluster clock' r :=
  ⟨h.indexed,h.instances,fun c => (h.primary c).mono hle,fun c => (h.failover c).mono hle,
    fun u obs split hm => ⟨(h.times u obs split hm).1,(h.times u obs split hm).2.1.trans hle,
      (h.times u obs split hm).2.2⟩,h.newest,
    fun i => (h.gone i).imp_right fun hn => ⟨hn.1,fun seen hs => (hn.2 seen hs).mono hle⟩⟩

lemma Tracks.mono (h : Tracks cluster clock r) (hle : clock≤clock') :
    Tracks cluster clock' r := ⟨h.toMirrors.mono hle,fun c => (h.split c).mono hle⟩

lemma Mirrors.lastFailover_pos (h : Mirrors cluster clock r) {f : Time × Observation}
    (hf : r.past.lastFailover c=some f) : 0<f.1.ns := by
  obtain ⟨⟨split,hm⟩,-⟩ := lastWhere_mem hf
  exact (h.times _ _ _ hm).1

lemma Mirrors.failover_le_iff (h : Mirrors cluster clock r) (ht : clock≤t.ns) (hu : 0<u.ns)
    (hrecent : t.sub u<failoverWindow) :
    ((r.engine.lastFailoverTime c).getD .zero).ns ≤ u.ns ↔ ∀ f ∈ r.past.lastFailover c, f.1.ns≤u.ns := by
  rw [← (h.failover c).forall_iff (P := fun f => f.ns≤u.ns) fun f hf => by
    have hlt := sub_lt_failoverWindow.mp hrecent
    unfold Stale failoverWindow second at hf
    omega]
  cases r.engine.lastFailoverTime c with
  | none => simpa [Time.zero] using hu.le
  | some f => simp

lemma Engine.Indexed.mem_primaries {e : Engine} (h : e.Indexed) (i : InstanceID) :
    i ∈ e.primaries c t ↔ ∃ p, e.instances.get i = some p ∧ p.state.clusterID=c ∧
      p.state.countsAsPrimary t ((e.lastFailoverTime c).getD .zero) = true := by
  rw [Engine.primaries,Finset.mem_filter,h i c]
  constructor
  · rintro ⟨⟨p,hp,hc⟩,hcounts⟩
    exact ⟨p,hp,hc,by simpa [hp] using hcounts⟩
  · rintro ⟨p,hp,hc,hcounts⟩
    exact ⟨⟨p,hp,hc⟩,by simp [hp,hcounts]⟩

section Asked
variable (h : Mirrors cluster clock r) (ht : clock≤t.ns)
include h ht

lemma Mirrors.countsAsPrimary_iff
    {p : InstancePtr} {seen : Time × Observation} (hpos : 0<seen.1.ns)
    (hs : p.state.sighting=(seen.2.role,seen.2.clusterID,seen.1,seen.2)) :
    p.state.countsAsPrimary t ((r.engine.lastFailoverTime c).getD .zero) = true ↔
      seen.2.role = .primary ∧ t.sub seen.1 < failoverWindow ∧
        ∀ f ∈ r.past.lastFailover c, f.1.ns ≤ seen.1.ns := by
  simp only [InstanceState.sighting,mk.injEq] at hs
  simp only [InstanceState.countsAsPrimary,hs.1,hs.2.2.1,Bool.and_eq_true,decide_eq_true_eq,
    Bool.not_eq_true',Time.before_eq_false_iff,and_assoc]
  exact and_congr_right fun _ => and_congr_right fun hrecent => h.failover_le_iff ht hpos hrecent

lemma Mirrors.mem_primaries (i : InstanceID) :
    i ∈ r.engine.primaries c t ↔ r.past.LivePrimary c t i := by
  have hinst := h.instances i
  rw [h.indexed.mem_primaries]
  constructor
  · rintro ⟨p,hp,hc,hcount⟩
    rw [hp] at hinst
    obtain ⟨seen,hseen,hs⟩ := Option.map_eq_some_iff.mp hinst.symm
    have hlatest : r.past.latest i = some seen := by
      rcases h.gone i with heq | ⟨hnone,-⟩
      · rw [← heq,hseen]
      · rw [hnone] at hseen
        cases hseen
    obtain ⟨⟨split,hm⟩,-⟩ := lastWhere_mem hlatest
    have hs' := hs.symm
    obtain ⟨hrole,hrecent,hf⟩ := (h.countsAsPrimary_iff ht (h.times _ _ _ hm).1 hs').mp hcount
    simp only [InstanceState.sighting,mk.injEq] at hs'
    exact ⟨seen,hlatest,hs'.2.1.symm.trans hc,hrole,hrecent,hf⟩
  · rintro ⟨seen,hlatest,hc,hrole,hrecent,hf⟩
    have hheld : r.past.held i = some seen := by
      rcases h.gone i with heq | ⟨-,hstale⟩
      · rw [heq]
        exact hlatest
      · have hst := hstale seen hlatest
        have hlt := sub_lt_failoverWindow.mp hrecent
        unfold Stale failoverWindow second at hst
        omega
    rw [hheld] at hinst
    obtain ⟨p,hp,hs⟩ := Option.map_eq_some_iff.mp hinst
    obtain ⟨⟨split,hm⟩,-⟩ := lastWhere_mem hlatest
    refine ⟨p,hp,?_,(h.countsAsPrimary_iff ht (h.times _ _ _ hm).1 hs).mpr ⟨hrole,hrecent,hf⟩⟩
    simp only [InstanceState.sighting,mk.injEq] at hs
    exact hs.2.1.trans hc

lemma Mirrors.two_primaries :
    2 ≤ (r.engine.primaries c t).card ↔ r.past.TwoPrimaries c t := by
  change 1 < _ ↔ _
  rw [Finset.one_lt_card_iff]
  simp only [h.mem_primaries ht]
  constructor
  · rintro ⟨i,j,hi,hj,hne⟩
    exact ⟨i,j,hne,hi,hj⟩
  · rintro ⟨i,j,hne,hi,hj⟩
    exact ⟨i,j,hi,hj,hne⟩

lemma Mirrors.settled :
    (((r.engine.lastFailoverTime c).getD .zero).isZero=true ∨
      30*second<t.sub ((r.engine.lastFailoverTime c).getD .zero)) ↔
      r.past.Settled c t := by
  unfold Past.Settled
  rw [← (h.failover c).forall_iff (P := fun f => 30*second<t.sub f) fun f hf => by
    unfold Stale failoverWindow second at hf
    rw [settled_sub]
    omega]
  rcases h.failover c with hk | ⟨hk,-⟩
  · cases hf : r.past.lastFailover c with
    | none => simp [hk,hf,Time.zero]
    | some f =>
      have hpos := h.lastFailover_pos hf
      have hz : ¬f.1.ns=0 := by omega
      simp [hk,hf,hz]
  · simp [hk,Time.zero]

end Asked

lemma Tracks.spaced (h : Tracks cluster clock r) (ht : clock≤t.ns) :
    (∀ last ∈ r.engine.lastSplitBrain c, splitBrainWindow ≤ t.sub last) ↔ r.past.Spaced c t := by
  rw [spaced_iff]
  refine (h.split c).forall_iff fun last hst => ?_
  unfold Stale failoverWindow second at hst
  rw [splitBrainWindow_le_sub]
  simp only [id] at hst ⊢
  omega

lemma Mirrors.failsOver (h : Mirrors cluster clock r) {now : Time} {obs : Observation}
    (ht : clock≤now.ns) : r.engine.FailsOver now obs ↔ r.past.FailsOver now obs := by
  unfold Engine.FailsOver Engine.TakesOver Past.FailsOver
  refine and_congr_right fun _ => and_congr ?_ ?_
  · have hrole : (r.engine.instances.get obs.instanceID).map (·.state.role) =
        (r.past.held obs.instanceID).map (·.2.role) := by
      have := congrArg (Option.map fst) (h.instances obs.instanceID)
      simpa [Option.map_map,comp_def,InstanceState.sighting] using this
    rw [hrole]
    cases r.past.held obs.instanceID <;> simp
  · have hiff := (h.primary obs.clusterID).exists_iff (P := fun lp : InstanceID × Time =>
      now.sub lp.2<failoverWindow ∧ lp.1≠obs.instanceID) fun seen hst hp => by
        have hlt : now.ns-seen.1.ns < 120000000000 := sub_lt_failoverWindow.mp hp.1
        unfold Stale failoverWindow second at hst
        omega
    rw [← hiff]
    unfold Engine.recentPrimary
    cases r.engine.lastPrimary obs.clusterID <;> simp [Option.filter,LastPrimaryInfo.info]

end Answers

section Steps
variable {cluster : InstanceID → ClusterID} {clock : ℤ} {r : Recorded} {now : Time}
  {obs : Observation}

lemma Reflects.saw {α γ : Type} {read : Time × Observation → α} {f : γ → α}
    {kept : ClusterID → Option γ} {Q : Past → Time → Observation → Prop}
    [∀ past now obs,Decidable (Q past now obs)] {past : Past} {c : ClusterID} {p : Prop}
    [Decidable p] (h : Reflects clock fst read ((kept c).map f)
      (Past.lastWhere (fun past now obs => obs.clusterID=c ∧ Q past now obs) past))
    (hle : clock≤now.ns) (split : Bool) (hp : p ↔ Q past now obs) (g : γ)
    (hread : f g=read (now,obs)) :
    Reflects now.ns fst read (((if p then update kept obs.clusterID (some g) else kept) c).map f)
      (Past.lastWhere (fun past now obs => obs.clusterID=c ∧ Q past now obs) (.saw now obs split::past)) := by
  by_cases hcp : obs.clusterID=c ∧ p
  · obtain ⟨rfl,hp'⟩ := hcp
    refine .inl ?_
    simp [Past.lastWhere,hp',hp.mp hp',hread]
  · have hkept : (if p then update kept obs.clusterID (some g) else kept) c = kept c := by
      split_ifs with hp'
      · exact update_of_ne (fun heq => hcp ⟨heq.symm,hp'⟩) _ _
      · rfl
    rw [hp] at hcp
    rw [Past.lastWhere,if_neg hcp,hkept]
    exact h.mono hle

lemma Mirrors.observe (h : Mirrors cluster clock r) (hpos : 0<clock) (ht : clock≤now.ns)
    (hc : obs.clusterID=cluster obs.instanceID) (ha : r.engine.Accepts obs) (split : Bool) :
    Mirrors cluster now.ns ⟨(r.engine.apply now obs).2,.saw now obs split::r.past⟩ := by
  obtain ⟨p,hsight,hset⟩ := apply_sets now ha
  obtain ⟨addr,-,-,hprim⟩ := apply_lastPrimary now ha
  have hfail := apply_failover now ha
  refine ⟨(apply_moves h.indexed now obs).1,fun i => ?_,fun c => ?_,fun c => ?_,?_,?_,fun i => ?_⟩
  · by_cases hi : obs.instanceID=i
    · subst hi
      simp [hset,Past.held,hsight]
    · simp only [hset,Past.held,if_neg hi,FinMap.get_set_of_ne _ _ (Ne.symm hi)]
      exact h.instances i
  · change Reflects _ _ _ (Option.map _ ((r.engine.apply now obs).2.lastPrimary c)) _
    rw [hprim]
    exact (h.primary c).saw ht split Iff.rfl _ rfl
  · change Reflects _ _ _ ((r.engine.apply now obs).2.lastFailoverTime c) _
    rw [hfail]
    have hold : Reflects clock fst fst ((r.engine.lastFailoverTime c).map id) (r.past.lastFailover c) := by
      rw [Option.map_id]
      exact h.failover c
    have hp : r.engine.FailsOver now obs ↔ r.past.FailsOver now obs := h.failsOver ht
    have hnew := hold.saw ht split hp now rfl
    rw [Option.map_id] at hnew
    exact hnew
  · intro u obs' split' hm
    rcases mem_cons.mp hm with heq | hm
    · cases heq
      exact ⟨by omega,le_rfl,hc⟩
    · obtain ⟨hu,hle,hcl⟩ := h.times u obs' split' hm
      exact ⟨hu,hle.trans ht,hcl⟩
  · intro u obs' split' hm
    by_cases hi : obs.instanceID=obs'.instanceID
    · refine ⟨(now,obs),by simp [Past.latest,Past.lastWhere,hi],?_⟩
      rcases mem_cons.mp hm with heq | hm
      · cases heq
        exact le_rfl
      · exact ((h.times u obs' split' hm).2.1).trans ht
    · rcases mem_cons.mp hm with heq | hm
      · cases heq
        exact absurd rfl hi
      · obtain ⟨seen,hseen,hle⟩ := h.newest u obs' split' hm
        exact ⟨seen,by simpa [Past.latest,Past.lastWhere,hi] using hseen,hle⟩
  · by_cases hi : obs.instanceID=i
    · exact .inl (by simp [Past.held,Past.latest,Past.lastWhere,hi])
    · have hheld : Past.held i (.saw now obs split::r.past) = r.past.held i := by
        simp [Past.held,hi]
      have hlatest : Past.latest i (.saw now obs split::r.past) = r.past.latest i := by
        simp [Past.latest,Past.lastWhere,hi]
      rw [hheld,hlatest]
      exact (h.gone i).imp_right fun hn => ⟨hn.1,fun seen hs => (hn.2 seen hs).mono ht⟩

lemma Tracks.emits_iff (h : Tracks cluster clock r) (hpos : 0<clock) (ht : clock≤now.ns)
    (hc : obs.clusterID=cluster obs.instanceID) (ha : r.engine.Accepts obs) (split : Bool) :
    let past := .saw now obs split::r.past
    r.engine.SplitsAt (r.engine.apply now obs).2 obs.clusterID now ↔
      Past.TwoPrimaries past obs.clusterID now ∧ Past.Settled past obs.clusterID now ∧
        r.past.Spaced obs.clusterID now := by
  intro past
  have hm := h.toMirrors.observe hpos ht hc ha split
  unfold Engine.SplitsAt
  rw [hm.two_primaries le_rfl,hm.settled le_rfl,h.spaced ht]

lemma Tracks.observe (h : Tracks cluster clock r) (hpos : 0<clock) (ht : clock≤now.ns)
    (hc : obs.clusterID=cluster obs.instanceID) :
    Tracks cluster now.ns (r.step (.observe now obs)) := by
  by_cases ha : r.engine.Accepts obs
  · rw [show r.step (.observe now obs)=_ from if_pos ha]
    obtain ⟨hemits,hset,hkeep⟩ := apply_splitBrain now ha
    have hm := h.toMirrors.observe hpos ht hc ha (emitsSplitBrain (r.engine.apply now obs).1)
    refine ⟨hm,fun c => ?_⟩
    change Reflects _ _ _ ((r.engine.apply now obs).2.lastSplitBrain c) _
    by_cases hcl : obs.clusterID=c
    · subst hcl
      by_cases hs : r.engine.SplitsAt (r.engine.apply now obs).2 obs.clusterID now
      · rw [hset hs]
        exact .inl (by simp [Past.lastSplit,hemits.mpr hs])
      · have hnot : emitsSplitBrain (r.engine.apply now obs).1 = false := by
          simpa using (not_congr hemits).mpr hs
        have htwo := hm.two_primaries (c := obs.clusterID) (t := now) le_rfl
        rw [hnot] at htwo ⊢
        rw [hkeep hs]
        simp only [Past.lastSplit,if_true,Bool.false_eq_true,if_false]
        by_cases hcard : 2 ≤ ((r.engine.apply now obs).2.primaries obs.clusterID now).card
        · rw [if_pos hcard,if_pos (htwo.mp hcard)]
          exact (h.split obs.clusterID).mono ht
        · rw [if_neg hcard,if_neg fun h => hcard (htwo.mpr h)]
          exact .inl rfl
    · rw [(apply_moves h.indexed now obs).2.splitBrain c (Ne.symm hcl)]
      simp only [Past.lastSplit,hcl,if_false]
      exact (h.split c).mono ht
  · rw [show r.step (.observe now obs)=r from if_neg ha]
    exact h.mono ht

lemma Mirrors.stale_of_dead (h : Mirrors cluster clock r) {before : Time} (ht : clock≤now.ns)
    (hb : before.ns+failoverWindow ≤ now.ns) {c : ClusterID}
    (hdead : r.engine.liveCluster before c ≠ true) {u : Time} {obs : Observation} {split : Bool}
    (hm : .saw u obs split ∈ r.past) (hc : obs.clusterID=c) : Stale now.ns u := by
  obtain ⟨seen,hseen,hle⟩ := h.newest u obs split hm
  obtain ⟨⟨split',hm'⟩,-,hi⟩ := lastWhere_mem hseen
  have hcl : seen.2.clusterID=c := by
    rw [(h.times _ _ _ hm').2.2,hi,← (h.times _ _ _ hm).2.2,hc]
  have hseenStale : Stale now.ns seen.1 := by
    rcases h.gone obs.instanceID with heq | ⟨-,hst⟩
    · have hinst := h.instances obs.instanceID
      rw [heq,hseen] at hinst
      obtain ⟨p,hp,hs⟩ := Option.map_eq_some_iff.mp hinst
      simp only [InstanceState.sighting,mk.injEq] at hs
      have hbefore : p.state.timestamp.before before = true := by
        by_contra hnb
        refine hdead (decide_eq_true ⟨obs.instanceID,?_,p,hp,by simpa using hnb,hs.2.1.trans hcl⟩)
        rw [r.engine.instances.mem_keys,hp]
        rfl
      rw [Time.before_iff,hs.2.2.1] at hbefore
      unfold Stale
      omega
    · exact (hst seen hseen).mono ht
  unfold Stale at hseenStale ⊢
  omega

lemma Reflects.evict {α β : Type} {time : β → Time} {read : β → α} {kept : Option α}
    {told : Option β} {clock' : ℤ} (h : Reflects clock time read kept told) (hle : clock≤clock')
    {live : Bool} (hdead : live≠true → ∀ b∈told, Stale clock' (time b)) :
    Reflects clock' time read (if live then kept else none) told := by
  cases live with
  | true => exact h.mono hle
  | false => exact .inr ⟨rfl,hdead (by decide)⟩

lemma Tracks.evict (h : Tracks cluster clock r) {before : Time} (ht : clock≤now.ns)
    (hb : before.ns+failoverWindow ≤ now.ns) :
    Tracks cluster now.ns (r.step (.evict now before)) := by
  have hstale := fun c => h.stale_of_dead (c := c) ht hb
  have hmem : ∀ u obs split, Entry.saw u obs split ∈ Entry.swept before::r.past →
      Entry.saw u obs split ∈ r.past := fun u obs split hm => by simpa using hm
  simp only [Recorded.step]
  refine ⟨⟨evict_indexed h.indexed before,fun i => ?_,fun c => ?_,fun c => ?_,fun u obs split hm => ?_,
    fun u obs split hm => h.newest u obs split (hmem u obs split hm),fun i => ?_⟩,fun c => ?_⟩
  · have hinst := h.instances i
    simp only [Past.held]
    cases hheld : r.past.held i with
    | none =>
      rw [hheld] at hinst
      rw [evict_get_stale fun p hp => by rw [hp] at hinst; cases hinst]
      rfl
    | some seen =>
      rw [hheld] at hinst
      obtain ⟨p,hp,hs⟩ := Option.map_eq_some_iff.mp hinst
      have hts : p.state.timestamp=seen.1 := congrArg (·.2.2.1) hs
      by_cases hbef : p.state.timestamp.before before = true
      · rw [evict_get_stale fun q hq => by rw [hp] at hq; cases hq; exact hbef]
        simp [Option.filter,← hts,hbef]
      · obtain ⟨edges,hget⟩ := evict_get_fresh hp (by simpa using hbef)
        rw [hget]
        simp only [Option.filter,← hts,hbef,Bool.not_false,if_true]
        exact congrArg some hs
  · simp only [evict_lastPrimary]
    rw [show Option.map LastPrimaryInfo.info (if r.engine.liveCluster before c=true
      then r.engine.lastPrimary c else none)=if r.engine.liveCluster before c=true
      then (r.engine.lastPrimary c).map LastPrimaryInfo.info else none by split_ifs <;> rfl]
    refine (h.primary c).evict ht fun hdead lp hlp => ?_
    obtain ⟨⟨split,hm⟩,-,hc,-⟩ := lastWhere_mem hlp
    exact hstale c hdead hm hc
  · simp only [evict_lastFailoverTime]
    refine (h.failover c).evict ht fun hdead f hf => ?_
    obtain ⟨⟨split,hm⟩,-,hc,-⟩ := lastWhere_mem hf
    exact hstale c hdead hm hc
  · obtain ⟨hu,hle,hcl⟩ := h.times u obs split (hmem u obs split hm)
    exact ⟨hu,hle.trans ht,hcl⟩
  · change Option.filter _ (r.past.held i) = r.past.latest i ∨
      Option.filter _ (r.past.held i) = none ∧ ∀ seen ∈ r.past.latest i, _
    rcases h.gone i with heq | ⟨hnone,hst⟩
    · rw [heq]
      cases hl : r.past.latest i with
      | none => exact .inl rfl
      | some seen =>
        by_cases hbef : seen.1.before before = true
        · refine .inr ⟨by simp [Option.filter,hbef],fun s hs => ?_⟩
          obtain rfl := Option.some.inj hs
          unfold Stale
          rw [Time.before_iff] at hbef
          omega
        · exact .inl (by simp [Option.filter,hbef])
    · exact .inr ⟨by rw [hnone]; rfl,fun seen hs => (hst seen hs).mono ht⟩
  · simp only [evict_lastSplitBrain]
    refine (h.split c).evict ht fun hdead last hlast => ?_
    obtain ⟨obs,split,hm,hc⟩ := lastSplit_mem hlast
    exact hstale c hdead hm hc

lemma Tracks.new (cluster : InstanceID → ClusterID) {clock : ℤ} :
    Tracks cluster clock Recorded.new := by
  refine ⟨⟨newEngine_indexed,fun i => ?_,fun c => .inl rfl,fun c => .inl rfl,
    fun _ _ _ hm => ?_,fun _ _ _ hm => ?_,fun i => .inl rfl⟩,fun c => .inl rfl⟩
  · simp [Recorded.new,newEngine,Past.held]
  · cases hm
  · cases hm

lemma Tracks.run {inputs : List Input} (h : Tracks cluster clock r) (hpos : 0<clock)
    (hp : Proper cluster clock inputs) :
    ∃ clock', clock≤clock' ∧ Tracks cluster clock' (r.run inputs) ∧
      ∀ input, Proper cluster clock (inputs++[input]) →
        clock' ≤ input.now.ns ∧ input.Fits cluster := by
  induction inputs generalizing clock r with
  | nil => exact ⟨clock,le_rfl,h,fun input hi => ⟨hi.1,hi.2.1⟩⟩
  | cons input inputs ih =>
    obtain ⟨hle,hfits,hrest⟩ := hp
    have hstep : Tracks cluster input.now.ns (r.step input) := by
      cases input with
      | observe now obs => exact h.observe hpos hle hfits
      | evict now before => exact h.evict hle hfits
    obtain ⟨clock',hle',ht,hnext⟩ := ih hstep (by omega) hrest
    exact ⟨clock',hle.trans hle',ht,fun input' hi => hnext input' hi.2.2⟩

end Steps

lemma Proper.init {cluster : InstanceID → ClusterID} {clock : ℤ} {inputs : List Input}
    {input : Input} (h : Proper cluster clock (inputs++[input])) : Proper cluster clock inputs := by
  induction inputs generalizing clock with
  | nil => trivial
  | cons first inputs ih => exact ⟨h.1,h.2.1,ih h.2.2⟩

/-- An observation that is not ignored as a repeat emits split_brain_detected exactly when the
history says so: two live primaries of its cluster, no failover shortly before, and no report
that still stands. The clock reads after the zero Time. -/
theorem split_brain_iff_history (cluster : InstanceID → ClusterID) (inputs : List Input) (now : Time)
    (obs : Observation) (hp : Proper cluster 1 (inputs++[.observe now obs])) :
    let r := Recorded.new.run inputs
    r.engine.Accepts obs →
      let past := .saw now obs (emitsSplitBrain (r.engine.apply now obs).1)::r.past
      ((∃ ev ∈ (r.engine.apply now obs).1, ev.type=.splitBrainDetected) ↔
        Past.TwoPrimaries past obs.clusterID now ∧ Past.Settled past obs.clusterID now ∧
          r.past.Spaced obs.clusterID now) := by
  intro r ha past
  obtain ⟨clock,hle,ht,hnext⟩ := (Tracks.new cluster).run (by decide) hp.init
  obtain ⟨hclock,hfits⟩ := hnext (.observe now obs) hp
  have hemits := ht.emits_iff (by omega) hclock hfits ha
    (emitsSplitBrain (r.engine.apply now obs).1)
  refine Iff.trans ?_ ((apply_splitBrain now ha).1.trans hemits)
  simp [emitsSplitBrain]

/-- Two primaries of one cluster, one second apart. -/
theorem split_brain_two_primaries :
    let primary (i : InstanceID) : Observation := ⟨i,7,.primary,none,.zero,[]⟩
    let r := Recorded.new.run [.observe ⟨1000*second,0⟩ (primary 1)]
    let now : Time := ⟨1001*second,0⟩
    Past.TwoPrimaries (.saw now (primary 2)
      (emitsSplitBrain (r.engine.apply now (primary 2)).1)::r.past) 7 now :=
  ((split_brain_iff_history (fun _ => 7)
    [.observe ⟨1000*second,0⟩ ⟨1,7,.primary,none,.zero,[]⟩]
    ⟨1001*second,0⟩ ⟨2,7,.primary,none,.zero,[]⟩
    ⟨by decide,by rfl,by decide,by rfl,trivial⟩) (by decide)).mp (by decide) |>.1

end Pglens.Topology

import Pglens.Alerting.Types
import Mathlib.Data.List.AList
import Mathlib.Data.List.Sort

/-! The state machine of internal/alert/eval.go, one episode to a key. -/
namespace Pglens.Alerting
open List

inductive Transition
  | none
  | opened
  | fired
  | resolved
  | cancelled
  deriving DecidableEq, Repr

/-- evalState: an episode of its key, whose alert is pending until it fires. -/
structure Episode (key : String) where
  first : Time
  seen : Time
  firing : Bool
  alert : Alert
  keyed : alert.key=key
  state : alert.state = if firing then State.firing else State.pending

abbrev Evaluator := AList Episode

namespace Evaluator

def restore (e : Evaluator) (a : Alert) (now : Time) : Evaluator :=
  match h : a.state with
  | .pending => e.insert a.key ⟨a.startedAt,now,false,a,rfl,h⟩
  | .firing => e.insert a.key ⟨a.startedAt,now,true,a,rfl,h⟩
  | .resolved => e

/-- End: a firing episode resolves and is returned, a pending one is cancelled. -/
def endEpisode (e : Evaluator) (key : String) (now : Time) : Evaluator × Option Alert × Transition :=
  match e.lookup key with
  | none => (e,none,.none)
  | some st =>
    if st.firing then
      (e.erase key,some { st.alert with
        state := .resolved
        lastEvalAt := now
        resolvedAt := some now },.resolved)
    else (e.erase key,none,.cancelled)

/-- The branch of Step for a condition that was not true before. -/
def begin (e : Evaluator) (k : String) (r : Rule) (s : Sample) (now : Time) :
    Evaluator × Option Alert × Transition :=
  let first := if s.ts.isZero then now else s.ts
  let opened : Alert := ⟨k,r.id,r.severity,.pending,s.clusterID,s.instanceID,s.datname,s.labels,
    s.value,r.summary,first,now,none,false⟩
  if r.forDuration=0 then
    let fired := { opened with state := .firing }
    (e.insert k ⟨first,now,true,fired,rfl,rfl⟩,some fired,.fired)
  else (e.insert k ⟨first,now,false,opened,rfl,rfl⟩,some opened,.opened)

/-- The branch of Step for an episode that goes on. -/
def goOn (e : Evaluator) {k : String} (st : Episode k) (r : Rule) (s : Sample) (now : Time) :
    Evaluator × Option Alert × Transition :=
  let sampled := { st.alert with
    lastEvalAt := now
    value := s.value }
  if !st.firing && decide (r.forDuration ≤ now.sub st.first) then
    let fired := { sampled with state := .firing }
    (e.insert k ⟨st.first,now,true,fired,st.keyed,rfl⟩,some fired,.fired)
  else (e.insert k ⟨st.first,now,st.firing,sampled,st.keyed,st.state⟩,some sampled,.none)

variable (codec : Codec)

def step (e : Evaluator) (r : Rule) (s : Sample) (now : Time) : Evaluator × Option Alert × Transition :=
  let k := Key codec r s
  let trueCond := !s.inapplicable && (decide (r.eventType ≠ "") || compare s.value r.comparator r.threshold)
  if !trueCond then e.endEpisode k now
  else match e.lookup k with
    | none => e.begin k r s now
    | some st => e.goOn st r s now

/-- Checkpoint: puts back the episode of the key as it stands now. -/
def checkpoint (e : Evaluator) (key : String) : Evaluator → Evaluator :=
  match e.lookup key with
  | some prev => fun e => e.insert key prev
  | none => fun e => e.erase key

def firing (e : Evaluator) : List Alert :=
  (e.entries.filter fun st => st.2.firing).map fun st => st.2.alert

/-- Unsampled, in key order. -/
def unsampled (e : Evaluator) (selects : String → Bool) (cutoff : Time) : List Alert :=
  ((e.entries.filter fun st => selects st.2.alert.ruleID && st.2.seen.before cutoff).map
    fun st => st.2.alert).insertionSort fun a b => a.key≤b.key

/-- Forget: pending episodes that were last sampled before the cutoff. -/
def forget (e : Evaluator) (before : Time) : Evaluator :=
  (e.entries.filter fun st => !st.2.firing && st.2.seen.before before).foldl (fun e st => e.erase st.1) e

/-- The start of the episode that fires, at the precision the table keeps. -/
def openAt (e : Evaluator) (key : String) : Option ℤ :=
  (e.lookup key).bind fun st => if st.firing then some (startOf st.alert).ns else none

variable {codec : Codec} {e e' : Evaluator} {k : String} {now : Time}

lemma openAt_congr (h : e'.lookup k=e.lookup k) : e'.openAt k = e.openAt k := by
  rw [openAt,openAt,h]

@[simp] lemma openAt_insert (e : Evaluator) (st : Episode k) :
    openAt (e.insert k st) k = if st.firing then some (startOf st.alert).ns else none := by
  rw [openAt,AList.lookup_insert]
  rfl

@[simp] lemma openAt_erase (e : Evaluator) (k : String) : openAt (e.erase k) k = none := by
  rw [openAt,AList.lookup_erase]
  rfl

lemma openAt_of_lookup {st : Episode k} (h : e.lookup k=some st) :
    e.openAt k = if st.firing then some (startOf st.alert).ns else none := by
  rw [openAt,h]
  rfl

lemma mem_firing {key : String} {start : ℤ} :
    (∃ a∈e.firing, a.key=key ∧ (startOf a).ns=start) ↔ e.openAt key = some start := by
  constructor
  · rintro ⟨a,ha,rfl,rfl⟩
    obtain ⟨⟨k,st⟩,hst,rfl⟩ := mem_map.mp ha
    obtain ⟨hmem,hfiring⟩ := mem_filter.mp hst
    have hlookup : e.lookup k = some st := AList.mem_lookup_iff.mpr hmem
    rw [st.keyed,openAt_of_lookup hlookup,if_pos hfiring]
  · intro h
    obtain ⟨st,hst,hstart⟩ := Option.bind_eq_some_iff.mp h
    split_ifs at hstart with hfiring
    refine ⟨st.alert,mem_map.mpr ⟨⟨key,st⟩,mem_filter.mpr ⟨?_,hfiring⟩,rfl⟩,st.keyed,
      Option.some.inj hstart⟩
    exact AList.mem_lookup_iff.mp hst

lemma openAt_restore {a : Alert} (hstate : a.state=.firing) (e : Evaluator) (now : Time)
    (k : String) :
    openAt (e.restore a now) k = if a.key=k then some (startOf a).ns else e.openAt k := by
  have heq : e.restore a now = e.insert a.key ⟨a.startedAt,now,true,a,rfl,hstate⟩ := by
    unfold restore
    split
    · cases hstate.symm.trans ‹a.state = .pending›
    · rfl
    · cases hstate.symm.trans ‹a.state = .resolved›
  rw [heq]
  split_ifs with hk
  · subst hk
    exact openAt_insert e _
  · exact openAt_congr (AList.lookup_insert_ne (Ne.symm hk))

lemma openAt_restored {as : List Alert} (hkeys : as.Pairwise fun a b => a.key≠b.key)
    (hfiring : ∀ a∈as, a.state=.firing) (e : Evaluator) (now : Time) (k : String) (start : ℤ) :
    openAt (as.foldl (fun e a => e.restore a now) e) k = some start ↔
      (∃ a∈as, a.key=k ∧ (startOf a).ns=start) ∨
        (∀ a∈as, a.key≠k) ∧ e.openAt k = some start := by
  induction as generalizing e with
  | nil => simp
  | cons a as ih =>
    obtain ⟨hhead,hkeys⟩ := pairwise_cons.mp hkeys
    rw [foldl_cons,ih hkeys (fun b hb => hfiring b (by simp [hb])),
      openAt_restore (hfiring a (by simp))]
    by_cases hk : a.key=k
    · subst hk
      have hothers : ∀ b∈as, b.key≠a.key := fun b hb => (hhead b hb).symm
      rw [if_pos rfl]
      constructor
      · rintro (⟨b,hb,hkey,-⟩ | ⟨-,hstart⟩)
        · exact (hothers b hb hkey).elim
        · exact .inl ⟨a,by simp,rfl,Option.some.inj hstart⟩
      · rintro (⟨b,hb,hkey,rfl⟩ | ⟨hnone,-⟩)
        · obtain rfl | hb := mem_cons.mp hb
          · exact .inr ⟨hothers,rfl⟩
          · exact (hothers b hb hkey).elim
        · exact (hnone a (by simp) rfl).elim
    · simp [hk]

/-- What the evaluator can do at a key. -/
inductive Moves (e : Evaluator) (k : String) : Evaluator × Option Alert × Transition → Prop
  | still {e' : Evaluator} {a : Option Alert} {tr : Transition} (same : e'.openAt k=e.openAt k)
      (unpublished : tr≠.fired ∧ tr≠.resolved)
      (refreshed : ∀ alert, a=some alert → tr=.none → alert.state=.firing →
        alert.key=k ∧ e.openAt k=some (startOf alert).ns) :
      Moves e k (e',a,tr)
  | fired {e' : Evaluator} {a : Alert} (key : a.key=k) (state : a.state=.firing)
      (before : e.openAt k=none) (after : e'.openAt k=some (startOf a).ns) :
      Moves e k (e',some a,.fired)
  | resolved {e' : Evaluator} {a : Alert} (key : a.key=k) (state : a.state=.resolved)
      (before : e.openAt k=some (startOf a).ns) (after : e'.openAt k=none) :
      Moves e k (e',some a,.resolved)

lemma endEpisode_moves (e : Evaluator) (k : String) (now : Time) :
    e.Moves k (e.endEpisode k now) := by
  unfold endEpisode
  cases hst : e.lookup k with
  | none => exact .still rfl ⟨by decide,by decide⟩ (by simp)
  | some st =>
    have hopen := openAt_of_lookup hst
    cases hfiring : st.firing with
    | true =>
      simp only [hfiring,if_true] at hopen ⊢
      exact .resolved st.keyed rfl hopen (openAt_erase e k)
    | false =>
      simp only [hfiring,Bool.false_eq_true,if_false] at hopen ⊢
      exact .still ((openAt_erase e k).trans hopen.symm) ⟨by decide,by decide⟩ (by simp)

lemma endEpisode_ne_fired (e : Evaluator) (k : String) (now : Time) :
    (e.endEpisode k now).2.2 ≠ .fired := by
  unfold endEpisode
  split
  · exact Transition.noConfusion
  · split_ifs <;> exact Transition.noConfusion

lemma endEpisode_of_ne {k' : String} (hne : k'≠k) :
    (e.endEpisode k now).1.lookup k' = e.lookup k' := by
  unfold endEpisode
  split
  · rfl
  · split_ifs <;> exact AList.lookup_erase_ne hne

lemma begin_moves (hst : e.lookup k=none) (r : Rule) (s : Sample) (now : Time) :
    e.Moves k (e.begin k r s now) := by
  have hnone : e.openAt k = none := by
    rw [openAt,hst]
    rfl
  unfold begin
  by_cases hfor : r.forDuration=0
  · rw [if_pos hfor]
    exact .fired rfl rfl hnone (openAt_insert e _)
  · rw [if_neg hfor]
    exact .still ((openAt_insert e _).trans hnone.symm) ⟨by decide,by decide⟩ (by simp)

lemma goOn_moves {st : Episode k} (hst : e.lookup k=some st) (r : Rule) (s : Sample)
    (now : Time) : e.Moves k (e.goOn st r s now) := by
  have hopen := openAt_of_lookup hst
  have hstate := st.state
  unfold goOn
  by_cases hfires : (!st.firing && decide (r.forDuration ≤ now.sub st.first)) = true
  · have hpending : st.firing=false := by simpa using (Bool.and_eq_true_iff.mp hfires).1
    rw [hpending,if_neg Bool.false_ne_true] at hopen
    rw [if_pos hfires]
    refine .fired st.keyed rfl hopen ?_
    exact openAt_insert e _
  · rw [if_neg hfires]
    refine .still ?_ ⟨by decide,by decide⟩ ?_
    · exact (openAt_insert e _).trans hopen.symm
    rintro alert ha - hfiring
    obtain rfl := Option.some.inj ha
    cases hst : st.firing with
    | true => exact ⟨st.keyed,by rw [hopen,if_pos hst]; rfl⟩
    | false =>
      rw [hst] at hstate
      exact absurd (hstate.symm.trans hfiring) (by decide)

lemma step_moves (e : Evaluator) (r : Rule) (s : Sample) (now : Time) :
    e.Moves (Key codec r s) (e.step codec r s now) := by
  unfold step
  dsimp only
  split_ifs
  · exact e.endEpisode_moves _ now
  · split
    · exact begin_moves ‹_› r s now
    · exact goOn_moves ‹_› r s now

lemma step_of_ne {r : Rule} {s : Sample} {k' : String} (hne : k' ≠ Key codec r s) :
    (e.step codec r s now).1.lookup k' = e.lookup k' := by
  unfold step
  dsimp only
  split_ifs
  · exact endEpisode_of_ne hne
  · split
    · unfold begin
      by_cases hfor : r.forDuration=0
      · rw [if_pos hfor]
        exact AList.lookup_insert_ne hne
      · rw [if_neg hfor]
        exact AList.lookup_insert_ne hne
    · rename_i st _
      unfold goOn
      by_cases hfires : (!st.firing && decide (r.forDuration ≤ now.sub st.first)) = true
      · rw [if_pos hfires]
        exact AList.lookup_insert_ne hne
      · rw [if_neg hfires]
        exact AList.lookup_insert_ne hne

lemma checkpoint_lookup (h : ∀ k'≠k, e'.lookup k'=e.lookup k') (k' : String) :
    (e.checkpoint k e').lookup k' = e.lookup k' := by
  unfold checkpoint
  by_cases hk : k'=k
  · subst hk
    cases hst : e.lookup k' with
    | none => exact AList.lookup_erase _ _
    | some prev => exact AList.lookup_insert _
  · cases hst : e.lookup k with
    | none => exact (AList.lookup_erase_ne hk).trans (h k' hk)
    | some prev => exact (AList.lookup_insert_ne hk).trans (h k' hk)

lemma checkpoint_openAt (h : ∀ k'≠k, e'.lookup k'=e.lookup k') (k' : String) :
    (e.checkpoint k e').openAt k' = e.openAt k' :=
  openAt_congr (checkpoint_lookup h k')

lemma lookup_foldl_erase (gone : List (Sigma Episode)) (e : Evaluator) (k : String) :
    (gone.foldl (fun e st => e.erase st.1) e).lookup k =
      if k ∈ gone.map Sigma.fst then none else e.lookup k := by
  induction gone generalizing e with
  | nil => simp
  | cons st gone ih =>
    rw [foldl_cons,ih]
    by_cases hk : k=st.1
    · subst hk
      simp
    · rw [AList.lookup_erase_ne hk,map_cons]
      simp only [mem_cons,hk,false_or]

lemma forget_lookup (e : Evaluator) (before : Time) (k : String) : (e.forget before).lookup k =
    (e.lookup k).filter fun st => !(!st.firing && st.seen.before before) := by
  have hmem : k ∈ (e.entries.filter fun st => !st.2.firing && st.2.seen.before before).map Sigma.fst ↔
      ∃ st, e.lookup k = some st ∧ (!st.firing && st.seen.before before) = true := by
    simp only [mem_map,mem_filter]
    constructor
    · rintro ⟨⟨k,st⟩,⟨hst,hcond⟩,rfl⟩
      exact ⟨st,AList.mem_lookup_iff.mpr hst,hcond⟩
    · rintro ⟨st,hst,hcond⟩
      exact ⟨⟨k,st⟩,⟨AList.mem_lookup_iff.mp hst,hcond⟩,rfl⟩
  rw [forget,lookup_foldl_erase]
  simp only [hmem]
  cases hst : e.lookup k with
  | none => simp
  | some st =>
    cases hcond : !st.firing && st.seen.before before with
    | true => rw [if_pos ⟨st,rfl,hcond⟩,Option.filter_some,hcond]; rfl
    | false =>
      rw [if_neg (by rintro ⟨st',hst',hcond'⟩; cases hst'; rw [hcond] at hcond'; cases hcond'),
        Option.filter_some,hcond]
      rfl

lemma forget_openAt (e : Evaluator) (before : Time) (k : String) :
    openAt (e.forget before) k = e.openAt k := by
  rw [openAt,forget_lookup,openAt]
  cases e.lookup k with
  | none => rfl
  | some st => cases hfiring : st.firing <;> cases st.seen.before before <;> simp [Option.filter_some,hfiring]

end Evaluator

end Pglens.Alerting

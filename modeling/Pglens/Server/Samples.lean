import Pglens.Delta.Resend
import Pglens.Server.Instance

/-! What the results of one instance leave in its delta batch, and which cardinality_truncated
events they stage. -/
namespace Pglens.Server
open Pglens.Lib Pglens.Wire List Function

section Samples
variable (x : Context)

/-- The counter samples of a result, in order. ASH buckets are not observed. -/
def samples (r : Result) (ms : List Metric) : List Delta.Observation :=
  ms.filterMap fun m =>
    if m.kind=.counter ∧ metricDestination r.check m.name ≠ .ash
    then some (counterObservation x r m) else none

def instanceSamples (rs : List Result) : List Delta.Observation :=
  rs.flatMap fun r => samples x r r.metrics

/-- An instance state that has observed `os` since `s`. -/
structure Follows (os : List Delta.Observation) (s s' : InstanceState) : Prop where
  moved : (s'.batch,s'.delta) = (s.batch.observeAll s.delta os).2
  quiet : (∀ out ∈ (s.batch.observeAll s.delta os).1, out=(none,none)) →
    s'.rates = s.rates ∧ s'.resets=s.resets

lemma Follows.refl (s : InstanceState) : Follows [] s s := ⟨rfl,fun _ => ⟨rfl,rfl⟩⟩

lemma Follows.trans {os os' : List Delta.Observation} {s s' s'' : InstanceState}
    (h : Follows os s s') (h' : Follows os' s' s'') : Follows (os++os') s s'' := by
  have hb : s'.batch = (s.batch.observeAll s.delta os).2.1 := congrArg Prod.fst h.moved
  have hd : s'.delta = (s.batch.observeAll s.delta os).2.2 := congrArg Prod.snd h.moved
  refine ⟨?_,fun hall => ?_⟩
  · rw [h'.moved,Delta.batch_observeAll_append,hb,hd]
  · rw [Delta.batch_observeAll_append] at hall
    have hfst := h.quiet fun out hout => hall out (mem_append_left _ hout)
    have hsnd := h'.quiet fun out hout =>
      hall out (mem_append_right _ (by rwa [hb,hd] at hout))
    exact ⟨hsnd.1.trans hfst.1,hsnd.2.trans hfst.2⟩

variable {x} {r : Result} {s s' : InstanceState}

def InstanceState.core (s : InstanceState) :=
  (s.batch,s.delta,s.rates,s.resets,s.events,s.truncatedAt)

lemma route_core (m : Metric) (value seconds : ℚ) :
    (s.route x r m value seconds).core = s.core := by
  unfold InstanceState.route
  dsimp only
  split
  all_goals try rfl
  split <;> rfl

lemma Follows.of_same (hb : s'.batch=s.batch) (hd : s'.delta=s.delta)
    (hr : s'.rates=s.rates) (hs : s'.resets=s.resets) : Follows [] s s' :=
  ⟨by rw [hb,hd]; rfl,fun _ => ⟨hr,hs⟩⟩

lemma Follows.of_core (h : s'.core=s.core) : Follows [] s s' := by
  simp only [InstanceState.core,Prod.mk.injEq] at h
  exact .of_same h.1 h.2.1 h.2.2.1 h.2.2.2.1

lemma observe_follows (m : Metric) :
    Follows [counterObservation x r m] s (s.observe x r m) ∧
      (s.observe x r m).events = s.events ∧ (s.observe x r m).truncatedAt = s.truncatedAt := by
  let o := s.batch.observe s.delta (counterObservation x r m)
  have hout : ∀ P : Prop, (∀ out ∈ (s.batch.observeAll s.delta [counterObservation x r m]).1,
      out=(none,none)) → (o.1=(none,none) → P) → P :=
    fun P hall hP => hP (hall o.1 mem_cons_self)
  unfold InstanceState.observe
  dsimp only
  split
  · rename_i ev heq
    refine ⟨⟨rfl,fun hall => hout _ hall fun hnone => ?_⟩,rfl,rfl⟩
    exact absurd (heq.symm.trans hnone) (by simp)
  · rename_i pt heq
    have hcore := route_core (x := x) (r := r) (s := { s with
      batch := o.2.1
      delta := o.2.2
      rates := s.rates++[pt] }) m pt.rate pt.seconds
    simp only [InstanceState.core,Prod.mk.injEq] at hcore
    refine ⟨⟨?_,fun hall => hout _ hall fun hnone => ?_⟩,hcore.2.2.2.2.1,hcore.2.2.2.2.2⟩
    · exact Prod.ext hcore.1 hcore.2.1
    · exact absurd (heq.symm.trans hnone) (by simp)
  · exact ⟨⟨rfl,fun _ => ⟨rfl,rfl⟩⟩,rfl,rfl⟩

lemma addMetric_follows {m : Metric} (h : s.addMetric x r m = .ok s') :
    Follows (samples x r [m]) s s' ∧ s'.events=s.events ∧ s'.truncatedAt=s.truncatedAt := by
  have hcore : s'.core=s.core → samples x r [m] = [] →
      Follows (samples x r [m]) s s' ∧ s'.events=s.events ∧ s'.truncatedAt=s.truncatedAt := by
    intro hc hs
    rw [hs]
    refine ⟨.of_core hc,?_⟩
    simp only [InstanceState.core,Prod.mk.injEq] at hc
    exact ⟨hc.2.2.2.2.1,hc.2.2.2.2.2⟩
  unfold InstanceState.addMetric at h
  cases hk : m.kind with
  | other kind => rw [hk] at h; cases h
  | gauge =>
    have hs : samples x r [m] = [] := by simp [samples,hk]
    simp only [hk,reduceCtorEq,if_false] at h
    split_ifs at h <;> cases h
    · exact hcore rfl hs
    · exact hcore (route_core _ _ _) hs
  | counter =>
    simp only [hk,if_true] at h
    split_ifs at h with hd <;> cases h
    · exact hcore rfl (by simp [samples,hd])
    · have hs : samples x r [m] = [counterObservation x r m] := by simp [samples,hk,hd]
      rw [hs]
      exact observe_follows m

lemma addMetrics_follows {ms : List Metric} (h : s.addMetrics x r ms = .ok s') :
    Follows (samples x r ms) s s' ∧ s'.events=s.events ∧ s'.truncatedAt=s.truncatedAt := by
  induction ms generalizing s with
  | nil =>
    obtain rfl := Except.ok.inj h
    exact ⟨.refl _,rfl,rfl⟩
  | cons m ms ih =>
    unfold InstanceState.addMetrics at h
    split at h
    · cases h
    · rename_i t ht
      obtain ⟨hone,hev,htr⟩ := addMetric_follows ht
      obtain ⟨hrest,hev',htr'⟩ := ih h
      have hsplit : samples x r (m::ms) = samples x r [m]++samples x r ms := by
        rw [samples,samples,samples,← filterMap_append,singleton_append]
      rw [hsplit]
      exact ⟨hone.trans hrest,hev'.trans hev,htr'.trans htr⟩

lemma addFacts_core (fs : List Fact) : (fs.foldl (InstanceState.addFact x r) s).core = s.core := by
  induction fs generalizing s with
  | nil => rfl
  | cons f fs ih =>
    have hone : (s.addFact x r f).core = s.core := by
      unfold InstanceState.addFact
      split_ifs <;> rfl
    exact ih.trans hone

lemma describe_core : (s.describe x r).core = s.core := addFacts_core r.facts

end Samples

section Truncation
variable {x : Context} {r : Result} {s s' : InstanceState}

def truncationDue (x : Context) (written : String → Option Time) (r : Result) : Bool :=
  r.truncated && !((written r.check).any fun last =>
    decide (r.ts.sub last<truncationEventWindow)) &&
    !x.store.recentlyTruncated x.origin r.check r.ts

lemma markTruncated_sound :
    s.markTruncated x .sound r = some (if truncationDue x s.truncatedAt r then { s with
      truncatedAt := update s.truncatedAt r.check (some r.ts)
      events := s.events++[truncationEvent x.origin r] } else s,.sound) := by
  unfold InstanceState.markTruncated truncationEventDue truncationDue
  cases hr : r.truncated with
  | false => simp
  | true =>
    cases hw : (s.truncatedAt r.check).any fun last =>
        decide (r.ts.sub last<truncationEventWindow) <;> simp

lemma addResult_sound (h : s.addResult x .sound r = .taken s' .sound) :
    ∃ t, Follows (samples x r r.metrics) s t ∧ s'.batch=t.batch ∧ s'.delta=t.delta ∧
      s'.rates = t.rates ∧ s'.resets=[] ∧
      s'.events = s.events++(if truncationDue x s.truncatedAt r then [truncationEvent x.origin r]
        else [])++counterResetEvents t.resets x.origin ∧
      s'.truncatedAt = if truncationDue x s.truncatedAt r
        then update s.truncatedAt r.check (some r.ts) else s.truncatedAt := by
  let marked : InstanceState := if truncationDue x s.truncatedAt r then { s.note x r with
      truncatedAt := update s.truncatedAt r.check (some r.ts)
      events := s.events++[truncationEvent x.origin r] } else s.note x r
  have hmarked : (s.note x r).markTruncated x .sound r = some (marked,.sound) := markTruncated_sound
  have hsame : Follows [] s marked ∧ marked.events = s.events ++
      (if truncationDue x s.truncatedAt r then [truncationEvent x.origin r] else []) ∧
      marked.truncatedAt = if truncationDue x s.truncatedAt r
        then update s.truncatedAt r.check (some r.ts) else s.truncatedAt := by
    by_cases hd : truncationDue x s.truncatedAt r = true
    · rw [show marked=_ from if_pos hd,if_pos hd,if_pos hd]
      exact ⟨.of_same rfl rfl rfl rfl,rfl,rfl⟩
    · rw [show marked=_ from if_neg hd,if_neg hd,if_neg hd,append_nil]
      exact ⟨.of_same rfl rfl rfl rfl,rfl,rfl⟩
  unfold InstanceState.addResult at h
  rw [hmarked] at h
  dsimp only at h
  split at h
  · cases h
  · rename_i t ht
    cases h
    obtain ⟨hf,hev,htr⟩ := addMetrics_follows ht
    have hd := describe_core (x := x) (r := r) (s := marked)
    have hfollows := (hsame.1.trans (.of_core hd)).trans hf
    simp only [InstanceState.core,Prod.mk.injEq] at hd
    refine ⟨t,hfollows,rfl,rfl,rfl,rfl,?_,?_⟩
    · rw [hev,hd.2.2.2.2.1,hsame.2.1]
    · exact (htr.trans hd.2.2.2.2.2).trans hsame.2.2

lemma addResult_txn {txn : Txn} (h : s.addResult x .sound r = .taken s' txn) : txn=.sound := by
  unfold InstanceState.addResult at h
  rw [markTruncated_sound] at h
  dsimp only at h
  split at h
  · cases h
  · cases h
    rfl

variable {rs : List Result}

lemma addResults_cons (h : s.addResults x .sound (r::rs) = .taken s' .sound) :
    ∃ t, s.addResult x .sound r = .taken t .sound ∧ t.addResults x .sound rs = .taken s' .sound := by
  unfold InstanceState.addResults at h
  split at h
  · rename_i t txn ht
    obtain rfl : txn=.sound := addResult_txn ht
    exact ⟨t,ht,h⟩
  · cases h
  · cases h

lemma addResult_follows (hs : s.resets=[]) (h : s.addResult x .sound r = .taken s' .sound) :
    Follows (samples x r r.metrics) s s' ∧ s'.resets=[] := by
  obtain ⟨u,hu,hb,hd,hrates,hres,-⟩ := addResult_sound h
  refine ⟨⟨by rw [hb,hd]; exact hu.moved,fun hall => ?_⟩,hres⟩
  exact ⟨hrates.trans (hu.quiet hall).1,hres.trans hs.symm⟩

lemma addResults_follows (hs : s.resets=[])
    (h : s.addResults x .sound rs = .taken s' .sound) : Follows (instanceSamples x rs) s s' := by
  induction rs generalizing s with
  | nil =>
    cases h
    exact .refl _
  | cons r rs ih =>
    obtain ⟨t,ht,hrest⟩ := addResults_cons h
    obtain ⟨hone,hres⟩ := addResult_follows hs ht
    exact hone.trans (ih hres hrest)

lemma addResults_events (hs : s.resets=[]) (h : s.addResults x .sound rs = .taken s' .sound)
    (hq : ∀ out ∈ (s.batch.observeAll s.delta (instanceSamples x rs)).1, out=(none,none)) :
    ∃ new, s'.events = s.events++new ∧ (∀ ev∈new, ev.type=.cardinalityTruncated) ∧
      ((∀ check, s.truncatedAt check=none) → (new=[] ↔ ∀ r∈rs, r.truncated=true →
        x.store.recentlyTruncated x.origin r.check r.ts=true)) := by
  induction rs generalizing s with
  | nil =>
    cases h
    exact ⟨[],by simp,by simp,by simp⟩
  | cons r rs ih =>
    obtain ⟨t,ht,hrest⟩ := addResults_cons h
    obtain ⟨hone,hres⟩ := addResult_follows hs ht
    obtain ⟨u,hu,-,-,-,-,hev,htr⟩ := addResult_sound ht
    have hsplit : instanceSamples x (r::rs) = samples x r r.metrics++instanceSamples x rs := rfl
    rw [hsplit,Delta.batch_observeAll_append] at hq
    have hnoReset : u.resets=[] :=
      ((hu.quiet fun out hout => hq out (mem_append_left _ hout)).2).trans hs
    have hq' : ∀ out ∈ (t.batch.observeAll t.delta (instanceSamples x rs)).1,
        out = (none,none) := by
      have hm := hone.moved
      rw [show t.batch=_ from congrArg Prod.fst hm,show t.delta=_ from congrArg Prod.snd hm]
      exact fun out hout => hq out (mem_append_right _ hout)
    obtain ⟨new,hnew,htype,hiff⟩ := ih hres hrest hq'
    have hreset : counterResetEvents u.resets x.origin = [] := by rw [hnoReset]; rfl
    rw [hreset,append_nil] at hev
    by_cases hdue : truncationDue x s.truncatedAt r = true
    · rw [if_pos hdue] at hev
      refine ⟨truncationEvent x.origin r::new,by rw [hnew,hev]; simp,?_,fun _ => ?_⟩
      · rintro ev (_ | ⟨_,hm⟩)
        · rfl
        · exact htype ev hm
      · simp only [truncationDue,Bool.and_eq_true,Bool.not_eq_true'] at hdue
        simp only [reduceCtorEq,false_iff]
        intro hall
        have := hall r mem_cons_self hdue.1.1
        rw [hdue.2] at this
        cases this
    · rw [if_neg hdue,append_nil] at hev
      rw [if_neg hdue] at htr
      refine ⟨new,by rw [hnew,hev],htype,fun hnone => ?_⟩
      rw [hiff (by rw [htr]; exact hnone),forall_mem_cons]
      refine ⟨fun hall => ⟨fun hr => ?_,hall⟩,And.right⟩
      by_contra hrec
      exact hdue (by simp [truncationDue,hr,hnone,hrec])

def Written (x : Context) (s : InstanceState) : Prop :=
  ∀ check t, s.truncatedAt check = some t →
    ∃ ev∈s.events, ev.marks x.origin check = true ∧ ev.ts=t

lemma truncationEvent_marks (o : Origin) (r : Result) :
    (truncationEvent o r).marks o r.check = true := by
  simp [truncationEvent,EventRow.marks]

/-- Each truncated result has an event of its check shortly before it: in the store, or
staged by the results so far. -/
theorem addResults_accounts (hw : Written x s) (h : s.addResults x .sound rs = .taken s' .sound) :
    (∀ ev∈s.events, ev∈s'.events) ∧ ∀ r∈rs, r.truncated=true →
      x.store.recentlyTruncated x.origin r.check r.ts = true ∨
        ∃ ev∈s'.events, ev.marks x.origin r.check = true ∧
          r.ts.sub ev.ts < truncationEventWindow := by
  induction rs generalizing s with
  | nil =>
    cases h
    exact ⟨fun _ h => h,fun _ h => nomatch h⟩
  | cons r rs ih =>
    obtain ⟨t,ht,hrest⟩ := addResults_cons h
    obtain ⟨u,-,-,-,-,-,hev,htr⟩ := addResult_sound ht
    have hgrows : ∀ ev∈s.events, ev∈t.events := fun ev hm => by
      rw [hev]
      exact mem_append_left _ (mem_append_left _ hm)
    have hone : truncationDue x s.truncatedAt r = true → truncationEvent x.origin r ∈ t.events :=
      fun hdue => by rw [hev,if_pos hdue]; simp
    have hwt : Written x t := by
      intro check ts hts
      rw [htr] at hts
      split_ifs at hts with hdue
      · by_cases hc : check=r.check
        · subst hc
          rw [update_self] at hts
          exact ⟨_,hone hdue,truncationEvent_marks _ _,Option.some.inj hts⟩
        · rw [update_of_ne hc] at hts
          obtain ⟨ev,hm,hmarks⟩ := hw check ts hts
          exact ⟨ev,hgrows ev hm,hmarks⟩
      · obtain ⟨ev,hm,hmarks⟩ := hw check ts hts
        exact ⟨ev,hgrows ev hm,hmarks⟩
    obtain ⟨hsub,hall⟩ := ih hwt hrest
    refine ⟨fun ev hm => hsub ev (hgrows ev hm),forall_mem_cons.mpr ⟨fun hr => ?_,hall⟩⟩
    by_cases hdue : truncationDue x s.truncatedAt r = true
    · have hz : r.ts.sub r.ts < truncationEventWindow :=
        lt_of_le_of_lt (Time.sub_le le_rfl) (by
          simp [truncationEventWindow,Duration.minute,Duration.second])
      exact .inr ⟨_,hsub _ (hone hdue),truncationEvent_marks _ _,hz⟩
    · by_cases hrec : x.store.recentlyTruncated x.origin r.check r.ts = true
      · exact .inl hrec
      · -- Only an event of this call can have held this one back.
        have hmem : (s.truncatedAt r.check).any (fun last =>
            decide (r.ts.sub last<truncationEventWindow)) = true := by
          by_contra hno
          exact hdue (by simp [truncationDue,hr,hrec,Bool.eq_false_iff.mpr hno])
        obtain ⟨last,hlast,hlt⟩ := (Option.any_eq_true _ _).mp hmem
        obtain ⟨ev,hm,hmarks,hts⟩ := hw r.check last hlast
        exact .inr ⟨ev,hsub ev (hgrows ev hm),hmarks,by rw [hts]; simpa using hlt⟩

lemma addResults_marks (h : s.addResults x .sound rs = .taken s' .sound) :
    ∀ ev∈s'.events, ev∈s.events ∨ ev.type≠.cardinalityTruncated ∨
      ev.instanceID = some x.origin.instanceID := by
  induction rs generalizing s with
  | nil =>
    cases h
    exact fun ev hm => .inl hm
  | cons r rs ih =>
    obtain ⟨t,ht,hrest⟩ := addResults_cons h
    obtain ⟨u,-,-,-,-,-,hev,-⟩ := addResult_sound ht
    intro ev hm
    rcases ih hrest ev hm with hm | hm
    · rw [hev,mem_append,mem_append] at hm
      rcases hm with (hm | hm) | hm
      · exact .inl hm
      · split_ifs at hm
        · obtain rfl := mem_singleton.mp hm
          exact .inr (.inr rfl)
        · cases hm
      · obtain ⟨datname,-,hmap⟩ := mem_filterMap.mp hm
        obtain ⟨first,-,rfl⟩ := Option.map_eq_some_iff.mp hmap
        exact .inr (.inl (by simp))
    · exact .inr hm

lemma samples_key {ms : List Metric} : ∀ o ∈ samples x r ms, o.key.inst=x.origin.instanceID := by
  intro o ho
  obtain ⟨m,-,hm⟩ := mem_filterMap.mp ho
  split_ifs at hm
  cases hm
  rfl

lemma instanceSamples_key : ∀ o ∈ instanceSamples x rs, o.key.inst=x.origin.instanceID := by
  intro o ho
  obtain ⟨r,-,hr⟩ := mem_flatMap.mp ho
  exact samples_key o hr

end Truncation

end Pglens.Server

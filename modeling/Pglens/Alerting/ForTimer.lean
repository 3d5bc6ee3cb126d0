import Pglens.Alerting.Evaluator
import Mathlib.Data.List.Induction

/-! Runs of Step, End and Forget for one rule, from a new evaluator. A fired or resolved alert that
cannot be persisted is undone with the checkpoint taken before it and counts as not made. -/
namespace Pglens.Alerting.Evaluator
open List Duration Option

inductive Call
  | step (s : Sample) (now : Time) (undo : Bool)
  | finish (key : String) (now : Time) (undo : Bool)
  | forget (before : Time)

def Transition.published : Transition → Bool
  | .fired => true
  | .resolved => true
  | _ => false

/-- The evaluator after a transition at a key and, unless it is undone, the transition. -/
def settle (e : Evaluator) (key : String) (undo : Bool) (res : Evaluator × Option Alert × Transition) :
    Evaluator × Option Transition :=
  if undo && Transition.published res.2.2 then (e.checkpoint key res.1,none) else (res.1,some res.2.2)

section Runs
variable (codec : Codec) (r : Rule)

def trueCond (s : Sample) : Bool :=
  !s.inapplicable && (decide (r.eventType ≠ "") || compare s.value r.comparator r.threshold)

def startedBy (s : Sample) (now : Time) : Time := if s.ts.isZero then now else s.ts

def Call.key : Call → Option String
  | .step s _ _ => some (Key codec r s)
  | .finish key _ _ => some key
  | .forget _ => none

def Call.run (e : Evaluator) : Call → Evaluator × Option Transition
  | .step s now undo => e.settle (Key codec r s) undo (e.step codec r s now)
  | .finish key now undo => e.settle key undo (e.endEpisode key now)
  | .forget before => (e.forget before,none)

def after (e : Evaluator) (calls : List Call) : Evaluator :=
  calls.foldl (fun e c => (c.run codec r e).1) e

/-- The calls that end an episode of a key: an End, or a Step whose condition is false. -/
def Call.Ends (k : String) : Call → Prop
  | .step s _ _ => Key codec r s = k ∧ trueCond r s = false
  | .finish key _ _ => key=k
  | .forget _ => False

/-- What a call can do to the episode of a key: the episode before it and after it, and the
transition it makes. -/
inductive Turn (k : String) : Call → Option (Episode k) → Option (Episode k) → Option Transition → Prop
  | apart {c : Call} {o : Option (Episode k)} {tr : Option Transition} (key : c.key codec r ≠ some k) :
      Turn k c o o tr
  | forgets {before : Time} {st : Episode k} (pending : st.firing=false) :
      Turn k (.forget before) (some st) none none
  | absent {c : Call} (ends : c.Ends codec r k) : Turn k c none none (some .none)
  | opens {s : Sample} {now : Time} {undo : Bool} {st : Episode k} (key : Key codec r s=k)
      (cond : trueCond r s=true) (start : st.first=startedBy s now)
      (alert : st.alert.startedAt=startedBy s now) (waits : st.firing=decide (r.forDuration=0)) :
      Turn k (.step s now undo) none (some st) (some (if st.firing then .fired else .opened))
  | opensUndone {s : Sample} {now : Time} (key : Key codec r s=k) (cond : trueCond r s=true) :
      Turn k (.step s now true) none none none
  | samples {s : Sample} {now : Time} {undo : Bool} {st st' : Episode k} (key : Key codec r s=k)
      (cond : trueCond r s=true) (start : st'.first=st.first)
      (alert : st'.alert.startedAt=st.alert.startedAt) (firing : st'.firing=st.firing) :
      Turn k (.step s now undo) (some st) (some st') (some .none)
  | fires {s : Sample} {now : Time} {undo : Bool} {st st' : Episode k} (key : Key codec r s=k)
      (cond : trueCond r s=true) (start : st'.first=st.first)
      (alert : st'.alert.startedAt=st.alert.startedAt) (pending : st.firing=false)
      (firing : st'.firing=true) :
      Turn k (.step s now undo) (some st) (some st') (some .fired)
  | firesUndone {s : Sample} {now : Time} {st : Episode k} (key : Key codec r s=k)
      (cond : trueCond r s=true) (pending : st.firing=false) :
      Turn k (.step s now true) (some st) (some st) none
  | cancels {c : Call} {st : Episode k} (ends : c.Ends codec r k) (pending : st.firing=false) :
      Turn k c (some st) none (some .cancelled)
  | resolves {c : Call} {st : Episode k} (ends : c.Ends codec r k) (firing : st.firing=true) :
      Turn k c (some st) none (some .resolved)
  | resolvesUndone {c : Call} {st : Episode k} (ends : c.Ends codec r k) (firing : st.firing=true) :
      Turn k c (some st) (some st) none

end Runs

variable {codec : Codec} {r : Rule} {e : Evaluator} {k : String}

lemma step_eq (e : Evaluator) (s : Sample) (now : Time) :
    e.step codec r s now = if trueCond r s then
      match e.lookup (Key codec r s) with
      | none => e.begin (Key codec r s) r s now
      | some st => e.goOn st r s now
    else e.endEpisode (Key codec r s) now := by
  unfold step
  change (if (!trueCond r s)=true then _ else _) = _
  cases trueCond r s with
  | false => rfl
  | true => cases hst : e.lookup (Key codec r s) <;> simp

variable {c : Call} {undo : Bool} {res : Evaluator × Option Alert × Transition} {s : Sample}
  {now start : Time} {st : Episode k}

lemma settle_turn (hframe : ∀ k'≠k, res.1.lookup k'=e.lookup k')
    (hmade : Turn codec r k c (e.lookup k) (res.1.lookup k) (some res.2.2))
    (hundone : undo=true → Transition.published res.2.2=true →
      Turn codec r k c (e.lookup k) (e.lookup k) none) :
    Turn codec r k c (e.lookup k) ((e.settle k undo res).1.lookup k) (e.settle k undo res).2 := by
  unfold settle
  split_ifs with h
  · obtain ⟨hundo,hpub⟩ := Bool.and_eq_true_iff.mp h
    dsimp only
    rw [checkpoint_lookup hframe]
    exact hundone hundo hpub
  · exact hmade

lemma endEpisode_turn (ends : c.Ends codec r k) (undo : Bool) (now : Time) :
    Turn codec r k c (e.lookup k) ((e.settle k undo (e.endEpisode k now)).1.lookup k)
      (e.settle k undo (e.endEpisode k now)).2 := by
  refine settle_turn (fun k' => endEpisode_of_ne) ?_ ?_
  · cases hst : e.lookup k with
    | none => simpa only [endEpisode,hst] using .absent ends
    | some st =>
      cases hfiring : st.firing with
      | true => simpa [endEpisode,hst,hfiring] using .resolves ends hfiring
      | false => simpa [endEpisode,hst,hfiring] using .cancels ends hfiring
  · cases hst : e.lookup k with
    | none => simp [endEpisode,hst,Transition.published]
    | some st =>
      cases hfiring : st.firing with
      | true => exact fun _ _ => .resolvesUndone ends hfiring
      | false => simp [endEpisode,hst,hfiring,Transition.published]

lemma step_turn (cond : trueCond r s=true) (undo : Bool) :
    Turn codec r (Key codec r s) (.step s now undo) (e.lookup (Key codec r s))
      ((e.settle (Key codec r s) undo (e.step codec r s now)).1.lookup (Key codec r s))
      (e.settle (Key codec r s) undo (e.step codec r s now)).2 := by
  refine settle_turn (fun k' => step_of_ne) ?_ ?_
  · rw [step_eq,if_pos cond]
    cases hst : e.lookup (Key codec r s) with
    | none =>
      dsimp only
      unfold begin
      by_cases hfor : r.forDuration=0
      · rw [if_pos hfor]
        dsimp only
        rw [AList.lookup_insert]
        exact .opens rfl cond rfl rfl (by simp [hfor])
      · rw [if_neg hfor]
        dsimp only
        rw [AList.lookup_insert]
        exact .opens rfl cond rfl rfl (by simp [hfor])
    | some st =>
      dsimp only
      unfold goOn
      by_cases hfires : (!st.firing && decide (r.forDuration ≤ now.sub st.first)) = true
      · have hpending : st.firing=false := by simpa using (Bool.and_eq_true_iff.mp hfires).1
        rw [if_pos hfires]
        dsimp only
        rw [AList.lookup_insert]
        exact .fires rfl cond rfl rfl hpending rfl
      · rw [if_neg hfires]
        dsimp only
        rw [AList.lookup_insert]
        exact .samples rfl cond rfl rfl rfl
  · rintro rfl
    rw [step_eq,if_pos cond]
    cases hst : e.lookup (Key codec r s) with
    | none => exact fun _ => .opensUndone rfl cond
    | some st =>
      dsimp only
      unfold goOn
      by_cases hfires : (!st.firing && decide (r.forDuration ≤ now.sub st.first)) = true
      · have hpending : st.firing=false := by simpa using (Bool.and_eq_true_iff.mp hfires).1
        exact fun _ => .firesUndone rfl cond hpending
      · rw [if_neg hfires]
        simp [Transition.published]

lemma settle_of_ne {key : String} (hframe : ∀ k'≠key, res.1.lookup k'=e.lookup k')
    (hne : k≠key) : (e.settle key undo res).1.lookup k = e.lookup k := by
  unfold settle
  split_ifs
  · exact checkpoint_lookup hframe k
  · exact hframe k hne

lemma Call.run_turn (codec : Codec) (r : Rule) (e : Evaluator) (c : Call) (k : String) :
    Turn codec r k c (e.lookup k) ((c.run codec r e).1.lookup k) (c.run codec r e).2 := by
  cases c with
  | step s now undo =>
    by_cases hk : k = Key codec r s
    · subst hk
      cases cond : trueCond r s with
      | true => exact step_turn cond undo
      | false =>
        rw [Call.run,step_eq,if_neg (by simp [cond])]
        exact endEpisode_turn (c := .step s now undo) ⟨rfl,cond⟩ undo now
    · rw [Call.run,settle_of_ne (fun k' => step_of_ne) hk]
      exact .apart fun h => hk (some.inj h).symm
  | finish key now undo =>
    by_cases hk : k=key
    · subst hk
      exact endEpisode_turn (c := .finish k now undo) rfl undo now
    · rw [Call.run,settle_of_ne (fun k' => endEpisode_of_ne) hk]
      exact .apart fun h => hk (some.inj h).symm
  | forget before =>
    rw [Call.run,forget_lookup]
    cases hst : e.lookup k with
    | none => exact .apart (by simp [Call.key])
    | some st =>
      cases hgone : !st.firing && st.seen.before before with
      | true =>
        have hpending : st.firing=false := by simpa using (Bool.and_eq_true_iff.mp hgone).1
        rw [filter_some,hgone]
        exact .forgets hpending
      | false =>
        rw [filter_some,hgone]
        exact .apart (by simp [Call.key])

lemma Call.Ends.key (h : c.Ends codec r k) : c.key codec r = some k := by
  cases c with
  | step s now undo => exact congrArg some h.1
  | finish key now undo => exact congrArg some h
  | forget before => exact h.elim

lemma after_append (e : Evaluator) (calls later : List Call) :
    after codec r e (calls++later) = after codec r (after codec r e calls) later :=
  foldl_append

lemma after_concat (e : Evaluator) (calls : List Call) (c : Call) :
    after codec r e (calls++[c]) = (c.run codec r (after codec r e calls)).1 :=
  after_append e calls [c]

/-- The Step that opened an episode, and the calls since. While the episode is pending none of
them has ended it. -/
structure OpenedBy (codec : Codec) (r : Rule) {k : String} (st : Episode k) (earlier : List Call)
    (s : Sample) (now : Time) (undo : Bool) (since : List Call) : Prop where
  key : Key codec r s = k
  cond : trueCond r s = true
  fresh : (after codec r ∅ earlier).lookup k = none
  first : st.first = startedBy s now
  alert : st.alert.startedAt = startedBy s now
  kept : ∀ m, m <+: since → ((after codec r ∅ (earlier++.step s now undo::m)).lookup k).isSome
  waits : st.firing=false → ∀ c∈since, ¬c.Ends codec r k

lemma OpenedBy.concat {st' : Episode k} {earlier since : List Call}
    (h : OpenedBy codec r st earlier s now undo since) {tr : Option Transition}
    (hturn : Turn codec r k c (some st) (some st') tr)
    (hlookup : (after codec r ∅ (earlier++.step s now undo::(since++[c]))).lookup k=some st') :
    OpenedBy codec r st' earlier s now undo (since++[c]) := by
  have hstart : st'.first=st.first ∧ st'.alert.startedAt=st.alert.startedAt ∧
      (st'.firing=false → st.firing=false ∧ ¬c.Ends codec r k) := by
    cases hturn with
    | apart key => exact ⟨rfl,rfl,fun hpending => ⟨hpending,fun hends => key hends.key⟩⟩
    | samples key cond start alert firing =>
      exact ⟨start,alert,fun hpending => ⟨firing ▸ hpending,fun hends => by simp [Call.Ends,cond] at hends⟩⟩
    | fires key cond start alert pending firing =>
      exact ⟨start,alert,fun hpending => by simp [firing] at hpending⟩
    | firesUndone key cond pending =>
      exact ⟨rfl,rfl,fun _ => ⟨pending,fun hends => by simp [Call.Ends,cond] at hends⟩⟩
    | resolvesUndone ends firing => exact ⟨rfl,rfl,fun hpending => by simp [firing] at hpending⟩
  obtain ⟨hfirst,halert,hwaits⟩ := hstart
  refine ⟨h.key,h.cond,h.fresh,hfirst.trans h.first,halert.trans h.alert,?_,?_⟩
  · intro m hm
    obtain rfl | hm := prefix_concat_iff.mp hm
    · rw [hlookup]
      rfl
    · exact h.kept m hm
  · intro hpending d hd
    obtain ⟨hbefore,hc⟩ := hwaits hpending
    obtain hd | hd := mem_append.mp hd
    · exact h.waits hbefore d hd
    · rwa [mem_singleton.mp hd]

lemma opened_of_lookup (calls : List Call) (hst : (after codec r ∅ calls).lookup k=some st) :
    ∃ earlier s now undo since, calls = earlier++.step s now undo::since ∧
      OpenedBy codec r st earlier s now undo since := by
  induction calls using List.reverseRecOn generalizing st with
  | nil => simp [after] at hst
  | append_singleton calls c ih =>
    have hturn := c.run_turn codec r (after codec r ∅ calls) k
    rw [← after_concat,hst] at hturn
    generalize (c.run codec r (after codec r ∅ calls)).2 = tr at hturn
    cases hbefore : (after codec r ∅ calls).lookup k with
    | none =>
      rw [hbefore] at hturn
      cases hturn with
      | opens key cond start alert waits =>
        refine ⟨calls,_,_,_,[],rfl,key,cond,hbefore,start,alert,?_,by simp⟩
        intro m hm
        rw [prefix_nil.mp hm,hst]
        rfl
    | some st₀ =>
      rw [hbefore] at hturn
      obtain ⟨earlier,s,now,undo,since,rfl,h⟩ := ih hbefore
      rw [append_assoc,cons_append] at hst ⊢
      exact ⟨earlier,s,now,undo,since++[c],rfl,h.concat hturn hst⟩

lemma step_fired {e' : Evaluator} {a : Alert} (hfor : 0<r.forDuration)
    (h : e.step codec r s now=(e',some a,.fired)) :
    trueCond r s = true ∧ ∃ st : Episode (Key codec r s), e.lookup (Key codec r s) = some st ∧
      st.firing = false ∧ a.startedAt=st.alert.startedAt ∧ r.forDuration ≤ now.ns-st.first.ns := by
  rw [step_eq] at h
  split_ifs at h with cond
  · refine ⟨cond,?_⟩
    cases hst : e.lookup (Key codec r s) with
    | none =>
      rw [hst] at h
      simp [begin,hfor.ne'] at h
    | some st =>
      rw [hst] at h
      dsimp only at h
      unfold goOn at h
      by_cases hfires : (!st.firing && decide (r.forDuration ≤ now.sub st.first)) = true
      · rw [if_pos hfires] at h
        obtain ⟨hpending,hdue⟩ := Bool.and_eq_true_iff.mp hfires
        have hlt : r.forDuration-1 < now.sub st.first := by
          have := of_decide_eq_true hdue
          omega
        have hns := Time.lt_of_lt_sub (by omega) hlt
        simp only [Prod.mk.injEq,some.injEq] at h
        refine ⟨st,rfl,by simpa using hpending,?_,by omega⟩
        rw [← h.2.1]
      · rw [if_neg hfires] at h
        simp at h
  · exact absurd (congrArg (·.2.2) h) (endEpisode_ne_fired e _ now)

def Fires (e : Evaluator) (k : String) (start : Time) : Prop :=
  ∃ st : Episode k, e.lookup k = some st ∧ st.firing=true ∧ st.alert.startedAt=start

def Unresolved (codec : Codec) (r : Rule) (k : String) (e : Evaluator) (calls : List Call) : Prop :=
  ∀ m c rest, calls = m++c::rest → c.key codec r = some k →
    (c.run codec r (after codec r e m)).2 ≠ some .resolved

lemma Unresolved.cons {calls : List Call}
    (hc : c.key codec r=some k → (c.run codec r e).2 ≠ some .resolved)
    (h : Unresolved codec r k (c.run codec r e).1 calls) : Unresolved codec r k e (c::calls) := by
  intro m d rest heq hkey
  cases m with
  | nil =>
    obtain ⟨rfl,-⟩ := List.cons.inj heq
    exact hc hkey
  | cons b m =>
    obtain ⟨rfl,hrest⟩ := List.cons.inj heq
    exact h m d rest hrest hkey

lemma Fires.run (h : Fires e k start) (codec : Codec) (r : Rule) (c : Call) :
    (Fires (c.run codec r e).1 k start ∧
      (c.key codec r=some k → (c.run codec r e).2 ≠ some .resolved)) ∨
      c.Ends codec r k ∧ (c.run codec r e).2 = some .resolved ∧ (c.run codec r e).1.lookup k = none := by
  obtain ⟨st,hst,hfiring,rfl⟩ := h
  have hturn := c.run_turn codec r e k
  unfold Fires
  rw [hst] at hturn
  generalize (c.run codec r e).1.lookup k = o at hturn ⊢
  generalize (c.run codec r e).2 = tr at hturn ⊢
  cases hturn with
  | apart key => exact .inl ⟨⟨st,rfl,hfiring,rfl⟩,fun hkey => absurd hkey key⟩
  | forgets pending => simp [hfiring] at pending
  | samples key cond start alert firing =>
    exact .inl ⟨⟨_,rfl,firing.trans hfiring,alert⟩,fun _ => by simp⟩
  | fires key cond start alert pending firing => simp [hfiring] at pending
  | firesUndone key cond pending => simp [hfiring] at pending
  | cancels ends pending => simp [hfiring] at pending
  | resolves ends firing => exact .inr ⟨ends,rfl,rfl⟩
  | resolvesUndone ends firing => exact .inl ⟨⟨st,rfl,hfiring,rfl⟩,fun _ => by simp⟩

lemma Fires.until_resolved (h : Fires e k start) (codec : Codec) (r : Rule) (later : List Call) :
    (Fires (after codec r e later) k start ∧ Unresolved codec r k e later) ∨
      ∃ m c rest, later = m++c::rest ∧ Unresolved codec r k e m ∧
        Fires (after codec r e m) k start ∧ c.Ends codec r k ∧
        (c.run codec r (after codec r e m)).2 = some .resolved ∧
        (after codec r e (m++[c])).lookup k = none := by
  induction later generalizing e with
  | nil => exact .inl ⟨h,by simp [Unresolved]⟩
  | cons c later ih =>
    obtain ⟨hnext,hc⟩ | ⟨hends,hresolved,hgone⟩ := h.run codec r c
    · obtain ⟨hfires,hun⟩ | ⟨m,d,rest,rfl,hun,hfires,hd⟩ := ih hnext
      · exact .inl ⟨hfires,hun.cons hc⟩
      · exact .inr ⟨c::m,d,rest,rfl,hun.cons hc,hfires,hd⟩
    · exact .inr ⟨[],c,later,rfl,by simp [Unresolved],h,hends,hresolved,hgone⟩

lemma fires_of_fired (hkey : c.key codec r=some k)
    (h : (c.run codec r e).2=some .fired) : ∃ start, Fires (c.run codec r e).1 k start := by
  have hturn := c.run_turn codec r e k
  rw [h] at hturn
  unfold Fires
  generalize (c.run codec r e).1.lookup k = o at hturn ⊢
  generalize e.lookup k = o' at hturn
  generalize htr : some Transition.fired = tr at hturn
  cases hturn with
  | apart key => exact absurd hkey key
  | @opens s now undo st key cond start alert waits =>
    cases hfiring : st.firing with
    | true => exact ⟨_,st,rfl,hfiring,rfl⟩
    | false => simp [hfiring] at htr
  | fires key cond start alert pending firing => exact ⟨_,_,rfl,firing,rfl⟩
  | _ => simp at htr

/-- A firing comes after a true condition that has lasted, and ends with one resolution. -/
theorem for_timer_honoured (codec : Codec) (r : Rule) (calls : List Call) :
    (∀ s now e' a, 0<r.forDuration →
      (after codec r ∅ calls).step codec r s now=(e',some a,.fired) →
      ∃ earlier s₀ now₀ undo₀ since, calls=earlier++.step s₀ now₀ undo₀::since ∧
        Key codec r s₀=Key codec r s ∧
        (after codec r ∅ earlier).lookup (Key codec r s)=none ∧
        a.startedAt=(if s₀.ts.isZero then now₀ else s₀.ts) ∧
        (∀ s' now' undo', Key codec r s'=Key codec r s →
          Call.step s' now' undo' ∈ .step s₀ now₀ undo₀::(since++[.step s now false]) →
          trueCond r s'=true) ∧
        (∀ now' undo', .finish (Key codec r s) now' undo' ∉ since) ∧
        (∀ m, m <+: since →
          ((after codec r ∅ (earlier++.step s₀ now₀ undo₀::m)).lookup (Key codec r s)).isSome) ∧
        r.forDuration ≤ now.ns-a.startedAt.ns) ∧
    ∀ c k, c.key codec r = some k → (c.run codec r (after codec r ∅ calls)).2 = some .fired →
      ∃ start, ∀ later,
        (Fires (after codec r ∅ (calls++c::later)) k start ∧
          Unresolved codec r k (after codec r ∅ (calls++[c])) later) ∨
        ∃ m d rest, later = m++d::rest ∧ Fires (after codec r ∅ (calls++c::m)) k start ∧
          Unresolved codec r k (after codec r ∅ (calls++[c])) m ∧ d.Ends codec r k ∧
          (d.run codec r (after codec r ∅ (calls++c::m))).2 = some .resolved ∧
          (after codec r ∅ (calls++c::(m++[d]))).lookup k = none := by
  constructor
  · intro s now e' a hfor hfired
    obtain ⟨hcond,st,hst,hpending,hstart,hdue⟩ := step_fired hfor hfired
    obtain ⟨earlier,s₀,now₀,undo₀,since,rfl,h⟩ := opened_of_lookup calls hst
    refine ⟨earlier,s₀,now₀,undo₀,since,rfl,h.key,h.fresh,hstart.trans h.alert,?_,?_,h.kept,?_⟩
    · intro s' now' undo' hkey hmem
      simp only [mem_cons,mem_append,not_mem_nil,or_false,Call.step.injEq] at hmem
      obtain ⟨rfl,-,-⟩ | hmem | ⟨rfl,-,-⟩ := hmem
      · exact h.cond
      · by_contra hfalse
        exact h.waits hpending _ hmem ⟨hkey,by simpa using hfalse⟩
      · exact hcond
    · exact fun now' undo' hmem => h.waits hpending _ hmem rfl
    · rw [hstart,h.alert,← h.first]
      exact hdue
  · intro c k hkey hfired
    obtain ⟨start,hfires⟩ := fires_of_fired hkey hfired
    refine ⟨start,fun later => ?_⟩
    have hsplit : ∀ m, after codec r ∅ (calls++c::m) = after codec r (after codec r ∅ (calls++[c])) m := by
      intro m
      rw [← after_append,append_assoc,singleton_append]
    rw [← after_concat] at hfires
    obtain ⟨hlast,hun⟩ | ⟨m,d,rest,hlater,hun,hlast,hends,hresolved,hgone⟩ :=
      hfires.until_resolved codec r later
    · rw [← hsplit] at hlast
      exact .inl ⟨hlast,hun⟩
    · rw [← hsplit] at hlast hresolved hgone
      exact .inr ⟨m,d,rest,hlater,hlast,hun,hends,hresolved,hgone⟩

def spaceless : Codec := ⟨fun _ => "",fun _ => "",fun _ => "",fun _ => none⟩

def hotRule : Rule :=
  ⟨"hot",true,.warning,.cluster,some .gt,some ↑(0 : ℚ),minute,"","hot"⟩

def hotSample : Sample := ⟨some 1,none,"",[],some ↑(1 : ℚ),⟨second,0⟩,false⟩

/-- One minute after the sample that opened it, an episode fires. -/
theorem for_timer_minute : ∃ e' a,
    (after spaceless hotRule ∅ [.step hotSample ⟨second,0⟩ false]).step spaceless hotRule
      hotSample ⟨61*second,0⟩ = (e',some a,.fired) ∧
    hotRule.forDuration ≤ 61*second-a.startedAt.ns := by
  refine ⟨_,_,rfl,?_⟩
  obtain ⟨-,-,-,-,-,-,-,-,-,-,-,-,h⟩ := (for_timer_honoured spaceless hotRule
    [.step hotSample ⟨second,0⟩ false]).1 hotSample ⟨61*second,0⟩ _ _ (by decide) rfl
  exact h

end Pglens.Alerting.Evaluator

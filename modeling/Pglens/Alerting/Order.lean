import Pglens.Alerting.InStep

/-! Notify drops what is pending of its alert, so a delivery that is pending is always one of the
last call for its alert. What is sent for an alert then comes in the order of the calls, which is
the order of the transitions. -/
namespace Pglens.Alerting
open List

/-- The alert of the call with a number, from the alerts of all calls, newest first. -/
def callAt (calls : List Alert) (i : ℕ) : Option Alert := calls.reverse[i]?

lemma callAt_cons (a : Alert) (calls : List Alert) (i : ℕ) :
    callAt (a::calls) i = if i=calls.length then some a else callAt calls i := by
  unfold callAt
  rw [reverse_cons,getElem?_append,length_reverse]
  split_ifs with hlt heq heq
  · omega
  · rfl
  · simp [heq]
  · rw [getElem?_eq_none (by simp; omega),getElem?_eq_none (by simp; omega)]

variable {calls : List Alert} {i j : ℕ} {a b : Alert}

lemma lt_of_callAt (h : callAt calls i=some a) : i<calls.length := by
  obtain ⟨hlt,-⟩ := List.getElem?_eq_some_iff.mp h
  rwa [length_reverse] at hlt

lemma callAt_mem (h : callAt calls i=some a) : a∈calls :=
  mem_reverse.mp (mem_of_getElem? h)

lemma callAt_cons_of_some (h : callAt calls i=some a) : callAt (b::calls) i = some a := by
  rw [callAt_cons,if_neg (lt_of_callAt h).ne,h]

lemma sublist_of_callAt (hij : i<j)
    (ha : callAt calls i=some a) (hb : callAt calls j=some b) : [b,a].Sublist calls := by
  induction calls with
  | nil => cases lt_of_callAt ha
  | cons x calls ih =>
    have hj := lt_of_callAt hb
    rw [callAt_cons] at ha hb
    rw [if_neg (by simp at hj; omega)] at ha
    split_ifs at hb with hlast
    · obtain rfl := Option.some.inj hb
      exact (singleton_sublist.mpr (callAt_mem ha)).cons_cons x
    · exact (ih ha hb).cons x

/-- What a delivery says is the alert of its call. -/
structure Delivery.Reports (codec : Codec) (calls : List Alert) (d : Delivery) : Prop where
  alert : callAt calls d.call = some d.alert
  phase : d.phase = Notifier.phaseOf d.alert
  message : d.unclaimed=false → d.message = some (Notifier.newMessage codec d.alert d.phase)

/-- No call for the alert of the delivery is newer than its own. -/
structure Delivery.Latest (codec : Codec) (calls : List Alert) (d : Delivery) : Prop
    extends d.Reports codec calls where
  last : ∀ i a, callAt calls i = some a → a.key=d.alert.key → i≤d.call

def Effect.delivered : Effect → Option Delivery
  | .sent d _ true => some d
  | _ => none

def Notifier.sends (n : Notifier) : List Delivery := n.log.filterMap Effect.delivered

/-- The deliveries are in the order of the calls. Since the log was `log`, a send of Retry was
of an alert and a phase that `owing` allows. -/
structure Notifier.Orderly (codec : Codec) (owing : Alert → Phase → Prop) (log : List Effect)
    (calls : List Alert) (n : Notifier) : Prop where
  pending : ∀ d∈n.pending, d.Latest codec calls
  sent : ∀ d∈n.sends, d.Reports codec calls ∧ d.unclaimed=false
  order : n.sends.Pairwise fun d d' => d'.alert.key=d.alert.key → d'.call≤d.call
  since : ∃ new, n.log = new++log ∧ ∀ d ok, .sent d true ok ∈ new → owing d.alert d.phase

namespace Notifier.Orderly
variable {codec : Codec} {owing : Alert → Phase → Prop} {log : List Effect} {calls : List Alert}
  {n : Notifier} {d : Delivery}

section Kept
variable (h : n.Orderly codec owing log calls)
include h

lemma answers (outcomes : Outcomes) :
    { n with outcomes := outcomes }.Orderly codec owing log calls := ⟨h.pending,h.sent,h.order,h.since⟩

lemma record {e : Effect} (hnone : e.delivered=none)
    (hretry : ∀ d ok, e = .sent d true ok → owing d.alert d.phase) :
    (n.record e).Orderly codec owing log calls := by
  have hsends : (n.record e).sends = n.sends := filterMap_cons_none hnone
  obtain ⟨new,hnew,hsince⟩ := h.since
  refine ⟨h.pending,hsends ▸ h.sent,hsends ▸ h.order,e::new,congrArg (e::·) hnew,fun d ok hd => ?_⟩
  obtain heq | hd := mem_cons.mp hd
  · exact hretry d ok heq.symm
  · exact hsince d ok hd

lemma sending (hd : d.Latest codec calls)
    (hclaimed : d.unclaimed=false) {again : Bool} (hretry : again=true → owing d.alert d.phase)
    (ok : Bool) : (n.record (.sent d again ok)).Orderly codec owing log calls := by
  have howing : ∀ d' ok', Effect.sent d again ok = .sent d' true ok' → owing d'.alert d'.phase := by
    rintro d' ok' heq
    cases heq
    exact hretry rfl
  cases ok with
  | false => exact h.record rfl howing
  | true =>
    have hsends : (n.record (.sent d again true)).sends = d::n.sends := filterMap_cons_some rfl
    obtain ⟨new,hnew,hsince⟩ := h.since
    refine ⟨h.pending,?_,?_,.sent d again true::new,congrArg (_::·) hnew,fun d' ok' hd' => ?_⟩
    · rw [hsends]
      exact forall_mem_cons.mpr ⟨⟨hd.toReports,hclaimed⟩,h.sent⟩
    · rw [hsends]
      exact pairwise_cons.mpr ⟨fun d' hd' => hd.last _ _ (h.sent d' hd').1.alert,h.order⟩
    · obtain heq | hd' := mem_cons.mp hd'
      · exact howing d' ok' heq.symm
      · exact hsince d' ok' hd'

lemma keep (hd : d.Latest codec calls) :
    (n.keep d).Orderly codec owing log calls := by
  unfold Notifier.keep
  split_ifs
  · exact h
  · refine ⟨fun d' hd' => ?_,h.sent,h.order,h.since⟩
    obtain hd' | hd' := mem_append.mp hd'
    · exact h.pending d' hd'
    · obtain rfl := mem_singleton.mp hd'
      exact ⟨⟨hd.alert,hd.phase,hd.message⟩,hd.last⟩

lemma giveUp (d : Delivery) (reason : String) :
    (n.giveUp d reason).1.Orderly codec owing log calls := by
  have hcounted : { n with undelivered := n.undelivered+1 }.Orderly codec owing log calls :=
    ⟨h.pending,h.sent,h.order,h.since⟩
  exact hcounted.record (e := .gaveUp d) rfl (by simp)

lemma keepUnclaimed (hd : d.Latest codec calls) :
    (n.keepUnclaimed d).1.Orderly codec owing log calls := by
  unfold Notifier.keepUnclaimed
  split_ifs
  · exact h.keep hd
  · exact h.giveUp d "its claim failed on every attempt"

lemma deliver (hd : d.Latest codec calls)
    (hclaimed : d.unclaimed=false) {again : Bool} (hretry : again=true → owing d.alert d.phase) :
    (n.deliver d again).1.Orderly codec owing log calls := by
  have hd' : { d with attempts := d.attempts+1 }.Latest codec calls :=
    ⟨⟨hd.alert,hd.phase,hd.message⟩,hd.last⟩
  obtain ⟨outcomes,heq | heq | heq⟩ := n.deliver_cases d again
  · rw [heq]
    exact (h.answers outcomes).keep hd
  · rw [heq]
    exact ((h.answers outcomes).sending hd hclaimed hretry true).record rfl (by simp)
  · rw [heq]
    exact (((h.answers outcomes).sending hd hclaimed hretry false).record rfl (by simp)).keep hd'

lemma dropPending (drop : Delivery → Bool) :
    (n.dropPending drop).Orderly codec owing log calls := by
  have hsends : (n.dropPending drop).sends = n.sends := by
    have hnone : (((n.pending.filter drop).map Effect.dropped).reverse).filterMap Effect.delivered = [] := by
      simp [filterMap_map,Function.comp_def,Effect.delivered]
    simp only [sends,Notifier.dropPending,filterMap_append,hnone,nil_append]
  obtain ⟨new,hnew,hsince⟩ := h.since
  refine ⟨fun d hd => h.pending d (mem_of_mem_filter hd),hsends ▸ h.sent,hsends ▸ h.order,_++new,
    (congrArg (_++·) hnew).trans (append_assoc _ _ _).symm,fun d ok hd => ?_⟩
  obtain hd | hd := mem_append.mp hd
  · simp at hd
  · exact hsince d ok hd

lemma call {a : Alert}
    (hnone : ∀ d∈n.pending, d.alert.key≠a.key) : n.Orderly codec owing log (a::calls) := by
  refine ⟨fun d hd => ?_,fun d hd => ?_,h.order,h.since⟩
  · have hlatest := h.pending d hd
    refine ⟨⟨callAt_cons_of_some hlatest.alert,hlatest.phase,hlatest.message⟩,fun i b hb hkey => ?_⟩
    rw [callAt_cons] at hb
    split_ifs at hb
    · obtain rfl := Option.some.inj hb
      exact (hnone d hd hkey.symm).elim
    · exact hlatest.last i b hb hkey
  · obtain ⟨hreports,hclaimed⟩ := h.sent d hd
    exact ⟨⟨callAt_cons_of_some hreports.alert,hreports.phase,hreports.message⟩,hclaimed⟩

end Kept

lemma delivery_latest (codec : Codec) (n : Notifier) (a : Alert) (ch : Channel) {unclaimed : Bool}
    {message : Option Message} {attempts : ℕ}
    (hmessage : unclaimed=false → message=some (newMessage codec a (phaseOf a))) :
    { n.delivery codec a ch with
      unclaimed := unclaimed
      message := message
      attempts := attempts }.Latest codec (a::n.notified) := by
  refine ⟨⟨?_,rfl,hmessage⟩,fun i b hb _ => ?_⟩
  · exact (callAt_cons a n.notified n.notified.length).trans (if_pos rfl)
  · exact Nat.le_of_lt_succ (lt_of_callAt hb)

lemma notifyOn {a : Alert} (h : n.Orderly codec owing log (a::n.notified)) (ch : Channel) :
    (n.notifyOn codec a ch).1.Orderly codec owing log (a::n.notified) := by
  have hmade (outcomes : Outcomes) : { n with
      created := n.created+1
      outcomes := outcomes }.Orderly codec owing log (a::n.notified) :=
    ⟨h.pending,h.sent,h.order,h.since⟩
  obtain ⟨n',outcomes,rfl,heq | heq | heq | heq⟩ := Notifier.notifyOn_cases codec a n ch
  · rw [heq]
    exact (hmade outcomes).keepUnclaimed (delivery_latest codec n a ch (by simp))
  · rw [heq]
    exact ((hmade outcomes).record rfl (by simp)).keepUnclaimed (delivery_latest codec n a ch (by simp))
  · rw [heq]
    exact ((hmade outcomes).record rfl (by simp)).deliver (delivery_latest codec n a ch fun _ => rfl) rfl
      (by simp)
  · rw [heq]
    exact (hmade outcomes).record rfl (by simp)

lemma retryOne (h : n.Orderly codec owing log calls) (hd : d.Latest codec calls)
    (howing : owing d.alert d.phase) : (n.retryOne codec d).1.Orderly codec owing log calls := by
  obtain ⟨n',outcomes,rfl,⟨hclaimed,heq⟩ | ⟨hunclaimed,heq | heq | heq | heq⟩⟩ :=
    Notifier.retryOne_cases codec n d
  · rw [heq]
    exact h.deliver hd hclaimed fun _ => howing
  · rw [heq]
    exact (h.answers outcomes).keepUnclaimed hd
  · rw [heq]
    exact ((h.answers outcomes).record rfl (by simp)).keepUnclaimed
      ⟨⟨hd.alert,hd.phase,hd.message⟩,hd.last⟩
  · rw [heq]
    have hworded : { d with
        unclaimed := false
        message := some (newMessage codec d.alert d.phase) }.Latest codec calls :=
      ⟨⟨hd.alert,hd.phase,fun _ => rfl⟩,hd.last⟩
    exact ((h.answers outcomes).record rfl (by simp)).deliver hworded rfl fun _ => howing
  · rw [heq]
    exact ((h.answers outcomes).record rfl (by simp)).giveUp d _

lemma notify (h : n.Orderly codec owing log n.notified) (a : Alert) :
    (n.notify codec a).1.Orderly codec owing log (n.notify codec a).1.notified := by
  let n₀ := n.dropPending fun d => d.alert.key == a.key
  have hdropped : n₀.notified=n.notified ∧ n₀.Orderly codec owing log (a::n.notified) :=
    ⟨rfl,(h.dropPending _).call fun d hd => by simpa using (mem_filter.mp hd).2⟩
  -- The call is on the record only when the loop is over.
  have hloop : (collect (Notifier.notifyOn codec a) n.channels n₀).1.Orderly codec owing log
      (a::n.notified) := by
    refine (collect_keeps (P := fun n' => n'.notified=n.notified ∧
      n'.Orderly codec owing log (a::n.notified)) (fun n' ch _ ⟨hnotified,hn'⟩ => ?_) hdropped).2
    have hframe := notifyOn_frame codec a n' ch
    simp only [frame,Prod.mk.injEq] at hframe
    rw [← hnotified] at hn' ⊢
    exact ⟨hframe.2.2.2,hn'.notifyOn ch⟩
  rw [notify_notified]
  exact ⟨hloop.pending,hloop.sent,hloop.order,hloop.since⟩

lemma retry (h : n.Orderly codec owing log calls) (howing : ∀ d∈n.pending, owing d.alert d.phase) :
    (n.retry codec).1.Orderly codec owing log calls := by
  have htaken : { n with pending := n.pending.filter fun d => !decide (d.failedIn<n.passes) }.Orderly
      codec owing log calls :=
    ⟨fun d hd => h.pending d (mem_of_mem_filter hd),h.sent,h.order,h.since⟩
  have hloop : (collect (Notifier.retryOne codec) (n.pending.filter fun d => decide (d.failedIn<n.passes))
      { n with pending := n.pending.filter fun d => !decide (d.failedIn<n.passes) }).1.Orderly
        codec owing log calls :=
    collect_keeps (P := fun n' => n'.Orderly codec owing log calls) (fun n' d hd hn' =>
      hn'.retryOne (h.pending d (mem_of_mem_filter hd)) (howing d (mem_of_mem_filter hd))) htaken
  exact ⟨hloop.pending,hloop.sent,hloop.order,hloop.since⟩

lemma mono (h : n.Orderly codec owing log calls) {owing' : Alert → Phase → Prop}
    (himp : ∀ a phase, owing a phase → owing' a phase) : n.Orderly codec owing' log calls := by
  obtain ⟨new,hnew,hsince⟩ := h.since
  exact ⟨h.pending,h.sent,h.order,new,hnew,fun d ok hd => himp _ _ (hsince d ok hd)⟩

lemma restart (h : n.Orderly codec owing log calls) (owing' : Alert → Phase → Prop) :
    n.Orderly codec owing' n.log calls :=
  ⟨h.pending,h.sent,h.order,[],rfl,fun _ _ hd => (by cases hd)⟩

end Notifier.Orderly

/-- A FIRING is of an episode that is firing. -/
def StillFiring (firing : List Alert) (a : Alert) (phase : Phase) : Prop :=
  phase = .fire → ∃ a'∈firing, a'.key=a.key ∧ (startOf a').ns = (startOf a).ns

lemma Notifier.of_not_overtaken {d : Delivery} {owed : Bool} {firing : List Alert}
    (h : overtaken d owed firing=false) (hphase : d.phase=.fire) :
    owed = true ∨ ∃ a∈firing, (startOf a).ns = (startOf d.alert).ns := by
  induction firing generalizing owed with
  | nil => exact .inl (by simpa [overtaken,hphase] using h)
  | cons a firing ih =>
    unfold overtaken at h
    split_ifs at h
    obtain howed | ⟨a',ha',hstart⟩ := ih h
    · obtain howed | hequal := Bool.or_eq_true_iff.mp howed
      · exact .inl howed
      · exact .inr ⟨a,by simp,by simpa using hequal⟩
    · exact .inr ⟨a',by simp [ha'],hstart⟩

lemma Notifier.settle_stillFiring (n : Notifier) (firing : List Alert) :
    ∀ d ∈ (n.settle firing).pending, StillFiring firing d.alert d.phase := by
  intro d hd hphase
  have hnot : overtaken d false (firing.filter fun a => a.key == d.alert.key) = false := by
    simpa using (mem_filter.mp hd).2
  obtain howed | ⟨a,ha,hstart⟩ := of_not_overtaken hnot hphase
  · cases howed
  · obtain ⟨ha,hkey⟩ := mem_filter.mp ha
    exact ⟨a,ha,by simpa using hkey,hstart⟩

section World
variable {codec : Codec} {cfg : Config} {w : World} {log : List Effect}

lemma evaluateRules_orderly (cfg : Config) (silences : List Silence) (now : Time) (purge : Option (Alert → Bool))
    (rules : List Rule) {t : Turn}
    (ht : t.notifier.Orderly codec (fun _ _ => False) log t.notifier.notified) :
    let t' := (Turn.evaluateRules codec cfg silences now purge rules t).1
    t'.notifier.Orderly codec (StillFiring t'.eval.firing) log t'.notifier.notified := by
  intro t'
  obtain hkept | ⟨n,hn,heq⟩ := Turn.evaluateRules_notifier
    (P := fun n => n.Orderly codec (fun _ _ => False) log n.notified)
    (fun n outcomes hn => hn.answers outcomes) (fun n a hn => hn.notify a) cfg silences now purge rules ht
  · exact hkept.mono fun _ _ hfalse => hfalse.elim
  · rw [heq,Notifier.retry_notified]
    exact ((hn.dropPending _).mono fun _ _ hfalse => hfalse.elim).retry (n.settle_stillFiring _)

def World.Orderly (codec : Codec) (w : World) : Prop :=
  ∀ r, (w.engines r).notifier.Orderly codec (fun _ _ => False) (w.engines r).notifier.log
    (w.engines r).notifier.notified

lemma World.Orderly.tick (h : w.Orderly codec) {r : ℕ} {round : Round} {w' : World}
    (htick : (w.tick codec cfg r round).1=w') :
    (∀ r'≠r, (w'.engines r').notifier=(w.engines r').notifier) ∧
      (w'.engines r).notifier.Orderly codec (StillFiring (w'.engines r).eval.firing)
        (w.engines r).notifier.log (w'.engines r).notifier.notified := by
  have hsame {w' : World} (hw' : ∀ r', (w'.engines r').notifier=(w.engines r').notifier) :
      (∀ r'≠r, (w'.engines r').notifier=(w.engines r').notifier) ∧
        (w'.engines r).notifier.Orderly codec (StillFiring (w'.engines r).eval.firing)
          (w.engines r).notifier.log (w'.engines r).notifier.notified := by
    refine ⟨fun r' _ => hw' r',?_⟩
    rw [hw' r]
    exact (h r).restart _
  have hled := w.ensureLeader_notifier r round.io
  obtain heq | ⟨-,w₁,hrestore,hend⟩ := w.tick_cases codec cfg r round
  · obtain rfl := htick.symm.trans heq
    exact hsame hled
  · have hrestored (r' : ℕ) := (World.restore_notifier hrestore r').trans (hled r')
    obtain heq | ⟨silences,rules,heq⟩ := hend
    · obtain rfl := htick.symm.trans heq
      exact hsame hrestored
    · obtain rfl := htick.symm.trans heq
      have hstart : (w₁.turn r round).notifier.Orderly codec (fun _ _ => False)
          (w.engines r).notifier.log (w₁.turn r round).notifier.notified := by
        have hw₁ := h r
        rw [← hrestored r] at hw₁ ⊢
        exact hw₁.answers round.outcomes
      have hpass := evaluateRules_orderly cfg silences round.now round.purge rules hstart
      refine ⟨fun r' hr => ?_,?_⟩
      · exact (congrArg Engine.notifier (Function.update_of_ne hr _ _)).trans (hrestored r')
      · simp only [World.finish,Function.update_self]
        exact hpass

lemma World.Orderly.step (h : w.Orderly codec) (cfg : Config) (a : Action) :
    (w.step codec cfg a).Orderly codec := by
  cases a with
  | endSession c => exact h
  | tick r round =>
    have htick : (w.tick codec cfg r round).1 = w.step codec cfg (.tick r round) := rfl
    obtain ⟨hothers,hown⟩ := h.tick htick
    intro r'
    by_cases hr : r'=r
    · subst hr
      exact hown.restart _
    · rw [hothers r' hr]
      exact h r'

lemma World.run_orderly (codec : Codec) (cfg : Config) (channels : ℕ → List Channel)
    (actions : List Action) : ((World.start channels).run codec cfg actions).Orderly codec := by
  refine List.foldlRecOn actions _ (fun r => ?_) fun _ h a _ => World.Orderly.step h cfg a
  exact ⟨fun _ hd => (by cases hd),fun _ hd => (by cases hd),.nil,[],rfl,fun _ _ hd => (by cases hd)⟩

end World

def Notifier.sentOn (n : Notifier) (ch : Channel) (key : String) : List Delivery :=
  n.sends.filter fun d => decide (d.channel=ch ∧ d.alert.key=key)

lemma owed_sublist (codec : Codec) (r : ℕ) (published : List Publication) :
    (owed codec r published).Sublist (published.map Publication.alert) :=
  filter_sublist.map _

lemma World.InStep.sublist_of_calls {codec : Codec} {w : World} (h : w.InStep codec) {r : ℕ}
    {key : String} (hij : i<j) (ha : callAt (w.engines r).notifier.notified i=some a)
    (hb : callAt (w.engines r).notifier.notified j=some b) (hakey : a.key=key)
    (hbkey : b.key=key) : [b,a].Sublist (transitionsOf key w.published) := by
  rw [(h.engines r).notified] at ha hb
  have hsub := ((sublist_of_callAt hij ha hb).trans (owed_sublist codec r w.published)).filter
    fun a => a.key == key
  rwa [filter_eq_self.mpr (by simp [hakey,hbkey])] at hsub

/-- In every run, what the channels of a replica took are the transitions it persisted and no
silence covered, on each channel those of one alert in the order of the transitions. A FIRING that
Retry sends is of an episode that the evaluator holds as firing. -/
theorem notifications_in_order (codec : Codec) (cfg : Config) (channels : ℕ → List Channel)
    (actions : List Action) (r : ℕ) :
    let w := (World.start channels).run codec cfg actions
    let n := (w.engines r).notifier
    (∀ d∈n.sends, callAt (owed codec r w.published) d.call=some d.alert ∧
      d.phase=Notifier.phaseOf d.alert ∧
      d.message=some (Notifier.newMessage codec d.alert d.phase)) ∧
      (∀ ch key, (n.sentOn ch key).Pairwise fun d d' => d.call=d'.call ∨
        d'.call<d.call ∧ [d.alert,d'.alert].Sublist (transitionsOf key w.published)) ∧
      (∀ ch key, (n.sentOn ch key).Pairwise fun d d' => d'.phase=.resolve → d.phase=.fire →
        d'.call<d.call ∧ [d.alert,d'.alert].Sublist (transitionsOf key w.published)) ∧
      ∀ round, let w' := w.step codec cfg (.tick r round)
        ∃ new, (w'.engines r).notifier.log = new++n.log ∧ ∀ d ok, .sent d true ok ∈ new →
          d.phase = .fire → ∃ a ∈ (w'.engines r).eval.firing,
            a.key = d.alert.key ∧ (startOf a).ns = (startOf d.alert).ns := by
  intro w n
  have hstep : w.InStep codec := World.run_inStep codec cfg channels actions
  have horder : w.Orderly codec := World.run_orderly codec cfg channels actions
  have hn := horder r
  have hsent (ch : Channel) (key : String) : (n.sentOn ch key).Pairwise fun d d' => d.call=d'.call ∨
      d'.call < d.call ∧ [d.alert,d'.alert].Sublist (transitionsOf key w.published) := by
    refine (hn.order.filter _).imp_of_mem fun {d d'} hd hd' hle => ?_
    obtain ⟨hd,hon⟩ := mem_filter.mp hd
    obtain ⟨hd',hon'⟩ := mem_filter.mp hd'
    obtain ⟨-,hkey⟩ := of_decide_eq_true hon
    obtain ⟨-,hkey'⟩ := of_decide_eq_true hon'
    obtain hlt | heq := (hle (hkey'.trans hkey.symm)).lt_or_eq
    · exact .inr ⟨hlt,hstep.sublist_of_calls hlt (hn.sent d' hd').1.alert (hn.sent d hd).1.alert hkey' hkey⟩
    · exact .inl heq.symm
  refine ⟨fun d hd => ?_,hsent,fun ch key => ?_,fun round => ?_⟩
  · obtain ⟨hreports,hclaimed⟩ := hn.sent d hd
    rw [← (hstep.engines r).notified]
    exact ⟨hreports.alert,hreports.phase,hreports.message hclaimed⟩
  · refine (hsent ch key).imp_of_mem fun {d d'} hd hd' hor hresolve hfire => ?_
    refine hor.resolve_left fun heq => ?_
    -- One call has one alert, and an alert one phase.
    have hreports := (hn.sent d (mem_of_mem_filter hd)).1
    have hreports' := (hn.sent d' (mem_of_mem_filter hd')).1
    have halert := hreports.alert
    rw [heq,hreports'.alert] at halert
    rw [hreports'.phase,Option.some.inj halert,← hreports.phase,hfire] at hresolve
    cases hresolve
  · exact (horder.tick rfl).2.since

end Pglens.Alerting

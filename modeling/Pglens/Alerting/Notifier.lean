import Pglens.Alerting.Types

/-! Notify, Settle and Retry of channelNotifier. What the context, the store and the channels answer
is an input; what they are asked is written to a log, newest first. The deliveries and the calls of
Notify are numbered, so that the log can say which of them it is about. -/
namespace Pglens.Alerting
open Wire (Labels)

def maxNotifyAttempts : ℕ := 5

inductive Phase
  | fire
  | resolve
  deriving DecidableEq, Repr

def Phase.text : Phase → String
  | .fire => "fire"
  | .resolve => "resolve"

/-- A channel; two of them may have one name. -/
structure Channel where
  number : ℕ
  name : String
  deriving DecidableEq, Repr

structure Message where
  dedupID : String
  ruleID : String
  severity : String
  phase : String
  summary : String
  cluster : String
  inst : String
  database : String
  value : Float64
  atTime : Time
  labels : Labels
  deriving DecidableEq

/-- pendingDelivery, with its number and that of its Notify call. The message is `none` until
it is built. -/
structure Delivery where
  number : ℕ
  call : ℕ
  dedupID : String
  channel : Channel
  phase : Phase
  message : Option Message
  unclaimed : Bool
  alert : Alert
  attempts : ℕ
  failedIn : ℕ
  deriving DecidableEq

/-- What ClaimNotification answers: the claim is made, it is on record already, or an error. -/
inductive Claim
  | won
  | onRecord
  | failed
  deriving DecidableEq, Repr

/-- What the notifier asks for, and what it drops and gives up. `again` marks a send of Retry. -/
inductive Effect
  | claimed (d : Delivery) (answer : Claim)
  | sent (d : Delivery) (again ok : Bool)
  | marked (d : Delivery) (ok : Bool)
  | dropped (d : Delivery)
  | gaveUp (d : Delivery)
  deriving DecidableEq

/-- The answers to come, in the order of the calls: whether the context is done, the claims,
and whether the sends and the marks succeed. -/
structure Outcomes where
  ctx : List Bool
  claims : List Claim
  sends : List Bool
  marks : List Bool

/-- The errors that Notify and Retry return. -/
inductive DeliveryFault
  | cycle
  | claim
  | channel (name : String)
  | mark
  | undelivered (name phase dedupID reason : String)
  deriving DecidableEq, Repr

/-- channelNotifier. The rest of the record is the count behind UndeliveredNotifications, the
answers to come, and what was done so far. -/
structure Notifier where
  channels : List Channel
  passes : ℕ
  pending : List Delivery
  undelivered : ℕ
  outcomes : Outcomes
  created : ℕ
  notified : List Alert
  log : List Effect

def Notifier.new (channels : List Channel) : Notifier := ⟨channels,0,[],0,⟨[],[],[],[]⟩,0,[],[]⟩

namespace Notifier

def record (n : Notifier) (e : Effect) : Notifier := { n with log := e::n.log }

def ctxErr (n : Notifier) : Bool × Notifier :=
  (n.outcomes.ctx.headD false,{ n with outcomes := { n.outcomes with ctx := n.outcomes.ctx.tail } })

def claimNotification (n : Notifier) (d : Delivery) : Claim × Notifier :=
  let answer := n.outcomes.claims.headD .failed
  (answer,{ n with outcomes := { n.outcomes with claims := n.outcomes.claims.tail } }.record
    (.claimed d answer))

def send (n : Notifier) (d : Delivery) (again : Bool) : Bool × Notifier :=
  let ok := n.outcomes.sends.headD false
  (ok,{ n with outcomes := { n.outcomes with sends := n.outcomes.sends.tail } }.record
    (.sent d again ok))

def markNotification (n : Notifier) (d : Delivery) (ok : Bool) : Bool × Notifier :=
  (n.outcomes.marks.headD true,
    { n with outcomes := { n.outcomes with marks := n.outcomes.marks.tail } }.record (.marked d ok))

def dropPending (n : Notifier) (drop : Delivery → Bool) : Notifier :=
  { n with
    pending := n.pending.filter fun d => !drop d
    log := ((n.pending.filter drop).map Effect.dropped).reverse++n.log }

def keep (n : Notifier) (d : Delivery) : Notifier :=
  if maxNotifyAttempts≤d.attempts then n
  else { n with pending := n.pending++[{ d with failedIn := n.passes }] }

def giveUp (n : Notifier) (d : Delivery) (reason : String) : Notifier × DeliveryFault :=
  ({ n with undelivered := n.undelivered+1 }.record (.gaveUp d),
    .undelivered d.channel.name d.phase.text d.dedupID reason)

def keepUnclaimed (n : Notifier) (d : Delivery) : Notifier × List DeliveryFault :=
  if d.attempts < maxNotifyAttempts then (n.keep d,[])
  else
    let g := n.giveUp d "its claim failed on every attempt"
    (g.1,[g.2])

/-- The claim of a delivery; the delivery comes back with its attempts. -/
def claim (n : Notifier) (d : Delivery) : Notifier × Delivery × Except DeliveryFault Bool :=
  let c := n.ctxErr
  if c.1 then (c.2,d,.error .cycle)
  else
    let q := c.2.claimNotification d
    match q.1 with
    | .failed => (q.2,{ d with attempts := d.attempts+1 },.error .claim)
    | .won => (q.2,d,.ok true)
    | .onRecord => (q.2,d,.ok false)

def deliver (n : Notifier) (d : Delivery) (again : Bool) : Notifier × List DeliveryFault :=
  let c := n.ctxErr
  if c.1 then (c.2.keep d,[.channel d.channel.name])
  else
    let s := c.2.send d again
    let d := { d with attempts := d.attempts+1 }
    let m := s.2.markNotification d s.1
    if s.1 then (m.2,if m.1 then [] else [.mark])
    else (m.2.keep d,[.channel d.channel.name])

/-- What an attempt at a delivery leaves as it is. -/
def frame (n : Notifier) : List Channel × ℕ × ℕ × List Alert := (n.channels,n.passes,n.created,n.notified)

lemma keep_frame (n : Notifier) (d : Delivery) : (n.keep d).frame = n.frame := by
  unfold keep
  split_ifs <;> rfl

lemma keepUnclaimed_frame (n : Notifier) (d : Delivery) :
    (n.keepUnclaimed d).1.frame = n.frame := by
  unfold keepUnclaimed
  split_ifs
  · exact n.keep_frame d
  · rfl

lemma claim_cases (n : Notifier) (d : Delivery) : ∃ outcomes,
    n.claim d = ({ n with outcomes := outcomes },d,.error .cycle) ∨
    n.claim d = ({ n with outcomes := outcomes }.record (.claimed d .failed),
      { d with attempts := d.attempts+1 },.error .claim) ∨
    n.claim d = ({ n with outcomes := outcomes }.record (.claimed d .won),d,.ok true) ∨
    n.claim d = ({ n with outcomes := outcomes }.record (.claimed d .onRecord),d,.ok false) := by
  unfold claim claimNotification ctxErr
  dsimp only
  split_ifs
  · exact ⟨_,.inl rfl⟩
  · generalize n.outcomes.claims.headD .failed = answer
    cases answer with
    | failed => exact ⟨_,.inr (.inl rfl)⟩
    | won => exact ⟨_,.inr (.inr (.inl rfl))⟩
    | onRecord => exact ⟨_,.inr (.inr (.inr rfl))⟩

lemma deliver_cases (n : Notifier) (d : Delivery) (again : Bool) : ∃ outcomes,
    (n.deliver d again).1 = { n with outcomes := outcomes }.keep d ∨
    (n.deliver d again).1 = ({ n with outcomes := outcomes }.record (.sent d again true)).record
      (.marked { d with attempts := d.attempts+1 } true) ∨
    (n.deliver d again).1 = (({ n with outcomes := outcomes }.record (.sent d again false)).record
      (.marked { d with attempts := d.attempts+1 } false)).keep { d with attempts := d.attempts+1 } := by
  unfold deliver send markNotification ctxErr
  dsimp only
  by_cases hdone : n.outcomes.ctx.headD false = true
  · rw [if_pos hdone]
    exact ⟨_,.inl rfl⟩
  · rw [if_neg hdone]
    generalize n.outcomes.sends.headD false = ok
    cases ok with
    | true => exact ⟨_,.inr (.inl rfl)⟩
    | false => exact ⟨_,.inr (.inr rfl)⟩

lemma deliver_frame (n : Notifier) (d : Delivery) (again : Bool) :
    (n.deliver d again).1.frame = n.frame := by
  obtain ⟨outcomes,heq | heq | heq⟩ := n.deliver_cases d again
  · rw [heq,keep_frame]
    rfl
  · rw [heq]
    rfl
  · rw [heq,keep_frame]
    rfl

variable (codec : Codec)

def newMessage (a : Alert) (phase : Phase) : Message where
  dedupID := dedupID codec a
  ruleID := a.ruleID
  severity := a.severity.text
  phase := phase.text
  summary := a.summary
  cluster := match a.clusterID with
    | some id => toString id
    | none => ""
  inst := match a.instanceID with
    | some id => codec.uuidText id
    | none => ""
  database := a.datname
  value := a.value
  atTime := a.lastEvalAt
  labels := a.labels

def phaseOf (a : Alert) : Phase := if a.state=.resolved then .resolve else .fire

/-- The delivery of an alert on a channel, as Notify makes it. -/
def delivery (n : Notifier) (a : Alert) (ch : Channel) : Delivery :=
  ⟨n.created,n.notified.length,dedupID codec a,ch,phaseOf a,none,false,a,0,0⟩

/-- One channel of the loop of Notify. -/
def notifyOn (a : Alert) (n : Notifier) (ch : Channel) : Notifier × List DeliveryFault :=
  let c := { n with created := n.created+1 }.claim (n.delivery codec a ch)
  match c.2.2 with
  | .error e =>
    let k := c.1.keepUnclaimed { c.2.1 with unclaimed := true }
    (k.1,e::k.2)
  | .ok false => (c.1,[])
  | .ok true => c.1.deliver { c.2.1 with message := some (newMessage codec a (phaseOf a)) } false

/-- One delivery of the loop of Retry. -/
def retryOne (n : Notifier) (d : Delivery) : Notifier × List DeliveryFault :=
  if d.unclaimed then
    let c := n.claim d
    match c.2.2 with
    | .error e =>
      let k := c.1.keepUnclaimed c.2.1
      (k.1,e::k.2)
    | .ok false =>
      let g := c.1.giveUp c.2.1 "its claim is already on record and this pass did not make it"
      (g.1,[g.2])
    | .ok true => c.1.deliver { c.2.1 with
        unclaimed := false
        message := some (newMessage codec d.alert d.phase) } true
  else n.deliver d true

lemma notifyOn_cases (a : Alert) (n : Notifier) (ch : Channel) :
    let d := n.delivery codec a ch
    let r := (n.notifyOn codec a ch).1
    ∃ n' outcomes, n' = { n with created := n.created+1, outcomes := outcomes } ∧
      (r=(n'.keepUnclaimed { d with unclaimed := true }).1 ∨
      r=((n'.record (.claimed d .failed)).keepUnclaimed
        { d with attempts := d.attempts+1, unclaimed := true }).1 ∨
      r=((n'.record (.claimed d .won)).deliver
        { d with message := some (newMessage codec a (phaseOf a)) } false).1 ∨
      r=n'.record (.claimed d .onRecord)) := by
  intro d r
  dsimp only [r]
  unfold notifyOn
  obtain ⟨outcomes,heq | heq | heq | heq⟩ := { n with created := n.created+1 }.claim_cases d
  · exact ⟨_,outcomes,rfl,.inl (by rw [heq])⟩
  · exact ⟨_,outcomes,rfl,.inr (.inl (by rw [heq]))⟩
  · exact ⟨_,outcomes,rfl,.inr (.inr (.inl (by rw [heq])))⟩
  · exact ⟨_,outcomes,rfl,.inr (.inr (.inr (by rw [heq])))⟩

lemma retryOne_cases (n : Notifier) (d : Delivery) :
    let r := (n.retryOne codec d).1
    ∃ n' outcomes, n' = { n with outcomes := outcomes } ∧
    (d.unclaimed=false ∧ r=(n.deliver d true).1 ∨ d.unclaimed=true ∧
      (r=(n'.keepUnclaimed d).1 ∨
      r=((n'.record (.claimed d .failed)).keepUnclaimed
        { d with attempts := d.attempts+1 }).1 ∨
      r=((n'.record (.claimed d .won)).deliver { d with
        unclaimed := false
        message := some (newMessage codec d.alert d.phase) } true).1 ∨
      r=((n'.record (.claimed d .onRecord)).giveUp d
        "its claim is already on record and this pass did not make it").1)) := by
  intro r
  dsimp only [r]
  unfold retryOne
  split_ifs with hunclaimed
  · obtain ⟨outcomes,heq | heq | heq | heq⟩ := n.claim_cases d
    · exact ⟨_,outcomes,rfl,.inr ⟨hunclaimed,.inl (by rw [heq])⟩⟩
    · exact ⟨_,outcomes,rfl,.inr ⟨hunclaimed,.inr (.inl (by rw [heq]))⟩⟩
    · exact ⟨_,outcomes,rfl,.inr ⟨hunclaimed,.inr (.inr (.inl (by rw [heq])))⟩⟩
    · exact ⟨_,outcomes,rfl,.inr ⟨hunclaimed,.inr (.inr (.inr (by rw [heq])))⟩⟩
  · exact ⟨_,n.outcomes,rfl,.inl ⟨by simpa using hunclaimed,rfl⟩⟩

lemma notifyOn_frame (a : Alert) (n : Notifier) (ch : Channel) :
    (n.notifyOn codec a ch).1.frame = (n.channels,n.passes,n.created+1,n.notified) := by
  obtain ⟨n',outcomes,rfl,heq | heq | heq | heq⟩ := notifyOn_cases codec a n ch
  · rw [heq,keepUnclaimed_frame]
    rfl
  · rw [heq,keepUnclaimed_frame]
    rfl
  · rw [heq,deliver_frame]
    rfl
  · rw [heq]
    rfl

lemma retryOne_frame (n : Notifier) (d : Delivery) : (n.retryOne codec d).1.frame = n.frame := by
  obtain ⟨n',outcomes,rfl,⟨-,heq⟩ | ⟨-,heq | heq | heq | heq⟩⟩ := retryOne_cases codec n d
  · rw [heq,deliver_frame]
  · rw [heq,keepUnclaimed_frame]
    rfl
  · rw [heq,keepUnclaimed_frame]
    rfl
  · rw [heq,deliver_frame]
    rfl
  · rw [heq]
    rfl

def collect {α : Type} (f : Notifier → α → Notifier × List DeliveryFault) :
    List α → Notifier → Notifier × List DeliveryFault
  | [], n => (n,[])
  | x::xs, n =>
    let first := f n x
    let rest := collect f xs first.1
    (rest.1,first.2++rest.2)

lemma collect_keeps {α : Type} {f : Notifier → α → Notifier × List DeliveryFault}
    {P : Notifier → Prop} {xs : List α} (hf : ∀ n, ∀ x∈xs, P n → P (f n x).1) {n : Notifier}
    (hn : P n) : P (collect f xs n).1 := by
  induction xs generalizing n with
  | nil => exact hn
  | cons x xs ih => exact ih (fun n y hy => hf n y (by simp [hy])) (hf n x (by simp) hn)

lemma collect_notifyOn_frame (a : Alert) (chs : List Channel) (n : Notifier) :
    (collect (notifyOn codec a) chs n).1.frame =
      (n.channels,n.passes,n.created+chs.length,n.notified) := by
  induction chs generalizing n with
  | nil => rfl
  | cons ch chs ih =>
    have hframe := notifyOn_frame codec a n ch
    simp only [frame,Prod.mk.injEq] at hframe
    obtain ⟨hchannels,hpasses,hcreated,hnotified⟩ := hframe
    rw [collect,ih,hchannels,hpasses,hcreated,hnotified,List.length_cons,Nat.add_right_comm,
      Nat.add_assoc]

lemma collect_retryOne_frame (due : List Delivery) (n : Notifier) :
    (collect (retryOne codec) due n).1.frame = n.frame :=
  collect_keeps (P := fun n' => n'.frame=n.frame)
    (fun n' d _ h => (retryOne_frame codec n' d).trans h) rfl

def notify (n : Notifier) (a : Alert) : Notifier × List DeliveryFault :=
  let r := collect (notifyOn codec a) n.channels (n.dropPending fun d => d.alert.key == a.key)
  ({ r.1 with notified := a::r.1.notified },r.2)

def retry (n : Notifier) : Notifier × List DeliveryFault :=
  let due := n.pending.filter fun d => decide (d.failedIn<n.passes)
  let r := collect (retryOne codec) due
    { n with pending := n.pending.filter fun d => !decide (d.failedIn<n.passes) }
  ({ r.1 with passes := r.1.passes+1 },r.2)

/-- The check of a delivery against the firing episodes of its alert. -/
def overtaken (d : Delivery) : Bool → List Alert → Bool
  | owed, [] => decide (d.phase=.fire) && !owed
  | owed, a::as =>
    if (startOf a).after (startOf d.alert) then true
    else overtaken d (owed || (startOf a).equal (startOf d.alert)) as

/-- Settle. With nothing pending there is nothing to drop. -/
def settle (n : Notifier) (firing : List Alert) : Notifier :=
  n.dropPending fun d => overtaken d false (firing.filter fun a => a.key == d.alert.key)

end Notifier

/-- A call of the engine, with the answers it meets. -/
inductive Call
  | notify (a : Alert) (outcomes : Outcomes)
  | settle (firing : List Alert)
  | retry (outcomes : Outcomes)

def Call.alert : Call → Option Alert
  | .notify a _ => some a
  | _ => none

def Notifier.step (codec : Codec) (n : Notifier) : Call → Notifier
  | .notify a outcomes => ({ n with outcomes := outcomes }.notify codec a).1
  | .settle firing => n.settle firing
  | .retry outcomes => ({ n with outcomes := outcomes }.retry codec).1

lemma Notifier.step_frame (codec : Codec) (n : Notifier) (call : Call) :
    (n.step codec call).channels = n.channels ∧ n.passes ≤ (n.step codec call).passes ∧
      (n.step codec call).created = n.created+call.alert.toList.length*n.channels.length ∧
      (n.step codec call).notified = call.alert.toList++n.notified := by
  cases call with
  | notify a outcomes =>
    have hframe := collect_notifyOn_frame codec a n.channels
      ({ n with outcomes := outcomes }.dropPending fun d => d.alert.key == a.key)
    simp only [frame,Prod.mk.injEq] at hframe
    obtain ⟨hchannels,hpasses,hcreated,hnotified⟩ := hframe
    refine ⟨hchannels,hpasses.ge,hcreated.trans ?_,congrArg (a::·) hnotified⟩
    simp [Call.alert,dropPending]
  | settle firing => exact ⟨rfl,Nat.le_refl _,by simp [step,settle,dropPending,Call.alert],rfl⟩
  | retry outcomes =>
    have hframe := collect_retryOne_frame codec (n.pending.filter fun d => decide (d.failedIn<n.passes))
      { n with outcomes := outcomes, pending := n.pending.filter fun d => !decide (d.failedIn<n.passes) }
    simp only [frame,Prod.mk.injEq] at hframe
    obtain ⟨hchannels,hpasses,hcreated,hnotified⟩ := hframe
    refine ⟨hchannels,hpasses.ge.trans (Nat.le_succ _),hcreated.trans ?_,hnotified⟩
    simp [Call.alert]

def Notifier.run (codec : Codec) (n : Notifier) (calls : List Call) : Notifier :=
  calls.foldl (Notifier.step codec) n

end Pglens.Alerting

import Pglens.Time
import Pglens.Lib.Runs
import Pglens.Lib.Text

/-! Pusher of internal/agent without a disk buffer. Queue appends under a lock and drops the oldest
envelope of a full queue; Push takes the head, sends it without the lock, and puts it back at the
head when a later push may deliver it. How long the retries sleep is left out. -/
namespace Pglens.Agent
open Pglens.Lib List Text

def maxPendingEnvelopes : ℕ := 1024

inductive Health
  | ok
  | incompatible
  | revoked
  | unauthorized
  | unreachable
  deriving DecidableEq, Repr

/-- A Pusher, over the type of its envelopes. -/
structure Pusher (E : Type) where
  health : Health
  lastSuccessfulPush : Option Time
  clockSkew : ℤ
  lastError : Text
  stopped : Bool
  attemptTimeout : ℤ
  maxAttemptTimeout : ℤ
  pending : List E
  nAcked : ℕ
  nDropped : ℕ

namespace Pusher
variable {E : Type}

def new : Pusher E where
  health := .ok
  lastSuccessfulPush := none
  clockSkew := 0
  lastError := []
  stopped := false
  attemptTimeout := 10*Duration.second
  maxAttemptTimeout := 2*Duration.minute
  pending := []
  nAcked := 0
  nDropped := 0

/-- Pusher.Queue without a buffer. -/
def queue (p : Pusher E) (env : E) : Pusher E :=
  let drop := if maxPendingEnvelopes≤p.pending.length then p.pending.length-maxPendingEnvelopes+1 else 0
  { p with
    pending := p.pending.drop drop++[env]
    nDropped := p.nDropped+drop }

/-- The loop of attemptTimeoutAfter. -/
def doubled (limit : ℤ) : ℕ → ℤ → ℤ
  | 0,d => d
  | stalls+1,d => if d<limit then doubled limit stalls (2*d) else d

def attemptTimeoutAfter (p : Pusher E) (stalls : ℕ) : ℤ :=
  min (doubled p.maxAttemptTimeout stalls p.attemptTimeout) p.maxAttemptTimeout

/-- How one attempt of pushOne ends: the envelope cannot be encoded, the request fails, or the server
answers. -/
inductive Attempt
  | notEncoded
  | failed (err : Text) (sent timeout : Bool)
  | answered (status : ℤ) (skew : Option ℤ) (body : Text) (now : Time)

/-- What pushOne does behind an attempt: another one, or it returns. -/
inductive Verdict
  | again (stalls : ℕ)
  | consumed (err : Bool)
  | retryLater
  deriving DecidableEq, Repr

def dropped (p : Pusher E) : Pusher E := { p with nDropped := p.nDropped+1 }

/-- The server's answer. -/
def answer (p : Pusher E) (stalls : ℕ) (status : ℤ) (skew : Option ℤ) (body : Text) (now : Time) :
    Pusher E × Verdict :=
  let returned := utf8 "push returned "++decimal status++utf8 ": "++body
  if status=202 then
    ({ p with
        lastSuccessfulPush := some now
        health := .ok
        nAcked := p.nAcked+1
        clockSkew := skew.getD p.clockSkew },.consumed false)
  else if status=400 then ({ p.dropped with health := .incompatible, lastError := body },.consumed false)
  else if status=401 then
    ({ p with
        health := if utf8 "revoked" <:+: body then .revoked else .unauthorized
        lastError := body },.retryLater)
  else if status=413 then (p.dropped,.consumed false)
  else if status=408 ∨ status=425 ∨ status=429 then (p,.again stalls)
  else if status=404 ∨ status=405 then ({ p with health := .incompatible, lastError := returned },.retryLater)
  else if 500 ≤ status then (p,.again stalls)
  else ({ p.dropped with lastError := returned },.consumed false)

/-- One turn of the loop of pushOne, behind its sleep. -/
def attempt (durationString : ℤ → Text) (p : Pusher E) (stalls : ℕ) : Attempt → Pusher E × Verdict
  | .notEncoded => (p.dropped,.consumed true)
  | .failed err sent timeout =>
    let p := if p.health=.ok ∨ p.health=.unreachable then
        { p with health := .unreachable, lastError := utf8 "push failed: "++err }
      else p
    if sent && timeout then
      -- the server has the whole envelope: the next attempt waits longer, up to the ceiling
      if p.maxAttemptTimeout ≤ p.attemptTimeoutAfter stalls then
        ({ p.dropped with lastError := utf8 "push timed out after " ++
            durationString (p.attemptTimeoutAfter stalls)++utf8 ", envelope dropped: "++err },.consumed false)
      else (p,.again (stalls+1))
    else (p,.again stalls)
  | .answered status skew body now => p.answer stalls status skew body now

end Pusher

/-- Where the one Push is: not running, before its next look at the queue, in pushOne before an attempt
or before the sleep of a retry, or with an envelope to put back. -/
inductive Pushing (E : Type)
  | idle
  | draining
  | sending (env : E) (stalls : ℕ)
  | waiting (env : E) (stalls : ℕ)
  | returning (env : E)

def Pushing.inFlight {E : Type} : Pushing E → List E
  | .idle | .draining => []
  | .sending env _ | .waiting env _ | .returning env => [env]

structure Push (E : Type) where
  pusher : Pusher E
  pushing : Pushing E

/-- One indivisible action of Queue, Push or Stop. -/
inductive Step (E : Type)
  | queue (env : E)
  | push
  | pop
  | attempt (a : Pusher.Attempt)
  | sleep (cancelled : Bool)
  | requeue
  | stop

namespace Push
variable {E : Type}

def new : Push E := ⟨.new,.idle⟩

/-- Where Push goes on once pushOne returns. -/
def next (env : E) : Pusher.Verdict → Pushing E
  | .again stalls => .waiting env stalls
  | .consumed false => .draining
  | .consumed true => .idle
  | .retryLater => .returning env

def act (durationString : ℤ → Text) (x : Push E) : Step E → Option (Push E)
  | .queue env => some { x with pusher := x.pusher.queue env }
  | .stop => some { x with pusher := { x.pusher with stopped := true } }
  | .push => match x.pushing with
    | .idle => some { x with pushing := if x.pusher.stopped then .idle else .draining }
    | _ => none
  | .pop => match x.pushing,x.pusher.pending with
    | .draining,[] => some { x with pushing := .idle }
    | .draining,env::pending => some ⟨{ x.pusher with pending := pending },.sending env 0⟩
    | _,_ => none
  | .attempt a => match x.pushing with
    | .sending env stalls =>
      let r := x.pusher.attempt durationString stalls a
      some ⟨r.1,next env r.2⟩
    | _ => none
  | .sleep cancelled => match x.pushing with
    | .waiting env stalls => some { x with pushing := if cancelled then .returning env else .sending env stalls }
    | _ => none
  | .requeue => match x.pushing with
    | .returning env => some ⟨{ x.pusher with pending := env::x.pusher.pending },.idle⟩
    | _ => none

/-- What the queue owes a delivery or a drop: the envelope in flight and those behind it. -/
def held (x : Push E) : List E := x.pushing.inFlight++x.pusher.pending

end Push

variable {E : Type}

/-- The server took the envelope of the attempt. -/
def Pusher.Attempt.accepted : Pusher.Attempt → Bool
  | .answered status _ _ _ => status == 202
  | _ => false

def Step.queued : Step E → List E
  | .queue env => [env]
  | _ => []

def Step.accepted : Step E → Bool
  | .attempt a => a.accepted
  | _ => false

lemma Pusher.attempt_counts (durationString : ℤ → Text) (p : Pusher E) (stalls : ℕ) (a : Attempt) :
    let r := p.attempt durationString stalls a
    r.1.pending = p.pending ∧
      ((∃ err, r.2 = .consumed err) ∧ r.1.nAcked=p.nAcked+(if a.accepted then 1 else 0) ∧
          r.1.nAcked+r.1.nDropped=p.nAcked+p.nDropped+1 ∨
        (∀ err, r.2 ≠ .consumed err) ∧ a.accepted=false ∧
          r.1.nAcked=p.nAcked ∧ r.1.nDropped=p.nDropped) := by
  cases a with
  | notEncoded => simp [attempt,dropped,Attempt.accepted,Nat.add_assoc]
  | failed err sent timeout =>
    simp only [attempt,Attempt.accepted,Bool.false_eq_true,if_false]
    split_ifs <;> simp [dropped,Nat.add_assoc]
  | answered status skew body now =>
    simp only [attempt,answer,Attempt.accepted]
    by_cases h : status=202
    · simp [h,Nat.add_right_comm]
    · simp only [h,if_false,beq_iff_eq]
      split_ifs <;> simp [dropped,Nat.add_assoc,h]

/-- The three things a step does to the envelopes: Queue drops some of the oldest and appends one, a
consumed envelope leaves the head, and nothing else changes what is held. -/
inductive Moves (x : Push E) : Step E → Push E → Prop
  | queue {y : Push E} (env : E) (drop : ℕ) (few : drop≤x.pusher.pending.length)
      (held : y.held=x.pushing.inFlight++(x.pusher.pending.drop drop++[env]))
      (bound : y.held.length ≤ maxPendingEnvelopes+1) (acked : y.pusher.nAcked=x.pusher.nAcked)
      (dropped : y.pusher.nDropped=x.pusher.nDropped+drop) : Moves x (.queue env) y
  | consume {y : Push E} {a : Step E} (env : E) (queued : a.queued=[]) (inFlight : x.pushing.inFlight=[env])
      (held : x.held=env::y.held) (acked : y.pusher.nAcked=x.pusher.nAcked+(if a.accepted then 1 else 0))
      (count : y.pusher.nAcked+y.pusher.nDropped=x.pusher.nAcked+x.pusher.nDropped+1) : Moves x a y
  | keep {y : Push E} {a : Step E} (queued : a.queued=[]) (accepted : a.accepted=false)
      (held : y.held=x.held) (acked : y.pusher.nAcked=x.pusher.nAcked)
      (dropped : y.pusher.nDropped=x.pusher.nDropped) : Moves x a y

lemma Pushing.length_inFlight_le (w : Pushing E) : w.inFlight.length≤1 := by
  cases w <;> simp [inFlight]

lemma moves_queue (x : Push E) (env : E) :
    Moves x (.queue env) { x with pusher := x.pusher.queue env } := by
  have hone := x.pushing.length_inFlight_le
  have hmax : 0 < maxPendingEnvelopes := by decide
  refine .queue env _ ?_ rfl ?_ rfl rfl
  · split_ifs <;> omega
  · simp only [Push.held,Pusher.queue,length_append,length_drop,length_singleton]
    split_ifs <;> omega

variable {x y : Push E} {durationString : ℤ → Text} {a : Step E}

lemma moves_attempt (durationString : ℤ → Text) {env : E} {stalls : ℕ}
    (h : x.pushing = .sending env stalls) (a : Pusher.Attempt) :
    Moves x (.attempt a) ⟨(x.pusher.attempt durationString stalls a).1,
      Push.next env (x.pusher.attempt durationString stalls a).2⟩ := by
  obtain ⟨hpending,⟨⟨err,herr⟩,hacked,hcount⟩ | ⟨hout,haccepted,hacked,hdropped⟩⟩ :=
    x.pusher.attempt_counts durationString stalls a
  · refine .consume env rfl (by rw [h]; rfl) ?_ hacked hcount
    cases err <;> simp [Push.held,Push.next,Pushing.inFlight,h,herr,hpending]
  · refine .keep rfl haccepted ?_ hacked hdropped
    have hnext : (Push.next env (x.pusher.attempt durationString stalls a).2).inFlight = [env] := by
      cases hv : (x.pusher.attempt durationString stalls a).2 with
      | consumed err => exact absurd hv (hout err)
      | again stalls => rfl
      | retryLater => rfl
    rw [Push.held,Push.held,hnext,hpending,h]
    rfl

lemma moves_of_act (h : x.act durationString a=some y) : Moves x a y := by
  cases a with
  | queue env =>
    cases h
    exact moves_queue x env
  | stop =>
    cases h
    exact .keep rfl rfl rfl rfl rfl
  | push =>
    cases hw : x.pushing <;> simp only [Push.act,hw,reduceCtorEq] at h
    cases h
    refine .keep rfl rfl ?_ rfl rfl
    simp only [Push.held,hw]
    split_ifs <;> rfl
  | pop =>
    cases hw : x.pushing <;> simp only [Push.act,hw,reduceCtorEq] at h
    cases hp : x.pusher.pending with
    | nil =>
      simp only [hp,Option.some.injEq] at h
      subst h
      exact .keep rfl rfl (by simp [Push.held,hw,Pushing.inFlight]) rfl rfl
    | cons env pending =>
      simp only [hp,Option.some.injEq] at h
      subst h
      exact .keep rfl rfl (by simp [Push.held,hw,hp,Pushing.inFlight]) rfl rfl
  | attempt a =>
    cases hw : x.pushing <;> simp only [Push.act,hw,reduceCtorEq] at h
    cases h
    exact moves_attempt durationString hw a
  | sleep cancelled =>
    cases hw : x.pushing <;> simp only [Push.act,hw,reduceCtorEq] at h
    cases h
    refine .keep rfl rfl ?_ rfl rfl
    cases cancelled <;> simp [Push.held,hw,Pushing.inFlight]
  | requeue =>
    cases hw : x.pushing <;> simp only [Push.act,hw,reduceCtorEq] at h
    cases h
    exact .keep rfl rfl (by simp [Push.held,hw,Pushing.inFlight]) rfl rfl

abbrev Steps (E : Type) := List (Taken (Push E) (Step E))

def queued (steps : Steps E) : List E := steps.flatMap fun st => st.label.queued

def acknowledged (steps : Steps E) : List E :=
  steps.flatMap fun st => if st.label.accepted then st.before.pushing.inFlight else []

structure Accounted (steps : Steps E) (x : Push E) : Prop where
  /-- Nothing is lost uncounted. -/
  count : (queued steps).length = x.pusher.nAcked+x.pusher.nDropped+x.held.length
  acked : (acknowledged steps).length = x.pusher.nAcked
  /-- What is held comes behind what was acknowledged, all in the order of Queue. -/
  order : (acknowledged steps++x.held).Sublist (queued steps)
  bound : x.held.length ≤ maxPendingEnvelopes+1

variable {steps : Steps E}

lemma Accounted.step (hx : Accounted steps x) (h : Moves x a y) :
    Accounted (steps++[⟨x,a,y⟩]) y := by
  have hq : queued (steps++[⟨x,a,y⟩]) = queued steps++a.queued := by simp [queued]
  have hack : acknowledged (steps++[⟨x,a,y⟩]) =
      acknowledged steps++if a.accepted then x.pushing.inFlight else [] := by simp [acknowledged]
  obtain ⟨hcount,hacked,horder,hbound⟩ := hx
  cases h with
  | queue env drop few held bound acked dropped =>
    have hlen : y.held.length+drop = x.held.length+1 := by
      rw [held,Push.held]
      simp only [length_append,length_drop,length_singleton]
      omega
    have hack' : acknowledged (steps++[⟨x,.queue env,y⟩]) = acknowledged steps := by simp [hack,Step.accepted]
    refine ⟨?_,?_,?_,bound⟩
    · rw [hq,length_append,Step.queued,length_singleton]
      omega
    · rw [hack',acked,hacked]
    · have hsub : (x.pushing.inFlight++x.pusher.pending.drop drop).Sublist x.held :=
        (drop_sublist _ _).append_left _
      rw [hq,hack',held,← append_assoc,← append_assoc]
      refine List.Sublist.append ?_ (List.Sublist.refl _)
      rw [append_assoc]
      exact (hsub.append_left _).trans horder
  | consume env queued inFlight held acked count =>
    have hlen : x.held.length = y.held.length+1 := by rw [held,length_cons]
    refine ⟨?_,?_,?_,by omega⟩
    · rw [hq,queued,append_nil]
      omega
    · rw [hack,length_append,hacked,acked,inFlight]
      split_ifs <;> rfl
    · rw [hq,hack,queued,append_nil,inFlight]
      refine List.Sublist.trans ?_ horder
      rw [held]
      split_ifs
      · simp
      · rw [append_nil]
        exact (sublist_cons_self _ _).append_left _
  | keep queued accepted held acked dropped =>
    have hack' : acknowledged (steps++[⟨x,a,y⟩]) = acknowledged steps := by simp [hack,accepted]
    rw [queued,append_nil] at hq
    exact ⟨by rw [hq,acked,dropped,held,hcount],by rw [hack',acked,hacked],by rwa [hq,hack',held],by rwa [held]⟩

lemma accounted_of_trace
    (run : Trace (Push.act durationString) Push.new steps x) : Accounted steps x := by
  induction run with
  | start => exact ⟨rfl,rfl,List.Sublist.refl _,Nat.zero_le _⟩
  | step _ last ih => exact ih.step (moves_of_act last)

/-- Over every interleaving of Queue with one Push at a time, every envelope queued is acknowledged,
dropped, pending or in flight, and counted; the acknowledged ones are in the order they were queued
and before the ones still held; and the queue stays bounded. -/
theorem queue_accounts {durationString : ℤ → Text} {steps : Steps E} {x : Push E}
    (run : Trace (Push.act durationString) Push.new steps x) :
    (queued steps).length = x.pusher.nAcked+x.pusher.nDropped+x.pusher.pending.length+x.pushing.inFlight.length ∧
      x.pushing.inFlight.length ≤ 1 ∧
      (acknowledged steps).length = x.pusher.nAcked ∧
      (acknowledged steps++x.pushing.inFlight++x.pusher.pending).Sublist (queued steps) ∧
      x.pusher.pending.length ≤ maxPendingEnvelopes+1 := by
  obtain ⟨hcount,hacked,horder,hbound⟩ := accounted_of_trace run
  rw [Push.held] at hcount horder hbound
  rw [length_append] at hcount hbound
  refine ⟨by omega,x.pushing.length_inFlight_le,hacked,?_,by omega⟩
  rwa [append_assoc]

/-- Two envelopes are queued, and the second arrives while the first is refused with a 401 and put
back. -/
theorem queue_accounts_requeued : ∃ (steps : Steps ℕ) (x : Push ℕ),
    Trace (Push.act fun _ => []) Push.new steps x ∧ x.pusher.pending = [1,2] ∧ queued steps = [1,2] ∧
      (queued steps).length = x.pusher.nAcked+x.pusher.nDropped+x.pusher.pending.length+x.pushing.inFlight.length ∧
      x.pushing.inFlight.length ≤ 1 ∧
      (acknowledged steps).length = x.pusher.nAcked ∧
      (acknowledged steps++x.pushing.inFlight++x.pusher.pending).Sublist (queued steps) ∧
      x.pusher.pending.length ≤ maxPendingEnvelopes+1 := by
  have run := Trace.step (Trace.step (Trace.step (Trace.step (Trace.step (Trace.step
    (Trace.start : Trace (Push.act (E := ℕ) fun _ => []) Push.new [] Push.new)
    (show Push.act _ _ (.queue 1)=some _ from rfl))
    (show Push.act _ _ .push=some _ from rfl))
    (show Push.act _ _ .pop=some _ from rfl))
    (show Push.act _ _ (.attempt (.answered 401 none [] .zero))=some _ from rfl))
    (show Push.act _ _ (.queue 2)=some _ from rfl))
    (show Push.act _ _ .requeue=some _ from rfl)
  exact ⟨_,_,run,rfl,rfl,queue_accounts run⟩

end Pglens.Agent

import Pglens.Leadership
import Pglens.Lib.Attempt
import Pglens.Alerting.Evaluator
import Pglens.Alerting.Notifier

/-! Engine.Tick, run by any number of replicas against one table of alerts. The rules, the samples,
and how each call of the store and of a source goes are inputs. The transitions that publish
persists are recorded, newest first. Of the purge only the alerts are here. -/
namespace Pglens.Alerting
open Pglens.Lib Function

inductive Kind
  | metric
  | event
  deriving DecidableEq, Repr

/-- A Source, and whether it is a Clearer. -/
structure Source where
  kind : Kind
  clearer : Bool
  deriving DecidableEq, Repr

/-- The sources and the interval of an engine. -/
structure Config where
  sources : List Source
  interval : ℤ

/-- The errors that a Tick joins. -/
inductive Fault
  | leader
  | restore
  | rules
  | silences
  | sample (ruleID : String)
  | context
  | cleared (ruleID : String)
  | refresh (key : String)
  | persist (key : String)
  | notify (key : String) (errs : List DeliveryFault)
  | purge
  | retry (errs : List DeliveryFault)
  deriving DecidableEq, Repr

/-- A transition that publish has persisted: by whom, and the silences it was held against. -/
structure Publication where
  replica : ℕ
  alert : Alert
  silences : List Silence
  now : Time

/-- The answers to come of the sources and of Upsert, in the order of the calls. -/
structure Script where
  samples : List (Option (List Sample))
  cleared : List (Option (List Alert))
  upserts : List Bool

/-- What a leader's Tick works on. -/
structure Turn where
  replica : ℕ
  eval : Evaluator
  purgedAt : Time
  notifier : Notifier
  rows : List Alert
  published : List Publication
  script : Script
  errs : List Fault

/-- The primary key of the alerts. -/
def sameRow (a row : Alert) : Bool := decide (row.key=a.key ∧ row.startedAt.ns=(startOf a).ns)

/-- A row as an alert is inserted. -/
def rowOf (a : Alert) : Alert := { a with
  startedAt := startOf a
  lastEvalAt := Server.stamp a.lastEvalAt
  resolvedAt := a.resolvedAt.map Server.stamp
  suppressed := false }

/-- Upsert. -/
def upsertRow (rows : List Alert) (a : Alert) : List Alert :=
  if rows.any (sameRow a) then
    rows.map fun row => if sameRow a row then { row with
      state := a.state
      value := a.value
      lastEvalAt := Server.stamp a.lastEvalAt
      resolvedAt := a.resolvedAt.map Server.stamp } else row
  else rowOf a::rows

/-- Active with the empty filter. -/
def active (rows : List Alert) : List Alert :=
  (rows.filter fun row => decide (row.state≠.resolved)).insertionSort fun a b =>
    b.lastEvalAt.ns ≤ a.lastEvalAt.ns

namespace Turn

def fail (t : Turn) (f : Fault) : Turn := { t with errs := t.errs++[f] }

def upsert (t : Turn) (a : Alert) : Bool × Turn :=
  let ok := t.script.upserts.headD false
  (ok,{ t with
    script := { t.script with upserts := t.script.upserts.tail }
    rows := if ok then upsertRow t.rows a else t.rows })

def ctxErr (t : Turn) : Bool × Turn :=
  let c := t.notifier.ctxErr
  (c.1,{ t with notifier := c.2 })

def samples (t : Turn) : Option (List Sample) × Turn :=
  (t.script.samples.headD none,
    { t with script := { t.script with samples := t.script.samples.tail } })

def refresh (t : Turn) (a : Alert) : Turn :=
  let u := t.upsert a
  if u.1 then u.2 else u.2.fail (.refresh a.key)

variable (codec : Codec)

def notify (t : Turn) (a : Alert) : Turn :=
  let n := t.notifier.notify codec a
  let t := { t with notifier := n.1 }
  if n.2.isEmpty then t else t.fail (.notify a.key n.2)

/-- The alert, with whether a silence covers it. -/
def judged (silences : List Silence) (now : Time) (a : Alert) : Alert :=
  { a with suppressed := (firstMatch codec silences a now).isSome }

def publish (silences : List Silence) (now : Time) (undo : Evaluator → Evaluator) (a : Alert)
    (t : Turn) : Turn :=
  let u := t.upsert (judged codec silences now a)
  if !u.1 then { u.2 with eval := undo u.2.eval }.fail (.persist a.key)
  else
    let t := { u.2 with published := ⟨u.2.replica,judged codec silences now a,silences,now⟩::u.2.published }
    if (judged codec silences now a).suppressed then t else t.notify codec (judged codec silences now a)

/-- One sample of a rule. The pass ends when the context is done after a publish. -/
def noteSample (rule : Rule) (silences : List Silence) (now : Time) (sample : Sample) :
    Attempt Unit Turn := fun t =>
  let undo := t.eval.checkpoint (Key codec rule sample)
  let r := t.eval.step codec rule sample now
  let t := { t with eval := r.1 }
  match r.2 with
  | (some a,.none) => (if a.state=.firing then t.refresh a else t,none)
  | (some a,.fired) | (some a,.resolved) =>
    let c := (t.publish codec silences now undo a).ctxErr
    if c.1 then (c.2.fail .context,some ()) else (c.2,none)
  | _ => (t,none)

/-- One episode that endUnsampled closes. -/
def endOne (silences : List Silence) (now : Time) (t : Turn) (a : Alert) : Turn :=
  let undo := t.eval.checkpoint a.key
  let r := t.eval.endEpisode a.key now
  let t := { t with eval := r.1 }
  match r.2 with
  | (some resolved,.resolved) => t.publish codec silences now undo resolved
  | _ => t

/-- clearedBy. With no source able to confirm, nothing has cleared. -/
def clearedBy (cfg : Config) (t : Turn) : Option (List Alert) × Turn :=
  if cfg.sources.any fun s => s.clearer && decide (s.kind=.event) then
    (t.script.cleared.headD none,
      { t with script := { t.script with cleared := t.script.cleared.tail } })
  else (some [],t)

def endUnsampled (cfg : Config) (rule : Option Rule) (silences : List Silence) (now : Time)
    (unsampled : List Alert) (t : Turn) : Turn :=
  if unsampled.isEmpty then t
  else match rule with
    | none => unsampled.foldl (endOne codec silences now) t
    | some rule =>
      if rule.eventType∈spellEvents then
        let c := t.clearedBy cfg
        match c.1 with
        | none => c.2.fail (.cleared rule.id)
        | some cleared => cleared.foldl (endOne codec silences now) c.2
      else unsampled.foldl (endOne codec silences now) t

/-- A source serves the rules of its kind. -/
def serves (source : Source) (rule : Rule) : Bool :=
  if rule.eventType ≠ "" then decide (source.kind=.event) else decide (source.kind=.metric)

/-- The sources of one rule, with the counts of the loop, and the close of what a complete pass
did not sample. -/
def evaluateRule (cfg : Config) (silences : List Silence) (now : Time) (rule : Rule) :
    ℕ → Bool → List Source → Attempt Unit Turn
  | observed, failed, [] => fun t =>
    (if 0<observed ∧ failed=false then
      t.endUnsampled codec cfg (some rule) silences now
        (t.eval.unsampled (fun id => id == rule.id) (now.add (-endGrace rule cfg.interval)))
    else t,none)
  | observed, failed, source::sources => fun t =>
    if !serves source rule then evaluateRule cfg silences now rule observed failed sources t
    else
      let s := t.samples
      match s.1 with
      | none =>
        let c := (s.2.fail (.sample rule.id)).ctxErr
        if c.1 then (c.2,some ()) else evaluateRule cfg silences now rule observed true sources c.2
      | some samples =>
        (Attempt.each (noteSample codec rule silences now) samples).andThen
          (evaluateRule cfg silences now rule (observed+1) failed sources) s.2

/-- purgeHistory: `purge` is `none` when the purge goes through, and else says what it removes
before it fails. -/
def purgeHistory (now : Time) (purge : Option (Alert → Bool)) (t : Turn) : Turn :=
  if t.purgedAt.isZero ∨ purgeInterval ≤ now.sub t.purgedAt then
    let cutoff := Server.stamp (now.add (-historyRetention))
    let old (row : Alert) : Bool := decide (row.state=.resolved) && match row.resolvedAt with
      | some resolvedAt => resolvedAt.before cutoff
      | none => false
    let t := { t with purgedAt := now }
    match purge with
    | none => { t with rows := t.rows.filter fun row => !old row }
    | some gone => { t with rows := t.rows.filter fun row => !(old row && gone row) }.fail .purge
  else t

/-- The deliveries that are overtaken are dropped, and the others made again. -/
def retry (t : Turn) : Turn :=
  let n := (t.notifier.settle t.eval.firing).retry codec
  let t := { t with notifier := n.1 }
  if n.2.isEmpty then t else t.fail (.retry n.2)

def evaluateRules (cfg : Config) (silences : List Silence) (now : Time)
    (purge : Option (Alert → Bool)) (rules : List Rule) : Attempt Unit Turn :=
  (Attempt.each (fun rule => evaluateRule codec cfg silences now rule 0 false cfg.sources) rules).andThen
    (Attempt.pure fun t =>
      let live := rules.map Rule.id
      let t := t.endUnsampled codec cfg none silences now
        (t.eval.unsampled (fun id => !live.contains id) now)
      let t := { t with eval := t.eval.forget (now.add (-Duration.hour)) }
      (t.purgeHistory now purge).retry codec)

/-- The record of a transition that is persisted. -/
def persisted (t : Turn) (script : Script) (silences : List Silence) (now : Time) (a : Alert) : Turn :=
  { t with
    script := script
    rows := upsertRow t.rows (judged codec silences now a)
    published := ⟨t.replica,judged codec silences now a,silences,now⟩::t.published }

lemma upsert_cases (t : Turn) (a : Alert) : ∃ script,
    t.upsert a = (true,{ t with script := script, rows := upsertRow t.rows a }) ∨
      t.upsert a = (false,{ t with script := script }) := by
  unfold upsert
  cases t.script.upserts.headD false with
  | true => exact ⟨_,.inl rfl⟩
  | false => exact ⟨_,.inr rfl⟩

lemma publish_cases (silences : List Silence) (now : Time) (undo : Evaluator → Evaluator)
    (a : Alert) (t : Turn) : ∃ script,
    t.publish codec silences now undo a =
      { t with script := script, eval := undo t.eval }.fail (.persist a.key) ∨
    (judged codec silences now a).suppressed = true ∧
      t.publish codec silences now undo a = t.persisted codec script silences now a ∨
    (judged codec silences now a).suppressed = false ∧ t.publish codec silences now undo a =
      (t.persisted codec script silences now a).notify codec (judged codec silences now a) := by
  unfold publish
  obtain ⟨script,heq | heq⟩ := t.upsert_cases (judged codec silences now a)
  · rw [heq]
    refine ⟨script,.inr ?_⟩
    cases (judged codec silences now a).suppressed with
    | true => exact .inl ⟨rfl,rfl⟩
    | false => exact .inr ⟨rfl,rfl⟩
  · rw [heq]
    exact ⟨script,.inl rfl⟩

section Keeps
variable {codec} {P : Turn → Prop} {cfg : Config} {silences : List Silence} {now : Time}

/-- A property of a turn that does not depend on the answers to come, nor on the errors. -/
def Stable (P : Turn → Prop) : Prop :=
  ∀ t script errs outcomes, P t → P { t with
    script := script
    errs := errs
    notifier := { t.notifier with outcomes := outcomes } }

variable {t : Turn}

lemma Stable.script (h : Stable P) (ht : P t) (script : Script) :
    P { t with script := script } := h t script t.errs t.notifier.outcomes ht

lemma Stable.fail (h : Stable P) (ht : P t) (f : Fault) : P (t.fail f) :=
  h t t.script _ t.notifier.outcomes ht

lemma Stable.ctxErr (h : Stable P) (ht : P t) : P t.ctxErr.2 := h t t.script t.errs _ ht

lemma Stable.notify (h : Stable P) {a : Alert}
    (ht : P { t with notifier := (t.notifier.notify codec a).1 }) : P (t.notify codec a) := by
  unfold Turn.notify
  dsimp only
  split_ifs
  · exact ht
  · exact h.fail ht _

lemma Stable.retry (h : Stable P)
    (ht : P { t with notifier := ((t.notifier.settle t.eval.firing).retry codec).1 }) :
    P (t.retry codec) := by
  unfold Turn.retry
  dsimp only
  split_ifs
  · exact ht
  · exact h.fail ht _

lemma endUnsampled_keeps (hstable : Stable P)
    (hend : ∀ t a, P t → P (t.endOne codec silences now a)) (rule : Option Rule)
    (unsampled : List Alert) (ht : P t) :
    P (t.endUnsampled codec cfg rule silences now unsampled) := by
  have hall (closing : List Alert) {t : Turn} (ht : P t) : P (closing.foldl (endOne codec silences now) t) :=
    List.foldlRecOn closing _ ht fun t ht a _ => hend t a ht
  have hcleared : P (t.clearedBy cfg).2 := by
    unfold clearedBy
    split_ifs
    · exact hstable.script ht _
    · exact ht
  unfold endUnsampled
  split_ifs
  · exact ht
  · cases rule with
    | none => exact hall unsampled ht
    | some rule =>
      dsimp only
      split_ifs
      · cases (t.clearedBy cfg).1 with
        | none => exact hstable.fail hcleared _
        | some cleared => exact hall cleared hcleared
      · exact hall unsampled ht

lemma evaluateRule_keeps (hstable : Stable P)
    (hsample : ∀ rule sample, (noteSample codec rule silences now sample).Keeps P)
    (hend : ∀ t a, P t → P (t.endOne codec silences now a)) (rule : Rule) (observed : ℕ)
    (failed : Bool) (sources : List Source) :
    (evaluateRule codec cfg silences now rule observed failed sources).Keeps P := by
  induction sources generalizing observed failed with
  | nil =>
    intro t ht
    unfold evaluateRule
    dsimp only
    split_ifs
    · exact endUnsampled_keeps hstable hend _ _ ht
    · exact ht
  | cons source sources ih =>
    intro t ht
    unfold evaluateRule
    by_cases hserves : (!serves source rule) = true
    · rw [if_pos hserves]
      exact ih observed failed t ht
    · rw [if_neg hserves]
      have hsampled : P t.samples.2 := hstable.script ht _
      generalize t.samples = s at hsampled ⊢
      obtain ⟨_ | samples,t'⟩ := s
      · have hctx := hstable.ctxErr (hstable.fail hsampled (.sample rule.id))
        dsimp only
        split_ifs
        · exact hctx
        · exact ih observed true _ hctx
      · exact (Attempt.Keeps.each fun sample _ => hsample rule sample).andThen (ih (observed+1) failed)
          _ hsampled

lemma purgeHistory_cases (now : Time) (purge : Option (Alert → Bool)) (t : Turn) :
    ∃ keeps purgedAt errs, (∀ row : Alert, row.state=.firing → keeps row=true) ∧
      t.purgeHistory now purge = { t with
        purgedAt := purgedAt
        rows := t.rows.filter keeps
        errs := errs } := by
  unfold purgeHistory
  split_ifs
  · cases purge with
    | none => exact ⟨_,_,_,fun row hrow => by simp [hrow],rfl⟩
    | some gone => exact ⟨_,_,_,fun row hrow => by simp [hrow],rfl⟩
  · exact ⟨fun _ => true,t.purgedAt,t.errs,fun _ _ => rfl,by rw [List.filter_true]⟩

lemma evaluateRules_ends (cfg : Config) (hstable : Stable P)
    (hsample : ∀ rule sample, (noteSample codec rule silences now sample).Keeps P)
    (hend : ∀ t a, P t → P (t.endOne codec silences now a))
    (hforget : ∀ t before, P t → P { t with eval := t.eval.forget before })
    {purge : Option (Alert → Bool)} (hpurge : ∀ t, P t → P (t.purgeHistory now purge))
    (rules : List Rule) (ht : P t) :
    P (evaluateRules codec cfg silences now purge rules t).1 ∨
      ∃ t', P t' ∧ (evaluateRules codec cfg silences now purge rules t).1 = t'.retry codec := by
  have hrules : P (Attempt.each (fun rule =>
      evaluateRule codec cfg silences now rule 0 false cfg.sources) rules t).1 :=
    Attempt.Keeps.each (fun rule _ => evaluateRule_keeps hstable hsample hend rule 0 false _) t ht
  unfold evaluateRules
  obtain ⟨e,-,heq⟩ | ⟨-,heq⟩ := Attempt.andThen_cases _ _ t
  · rw [heq]
    exact .inl hrules
  · rw [heq]
    exact .inr ⟨_,hpurge _ (hforget _ _ (endUnsampled_keeps hstable hend _ _ hrules)),rfl⟩

end Keeps

section Notifier
variable {codec} {P : Notifier → Prop} {silences : List Silence} {now : Time}

lemma refresh_notifier (t : Turn) (a : Alert) : (t.refresh a).notifier = t.notifier := by
  unfold refresh upsert
  dsimp only
  split_ifs <;> rfl

lemma notify_notifier (t : Turn) (a : Alert) :
    (t.notify codec a).notifier = (t.notifier.notify codec a).1 := by
  unfold Turn.notify
  dsimp only
  split_ifs <;> rfl

lemma retry_notifier (t : Turn) : (t.retry codec).eval = t.eval ∧
    (t.retry codec).notifier = ((t.notifier.settle t.eval.firing).retry codec).1 := by
  unfold Turn.retry
  dsimp only
  split_ifs <;> exact ⟨rfl,rfl⟩

lemma publish_notifier (hnotify : ∀ n a, P n → P (n.notify codec a).1)
    (undo : Evaluator → Evaluator) (a : Alert) {t : Turn} (ht : P t.notifier) :
    P (t.publish codec silences now undo a).notifier := by
  obtain ⟨script,heq | ⟨-,heq⟩ | ⟨-,heq⟩⟩ := publish_cases codec silences now undo a t
  · rw [heq]
    exact ht
  · rw [heq]
    exact ht
  · rw [heq,notify_notifier]
    exact hnotify _ _ ht

lemma noteSample_notifier (houtcomes : ∀ n outcomes, P n → P { n with outcomes := outcomes })
    (hnotify : ∀ n a, P n → P (n.notify codec a).1) (rule : Rule) (sample : Sample) :
    (noteSample codec rule silences now sample).Keeps fun t => P t.notifier := by
  intro t ht
  have hpublished (e : Evaluator) (undo : Evaluator → Evaluator) (a : Alert) :
      let c := (publish codec silences now undo a { t with eval := e }).ctxErr
      P (if c.1 then (c.2.fail .context,some ()) else (c.2,none) : Turn × Option Unit).1.notifier := by
    have hctx : P (publish codec silences now undo a { t with eval := e }).ctxErr.2.notifier :=
      houtcomes _ _ (publish_notifier hnotify undo a ht)
    dsimp only
    split_ifs <;> exact hctx
  unfold noteSample
  generalize t.eval.step codec rule sample now = r
  obtain ⟨e,_ | a,tr⟩ := r
  · cases tr <;> exact ht
  · cases tr with
    | none =>
      dsimp only
      split_ifs
      · rw [refresh_notifier]
        exact ht
      · exact ht
    | opened | cancelled => exact ht
    | fired | resolved => exact hpublished e _ a

lemma endOne_notifier (hnotify : ∀ n a, P n → P (n.notify codec a).1) (a : Alert) {t : Turn}
    (ht : P t.notifier) : P (t.endOne codec silences now a).notifier := by
  unfold endOne
  generalize t.eval.endEpisode a.key now = r
  obtain ⟨e,_ | resolved,tr⟩ := r
  · cases tr <;> exact ht
  · cases tr with
    | resolved => exact publish_notifier hnotify _ resolved ht
    | none | opened | fired | cancelled => exact ht

lemma evaluateRules_notifier (houtcomes : ∀ n outcomes, P n → P { n with outcomes := outcomes })
    (hnotify : ∀ n a, P n → P (n.notify codec a).1) (cfg : Config) (silences : List Silence)
    (now : Time) (purge : Option (Alert → Bool)) (rules : List Rule) {t : Turn} (ht : P t.notifier)
    :
    P (evaluateRules codec cfg silences now purge rules t).1.notifier ∨
      ∃ n, P n ∧ (evaluateRules codec cfg silences now purge rules t).1.notifier =
        ((n.settle (evaluateRules codec cfg silences now purge rules t).1.eval.firing).retry codec).1 := by
  have hpurge (t : Turn) (ht : P t.notifier) : P (t.purgeHistory now purge).notifier := by
    obtain ⟨keeps,purgedAt,errs,-,heq⟩ := t.purgeHistory_cases now purge
    rw [heq]
    exact ht
  obtain hkept | ⟨t',ht',heq⟩ := evaluateRules_ends (P := fun t => P t.notifier) cfg
    (fun t script errs outcomes ht => houtcomes _ outcomes ht) (noteSample_notifier houtcomes hnotify)
    (fun t a ht => endOne_notifier hnotify a ht) (fun _ _ ht => ht) hpurge rules ht
  · exact .inl hkept
  · rw [heq,t'.retry_notifier.1]
    exact .inr ⟨_,ht',t'.retry_notifier.2⟩

end Notifier

end Turn

/-- The builtin rules, and the stored ones that do not have the id of one. -/
def withStored (stored : List Rule) : List Rule :=
  builtin++stored.filter fun r => r.enabled && !(builtin.map Rule.id).contains r.id

/-- An Engine, but for the session it keeps. -/
structure Engine where
  eval : Evaluator
  stateLoaded : Bool
  purgedAt : Time
  notifier : Notifier

def Engine.new (channels : List Channel) : Engine := ⟨∅,false,.zero,Notifier.new channels⟩

structure Round where
  io : LeaderIO
  now : Time
  readsActive : Bool
  rules : Option (List Rule)
  silences : Option (List Silence)
  purge : Option (Alert → Bool)
  script : Script
  outcomes : Outcomes

structure World where
  rows : List Alert
  published : List Publication
  locks : Locks
  leaders : ℕ → Leader
  engines : ℕ → Engine

def World.start (channels : ℕ → List Channel) : World :=
  ⟨[],[],Locks.new,fun _ => Leader.new,fun r => Engine.new (channels r)⟩

/-- ensureLeader. A new term starts from the alerts the previous leader left behind. -/
def World.ensureLeader (w : World) (r : ℕ) (io : LeaderIO) : Election × World :=
  let e := (w.leaders r).ensure w.locks io
  let eng := w.engines r
  let eng := match e.1 with
    | .asked true _ => { eng with
      eval := ∅
      stateLoaded := false }
    | _ => eng
  (e.1,{ w with
    locks := e.2.2
    leaders := update w.leaders r e.2.1
    engines := update w.engines r eng })

/-- The evaluator is loaded from the active alerts, unless it is already. -/
def World.restore (w : World) (r : ℕ) (round : Round) : Option World :=
  let eng := w.engines r
  if eng.stateLoaded then some w
  else if round.readsActive then
    some { w with engines := update w.engines r { eng with
      eval := (active w.rows).foldl (fun e a => e.restore a round.now) eng.eval
      stateLoaded := true } }
  else none

def World.turn (w : World) (r : ℕ) (round : Round) : Turn :=
  let eng := w.engines r
  ⟨r,eng.eval,eng.purgedAt,{ eng.notifier with outcomes := round.outcomes },w.rows,w.published,
    round.script,[]⟩

def World.finish (w : World) (r : ℕ) (t : Turn) : World := { w with
  rows := t.rows
  published := t.published
  engines := update w.engines r { w.engines r with
    eval := t.eval
    purgedAt := t.purgedAt
    notifier := t.notifier } }

/-- Tick of replica `r`, and its errors. -/
def World.tick (codec : Codec) (cfg : Config) (w : World) (r : ℕ) (round : Round) : World × List Fault :=
  let e := w.ensureLeader r round.io
  if e.1=.failed then (e.2,[.leader])
  else if !(e.2.leaders r).hasLock then (e.2,[])
  else match e.2.restore r round with
    | none => (e.2,[.restore])
    | some w => match round.rules with
      | none => (w,[.rules])
      | some stored => match round.silences with
        | none => (w,[.silences])
        | some silences =>
          let t := (Turn.evaluateRules codec cfg silences round.now round.purge (withStored stored)
            (w.turn r round)).1
          (w.finish r t,t.errs)

lemma World.ensureLeader_notifier (w : World) (r : ℕ) (io : LeaderIO) (r' : ℕ) :
    ((w.ensureLeader r io).2.engines r').notifier = (w.engines r').notifier := by
  unfold World.ensureLeader
  dsimp only
  by_cases hr : r'=r
  · subst hr
    rw [update_self]
    split <;> rfl
  · rw [update_of_ne hr]

lemma World.restore_notifier {w w' : World} {r : ℕ} {round : Round}
    (h : w.restore r round=some w') (r' : ℕ) :
    (w'.engines r').notifier = (w.engines r').notifier := by
  unfold World.restore at h
  dsimp only at h
  split_ifs at h
  · rw [Option.some.inj h]
  · rw [← Option.some.inj h]
    by_cases hr : r'=r
    · subst hr
      simp
    · simp [update_of_ne hr]

lemma World.tick_cases (codec : Codec) (cfg : Config) (w : World) (r : ℕ) (round : Round) :
    (w.tick codec cfg r round).1 = (w.ensureLeader r round.io).2 ∨
      ((w.ensureLeader r round.io).2.leaders r).hasLock = true ∧ ∃ w',
        (w.ensureLeader r round.io).2.restore r round = some w' ∧
          ((w.tick codec cfg r round).1=w' ∨ ∃ silences rules, (w.tick codec cfg r round).1 =
            w'.finish r (Turn.evaluateRules codec cfg silences round.now round.purge rules
              (w'.turn r round)).1) := by
  unfold World.tick
  dsimp only
  split_ifs with hfailed hlock
  · exact .inl rfl
  · exact .inl rfl
  · cases (w.ensureLeader r round.io).2.restore r round with
    | none => exact .inl rfl
    | some w' =>
      refine .inr ⟨by simpa using hlock,w',rfl,?_⟩
      cases round.rules with
      | none => exact .inl rfl
      | some stored =>
        cases round.silences with
        | none => exact .inl rfl
        | some silences => exact .inr ⟨silences,_,rfl⟩

inductive Action
  | endSession (c : ℕ)
  | tick (r : ℕ) (round : Round)

def World.step (codec : Codec) (cfg : Config) (w : World) : Action → World
  | .endSession c => { w with locks := w.locks.endSession c }
  | .tick r round => (w.tick codec cfg r round).1

def World.run (codec : Codec) (cfg : Config) (w : World) (actions : List Action) : World :=
  actions.foldl (World.step codec cfg) w

end Pglens.Alerting

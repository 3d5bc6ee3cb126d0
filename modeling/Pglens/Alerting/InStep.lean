import Pglens.Alerting.Engine

/-! A transition is persisted, or undone. So what the last transition of a key says is what the
evaluator of the leader holds, and what the table shows. -/
namespace Pglens.Alerting
open Pglens.Lib List Function Duration Option

def FiringAt (rows : List Alert) (key : String) (start : ℤ) : Prop :=
  ∃ row∈rows, row.key=key ∧ row.startedAt.ns=start ∧ row.state=.firing

def transitionsOf (key : String) (published : List Publication) : List Alert :=
  (published.map Publication.alert).filter fun a => a.key == key

/-- Firing and resolved in turn, each resolved one with the start of the firing one before it. -/
def Alternates : List Alert → Prop
  | [] => True
  | [a] => a.state=.firing
  | a::b::rest =>
    (a.state=.firing ∧ b.state=.resolved ∨
      a.state = .resolved ∧ b.state=.firing ∧ (startOf a).ns=(startOf b).ns) ∧ Alternates (b::rest)

def Publication.uncovered (codec : Codec) (p : Publication) : Bool :=
  (firstMatch codec p.silences p.alert p.now).isNone

/-- The transitions that replica `r` owes to its channels. -/
def owed (codec : Codec) (r : ℕ) (published : List Publication) : List Alert :=
  (published.filter fun p => decide (p.replica=r) && p.uncovered codec).map Publication.alert

/-- The start of the episode that the last transition of the key opened. -/
def openOf (published : List Publication) (key : String) : Option ℤ :=
  (transitionsOf key published).head?.bind fun a =>
    if a.state=.firing then some (startOf a).ns else none

/-- Rows have keys of their own, hold whole microseconds, and none is pending. -/
structure Table (rows : List Alert) : Prop where
  unique : rows.Pairwise fun row row' => ¬(row.key=row'.key ∧ row.startedAt.ns=row'.startedAt.ns)
  written : ∀ row∈rows, row.state≠.pending
  stamped : ∀ row∈rows, (startOf row).ns = row.startedAt.ns

section Table
variable {rows : List Alert} {a : Alert}

lemma sameRow_iff {row : Alert} :
    sameRow a row = true ↔ row.key=a.key ∧ row.startedAt.ns = (startOf a).ns := decide_eq_true_iff

lemma startOf_rowOf (a : Alert) : (startOf (rowOf a)).ns = (startOf a).ns := by
  simp only [startOf,rowOf,Server.stamp,microsecond]
  omega

lemma Table.upsertRow (h : Table rows) (ha : a.state≠.pending) : Table (upsertRow rows a) := by
  unfold Alerting.upsertRow
  split_ifs with hany
  · refine ⟨pairwise_map.mpr (h.unique.imp ?_),?_,?_⟩
    · intro row row' hne heq
      split_ifs at heq <;> exact hne heq
    · intro row hrow
      obtain ⟨row',hrow',rfl⟩ := mem_map.mp hrow
      split_ifs
      · exact ha
      · exact h.written row' hrow'
    · intro row hrow
      obtain ⟨row',hrow',rfl⟩ := mem_map.mp hrow
      split_ifs <;> exact h.stamped row' hrow'
  · refine ⟨pairwise_cons.mpr ⟨fun row hrow heq => ?_,h.unique⟩,?_,?_⟩
    · refine hany (any_eq_true.mpr ⟨row,hrow,sameRow_iff.mpr ⟨heq.1.symm,heq.2.symm⟩⟩)
    · intro row hrow
      obtain rfl | hrow := mem_cons.mp hrow
      · exact ha
      · exact h.written row hrow
    · intro row hrow
      obtain rfl | hrow := mem_cons.mp hrow
      · exact startOf_rowOf a
      · exact h.stamped row hrow

lemma Table.filter (h : Table rows) (p : Alert → Bool) : Table (rows.filter p) :=
  ⟨h.unique.filter p,fun row hrow => h.written row (mem_of_mem_filter hrow),
    fun row hrow => h.stamped row (mem_of_mem_filter hrow)⟩

lemma firingAt_upsertRow (rows : List Alert) (a : Alert) (key : String) (start : ℤ) :
    FiringAt (upsertRow rows a) key start ↔
      if key=a.key ∧ start = (startOf a).ns then a.state = .firing else FiringAt rows key start := by
  unfold Alerting.upsertRow
  split_ifs with hany hown hown
  · obtain ⟨rfl,rfl⟩ := hown
    constructor
    · rintro ⟨row,hrow,hkey,hstart,hstate⟩
      obtain ⟨row',-,rfl⟩ := mem_map.mp hrow
      split_ifs at hkey hstart hstate with hsame
      · exact hstate
      · exact (hsame (sameRow_iff.mpr ⟨hkey,hstart⟩)).elim
    · intro hstate
      obtain ⟨row,hrow,hsame⟩ := any_eq_true.mp hany
      refine ⟨_,mem_map_of_mem hrow,?_⟩
      rw [if_pos hsame]
      exact ⟨(sameRow_iff.mp hsame).1,(sameRow_iff.mp hsame).2,hstate⟩
  · have hother {row : Alert} (hkey : row.key=key) (hstart : row.startedAt.ns=start) :
        ¬sameRow a row = true := fun hsame =>
      hown ⟨hkey.symm.trans (sameRow_iff.mp hsame).1,hstart.symm.trans (sameRow_iff.mp hsame).2⟩
    constructor
    · rintro ⟨row,hrow,hkey,hstart,hstate⟩
      obtain ⟨row',hrow',rfl⟩ := mem_map.mp hrow
      split_ifs at hkey hstart hstate with hsame
      · exact (hother hkey hstart hsame).elim
      · exact ⟨row',hrow',hkey,hstart,hstate⟩
    · rintro ⟨row,hrow,hkey,hstart,hstate⟩
      refine ⟨_,mem_map_of_mem hrow,?_⟩
      rw [if_neg (hother hkey hstart)]
      exact ⟨hkey,hstart,hstate⟩
  · obtain ⟨rfl,rfl⟩ := hown
    constructor
    · rintro ⟨row,hrow,hkey,hstart,hstate⟩
      obtain rfl | hrow := mem_cons.mp hrow
      · exact hstate
      · exact (hany (any_eq_true.mpr ⟨row,hrow,sameRow_iff.mpr ⟨hkey,hstart⟩⟩)).elim
    · exact fun hstate => ⟨rowOf a,by simp,rfl,rfl,hstate⟩
  · constructor
    · rintro ⟨row,hrow,hkey,hstart,hstate⟩
      obtain rfl | hrow := mem_cons.mp hrow
      · exact (hown ⟨hkey.symm,hstart.symm⟩).elim
      · exact ⟨row,hrow,hkey,hstart,hstate⟩
    · rintro ⟨row,hrow,hkey,hstart,hstate⟩
      exact ⟨row,by simp [hrow],hkey,hstart,hstate⟩

lemma firingAt_filter {p : Alert → Bool} (hp : ∀ row, row.state=.firing → p row=true)
    (key : String) (start : ℤ) : FiringAt (rows.filter p) key start ↔ FiringAt rows key start := by
  constructor
  · rintro ⟨row,hrow,hkey,hstart,hstate⟩
    exact ⟨row,mem_of_mem_filter hrow,hkey,hstart,hstate⟩
  · rintro ⟨row,hrow,hkey,hstart,hstate⟩
    exact ⟨row,mem_filter.mpr ⟨hrow,hp row hstate⟩,hkey,hstart,hstate⟩

end Table

structure Ledger (rows : List Alert) (published : List Publication) : Prop where
  table : Table rows
  opens : ∀ key start, FiringAt rows key start ↔ openOf published key = some start
  alternates : ∀ key, Alternates (transitionsOf key published)

section Ledger
variable {rows : List Alert} {published : List Publication} {p : Publication}

lemma transitionsOf_cons_self (p : Publication) (published : List Publication) :
    transitionsOf p.alert.key (p::published) = p.alert::transitionsOf p.alert.key published := by
  simp [transitionsOf]

lemma transitionsOf_cons_of_ne {key : String} (h : key≠p.alert.key) :
    transitionsOf key (p::published) = transitionsOf key published := by
  simp [transitionsOf,h.symm]

lemma openOf_cons_self (p : Publication) (published : List Publication) :
    openOf (p::published) p.alert.key =
      if p.alert.state=.firing then some (startOf p.alert).ns else none := by
  rw [openOf,transitionsOf_cons_self]
  rfl

lemma openOf_cons_of_ne {key : String} (h : key≠p.alert.key) :
    openOf (p::published) key = openOf published key := by
  rw [openOf,openOf,transitionsOf_cons_of_ne h]

lemma Alternates.head {a : Alert} {as : List Alert} (h : Alternates (a::as)) :
    a.state = .firing ∨ a.state=.resolved := by
  cases as with
  | nil => exact .inl h
  | cons b rest => exact h.1.imp And.left And.left

def Publication.Follows (p : Publication) (published : List Publication) : Prop :=
  p.alert.state = .firing ∧ openOf published p.alert.key = none ∨
    p.alert.state = .resolved ∧ openOf published p.alert.key = some (startOf p.alert).ns

variable (h : Ledger rows published)
include h

lemma Ledger.publish (hp : p.Follows published) :
    Ledger (upsertRow rows p.alert) (p::published) := by
  refine ⟨h.table.upsertRow ?_,fun key start => ?_,fun key => ?_⟩
  · obtain ⟨hstate,-⟩ | ⟨hstate,-⟩ := hp <;> simp [hstate]
  · rw [firingAt_upsertRow]
    by_cases hkey : key=p.alert.key
    · subst hkey
      rw [openOf_cons_self,h.opens]
      obtain ⟨hstate,hopen⟩ | ⟨hstate,hopen⟩ := hp
      · simp [hstate,hopen,eq_comm]
      · simp [hstate,hopen,eq_comm]
    · rw [if_neg fun hown => hkey hown.1,openOf_cons_of_ne hkey]
      exact h.opens key start
  · by_cases hkey : key=p.alert.key
    · subst hkey
      have halt := h.alternates p.alert.key
      rw [transitionsOf_cons_self]
      cases htrans : transitionsOf p.alert.key published with
      | nil =>
        have hnone : openOf published p.alert.key = none := by
          rw [openOf,htrans]
          rfl
        obtain ⟨hstate,-⟩ | ⟨-,hopen⟩ := hp
        · exact hstate
        · simp [hnone] at hopen
      | cons last rest =>
        rw [htrans] at halt
        have hlast : openOf published p.alert.key =
            if last.state=.firing then some (startOf last).ns else none := by
          rw [openOf,htrans]
          rfl
        refine ⟨?_,halt⟩
        obtain ⟨hstate,hopen⟩ | ⟨hstate,hopen⟩ := hp
        · refine .inl ⟨hstate,halt.head.resolve_left fun hfiring => ?_⟩
          simp [hlast,hfiring] at hopen
        · rw [hlast] at hopen
          split_ifs at hopen with hfiring
          exact .inr ⟨hstate,hfiring,(some.inj hopen).symm⟩
    · rw [transitionsOf_cons_of_ne hkey]
      exact h.alternates key

lemma Ledger.refresh {a : Alert} (hstate : a.state=.firing)
    (hopen : openOf published a.key=some (startOf a).ns) :
    Ledger (upsertRow rows a) published := by
  refine ⟨h.table.upsertRow (by simp [hstate]),fun key start => ?_,h.alternates⟩
  rw [firingAt_upsertRow]
  split_ifs with hown
  · obtain ⟨rfl,rfl⟩ := hown
    simp [hstate,hopen]
  · exact h.opens key start

lemma Ledger.filter {q : Alert → Bool}
    (hq : ∀ row, row.state=.firing → q row=true) : Ledger (rows.filter q) published :=
  ⟨h.table.filter q,fun key start => (firingAt_filter hq key start).trans (h.opens key start),
    h.alternates⟩

lemma Ledger.unresolved {row : Alert} (hrow : row∈rows)
    (hstate : row.state≠.resolved) :
    row.state = .firing ∧ openOf published row.key = some row.startedAt.ns := by
  have hfiring : row.state=.firing := by
    have hwritten := h.table.written row hrow
    cases hs : row.state <;> simp_all
  exact ⟨hfiring,(h.opens row.key _).mp ⟨row,hrow,rfl,rfl,hfiring⟩⟩

lemma Ledger.apart :
    (rows.filter fun row => decide (row.state≠.resolved)).Pairwise fun a b => a.key≠b.key := by
  refine (h.table.unique.filter _).imp_of_mem fun {a b} ha hb hne hkey => hne ⟨hkey,?_⟩
  obtain ⟨ha,hstate⟩ := mem_filter.mp ha
  obtain ⟨hb,hstate'⟩ := mem_filter.mp hb
  have hopen := (h.unresolved ha (of_decide_eq_true hstate)).2
  rw [hkey,(h.unresolved hb (of_decide_eq_true hstate')).2] at hopen
  exact (some.inj hopen).symm

lemma Ledger.restored (now : Time) (key : String) :
    Evaluator.openAt ((active rows).foldl (fun e a => e.restore a now) ∅) key = openOf published key := by
  have hperm := perm_insertionSort (fun a b : Alert => b.lastEvalAt.ns≤a.lastEvalAt.ns)
    (rows.filter fun row => decide (row.state≠.resolved))
  have hmem {a : Alert} : a ∈ active rows ↔ a∈rows ∧ a.state≠.resolved := by
    rw [active,hperm.mem_iff,mem_filter,decide_eq_true_iff]
  have hkeys : (active rows).Pairwise fun a b => a.key≠b.key :=
    (hperm.pairwise_iff fun hne => hne.symm).mpr h.apart
  have hfiring : ∀ a ∈ active rows, a.state=.firing := fun a ha =>
    (h.unresolved (hmem.mp ha).1 (hmem.mp ha).2).1
  refine ext fun start => ?_
  rw [Evaluator.openAt_restored hkeys hfiring,← h.opens]
  constructor
  · rintro (⟨a,ha,hkey,hstart⟩ | ⟨-,hnone⟩)
    · exact ⟨a,(hmem.mp ha).1,hkey,(h.table.stamped a (hmem.mp ha).1).symm.trans hstart,hfiring a ha⟩
    · cases hnone
  · rintro ⟨a,ha,hkey,hstart,hstate⟩
    exact .inl ⟨a,hmem.mpr ⟨ha,by simp [hstate]⟩,hkey,(h.table.stamped a ha).trans hstart⟩

end Ledger

/-- The evaluator of the leader `r` follows the transitions, and its channels are told of them.
The others have been told what they were before. -/
structure InStep (codec : Codec) (r : ℕ) (told : ℕ → List Alert) (t : Turn) : Prop where
  replica : t.replica=r
  ledger : Ledger t.rows t.published
  episodes : ∀ key, t.eval.openAt key = openOf t.published key
  notified : ∀ r', update told r t.notifier.notified r' = owed codec r' t.published

section Turn
variable {codec : Codec} {r : ℕ} {told : ℕ → List Alert} {t : Turn} {a : Alert} {e : Evaluator}
  {silences : List Silence} {now : Time}

lemma inStep_stable : Turn.Stable (InStep codec r told) := fun _ _ _ _ h =>
  ⟨h.replica,h.ledger,h.episodes,h.notified⟩

lemma InStep.refresh (h : InStep codec r told t) (hstate : a.state=.firing)
    (hopen : t.eval.openAt a.key=some (startOf a).ns) : InStep codec r told (t.refresh a) := by
  unfold Turn.refresh
  obtain ⟨script,heq | heq⟩ := t.upsert_cases a
  · rw [heq]
    exact ⟨h.replica,h.ledger.refresh hstate ((h.episodes a.key).symm.trans hopen),h.episodes,h.notified⟩
  · rw [heq]
    exact inStep_stable.fail (inStep_stable.script h script) _

lemma Notifier.notify_notified (n : Notifier) (a : Alert) :
    (n.notify codec a).1.notified = a::n.notified :=
  (n.step_frame codec (.notify a n.outcomes)).2.2.2

lemma Notifier.retry_notified (n : Notifier) : (n.retry codec).1.notified = n.notified :=
  (n.step_frame codec (.retry n.outcomes)).2.2.2

lemma owed_cons (codec : Codec) (r : ℕ) (p : Publication) (published : List Publication) :
    owed codec r (p::published) =
      if p.replica=r ∧ p.uncovered codec then p.alert::owed codec r published
      else owed codec r published := by
  by_cases hr : p.replica = r <;> cases h : p.uncovered codec <;> simp [owed,h,hr]

/-- The evaluator has made the transition, from `e` on. -/
structure Turned (e e' : Evaluator) (a : Alert) : Prop where
  others : ∀ k≠a.key, e'.lookup k = e.lookup k
  moved : a.state=.firing ∧ e.openAt a.key = none ∧ e'.openAt a.key = some (startOf a).ns ∨
    a.state = .resolved ∧ e.openAt a.key = some (startOf a).ns ∧ e'.openAt a.key = none

lemma InStep.persisted (h : InStep codec r told { t with eval := e }) (hturn : Turned e t.eval a)
    (script : Script) :
    Ledger (t.persisted codec script silences now a).rows (t.persisted codec script silences now a).published ∧
      ∀ k, t.eval.openAt k = openOf (t.persisted codec script silences now a).published k := by
  let p : Publication := ⟨t.replica,Turn.judged codec silences now a,silences,now⟩
  have hfollows : p.Follows t.published :=
    hturn.moved.imp (fun hm => ⟨hm.1,(h.episodes a.key).symm.trans hm.2.1⟩)
      fun hm => ⟨hm.1,(h.episodes a.key).symm.trans hm.2.1⟩
  refine ⟨h.ledger.publish hfollows,fun k => ?_⟩
  by_cases hk : k=a.key
  · subst hk
    refine Eq.trans ?_ (openOf_cons_self p t.published).symm
    obtain ⟨hstate,-,hopen⟩ | ⟨hstate,-,hopen⟩ := hturn.moved
    · exact hopen.trans (if_pos hstate).symm
    · refine hopen.trans (if_neg fun hfiring => ?_).symm
      exact absurd (hstate.symm.trans hfiring) (by decide)
  · refine Eq.trans ?_ (openOf_cons_of_ne (p := p) hk).symm
    exact (Evaluator.openAt_congr (hturn.others k hk)).trans (h.episodes k)

lemma uncovered_judged (r : ℕ) (a : Alert) :
    Publication.uncovered codec ⟨r,Turn.judged codec silences now a,silences,now⟩ =
      !(Turn.judged codec silences now a).suppressed := by
  change (firstMatch codec silences a now).isNone = !(firstMatch codec silences a now).isSome
  cases firstMatch codec silences a now <;> rfl

lemma InStep.publish (silences : List Silence) (now : Time)
    (h : InStep codec r told { t with eval := e }) (hturn : Turned e t.eval a) :
    InStep codec r told (t.publish codec silences now (e.checkpoint a.key) a) := by
  have howed (r' : ℕ) := owed_cons codec r' ⟨t.replica,Turn.judged codec silences now a,silences,now⟩
    t.published
  simp only [uncovered_judged] at howed
  obtain ⟨script,heq | ⟨hcovered,heq⟩ | ⟨hcovered,heq⟩⟩ :=
    Turn.publish_cases codec silences now (e.checkpoint a.key) a t
  · rw [heq]
    have hundone : InStep codec r told { t with
        script := script
        eval := e.checkpoint a.key t.eval } :=
      ⟨h.replica,h.ledger,
        fun k => (Evaluator.checkpoint_openAt hturn.others k).trans (h.episodes k),h.notified⟩
    exact inStep_stable.fail hundone _
  · obtain ⟨hledger,hepisodes⟩ := h.persisted hturn script
    rw [heq]
    refine ⟨h.replica,hledger,hepisodes,fun r' => (h.notified r').trans ?_⟩
    exact ((howed r').trans (if_neg (by simp [hcovered]))).symm
  · obtain ⟨hledger,hepisodes⟩ := h.persisted hturn script
    rw [heq]
    refine inStep_stable.notify ⟨h.replica,hledger,hepisodes,fun r' => ?_⟩
    have hbefore := h.notified r'
    refine Eq.trans ?_ (howed r').symm
    by_cases hr : r'=r
    · subst hr
      rw [update_self] at hbefore ⊢
      rw [if_pos ⟨h.replica,by simp [hcovered]⟩,← hbefore]
      exact Notifier.notify_notified _ _
    · rw [update_of_ne hr] at hbefore ⊢
      rw [if_neg fun hown => hr (hown.1.symm.trans h.replica)]
      exact hbefore

lemma InStep.still (h : InStep codec r told t) {k : String}
    (hothers : ∀ k'≠k, e.lookup k'=t.eval.lookup k') (same : e.openAt k=t.eval.openAt k) :
    InStep codec r told { t with eval := e } := by
  refine ⟨h.replica,h.ledger,fun k' => ?_,h.notified⟩
  by_cases hk : k'=k
  · rw [hk]
    exact same.trans (h.episodes k)
  · exact (Evaluator.openAt_congr (hothers k' hk)).trans (h.episodes k')

lemma noteSample_inStep (rule : Rule) (sample : Sample) :
    (Turn.noteSample codec rule silences now sample).Keeps (InStep codec r told) := by
  intro t h
  have hmoves : t.eval.Moves (Key codec rule sample) (t.eval.step codec rule sample now) :=
    t.eval.step_moves rule sample now
  have hothers : ∀ k ≠ Key codec rule sample,
      (t.eval.step codec rule sample now).1.lookup k = t.eval.lookup k := fun k => Evaluator.step_of_ne
  have hpublished {e : Evaluator} {a : Alert} (hturn : Turned t.eval e a) :
      let c := (Turn.publish codec silences now (t.eval.checkpoint a.key) a { t with eval := e }).ctxErr
      InStep codec r told (if c.1 then (c.2.fail .context,some ()) else (c.2,none) : Turn × Option Unit).1 := by
    have hctx := inStep_stable.ctxErr (InStep.publish (t := { t with eval := e }) silences now h hturn)
    dsimp only
    split_ifs
    · exact inStep_stable.fail hctx _
    · exact hctx
  unfold Turn.noteSample
  generalize Key codec rule sample = k at hmoves hothers ⊢
  generalize t.eval.step codec rule sample now = r at hmoves hothers ⊢
  cases hmoves with
  | @still e a tr same unpublished refreshed =>
    have hstill := h.still hothers same
    cases a with
    | none => cases tr <;> exact hstill
    | some a =>
      cases tr with
      | none =>
        dsimp only
        split_ifs with hstate
        · obtain ⟨rfl,hopen⟩ := refreshed a rfl rfl hstate
          exact hstill.refresh hstate (same.trans hopen)
        · exact hstill
      | opened => exact hstill
      | cancelled => exact hstill
      | fired => exact (unpublished.1 rfl).elim
      | resolved => exact (unpublished.2 rfl).elim
  | fired key state before after =>
    subst key
    exact hpublished ⟨hothers,.inl ⟨state,before,after⟩⟩
  | resolved key state before after =>
    subst key
    exact hpublished ⟨hothers,.inr ⟨state,before,after⟩⟩

lemma InStep.endOne (h : InStep codec r told t) (silences : List Silence) (now : Time) (a : Alert) :
    InStep codec r told (t.endOne codec silences now a) := by
  have hmoves := t.eval.endEpisode_moves a.key now
  have hothers : ∀ k≠a.key, (t.eval.endEpisode a.key now).1.lookup k = t.eval.lookup k := fun k =>
    Evaluator.endEpisode_of_ne
  have hfired := t.eval.endEpisode_ne_fired a.key now
  unfold Turn.endOne
  generalize a.key = k at hmoves hothers hfired ⊢
  generalize t.eval.endEpisode k now = ended at hmoves hothers hfired ⊢
  cases hmoves with
  | @still e a tr same unpublished refreshed =>
    have hstill := h.still hothers same
    cases a with
    | none => cases tr <;> exact hstill
    | some a =>
      cases tr with
      | resolved => exact (unpublished.2 rfl).elim
      | none | opened | fired | cancelled => exact hstill
  | fired key state before after => exact (hfired rfl).elim
  | @resolved e a key state before after =>
    subst key
    exact InStep.publish (t := { t with eval := e }) silences now h
      ⟨hothers,.inr ⟨state,before,after⟩⟩

lemma InStep.purgeHistory (h : InStep codec r told t) (now : Time) (purge : Option (Alert → Bool)) :
    InStep codec r told (t.purgeHistory now purge) := by
  obtain ⟨keeps,purgedAt,errs,hkeeps,heq⟩ := t.purgeHistory_cases now purge
  rw [heq]
  exact ⟨h.replica,h.ledger.filter hkeeps,h.episodes,h.notified⟩

lemma InStep.retry (h : InStep codec r told t) : InStep codec r told (t.retry codec) := by
  refine inStep_stable.retry ⟨h.replica,h.ledger,h.episodes,fun r' => ?_⟩
  rw [Notifier.retry_notified]
  exact h.notified r'

lemma InStep.evaluateRules (h : InStep codec r told t) (cfg : Config) (silences : List Silence)
    (now : Time) (purge : Option (Alert → Bool)) (rules : List Rule) :
    InStep codec r told (Turn.evaluateRules codec cfg silences now purge rules t).1 := by
  have hends := Turn.evaluateRules_ends cfg inStep_stable noteSample_inStep
    (fun t a h => h.endOne silences now a)
    (fun t before h => ⟨h.replica,h.ledger,
      fun k => (t.eval.forget_openAt before k).trans (h.episodes k),h.notified⟩)
    (fun t h => h.purgeHistory now purge) rules h
  obtain hkept | ⟨t',ht',heq⟩ := hends
  · exact hkept
  · rw [heq]
    exact ht'.retry

end Turn

/-- What an engine of replica `r` has been told, and the evaluator it leads with. -/
structure Engine.InStep (codec : Codec) (published : List Publication) (r : ℕ) (leads : Prop)
    (eng : Engine) : Prop where
  notified : eng.notifier.notified = owed codec r published
  unloaded : eng.stateLoaded=false → eng.eval=∅
  episodes : leads → eng.stateLoaded=true → ∀ key, eng.eval.openAt key = openOf published key

lemma Engine.InStep.mono {codec : Codec} {published : List Publication} {r : ℕ}
    {leads leads' : Prop} {eng : Engine} (h : eng.InStep codec published r leads)
    (hleads : leads' → leads) :
    eng.InStep codec published r leads' := ⟨h.notified,h.unloaded,fun h' => h.episodes (hleads h')⟩

structure World.InStep (codec : Codec) (w : World) : Prop where
  seats : w.locks.Seats w.leaders
  ledger : Ledger w.rows w.published
  engines : ∀ r, (w.engines r).InStep codec w.published r (w.locks.Leads (w.leaders r))

section World
variable {codec : Codec} {w : World} {r : ℕ} {round : Round}

lemma World.start_inStep (codec : Codec) (channels : ℕ → List Channel) :
    (World.start channels).InStep codec := by
  refine ⟨Locks.new_seats,⟨⟨.nil,fun _ h => (by cases h),fun _ h => (by cases h)⟩,fun key start => ?_,
    fun _ => trivial⟩,fun _ => ⟨rfl,fun _ => rfl,fun h => (by cases h.1)⟩⟩
  exact ⟨fun ⟨_,hrow,_⟩ => (by cases hrow),fun h => (by cases h)⟩

lemma World.InStep.ensureLeader (h : w.InStep codec) (r : ℕ) (io : LeaderIO) :
    (w.ensureLeader r io).2.InStep codec := by
  have hown := h.engines r
  refine ⟨h.seats.ensure r,h.ledger,(forall_update_iff w.engines fun r' eng =>
    eng.InStep codec w.published r' (Locks.Leads _ (update w.leaders r _ r'))).mpr
      ⟨?_,fun r' hr => ?_⟩⟩
  · rw [update_self]
    refine ⟨?_,?_,fun hleads hloaded => ?_⟩
    · split <;> exact hown.notified
    · split
      · exact fun _ => rfl
      · exact hown.unloaded
    · obtain ⟨hleads',hkept | hasked⟩ := h.seats.ensure_leads hleads.1
      · rw [hkept] at hleads' hloaded ⊢
        exact hown.episodes hleads' hloaded
      · rw [hasked] at hloaded
        cases hloaded
  · rw [update_of_ne hr]
    exact (h.engines r').mono (h.seats.leads_before hr)

lemma World.InStep.restore (h : w.InStep codec) {w' : World} (heq : w.restore r round=some w') :
    w'.InStep codec ∧ w'.locks=w.locks ∧ w'.leaders=w.leaders ∧
      (w'.engines r).stateLoaded = true := by
  have hown := h.engines r
  unfold World.restore at heq
  dsimp only at heq
  split_ifs at heq with hloaded hreads
  · obtain rfl := some.inj heq
    exact ⟨h,rfl,rfl,hloaded⟩
  · obtain rfl := some.inj heq
    refine ⟨⟨h.seats,h.ledger,(forall_update_iff w.engines fun r' eng =>
      eng.InStep codec w.published r' (w.locks.Leads (w.leaders r'))).mpr
        ⟨⟨hown.notified,fun hunloaded => (by cases hunloaded),fun _ _ key => ?_⟩,fun r' _ => h.engines r'⟩⟩,
      rfl,rfl,by simp⟩
    rw [hown.unloaded (by simpa using hloaded)]
    exact h.ledger.restored round.now key

lemma World.InStep.turn (h : w.InStep codec) (hleads : w.locks.Leads (w.leaders r))
    (hloaded : (w.engines r).stateLoaded=true) (round : Round) :
    Alerting.InStep codec r (fun r' => (w.engines r').notifier.notified) (w.turn r round) :=
  ⟨rfl,h.ledger,(h.engines r).episodes hleads hloaded,
    (forall_update_iff _ fun r' told => told=owed codec r' w.published).mpr
      ⟨(h.engines r).notified,fun r' _ => (h.engines r').notified⟩⟩

lemma World.InStep.finish (h : w.InStep codec) (hleads : w.locks.Leads (w.leaders r))
    (hloaded : (w.engines r).stateLoaded=true) {t : Turn}
    (ht : Alerting.InStep codec r (fun r' => (w.engines r').notifier.notified) t) :
    (w.finish r t).InStep codec := by
  obtain ⟨hown,hothers⟩ :=
    (forall_update_iff _ fun r' told => told=owed codec r' t.published).mp ht.notified
  refine ⟨h.seats,ht.ledger,(forall_update_iff w.engines fun r' eng =>
    eng.InStep codec t.published r' (w.locks.Leads (w.leaders r'))).mpr
      ⟨⟨hown,fun hunloaded => ?_,fun _ _ => ht.episodes⟩,
        fun r' hr => ⟨hothers r' hr,(h.engines r').unloaded,fun hleads' => ?_⟩⟩⟩
  · cases hloaded.symm.trans hunloaded
  · exact (hr (h.seats.unique hleads' hleads)).elim

lemma World.InStep.tick (h : w.InStep codec) (cfg : Config) (r : ℕ) (round : Round) :
    (w.tick codec cfg r round).1.InStep codec ∧
      (((w.tick codec cfg r round).1.leaders r).hasLock=true →
        (w.tick codec cfg r round).1.locks.Leads ((w.tick codec cfg r round).1.leaders r)) := by
  have hled := h.ensureLeader r round.io
  have hleads (hlock : ((w.ensureLeader r round.io).2.leaders r).hasLock=true) :
      (w.ensureLeader r round.io).2.locks.Leads ((w.ensureLeader r round.io).2.leaders r) := by
    simp only [World.ensureLeader,update_self] at hlock ⊢
    exact (h.seats.ensure_leads hlock).1
  obtain heq | ⟨hlock,w',hrestore,hend⟩ := w.tick_cases codec cfg r round
  · rw [heq]
    exact ⟨hled,hleads⟩
  · obtain ⟨hw',hlocks,hleaders,hloaded⟩ := hled.restore hrestore
    rw [← hlocks,← hleaders] at hleads
    rw [← hleaders] at hlock
    obtain heq | ⟨silences,rules,heq⟩ := hend
    · rw [heq]
      exact ⟨hw',hleads⟩
    · rw [heq]
      exact ⟨hw'.finish (hleads hlock) hloaded
        ((hw'.turn (hleads hlock) hloaded round).evaluateRules cfg silences round.now round.purge rules),
        hleads⟩

lemma World.InStep.step (h : w.InStep codec) (cfg : Config) (a : Action) :
    (w.step codec cfg a).InStep codec := by
  cases a with
  | endSession c =>
    refine ⟨h.seats.endSession c,h.ledger,fun r => (h.engines r).mono ?_⟩
    rintro ⟨hlock,c',hc',hholder⟩
    exact ⟨hlock,c',hc',Locks.holder_endSession hholder⟩
  | tick r round => exact (h.tick cfg r round).1

lemma World.run_inStep (codec : Codec) (cfg : Config) (channels : ℕ → List Channel)
    (actions : List Action) : ((World.start channels).run codec cfg actions).InStep codec :=
  List.foldlRecOn actions _ (World.start_inStep codec channels) fun _ h a _ => h.step cfg a

lemma World.InStep.firing (h : w.InStep codec) (hleads : w.locks.Leads (w.leaders r))
    (hloaded : (w.engines r).stateLoaded=true) (key : String) (start : ℤ) :
    (∃ a ∈ (w.engines r).eval.firing, a.key=key ∧ (startOf a).ns=start) ↔
      FiringAt w.rows key start := by
  rw [Evaluator.mem_firing,(h.engines r).episodes hleads hloaded,h.ledger.opens]

end World

def unresolvedOf (key : String) (rows : List Alert) : List Alert :=
  (rows.filter fun row => decide (row.state≠.resolved)).filter fun row => row.key == key

lemma Ledger.unresolvedOf_length {rows : List Alert} {published : List Publication}
    (h : Ledger rows published) (key : String) : (unresolvedOf key rows).length ≤ 1 := by
  have hapart : (unresolvedOf key rows).Pairwise fun a b => a.key≠b.key := h.apart.filter _
  have hkey : ∀ row ∈ unresolvedOf key rows, row.key=key := fun row hrow => by
    simpa using (mem_filter.mp hrow).2
  generalize unresolvedOf key rows = left at hapart hkey ⊢
  match left with
  | [] | [_] => simp
  | a::b::rest =>
    have hne : a.key≠b.key := (pairwise_cons.mp hapart).1 b (by simp)
    exact (hne ((hkey a (by simp)).trans (hkey b (by simp)).symm)).elim

/-- In every run of Ticks by any replicas, with any failures and hand-overs: the persisted
transitions of a key alternate; at the end of a Tick of a leader that has restored its state, the
evaluator holds the episodes whose rows are firing; a key has at most one row that is not resolved;
and Notify was called for the persisted transitions of the replica that no silence covers, once each
and in order, and for nothing else. -/
theorem episodes_in_step (codec : Codec) (cfg : Config) (channels : ℕ → List Channel)
    (actions : List Action) :
    let w := (World.start channels).run codec cfg actions
    (∀ key, Alternates (transitionsOf key w.published)) ∧
      (∀ r round, let w' := w.step codec cfg (.tick r round)
        (w'.leaders r).hasLock=true → (w'.engines r).stateLoaded=true → ∀ key start,
          ((∃ a ∈ (w'.engines r).eval.firing, a.key=key ∧ (startOf a).ns=start) ↔
            FiringAt w'.rows key start)) ∧
      (∀ key, (unresolvedOf key w.rows).length ≤ 1) ∧
      ∀ r, (w.engines r).notifier.notified = owed codec r w.published := by
  intro w
  have h : w.InStep codec := World.run_inStep codec cfg channels actions
  refine ⟨h.ledger.alternates,fun r round hlock hloaded => ?_,h.ledger.unresolvedOf_length,
    fun r => (h.engines r).notified⟩
  obtain ⟨hw',hleads⟩ := h.tick cfg r round
  exact hw'.firing (hleads hlock) hloaded

end Pglens.Alerting

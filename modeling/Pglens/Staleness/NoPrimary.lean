import Pglens.Lib.History
import Pglens.Staleness.Announcements
import Mathlib.Data.List.Count

/-! When a cluster last had a live primary, and whether its lack of one was announced, is only in
the memory of a replica. A replica that takes over goes by what it remembers of its last term, or by
nothing. -/
namespace Pglens.Staleness
open Pglens.Lib List Function Nat

def Event.headless (ev : Event) : Option ℤ :=
  if ev.typ=.noPrimaryInCluster then ev.clusterID else none

def headless (rows : List EventRow) : List ℤ := rows.filterMap fun row => row.event.headless

/-- An evaluation by a leader: what it evaluated, found and announced. -/
structure Look where
  replica : ℕ
  now : Time
  clusters : List ℤ
  live : ℤ → Bool
  headless : List ℤ

/-- The world with the leaders' evaluations, newest first. -/
structure Watched where
  world : World
  looks : List Look

def Watched.start (instances : List InstanceRow) (clock : Time) : Watched :=
  ⟨World.start instances clock,[]⟩

def World.Leads (w : World) (r : ℕ) (round : Round) : Prop :=
  let e := w.ensureLeader r round.io
  e.1 ≠ .failed ∧ round.readsInstances=true ∧ (e.2.leaders r).hasLock = true

instance (w : World) (r : ℕ) (round : Round) : Decidable (w.Leads r round) :=
  inferInstanceAs (Decidable (_ ∧ _))

def World.announces (w : World) (r : ℕ) (round : Round) : Turn × Option Fault :=
  announceAll w.instances round ((w.ensureLeader r round.io).2.turn r round)

def World.look (w : World) (r : ℕ) (round : Round) : Look :=
  let rows := (w.announces r round).1.events.rows
  ⟨r,round.now,clusterIDs w.instances,clusterHasPrimary round.now w.instances,
    headless (rows.take (rows.length-w.events.rows.length))⟩

def Watched.step (x : Watched) (a : Action) : Watched where
  world := x.world.step a
  looks := match a with
    | .evaluate r round => if x.world.Leads r round then x.world.look r round::x.looks else x.looks
    | _ => x.looks

/-- The clusters an evaluation announces had no live primary in any evaluation of the last
sixty seconds, and had one since they were announced before. -/
def Look.Justified (look : Look) (older : List Look) : Prop :=
  look.headless.Nodup ∧ ∀ c∈look.headless,
    (∀ seen ∈ look::older, look.now.ns ≤ seen.now.ns+noPrimaryThreshold → seen.live c=false) ∧
    ∀ between earlier before, older = between++earlier::before → c∈earlier.headless →
      ∃ seen∈between, seen.live c = true

/-- The transactions the transitions loop asks for, from the states the replica goes by. -/
def transitions (now : Time) (known : UUID → Option Bool) : List InstanceRow → ℕ
  | [] => 0
  | inst::instances =>
    let up := isStaleUp inst.lastSeen now instanceStaleAfter
    (if inst.revoked=false ∧ (known inst.id).getD true ≠ up then 1 else 0) +
      transitions now (update known inst.id (some up)) instances

/-- The no-primary loop asks for a transaction for the cluster. -/
def Replica.overdue (m : Replica) (now : Time) (live : ℤ → Bool) (c : ℤ) : Bool :=
  !live c && (m.clusterPrimarySeen c).any fun last =>
    !last.isZero && decide (noPrimaryThreshold<now.sub last) && !m.clusterNoPrimaryEmitted c

/-- The states replica `r` goes by, `none` when its query for them fails. -/
def World.known (w : World) (r : ℕ) (round : Round) : Option (UUID → Option Bool) :=
  let m := (w.ensureLeader r round.io).2.replicas r
  if m.announcedLoaded then some m.instanceUp
  else round.announcedScan.map fun scan =>
    announcedUp round.now w.instances (announcedStates (scan w.events.rows))

/-- The first `n` transactions begin and commit. -/
def Committed (n : ℕ) (txs : List Tx) : Prop := n ≤ txs.length ∧ ∀ tx ∈ txs.take n, tx.ok=true

/-- The query for the announced states succeeds, and so does a transaction for each instance
that changed and each cluster that is overdue. -/
def World.Stores (w : World) (r : ℕ) (round : Round) : Prop :=
  ∃ known ∈ w.known r round, Committed (transitions round.now known w.instances +
    (clusterIDs w.instances).countP
      ((w.replicas r).overdue round.now (clusterHasPrimary round.now w.instances))) round.txs

/-- A leader that was not the last to evaluate finds a live primary in every cluster evaluated
so far, and an evaluation that finds a live primary stores what it announces. -/
def Action.Informed (x : Watched) : Action → Prop
  | .evaluate r round => x.world.Leads r round →
    (∀ last∈x.looks.head?, last.replica≠r → ∀ look∈x.looks, ∀ c∈look.clusters,
      clusterHasPrimary round.now x.world.instances c=true) ∧
    (x.world.Stores r round ∨ ∀ c, clusterHasPrimary round.now x.world.instances c=false)
  | _ => True

def NotAfter (t u : Time) : Prop := t.ns ≤ u.ns

def Watched.Follows (x : Watched) (a : Action) (x' : Watched) : Prop :=
  a.Possible NotAfter x.world ∧ x' = x.step a

section Spell

structure Spell where
  seen : Option Time
  emitted : Bool
  told : ℕ

def Turn.spell (t : Turn) (c : ℤ) : Spell :=
  ⟨t.memory.clusterPrimarySeen c,t.memory.clusterNoPrimaryEmitted c,(headless t.events.rows).count c⟩

inductive Noted (now : Time) : Bool → Spell → Spell → Prop
  | found (s : Spell) : Noted now true s ⟨some now,false,s.told⟩
  | first {s : Spell} (h : s.seen=none) : Noted now false s ⟨some now,s.emitted,s.told⟩
  | quiet (s : Spell) : Noted now false s s
  | announced {s : Spell} {last : Time} (seen : s.seen=some last)
      (lapsed : noPrimaryThreshold<now.sub last) (first : s.emitted=false) :
      Noted now false s ⟨s.seen,true,s.told+1⟩

variable {c cid : ℤ} {s : Spell} {rows : List EventRow}

lemma headless_insert (e : EventTable) (ts : Time) (evs : List Event) :
    headless (e.insert ts evs).rows = (evs.filterMap Event.headless).reverse++headless e.rows := by
  induction evs generalizing e with
  | nil => rfl
  | cons ev evs ih =>
    rw [EventTable.insert,ih ⟨_,e.next+1⟩]
    cases hev : ev.headless <;> simp [headless,hev]

lemma emitEvents_spell {evs : List Event} (h : c ∉ evs.filterMap Event.headless) :
    (emitEvents evs).Keeps fun t => t.spell c = s := by
  rintro t rfl
  obtain ⟨tx,txs,_,heq⟩ | ⟨txs,_,heq⟩ := emitEvents_cases evs t
  · rw [heq]
    simp [Turn.spell,headless_insert,count_eq_zero.mpr h]
  · rw [heq]
    rfl

lemma noteInstance_spell (now : Time) (inst : InstanceRow) :
    (noteInstance now inst).Keeps fun t => t.spell c = s :=
  noteInstance_keeps now
    (fun up => emitEvents_spell (by cases up <;> simp [transitionEvents,Event.headless]))
    (fun _ _ ht => ht)

lemma noteCluster_spell_of_ne (now : Time) (live : ℤ → Bool) (hne : cid≠c) :
    (noteCluster now live cid).Keeps fun t => t.spell c = s := by
  refine noteCluster_keeps now live (emitEvents_spell (by simpa [Event.headless] using hne.symm))
    (fun t ht => ?_) (fun t b ht => ?_)
  · rw [← ht]
    simp [Turn.spell,Turn.setPrimarySeen,update_of_ne hne.symm]
  · rw [← ht]
    simp [Turn.spell,Turn.setNoPrimaryEmitted,update_of_ne hne.symm]

lemma noteCluster_spell (now : Time) (live : ℤ → Bool) (c : ℤ) (t : Turn) :
    let r := noteCluster now live c t
    Noted now (live c) (t.spell c) (r.1.spell c) := by
  intro r
  have hr : r = noteCluster now live c t := rfl
  unfold noteCluster at hr
  cases hlive : live c with
  | true =>
    rw [hlive] at hr
    rw [hr]
    simpa [Turn.spell,Turn.setPrimarySeen,Turn.setNoPrimaryEmitted] using Noted.found (t.spell c)
  | false =>
    simp only [hlive,Bool.false_eq_true,if_false] at hr
    split at hr
    · rename_i hseen
      rw [hr]
      have hfirst : Noted now false (t.spell c) _ := .first hseen
      simpa [Turn.spell,Turn.setPrimarySeen] using hfirst
    · rename_i last hseen
      split_ifs at hr with hzero hdue
      · rw [hr]
        exact .quiet _
      · obtain ⟨tx,txs,_,heq⟩ | ⟨txs,_,heq⟩ := emitEvents_cases
            [⟨.noPrimaryInCluster,some c,none,.headless c⟩] t
        · rw [hr,Attempt.andThen_pure,heq]
          have := Noted.announced (s := t.spell c) hseen hdue.1 hdue.2
          simpa [Turn.spell,Turn.setNoPrimaryEmitted,EventTable.insert,headless,Event.headless]
            using this
        · rw [hr,Attempt.andThen_pure,heq]
          exact .quiet _
      · rw [hr]
        exact .quiet _

def Passed (now : Time) (live : ℤ → Bool) (order : List ℤ) (c : ℤ) (s : Spell)
    (r : Turn × Option Fault) : Prop :=
  r.1.spell c = s ∧ (r.2=none → c ∉ order) ∨ c∈order ∧ Noted now (live c) s (r.1.spell c)

lemma noteClusters_passed (now : Time) (live : ℤ → Bool) {order : List ℤ} (hnodup : order.Nodup)
    (c : ℤ) (t : Turn) :
    Passed now live order c (t.spell c) (Attempt.each (noteCluster now live) order t) := by
  induction order generalizing t with
  | nil => exact .inl ⟨rfl,fun _ => by simp⟩
  | cons cid order ih =>
    obtain ⟨hfresh,hnodup⟩ := nodup_cons.mp hnodup
    by_cases hcid : cid=c
    · -- The passes behind the cluster's own leave it.
      subst hcid
      have hown := noteCluster_spell now live cid t
      have hrest : (Attempt.each (noteCluster now live) order).Keeps
          fun t' => t'.spell cid = (noteCluster now live cid t).1.spell cid :=
        .each fun cid' hmem => noteCluster_spell_of_ne now live (ne_of_mem_of_not_mem hmem hfresh)
      refine .inr ⟨by simp,?_⟩
      obtain ⟨e,_,heq⟩ | ⟨_,heq⟩ := Attempt.andThen_cases (noteCluster now live cid)
        (Attempt.each (noteCluster now live) order) t
      · rw [Attempt.each,heq]
        exact hown
      · rw [Attempt.each,heq,hrest _ rfl]
        exact hown
    · have hkeep : (noteCluster now live cid t).1.spell c = t.spell c :=
        noteCluster_spell_of_ne now live hcid t rfl
      obtain ⟨e,_,heq⟩ | ⟨_,heq⟩ := Attempt.andThen_cases (noteCluster now live cid)
        (Attempt.each (noteCluster now live) order) t
      · rw [Attempt.each,heq]
        exact .inl ⟨hkeep,fun hnone => by cases hnone⟩
      · rw [Attempt.each,heq,← hkeep]
        obtain ⟨hsame,hout⟩ | ⟨hmem,hnoted⟩ := ih hnodup (noteCluster now live cid t).1
        · exact .inl ⟨hsame,fun hnone => by simpa [Ne.symm hcid] using hout hnone⟩
        · exact .inr ⟨by simp [hmem],hnoted⟩

lemma Passed.after {now : Time} {live : ℤ → Bool} {order : List ℤ} {t : Turn}
    {a b : Attempt Fault Turn} (ha : a.Keeps fun t => t.spell c=s)
    (hb : ∀ t, Passed now live order c (t.spell c) (b t)) (ht : t.spell c=s) :
    Passed now live order c s (a.andThen b t) := by
  have hkeep := ha t ht
  obtain ⟨e,_,heq⟩ | ⟨_,heq⟩ := Attempt.andThen_cases a b t
  · rw [heq]
    exact .inl ⟨hkeep,fun hnone => by cases hnone⟩
  · rw [heq,← hkeep]
    exact hb _

lemma announceAll_passed (instances : List InstanceRow) (round : Round)
    (hnodup : round.order.Nodup) (c : ℤ) (t : Turn) :
    Passed round.now (clusterHasPrimary round.now instances) round.order c (t.spell c)
      (announceAll instances round t) :=
  .after (loadAnnounced_keeps _ _ _ fun _ _ ht => ht)
    (fun t => .after (Attempt.Keeps.each fun inst _ => noteInstance_spell _ inst)
      (noteClusters_passed _ _ hnodup c) (t := t) rfl) rfl

end Spell

section Stores
variable {now : Time} {n : ℕ} {t : Turn}

lemma Committed.succ {txs : List Tx} (h : Committed (n+1) txs) :
    ∃ tx rest, txs = tx::rest ∧ tx.ok=true ∧ Committed n rest := by
  obtain ⟨hlen,hok⟩ := h
  cases txs with
  | nil => simp at hlen
  | cons tx rest =>
    exact ⟨tx,rest,rfl,hok tx (by simp),by simpa using hlen,fun tx' htx => hok tx' (by simp [htx])⟩

lemma emitEvents_committed (evs : List Event) (h : Committed (n+1) t.txs) :
    (emitEvents evs t).2 = none ∧ Committed n (emitEvents evs t).1.txs := by
  obtain ⟨tx,rest,htxs,hok,hrest⟩ := h.succ
  simp [emitEvents,htxs,hok,hrest]

theorem noteInstance_committed (inst : InstanceRow)
    (h : Committed ((if inst.revoked=false ∧ (t.memory.instanceUp inst.id).getD true ≠
      isStaleUp inst.lastSeen now instanceStaleAfter then 1 else 0) + n) t.txs) :
    let r := noteInstance now inst t
    r.2 = none ∧ Committed n r.1.txs ∧ r.1.memory.instanceUp =
      update t.memory.instanceUp inst.id
        (some (isStaleUp inst.lastSeen now instanceStaleAfter)) := by
  intro r
  have hcases := noteInstance_cases now inst t
  change r = _ ∧ _ ∨ r=_ ∧ _ ∨ r=_ ∧ _ at hcases
  generalize isStaleUp inst.lastSeen now instanceStaleAfter = up at h hcases ⊢
  obtain ⟨heq,hsome⟩ | ⟨heq,hset⟩ | ⟨heq,hrev,hne,hup⟩ := hcases
  · rw [if_neg (by simp [hsome]),zero_add] at h
    rw [heq]
    exact ⟨rfl,h,by rw [← hsome,update_eq_self]⟩
  · rw [if_neg ?_,zero_add] at h
    · rw [heq]
      exact ⟨rfl,h,rfl⟩
    · obtain hrev | ⟨hnone,rfl⟩ := hset
      · simp [hrev]
      · simp [hnone]
  · have hdue : (t.memory.instanceUp inst.id).getD true ≠ up := by
      cases hknown : t.memory.instanceUp inst.id with
      | none => simp [hup hknown]
      | some prevUp => simpa [hknown] using hne
    rw [if_pos ⟨hrev,hdue⟩,add_comm] at h
    obtain ⟨hnone,hrest⟩ := emitEvents_committed
      (transitionEvents inst.clusterID inst.id up inst.lastSeen) h
    rw [heq,Attempt.andThen_pure,hnone]
    refine ⟨rfl,hrest,?_⟩
    change update (emitEvents _ t).1.memory.instanceUp _ _ = _
    rw [emitEvents_memory]

lemma noteInstances_committed {instances : List InstanceRow}
    (h : Committed (transitions now t.memory.instanceUp instances + n) t.txs) :
    let r := Attempt.each (noteInstance now) instances t
    r.2 = none ∧ Committed n r.1.txs := by
  induction instances generalizing t with
  | nil =>
    rw [transitions,zero_add] at h
    exact ⟨rfl,h⟩
  | cons inst instances ih =>
    rw [transitions,add_assoc] at h
    obtain ⟨hnone,hrest,hknown⟩ := noteInstance_committed inst h
    rw [Attempt.each,Attempt.andThen_of_none hnone]
    exact ih (hknown ▸ hrest)

variable {live : ℤ → Bool}

lemma noteCluster_committed (c : ℤ)
    (h : Committed ((if t.memory.overdue now live c=true then 1 else 0) + n) t.txs) :
    let r := noteCluster now live c t
    r.2 = none ∧ Committed n r.1.txs := by
  have hquiet (hdue : t.memory.overdue now live c=false) : Committed n t.txs := by
    simpa [hdue] using h
  unfold noteCluster
  unfold Replica.overdue at h hquiet
  cases hlive : live c with
  | true => exact ⟨rfl,hquiet (by rw [hlive]; rfl)⟩
  | false =>
    cases hseen : t.memory.clusterPrimarySeen c with
    | none => exact ⟨rfl,hquiet (by rw [hseen]; simp)⟩
    | some last =>
      rw [hlive,hseen] at h hquiet
      simp only [Bool.false_eq_true,if_false]
      split_ifs with hzero hdue
      · exact ⟨rfl,hquiet (by simp [hzero])⟩
      · rw [if_pos (by simp [hzero,hdue]),add_comm] at h
        obtain ⟨hnone,hrest⟩ := emitEvents_committed
          [⟨.noPrimaryInCluster,some c,none,.headless c⟩] h
        rw [Attempt.andThen_pure,hnone]
        exact ⟨rfl,hrest⟩
      · refine ⟨rfl,hquiet ?_⟩
        simpa [hzero] using hdue

lemma Turn.overdue_congr {t' : Turn} (h : t'.spell c=t.spell c) :
    t'.memory.overdue now live c = t.memory.overdue now live c := by
  obtain ⟨hseen,hemitted,-⟩ := Spell.mk.inj h
  unfold Replica.overdue
  rw [hseen,hemitted]

lemma noteClusters_committed {order : List ℤ} (hnodup : order.Nodup)
    (h : Committed (order.countP (t.memory.overdue now live)) t.txs) :
    (Attempt.each (noteCluster now live) order t).2 = none := by
  induction order generalizing t with
  | nil => rfl
  | cons c order ih =>
    obtain ⟨hfresh,hnodup⟩ := nodup_cons.mp hnodup
    rw [countP_cons,add_comm] at h
    obtain ⟨hnone,hrest⟩ := noteCluster_committed c h
    -- The clusters behind this one are as they were.
    have hsame : order.countP ((noteCluster now live c t).1.memory.overdue now live) =
        order.countP (t.memory.overdue now live) := by
      refine countP_congr fun c' hmem => ?_
      rw [Turn.overdue_congr (noteCluster_spell_of_ne now live
        (ne_of_mem_of_not_mem hmem hfresh).symm t rfl)]
    rw [Attempt.each,Attempt.andThen_of_none hnone]
    exact ih hnodup (hsame ▸ hrest)

end Stores

section Rows
variable {rows : List EventRow}

lemma EventTable.suffix_insert (e : EventTable) (ts : Time) (evs : List Event) :
    e.rows <:+ (e.insert ts evs).rows := by
  induction evs generalizing e with
  | nil => exact suffix_rfl
  | cons ev evs ih => exact (suffix_cons _ _).trans (ih ⟨_,e.next+1⟩)

lemma emitEvents_adds (evs : List Event) :
    (emitEvents evs).Keeps fun t => rows <:+ t.events.rows := by
  intro t ht
  obtain ⟨tx,txs,_,heq⟩ | ⟨txs,_,heq⟩ := emitEvents_cases evs t
  · rw [heq]
    exact ht.trans (t.events.suffix_insert _ _)
  · rw [heq]
    exact ht

lemma announceAll_adds (instances : List InstanceRow) (round : Round) :
    (announceAll instances round).Keeps fun t => rows <:+ t.events.rows := by
  refine .andThen (loadAnnounced_keeps _ _ _ fun _ _ ht => ht) (.andThen (.each fun inst _ => ?_)
    (.each fun cid _ => ?_))
  · exact noteInstance_keeps _ (fun _ => emitEvents_adds _) (fun _ _ ht => ht)
  · exact noteCluster_keeps _ _ (emitEvents_adds _) (fun _ ht => ht) (fun _ _ ht => ht)

end Rows

def Replica.SameSpells (m m' : Replica) : Prop :=
  m'.clusterPrimarySeen = m.clusterPrimarySeen ∧ m'.clusterNoPrimaryEmitted=m.clusterNoPrimaryEmitted

lemma keepHouse_sameSpells (m : Replica) (round : Round) :
    (keepHouse round).Keeps fun t => m.SameSpells t.memory := by
  have hemit (evs : List Event) : (emitEvents evs).Keeps fun t => m.SameSpells t.memory := by
    intro t ht
    rw [emitEvents_memory]
    exact ht
  refine .andThen (evaluateSlots_keeps _ _ (fun _ => ⟨hemit _,hemit _⟩) fun _ _ _ ht => ht)
    (.andThen (fun t ht => ht) fun t ht => ?_)
  unfold purgeRetention purgeEvents purgeQueryTexts
  dsimp only
  cases round.purgedTexts <;> cases round.purgeScan <;> split_ifs <;> exact ht

lemma mem_clusterIDs_of_hasPrimary {now : Time} {instances : List InstanceRow} {c : ℤ}
    (h : clusterHasPrimary now instances c=true) : c ∈ clusterIDs instances := by
  obtain ⟨inst,hmem,hinst⟩ := any_eq_true.mp h
  simp only [Bool.and_eq_true,beq_iff_eq] at hinst
  simp only [clusterIDs,mem_dedup,mem_map,mem_filter]
  exact ⟨inst,⟨hmem,hinst.1.1.1⟩,hinst.1.1.2⟩

section World
variable {w : World} {r : ℕ} {round : Round}

lemma World.ensureLeader_sameSpells (w : World) (r : ℕ) (io : LeaderIO) (r' : ℕ) :
    (w.replicas r').SameSpells ((w.ensureLeader r io).2.replicas r') := by
  by_cases hr : r'=r
  · subst hr
    simp [World.ensureLeader,Replica.SameSpells]
  · simp [World.ensureLeader,update_of_ne hr,Replica.SameSpells]

lemma World.headless_announces (w : World) (r : ℕ) (round : Round) :
    headless (w.announces r round).1.events.rows =
      (w.look r round).headless++headless w.events.rows := by
  obtain ⟨new,hnew⟩ : w.events.rows <:+ (w.announces r round).1.events.rows :=
    announceAll_adds _ _ _ suffix_rfl
  simp only [World.look]
  rw [← hnew]
  simp [headless,filterMap_append]

lemma loadAnnounced_known {known : UUID → Option Bool} (h : known ∈ w.known r round) :
    let t := (w.ensureLeader r round.io).2.turn r round
    let a := loadAnnounced round.now w.instances round.announcedScan t
    a.2 = none ∧ a.1.txs=round.txs ∧ a.1.memory.instanceUp=known := by
  intro t a
  have ha : a = loadAnnounced round.now w.instances round.announcedScan t := rfl
  unfold World.known at h
  unfold loadAnnounced at ha
  by_cases hloaded : t.memory.announcedLoaded=true
  · rw [if_pos hloaded] at ha
    rw [ha]
    exact ⟨rfl,rfl,Option.some.inj ((if_pos hloaded).symm.trans h)⟩
  · obtain ⟨scan,hscan,rfl⟩ := Option.mem_map.mp (((if_neg hloaded).symm.trans h : _=some known))
    rw [if_neg hloaded,Option.mem_def.mp hscan] at ha
    rw [ha]
    exact ⟨rfl,rfl,rfl⟩

variable {before : Time → Time → Prop}

lemma World.Stores.announces (hp : round.Possible before w)
    (h : w.Stores r round) : (w.announces r round).2 = none := by
  obtain ⟨known,hknown,hcommitted⟩ := h
  have hnodup : round.order.Nodup := hp.order.nodup_iff.mpr (nodup_dedup _)
  obtain ⟨hloaded,htxs,hup⟩ := loadAnnounced_known hknown
  rw [← hp.order.countP_eq,← htxs,← hup] at hcommitted
  obtain ⟨hnoted,hrest⟩ := noteInstances_committed hcommitted
  unfold World.announces announceAll
  rw [Attempt.andThen_of_none hloaded,Attempt.andThen_of_none hnoted]
  refine noteClusters_committed hnodup ?_
  -- Neither the query nor the transitions loop touches what the replica has of the clusters.
  have hkeeps (c : ℤ) {s : Spell} :
      (Attempt.each (noteInstance round.now) w.instances).Keeps fun t => t.spell c = s :=
    .each fun inst _ => noteInstance_spell round.now inst
  have hload (c : ℤ) {s : Spell} :
      (loadAnnounced round.now w.instances round.announcedScan).Keeps fun t => t.spell c = s :=
    loadAnnounced_keeps _ _ _ fun _ _ ht => ht
  rwa [countP_congr fun c _ => ?_]
  rw [Turn.overdue_congr (hkeeps c _ (hload c _ rfl))]
  simp [World.turn,World.ensureLeader,Replica.overdue]

inductive Look.Notes (look : Look) (through : Prop) (m m' : Replica) (c : ℤ) : Prop
  | missed (silent : look.headless.count c=0)
      (seen : m'.clusterPrimarySeen c=m.clusterPrimarySeen c)
      (emitted : m'.clusterNoPrimaryEmitted c=m.clusterNoPrimaryEmitted c)
      (out : through → c ∉ look.clusters)
  | found (mem : c∈look.clusters) (live : look.live c=true) (silent : look.headless.count c=0)
      (seen : m'.clusterPrimarySeen c=some look.now)
  | dark (mem : c∈look.clusters) (live : look.live c=false) (silent : look.headless.count c=0)
      (seen : m'.clusterPrimarySeen c=m.clusterPrimarySeen c ∨
        m'.clusterPrimarySeen c=some look.now)
      (emitted : m'.clusterNoPrimaryEmitted c=m.clusterNoPrimaryEmitted c)
  | announced (last : Time) (mem : c∈look.clusters) (live : look.live c=false)
      (once : look.headless.count c=1)
      (before : m.clusterPrimarySeen c=some last ∧ m.clusterNoPrimaryEmitted c=false)
      (lapsed : noPrimaryThreshold<look.now.sub last)
      (seen : m'.clusterPrimarySeen c=m.clusterPrimarySeen c)
      (emitted : m'.clusterNoPrimaryEmitted c=true)

lemma World.look_notes (hp : round.Possible before w) (c : ℤ) :
    (w.look r round).Notes ((w.announces r round).2=none) (w.replicas r)
      (w.announces r round).1.memory c := by
  have hnodup : round.order.Nodup := hp.order.nodup_iff.mpr (nodup_dedup _)
  have horder : c∈round.order ↔ c ∈ clusterIDs w.instances := hp.order.mem_iff
  have hcount : (headless (w.announces r round).1.events.rows).count c =
      (w.look r round).headless.count c+(headless w.events.rows).count c := by
    rw [w.headless_announces,count_append]
  have hsilent (h : (headless (w.announces r round).1.events.rows).count c =
      (headless w.events.rows).count c) : (w.look r round).headless.count c = 0 := by omega
  have honce (h : (headless (w.announces r round).1.events.rows).count c =
      (headless w.events.rows).count c+1) : (w.look r round).headless.count c = 1 := by omega
  have hspell : ((w.ensureLeader r round.io).2.turn r round).spell c =
      ⟨(w.replicas r).clusterPrimarySeen c,(w.replicas r).clusterNoPrimaryEmitted c,
        (headless w.events.rows).count c⟩ := by
    simp [Turn.spell,World.turn,World.ensureLeader]
  have hpassed := announceAll_passed w.instances round hnodup c
    ((w.ensureLeader r round.io).2.turn r round)
  rw [hspell] at hpassed
  obtain ⟨hsame,hout⟩ | ⟨hmem,hnoted⟩ := hpassed
  · obtain ⟨hseen,hemitted,htold⟩ := Spell.mk.inj hsame
    exact .missed (hsilent htold) hseen hemitted fun hthrough => horder.not.mp (hout hthrough)
  · generalize hlive : clusterHasPrimary round.now w.instances c = live at hnoted
    generalize hs : (announceAll w.instances round _).1.spell c = s' at hnoted
    have hmem' := horder.mp hmem
    cases hnoted with
    | found =>
      obtain ⟨hseen,-,htold⟩ := Spell.mk.inj hs
      exact .found hmem' hlive (hsilent htold) hseen
    | first =>
      obtain ⟨hseen,hemitted,htold⟩ := Spell.mk.inj hs
      exact .dark hmem' hlive (hsilent htold) (.inr hseen) hemitted
    | quiet =>
      obtain ⟨hseen,hemitted,htold⟩ := Spell.mk.inj hs
      exact .dark hmem' hlive (hsilent htold) (.inl hseen) hemitted
    | announced hlast hlapsed hfirst =>
      obtain ⟨hseen,hemitted,htold⟩ := Spell.mk.inj hs
      exact .announced _ hmem' hlive (honce htold) ⟨hlast,hfirst⟩ hlapsed hseen hemitted

end World

lemma keepHouse_headless (l : List ℤ) (round : Round) :
    (keepHouse round).Keeps fun t => (headless t.events.rows).Sublist l := by
  have hemit (typ : EventType) (em : SlotEmission) (htyp : typ≠.noPrimaryInCluster) :
      (emitEvents [⟨typ,some em.clusterID,some em.instanceID,.slot em.slotName⟩]).Keeps
        fun t => (headless t.events.rows).Sublist l := by
    intro t ht
    obtain ⟨tx,txs,_,heq⟩ | ⟨txs,_,heq⟩ := emitEvents_cases
      [⟨typ,some em.clusterID,some em.instanceID,.slot em.slotName⟩] t
    · rw [heq]
      simpa [headless_insert,Event.headless,htyp] using ht
    · exact heq ▸ ht
  have hpurge : (purgeEvents round.now round.purgeScan).Keeps
      fun t => (headless t.events.rows).Sublist l := by
    intro t ht
    unfold purgeEvents
    dsimp only
    cases round.purgeScan with
    | none => split_ifs <;> exact ht
    | some f =>
      split_ifs
      · exact ht
      · exact (filter_sublist.filterMap _).trans ht
  refine .andThen (evaluateSlots_keeps _ _
    (fun em => ⟨hemit .slotInactive em (by decide),hemit .slotLost em (by decide)⟩)
    fun _ _ _ ht => ht) (.andThen (fun t ht => ht) fun t ht => hpurge _ ?_)
  unfold purgeQueryTexts
  dsimp only
  cases round.purgedTexts <;> split_ifs <;> exact ht

/-- What the replica of the last look must remember of the looks. -/
structure Recalls (m : Replica) (looks : List Look) : Prop where
  seen : ∀ look∈looks, ∀ c, look.live c = true →
    ∃ seen, m.clusterPrimarySeen c = some seen ∧ look.now.ns ≤ seen.ns
  emitted : ∀ c between earlier before, looks = between++earlier::before → c∈earlier.headless →
    (∀ seen∈between, seen.live c=false) → m.clusterNoPrimaryEmitted c = true

/-- The last leader remembers the looks, and no replica a cluster that was not evaluated. -/
structure Watched.Aware (x : Watched) : Prop where
  past : ∀ look∈x.looks, look.now.ns≤x.world.clock.ns
  within : ∀ look∈x.looks, ∀ c, look.live c = true ∨ c∈look.headless → c∈look.clusters
  known : ∀ r c, (x.world.replicas r).clusterPrimarySeen c ≠ none → ∃ look∈x.looks, c∈look.clusters
  recalls : ∀ last∈x.looks.head?, Recalls (x.world.replicas last.replica) x.looks
  justified : AtEach Look.Justified x.looks
  told : (headless x.world.events.rows).Sublist (x.looks.flatMap Look.headless)

section Looks
variable {look : Look} {looks : List Look} {through : Prop} {m m' : Replica}

lemma Look.Notes.of_mem_headless {c : ℤ} (h : look.Notes through m m' c) (hc : c∈look.headless) :
    c ∈ look.clusters ∧ look.live c = false ∧
      m.clusterNoPrimaryEmitted c = false ∧ m'.clusterNoPrimaryEmitted c = true ∧
      ∃ last, m.clusterPrimarySeen c = some last ∧ noPrimaryThreshold < look.now.sub last := by
  have hpos := count_pos_iff.mpr hc
  cases h with
  | missed silent => omega
  | found _ _ silent => omega
  | dark _ _ silent => omega
  | announced last mem live _ before lapsed _ emitted =>
    exact ⟨mem,live,before.2,emitted,last,before.1,lapsed⟩

lemma Look.Notes.of_live {c : ℤ} (h : look.Notes through m m' c) (hlive : look.live c=true)
    (hc : c∈look.clusters) (hthrough : through) : m'.clusterPrimarySeen c = some look.now := by
  cases h with
  | missed _ _ _ out => exact (out hthrough hc).elim
  | found _ _ _ seen => exact seen
  | dark _ live => simp [hlive] at live
  | announced _ _ live => simp [hlive] at live

lemma Look.Notes.seen {c : ℤ} (h : look.Notes through m m' c) :
    m'.clusterPrimarySeen c = m.clusterPrimarySeen c ∨
      c ∈ look.clusters ∧ m'.clusterPrimarySeen c = some look.now := by
  cases h with
  | missed _ seen => exact .inl seen
  | found mem _ _ seen => exact .inr ⟨mem,seen⟩
  | dark mem _ _ seen => exact seen.imp_right fun h => ⟨mem,h⟩
  | announced _ _ _ _ _ _ seen => exact .inl seen

lemma Look.Notes.emitted {c : ℤ} (h : look.Notes through m m' c) (hdark : look.live c=false)
    (hc : m.clusterNoPrimaryEmitted c=true) : m'.clusterNoPrimaryEmitted c = true := by
  cases h with
  | missed _ _ emitted => exact emitted.trans hc
  | found _ live => simp [hdark] at live
  | dark _ _ _ _ emitted => exact emitted.trans hc
  | announced _ _ _ _ _ _ _ emitted => exact emitted

/-- The look of a replica that recalls the looks before, or that finds a live primary
everywhere. -/
structure Look.Fits (look : Look) (looks : List Look) (through : Prop) (m m' : Replica) : Prop where
  notes : ∀ c, look.Notes through m m' c
  live : ∀ c, look.live c = true → c∈look.clusters ∧ through
  past : ∀ seen∈looks, seen.now.ns≤look.now.ns
  within : ∀ seen∈looks, ∀ c, seen.live c = true ∨ c∈seen.headless → c∈seen.clusters
  known : ∀ c, m.clusterPrimarySeen c ≠ none → ∃ seen∈looks, c∈seen.clusters
  informed : Recalls m looks ∨ ∀ seen∈looks, ∀ c∈seen.clusters, look.live c = true

lemma Look.Fits.recalls (h : look.Fits looks through m m') : Recalls m' (look::looks) := by
  have hfound (c : ℤ) (hlive : look.live c=true) : m'.clusterPrimarySeen c = some look.now :=
    (h.notes c).of_live hlive (h.live c hlive).1 (h.live c hlive).2
  constructor
  · intro seen hmem c hlive
    obtain rfl | hmem := mem_cons.mp hmem
    · exact ⟨_,hfound c hlive,le_rfl⟩
    · obtain hrec | hall := h.informed
      · obtain ⟨last,hlast,hle⟩ := hrec.seen seen hmem c hlive
        obtain hsame | ⟨_,hnow⟩ := (h.notes c).seen
        · exact ⟨last,hsame.trans hlast,hle⟩
        · exact ⟨_,hnow,h.past seen hmem⟩
      · exact ⟨_,hfound c (hall seen hmem c (h.within seen hmem c (.inl hlive))),h.past seen hmem⟩
  · intro c between earlier before hlooks hc hdark
    cases between with
    | nil =>
      obtain ⟨rfl,-⟩ := List.cons.inj hlooks
      exact ((h.notes c).of_mem_headless hc).2.2.2.1
    | cons newest between =>
      rw [cons_append] at hlooks
      obtain ⟨rfl,hrest⟩ := List.cons.inj hlooks
      have hnew : look.live c = false := hdark look (by simp)
      obtain hrec | hall := h.informed
      · exact (h.notes c).emitted hnew (hrec.emitted c between earlier before hrest hc
          fun seen hseen => hdark seen (by simp [hseen]))
      · have hmem : earlier∈looks := by simp [hrest]
        have hlive := hall earlier hmem c (h.within earlier hmem c (.inr hc))
        simp [hnew] at hlive

lemma Look.Fits.justified (h : look.Fits looks through m m') : look.Justified looks := by
  refine ⟨nodup_iff_count_le_one.mpr fun c => ?_,fun c hc => ?_⟩
  · cases h.notes c <;> omega
  · obtain ⟨-,hdark,hemitted,-,last,hlast,hlapsed⟩ := (h.notes c).of_mem_headless hc
    have hrec : Recalls m looks := by
      refine h.informed.resolve_right fun hall => ?_
      obtain ⟨seen,hmem,hc'⟩ := h.known c (by simp [hlast])
      simp [hall seen hmem c hc'] at hdark
    constructor
    · intro seen hmem hwithin
      obtain rfl | hmem := mem_cons.mp hmem
      · exact hdark
      · by_contra hlive
        obtain ⟨last',hlast',hle⟩ := hrec.seen seen hmem c (by simpa using hlive)
        obtain rfl : last=last' := Option.some.inj (hlast.symm.trans hlast')
        have := Time.lt_of_lt_sub (by decide) hlapsed
        omega
    · intro between earlier before hlooks hc'
      by_contra hnone
      have := hrec.emitted c between earlier before hlooks hc' fun seen hseen => by
        simpa using fun hlive => hnone ⟨seen,hseen,hlive⟩
      simp [hemitted] at this

end Looks

section Steps
variable {w : World} {x : Watched} {r : ℕ} {round : Round}

lemma World.evaluate_clock (w : World) (r : ℕ) (round : Round) :
    (w.evaluate r round).1.clock = (round.txs.map Tx.ts).getLast?.getD round.now := by
  unfold World.evaluate
  dsimp only
  split_ifs <;> rfl

lemma World.evaluate_of_not_leads (h : ¬w.Leads r round) :
    (∀ r', (w.replicas r').SameSpells ((w.evaluate r round).1.replicas r')) ∧
      (w.evaluate r round).1.events = w.events := by
  have hled := w.ensureLeader_sameSpells r round.io
  unfold World.evaluate
  dsimp only
  split_ifs with hfailed hreads hlock
  · exact ⟨hled,rfl⟩
  · exact ⟨hled,rfl⟩
  · exact ⟨hled,rfl⟩
  · exact (h ⟨hfailed,by simpa using hreads,by simpa using hlock⟩).elim

lemma World.evaluate_of_leads (h : w.Leads r round) :
    (w.announces r round).1.memory.SameSpells ((w.evaluate r round).1.replicas r) ∧
      (∀ r'≠r, (w.replicas r').SameSpells ((w.evaluate r round).1.replicas r')) ∧
      (headless (w.evaluate r round).1.events.rows).Sublist
        (headless (w.announces r round).1.events.rows) := by
  obtain ⟨hfailed,hreads,hlock⟩ := h
  have hrest (t : Turn × Option Fault) (ht : (announceAll w.instances round).andThen (keepHouse round)
        ((w.ensureLeader r round.io).2.turn r round)=t) :
      (w.announces r round).1.memory.SameSpells t.1.memory ∧
        (headless t.1.events.rows).Sublist (headless (w.announces r round).1.events.rows) := by
    rw [← ht]
    obtain ⟨e,_,heq⟩ | ⟨_,heq⟩ := Attempt.andThen_cases (announceAll w.instances round)
      (keepHouse round) ((w.ensureLeader r round.io).2.turn r round)
    · exact heq ▸ ⟨⟨rfl,rfl⟩,List.Sublist.refl _⟩
    · exact heq ▸ ⟨keepHouse_sameSpells _ round _ ⟨rfl,rfl⟩,
        keepHouse_headless _ round _ (List.Sublist.refl _)⟩
  unfold World.evaluate
  simp only [if_neg hfailed,hreads,hlock,Bool.not_true,Bool.false_eq_true,if_false]
  refine ⟨?_,fun r' hr => ?_,(hrest _ rfl).2⟩
  · rw [update_self]
    exact (hrest _ rfl).1
  · rw [update_of_ne hr]
    exact w.ensureLeader_sameSpells r round.io r'

lemma Replica.SameSpells.recalls {m m' : Replica} (h : m.SameSpells m') {looks : List Look}
    (hrec : Recalls m looks) : Recalls m' looks :=
  ⟨h.1 ▸ hrec.seen,h.2 ▸ hrec.emitted⟩

lemma Watched.Aware.fits (h : x.Aware) (hp : round.Possible NotAfter x.world)
    (hleads : x.world.Leads r round) (hi : Action.Informed x (.evaluate r round)) :
    (x.world.look r round).Fits x.looks ((x.world.announces r round).2=none)
      (x.world.replicas r) (x.world.announces r round).1.memory := by
  obtain ⟨hclock,-⟩ := pairwise_cons.mp hp.clock
  have hnow : x.world.clock.ns≤round.now.ns := hclock round.now (by simp)
  obtain ⟨htakeover,hfound⟩ := hi hleads
  refine ⟨World.look_notes hp,fun c hlive => ⟨mem_clusterIDs_of_hasPrimary hlive,?_⟩,
    fun seen hmem => (h.past seen hmem).trans hnow,h.within,h.known r,?_⟩
  · refine (hfound.resolve_right fun hdark => ?_).announces hp
    exact Bool.false_ne_true ((hdark c).symm.trans hlive)
  · cases hlooks : x.looks with
    | nil => exact .inr fun _ hmem => by simp at hmem
    | cons last older =>
      by_cases hr : last.replica=r
      · exact .inl (hlooks ▸ hr ▸ h.recalls last (by simp [hlooks]))
      · exact .inr (hlooks ▸ htakeover last (by simp [hlooks]) hr)

lemma Watched.Aware.evaluate (h : x.Aware) (hp : round.Possible NotAfter x.world)
    (hi : Action.Informed x (.evaluate r round)) : (x.step (.evaluate r round)).Aware := by
  obtain ⟨hclock,hreadings⟩ := pairwise_cons.mp hp.clock
  have hnow : x.world.clock.ns≤round.now.ns := hclock round.now (by simp)
  have hlast : round.now.ns ≤ ((round.txs.map Tx.ts).getLast?.getD round.now).ns :=
    (eq_or_before_lastReading hreadings round.now (by simp)).elim (fun heq => heq ▸ le_rfl) id
  have hclock' : (x.world.step (.evaluate r round)).clock = _ := x.world.evaluate_clock r round
  by_cases hleads : x.world.Leads r round
  · have hfits := h.fits hp hleads hi
    obtain ⟨hown,hothers,hrows⟩ := World.evaluate_of_leads hleads
    have hlooks : (x.step (.evaluate r round)).looks = x.world.look r round::x.looks :=
      if_pos hleads
    constructor <;> rw [hlooks]
    · intro look hmem
      rw [Watched.step,hclock']
      obtain rfl | hmem := mem_cons.mp hmem
      · exact hlast
      · exact (h.past look hmem).trans (hnow.trans hlast)
    · intro look hmem c hc
      obtain rfl | hmem := mem_cons.mp hmem
      · exact hc.elim (fun hlive => (hfits.live c hlive).1)
          fun hc => ((hfits.notes c).of_mem_headless hc).1
      · exact h.within look hmem c hc
    · intro r' c hc
      by_cases hr : r'=r
      · subst hr
        obtain hsame | ⟨hmem,-⟩ := (hfits.notes c).seen
        · obtain ⟨look,hmem,hc'⟩ := h.known r' c (by rwa [← hsame,← hown.1])
          exact ⟨look,by simp [hmem],hc'⟩
        · exact ⟨_,by simp,hmem⟩
      · obtain ⟨look,hmem,hc'⟩ := h.known r' c ((hothers r' hr).1 ▸ hc)
        exact ⟨look,by simp [hmem],hc'⟩
    · intro last hmem
      obtain rfl : x.world.look r round = last := by simpa using hmem
      exact hown.recalls hfits.recalls
    · exact ⟨hfits.justified,h.justified⟩
    · rw [flatMap_cons]
      exact hrows.trans (x.world.headless_announces r round ▸ h.told.append_left _)
  · obtain ⟨hsame,hevents⟩ := World.evaluate_of_not_leads hleads
    have hlooks : (x.step (.evaluate r round)).looks = x.looks := if_neg hleads
    constructor <;> rw [hlooks]
    · intro look hmem
      rw [Watched.step,hclock']
      exact (h.past look hmem).trans (hnow.trans hlast)
    · exact h.within
    · intro r' c hc
      exact h.known r' c ((hsame r').1 ▸ hc)
    · exact fun last hmem => (hsame last.replica).recalls (h.recalls last hmem)
    · exact h.justified
    · exact hevents ▸ h.told

lemma Watched.Aware.step (h : x.Aware) (a : Action) (hp : a.Possible NotAfter x.world)
    (hi : a.Informed x) : (x.step a).Aware := by
  cases a with
  | push instances => exact ⟨h.past,h.within,h.known,h.recalls,h.justified,h.told⟩
  | endSession c => exact ⟨h.past,h.within,h.known,h.recalls,h.justified,h.told⟩
  | evaluate r round => exact h.evaluate hp hi

lemma Watched.start_aware (instances : List InstanceRow) (clock : Time) :
    (Watched.start instances clock).Aware :=
  ⟨fun _ h => (by cases h),fun _ h => (by cases h),fun _ _ h => (h rfl).elim,fun _ h => (by cases h),
    trivial,.refl _⟩

end Steps

/-- In every run whose leaders are informed, each no_primary_in_cluster event is justified by the
evaluations before it, and the events in the table are those of the evaluations. -/
theorem no_primary_events_justified {instances : List InstanceRow} {clock : Time}
    {actions : List Action} {x : Watched}
    (hrun : Run (fun x a x' => x.Follows a x' ∧ a.Informed x) (Watched.start instances clock) actions x) :
    AtEach Look.Justified x.looks ∧
      (headless x.world.events.rows).Sublist (x.looks.flatMap Look.headless) := by
  have haware := hrun.invariant (P := Watched.Aware)
    (fun _ a _ h ⟨⟨hp,heq⟩,hi⟩ => heq ▸ h.step a hp hi) (Watched.start_aware instances clock)
  exact ⟨haware.justified,haware.told⟩

section Runs

instance (t u : Time) : Decidable (NotAfter t u) := inferInstanceAs (Decidable (_≤_))

instance (n : ℕ) (txs : List Tx) : Decidable (Committed n txs) := inferInstanceAs (Decidable (_ ∧ _))

def standbyAt (seconds : ℤ) : InstanceRow := ⟨1,7,⟨seconds*Duration.second,0⟩,.standby,false⟩

def lookAt (seconds : ℤ) : Round := evaluatesAt ((seconds-1000)*Duration.second) ((seconds-1000)*Duration.second) id

lemma lookAt_follows {x : Watched} {r : ℕ} {seconds : ℤ}
    (hclock : (x.world.clock::(lookAt seconds).now::(lookAt seconds).txs.map Tx.ts).Pairwise NotAfter)
    (horder : [7].Perm (clusterIDs x.world.instances)) :
    x.Follows (.evaluate r (lookAt seconds)) (x.step (.evaluate r (lookAt seconds))) :=
  ⟨evaluatesAt_possible (fun _ => .refl _) hclock horder,rfl⟩

/-- The cluster is announced 61 seconds after the first evaluation. -/
theorem no_primary_events_justified_standby :
    let x := ((Watched.start [standbyAt 1000] .zero).step (.evaluate 0 (lookAt 1000))).step
      (.evaluate 0 (lookAt 1061))
    headless x.world.events.rows = [7] ∧ AtEach Look.Justified x.looks ∧
      (headless x.world.events.rows).Sublist (x.looks.flatMap Look.headless) := by
  intro x
  have hrun : Run (fun x a x' => x.Follows a x' ∧ a.Informed x) (Watched.start [standbyAt 1000] .zero)
      [.evaluate 0 (lookAt 1000),.evaluate 0 (lookAt 1061)] x := by
    refine .cons ⟨lookAt_follows (by decide) (by decide),fun _ =>
        ⟨fun _ h => (by cases h),.inl ⟨_,rfl,?_⟩⟩⟩
      (.single ⟨lookAt_follows (by decide) (by decide),fun _ => ⟨fun last h hne => ?_,.inl ⟨_,rfl,?_⟩⟩⟩)
    · decide
    · obtain rfl := Option.some.inj h
      exact (hne rfl).elim
    · decide
  exact ⟨by decide,no_primary_events_justified hrun⟩

/-- The leader's session ends after its announcement, and another replica takes over. -/
def takeover : List Action :=
  [.evaluate 0 (lookAt 1000),.evaluate 0 (lookAt 1061),.endSession 0,.push [standbyAt 1062],
    .evaluate 1 (lookAt 1062),.evaluate 1 (lookAt 1123)]

/-- The new leader announces the cluster again, with no live primary since. -/
theorem announced_headless_twice :
    let x := takeover.foldl Watched.step (Watched.start [standbyAt 1000] .zero)
    Run Watched.Follows (Watched.start [standbyAt 1000] .zero) takeover x ∧
      headless x.world.events.rows = [7,7] ∧ ¬AtEach Look.Justified x.looks := by
  refine ⟨?_,by decide,fun h => ?_⟩
  · have hkept : ∀ inst ∈ [standbyAt 1000], ∃ inst' ∈ [standbyAt 1062], inst'.id=inst.id := by decide
    refine .cons (lookAt_follows ?_ ?_) (.cons (lookAt_follows ?_ ?_) (.cons ⟨trivial,rfl⟩
      (.cons ⟨hkept,rfl⟩ (.cons (lookAt_follows ?_ ?_) (.single (lookAt_follows ?_ ?_))))))
    all_goals decide
  · -- The new leader's first look is all there is between the two announcements.
    obtain ⟨seen,hseen,hlive⟩ := (h.1.2 7 (by decide)).2 [_] _ _ rfl (by decide)
    obtain rfl := mem_singleton.mp hseen
    exact absurd hlive (by decide)

end Runs

end Pglens.Staleness

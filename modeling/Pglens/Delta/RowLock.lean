import Pglens.Delta.Interleaving
import Pglens.Delta.Rates

/-! Process for one instance takes the instance's row lock, observes its counter samples through a
batch, commits the transaction, which stores the points and releases the lock, and commits the batch
last. Between the two commits another call can hold the lock and observe against baselines that do
not yet show the stored points. -/
namespace Pglens.Delta
open List Option Duration

/-- The call that holds the row lock, with its batch and the points it has staged. -/
structure Holder where
  call : ℕ
  batch : Batch
  points : List Point

structure Server where
  engine : Engine
  lock : Option Holder
  /-- Calls whose transaction has committed and whose Batch.Commit is still to come. -/
  stored : ℕ → Option Batch
  rows : List Point

inductive Call
  | lock (i : ℕ)
  | observe (o : Observation)
  | commitTx
  | rollback
  | batchCommit (i : ℕ)

/-- ON CONFLICT DO NOTHING: a row with the same series and timestamp is kept. -/
def insertPoint (rows : List Point) (p : Point) : List Point :=
  if rows.any fun q => q.key == p.key && q.ts.equal p.ts then rows else p::rows

def insertPoints (rows : List Point) (ps : List Point) : List Point := ps.foldl insertPoint rows

namespace Server

def init (e : Engine) : Server := ⟨e,none,fun _ => none,[]⟩

def step (s : Server) : Call → Option Server
  | .lock i =>
    match s.lock,s.stored i with
    | none,none => some { s with lock := some ⟨i,s.engine.begin,[]⟩ }
    | _,_ => none
  | .observe o => s.lock.map fun h =>
      let r := h.batch.observe s.engine o
      { s with
        engine := r.2.2
        lock := some { h with batch := r.2.1, points := h.points++r.1.1.toList } }
  | .commitTx => s.lock.map fun h =>
      { s with
        lock := none
        stored := Function.update s.stored h.call (some h.batch)
        rows := insertPoints s.rows h.points }
  | .rollback => s.lock.map fun _ => { s with lock := none }
  | .batchCommit i => (s.stored i).map fun b =>
      { s with
        engine := b.commit s.engine
        stored := Function.update s.stored i none }

/-- The observed sample is not more than maxGap behind the baseline it is compared with. -/
def NoRebase (s : Server) : Call → Prop
  | .observe o => ∀ h∈s.lock, ∀ p ∈ h.batch.view s.engine o.key,
      ¬Rebases s.engine.maxGap p o
  | _ => True

instance (s : Server) (a : Call) : Decidable (s.NoRebase a) := by
  cases a <;> unfold NoRebase <;> infer_instance

/-- No stored call still has to commit a baseline of the observed series. -/
def Settled (s : Server) : Call → Prop
  | .observe o => ∀ i b, s.stored i = some b → b.staged o.key = none
  | _ => True

/-- A step of an interleaving without clock-step rebase. -/
def Step (s : Server) (a : Call) (t : Server) : Prop := s.NoRebase a ∧ s.step a = some t

end Server

/-- Half-open intervals (TS - Seconds, TS] with no instant in common. -/
def Point.Apart (p q : Point) : Prop :=
  p.interval.2 ≤ q.interval.1 ∨ q.interval.2≤p.interval.1

/-- Stored points of one series with different timestamps cover no instant twice. -/
def RowsApart (rows : List Point) : Prop :=
  ∀ p∈rows, ∀ q∈rows, p.key=q.key → p.ts.ns≠q.ts.ns → p.Apart q

variable {rows : List Point} {p q : Point} {h : Holder} {b : Batch} {e : Engine} {o : Observation}
  {seen : SeriesKey → List ℤ}

lemma mem_insertPoint (h : q ∈ insertPoint rows p) : q∈rows ∨ q=p := by
  unfold insertPoint at h
  split_ifs at h
  · exact .inl h
  · exact (mem_cons.mp h).symm

lemma mem_insertPoints {ps : List Point} (h : q ∈ insertPoints rows ps) : q∈rows ∨ q∈ps := by
  induction ps generalizing rows with
  | nil => exact .inl h
  | cons p ps ih =>
    rcases ih h with h | h
    · rcases mem_insertPoint h with h | rfl
      · exact .inl h
      · exact .inr mem_cons_self
    · exact .inr (mem_cons_of_mem _ h)

/-- What a lock holder has staged: each point ends at or before the staged baseline of its
series, starts at or after the baseline the batch read, and follows the earlier ones. -/
structure Holder.Staging (h : Holder) : Prop where
  below : ∀ p∈h.points, ∃ st, h.batch.staged p.key = some st ∧ p.ts.ns ≤ st.ts.ns
  above : ∀ p∈h.points, ∀ r, h.batch.read p.key = some (some r) → r.ts.seconds≤p.interval.1
  ordered : h.points.Pairwise fun p q => p.key=q.key → p.interval.2≤q.interval.1

lemma Holder.Staging.apart (hs : h.Staging) (hp : p∈h.points)
    (hq : q∈h.points) (hk : p.key=q.key) (hne : p≠q) : p.Apart q := by
  have hsymm : Std.Symm fun p q : Point => p.key=q.key → p.Apart q :=
    ⟨fun _ _ h hk => (h hk.symm).symm⟩
  have hpw : h.points.Pairwise fun p q => p.key=q.key → p.Apart q :=
    hs.ordered.imp fun h hk => .inl (h hk)
  exact hpw.forall hp hq hne hk

/-- A stored point ends at or before the engine's baseline of its series, or before a
baseline that a stored call still has to commit. -/
def Server.Covered (s : Server) (p : Point) : Prop :=
  (∃ q, s.engine.prev p.key=some q ∧ p.ts.ns≤q.ts.ns) ∨
  ∃ i b st, s.stored i = some b ∧ b.staged p.key = some st ∧ p.ts.ns ≤ st.ts.ns

structure Server.Inv (s : Server) : Prop where
  holder : ∀ h, s.lock = some h → (∃ seen, h.batch.Behind s.engine seen) ∧ h.Staging
  pending : ∀ i b, s.stored i = some b → ∃ seen, b.Behind s.engine seen
  /-- The holder owes no earlier Batch.Commit of its own. -/
  callFree : ∀ h, s.lock = some h → s.stored h.call = none
  covered : ∀ p∈s.rows, s.Covered p
  /-- Every stored point of a series the holder has read ends before what it read. -/
  read : ∀ h, s.lock = some h → ∀ p∈s.rows, (h.batch.read p.key).isSome = true →
    ∃ r, h.batch.read p.key = some (some r) ∧ p.ts.ns≤r.ts.ns
  apart : RowsApart s.rows

lemma seconds_le {t u : Time} (h : t.ns≤u.ns) : t.seconds≤u.seconds := by
  have hq : (t.ns : ℚ) ≤ u.ns := by exact_mod_cast h
  simp only [Time.seconds,seconds]
  linarith

lemma batch_observe_read (b : Batch) (e : Engine) (o : Observation) (k : SeriesKey) :
    (b.observe e o).2.1.read k =
      if k=o.key then some ((b.read k).getD (e.prev k)) else b.read k := by
  by_cases h : k=o.key
  · subst h
    rw [if_pos rfl]
    exact load_read_self
  · rw [if_neg h]
    exact load_read_of_ne h

lemma batch_observe_point (hb : b.Started) (h : (b.observe e o).1.1=some p) :
    ∃ prev, b.view e o.key = some prev ∧ prev.ts.ns<o.ts.ns ∧ p = ratePoint prev o := by
  rw [(batch_observe_view hb o).1] at h
  obtain ⟨prev,hp,hr,rfl⟩ := observe_point h
  exact ⟨prev,hp,hr.1,rfl⟩

lemma Batch.Behind.view_advances (h : b.Behind e seen)
    (hr : ∀ p, b.view e o.key=some p → ¬Rebases e.maxGap p o) :
    Advances (b.view e) ((b.observe e o).2.1.view (b.observe e o).2.2) := by
  rw [(batch_observe_view h.started o).2.1]
  exact observe_advances_all (e := { e with prev := b.view e }) hr

lemma Batch.Started.view_of_read (hb : b.Started) {k : SeriesKey}
    (h : (b.read k).isSome=true) (e : Engine) : b.view e k = b.staged k := by
  obtain ⟨st,hs⟩ := isSome_iff_exists.mp ((hb k).symm.trans h)
  simp [Batch.view,hs]

theorem Holder.Staging.observe (hs : h.Staging) (hb : h.batch.Behind e seen)
    (hr : ∀ p, h.batch.view e o.key=some p → ¬Rebases e.maxGap p o) :
    Holder.Staging { h with
      batch := (h.batch.observe e o).2.1
      points := h.points++(h.batch.observe e o).1.1.toList } := by
  have hstarted := (batch_observe_view hb.started o (e := e)).2.2.2
  have hadv := hb.view_advances hr
  have hread := batch_observe_read h.batch e o
  have hmono : ∀ k st, h.batch.staged k = some st →
      ∃ st', (h.batch.observe e o).2.1.staged k = some st' ∧ st.ts.ns ≤ st'.ts.ns := by
    intro k st hst
    obtain ⟨st',hst',hle⟩ := hadv k st (Batch.view_of_staged hst e)
    have hk : ((h.batch.observe e o).2.1.read k).isSome = true := by
      rw [hread k]
      split_ifs
      · rfl
      · rw [hb.started k,hst]; rfl
    rw [hstarted.view_of_read hk] at hst'
    exact ⟨st',hst',hle⟩
  constructor
  · intro p hp
    rcases mem_append.mp hp with hp | hp
    · obtain ⟨st,hst,hle⟩ := hs.below p hp
      obtain ⟨st',hst',hle'⟩ := hmono p.key st hst
      exact ⟨st',hst',hle.trans hle'⟩
    · obtain ⟨prev,hprev,-,rfl⟩ := batch_observe_point hb.started (mem_toList.mp hp)
      have hl : (h.batch.load e o.key).staged o.key = h.batch.view e o.key :=
        load_staged_self hb.started
      obtain ⟨st,hst,hobs,-⟩ := observe_advances (h.batch.load e o.key).staged e.maxGap e.heap
        (o := o) (by rwa [hl])
      exact ⟨st,hst,hobs⟩
  · intro p hp r hrd
    rcases mem_append.mp hp with hp | hp
    · apply hs.above p hp r
      obtain ⟨st,hst,-⟩ := hs.below p hp
      have hsome : (h.batch.read p.key).isSome = true := by rw [hb.started p.key,hst]; rfl
      obtain ⟨r',hr'⟩ := isSome_iff_exists.mp hsome
      change (h.batch.observe e o).2.1.read p.key = some (some r) at hrd
      rw [hread p.key,hr'] at hrd
      rw [hr']
      split_ifs at hrd <;> exact hrd
    · obtain ⟨prev,hprev,hlt,rfl⟩ := batch_observe_point hb.started (mem_toList.mp hp)
      refine le_trans (seconds_le ?_) (ratePoint_start hlt)
      change (h.batch.observe e o).2.1.read o.key = some (some r) at hrd
      rw [hread o.key,if_pos rfl] at hrd
      obtain ⟨-,p,hp',hle⟩ := hb.base_le (Option.some.inj hrd)
      obtain rfl := Option.some.inj (hprev.symm.trans hp')
      exact hle
  · rw [pairwise_append]
    refine ⟨hs.ordered,?_,?_⟩
    · cases (h.batch.observe e o).1.1 <;> simp
    · intro p hp q hq hkey
      obtain ⟨prev,hprev,hlt,rfl⟩ := batch_observe_point hb.started (mem_toList.mp hq)
      obtain ⟨st,hst,hle⟩ := hs.below p hp
      have hpk : p.key=o.key := hkey
      rw [hpk] at hst
      rw [Batch.view_of_staged hst e] at hprev
      cases hprev
      exact (seconds_le hle).trans (ratePoint_start hlt)

namespace Server

lemma init_inv (e : Engine) : (init e).Inv where
  holder _ h := nomatch h
  pending _ _ h := nomatch h
  callFree _ h := nomatch h
  covered _ h := nomatch h
  read _ h := nomatch h
  apart _ h := nomatch h

variable {s t : Server} {i : ℕ}

lemma step_lock (hi : s.Inv) (h : s.step (.lock i)=some t) : t.Inv := by
  simp only [step] at h
  split at h
  · obtain rfl := Option.some.inj h
    refine ⟨?_,hi.pending,?_,hi.covered,?_,hi.apart⟩
    · intro h hl
      obtain rfl := Option.some.inj hl
      exact ⟨⟨_,begin_behind s.engine s.engine⟩,by constructor <;> simp⟩
    · intro h hl
      obtain rfl := Option.some.inj hl
      assumption
    · intro h hl p _ hr
      obtain rfl := Option.some.inj hl
      cases hr
  · cases h

lemma step_observe {o : Observation} (hi : s.Inv) (hn : s.NoRebase (.observe o))
    (hset : s.Settled (.observe o)) (h : s.step (.observe o)=some t) : t.Inv := by
  obtain ⟨g,hl,rfl⟩ := map_eq_some_iff.mp h
  obtain ⟨⟨seen,hb⟩,hs⟩ := hi.holder g hl
  have hr := hn g hl
  refine ⟨?_,?_,?_,hi.covered,?_,hi.apart⟩
  · intro h' hl'
    obtain rfl := Option.some.inj hl'
    exact ⟨⟨_,hb.observe hr⟩,hs.observe hb hr⟩
  · intro i b hst
    obtain ⟨seen',hb'⟩ := hi.pending i b hst
    exact ⟨seen',hb'.mono (Advances.refl _)⟩
  · intro h' hl'
    obtain rfl := Option.some.inj hl'
    exact hi.callFree g hl
  · intro h' hl' p hp hsome
    obtain rfl := Option.some.inj hl'
    have hread := batch_observe_read g.batch s.engine o p.key
    rw [hread] at hsome ⊢
    cases hrd : g.batch.read p.key with
    | some r =>
      obtain ⟨r',hr',hle⟩ := hi.read g hl p hp (by rw [hrd]; rfl)
      rw [hrd] at hr'
      exact ⟨r',by split_ifs <;> simpa using hr',hle⟩
    | none =>
      rw [hrd] at hsome
      by_cases hk : p.key=o.key
      · rw [if_pos hk]
        -- A first read: no stored call owes a baseline, so the engine covers every row.
        rcases hi.covered p hp with ⟨q,hq,hle⟩ | ⟨i,b,st,hst,hstg,-⟩
        · exact ⟨q,by simp [hq],hle⟩
        · rw [hk,hset i b hst] at hstg
          cases hstg
      · rw [if_neg hk] at hsome
        cases hsome

lemma holder_after_rows (hi : s.Inv) {h : Holder} (hl : s.lock=some h) {p q : Point}
    (hp : p∈s.rows) (hq : q∈h.points) (hk : p.key=q.key) : p.interval.2≤q.interval.1 := by
  obtain ⟨⟨seen,hb⟩,hs⟩ := hi.holder h hl
  obtain ⟨st,hst,-⟩ := hs.below q hq
  have hsome : (h.batch.read p.key).isSome = true := by rw [hk,hb.started q.key,hst]; rfl
  obtain ⟨r,hr,hle⟩ := hi.read h hl p hp hsome
  rw [hk] at hr
  exact (seconds_le hle).trans (hs.above q hq r hr)

lemma step_commitTx (hi : s.Inv) (h : s.step .commitTx=some t) : t.Inv := by
  obtain ⟨g,hl,rfl⟩ := map_eq_some_iff.mp h
  obtain ⟨hbe,hs⟩ := hi.holder g hl
  refine ⟨?_,?_,?_,?_,?_,?_⟩
  · intro h' hl'
    cases hl'
  · intro j b hb
    by_cases hj : j=g.call
    · subst hj
      obtain rfl : g.batch=b := by simpa using hb
      exact hbe
    · exact hi.pending j b (by simpa [hj] using hb)
  · intro h' hl'
    cases hl'
  · intro p hp
    rcases mem_insertPoints hp with hp | hp
    · rcases hi.covered p hp with hc | ⟨j,b,st,hst,hstg,hle⟩
      · exact .inl hc
      · by_cases hj : j=g.call
        · subst hj
          -- The call that is replaced here committed its batch before taking the lock again.
          exact absurd hst (by simp [hi.callFree g hl])
        · exact .inr ⟨j,b,st,by simpa [hj] using hst,hstg,hle⟩
    · obtain ⟨st,hst,hle⟩ := hs.below p hp
      exact .inr ⟨g.call,g.batch,st,by simp,hst,hle⟩
  · intro h' hl'
    cases hl'
  · intro p hp q hq hk hts
    rcases mem_insertPoints hp with hp | hp <;> rcases mem_insertPoints hq with hq | hq
    · exact hi.apart p hp q hq hk hts
    · exact .inl (holder_after_rows hi hl hp hq hk)
    · exact .inr (holder_after_rows hi hl hq hp hk.symm)
    · exact hs.apart hp hq hk (fun he => hts (by rw [he]))

lemma step_rollback (hi : s.Inv) (h : s.step .rollback=some t) : t.Inv := by
  obtain ⟨g,-,rfl⟩ := map_eq_some_iff.mp h
  exact ⟨by simp,hi.pending,by simp,hi.covered,by simp,hi.apart⟩

lemma step_batchCommit (hi : s.Inv) (h : s.step (.batchCommit i)=some t) : t.Inv := by
  obtain ⟨b,hb,rfl⟩ := map_eq_some_iff.mp h
  obtain ⟨seen,hbe⟩ := hi.pending i b hb
  have hadv := hbe.commit_advances
  refine ⟨?_,?_,?_,?_,hi.read,hi.apart⟩
  · intro h hl
    obtain ⟨⟨seen',hb'⟩,hs⟩ := hi.holder h hl
    exact ⟨⟨seen',hb'.mono hadv⟩,hs⟩
  · intro j c hc
    by_cases hj : j=i
    · subst hj
      simp at hc
    · obtain ⟨seen',hb'⟩ := hi.pending j c (by simpa [hj] using hc)
      exact ⟨seen',hb'.mono hadv⟩
  · intro h hl
    have hf := hi.callFree h hl
    by_cases hj : h.call=i
    · rw [hj,hb] at hf
      cases hf
    · simpa [hj] using hf
  · intro p hp
    rcases hi.covered p hp with ⟨q,hq,hle⟩ | ⟨j,c,st,hst,hstg,hle⟩
    · obtain ⟨q',hq',hle'⟩ := hadv p.key q hq
      exact .inl ⟨q',hq',hle.trans hle'⟩
    · by_cases hj : j=i
      · subst hj
        rw [hb] at hst
        obtain rfl := Option.some.inj hst
        obtain ⟨q,hq,hge⟩ := hbe.commit_ge hstg
        exact .inl ⟨q,hq,hle.trans hge⟩
      · exact .inr ⟨j,c,st,by simpa [hj] using hst,hstg,hle⟩

lemma step_inv (s : Server) (a : Call) (t : Server) (hi : s.Inv)
    (h : s.Settled a ∧ s.Step a t) : t.Inv := by
  obtain ⟨hset,hn,h⟩ := h
  cases a with
  | lock i => exact step_lock hi h
  | observe o => exact step_observe hi hn hset h
  | commitTx => exact step_commitTx hi h
  | rollback => exact step_rollback hi h
  | batchCommit i => exact step_batchCommit hi h

end Server

/-- Three envelopes of one instance. The third observes after the second has stored its
point and before the second's Batch.Commit. -/
def overlappingCalls : List Call :=
  [.lock 0,.observe (sampleAt 0 0),.commitTx,.batchCommit 0,
   .lock 1,.observe (sampleAt 60 60),.commitTx,
   .lock 2,.observe (sampleAt 120 180),.commitTx]

lemma overlappingCalls_rows :
    (Lib.exec (Lib.guarded Server.NoRebase Server.step) (Server.init (newEngine 0))
      overlappingCalls).map Server.rows =
      some [⟨⟨"m",1,"",""⟩,⟨120*second,0⟩,3/2,120⟩,
        ⟨⟨"m",1,"",""⟩,⟨60*second,0⟩,1,60⟩] := by
  decide +kernel

/-- The interval from second 0 to second 60 is stored twice. -/
theorem concurrent_envelopes_overlap :
    ∃ calls s, Lib.Run Server.Step (Server.init (newEngine 0)) calls s ∧ ¬RowsApart s.rows := by
  obtain ⟨s,hs,hrows⟩ := map_eq_some_iff.mp overlappingCalls_rows
  refine ⟨_,s,Lib.exec_guarded_run hs,?_⟩
  intro h
  rw [hrows] at h
  have hapart := h _ mem_cons_self _ (mem_cons_of_mem _ mem_cons_self) rfl (by decide)
  rcases hapart with h | h <;>
    norm_num [Point.interval,Time.seconds,seconds,second] at h

/-- In every interleaving in which a call observes a series only when every call that has
stored points with it has also committed its batch, stored points never overlap. -/
theorem settled_calls_store_apart (e : Engine) {calls : List Call} {s : Server}
    (h : Lib.Run (fun s a t => s.Settled a ∧ s.Step a t) (Server.init e) calls s) :
    RowsApart s.rows :=
  (h.invariant Server.step_inv (Server.init_inv e)).apart

/-- The second call observes the series behind the first one's Batch.Commit, and the two store
a point each, from second 0 to 60 and from 60 to 120. -/
theorem settled_calls_store_apart_two_points :
    ∃ s, Lib.Run (fun s a t => s.Settled a ∧ s.Step a t) (Server.init (newEngine 0))
      [.lock 0,.observe (sampleAt 0 0),.observe (sampleAt 60 60),.commitTx,.batchCommit 0,
        .lock 1,.observe (sampleAt 120 180),.commitTx] s ∧ s.rows.length=2 ∧ RowsApart s.rows := by
  have hnone : ∀ (i : ℕ) (b b' : Batch), Function.update (Function.update (fun _ => none) 0 (some b)) 0 none i =
      some b' → b'.staged (sampleAt 120 180).key = none := by
    intro i b b' h
    by_cases hi : i = 0 <;> simp [hi] at h
  have hrun : ∃ s, Lib.Run (fun s a t => s.Settled a ∧ s.Step a t) (Server.init (newEngine 0))
      [.lock 0,.observe (sampleAt 0 0),.observe (sampleAt 60 60),.commitTx,.batchCommit 0,
        .lock 1,.observe (sampleAt 120 180),.commitTx] s ∧ s.rows.length=2 := by
    refine ⟨_,.cons ⟨trivial,trivial,rfl⟩ (.cons ⟨(fun _ _ h => nomatch h),?_,rfl⟩
      (.cons ⟨(fun _ _ h => nomatch h),?_,rfl⟩ (.cons ⟨trivial,trivial,rfl⟩
        (.cons ⟨trivial,trivial,rfl⟩ (.cons ⟨trivial,trivial,rfl⟩
          (.cons ⟨fun i b' h => hnone i _ b' h,?_,rfl⟩ (.single ⟨trivial,trivial,rfl⟩))))))),?_⟩
    all_goals decide +kernel
  obtain ⟨s,h,hlen⟩ := hrun
  exact ⟨s,h,hlen,settled_calls_store_apart (newEngine 0) h⟩

end Pglens.Delta

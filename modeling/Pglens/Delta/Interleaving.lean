import Pglens.Lib.Runs
import Pglens.Delta.Batch

/-! Any number of batches and direct observations share one engine. The ghost fields record the
timestamps each open batch has observed and the timestamps of the calls that have taken effect: a
direct observation at once, a batch at its commit. -/
namespace Pglens.Delta
open Function Option

/-- One locked operation on the engine. A batch that is begun again under a number in use
abandons the earlier one. -/
inductive Op
  | begin (i : ℕ)
  | batchObserve (i : ℕ) (o : Observation)
  | commit (i : ℕ)
  | observe (o : Observation)

structure Sys where
  engine : Engine
  batches : ℕ → Option Batch
  /-- Ghost: what each open batch has observed, per series. -/
  seen : ℕ → SeriesKey → List ℤ
  /-- Ghost: what the calls that took effect staged or observed, per series. -/
  taken : SeriesKey → List ℤ

def stamp (s : Option State) : List ℤ := (s.map fun s => s.ts.ns).toList

namespace Sys

def init (e : Engine) : Sys := ⟨e,fun _ => none,fun _ _ => [],fun k => stamp (e.prev k)⟩

def step (s : Sys) : Op → Option Sys
  | .begin i => some { s with
      batches := update s.batches i (some s.engine.begin)
      seen := update s.seen i fun _ => [] }
  | .batchObserve i o => (s.batches i).map fun b =>
      let r := b.observe s.engine o
      { s with
        engine := r.2.2
        batches := update s.batches i (some r.2.1)
        seen := update s.seen i
          (update (s.seen i) o.key (o.ts.ns::s.seen i o.key)) }
  | .commit i => (s.batches i).map fun b =>
      { s with
        engine := b.commit s.engine
        batches := update s.batches i none
        taken := fun k => stamp (b.staged k)++s.seen i k++s.taken k }
  | .observe o => some { s with
      engine := (s.engine.observe o).2
      taken := update s.taken o.key (o.ts.ns::s.taken o.key) }

/-- No observation is more than maxGap behind the baseline it is compared with. -/
def NoRebase (s : Sys) : Op → Prop
  | .batchObserve i o => ∀ b ∈ s.batches i, ∀ p ∈ b.view s.engine o.key,
      ¬Rebases s.engine.maxGap p o
  | .observe o => ∀ p ∈ s.engine.prev o.key, ¬Rebases s.engine.maxGap p o
  | _ => True

instance (s : Sys) (a : Op) : Decidable (s.NoRebase a) := by
  cases a <;> unfold NoRebase <;> infer_instance

def Step (s : Sys) (a : Op) (t : Sys) : Prop := s.NoRebase a ∧ s.step a = some t

end Sys

/-- Every baseline of `b` is still there in `b'`, at the same time or later. -/
def Advances (b b' : Baselines) : Prop :=
  ∀ k p, b k = some p → ∃ p', b' k = some p' ∧ p.ts.ns≤p'.ts.ns

lemma Advances.refl (b : Baselines) : Advances b b := fun _ p h => ⟨p,h,le_rfl⟩

lemma Advances.trans {b c d : Baselines} (h : Advances b c) (g : Advances c d) : Advances b d := by
  intro k p hp
  obtain ⟨q,hq,hpq⟩ := h k p hp
  obtain ⟨r,hr,hqr⟩ := g k q hq
  exact ⟨r,hr,hpq.trans hqr⟩

/-- The baseline's timestamp is the largest of the list, which is empty when there is none. -/
def Largest (ts : List ℤ) : Option State → Prop
  | none => ts=[]
  | some p => p.ts.ns∈ts ∧ ∀ t∈ts, t≤p.ts.ns

/-- An open batch has read no baseline newer than the engine's, and its staged baselines are
at or after what it read and observed. -/
structure Batch.Behind (b : Batch) (e : Engine) (seen : SeriesKey → List ℤ) : Prop where
  started : b.Started
  read_le : ∀ k r, b.read k = some (some r) → ∃ p, e.prev k = some p ∧ r.ts.ns≤p.ts.ns
  staged_ge : ∀ k st, b.staged k = some st → ∀ r, b.read k = some (some r) → r.ts.ns ≤ st.ts.ns
  seen_le : ∀ k st, b.staged k = some st → ∀ t ∈ seen k, t ≤ st.ts.ns
  unseen : ∀ k, b.staged k = none → seen k = []

lemma begin_behind (e e' : Engine) : e.begin.Behind e' fun _ => [] where
  started := begin_started e
  read_le _ _ h := nomatch h
  staged_ge _ _ h := nomatch h
  seen_le _ _ h := nomatch h
  unseen _ _ := rfl

variable {b : Batch} {e : Engine} {seen : SeriesKey → List ℤ} {k : SeriesKey} {st : State}
  {o : Observation}

lemma Batch.Behind.mono {e' : Engine}
    (h : b.Behind e seen) (ha : Advances e.prev e'.prev) : b.Behind e' seen where
  started := h.started
  staged_ge := h.staged_ge
  seen_le := h.seen_le
  unseen := h.unseen
  read_le k r hr := by
    obtain ⟨p,hp,hle⟩ := h.read_le k r hr
    obtain ⟨p',hp',hle'⟩ := ha k p hp
    exact ⟨p',hp',hle.trans hle'⟩

lemma Batch.Started.staged_none (hb : b.Started) (h : b.read k=none) : b.staged k = none := by
  have hsome := hb k
  rw [h] at hsome
  simpa using hsome.symm

lemma Batch.view_of_staged (h : b.staged k=some st) (e : Engine) : b.view e k = some st := by
  simp [Batch.view,h]

lemma Batch.Behind.base_le (h : b.Behind e seen) {r : State}
    (hr : (b.read k).getD (e.prev k)=some r) :
    (∃ p, e.prev k=some p ∧ r.ts.ns≤p.ts.ns) ∧ ∃ p, b.view e k = some p ∧ r.ts.ns≤p.ts.ns := by
  cases hb : b.read k with
  | none =>
    rw [hb] at hr
    have hs := h.started.staged_none hb
    exact ⟨⟨r,hr,le_rfl⟩,r,by simpa [Batch.view,hs] using hr,le_rfl⟩
  | some r' =>
    rw [hb] at hr
    obtain rfl : r' = some r := hr
    obtain ⟨s,hs⟩ := isSome_iff_exists.mp ((h.started k).symm.trans (by rw [hb]; rfl))
    exact ⟨h.read_le _ _ hb,s,Batch.view_of_staged hs e,h.staged_ge _ _ hs _ hb⟩

/-- A batch's observation keeps it behind the engine, whose baselines it does not move. -/
theorem Batch.Behind.observe (h : b.Behind e seen)
    (hr : ∀ p, b.view e o.key=some p → ¬Rebases e.maxGap p o) :
    (b.observe e o).2.1.Behind (b.observe e o).2.2 (update seen o.key (o.ts.ns::seen o.key)) := by
  have hl : (b.load e o.key).staged o.key = b.view e o.key := load_staged_self h.started
  obtain ⟨st,hst,hobs,hprev,-⟩ := observe_advances (b.load e o.key).staged e.maxGap e.heap
    (o := o) (by rwa [hl])
  have hview : ∀ p, b.view e o.key = some p → p.ts.ns ≤ st.ts.ns := by rwa [hl] at hprev
  have hother : ∀ k, k≠o.key → (b.observe e o).2.1.staged k = b.staged k := by
    intro k hk
    change (Delta.observe (b.load e o.key).staged e.maxGap e.heap o).baselines k = b.staged k
    rw [observe_frame _ _ _ _ hk,load_staged_of_ne hk]
  have hself : (b.observe e o).2.1.staged o.key = some st := hst
  have hread : ∀ k, k≠o.key → (b.observe e o).2.1.read k = b.read k :=
    fun k hk => load_read_of_ne hk
  have hreadself : (b.observe e o).2.1.read o.key = some ((b.read o.key).getD (e.prev o.key)) :=
    load_read_self
  have hbase : ∀ r, (b.read o.key).getD (e.prev o.key) = some r →
      (∃ p, e.prev o.key=some p ∧ r.ts.ns≤p.ts.ns) ∧ r.ts.ns ≤ st.ts.ns := by
    intro r hr'
    obtain ⟨hle,p,hp,hle'⟩ := h.base_le hr'
    exact ⟨hle,hle'.trans (hview p hp)⟩
  constructor
  · exact (batch_observe_view h.started o).2.2.2
  · intro k r hk
    by_cases hko : k=o.key
    · subst hko
      rw [hreadself] at hk
      exact (hbase r (some.inj hk)).1
    · exact h.read_le k r (by rwa [hread k hko] at hk)
  · intro k s hs r hk
    by_cases hko : k=o.key
    · subst hko
      rw [hreadself] at hk
      rw [hself] at hs
      cases hs
      exact (hbase r (some.inj hk)).2
    · rw [hother k hko] at hs
      rw [hread k hko] at hk
      exact h.staged_ge k s hs r hk
  · intro k s hs t ht
    by_cases hko : k=o.key
    · subst hko
      rw [hself] at hs
      cases hs
      rw [update_self] at ht
      rcases List.mem_cons.mp ht with rfl | ht
      · exact hobs
      · cases hb : b.staged o.key with
        | none => rw [h.unseen _ hb] at ht; simp at ht
        | some s => exact (h.seen_le _ s hb t ht).trans (hview s (Batch.view_of_staged hb e))
    · rw [hother k hko] at hs
      rw [update_of_ne hko] at ht
      exact h.seen_le k s hs t ht
  · intro k hs
    by_cases hko : k=o.key
    · subst hko
      rw [hself] at hs
      cases hs
    · rw [hother k hko] at hs
      rw [update_of_ne hko]
      exact h.unseen k hs

lemma commitKey_ts {read : Option (Option State)} {s : State} (cur : State)
    (h : ∀ r, read=some (some r) → r.ts.ns ≤ s.ts.ns) :
    (commitKey read s (some cur)).ts.ns = max cur.ts.ns s.ts.ns := by
  unfold commitKey
  by_cases hlt : cur.ts.ns<s.ts.ns
  · simp [not_le.mpr hlt,max_eq_right hlt.le]
  · have hle := not_lt.mp hlt
    have hif : (!s.ts.after cur.ts) = true := by simpa using hle
    simp only [hif,if_true,max_eq_left hle]
    split
    · rename_i r
      split_ifs with hr
      · rfl
      · exact le_antisymm hle (not_not.mp hr ▸ h r rfl)
    · rfl

lemma Batch.Behind.commit_advances (h : b.Behind e seen) : Advances e.prev (b.commit e).prev := by
  intro k p hp
  cases hs : b.staged k with
  | none => exact ⟨p,by simp [Batch.commit,hs,hp],le_rfl⟩
  | some s =>
    refine ⟨commitKey (b.read k) s (some p),by simp [Batch.commit,hs,hp],?_⟩
    rw [commitKey_ts _ (h.staged_ge k s hs)]
    exact le_max_left _ _

lemma Batch.Behind.commit_ge (h : b.Behind e seen) (hs : b.staged k=some st) :
    ∃ p, (b.commit e).prev k = some p ∧ st.ts.ns≤p.ts.ns := by
  cases hp : e.prev k with
  | none => exact ⟨st,by simp [Batch.commit,hs,hp,commitKey],le_rfl⟩
  | some p =>
    refine ⟨commitKey (b.read k) st (some p),by simp [Batch.commit,hs,hp],?_⟩
    rw [commitKey_ts _ (h.staged_ge k st hs)]
    exact le_max_right _ _

lemma observe_advances_all (h : ∀ p, e.prev o.key=some p → ¬Rebases e.maxGap p o) :
    Advances e.prev (e.observe o).2.prev := by
  intro k p hp
  by_cases hk : k=o.key
  · subst hk
    obtain ⟨st,hst,-,hge,-⟩ := observe_advances _ _ e.heap h
    exact ⟨st,hst,hge p hp⟩
  · exact ⟨p,by rw [← hp]; exact observe_frame _ _ _ _ hk,le_rfl⟩

namespace Sys

/-- The invariant of an interleaving: each baseline is the newest of what was taken, and
every open batch is behind the engine. -/
structure Inv (s : Sys) : Prop where
  largest : ∀ k, Largest (s.taken k) (s.engine.prev k)
  behind : ∀ i b, s.batches i = some b → b.Behind s.engine (s.seen i)

lemma init_inv (e : Engine) : (init e).Inv where
  largest k := by
    simp only [init,stamp]
    cases e.prev k <;> simp [Largest]
  behind _ _ h := nomatch h

variable {s t : Sys} {i : ℕ} {o : Observation}

lemma step_begin (hi : s.Inv) (h : s.step (.begin i)=some t) :
    t.Inv ∧ Advances s.engine.prev t.engine.prev := by
  obtain rfl := some.inj h
  refine ⟨⟨hi.largest,?_⟩,Advances.refl _⟩
  intro j b hb
  by_cases hj : j=i
  · subst hj
    obtain rfl : s.engine.begin=b := by simpa using hb
    simpa using begin_behind s.engine s.engine
  · simp only [update_of_ne hj] at hb ⊢
    exact hi.behind j b hb

lemma step_batchObserve (hi : s.Inv) (hn : s.NoRebase (.batchObserve i o))
    (h : s.step (.batchObserve i o)=some t) : t.Inv ∧ Advances s.engine.prev t.engine.prev := by
  obtain ⟨b,hb,rfl⟩ := map_eq_some_iff.mp h
  refine ⟨⟨hi.largest,?_⟩,Advances.refl _⟩
  intro j c hc
  by_cases hj : j=i
  · subst hj
    obtain rfl : (b.observe s.engine o).2.1 = c := by simpa using hc
    simpa using (hi.behind j b hb).observe (hn b hb)
  · simp only [update_of_ne hj] at hc ⊢
    exact (hi.behind j c hc).mono (Advances.refl _)

lemma step_commit (hi : s.Inv) (h : s.step (.commit i)=some t) :
    t.Inv ∧ Advances s.engine.prev t.engine.prev := by
  obtain ⟨b,hb,rfl⟩ := map_eq_some_iff.mp h
  have hbe := hi.behind i b hb
  refine ⟨⟨?_,?_⟩,hbe.commit_advances⟩
  · intro k
    have hl := hi.largest k
    cases hs : b.staged k with
    | none =>
      simp only [Batch.commit,hs,stamp,hbe.unseen k hs]
      simpa using hl
    | some st =>
      have hseen := hbe.seen_le k st hs
      cases hp : s.engine.prev k with
      | none =>
        rw [hp] at hl
        simp only [Batch.commit,hs,hp,commitKey,stamp,Largest,show s.taken k=[] from hl]
        exact ⟨by simp,by simpa using hseen⟩
      | some p =>
        rw [hp] at hl
        have hts := commitKey_ts p (hbe.staged_ge k st hs)
        simp only [Batch.commit,hs,hp,Largest,stamp,hts]
        constructor
        · rcases max_choice p.ts.ns st.ts.ns with hm | hm
          · simp [hm,hl.1]
          · simp [hm]
        · intro u hu
          simp only [map_some,toList_some,List.mem_append,List.mem_cons,
            List.not_mem_nil,or_false] at hu
          rcases hu with (rfl | hu) | hu
          · exact le_max_right _ _
          · exact (hseen u hu).trans (le_max_right _ _)
          · exact (hl.2 u hu).trans (le_max_left _ _)
  · intro j c hc
    by_cases hj : j=i
    · subst hj
      simp at hc
    · simp only [update_of_ne hj] at hc
      exact (hi.behind j c hc).mono hbe.commit_advances

lemma step_observe (hi : s.Inv) (hn : s.NoRebase (.observe o))
    (h : s.step (.observe o)=some t) : t.Inv ∧ Advances s.engine.prev t.engine.prev := by
  obtain rfl := some.inj h
  have ha := observe_advances_all hn
  refine ⟨⟨?_,fun j c hc => (hi.behind j c hc).mono ha⟩,ha⟩
  intro k
  have hl := hi.largest k
  by_cases hk : k=o.key
  · subst hk
    obtain ⟨st,hst,hobs,hge,hst'⟩ := observe_advances _ _ s.engine.heap hn
    change Largest (update s.taken o.key _ o.key)
      ((Delta.observe s.engine.prev s.engine.maxGap s.engine.heap o).baselines o.key)
    rw [hst,update_self]
    constructor
    · rcases hst' with rfl | hst'
      · exact List.mem_cons_self
      · rw [hst'] at hl
        exact List.mem_cons_of_mem _ hl.1
    · intro u hu
      rcases List.mem_cons.mp hu with rfl | hu
      · exact hobs
      · cases hp : s.engine.prev o.key with
        | none => rw [hp] at hl; rw [show s.taken o.key=[] from hl] at hu; simp at hu
        | some p => rw [hp] at hl; exact (hl.2 u hu).trans (hge p hp)
  · change Largest (update s.taken o.key _ k)
      ((Delta.observe s.engine.prev s.engine.maxGap s.engine.heap o).baselines k)
    rw [observe_frame _ _ _ _ hk,update_of_ne hk]
    exact hl

lemma step_inv (s : Sys) (a : Op) (t : Sys) (hi : s.Inv) (h : s.Step a t) :
    t.Inv ∧ Advances s.engine.prev t.engine.prev := by
  obtain ⟨hn,h⟩ := h
  cases a with
  | begin i => exact step_begin hi h
  | batchObserve i o => exact step_batchObserve hi hn h
  | commit i => exact step_commit hi h
  | observe o => exact step_observe hi hn h

end Sys

/-- In every interleaving without clock-step rebase, from any engine, no baseline's timestamp
ever decreases, and it is always the largest timestamp staged or observed for its series by
the calls that have taken effect. -/
theorem late_commits_never_step_back (e : Engine) {before after : List Op} {s t : Sys}
    (hs : Lib.Run Sys.Step (Sys.init e) before s) (ht : Lib.Run Sys.Step s after t) :
    Advances s.engine.prev t.engine.prev ∧ ∀ k, Largest (t.taken k) (t.engine.prev k) := by
  have hstep := fun s a t hi h => (Sys.step_inv s a t hi h).1
  have hi := hs.invariant hstep (Sys.init_inv e)
  refine ⟨?_,(ht.invariant hstep hi).largest⟩
  exact ht.relates (R := fun s t => Advances s.engine.prev t.engine.prev)
    (fun s => Advances.refl _) (fun _ _ _ => Advances.trans) Sys.step_inv hi

/-- Two batches read the empty baseline of one series; the older sample commits last and
the engine keeps the newer one. -/
theorem late_commit_keeps_newer :
    ∃ s t, Lib.Run Sys.Step (Sys.init (newEngine 0))
      [.begin 0,.begin 1,.batchObserve 0 ⟨⟨"m",1,"",""⟩,⟨60,0⟩,1,none⟩,
        .batchObserve 1 ⟨⟨"m",1,"",""⟩,⟨120,0⟩,2,none⟩,.commit 1] s ∧
      Lib.Run Sys.Step s [.commit 0] t ∧ Advances s.engine.prev t.engine.prev ∧
      ∀ k, Largest (t.taken k) (t.engine.prev k) := by
  have hrun : ∃ s t, Lib.Run Sys.Step (Sys.init (newEngine 0))
      [.begin 0,.begin 1,.batchObserve 0 ⟨⟨"m",1,"",""⟩,⟨60,0⟩,1,none⟩,
        .batchObserve 1 ⟨⟨"m",1,"",""⟩,⟨120,0⟩,2,none⟩,.commit 1] s ∧
      Lib.Run Sys.Step s [.commit 0] t := by
    refine ⟨_,_,Lib.Run.cons ⟨trivial,rfl⟩ (Lib.Run.cons ⟨trivial,rfl⟩ (Lib.Run.cons ⟨?_,rfl⟩
      (Lib.Run.cons ⟨?_,rfl⟩ (Lib.Run.single ⟨trivial,rfl⟩)))),Lib.Run.single ⟨trivial,rfl⟩⟩ <;>
      decide +kernel
  obtain ⟨s,t,hs,ht⟩ := hrun
  exact ⟨s,t,hs,ht,late_commits_never_step_back (newEngine 0) hs ht⟩

end Pglens.Delta

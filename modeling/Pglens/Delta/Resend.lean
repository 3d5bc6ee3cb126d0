import Pglens.Delta.Batch

/-! After samples in time order, none of them more than the gap behind another of its series, every
one of them is late against the baseline its series ends with. So observing them again moves
nothing, also when the series began with a baseline ahead of them. -/
namespace Pglens.Delta
open List

/-- The samples of each series are in time order and within the gap of each other. -/
def Ordered (maxGap : ℤ) (os : List Observation) : Prop :=
  os.Pairwise fun a b => a.key=b.key → a.ts.ns≤b.ts.ns ∧ b.ts.sub a.ts ≤ maxGap

def Settled (b : Baselines) (maxGap : ℤ) (o : Observation) : Prop :=
  ∃ p, b o.key = some p ∧ Late maxGap p o

variable {b : Baselines} {maxGap : ℤ} {e : Engine} {os : List Observation}

lemma observe_settled {heap : ℕ} {o : Observation}
    (h : Settled b maxGap o) : observe b maxGap heap o = ⟨none,none,b,heap⟩ := by
  obtain ⟨p,hp,hl⟩ := h
  exact observe_late hp hl

lemma observe_settles (hgap : 0 ≤ maxGap) (heap : ℕ) (o : Observation) :
    Settled (observe b maxGap heap o).baselines maxGap o ∧
      ∀ a, Settled b maxGap a → (a.key=o.key → a.ts.ns≤o.ts.ns ∧ o.ts.sub a.ts ≤ maxGap) →
        Settled (observe b maxGap heap o).baselines maxGap a := by
  rcases (observe_cases b maxGap heap o).2 with ⟨hb,-,-,p,hp,hl⟩ | hb
  · rw [hb]
    exact ⟨⟨p,hp,hl⟩,fun a ha _ => ha⟩
  · rw [hb]
    refine ⟨⟨_,move_self b heap o,le_rfl,?_⟩,fun a ha hord => ?_⟩
    · exact (Time.sub_le le_rfl).trans (by simpa [movedState] using hgap)
    · by_cases hk : a.key=o.key
      · exact ⟨movedState heap o,by rw [hk]; exact move_self b heap o,hord hk⟩
      · obtain ⟨p,hp,hl⟩ := ha
        exact ⟨p,by rw [move_of_ne b heap hk]; exact hp,hl⟩

lemma observeAll_keeps_settled (hgap : 0≤e.maxGap) {a : Observation} (h : Settled e.prev e.maxGap a)
    (hord : ∀ o∈os, a.key=o.key → a.ts.ns≤o.ts.ns ∧ o.ts.sub a.ts ≤ e.maxGap) :
    Settled (e.observeAll os).2.prev e.maxGap a := by
  induction os generalizing e with
  | nil => exact h
  | cons o os ih =>
    have hone := (observe_settles hgap e.heap o).2 a h (hord o mem_cons_self)
    exact ih (e := (e.observe o).2) hgap hone fun o' ho' => hord o' (mem_cons_of_mem _ ho')

lemma observeAll_settles (hgap : 0≤e.maxGap)
    (h : Ordered e.maxGap os) : ∀ a∈os, Settled (e.observeAll os).2.prev e.maxGap a := by
  induction os generalizing e with
  | nil => exact fun a ha => nomatch ha
  | cons o os ih =>
    obtain ⟨hhead,htail⟩ := pairwise_cons.mp h
    intro a ha
    rcases mem_cons.mp ha with rfl | ha
    · exact observeAll_keeps_settled (e := (e.observe a).2) hgap (observe_settles hgap e.heap a).1
        hhead
    · exact ih (e := (e.observe o).2) hgap htail a ha

/-- What Batch.Commit makes of the baselines. -/
def Batch.install (b : Batch) (prev : Baselines) : Baselines := fun k =>
  match b.staged k with
  | none => prev k
  | some s => some (commitKey (b.read k) s (prev k))

lemma foldl_commit (bs : List Batch) (e : Engine) :
    bs.foldl (fun e (b : Batch) => b.commit e) e =
      { e with prev := bs.foldl (fun prev (b : Batch) => b.install prev) e.prev } := by
  induction bs generalizing e with
  | nil => rfl
  | cons b bs ih => exact ih (b.commit e)

lemma observeAll_staged_frame (b : Batch) (e : Engine) {k : SeriesKey}
    (h : ∀ o∈os, k≠o.key) : (b.observeAll e os).2.1.staged k = b.staged k := by
  induction os generalizing b e with
  | nil => rfl
  | cons o os ih =>
    have hk := h o mem_cons_self
    refine (ih _ _ fun o' ho' => h o' (mem_cons_of_mem _ ho')).trans ?_
    exact (observe_frame _ _ _ o hk).trans (load_staged_of_ne hk)

lemma batch_observeAll_append (b : Batch) (e : Engine) (os os' : List Observation) :
    let r := b.observeAll e os
    b.observeAll e (os++os') =
      (r.1++(r.2.1.observeAll r.2.2 os').1,(r.2.1.observeAll r.2.2 os').2) := by
  induction os generalizing b e with
  | nil => rfl
  | cons o os ih =>
    simp only [cons_append,Batch.observeAll]
    rw [ih]

section Begun
variable (e : Engine) (os : List Observation)

lemma begun_observeAll :
    let r := e.begin.observeAll e os
    r.1 = (e.observeAll os).1 ∧ { r.2.2 with prev := r.2.1.install e.prev } = (e.observeAll os).2 ∧
      r.2.2.prev = e.prev := by
  intro r
  obtain ⟨hout,hcommit,hprev⟩ := batch_observeAll_simulates (begin_started e)
    (fun _ _ h => nomatch h) (begin_view e) rfl rfl os
  refine ⟨hout,?_,hprev⟩
  rw [← hprev]
  exact hcommit

lemma install_begun {prev : Baselines} {k : SeriesKey} :
    let b := (e.begin.observeAll e os).2.1
    (prev k=e.prev k → b.install prev k=(e.observeAll os).2.prev k) ∧
      ((∀ o∈os, k≠o.key) → b.install prev k=prev k) := by
  intro b
  refine ⟨fun hk => ?_,fun hk => ?_⟩
  · have hinstall := congrFun (congrArg Engine.prev (begun_observeAll e os).2.1) k
    rw [← hinstall]
    change b.install prev k = b.install e.prev k
    unfold Batch.install
    rw [hk]
  · have hstaged : b.staged k = none := observeAll_staged_frame e.begin e hk
    unfold Batch.install
    rw [hstaged]

variable {e os}

lemma observeAll_settled (h : ∀ o∈os, Settled e.prev e.maxGap o) :
    (∀ out ∈ (e.observeAll os).1, out=(none,none)) ∧ (e.observeAll os).2 = e := by
  induction os with
  | nil => exact ⟨fun _ hout => absurd hout not_mem_nil,rfl⟩
  | cons o os ih =>
    have hone : e.observe o = ((none,none),e) := by
      unfold Engine.observe
      rw [observe_settled (h o mem_cons_self)]
    obtain ⟨hout,he⟩ := ih fun o' ho' => h o' (mem_cons_of_mem _ ho')
    simp only [Engine.observeAll,hone]
    refine ⟨fun out hm => ?_,he⟩
    rcases mem_cons.mp hm with rfl | hm
    · rfl
    · exact hout out hm

lemma begun_settled (h : ∀ o∈os, Settled e.prev e.maxGap o) :
    let r := e.begin.observeAll e os
    (∀ out∈r.1, out=(none,none)) ∧ r.2.2=e ∧ r.2.1.install e.prev = e.prev := by
  intro r
  obtain ⟨hout,hcommit,hprev⟩ := begun_observeAll e os
  obtain ⟨hquiet,hsame⟩ := observeAll_settled h
  rw [hsame] at hcommit
  have hinstall : r.2.1.install e.prev = e.prev := congrArg Engine.prev hcommit
  refine ⟨by rw [hout]; exact hquiet,?_,hinstall⟩
  rw [hinstall,← hprev] at hcommit
  exact hcommit

end Begun

end Pglens.Delta

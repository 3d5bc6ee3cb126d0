import Pglens.Delta.Engine

/-! A batch copies a baseline out of the engine the first time it observes a series and moves only
the copy. `Batch.view` is the map the batch works on: its staged baselines over the engine's. -/
namespace Pglens.Delta

/-- `read` holds, for each series the batch has observed, the engine baseline it started
from: `some none` when there was none. -/
structure Batch where
  staged : Baselines
  read : SeriesKey → Option (Option State)

def Engine.begin (_ : Engine) : Batch := ⟨fun _ => none,fun _ => none⟩

/-- The first observation of a series copies the engine's baseline into the batch. -/
def Batch.load (b : Batch) (e : Engine) (k : SeriesKey) : Batch :=
  match b.read k with
  | some _ => b
  | none =>
    { staged := match e.prev k with
        | some s => Function.update b.staged k (some s)
        | none => b.staged
      read := Function.update b.read k (some (e.prev k)) }

/-- Batch.Observe. The engine changes only in the heap it shares with the batch. -/
def Batch.observe (b : Batch) (e : Engine) (o : Observation) :
    (Option Point × Option ResetEvent) × Batch × Engine :=
  let b := b.load e o.key
  let r := Delta.observe b.staged e.maxGap e.heap o
  ((r.point,r.reset),{ b with staged := r.baselines },{ e with heap := r.heap })

/-- One key of the loop in Batch.Commit. -/
def commitKey (read : Option (Option State)) (s : State) : Option State → State
  | none => s
  | some cur =>
    if !s.ts.after cur.ts then
      match read with
      | some (some r) => if r≠cur then cur else s
      | _ => cur
    else s

def Batch.commit (b : Batch) (e : Engine) : Engine :=
  { e with prev := fun k =>
      match b.staged k with
      | none => e.prev k
      | some s => some (commitKey (b.read k) s (e.prev k)) }

/-- Engine.Observe on a sequence. -/
def Engine.observeAll (e : Engine) :
    List Observation → List (Option Point × Option ResetEvent) × Engine
  | [] => ([],e)
  | o::os =>
    let r := e.observe o
    let rest := r.2.observeAll os
    (r.1::rest.1,rest.2)

@[simp] lemma observeAll_maxGap (e : Engine) (os : List Observation) :
    (e.observeAll os).2.maxGap = e.maxGap := by
  induction os generalizing e with
  | nil => rfl
  | cons o os ih => exact ih (e.observe o).2

/-- Batch.Observe on a sequence. -/
def Batch.observeAll (b : Batch) (e : Engine) :
    List Observation → List (Option Point × Option ResetEvent) × Batch × Engine
  | [] => ([],b,e)
  | o::os =>
    let r := b.observe e o
    let rest := r.2.1.observeAll r.2.2 os
    (r.1::rest.1,rest.2)

/-- The baselines the batch works on. -/
def Batch.view (b : Batch) (e : Engine) : Baselines := fun k => (b.staged k).or (e.prev k)

/-- A series has a staged baseline exactly when the batch has read it. -/
def Batch.Started (b : Batch) : Prop := ∀ k, (b.read k).isSome = (b.staged k).isSome

lemma begin_started (e : Engine) : e.begin.Started := fun _ => rfl

@[simp] lemma begin_view (e : Engine) : e.begin.view e = e.prev := by
  funext k
  simp [Batch.view,Engine.begin]

lemma observe_isSome (b : Baselines) (maxGap : ℤ) (heap : ℕ) (o : Observation) :
    ((observe b maxGap heap o).baselines o.key).isSome = true := by
  rcases (observe_cases b maxGap heap o).2 with ⟨h,-,-,prev,hp,-⟩ | h
  · rw [h,hp]; rfl
  · rw [h,move_self]; rfl

section Load
variable {b : Batch} {e : Engine} {k : SeriesKey}

lemma load_staged_self (hb : b.Started) : (b.load e k).staged k = b.view e k := by
  have hk := hb k
  unfold Batch.load Batch.view
  cases hr : b.read k with
  | some r =>
    rw [hr] at hk
    obtain ⟨s,hs⟩ := Option.isSome_iff_exists.mp hk.symm
    simp [hs]
  | none =>
    rw [hr] at hk
    have hs : b.staged k = none := by simpa using hk.symm
    cases he : e.prev k with
    | none => simp [hs]
    | some s => simp [hs]

lemma load_staged_of_ne {k' : SeriesKey} (h : k'≠k) : (b.load e k).staged k' = b.staged k' := by
  unfold Batch.load
  cases b.read k with
  | some r => rfl
  | none => cases e.prev k <;> simp [h]

lemma load_read_of_ne {k' : SeriesKey} (h : k'≠k) : (b.load e k).read k' = b.read k' := by
  unfold Batch.load
  cases b.read k <;> simp [h]

lemma load_read_self : (b.load e k).read k = some ((b.read k).getD (e.prev k)) := by
  unfold Batch.load
  cases hr : b.read k <;> simp [hr]

end Load

variable {b : Batch} {e : Engine}

lemma batch_observe_view (hb : b.Started) (o : Observation) :
    let d := observe (b.view e) e.maxGap e.heap o
    (b.observe e o).1 = (d.point,d.reset) ∧
    (b.observe e o).2.1.view (b.observe e o).2.2 = d.baselines ∧
    (b.observe e o).2.2.heap = d.heap ∧ (b.observe e o).2.1.Started := by
  intro d
  have hl : (b.load e o.key).staged o.key = b.view e o.key := load_staged_self hb
  obtain ⟨hp,hr,hh,hk⟩ := observe_local e.maxGap e.heap hl
  have hsome := observe_isSome (b.load e o.key).staged e.maxGap e.heap o
  refine ⟨by simp only [Batch.observe,hp,hr,d],?_,hh,?_⟩
  · funext k
    by_cases h : k=o.key
    · subst h
      change Option.or ((observe (b.load e o.key).staged e.maxGap e.heap o).baselines o.key) _ = _
      rw [Option.or_of_isSome hsome]
      exact hk
    · change Option.or ((observe (b.load e o.key).staged e.maxGap e.heap o).baselines k) _ =
        (observe (b.view e) e.maxGap e.heap o).baselines k
      rw [observe_frame _ _ _ _ h,observe_frame _ _ _ _ h,load_staged_of_ne h]
      rfl
  · intro k
    by_cases h : k=o.key
    · subst h
      change ((b.load e o.key).read o.key).isSome = _
      rw [load_read_self]
      exact hsome.symm
    · change ((b.load e o.key).read k).isSome =
        ((observe (b.load e o.key).staged e.maxGap e.heap o).baselines k).isSome
      rw [load_read_of_ne h,observe_frame _ _ _ _ h,load_staged_of_ne h]
      exact hb k

/-- Without another operation in between, every recorded read is still the engine's baseline. -/
def Batch.Fresh (b : Batch) (e : Engine) : Prop := ∀ k r, b.read k = some r → r = e.prev k

lemma batch_observe_fresh (hf : b.Fresh e) (o : Observation) :
    (b.observe e o).2.1.Fresh (b.observe e o).2.2 := by
  intro k r h
  change r = e.prev k
  change (b.load e o.key).read k = some r at h
  by_cases hk : k=o.key
  · subst hk
    rw [load_read_self] at h
    cases hr : b.read o.key with
    | none => simpa [hr] using h.symm
    | some s =>
      have hs := hf _ _ hr
      simpa [hr,hs] using h.symm
  · rw [load_read_of_ne hk] at h
    exact hf k r h

lemma commit_fresh (hb : b.Started) (hf : b.Fresh e) :
    b.commit e = { e with prev := b.view e } := by
  unfold Batch.commit Batch.view
  congr 1
  funext k
  have hk := hb k
  cases hs : b.staged k with
  | none => simp
  | some s =>
    rw [hs] at hk
    obtain ⟨r,hr⟩ := Option.isSome_iff_exists.mp hk
    have he := hf k r hr
    rw [hr,he]
    cases e.prev k <;> simp [commitKey]

lemma batch_observeAll_simulates {d : Engine} (hb : b.Started) (hf : b.Fresh e)
    (hview : b.view e=d.prev) (hgap : d.maxGap=e.maxGap) (hheap : d.heap=e.heap)
    (os : List Observation) :
    let r := b.observeAll e os
    r.1 = (d.observeAll os).1 ∧ r.2.1.commit r.2.2 = (d.observeAll os).2 ∧
      r.2.2.prev = e.prev := by
  induction os generalizing b e d with
  | nil =>
    refine ⟨rfl,?_,rfl⟩
    change b.commit e = d
    rw [commit_fresh hb hf,hview]
    obtain ⟨prev,maxGap,heap⟩ := d
    simp_all
  | cons o os ih =>
    obtain ⟨hres,hv,hh,hs⟩ := batch_observe_view hb o (e := e)
    rw [hview,← hgap,← hheap] at hres hv hh
    obtain ⟨hrest,hcommit,hprev⟩ := ih (d := (d.observe o).2) hs (batch_observe_fresh hf o) hv hgap hh.symm
    refine ⟨?_,hcommit,hprev⟩
    change (b.observe e o).1::_ = (d.observe o).1::_
    rw [hrest,hres]
    rfl

/-- Begin, Batch.Observe of any sequence and Commit return what Engine.Observe returns and
leave the engine it leaves. Without Commit the baselines have not moved. -/
theorem batch_refines_observe (e : Engine) (os : List Observation) :
    (e.begin.observeAll e os).1 = (e.observeAll os).1 ∧
    (e.begin.observeAll e os).2.1.commit (e.begin.observeAll e os).2.2 = (e.observeAll os).2 ∧
    (e.begin.observeAll e os).2.2.prev = e.prev :=
  batch_observeAll_simulates (begin_started e) (fun _ _ h => nomatch h) (begin_view e) rfl rfl os

end Pglens.Delta

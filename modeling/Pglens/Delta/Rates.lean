import Pglens.Lib.Tiling
import Pglens.Delta.Batch
import Mathlib.Tactic.Ring
import Mathlib.Tactic.Linarith
import Mathlib.Tactic.NormNum
import Mathlib.Data.List.Forall2

/-! The samples of one series are cut into stretches where the baseline is restarted without a
point. The cut looks at the samples alone. Inside a stretch every sample behind the first moves the
baseline by one rate point over exactly the interval between the two, so times tile and increases
telescope. -/
namespace Pglens.Delta
open List Option

def resetsDiffer : Option Time → Option Time → Bool
  | some t,some t' => !t.equal t'
  | _,_ => false

/-- A sample that restarts the baseline without a point, given the sample last kept: the
first one, a reset, a gap over maxGap, or a backward step over maxGap. -/
def restarts (maxGap : ℤ) (o : Observation) : Option Observation → Bool
  | none => true
  | some kept =>
    if o.ts.after kept.ts then
      resetsDiffer o.statsReset kept.statsReset || decide (o.value<kept.value) ||
        decide (o.ts.sub kept.ts > maxGap)
    else decide (kept.ts.sub o.ts > maxGap)

/-- A duplicate, or a sample at most maxGap behind the one last kept. -/
def late (maxGap : ℤ) (kept o : Observation) : Bool :=
  !o.ts.after kept.ts && decide (kept.ts.sub o.ts ≤ maxGap)

/-- A stretch: the sample that restarts the baseline and those that are on time behind it. -/
structure Stretch where
  first : Observation
  rest : List Observation
  deriving DecidableEq

def Stretch.last (s : Stretch) : Observation := s.rest.getLastD s.first

/-- Cut a sequence of samples behind the stretch that is open. Late samples are left out. -/
def stretchesFrom (maxGap : ℤ) (cur : Option Stretch) : List Observation → List Stretch
  | [] => cur.toList
  | o::os =>
    if restarts maxGap o (cur.map Stretch.last) then
      cur.toList++stretchesFrom maxGap (some ⟨o,[]⟩) os
    else
      stretchesFrom maxGap (cur.map fun s =>
        if late maxGap s.last o then s else { s with rest := s.rest++[o] }) os

/-- The sample that a baseline of the series keeps. -/
@[simps]
def State.sample (k : SeriesKey) (s : State) : Observation :=
  ⟨k,s.ts,s.value,s.statsReset.map TimePtr.time⟩

/-- The stretches of one series, from the baseline the engine holds for it. -/
def Engine.stretches (e : Engine) (k : SeriesKey) (os : List Observation) : List Stretch :=
  stretchesFrom e.maxGap ((e.prev k).map fun s => ⟨s.sample k,[]⟩) os

def Point.interval (p : Point) : ℚ × ℚ := (p.ts.seconds-p.seconds,p.ts.seconds)

def Point.increase (p : Point) : ℚ := p.rate*p.seconds

/-- What the points of a stretch conserve: one for every sample on time, they tile the time
from its first sample to its last, no rate is negative, and the increases add up to the
counter's. -/
structure Stretch.Conserves (s : Stretch) (points : List Point) : Prop where
  each : points.map Point.ts = s.rest.map Observation.ts
  tiles : Lib.Tiles s.first.ts.seconds (points.map Point.interval) s.last.ts.seconds
  nonneg : ∀ p∈points, 0≤p.rate
  sum : (points.map Point.increase).sum = s.last.value-s.first.value

lemma start_conserves (o : Observation) : Stretch.Conserves ⟨o,[]⟩ [] where
  each := rfl
  tiles := rfl
  nonneg := by simp
  sum := by simp [Stretch.last]

lemma last_snoc (s : Stretch) (o : Observation) :
    ({ s with rest := s.rest++[o] } : Stretch).last = o := by
  simp [Stretch.last]

section Sample
variable {maxGap : ℤ} {k : SeriesKey} {prev : State} {o : Observation}

lemma resetsDiffer_sample (t : Option Time) (p : Option TimePtr) :
    resetsDiffer t (p.map TimePtr.time) = statsResetChanged t p := by
  cases t <;> cases p <;> rfl

lemma moved_sample (heap : ℕ) (o : Observation) : (movedState heap o).sample o.key = o := by
  obtain ⟨key,ts,value,reset⟩ := o
  cases reset <;> rfl

lemma late_sample : late maxGap (prev.sample k) o = true ↔ Late maxGap prev o := by
  simp [late,Late]

lemma restarts_sample_late (h : Late maxGap prev o) :
    restarts maxGap o (some (prev.sample k)) = false := by
  have hts : ¬ prev.ts.ns < o.ts.ns := not_lt.mpr h.1
  simpa [restarts,hts] using h.2

lemma restarts_sample_rates (h : Rates maxGap prev o) :
    restarts maxGap o (some (prev.sample k)) = false := by
  obtain ⟨hts,hs,hv,hle⟩ := h
  simp [restarts,resetsDiffer_sample,hts,hs,hv,hle]

lemma not_restarts (h : restarts maxGap o (some (prev.sample k))=false) :
    Late maxGap prev o ∨ Rates maxGap prev o := by
  simp only [restarts,State.sample_ts,State.sample_value,State.sample_statsReset,
    resetsDiffer_sample] at h
  by_cases hts : prev.ts.ns<o.ts.ns
  · simp [hts] at h
    exact .inr ⟨hts,h.1.1,h.1.2,h.2⟩
  · simp [hts] at h
    exact .inl ⟨not_lt.mp hts,h⟩

end Sample

lemma observeAll_not_both (e : Engine) (os : List Observation) :
    ∀ r ∈ (e.observeAll os).1, r.1=none ∨ r.2=none := by
  induction os generalizing e with
  | nil => simp [Engine.observeAll]
  | cons o os ih =>
    intro r hr
    rcases mem_cons.mp hr with rfl | hr
    · exact (observe_cases e.prev e.maxGap e.heap o).1
    · exact ih (e.observe o).2 r hr

variable {e : Engine} {o : Observation} {prev : State} {maxGap : ℤ} {s : Stretch} {k : SeriesKey}

lemma observe_late_eq (hp : e.prev o.key=some prev)
    (hl : Late e.maxGap prev o) : e.observe o = ((none,none),e) := by
  simp [Engine.observe,observe_late hp hl]

lemma restarts_spec (h : restarts e.maxGap o ((e.prev o.key).map (State.sample o.key))=true) :
    (e.observe o).1.1 = none ∧ (e.observe o).2.prev o.key = some (movedState e.heap o) := by
  unfold Engine.observe
  cases hp : e.prev o.key with
  | none => simp [observe_first hp]
  | some prev =>
    rw [hp,map_some] at h
    rcases rule_cases e.maxGap prev o with hl | hr | hr | hg | hr
    · exact absurd (h.symm.trans (restarts_sample_late hl)) (by decide)
    · simp [observe_rebase hp hr]
    · simp [observe_reset hp hr]
    · simp [observe_gap hp hg]
    · exact absurd (h.symm.trans (restarts_sample_rates hr)) (by decide)

lemma seconds_sub (a b : ℤ) : Duration.seconds (a-b) = Duration.seconds a-Duration.seconds b := by
  simp only [Duration.seconds]
  push_cast
  ring

lemma seconds_lt {a b : ℤ} (h : a<b) : Duration.seconds a < Duration.seconds b := by
  have hq : (a : ℚ) < b := by exact_mod_cast h
  simp only [Duration.seconds]
  linarith

lemma ratePoint_spec (hgap : maxGap<Duration.maxDuration) (hr : Rates maxGap prev o) :
    (ratePoint prev o).interval = (prev.ts.seconds,o.ts.seconds) ∧
    prev.ts.seconds < o.ts.seconds ∧ 0 ≤ (ratePoint prev o).rate ∧
    (ratePoint prev o).increase = o.value-prev.value := by
  obtain ⟨hts,-,hv,hle⟩ := hr
  have hsub : o.ts.sub prev.ts = o.ts.ns-prev.ts.ns := Time.sub_eq_of_le hgap hts.le hle
  have hlt : prev.ts.seconds<o.ts.seconds := seconds_lt hts
  have hdt : Duration.seconds (o.ts.sub prev.ts) = o.ts.seconds-prev.ts.seconds := by
    rw [hsub,seconds_sub]
    rfl
  have hpos : 0 < o.ts.seconds-prev.ts.seconds := sub_pos.mpr hlt
  refine ⟨?_,hlt,?_,?_⟩
  · simp only [Point.interval,ratePoint,hdt]
    congr 1
    ring
  · simp only [ratePoint,hdt]
    exact div_nonneg (sub_nonneg.mpr hv) hpos.le
  · simp only [Point.increase,ratePoint,hdt]
    exact div_mul_cancel₀ _ hpos.ne'

lemma ratePoint_start (h : prev.ts.ns<o.ts.ns) :
    prev.ts.seconds ≤ (ratePoint prev o).interval.1 := by
  have hle : ((o.ts.sub prev.ts : ℤ) : ℚ) ≤ o.ts.ns-prev.ts.ns := by
    exact_mod_cast Time.sub_le h.le
  simp only [Point.interval,ratePoint,Time.seconds,Duration.seconds]
  linarith

lemma Stretch.Conserves.snoc (hgap : maxGap<Duration.maxDuration) {points : List Point}
    (hs : s.Conserves points) (hlast : prev.sample k=s.last) (hr : Rates maxGap prev o) :
    ({ s with rest := s.rest++[o] } : Stretch).Conserves (points++[ratePoint prev o]) := by
  obtain ⟨hi,hlt,hn,hinc⟩ := ratePoint_spec hgap hr
  have hts : s.last.ts=prev.ts := by rw [← hlast]; rfl
  have hvalue : s.last.value=prev.value := by rw [← hlast]; rfl
  refine ⟨?_,?_,?_,?_⟩
  · simp [hs.each,ratePoint]
  · have htiles := hs.tiles
    rw [hts] at htiles
    rw [last_snoc,map_append,map_singleton,hi]
    exact htiles.snoc hlt
  · intro p hp
    rcases mem_append.mp hp with hp | hp
    · exact hs.nonneg p hp
    · obtain rfl := mem_singleton.mp hp
      exact hn
  · rw [last_snoc,map_append,sum_append,hs.sum,hvalue]
    simp [hinc]

lemma stretchesFrom_ne_nil (maxGap : ℤ) (s : Stretch) (os : List Observation) :
    stretchesFrom maxGap (some s) os ≠ [] := by
  induction os generalizing s with
  | nil => simp [stretchesFrom]
  | cons o os ih =>
    unfold stretchesFrom
    split_ifs
    · simp
    · exact ih _

theorem stretchesFrom_conserve (hgap : e.maxGap<Duration.maxDuration) {before : List Point}
    (hs : s.Conserves before) (hlast : (e.prev k).map (State.sample k)=some s.last)
    (os : List Observation) (hk : ∀ o∈os, o.key=k) :
    ∃ points, List.Forall₂ Stretch.Conserves (stretchesFrom e.maxGap (some s) os) points ∧
      points.flatten = before++(e.observeAll os).1.filterMap Prod.fst ∧
      ((e.observeAll os).2.prev k).map (State.sample k) =
        (stretchesFrom e.maxGap (some s) os).getLast?.map Stretch.last := by
  induction os generalizing e s before with
  | nil => exact ⟨[before],.cons hs .nil,by simp [Engine.observeAll],hlast⟩
  | cons o os ih =>
    obtain rfl : o.key=k := hk o (by simp)
    have hk' : ∀ o'∈os, o'.key=o.key := fun o' h => hk o' (by simp [h])
    have hgap' : (e.observe o).2.maxGap < Duration.maxDuration := hgap
    obtain ⟨prev,hprev,hsample⟩ := map_eq_some_iff.mp hlast
    simp only [stretchesFrom,map_some,Engine.observeAll]
    by_cases hr : restarts e.maxGap o (some s.last) = true
    · obtain ⟨hp,hb⟩ := restarts_spec (hlast ▸ hr)
      obtain ⟨points,hall,hpts,hend⟩ := ih hgap' (start_conserves o)
        (by rw [hb,map_some,moved_sample]; rfl) hk'
      rw [if_pos hr,toList_some,singleton_append,
        List.getLast?_cons_of_ne_nil (stretchesFrom_ne_nil e.maxGap ⟨o,[]⟩ os)]
      exact ⟨before::points,.cons hs hall,by simp [hpts,hp],hend⟩
    · rw [if_neg hr]
      rw [Bool.not_eq_true,← hsample] at hr
      rcases not_restarts hr with hl | hr
      · have hsame : e.observe o = ((none,none),e) := observe_late_eq hprev hl
        rw [if_pos (hsample ▸ late_sample.mpr hl),hsame]
        exact ih hgap hs hlast hk'
      · have hrate : e.observe o = ((some (ratePoint prev o),none),
            { e with prev := move e.prev e.heap o, heap := moveHeap e.heap o }) := by
          rw [Engine.observe,observe_rate hprev hr]
        have hon : ¬late e.maxGap s.last o = true :=
          hsample ▸ fun hl => absurd (late_sample.mp hl).1 hr.1.not_ge
        obtain ⟨points,hall,hpts,hend⟩ := ih hgap' (hs.snoc hgap hsample hr)
          (by rw [hrate,last_snoc]; simp [moved_sample]) hk'
        rw [if_neg hon]
        exact ⟨points,hall,by rw [hpts]; simp [hrate],hend⟩

/-- For every stretch, which is cut out of the samples of a series alone, the engine emits one point
for each sample on time; these tile its time with non-negative rates whose increases add up to the
counter's. It emits no other points. A duplicate or slightly late sample changes nothing, and no
sample yields both a point and a reset. -/
theorem rates_conserve_counter (e : Engine) (hgap : e.maxGap<Duration.maxDuration)
    (k : SeriesKey) (os : List Observation) (hk : ∀ o∈os, o.key=k) :
    (∃ points, List.Forall₂ (fun s ps => s.Conserves ps ∧
        (ps.map Point.interval).Pairwise fun i j => i.2≤j.1) (e.stretches k os) points ∧
      points.flatten=(e.observeAll os).1.filterMap Prod.fst) ∧
    ((e.observeAll os).2.prev k).map (State.sample k) =
      (e.stretches k os).getLast?.map Stretch.last ∧
    (∀ done o rest, os=done++o::rest → ∀ s, (e.stretches k done).getLast?=some s →
      late e.maxGap s.last o=true →
        (e.observeAll done).2.observe o=((none,none),(e.observeAll done).2)) ∧
    ∀ r ∈ (e.observeAll os).1, r.1=none ∨ r.2=none := by
  have hkept : ∀ os, (∀ o∈os, o.key=k) → ∃ points,
      List.Forall₂ Stretch.Conserves (e.stretches k os) points ∧
        points.flatten = (e.observeAll os).1.filterMap Prod.fst ∧
        ((e.observeAll os).2.prev k).map (State.sample k) =
          (e.stretches k os).getLast?.map Stretch.last := by
    intro os hk
    unfold Engine.stretches
    cases hp : e.prev k with
    | some prev =>
      exact stretchesFrom_conserve hgap (start_conserves _) (by rw [hp]; rfl) os hk
    | none =>
      -- The first sample opens the first stretch.
      cases os with
      | nil => exact ⟨[],.nil,rfl,by rw [Engine.observeAll,hp]; rfl⟩
      | cons o os =>
        obtain rfl : o.key=k := hk o (by simp)
        obtain ⟨hfirst,hb⟩ := restarts_spec (e := e) (o := o) (by rw [hp]; rfl)
        obtain ⟨points,hall,hpts,hend⟩ := stretchesFrom_conserve (e := (e.observe o).2) hgap
          (start_conserves o) (by rw [hb,map_some,moved_sample]; rfl) os
          fun o' h => hk o' (by simp [h])
        exact ⟨points,hall,by simp [hpts,hfirst,Engine.observeAll],hend⟩
  obtain ⟨points,hall,hpts,hend⟩ := hkept os hk
  refine ⟨⟨points,hall.imp fun s ps h => ⟨h,h.tiles.pairwise⟩,hpts⟩,hend,?_,observeAll_not_both e os⟩
  intro done o rest hos s hs hl
  obtain rfl : o.key=k := hk o (by simp [hos])
  obtain ⟨-,-,-,hdone⟩ := hkept done fun o' h => hk o' (by simp [hos,h])
  rw [hs,map_some] at hdone
  obtain ⟨prev,hprev,hsample⟩ := map_eq_some_iff.mp hdone
  rw [← hsample] at hl
  exact observe_late_eq hprev (by rw [observeAll_maxGap]; exact late_sample.mp hl)

/-- One sample of a fixed series, at a second and with a counter value. -/
def sampleAt (second : ℤ) (value : ℚ) : Observation :=
  ⟨⟨"m",1,"",""⟩,⟨second*Duration.second,0⟩,value,none⟩

/-- The server's engine, with its default of ten minutes: two samples on time behind the first,
a late one between them, and a sample that went backwards with one behind it. -/
theorem rates_conserve_restart :
    let os := [sampleAt 0 5,sampleAt 60 65,sampleAt 30 40,sampleAt 90 70,
      sampleAt 120 1,sampleAt 180 4]
    let kept : List Stretch := [⟨sampleAt 0 5,[sampleAt 60 65,sampleAt 90 70]⟩,
      ⟨sampleAt 120 1,[sampleAt 180 4]⟩]
    (newEngine 0).stretches ⟨"m",1,"",""⟩ os = kept ∧
    ∃ points, List.Forall₂ (fun s ps => s.Conserves ps ∧
        (ps.map Point.interval).Pairwise fun i j => i.2≤j.1) kept points ∧
      points.flatten = ((newEngine 0).observeAll os).1.filterMap Prod.fst := by
  intro os kept
  have hkept : (newEngine 0).stretches ⟨"m",1,"",""⟩ os = kept := by decide
  have hrates := rates_conserve_counter (newEngine 0) (by decide) ⟨"m",1,"",""⟩ os (by simp [os,sampleAt])
  exact ⟨hkept,hkept ▸ hrates.1⟩


end Pglens.Delta

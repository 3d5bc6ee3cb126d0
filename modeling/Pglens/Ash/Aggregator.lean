import Pglens.Lib.Ranking
import Pglens.Lib.Tally
import Pglens.Lib.Text
import Pglens.Time
import Mathlib.Algebra.BigOperators.Group.List.Lemmas
import Mathlib.Data.Bool.Basic
import Mathlib.Data.List.Forall2

/-! The aggregator of internal/ash counts the samples of a window by key and closes the window at a
flush. The smallest counts beyond the largest number of keys become one count. The mutex makes the
calls a sequence. -/
namespace Pglens.Ash.Windows
open Pglens.Lib List

structure Key where
  datname : Text
  waitEventType : Text
  waitEvent : Text
  state : Text
  queryID : ℤ
  hasQueryID : Bool
  deriving DecidableEq, Repr

def otherKey : Key := ⟨[],Text.ascii "other",Text.ascii "other",Text.ascii "other",0,false⟩

structure Bucket where
  key : Key
  samples : ℕ
  deriving DecidableEq, Repr

structure Window where
  start : Time
  till : Time
  ticks : ℕ
  failedTicks : ℕ
  buckets : List Bucket
  truncated : Bool
  deriving DecidableEq, Repr

/-- Aggregator, without the clock and the window length, which no function but now reads. -/
structure Aggregator where
  maxKeys : ℤ
  start : Time
  started : Bool
  counts : Tally Key ℕ
  ticks : ℕ
  failed : ℕ

section Code

def new (maxKeys : ℤ) : Aggregator :=
  ⟨if maxKeys<1 then 1 else maxKeys,Time.zero,false,Tally.empty,0,0⟩

def ensureStarted (a : Aggregator) (now : Time) : Aggregator :=
  if !a.started then { a with start := now, started := true } else a

def keyOf (datname state wet we : Text) (queryID : Option ℤ) : Key :=
  ⟨datname,wet,we,state,queryID.getD 0,queryID.isSome⟩

def add (a : Aggregator) (now : Time) (k : Key) : Aggregator :=
  let a := ensureStarted a now
  { a with counts := a.counts.add k 1 }

def tickFailed (a : Aggregator) (now : Time) : Aggregator :=
  let a := ensureStarted a now
  { a with failed := a.failed+1 }

def tickSucceeded (a : Aggregator) (now : Time) : Aggregator :=
  let a := ensureStarted a now
  { a with ticks := a.ticks+1 }

def keyLess (a b : Key) : Bool :=
  if a.datname≠b.datname then ascending a.datname b.datname
  else if a.waitEventType≠b.waitEventType then ascending a.waitEventType b.waitEventType
  else if a.waitEvent≠b.waitEvent then ascending a.waitEvent b.waitEvent
  else if a.state≠b.state then ascending a.state b.state
  else if a.hasQueryID≠b.hasQueryID then !a.hasQueryID
  else ascending a.queryID b.queryID

def bucketLess (a b : Bucket) : Bool :=
  if a.samples≠b.samples then descending a.samples b.samples else keyLess a.key b.key

variable (s : SliceSort Bucket) (r : Ranging Bucket)

def capConserved (counts : Tally Key ℕ) (maxKeys : ℤ) : List Bucket × Bool :=
  if counts.entries.length=0 then ([],false)
  else
    let buckets := r.visit (counts.entries.map fun e => ⟨e.1,e.2⟩)
    let sorted := s.sort bucketLess buckets
    if (buckets.length : ℤ) ≤ maxKeys then (sorted,false)
    else
      let keep := if maxKeys-1 < 0 then 0 else maxKeys-1
      let kept := sorted.take keep.toNat
      let otherTotal := ((sorted.drop keep.toNat).map Bucket.samples).sum
      (kept++if 0<otherTotal then [⟨otherKey,otherTotal⟩] else [],true)

def flush (a : Aggregator) (now : Time) : Window × Aggregator :=
  let start := if !a.started then now else a.start
  let capped := capConserved s r a.counts a.maxKeys
  (⟨start,now,a.ticks,a.failed,capped.1,capped.2⟩,
    { a with counts := Tally.empty, ticks := 0, failed := 0, start := now, started := true })

end Code

/-- The calls, with what the clock reads in them. Flush is given its time, and visits the counts
in an order of its own. -/
inductive Call
  | add (now : Time) (datname state wet we : Text) (queryID : Option ℤ)
  | tickSucceeded (now : Time)
  | tickFailed (now : Time)
  | flush (r : Ranging Bucket) (now : Time)

def windows (s : SliceSort Bucket) : Aggregator → List Call → List Window
  | _, [] => []
  | a, .add now datname state wet we queryID::calls => windows s (add a now (keyOf datname state wet we queryID)) calls
  | a, .tickSucceeded now::calls => windows s (tickSucceeded a now) calls
  | a, .tickFailed now::calls => windows s (tickFailed a now) calls
  | a, .flush r now::calls => (flush s r a now).1::windows s (flush s r a now).2 calls

section Order

/-- The fields of a key in the order in which they are compared. -/
def keyFields (k : Key) : Text × Text × Text × Text × Bool × ℤ :=
  (k.datname,k.waitEventType,k.waitEvent,k.state,k.hasQueryID,k.queryID)

lemma keyLess_eq (a b : Key) : keyLess a b =
    lexLess ascending (lexLess ascending (lexLess ascending (lexLess ascending (lexLess ascending ascending))))
      (keyFields a) (keyFields b) := by
  have hbool : (if a.hasQueryID≠b.hasQueryID then !a.hasQueryID else ascending a.queryID b.queryID) =
      if a.hasQueryID≠b.hasQueryID then ascending a.hasQueryID b.hasQueryID else ascending a.queryID b.queryID := by
    cases a.hasQueryID <;> cases b.hasQueryID <;> rfl
  simp only [keyLess,lexLess,keyFields,hbool]
  congr

lemma strictTotal_bucketLess (l : List Bucket) : StrictTotalOn bucketLess l := by
  have hfields := strictTotal_descending (α := ℕ) |>.lexLess (strictTotal_ascending (α := Text) |>.lexLess
    (strictTotal_ascending (α := Text) |>.lexLess (strictTotal_ascending (α := Text) |>.lexLess
      (strictTotal_ascending (α := Text) |>.lexLess (strictTotal_ascending (α := Bool) |>.lexLess
        (strictTotal_ascending (α := ℤ)))))))
  have heq : bucketLess = fun a b => lexLess descending (lexLess ascending (lexLess ascending (lexLess ascending
      (lexLess ascending (lexLess ascending ascending))))) (a.samples,keyFields a.key) (b.samples,keyFields b.key) := by
    funext a b
    simp only [bucketLess,keyLess_eq]
    rfl
  rw [heq]
  refine hfields.comap_on (fun b : Bucket => (b.samples,keyFields b.key)) fun a _ b _ h => ?_
  obtain ⟨⟨_,_,_,_,_,_⟩,_⟩ := a
  obtain ⟨⟨_,_,_,_,_,_⟩,_⟩ := b
  simp only [keyFields,Prod.mk.injEq] at h
  simp [h]

end Order

section Capping
variable (s : SliceSort Bucket) (r : Ranging Bucket)

/-- What a window says of the keys of its samples: the counts of those it keeps, and one count for
the keys it folds, none of which has more samples than a kept one. -/
structure Caps (maxKeys : ℤ) (keys : List Key) (buckets : List Bucket) (truncated : Bool)
    (kept : List Bucket) (folded : List Key) : Prop where
  buckets_eq : buckets = kept++if folded=[] then [] else [⟨otherKey,(folded.map (keys.count ·)).sum⟩]
  parts : (kept.map Bucket.key++folded).Perm keys.dedup
  exact_count : ∀ b∈kept, b.samples = keys.count b.key
  largest : ∀ b∈kept, ∀ k∈folded, keys.count k ≤ b.samples
  truncated_iff : truncated=true ↔ folded≠[]
  length_le : (buckets.length : ℤ) ≤ maxKeys

def countsOf (keys : List Key) : Tally Key ℕ := Tally.of (fun k => k) (fun _ => 1) keys

/-- The buckets of the counts, in the order of the ranking. -/
def ranked (counts : Tally Key ℕ) : List Bucket :=
  s.sort bucketLess (r.visit (counts.entries.map fun e => ⟨e.1,e.2⟩))

lemma ranked_perm (keys : List Key) :
    (ranked s r (countsOf keys)).Perm (keys.dedup.map fun k => ⟨k,keys.count k⟩) := by
  have hentries := (Tally.entries_of_perm (fun k => k) (fun _ => 1) keys).map fun e => (⟨e.1,e.2⟩ : Bucket)
  simp only [Tally.weigh_one,map_id',map_map] at hentries
  exact ((s.perm _ _).trans (r.perm _)).trans hentries

variable {keys folded : List Key} {b : Bucket} {n : ℕ} {maxKeys : ℤ} {buckets kept : List Bucket}
  {truncated : Bool}

lemma ranked_samples (hb : b ∈ ranked s r (countsOf keys)) : b.samples = keys.count b.key := by
  obtain ⟨k,-,rfl⟩ := mem_map.mp ((ranked_perm s r keys).mem_iff.mp hb)
  rfl

lemma ranked_keys_perm (keys : List Key) :
    ((ranked s r (countsOf keys)).map Bucket.key).Perm keys.dedup := by
  simpa [map_map,Function.comp_def] using (ranked_perm s r keys).map Bucket.key

lemma length_ranked (counts : Tally Key ℕ) :
    (ranked s r counts).length = counts.entries.length := by
  rw [ranked,s.length_sort,(r.perm _).length_eq,length_map]

lemma samples_le_of_take {counts : Tally Key ℕ} {b' : Bucket} (hb : b ∈ (ranked s r counts).take n)
    (hb' : b' ∈ (ranked s r counts).drop n) : b'.samples ≤ b.samples := by
  have hless := s.not_less_of_take (strictTotal_bucketLess _) hb hb'
  unfold bucketLess at hless
  split_ifs at hless with hne
  · exact not_lt.mp (of_decide_eq_false hless)
  · exact (not_not.mp hne).le

lemma capConserved_eq (counts : Tally Key ℕ) (h : 1 ≤ maxKeys) : capConserved s r counts maxKeys =
    if (counts.entries.length : ℤ) ≤ maxKeys then (ranked s r counts,false)
    else ((ranked s r counts).take (maxKeys-1).toNat ++
      (if 0<(((ranked s r counts).drop (maxKeys-1).toNat).map Bucket.samples).sum then
        [⟨otherKey,(((ranked s r counts).drop (maxKeys-1).toNat).map Bucket.samples).sum⟩] else []),true) := by
  unfold capConserved
  have hlen := length_ranked s r counts
  by_cases hzero : counts.entries.length=0
  · rw [if_pos hzero,if_pos (by omega),eq_nil_of_length_eq_zero (hlen.trans hzero)]
  · rw [if_neg hzero]
    dsimp only
    rw [(r.perm _).length_eq,length_map,if_neg (show ¬maxKeys-1<0 by omega)]
    rfl

lemma overflow_pos (h : n<(ranked s r (countsOf keys)).length) :
    0 < (((ranked s r (countsOf keys)).drop n).map Bucket.samples).sum := by
  have hmem : (ranked s r (countsOf keys))[n] ∈ ranked s r (countsOf keys) := getElem_mem h
  have hkey : (ranked s r (countsOf keys))[n].key ∈ keys :=
    mem_dedup.mp ((ranked_keys_perm s r keys).mem_iff.mp (mem_map_of_mem hmem))
  have hpos := count_pos_iff.mpr hkey
  rw [← ranked_samples s r hmem] at hpos
  rw [drop_eq_getElem_cons h,map_cons,sum_cons]
  exact Nat.add_pos_left hpos _

lemma capConserved_caps (keys : List Key) (h : 1 ≤ maxKeys) : ∃ kept folded,
    Caps maxKeys keys (capConserved s r (countsOf keys) maxKeys).1 (capConserved s r (countsOf keys) maxKeys).2
      kept folded := by
  have hlen := length_ranked s r (countsOf keys)
  have hperm := ranked_keys_perm s r keys
  rw [capConserved_eq s r _ h]
  split_ifs with hfits hsum
  · refine ⟨ranked s r (countsOf keys),[],by simp,by simpa using hperm,fun b => ranked_samples s r,
      by simp,by simp,?_⟩
    rw [hlen]
    exact hfits
  · have hne : ((ranked s r (countsOf keys)).drop (maxKeys-1).toNat).map Bucket.key ≠ [] := by
      rw [Ne,map_eq_nil_iff,drop_eq_nil_iff]
      omega
    have hcounts : (((ranked s r (countsOf keys)).drop (maxKeys-1).toNat).map Bucket.key).map (keys.count ·) =
        ((ranked s r (countsOf keys)).drop (maxKeys-1).toNat).map Bucket.samples := by
      rw [map_map]
      exact map_congr_left fun b hb => (ranked_samples s r (mem_of_mem_drop hb)).symm
    refine ⟨(ranked s r (countsOf keys)).take (maxKeys-1).toNat,
      ((ranked s r (countsOf keys)).drop (maxKeys-1).toNat).map Bucket.key,?_,?_,?_,?_,?_,?_⟩
    · rw [if_neg hne,hcounts]
    · rw [← map_append,take_append_drop]
      exact hperm
    · exact fun b hb => ranked_samples s r (mem_of_mem_take hb)
    · intro b hb k hk
      obtain ⟨b',hb',rfl⟩ := mem_map.mp hk
      rw [← ranked_samples s r (mem_of_mem_drop hb')]
      exact samples_le_of_take s r hb hb'
    · exact ⟨fun _ => hne,fun _ => rfl⟩
    · rw [length_append,length_take,length_singleton]
      omega
  · exact absurd (overflow_pos s r (by omega)) hsum

lemma Caps.sum_samples (h : Caps maxKeys keys buckets truncated kept folded) :
    (buckets.map Bucket.samples).sum = keys.length := by
  have hkept : kept.map Bucket.samples = (kept.map Bucket.key).map (keys.count ·) := by
    rw [map_map]
    exact map_congr_left h.exact_count
  have hparts : (kept.map Bucket.samples).sum+(folded.map (keys.count ·)).sum = keys.length := by
    rw [hkept,← sum_append,← map_append,(h.parts.map _).sum_eq,sum_map_count_dedup_eq_length]
  rw [← hparts,h.buckets_eq]
  split_ifs with hnil
  · simp [hnil]
  · simp

lemma Caps.nodup_keys (h : Caps maxKeys keys buckets truncated kept folded)
    (hother : otherKey ∉ keys) : (buckets.map Bucket.key).Nodup := by
  have hnodup := (nodup_append.mp (h.parts.nodup_iff.mpr keys.nodup_dedup)).1
  rw [h.buckets_eq]
  split_ifs
  · simpa using hnodup
  · rw [map_append,map_singleton]
    refine hnodup.append (nodup_singleton _) (disjoint_singleton.mpr fun hmem => hother ?_)
    exact mem_dedup.mp (h.parts.mem_iff.mp (mem_append_left _ hmem))

end Capping

section Runs

/-- The calls of each window, with the time of the flush that closes it. -/
def segments : List Call → List Call → List (List Call × Time)
  | _, [] => []
  | calls, .flush _ now::rest => (calls,now)::segments [] rest
  | calls, c::rest => segments (calls++[c]) rest

def keysOf (calls : List Call) : List Key :=
  calls.filterMap fun
    | .add _ datname state wet we queryID => some (keyOf datname state wet we queryID)
    | _ => none

def succeeded (calls : List Call) : ℕ := calls.countP fun | .tickSucceeded _ => true | _ => false

def failed (calls : List Call) : ℕ := calls.countP fun | .tickFailed _ => true | _ => false

structure Closes (maxKeys : ℤ) (segment : List Call × Time) (w : Window) : Prop where
  till : w.till=segment.2
  samples : (w.buckets.map Bucket.samples).sum = (keysOf segment.1).length
  ticks : w.ticks = succeeded segment.1
  failedTicks : w.failedTicks = failed segment.1
  caps : ∃ kept folded, Caps maxKeys (keysOf segment.1) w.buckets w.truncated kept folded
  distinct : otherKey ∉ keysOf segment.1 → (w.buckets.map Bucket.key).Nodup

/-- What the aggregator holds of the calls since the last flush. -/
structure Holds (maxKeys : ℤ) (calls : List Call) (a : Aggregator) : Prop where
  maxKeys : a.maxKeys=maxKeys
  counts : a.counts = countsOf (keysOf calls)
  ticks : a.ticks = succeeded calls
  failed : a.failed = failed calls

namespace Holds
variable {maxKeys : ℤ} {calls : List Call} {a : Aggregator}

lemma ensureStarted (h : Holds maxKeys calls a) (now : Time) :
    Holds maxKeys calls (ensureStarted a now) := by
  unfold Windows.ensureStarted
  split_ifs
  · exact ⟨h.maxKeys,h.counts,h.ticks,h.failed⟩
  · exact h

lemma add (h : Holds maxKeys calls a) (now : Time) (datname state wet we : Text)
    (queryID : Option ℤ) :
    Holds maxKeys (calls++[.add now datname state wet we queryID])
      (add a now (keyOf datname state wet we queryID)) := by
  have hs := h.ensureStarted now
  refine ⟨hs.maxKeys,?_,?_,?_⟩
  · simp [Windows.add,keysOf,countsOf,Tally.of_append_singleton,hs.counts]
  · simpa [Windows.add,succeeded] using hs.ticks
  · simpa [Windows.add,Windows.failed] using hs.failed

lemma tickSucceeded (h : Holds maxKeys calls a) (now : Time) :
    Holds maxKeys (calls++[.tickSucceeded now]) (tickSucceeded a now) := by
  have hs := h.ensureStarted now
  refine ⟨hs.maxKeys,?_,?_,?_⟩
  · simpa [Windows.tickSucceeded,keysOf] using hs.counts
  · simpa [Windows.tickSucceeded,succeeded] using hs.ticks
  · simpa [Windows.tickSucceeded,Windows.failed] using hs.failed

lemma tickFailed (h : Holds maxKeys calls a) (now : Time) :
    Holds maxKeys (calls++[.tickFailed now]) (tickFailed a now) := by
  have hs := h.ensureStarted now
  refine ⟨hs.maxKeys,?_,?_,?_⟩
  · simpa [Windows.tickFailed,keysOf] using hs.counts
  · simpa [Windows.tickFailed,succeeded] using hs.ticks
  · simpa [Windows.tickFailed,Windows.failed] using hs.failed

lemma flush (h : Holds maxKeys calls a) (s : SliceSort Bucket) (r : Ranging Bucket) (now : Time) :
    Holds maxKeys [] (flush s r a now).2 := ⟨h.maxKeys,rfl,rfl,rfl⟩

lemma closes (h : Holds maxKeys calls a) (hpos : 1 ≤ maxKeys) (s : SliceSort Bucket)
    (r : Ranging Bucket) (now : Time) : Closes maxKeys (calls,now) (Windows.flush s r a now).1 := by
  obtain ⟨kept,folded,hcaps⟩ := capConserved_caps s r (keysOf calls) hpos
  rw [← h.counts,← h.maxKeys] at hcaps
  rw [← h.maxKeys]
  exact ⟨rfl,hcaps.sum_samples,h.ticks,h.failed,⟨kept,folded,hcaps⟩,hcaps.nodup_keys⟩

lemma windows (hpos : 1 ≤ maxKeys) (s : SliceSort Bucket) (rest : List Call)
    (h : Holds maxKeys calls a) :
    List.Forall₂ (Closes maxKeys) (segments calls rest) (windows s a rest) := by
  induction rest generalizing calls a with
  | nil => exact .nil
  | cons c rest ih =>
    cases c with
    | add now datname state wet we queryID => exact ih (h.add now datname state wet we queryID)
    | tickSucceeded now => exact ih (h.tickSucceeded now)
    | tickFailed now => exact ih (h.tickFailed now)
    | flush r now => exact .cons (h.closes hpos s r now) (ih (h.flush s r now))

end Holds

/-- Windows that follow each other without a gap. -/
def Contiguous (ws : List Window) : Prop := ws.IsChain fun w w' => w'.start=w.till

lemma ensureStarted_started (a : Aggregator) (now : Time) :
    (ensureStarted a now).started = true := by
  unfold ensureStarted
  cases h : a.started <;> simp [h]

lemma ensureStarted_start {a : Aggregator} (h : a.started=true) (now : Time) :
    (ensureStarted a now).start = a.start := by
  simp [ensureStarted,h]

lemma contiguous_of_started (s : SliceSort Bucket) {a : Aggregator} (h : a.started=true)
    {w : Window} (hw : a.start=w.till) (calls : List Call) : Contiguous (w::windows s a calls) := by
  induction calls generalizing a w with
  | nil => exact .singleton _
  | cons c calls ih =>
    cases c with
    | add now datname state wet we queryID =>
      exact ih (a := add a now _) (ensureStarted_started a now) ((ensureStarted_start h now).trans hw)
    | tickSucceeded now =>
      exact ih (a := tickSucceeded a now) (ensureStarted_started a now) ((ensureStarted_start h now).trans hw)
    | tickFailed now =>
      exact ih (a := tickFailed a now) (ensureStarted_started a now) ((ensureStarted_start h now).trans hw)
    | flush r now =>
      refine List.IsChain.cons_cons ?_ (ih (a := (flush s r a now).2) rfl rfl)
      simp [flush,h,hw]

lemma contiguous_windows (s : SliceSort Bucket) (a : Aggregator) (calls : List Call) :
    Contiguous (windows s a calls) := by
  have hstarted : ∀ b : Aggregator, b.started=true → ∀ rest, Contiguous (windows s b rest) := fun b h rest =>
    (contiguous_of_started s h (w := ⟨b.start,b.start,0,0,[],false⟩) rfl rest).tail
  cases calls with
  | nil => exact .nil
  | cons c calls =>
    cases c with
    | add now datname state wet we queryID => exact hstarted (add a now _) (ensureStarted_started a now) calls
    | tickSucceeded now => exact hstarted (tickSucceeded a now) (ensureStarted_started a now) calls
    | tickFailed now => exact hstarted (tickFailed a now) (ensureStarted_started a now) calls
    | flush r now => exact contiguous_of_started s (a := (flush s r a now).2) rfl rfl calls

/-- The windows of a run follow each other without a gap, and each has the samples and the ticks of
the calls since the one before, in at most as many buckets as New was given, or one. -/
theorem windows_conserve (s : SliceSort Bucket) (maxKeys : ℤ) (calls : List Call) :
    (windows s (new maxKeys) calls).IsChain (fun w w' => w'.start=w.till) ∧
    List.Forall₂ (Closes (max maxKeys 1)) (segments [] calls) (windows s (new maxKeys) calls) := by
  have hnew : Holds (max maxKeys 1) [] (new maxKeys) := by
    refine ⟨?_,rfl,rfl,rfl⟩
    unfold new
    dsimp only
    split_ifs <;> omega
  exact ⟨contiguous_windows s _ calls,hnew.windows (le_max_right _ _) s calls⟩

theorem windows_one_bucket :
    (windows (.insertion Bucket) (new 0) [.add Time.zero [] [] [] [] none,.flush ⟨id,fun _ => .rfl⟩ Time.zero]).map
      (fun w => w.buckets.length) = [1] := by
  decide

end Runs

end Pglens.Ash.Windows

import Pglens.Lib.FinMap
import Pglens.Lib.Ranking
import Pglens.Lib.Text
import Mathlib.Data.List.Dedup
import Mathlib.Data.List.Induction
import Mathlib.Data.List.Perm.Subperm

/-! The selector of internal/cardinality: the keys at the top of two rankings are fresh, and a
key that was fresh not long ago is retained while there is room. The mutex makes the calls a
sequence. -/
namespace Pglens.Cardinality
open Pglens.Lib List

structure Candidate (V : Type) where
  key : Text
  primary : V
  secondary : V
  deriving DecidableEq, Repr

open Candidate (key)

/-- The comparisons `!=` and `>` of float64, which a NaN makes disagree with each other. -/
structure Comparisons (V : Type) where
  ne : V → V → Bool
  gt : V → V → Bool

structure Options where
  topN : ℤ
  hysteresis : ℤ
  maxKeys : ℤ
  deriving DecidableEq, Repr

/-- An int of Go. -/
def int (x : ℤ) : ℤ := x.bmod (2^64)

/-- The conversion of an int to uint64. -/
def uint64 (x : ℤ) : ℕ := (x%2^64).toNat

def Options.defaults (o : Options) : Options :=
  let topN := if o.topN=0 then 50 else o.topN
  { topN := topN
    hysteresis := if o.hysteresis=0 then 5 else o.hysteresis
    maxKeys := if o.maxKeys=0 then max 200 (int (2*topN)) else o.maxKeys }

structure Selector where
  opts : Options
  lastSeen : FinMap Text ℕ

def newSelector (opts : Options) : Selector := ⟨opts.defaults,FinMap.empty⟩

/-- The cycle from which on a key is not too old. -/
def threshold (opts : Options) (cycle : ℕ) : ℕ :=
  if uint64 opts.hysteresis < cycle then cycle-uint64 opts.hysteresis else 0

section Code
variable {V : Type} (cmp : Comparisons V) (s : SliceSort (Candidate V))

/-- The order by a metric, from the largest on, and by the key. -/
def rankLess (metric : Candidate V → V) (c c' : Candidate V) : Bool :=
  if cmp.ne (metric c) (metric c') then cmp.gt (metric c) (metric c') else ascending c.key c'.key

def sortByRank (cs : List (Candidate V)) : List (Candidate V) := s.sort (rankLess cmp Candidate.primary) cs

def top (opts : Options) (metric : Candidate V → V) (cands : List (Candidate V)) : List (Candidate V) :=
  (s.sort (rankLess cmp metric) cands).take opts.topN.toNat

def freshSet (opts : Options) (cands : List (Candidate V)) : List Text :=
  ((top cmp s opts Candidate.primary cands++top cmp s opts Candidate.secondary cands).map key).dedup

def retainedSet (sel : Selector) (cycle : ℕ) (cands : List (Candidate V)) : List Text :=
  ((cands.filter fun c => decide (c.key ∉ freshSet cmp s sel.opts cands) &&
    (sel.lastSeen.get c.key).any fun last => decide (threshold sel.opts cycle ≤ last)).map key).dedup

/-- The candidates of a set of keys, which range visits in its own order. A later candidate of a
key hides an earlier one. -/
def pick (r : Ranging Text) (cands : List (Candidate V)) (keys : List Text) : List (Candidate V) :=
  (r.visit keys).filterMap fun k => cands.reverse.find? fun c => decide (c.key=k)

/-- The cut to the largest number of keys: fresh keys stay before retained ones. -/
def cut (maxKeys : ℤ) (fresh retained : List (Candidate V)) : List (Candidate V) × Bool :=
  if maxKeys < fresh.length+retained.length then
    if maxKeys<fresh.length then (fresh.take maxKeys.toNat,true)
    else (fresh++retained.take (maxKeys-fresh.length).toNat,true)
  else (fresh++retained,false)

end Code

/-- What one Select is called with, and the orders in which it visits its two sets. -/
structure Call (V : Type) where
  cycle : ℕ
  cands : List (Candidate V)
  freshRange : Ranging Text
  retainedRange : Ranging Text

structure Selection (V : Type) where
  kept : List (Candidate V)
  truncated : Bool

section Calls
variable {V : Type} (cmp : Comparisons V) (s : SliceSort (Candidate V))

def select (sel : Selector) (call : Call V) : Selection V × Selector :=
  if call.cands.length=0 then (⟨[],false⟩,sel)
  else
    let fresh := freshSet cmp s sel.opts call.cands
    let retained := retainedSet cmp s sel call.cycle call.cands
    let freshList := sortByRank cmp s (pick call.freshRange call.cands fresh)
    let retainedList := sortByRank cmp s (pick call.retainedRange call.cands retained)
    let kept := cut sel.opts.maxKeys freshList retainedList
    (⟨sortByRank cmp s kept.1,kept.2⟩,
      { sel with lastSeen := fresh.foldl (fun m k => m.set k call.cycle) sel.lastSeen })

def forget (sel : Selector) (cycle : ℕ) : ℕ × Selector :=
  if uint64 sel.opts.hysteresis < cycle then
    let old := sel.lastSeen.keys.filter fun k =>
      (sel.lastSeen.get k).any fun last => decide (last<threshold sel.opts cycle)
    (old.card,{ sel with lastSeen := sel.lastSeen.sweep fun last =>
      if last < threshold sel.opts cycle then none else some last })
  else (0,sel)

inductive Op (V : Type)
  | select (call : Call V)
  | forget (cycle : ℕ)

def Op.cycle : Op V → ℕ
  | .select call => call.cycle
  | .forget cycle => cycle

def step (sel : Selector) : Op V → Selector
  | .select call => (select cmp s sel call).2
  | .forget cycle => (forget sel cycle).2

def run (sel : Selector) (ops : List (Op V)) : Selector := ops.foldl (step cmp s) sel

end Calls

section Picking
variable {V : Type} {cmp : Comparisons V} {s : SliceSort (Candidate V)} {cands : List (Candidate V)}
  {c : Candidate V} {keys : List Text}

lemma find_iff (hdistinct : (cands.map key).Nodup) {k : Text} :
    (cands.reverse.find? fun c => decide (c.key=k)) = some c ↔ c∈cands ∧ c.key=k := by
  constructor
  · intro h
    exact ⟨mem_reverse.mp (mem_of_find?_eq_some h),by simpa using find?_some h⟩
  · rintro ⟨hc,rfl⟩
    cases hfind : cands.reverse.find? fun c' => decide (c'.key=c.key) with
    | none => simpa using find?_eq_none.mp hfind c (mem_reverse.mpr hc)
    | some c' =>
      have hc' := mem_reverse.mp (mem_of_find?_eq_some hfind)
      have hkey : c'.key=c.key := by simpa using find?_some hfind
      rw [inj_on_of_nodup_map hdistinct hc' hc hkey]

lemma mem_pick (hdistinct : (cands.map key).Nodup) (r : Ranging Text) :
    c ∈ pick r cands keys ↔ c∈cands ∧ c.key∈keys := by
  simp only [pick,mem_filterMap,(r.perm keys).mem_iff,find_iff hdistinct]
  exact ⟨fun ⟨k,hk,hc,heq⟩ => ⟨hc,heq ▸ hk⟩,fun ⟨hc,hk⟩ => ⟨c.key,hk,hc,rfl⟩⟩

lemma keys_pick (hdistinct : (cands.map key).Nodup) (r : Ranging Text)
    (h : ∀ k∈keys, k ∈ cands.map key) :
    ((pick r cands keys).map key).Perm keys := by
  have hsome : ∀ k ∈ r.visit keys,
      ((cands.reverse.find? fun c => decide (c.key=k)).map key) = some k := by
    intro k hk
    obtain ⟨c,hc,hkey⟩ := mem_map.mp (h k ((r.perm keys).mem_iff.mp hk))
    rw [(find_iff hdistinct).mpr ⟨hc,hkey⟩,Option.map_some,hkey]
  rw [pick,map_filterMap,filterMap_congr hsome,filterMap_some]
  exact r.perm keys

lemma mem_sortByRank {cs : List (Candidate V)} : c ∈ sortByRank cmp s cs ↔ c∈cs :=
  s.mem_sort _ cs

lemma keys_sortByRank (cs : List (Candidate V)) :
    ((sortByRank cmp s cs).map key).Perm (cs.map key) := (s.perm _ cs).map _

/-- A list holds the candidates of a set of keys, each once. -/
structure Lists (cands : List (Candidate V)) (keys : List Text) (l : List (Candidate V)) : Prop where
  mem_iff : ∀ c, c∈l ↔ c∈cands ∧ c.key∈keys
  keys_perm : (l.map key).Perm keys

lemma lists_sortByRank (hdistinct : (cands.map key).Nodup) (r : Ranging Text)
    (h : ∀ k∈keys, k ∈ cands.map key) :
    Lists cands keys (sortByRank cmp s (pick r cands keys)) :=
  ⟨fun _ => mem_sortByRank.trans (mem_pick hdistinct r),(keys_sortByRank _).trans (keys_pick hdistinct r h)⟩

end Picking

section Cutting
variable {V : Type} {maxKeys : ℤ} (fresh retained : List (Candidate V))

lemma cut_sublist : (cut maxKeys fresh retained).1.Sublist (fresh++retained) := by
  unfold cut
  split_ifs
  · exact (take_sublist _ _).trans (sublist_append_left _ _)
  · exact (List.Sublist.refl fresh).append (take_sublist _ _)
  · exact .refl _

lemma length_cut (h : 0 ≤ maxKeys) :
    ((cut maxKeys fresh retained).1.length : ℤ) = min maxKeys (fresh++retained).length := by
  unfold cut
  split_ifs <;> simp only [length_append,length_take] <;> omega

lemma cut_truncated :
    (cut maxKeys fresh retained).2 = true ↔ maxKeys < (fresh++retained).length := by
  unfold cut
  split_ifs <;> simp_all

lemma fresh_mem_cut (h : (fresh.length : ℤ) ≤ maxKeys) {c : Candidate V} (hc : c∈fresh) :
    c ∈ (cut maxKeys fresh retained).1 := by
  unfold cut
  rw [if_neg (show ¬maxKeys<fresh.length by omega)]
  split_ifs <;> exact mem_append_left _ hc

lemma cut_truncated_iff (h : 0 ≤ maxKeys) (hnodup : (fresh++retained).Nodup) :
    (cut maxKeys fresh retained).2 = true ↔ ∃ c ∈ fresh++retained, c ∉ (cut maxKeys fresh retained).1 := by
  have hlen := length_cut fresh retained h
  rw [cut_truncated]
  constructor
  · intro hlt
    by_contra hall
    simp only [not_exists,not_and,not_not] at hall
    have := (hnodup.subperm hall).length_le
    omega
  · rintro ⟨c,hc,hcut⟩
    by_contra hle
    have hsub : (cut maxKeys fresh retained).1.Sublist (fresh++retained) := cut_sublist fresh retained
    exact hcut (hsub.eq_of_length_le (by omega) ▸ hc)

end Cutting

section Selecting
variable {V : Type} {cmp : Comparisons V} {s : SliceSort (Candidate V)} {opts : Options}
  {cands : List (Candidate V)} {k : Text} {sel : Selector}

lemma mem_top {metric : Candidate V → V} {c : Candidate V}
    (h : c ∈ top cmp s opts metric cands) : c∈cands := (s.mem_sort _ cands).mp (mem_of_mem_take h)

lemma mem_keys_of_freshSet (h : k ∈ freshSet cmp s opts cands) : k ∈ cands.map key := by
  obtain ⟨c,hc,rfl⟩ := mem_map.mp (mem_dedup.mp h)
  exact mem_map_of_mem ((mem_append.mp hc).elim mem_top mem_top)

lemma length_freshSet_le (cmp : Comparisons V) (s : SliceSort (Candidate V)) (opts : Options)
    (cands : List (Candidate V)) : (freshSet cmp s opts cands).length ≤ 2*opts.topN.toNat := by
  have hdedup := (dedup_sublist ((top cmp s opts Candidate.primary cands ++
    top cmp s opts Candidate.secondary cands).map key)).length_le
  rw [length_map,length_append] at hdedup
  have hprimary := length_take_le opts.topN.toNat (s.sort (rankLess cmp Candidate.primary) cands)
  have hsecondary := length_take_le opts.topN.toNat (s.sort (rankLess cmp Candidate.secondary) cands)
  unfold freshSet
  unfold top at hdedup ⊢
  omega

lemma mem_retainedSet {cycle : ℕ} :
    k ∈ retainedSet cmp s sel cycle cands ↔ k ∈ cands.map key ∧
        k ∉ freshSet cmp s sel.opts cands ∧
      ∃ last, sel.lastSeen.get k = some last ∧ threshold sel.opts cycle ≤ last := by
  simp only [retainedSet,mem_dedup,mem_map,mem_filter,Bool.and_eq_true,decide_eq_true_eq,
    Option.any_eq_true]
  constructor
  · rintro ⟨c,⟨hc,hnot,hlast⟩,rfl⟩
    exact ⟨⟨c,hc,rfl⟩,hnot,hlast⟩
  · rintro ⟨⟨c,hc,rfl⟩,hnot,hlast⟩
    exact ⟨c,⟨hc,hnot,hlast⟩,rfl⟩

/-- What a Select answers, from its fresh and retained candidates. -/
structure Selects (cmp : Comparisons V) (s : SliceSort (Candidate V)) (sel : Selector) (call : Call V)
    (answer : Selection V) : Prop where
  length_le : (answer.kept.length : ℤ) ≤ sel.opts.maxKeys
  from_set : ∀ c∈answer.kept, c∈call.cands ∧
    (c.key ∈ freshSet cmp s sel.opts call.cands ∨ c.key ∈ retainedSet cmp s sel call.cycle call.cands)
  distinct : (answer.kept.map key).Nodup
  truncated_iff : answer.truncated=true ↔ ∃ c∈call.cands, (c.key ∈ freshSet cmp s sel.opts call.cands ∨
    c.key ∈ retainedSet cmp s sel call.cycle call.cands) ∧ c ∉ answer.kept
  fresh_kept : ((freshSet cmp s sel.opts call.cands).length : ℤ) ≤ sel.opts.maxKeys →
    ∀ c∈call.cands, c.key ∈ freshSet cmp s sel.opts call.cands → c∈answer.kept

lemma selects_of_lists {call : Call V} (hmax : 0 ≤ sel.opts.maxKeys)
    {fresh retained : List (Candidate V)}
    (hfresh : Lists call.cands (freshSet cmp s sel.opts call.cands) fresh)
    (hretained : Lists call.cands (retainedSet cmp s sel call.cycle call.cands) retained) :
    Selects cmp s sel call ⟨sortByRank cmp s (cut sel.opts.maxKeys fresh retained).1,
      (cut sel.opts.maxKeys fresh retained).2⟩ := by
  have hnodup : ((fresh++retained).map key).Nodup := by
    rw [map_append,nodup_append]
    refine ⟨hfresh.keys_perm.nodup_iff.mpr (nodup_dedup _),
      hretained.keys_perm.nodup_iff.mpr (nodup_dedup _),?_⟩
    rintro k hk k' hk' rfl
    exact (mem_retainedSet.mp (hretained.keys_perm.mem_iff.mp hk')).2.1 (hfresh.keys_perm.mem_iff.mp hk)
  have hmem : ∀ c, c ∈ fresh++retained ↔ c∈call.cands ∧ (c.key ∈ freshSet cmp s sel.opts call.cands ∨
      c.key ∈ retainedSet cmp s sel call.cycle call.cands) := by
    intro c
    rw [mem_append,hfresh.mem_iff,hretained.mem_iff,and_or_left]
  have hsub : (cut sel.opts.maxKeys fresh retained).1.Sublist (fresh++retained) := cut_sublist fresh retained
  refine ⟨?_,fun c hc => (hmem c).mp (hsub.subset (mem_sortByRank.mp hc)),?_,?_,?_⟩
  · have hlen := length_cut fresh retained hmax
    rw [sortByRank,s.length_sort]
    omega
  · rw [(keys_sortByRank _).nodup_iff]
    exact hnodup.sublist (hsub.map _)
  · rw [cut_truncated_iff fresh retained hmax hnodup.of_map]
    simp only [hmem,mem_sortByRank,and_assoc]
  · intro hlen c hc hkey
    rw [← hfresh.keys_perm.length_eq,length_map] at hlen
    exact mem_sortByRank.mpr (fresh_mem_cut fresh retained hlen ((hfresh.mem_iff c).mpr ⟨hc,hkey⟩))

lemma select_selects (cmp : Comparisons V) (s : SliceSort (Candidate V)) (sel : Selector)
    (call : Call V) (hmax : 0 ≤ sel.opts.maxKeys) (hdistinct : (call.cands.map key).Nodup) :
    Selects cmp s sel call (select cmp s sel call).1 := by
  unfold select
  split_ifs with hempty
  · have hnil := eq_nil_of_length_eq_zero hempty
    constructor <;> simp [hnil,hmax]
  · exact selects_of_lists hmax (lists_sortByRank hdistinct _ fun _ => mem_keys_of_freshSet)
      (lists_sortByRank hdistinct _ fun _ hk => (mem_retainedSet.mp hk).1)

end Selecting

section Runs
variable {V : Type} (cmp : Comparisons V) (s : SliceSort (Candidate V)) (opts : Options)

/-- What a selector remembers of a sequence of calls: only cycles in which a key was fresh, and of
those the last, if no later call is too far off. -/
structure Remembers (ops : List (Op V)) (sel : Selector) : Prop where
  opts_eq : sel.opts=opts
  sound : ∀ k last, sel.lastSeen.get k = some last →
    ∃ call, Op.select call ∈ ops ∧ k ∈ freshSet cmp s opts call.cands ∧ call.cycle=last
  complete : ∀ call, Op.select call ∈ ops → ∀ k ∈ freshSet cmp s opts call.cands,
    (∃ last, sel.lastSeen.get k=some last ∧ call.cycle≤last) ∨
      ∃ op∈ops, call.cycle+uint64 opts.hysteresis < op.cycle

variable {cmp s opts} {ops : List (Op V)} {sel : Selector}

namespace Remembers

lemma select_lastSeen (sel : Selector) (call : Call V) (k : Text) :
    (select cmp s sel call).2.lastSeen.get k =
      if k ∈ freshSet cmp s sel.opts call.cands then some call.cycle else sel.lastSeen.get k := by
  unfold select
  split_ifs with hempty hk hk
  · rw [eq_nil_of_length_eq_zero hempty] at hk
    cases mem_keys_of_freshSet hk
  · rfl
  · rw [FinMap.get_foldl_set,if_pos hk]
  · rw [FinMap.get_foldl_set,if_neg hk]

lemma select_opts (sel : Selector) (call : Call V) : (select cmp s sel call).2.opts = sel.opts := by
  unfold select
  split_ifs <;> rfl

lemma select (h : Remembers cmp s opts ops sel) {call : Call V}
    (hlast : ∀ op∈ops, op.cycle≤call.cycle) :
    Remembers cmp s opts (ops++[.select call]) (select cmp s sel call).2 := by
  refine ⟨(select_opts sel call).trans h.opts_eq,?_,?_⟩
  · intro k last hget
    rw [select_lastSeen,h.opts_eq] at hget
    split_ifs at hget with hk
    · exact ⟨call,by simp,hk,Option.some.inj hget⟩
    · obtain ⟨earlier,hmem,hrest⟩ := h.sound k last hget
      exact ⟨earlier,mem_append_left _ hmem,hrest⟩
  · intro earlier hmem k hk
    rw [select_lastSeen,h.opts_eq]
    have hcycle : earlier.cycle≤call.cycle := by
      obtain hmem | hmem := mem_append.mp hmem
      · exact hlast _ hmem
      · cases mem_singleton.mp hmem
        exact le_rfl
    by_cases hnew : k ∈ freshSet cmp s opts call.cands
    · rw [if_pos hnew]
      exact .inl ⟨_,rfl,hcycle⟩
    · rw [if_neg hnew]
      obtain hmem | hmem := mem_append.mp hmem
      · refine (h.complete earlier hmem k hk).imp id ?_
        rintro ⟨op,hop,hfar⟩
        exact ⟨op,mem_append_left _ hop,hfar⟩
      · cases mem_singleton.mp hmem
        exact absurd hk hnew

lemma forget_lastSeen (sel : Selector) (cycle : ℕ) (k : Text) {last : ℕ} :
    (Cardinality.forget sel cycle).2.lastSeen.get k = some last ↔
      sel.lastSeen.get k = some last ∧ cycle ≤ last+uint64 sel.opts.hysteresis := by
  unfold Cardinality.forget threshold
  split_ifs with hcycle
  · simp only [FinMap.get_sweep,Option.bind_eq_some_iff]
    constructor
    · rintro ⟨last',hget,hkept⟩
      split_ifs at hkept with hold
      cases hkept
      exact ⟨hget,by omega⟩
    · rintro ⟨hget,hle⟩
      exact ⟨last,hget,if_neg (by omega)⟩
  · exact ⟨fun hget => ⟨hget,by omega⟩,fun h => h.1⟩

lemma forget (h : Remembers cmp s opts ops sel) (cycle : ℕ) :
    Remembers cmp s opts (ops++[.forget cycle]) (forget sel cycle).2 := by
  refine ⟨?_,?_,?_⟩
  · unfold Cardinality.forget
    split_ifs <;> exact h.opts_eq
  · intro k last hget
    obtain ⟨earlier,hmem,hrest⟩ := h.sound k last ((forget_lastSeen sel cycle k).mp hget).1
    exact ⟨earlier,mem_append_left _ hmem,hrest⟩
  · intro earlier hmem k hk
    have hmem : Op.select earlier ∈ ops := by simpa using hmem
    obtain ⟨last,hget,hle⟩ | ⟨op,hop,hfar⟩ := h.complete earlier hmem k hk
    · by_cases hold : cycle ≤ last+uint64 sel.opts.hysteresis
      · exact .inl ⟨last,(forget_lastSeen sel cycle k).mpr ⟨hget,hold⟩,hle⟩
      · refine .inr ⟨.forget cycle,by simp,?_⟩
        rw [← h.opts_eq]
        change earlier.cycle+uint64 sel.opts.hysteresis < cycle
        omega
    · exact .inr ⟨op,mem_append_left _ hop,hfar⟩

lemma run (o : Options) (hcycles : (ops.map Op.cycle).Pairwise (· ≤ ·)) :
    Remembers cmp s o.defaults ops (run cmp s (newSelector o) ops) := by
  induction ops using List.reverseRecOn with
  | nil => exact ⟨rfl,by simp [Cardinality.run,newSelector],by simp⟩
  | append_singleton ops op ih =>
    rw [map_append,pairwise_append] at hcycles
    have hlast : ∀ op'∈ops, op'.cycle≤op.cycle := fun op' hop' =>
      hcycles.2.2 _ (mem_map_of_mem hop') _ (by simp)
    rw [Cardinality.run,foldl_append]
    cases op with
    | select call => exact (ih hcycles.1).select hlast
    | forget cycle => exact (ih hcycles.1).forget cycle

end Remembers

/-- A key was in the union of the two rankings at an earlier Select, not more than the hysteresis
before this one. -/
def WasFresh (cmp : Comparisons V) (s : SliceSort (Candidate V)) (opts : Options) (before : List (Op V))
    (call : Call V) (k : Text) : Prop :=
  ∃ earlier, Op.select earlier ∈ before ∧ k ∈ freshSet cmp s opts earlier.cands ∧
    (call.cycle : ℤ) ≤ earlier.cycle+opts.hysteresis

/-- Options whose values are ints of Go above zero. -/
structure Options.Positive (o : Options) : Prop where
  topN : 0<o.topN ∧ o.topN < 2^63
  hysteresis : 0<o.hysteresis ∧ o.hysteresis < 2^63
  maxKeys : 0<o.maxKeys

lemma threshold_le_iff {opts : Options} (h : opts.Positive) (cycle last : ℕ) :
    threshold opts cycle ≤ last ↔ (cycle : ℤ) ≤ last+opts.hysteresis := by
  have huint : (uint64 opts.hysteresis : ℤ) = opts.hysteresis := by
    have := h.hysteresis
    unfold uint64
    rw [Int.emod_eq_of_lt (by omega) (by omega),Int.toNat_of_nonneg (by omega)]
  unfold threshold
  split_ifs <;> omega

lemma Remembers.mem_retainedSet (h : Remembers cmp s opts ops sel) (hpos : opts.Positive)
    {call : Call V} (hlast : ∀ op∈ops, op.cycle≤call.cycle) {k : Text} :
    k ∈ retainedSet cmp s sel call.cycle call.cands ↔
      k ∈ call.cands.map key ∧ k ∉ freshSet cmp s opts call.cands ∧
          WasFresh cmp s opts ops call k := by
  rw [Cardinality.mem_retainedSet,h.opts_eq]
  refine and_congr_right fun _ => and_congr_right fun _ => ⟨?_,?_⟩
  · rintro ⟨last,hget,hle⟩
    obtain ⟨earlier,hmem,hfresh,rfl⟩ := h.sound k last hget
    exact ⟨earlier,hmem,hfresh,(threshold_le_iff hpos _ _).mp hle⟩
  · rintro ⟨earlier,hmem,hfresh,hnear⟩
    obtain ⟨last,hget,hle⟩ | ⟨op,hop,hfar⟩ := h.complete earlier hmem k hfresh
    · exact ⟨last,hget,((threshold_le_iff hpos _ _).mpr hnear).trans hle⟩
    · have hthreshold := (threshold_le_iff hpos call.cycle earlier.cycle).mpr hnear
      have hcycle := hlast op hop
      unfold threshold at hthreshold
      split_ifs at hthreshold <;> omega

lemma Remembers.mem_sets (h : Remembers cmp s opts ops sel) (hpos : opts.Positive) {call : Call V}
    (hlast : ∀ op∈ops, op.cycle≤call.cycle) {c : Candidate V} (hc : c∈call.cands) :
    (c.key ∈ freshSet cmp s opts call.cands ∨ c.key ∈ retainedSet cmp s sel call.cycle call.cands) ↔
      c.key ∈ freshSet cmp s opts call.cands ∨ WasFresh cmp s opts ops call c.key := by
  by_cases hfresh : c.key ∈ freshSet cmp s opts call.cands
  · simp [hfresh]
  · rw [h.mem_retainedSet hpos hlast]
    simp [hfresh,mem_map_of_mem (f := key) hc]

end Runs

section Ranks
variable {V : Type} {cmp : Comparisons V} {s : SliceSort (Candidate V)}

structure Comparisons.Ordered (cmp : Comparisons V) : Prop where
  ne_iff : ∀ a b, cmp.ne a b = true ↔ a≠b
  gt : StrictTotal cmp.gt

variable {cands : List (Candidate V)} {c : Candidate V}

lemma mem_top_iff (hcmp : cmp.Ordered) (hdistinct : (cands.map key).Nodup)
    (opts : Options) (metric : Candidate V → V) : c ∈ top cmp s opts metric cands ↔
      c ∈ cands ∧ cands.countP (rankLess cmp metric · c) < opts.topN.toNat := by
  classical
  have hless : rankLess cmp metric = fun c c' => lexLess cmp.gt ascending (metric c,c.key) (metric c',c'.key) := by
    funext c c'
    simp only [rankLess,lexLess,hcmp.ne_iff]
  refine s.mem_take_iff ?_
  rw [hless]
  exact (hcmp.gt.lexLess strictTotal_ascending).comap_on (fun c => (metric c,c.key)) fun a ha b hb heq =>
    inj_on_of_nodup_map hdistinct ha hb (congrArg Prod.snd heq)

lemma mem_freshSet_iff (hdistinct : (cands.map key).Nodup) (opts : Options) (hc : c∈cands) :
    c.key ∈ freshSet cmp s opts cands ↔
      c ∈ top cmp s opts Candidate.primary cands ∨ c ∈ top cmp s opts Candidate.secondary cands := by
  rw [freshSet,mem_dedup,mem_map,← mem_append]
  constructor
  · rintro ⟨c',hc',hkey⟩
    have hmem : c'∈cands := (mem_append.mp hc').elim mem_top mem_top
    rwa [← inj_on_of_nodup_map hdistinct hmem hc hkey]
  · exact fun hmem => ⟨c,hmem,rfl⟩

end Ranks

lemma two_mul_topN_le (o : Options) (h : o.maxKeys=0) (hpos : 0<o.defaults.topN)
    (hlt : o.defaults.topN<2^62) : 2*o.defaults.topN ≤ o.defaults.maxKeys := by
  have hint : int (2*o.defaults.topN) = 2*o.defaults.topN := by
    unfold int
    rw [Int.bmod_eq_of_le] <;> omega
  have hmax : o.defaults.maxKeys = max 200 (int (2*o.defaults.topN)) := by
    unfold Options.defaults
    rw [h]
    rfl
  rw [hmax,hint]
  exact le_max_right _ _

section Kept
variable {V : Type} (cmp : Comparisons V) (s : SliceSort (Candidate V))

/-- Each Select of a sequence of calls keeps at most MaxKeys candidates of its input, each once: the
union of its two rankings where it fits, and the keys that were in one not long ago, unless the cut
is reported. -/
theorem select_keeps (o : Options) (hpos : o.defaults.Positive) (before : List (Op V)) (call : Call V)
    (hcycles : ((before++[Op.select call]).map Op.cycle).Pairwise (· ≤ ·))
    (hdistinct : (call.cands.map key).Nodup) :
    let opts := o.defaults
    let answer := (select cmp s (run cmp s (newSelector o) before) call).1
    let union := freshSet cmp s opts call.cands
    (answer.kept.length : ℤ) ≤ opts.maxKeys ∧
    (∀ c∈answer.kept, c∈call.cands) ∧ (answer.kept.map key).Nodup ∧
    (answer.truncated=true ↔
      ∃ c∈call.cands, (c.key∈union ∨ WasFresh cmp s opts before call c.key) ∧ c ∉ answer.kept) ∧
    ((union.length : ℤ) ≤ opts.maxKeys → ∀ c∈call.cands, c.key∈union → c∈answer.kept) ∧
    (o.maxKeys=0 → opts.topN<2^62 → (union.length : ℤ) ≤ opts.maxKeys) ∧
    (answer.truncated=false → ∀ c∈call.cands, WasFresh cmp s opts before call c.key → c∈answer.kept) ∧
    (∀ c∈answer.kept, c.key∈union ∨ WasFresh cmp s opts before call c.key) ∧
    (cmp.Ordered → ∀ c∈call.cands, c.key∈union ↔
      call.cands.countP (rankLess cmp Candidate.primary · c)<opts.topN.toNat ∨
      call.cands.countP (rankLess cmp Candidate.secondary · c)<opts.topN.toNat) := by
  rw [map_append,pairwise_append] at hcycles
  have hlast : ∀ op∈before, op.cycle≤call.cycle := fun op hop =>
    hcycles.2.2 _ (mem_map_of_mem hop) _ (by simp [Op.cycle])
  have hmemory : Remembers cmp s o.defaults before (run cmp s (newSelector o) before) := .run o hcycles.1
  generalize run cmp s (newSelector o) before = sel at hmemory
  obtain ⟨hlength,hfrom,hnodup,htruncated,hfresh⟩ := select_selects cmp s sel call
    (hmemory.opts_eq ▸ hpos.maxKeys.le) hdistinct
  rw [hmemory.opts_eq] at hlength hfresh
  simp only [hmemory.opts_eq] at hfrom htruncated
  have hunion := fun c hc => hmemory.mem_sets hpos hlast (c := c) hc
  have hleft : (select cmp s sel call).1.truncated = true ↔ ∃ c∈call.cands, (c.key ∈ freshSet cmp s o.defaults
      call.cands ∨ WasFresh cmp s o.defaults before call c.key) ∧ c ∉ (select cmp s sel call).1.kept := by
    rw [htruncated]
    exact exists_congr fun c => and_congr_right fun hc => and_congr_left' (hunion c hc)
  refine ⟨hlength,fun c hc => (hfrom c hc).1,hnodup,hleft,hfresh,?_,?_,
    fun c hc => (hunion c (hfrom c hc).1).mp (hfrom c hc).2,?_⟩
  · intro hdefault htop
    have hroom := two_mul_topN_le o hdefault hpos.topN.1 htop
    have hle := length_freshSet_le cmp s o.defaults call.cands
    have := hpos.topN.1
    omega
  · intro hfull c hc hwas
    by_contra hkept
    rw [hleft.mpr ⟨c,hc,.inr hwas,hkept⟩] at hfull
    cases hfull
  · intro hcmp c hc
    rw [mem_freshSet_iff hdistinct _ hc,mem_top_iff hcmp hdistinct,mem_top_iff hcmp hdistinct]
    simp [hc]

end Kept

def intComparisons : Comparisons ℤ := ⟨fun a b => decide (a≠b),fun a b => decide (b<a)⟩

/-- A call that visits its sets in the order in which they were filled. -/
def inOrder (cycle : ℕ) (cands : List (Candidate ℤ)) : Call ℤ :=
  ⟨cycle,cands,⟨id,fun _ => .rfl⟩,⟨id,fun _ => .rfl⟩⟩

/-- A candidate that is no longer at the top is kept for a while. -/
theorem select_keeps_retained :
    (⟨[0x61],1,1⟩ : Candidate ℤ) ∈ (select intComparisons (.insertion _)
      (run intComparisons (.insertion _) (newSelector ⟨1,2,2⟩) [.select (inOrder 7 [⟨[0x61],5,5⟩])])
      (inOrder 8 [⟨[0x61],1,1⟩,⟨[0x62],3,3⟩])).1.kept :=
  (select_keeps intComparisons (.insertion _) ⟨1,2,2⟩ ⟨by decide,by decide,by decide⟩
    [.select (inOrder 7 [⟨[0x61],5,5⟩])] (inOrder 8 [⟨[0x61],1,1⟩,⟨[0x62],3,3⟩]) (by decide)
    (by decide)).2.2.2.2.2.2.1 (by decide +kernel) ⟨[0x61],1,1⟩ (by decide)
    ⟨inOrder 7 [⟨[0x61],5,5⟩],mem_singleton_self _,by decide +kernel,by decide⟩

lemma length_freshSet_of_le {V : Type} (cmp : Comparisons V) (s : SliceSort (Candidate V))
    {opts : Options} {cands : List (Candidate V)} (hdistinct : (cands.map key).Nodup)
    (h : cands.length≤opts.topN.toNat) : (freshSet cmp s opts cands).length = cands.length := by
  have hperm : (freshSet cmp s opts cands).Perm (cands.map key) := by
    refine (perm_ext_iff_of_nodup (nodup_dedup _) hdistinct).mpr fun k => ⟨mem_keys_of_freshSet,fun hk => ?_⟩
    obtain ⟨c,hc,rfl⟩ := mem_map.mp hk
    refine (mem_freshSet_iff hdistinct opts hc).mpr (.inl ?_)
    rwa [top,take_of_length_le (by rwa [s.length_sort]),s.mem_sort]
  rw [hperm.length_eq,length_map]

def numbered (n : ℕ) : List (Candidate ℤ) := (List.range n).map fun k => ⟨List.replicate k 0,0,0⟩

lemma nodup_numbered (n : ℕ) : ((numbered n).map key).Nodup := by
  rw [numbered,map_map]
  refine nodup_range.map fun a b h => ?_
  simpa using congrArg List.length h

/-- The default does not grow with a TopN whose double is not an int. -/
theorem select_default_overflow :
    (⟨2^62,1,0⟩ : Options).defaults.Positive ∧ ((numbered 201).map key).Nodup ∧
      (⟨2^62,1,0⟩ : Options).defaults.maxKeys <
        ((freshSet intComparisons (.insertion _) (⟨2^62,1,0⟩ : Options).defaults (numbered 201)).length : ℤ) := by
  have hlen : (numbered 201).length = 201 := by rw [numbered,length_map,length_range]
  have htop : (⟨2^62,1,0⟩ : Options).defaults.topN.toNat = 2^62 := by decide
  refine ⟨⟨by decide,by decide,by decide⟩,nodup_numbered 201,?_⟩
  rw [length_freshSet_of_le _ _ (nodup_numbered 201) (by rw [hlen,htop]; decide),hlen]
  decide

end Pglens.Cardinality

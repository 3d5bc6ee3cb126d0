import Pglens.Lib.FinMap
import Pglens.Lib.Ranking
import Pglens.Lib.Tally
import Pglens.Lib.Text
import Pglens.Time
import Mathlib.Data.Finset.Prod
import Mathlib.Tactic.Abel

/-! foldASHGroups of internal/server: the largest groups over the range keep their rows, the others
become one row per time bucket. -/
namespace Pglens.Ash
open Pglens.Lib List

inductive Column
  | datname | waitEventType | waitEvent | state | queryid
  deriving DecidableEq, Repr

/-- ashBucket. The counts are of any ordered type with a sum: integers, or the int of Go, whose
sums wrap. -/
structure AshBucket (M : Type) where
  ts : Time
  samples : M
  ticks : ℤ
  avgActiveSessions : Option ℚ
  datname : Text
  waitEventType : Text
  waitEvent : Text
  state : Text
  queryID : Option Text
  deriving DecidableEq, Repr

def ashMaxGroups : ℤ := 24
def ashOther : Text := Text.utf8 "other"

section Code
variable {M : Type} [AddCommMonoid M] [LinearOrder M]

def AshBucket.zero : AshBucket M := ⟨Time.zero,0,0,none,[],[],[],[],none⟩

def keyOf (b : AshBucket M) : Text :=
  List.intercalate [0x00] [b.datname,b.waitEventType,b.waitEvent,b.state,b.queryID.getD []]

/-- What the row of the folded groups reads in a grouped column. -/
def readAsOther (b : AshBucket M) : Column → AshBucket M
  | .datname => { b with datname := ashOther }
  | .waitEventType => { b with waitEventType := ashOther }
  | .waitEvent => { b with waitEvent := ashOther }
  | .state => { b with state := ashOther }
  | .queryid => b

def template (groupByCols : List Column) : AshBucket M := groupByCols.foldl readAsOther .zero

def otherKey (M : Type) [AddCommMonoid M] (groupByCols : List Column) : Text :=
  keyOf (template groupByCols : AshBucket M)

def totals (rows : List (AshBucket M)) : Tally Text M := Tally.of keyOf AshBucket.samples rows

/-- The number of groups that keep their rows. -/
def keepGroups (nBuckets limit : ℤ) : ℤ :=
  if 0<nBuckets then
    let fit := limit.tdiv nBuckets-1
    if fit<ashMaxGroups then max fit 1 else ashMaxGroups
  else ashMaxGroups

def groupLess (totals : Tally Text M) (k k' : Text) : Bool :=
  if totals.get k ≠ totals.get k' then descending (totals.get k) (totals.get k') else ascending k k'

variable (s : SliceSort Text) (r : Ranging Text)

def rankedKeys (rows : List (AshBucket M)) (groupByCols : List Column) : List Text :=
  s.sort (groupLess (totals rows)) ((r.visit (totals rows).keys).filter (· ≠ otherKey M groupByCols))

/-- The rows put out so far, and where each time bucket has its row of folded groups. -/
structure Folding (M : Type) where
  out : List (AshBucket M)
  other : FinMap Time ℕ

def foldRow (kept : List Text) (groupByCols : List Column) (f : Folding M) (b : AshBucket M) : Folding M :=
  if keyOf b ∈ kept then { f with out := f.out++[b] }
  else
    match f.other.get b.ts with
    | some i => { f with out := f.out.modify i fun o => { o with samples := o.samples+b.samples } }
    | none =>
      ⟨f.out++[{ (template groupByCols : AshBucket M) with ts := b.ts, samples := b.samples, ticks := b.ticks }],
        f.other.set b.ts f.out.length⟩

def foldASHGroups (rows : List (AshBucket M)) (groupByCols : List Column) (nBuckets limit : ℤ) :
    List (AshBucket M) :=
  let keep := keepGroups nBuckets limit
  if ((totals rows).entries.length : ℤ) ≤ keep+1 then rows
  else
    let kept := (rankedKeys s r rows groupByCols).take keep.toNat
    (rows.foldl (foldRow kept groupByCols) ⟨[],FinMap.empty⟩).out

end Code

section Loop
variable {M : Type} [AddCommMonoid M] {kept : List Text} {groupByCols : List Column}
  {rows : List (AshBucket M)} {f : Folding M} {b : AshBucket M}

def place (b : AshBucket M) : Time × Text := (b.ts,keyOf b)

def samplesAt (rows : List (AshBucket M)) (t : Time) : M := Tally.weigh AshBucket.ts AshBucket.samples rows t

/-- An answer has the samples and the ticks of the rows at every bucket time. -/
structure Conserves (rows out : List (AshBucket M)) : Prop where
  samples : ∀ t, samplesAt out t = samplesAt rows t
  ticks : ∀ o∈out, ∃ b∈rows, b.ts=o.ts ∧ b.ticks=o.ticks
  times : ∀ b∈rows, ∃ o∈out, o.ts=b.ts

namespace Conserves
variable {out : List (AshBucket M)} {o : AshBucket M}

lemma refl (rows : List (AshBucket M)) : Conserves rows rows where
  samples _ := rfl
  ticks o ho := ⟨o,ho,rfl,rfl⟩
  times b hb := ⟨b,hb,rfl⟩

lemma append (h : Conserves rows out) (hts : o.ts=b.ts) (hsamples : o.samples=b.samples)
    (hticks : o.ticks=b.ticks) : Conserves (rows++[b]) (out++[o]) where
  samples t := by
    have hsum := h.samples t
    unfold samplesAt at hsum ⊢
    rw [Tally.weigh_append,Tally.weigh_append,hsum,Tally.weigh_cons,Tally.weigh_cons,hts,hsamples]
  ticks := by
    intro o' ho'
    obtain ho' | ho' := mem_append.mp ho'
    · obtain ⟨b',hb',hrest⟩ := h.ticks o' ho'
      exact ⟨b',mem_append_left _ hb',hrest⟩
    · rw [mem_singleton.mp ho',hts,hticks]
      exact ⟨b,by simp,rfl,rfl⟩
  times := by
    intro b' hb'
    obtain hb' | hb' := mem_append.mp hb'
    · obtain ⟨o',ho',hts'⟩ := h.times b' hb'
      exact ⟨o',mem_append_left _ ho',hts'⟩
    · rw [mem_singleton.mp hb',← hts]
      exact ⟨o,by simp,rfl⟩

lemma add {l l' : List (AshBucket M)} (h : Conserves rows (l++o::l')) (hts : o.ts=b.ts) :
    Conserves (rows++[b]) (l++{ o with samples := o.samples+b.samples }::l') where
  samples t := by
    have hsum := h.samples t
    unfold samplesAt at hsum ⊢
    simp only [Tally.weigh_append,Tally.weigh_cons,Tally.weigh_nil,hts] at hsum ⊢
    rw [← hsum]
    split_ifs
    · abel
    · simp
  ticks := by
    intro o' ho'
    have hold : ∃ o'' ∈ l++o::l', o''.ts=o'.ts ∧ o''.ticks=o'.ticks := by
      simp only [mem_append,mem_cons] at ho' ⊢
      obtain ho' | rfl | ho' := ho'
      · exact ⟨o',.inl ho',rfl,rfl⟩
      · exact ⟨o,.inr (.inl rfl),rfl,rfl⟩
      · exact ⟨o',.inr (.inr ho'),rfl,rfl⟩
    obtain ⟨o'',ho'',hts',hticks'⟩ := hold
    obtain ⟨b',hb',hts'',hticks''⟩ := h.ticks o'' ho''
    exact ⟨b',mem_append_left _ hb',hts''.trans hts',hticks''.trans hticks'⟩
  times := by
    intro b' hb'
    have hold : ∃ o' ∈ l++o::l', o'.ts=b'.ts := by
      obtain hb' | hb' := mem_append.mp hb'
      · exact h.times b' hb'
      · exact ⟨o,by simp,by rw [mem_singleton.mp hb',hts]⟩
    obtain ⟨o',ho',hts'⟩ := hold
    simp only [mem_append,mem_cons] at ho' ⊢
    obtain ho' | rfl | ho' := ho'
    · exact ⟨o',.inl ho',hts'⟩
    · exact ⟨_,.inr (.inl rfl),hts'⟩
    · exact ⟨o',.inr (.inr ho'),hts'⟩

end Conserves

/-- What the loop has put out for the rows read so far. -/
structure Folded (kept : List Text) (groupByCols : List Column) (rows : List (AshBucket M)) (f : Folding M) :
    Prop where
  kept_rows : f.out.filter (keyOf · ∈ kept) = rows.filter (keyOf · ∈ kept)
  at_index : ∀ t i, f.other.get t = some i → ∃ o, f.out[i]? = some o ∧ o.ts=t ∧ keyOf o ∉ kept
  folded_row : ∀ o∈f.out, keyOf o ∉ kept → keyOf o = otherKey M groupByCols ∧
    (f.other.get o.ts).isSome = true
  unique : (f.out.map place).Nodup
  conserves : Conserves rows f.out

namespace Folded

lemma empty : Folded kept groupByCols ([] : List (AshBucket M)) ⟨[],FinMap.empty⟩ where
  kept_rows := rfl
  at_index := by simp
  folded_row := by simp
  unique := nodup_nil
  conserves := .refl []

lemma keep (h : Folded kept groupByCols rows f) (hb : keyOf b ∈ kept) (hnew : place b ∉ rows.map place) :
    Folded kept groupByCols (rows++[b]) { f with out := f.out++[b] } where
  kept_rows := by rw [filter_append,filter_append,h.kept_rows]
  at_index := by
    intro t i hi
    obtain ⟨o,ho,hrest⟩ := h.at_index t i hi
    exact ⟨o,getElem?_append_left (List.getElem?_eq_some_iff.mp ho).1 ▸ ho,hrest⟩
  folded_row := by
    intro o ho hkept
    obtain ho | ho := mem_append.mp ho
    · exact h.folded_row o ho hkept
    · rw [mem_singleton.mp ho] at hkept
      exact absurd hb hkept
  unique := by
    rw [map_append,map_singleton]
    refine h.unique.append (nodup_singleton _) (disjoint_singleton.mpr fun hmem => hnew ?_)
    -- a row in the same place is one of a kept group, hence a row read before
    obtain ⟨o,ho,hplace⟩ := mem_map.mp hmem
    have hkey : keyOf o = keyOf b := congrArg Prod.snd hplace
    have hread : o ∈ rows.filter (keyOf · ∈ kept) := by
      rw [← h.kept_rows,mem_filter]
      exact ⟨ho,by simpa [hkey] using hb⟩
    exact hplace ▸ mem_map_of_mem (mem_filter.mp hread).1
  conserves := h.conserves.append rfl rfl rfl

lemma begin (h : Folded kept groupByCols rows f) (hother : otherKey M groupByCols ∉ kept) (hb : keyOf b ∉ kept)
    (hnone : f.other.get b.ts=none) {o : AshBucket M} (hkey : keyOf o=otherKey M groupByCols)
    (hts : o.ts=b.ts) (hsamples : o.samples=b.samples) (hticks : o.ticks=b.ticks) :
    Folded kept groupByCols (rows++[b]) ⟨f.out++[o],f.other.set b.ts f.out.length⟩ where
  kept_rows := by
    rw [filter_append,filter_append,h.kept_rows]
    simp [hkey,hother,hb]
  at_index := by
    intro t i hi
    by_cases ht : t=b.ts
    · subst ht
      rw [FinMap.get_set_self,Option.some.injEq] at hi
      subst hi
      exact ⟨o,by simp,hts,hkey ▸ hother⟩
    · rw [FinMap.get_set_of_ne _ _ ht] at hi
      obtain ⟨o',ho',hrest⟩ := h.at_index t i hi
      exact ⟨o',getElem?_append_left (List.getElem?_eq_some_iff.mp ho').1 ▸ ho',hrest⟩
  folded_row := by
    intro o' ho' hkept
    by_cases ht : o'.ts=b.ts
    · obtain ho' | ho' := mem_append.mp ho'
      · exact ⟨(h.folded_row o' ho' hkept).1,by simp [ht]⟩
      · exact ⟨mem_singleton.mp ho' ▸ hkey,by simp [ht]⟩
    · obtain ho' | ho' := mem_append.mp ho'
      · rw [FinMap.get_set_of_ne _ _ ht]
        exact h.folded_row o' ho' hkept
      · exact absurd (mem_singleton.mp ho' ▸ hts) ht
  unique := by
    rw [map_append,map_singleton]
    refine h.unique.append (nodup_singleton _) (disjoint_singleton.mpr fun hmem => ?_)
    obtain ⟨o',ho',hplace⟩ := mem_map.mp hmem
    obtain ⟨hts',hkey'⟩ := Prod.ext_iff.mp hplace
    have hsome := (h.folded_row o' ho' (by rw [show keyOf o'=keyOf o from hkey',hkey]; exact hother)).2
    rw [show o'.ts=o.ts from hts',hts,hnone] at hsome
    cases hsome
  conserves := h.conserves.append hts hsamples hticks

lemma add (h : Folded kept groupByCols rows f) (hb : keyOf b ∉ kept) {i : ℕ}
    (hi : f.other.get b.ts=some i) :
    Folded kept groupByCols (rows++[b])
      { f with out := f.out.modify i fun o => { o with samples := o.samples+b.samples } } := by
  obtain ⟨o,ho,hts,hkey⟩ := h.at_index b.ts i hi
  obtain ⟨l,o',l',hout,hlen,hmodify⟩ := exists_of_modify
    (fun o : AshBucket M => { o with samples := o.samples+b.samples }) (List.getElem?_eq_some_iff.mp ho).1
  obtain rfl : o'=o := by
    rw [hout,← hlen] at ho
    simpa using ho
  have hmem : ∀ o ∈ f.out.modify i fun o => { o with samples := o.samples+b.samples },
      ∃ o'∈f.out, o'.ts=o.ts ∧ keyOf o' = keyOf o := by
    intro o ho
    rw [hmodify] at ho
    rw [hout]
    simp only [mem_append,mem_cons] at ho ⊢
    obtain ho | rfl | ho := ho
    · exact ⟨o,.inl ho,rfl,rfl⟩
    · exact ⟨o',.inr (.inl rfl),rfl,rfl⟩
    · exact ⟨o,.inr (.inr ho),rfl,rfl⟩
  refine ⟨?_,?_,?_,?_,?_⟩
  · have hkey' : keyOf { o' with samples := o'.samples+b.samples } ∉ kept := hkey
    rw [filter_append,← h.kept_rows,hmodify,hout]
    simp [hkey,hkey',hb]
  · intro t j hj
    obtain ⟨o,ho,hts',hkey'⟩ := h.at_index t j hj
    rw [getElem?_modify,ho]
    split_ifs
    · exact ⟨_,rfl,hts',hkey'⟩
    · exact ⟨_,rfl,hts',hkey'⟩
  · intro o ho hkept
    obtain ⟨o',ho',hts',hkey'⟩ := hmem o ho
    rw [← hts',← hkey']
    exact h.folded_row o' ho' (hkey' ▸ hkept)
  · have hplaces : (f.out.modify i fun o => { o with samples := o.samples+b.samples }).map place =
        f.out.map place := by
      rw [hmodify,hout]
      simp [place,keyOf]
    rw [hplaces]
    exact h.unique
  · have hconserves := h.conserves
    rw [hout] at hconserves
    rw [hmodify]
    exact hconserves.add hts

lemma foldRow (h : Folded kept groupByCols rows f) (hother : otherKey M groupByCols ∉ kept)
    (hnew : place b ∉ rows.map place) :
    Folded kept groupByCols (rows++[b]) (foldRow kept groupByCols f b) := by
  unfold Ash.foldRow
  split_ifs with hb
  · exact h.keep hb hnew
  · cases hi : f.other.get b.ts with
    | none => exact h.begin hother hb hi rfl rfl rfl rfl
    | some i => exact h.add hb hi

lemma loop (hother : otherKey M groupByCols ∉ kept) (hunique : (rows.map place).Nodup) :
    Folded kept groupByCols rows (rows.foldl (Ash.foldRow kept groupByCols) ⟨[],FinMap.empty⟩) := by
  induction rows using List.reverseRecOn with
  | nil => exact .empty
  | append_singleton rows b ih =>
    rw [map_append,map_singleton,nodup_append] at hunique
    rw [foldl_append]
    exact (ih hunique.1).foldRow hother fun hmem => hunique.2.2 _ hmem _ (mem_singleton_self _) rfl

end Folded

end Loop

section Answer
variable {M : Type} [AddCommMonoid M]

def groups (rows : List (AshBucket M)) : Finset Text := (rows.map keyOf).toFinset

def bucketTimes (rows : List (AshBucket M)) : Finset Time := (rows.map AshBucket.ts).toFinset

lemma length_entries_totals (rows : List (AshBucket M)) :
    (totals rows).entries.length = (groups rows).card := by
  have hkeys : (totals rows).keys.toFinset = groups rows := by
    ext k
    rw [mem_toFinset,totals,Tally.mem_keys_of,groups,mem_toFinset]
  rw [← hkeys,Tally.keys,toFinset_card_of_nodup (totals rows).nodup,length_map]

omit [AddCommMonoid M] in
lemma length_le_of_unique {rows : List (AshBucket M)} (h : (rows.map place).Nodup) :
    rows.length ≤ (bucketTimes rows).card*(groups rows).card := by
  have hsub : (rows.map place).toFinset ⊆ bucketTimes rows ×ˢ groups rows := by
    intro p hp
    obtain ⟨b,hb,rfl⟩ := mem_map.mp (mem_toFinset.mp hp)
    rw [Finset.mem_product,bucketTimes,groups,mem_toFinset,mem_toFinset]
    exact ⟨mem_map_of_mem hb,mem_map_of_mem hb⟩
  calc rows.length = (rows.map place).toFinset.card := by
        rw [toFinset_card_of_nodup h,length_map]
    _ ≤ _ := Finset.card_le_card hsub
    _ = _ := Finset.card_product _ _

lemma Conserves.bucketTimes_eq {rows out : List (AshBucket M)} (h : Conserves rows out) :
    bucketTimes out = bucketTimes rows := by
  ext t
  simp only [bucketTimes,mem_toFinset,mem_map]
  constructor
  · rintro ⟨o,ho,rfl⟩
    obtain ⟨b,hb,hts,-⟩ := h.ticks o ho
    exact ⟨b,hb,hts⟩
  · rintro ⟨b,hb,rfl⟩
    exact h.times b hb

lemma one_le_keepGroups (nBuckets limit : ℤ) : 1 ≤ keepGroups nBuckets limit := by
  unfold keepGroups ashMaxGroups
  dsimp only
  split_ifs <;> omega

lemma mul_keepGroups_le {nBuckets limit : ℤ} (h : 0≤nBuckets) (hlimit : 1≤limit) :
    nBuckets*(keepGroups nBuckets limit+1) ≤ max limit (2*nBuckets) := by
  obtain hpos | rfl := h.lt_or_eq
  · have hmul : nBuckets*limit.tdiv nBuckets ≤ limit := Int.mul_tdiv_self_le (by omega)
    unfold keepGroups ashMaxGroups
    rw [if_pos hpos]
    dsimp only
    split_ifs with hfit
    · obtain hone | hone := le_or_gt (limit.tdiv nBuckets-1) 1
      · rw [max_eq_right hone]
        exact le_max_of_le_right (by linarith)
      · rw [max_eq_left hone.le,sub_add_cancel]
        exact le_max_of_le_left hmul
    · exact le_max_of_le_left (by nlinarith)
  · simp

variable [LinearOrder M]

lemma groupLess_strictTotalOn (t : Tally Text M) (l : List Text) : StrictTotalOn (groupLess t) l :=
  (strictTotal_descending.lexLess strictTotal_ascending).comap_on (fun k => (t.get k,k))
    fun _ _ _ _ heq => congrArg Prod.snd heq

variable (s : SliceSort Text) (r : Ranging Text) (rows : List (AshBucket M))
  (groupByCols : List Column) (nBuckets limit : ℤ)

/-- The groups whose rows stay as they are: all of them where they fit. -/
def keptGroups : List Text :=
  let keep := keepGroups nBuckets limit
  if ((totals rows).entries.length : ℤ) ≤ keep+1 then (totals rows).keys
  else (rankedKeys s r rows groupByCols).take keep.toNat

variable {s r rows groupByCols nBuckets limit}

lemma mem_rankedKeys {k : Text} :
    k ∈ rankedKeys s r rows groupByCols ↔ k ∈ rows.map keyOf ∧ k ≠ otherKey M groupByCols := by
  rw [rankedKeys,s.mem_sort,mem_filter,(r.perm _).mem_iff,totals,Tally.mem_keys_of,decide_eq_true_iff]

lemma nodup_rankedKeys : (rankedKeys s r rows groupByCols).Nodup :=
  s.nodup_sort _ (((r.perm _).nodup_iff.mpr (totals rows).nodup).filter _)

lemma le_length_rankedKeys (s : SliceSort Text) (r : Ranging Text) (rows : List (AshBucket M))
    (groupByCols : List Column) :
    (totals rows).entries.length ≤ (rankedKeys s r rows groupByCols).length+1 := by
  have hsub : groups rows ⊆ insert (otherKey M groupByCols) (rankedKeys s r rows groupByCols).toFinset := by
    intro k hk
    rw [Finset.mem_insert,mem_toFinset,mem_rankedKeys]
    by_cases hother : k = otherKey M groupByCols
    · exact .inl hother
    · exact .inr ⟨mem_toFinset.mp hk,hother⟩
  calc (totals rows).entries.length = (groups rows).card := length_entries_totals rows
    _ ≤ _ := Finset.card_le_card hsub
    _ ≤ (rankedKeys s r rows groupByCols).toFinset.card+1 := Finset.card_insert_le _ _
    _ = _ := by rw [toFinset_card_of_nodup nodup_rankedKeys]

def rangeTotal (rows : List (AshBucket M)) (k : Text) : M := Tally.weigh keyOf AshBucket.samples rows k

variable (s r groupByCols nBuckets limit)

section Unique
variable (hunique : (rows.map place).Nodup)
include hunique

lemma foldASHGroups_cases :
    (((groups rows).card : ℤ) ≤ keepGroups nBuckets limit+1 ∧
      keptGroups s r rows groupByCols nBuckets limit=(totals rows).keys ∧
      foldASHGroups s r rows groupByCols nBuckets limit=rows) ∨
    ∃ f, keptGroups s r rows groupByCols nBuckets limit =
        (rankedKeys s r rows groupByCols).take (keepGroups nBuckets limit).toNat ∧
      ((keptGroups s r rows groupByCols nBuckets limit).length : ℤ) = keepGroups nBuckets limit ∧
      foldASHGroups s r rows groupByCols nBuckets limit = f.out ∧
      Folded (keptGroups s r rows groupByCols nBuckets limit) groupByCols rows f := by
  have hpos := one_le_keepGroups nBuckets limit
  have hranked := le_length_rankedKeys s r rows groupByCols
  rw [← length_entries_totals]
  unfold keptGroups foldASHGroups
  dsimp only
  split_ifs with hfits
  · exact .inl ⟨hfits,rfl,rfl⟩
  · refine .inr ⟨_,rfl,?_,rfl,Folded.loop ?_ hunique⟩
    · rw [length_take]
      omega
    · exact fun hmem => (mem_rankedKeys.mp (mem_of_mem_take hmem)).2 rfl

lemma conserves_foldASHGroups :
    Conserves rows (foldASHGroups s r rows groupByCols nBuckets limit) := by
  obtain ⟨-,-,hout⟩ | ⟨f,-,-,hout,hfolded⟩ := foldASHGroups_cases s r groupByCols nBuckets limit hunique
  · rw [hout]
    exact .refl rows
  · exact hout ▸ hfolded.conserves

lemma nodup_foldASHGroups :
    ((foldASHGroups s r rows groupByCols nBuckets limit).map place).Nodup := by
  obtain ⟨-,-,hout⟩ | ⟨f,-,-,hout,hfolded⟩ := foldASHGroups_cases s r groupByCols nBuckets limit hunique
  · rw [hout]
    exact hunique
  · exact hout ▸ hfolded.unique

lemma kept_or_other :
    ∀ o ∈ foldASHGroups s r rows groupByCols nBuckets limit,
      keyOf o ∉ keptGroups s r rows groupByCols nBuckets limit → keyOf o = otherKey M groupByCols := by
  intro o ho hkept
  obtain ⟨-,hkeys,hout⟩ | ⟨f,-,-,hout,hfolded⟩ := foldASHGroups_cases s r groupByCols nBuckets limit hunique
  · rw [hkeys,totals,Tally.mem_keys_of] at hkept
    rw [hout] at ho
    exact absurd (mem_map_of_mem ho) hkept
  · rw [hout] at ho
    exact (hfolded.folded_row o ho hkept).1

lemma card_groups_foldASHGroups :
    ((groups (foldASHGroups s r rows groupByCols nBuckets limit)).card : ℤ) ≤ keepGroups nBuckets limit+1 := by
  obtain ⟨hcard,-,hout⟩ | ⟨f,-,hlen,hout,-⟩ := foldASHGroups_cases s r groupByCols nBuckets limit hunique
  · rw [hout]
    exact hcard
  · have hsub : groups (foldASHGroups s r rows groupByCols nBuckets limit) ⊆
        insert (otherKey M groupByCols) (keptGroups s r rows groupByCols nBuckets limit).toFinset := by
      intro k hk
      obtain ⟨o,ho,rfl⟩ := mem_map.mp (mem_toFinset.mp hk)
      rw [Finset.mem_insert,mem_toFinset,or_iff_not_imp_right]
      exact kept_or_other s r groupByCols nBuckets limit hunique o ho
    have hcard := (Finset.card_le_card hsub).trans (Finset.card_insert_le _ _)
    have hkept := toFinset_card_le (keptGroups s r rows groupByCols nBuckets limit)
    omega

lemma kept_unchanged {k : Text}
    (hk : k ∈ keptGroups s r rows groupByCols nBuckets limit) :
    (foldASHGroups s r rows groupByCols nBuckets limit).filter (keyOf · = k) = rows.filter (keyOf · = k) := by
  obtain ⟨-,-,hout⟩ | ⟨f,-,-,hout,hfolded⟩ := foldASHGroups_cases s r groupByCols nBuckets limit hunique
  · rw [hout]
  · have hfilter : ∀ l : List (AshBucket M), l.filter (keyOf · = k) =
        (l.filter (keyOf · ∈ keptGroups s r rows groupByCols nBuckets limit)).filter (keyOf · = k) := by
      intro l
      rw [filter_filter]
      refine filter_congr fun b _ => ?_
      by_cases hb : keyOf b = k <;> simp [hb,hk]
    rw [hout,hfilter,hfolded.kept_rows,← hfilter]

lemma folded_le_kept {k k' : Text}
    (hk : k ∈ keptGroups s r rows groupByCols nBuckets limit) (hgroup : k' ∈ groups rows)
    (hk' : k' ∉ keptGroups s r rows groupByCols nBuckets limit)
    (hother : k' ≠ otherKey M groupByCols) : rangeTotal rows k' ≤ rangeTotal rows k := by
  obtain ⟨-,hkeys,-⟩ | ⟨f,hkept,-⟩ := foldASHGroups_cases s r groupByCols nBuckets limit hunique
  · rw [hkeys,totals,Tally.mem_keys_of] at hk'
    exact absurd (mem_toFinset.mp hgroup) hk'
  · rw [hkept] at hk hk'
    have hranked : k' ∈ rankedKeys s r rows groupByCols := mem_rankedKeys.mpr ⟨mem_toFinset.mp hgroup,hother⟩
    rw [← take_append_drop (keepGroups nBuckets limit).toNat (rankedKeys s r rows groupByCols),
      mem_append] at hranked
    have hless := s.not_less_of_take (groupLess_strictTotalOn _ _) hk (hranked.resolve_left hk')
    unfold rangeTotal
    rw [← Tally.get_of,← Tally.get_of]
    change groupLess (totals rows) k' k = false at hless
    unfold groupLess at hless
    split_ifs at hless with hne
    · exact not_lt.mp (of_decide_eq_false hless)
    · exact (not_not.mp hne).le

end Unique

/-- A grouped answer has the samples and the ticks of its rows at every bucket time, one row in
each place and at most one group more than it keeps. The kept groups have their rows as they
were, no folded group is larger than a kept one, and the rows fit the limit or are two a bucket. -/
theorem ash_fold_conserves (hunique : (rows.map place).Nodup)
    (hticks : ∀ b∈rows, ∀ b'∈rows, b.ts=b'.ts → b.ticks=b'.ticks)
    (hbuckets : nBuckets=(bucketTimes rows).card) (hlimit : 1≤limit) :
    let out := foldASHGroups s r rows groupByCols nBuckets limit
    let kept := keptGroups s r rows groupByCols nBuckets limit
    (∀ t, samplesAt out t=samplesAt rows t) ∧
    (∀ t n, (∃ o∈out, o.ts=t ∧ o.ticks=n) ↔ ∃ b∈rows, b.ts=t ∧ b.ticks=n) ∧
    (out.map place).Nodup ∧
    ((groups out).card : ℤ) ≤ keepGroups nBuckets limit+1 ∧
    ((∀ k ∈ groups rows, k∈kept) ∨ (kept.length : ℤ)=keepGroups nBuckets limit) ∧
    (∀ k∈kept, out.filter (keyOf · = k)=rows.filter (keyOf · = k)) ∧
    (∀ o∈out, keyOf o ∉ kept → keyOf o=otherKey M groupByCols) ∧
    (∀ k∈kept, ∀ k' ∈ groups rows, k' ∉ kept → k' ≠ otherKey M groupByCols →
      rangeTotal rows k' ≤ rangeTotal rows k) ∧
    (out.length : ℤ) ≤ max limit (2*nBuckets) := by
  have hconserves := conserves_foldASHGroups s r groupByCols nBuckets limit hunique
  have hnodup := nodup_foldASHGroups s r groupByCols nBuckets limit hunique
  have hgroups := card_groups_foldASHGroups s r groupByCols nBuckets limit hunique
  refine ⟨hconserves.samples,fun t n => ⟨?_,?_⟩,hnodup,hgroups,?_,
    fun k => kept_unchanged s r groupByCols nBuckets limit hunique,
    kept_or_other s r groupByCols nBuckets limit hunique,
    fun k hk k' => folded_le_kept s r groupByCols nBuckets limit hunique hk,?_⟩
  · rintro ⟨o,ho,rfl,rfl⟩
    exact hconserves.ticks o ho
  · rintro ⟨b,hb,rfl,rfl⟩
    obtain ⟨o,ho,hts⟩ := hconserves.times b hb
    obtain ⟨b',hb',hts',hticks'⟩ := hconserves.ticks o ho
    exact ⟨o,ho,hts,hticks'.symm.trans (hticks b' hb' b hb (hts'.trans hts))⟩
  · obtain ⟨-,hkeys,-⟩ | ⟨f,-,hlen,-⟩ := foldASHGroups_cases s r groupByCols nBuckets limit hunique
    · left
      intro k hk
      rw [hkeys,totals,Tally.mem_keys_of]
      exact mem_toFinset.mp hk
    · exact .inr hlen
  · have hlen := length_le_of_unique hnodup
    rw [hconserves.bucketTimes_eq] at hlen
    calc ((foldASHGroups s r rows groupByCols nBuckets limit).length : ℤ)
        ≤ (bucketTimes rows).card*(groups (foldASHGroups s r rows groupByCols nBuckets limit)).card := by
          exact_mod_cast hlen
      _ ≤ nBuckets*(keepGroups nBuckets limit+1) := by
          rw [← hbuckets]
          exact Int.mul_le_mul_of_nonneg_left hgroups (by omega)
      _ ≤ max limit (2*nBuckets) := mul_keepGroups_le (by omega) hlimit

end Answer

def databaseRow (datname : Text) (samples : ℤ) : AshBucket ℤ :=
  ⟨Time.zero,samples,10,none,datname,[],[],[],none⟩

/-- Three databases in one bucket, with room for two rows. -/
theorem ash_fold_three_databases :
    samplesAt (foldASHGroups (.insertion Text) ⟨id,fun _ => .rfl⟩
      [databaseRow [0x61] 3,databaseRow [0x62] 5,databaseRow [0x63] 2] [.datname] 1 2) Time.zero = 10 :=
  ((ash_fold_conserves (.insertion Text) ⟨id,fun _ => .rfl⟩ [.datname] 1 2 (by decide) (by decide) (by decide)
    (by decide)).1 Time.zero).trans (by decide)

end Pglens.Ash

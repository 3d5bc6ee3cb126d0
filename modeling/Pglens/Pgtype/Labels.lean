import Pglens.Lib.Text
import Mathlib.Data.List.AList

/-! CanonicalLabels of internal/pgtype and the reader of internal/advisor. Keys and values are free
bytes, so the bytes that separate them are escaped inside them. -/
namespace Pglens.Pgtype
open Pglens.Lib List Text

/-- The unit separator, the escape byte and the equals sign. -/
def unitSep : UInt8 := 0x1f
def escapeByte : UInt8 := 0x1e
def equals : UInt8 := 0x3d

/-- A label map, in the order a range over it takes. -/
abbrev LabelMap := AList fun _ : Text => Text

def labelValueEscaper : List (Text × Text) :=
  [([escapeByte],[escapeByte,0x30]),([unitSep],[escapeByte,0x31])]

def labelKeyEscaper : List (Text × Text) :=
  [([escapeByte],[escapeByte,0x30]),([unitSep],[escapeByte,0x31]),([equals],[escapeByte,0x32])]

def labelUnescaper : List (Text × Text) :=
  [([escapeByte,0x30],[escapeByte]),([escapeByte,0x31],[unitSep]),([escapeByte,0x32],[equals])]

/-- One pair of a canonical string. -/
def labelPair (k v : Text) : Text :=
  replace labelKeyEscaper k++equals::replace labelValueEscaper v

def canonicalLabels (l : LabelMap) : Text :=
  if l.keys=[] then []
  else [unitSep].intercalate
    ((l.keys.insertionSort (· ≤ ·)).map fun k => labelPair k ((l.lookup k).getD []))

def unescapeLabel (s : Text) : Text := replace labelUnescaper s

/-- canonicalLabel: the value of a key, read back out of a canonical string. -/
def canonicalLabel (canonical key : Text) : Text :=
  ((canonical.splitOn unitSep).findSome? fun pair => (cut equals pair).bind fun kv =>
    if unescapeLabel kv.1=key then some (unescapeLabel kv.2) else none).getD []

lemma unescapeLabel_cons {b : UInt8} (h : b≠escapeByte) (s : Text) :
    unescapeLabel (b::s) = b::unescapeLabel s := by
  refine replace_cons_of_none fun p hp => ?_
  simp only [labelUnescaper,mem_cons,not_mem_nil,or_false] at hp
  obtain rfl | rfl | rfl := hp <;> simp [List.isPrefixOf,h.symm]

/-- What is written for one byte reads back as that byte, whatever follows it. -/
def ReadsBack (f : UInt8 → Text) : Prop := ∀ b t, unescapeLabel (f b++t) = b::unescapeLabel t

lemma ReadsBack.unescape {f : UInt8 → Text} (h : ReadsBack f) (s : Text) :
    unescapeLabel (s.flatMap f) = s := by
  induction s with
  | nil => rfl
  | cons b s ih => rw [flatMap_cons,h,ih]

lemma image_labelValueEscaper (b : UInt8) : image labelValueEscaper b =
    if b=escapeByte then [escapeByte,0x30] else if b=unitSep then [escapeByte,0x31] else [b] := by
  simp only [image,labelValueEscaper,find?_cons,find?_nil]
  grind

lemma image_labelKeyEscaper (b : UInt8) : image labelKeyEscaper b =
    if b=equals then [escapeByte,0x32] else image labelValueEscaper b := by
  rw [image_labelValueEscaper]
  simp only [image,labelKeyEscaper,find?_cons,find?_nil]
  grind [equals,escapeByte,unitSep]

lemma readsBack_value : ReadsBack (image labelValueEscaper) := by
  intro b t
  rw [image_labelValueEscaper]
  split_ifs with hesc hsep
  · rw [hesc]; rfl
  · rw [hsep]; rfl
  · exact unescapeLabel_cons hesc t

lemma readsBack_key : ReadsBack (image labelKeyEscaper) := by
  intro b t
  rw [image_labelKeyEscaper]
  split_ifs with heq
  · rw [heq]; rfl
  · exact readsBack_value b t

lemma unescapeLabel_value (v : Text) : unescapeLabel (replace labelValueEscaper v) = v := by
  rw [replace_eq_flatMap (by decide)]
  exact readsBack_value.unescape v

lemma unescapeLabel_key (k : Text) : unescapeLabel (replace labelKeyEscaper k) = k := by
  rw [replace_eq_flatMap (by decide)]
  exact readsBack_key.unescape k

lemma unitSep_not_mem_value (v : Text) : unitSep ∉ replace labelValueEscaper v := by
  rw [replace_eq_flatMap (by decide),mem_flatMap]
  rintro ⟨b,-,hb⟩
  rw [image_labelValueEscaper] at hb
  grind [escapeByte,unitSep]

lemma delimiter_not_mem_key {d : UInt8} (hd : d=unitSep ∨ d=equals) (k : Text) :
    d ∉ replace labelKeyEscaper k := by
  rw [replace_eq_flatMap (by decide),mem_flatMap]
  rintro ⟨b,-,hb⟩
  rw [image_labelKeyEscaper,image_labelValueEscaper] at hb
  grind [escapeByte,unitSep,equals]

lemma unitSep_not_mem_labelPair (k v : Text) : unitSep ∉ labelPair k v := by
  rw [labelPair,mem_append,mem_cons]
  rintro (hk | heq | hv)
  · exact delimiter_not_mem_key (.inl rfl) k hk
  · exact absurd heq (by decide)
  · exact unitSep_not_mem_value v hv

/-- The labels a canonical string holds, read pair by pair as canonicalLabel reads them. -/
def readLabels (canonical : Text) : List (Text × Text) :=
  (canonical.splitOn unitSep).filterMap fun pair =>
    (cut equals pair).map fun kv => (unescapeLabel kv.1,unescapeLabel kv.2)

/-- The labels of a map by sorted key, as CanonicalLabels writes them. -/
def sortedLabels (l : LabelMap) : List (Text × Text) :=
  (l.keys.insertionSort (· ≤ ·)).map fun k => (k,(l.lookup k).getD [])

lemma readLabels_intercalate (ps : List (Text × Text)) :
    readLabels ([unitSep].intercalate (ps.map fun p => labelPair p.1 p.2)) = ps := by
  by_cases hnil : ps=[]
  · rw [hnil]; decide
  have hsep : ∀ pair ∈ ps.map fun p => labelPair p.1 p.2, unitSep ∉ pair := by
    intro pair hpair
    obtain ⟨p,-,rfl⟩ := mem_map.mp hpair
    exact unitSep_not_mem_labelPair p.1 p.2
  have hread : ∀ p : Text × Text, ((cut equals (labelPair p.1 p.2)).map fun kv =>
      (unescapeLabel kv.1,unescapeLabel kv.2)) = some p := by
    intro p
    rw [labelPair,cut_append (delimiter_not_mem_key (.inr rfl) p.1),Option.map_some,
      unescapeLabel_key,unescapeLabel_value]
  rw [readLabels,splitOn_intercalate unitSep hsep (by simpa using hnil),filterMap_map]
  exact (filterMap_congr fun p _ => hread p).trans (filterMap_some)

lemma readLabels_canonicalLabels (l : LabelMap) :
    readLabels (canonicalLabels l) = sortedLabels l := by
  rw [← readLabels_intercalate (sortedLabels l),sortedLabels,map_map,canonicalLabels]
  split_ifs with hnil
  · rw [hnil]; rfl
  · rfl

lemma canonicalLabel_eq (canonical key : Text) : canonicalLabel canonical key =
    (((readLabels canonical).find? fun kv => kv.1=key).map Prod.snd).getD [] := by
  rw [canonicalLabel,readLabels]
  congr 1
  induction canonical.splitOn unitSep with
  | nil => rfl
  | cons pair ps ih =>
    rw [findSome?_cons,filterMap_cons]
    cases cut equals pair with
    | none => exact ih
    | some kv =>
      by_cases hkey : unescapeLabel kv.1 = key
      · simp [hkey]
      · simpa [hkey] using ih

lemma find_sortedLabels (l : LabelMap) (key : Text) :
    ((sortedLabels l).find? fun kv => kv.1=key).map Prod.snd = l.lookup key := by
  have hmem : key ∈ l.keys.insertionSort (· ≤ ·) ↔ key∈l := mem_insertionSort _
  rw [sortedLabels,find?_map,Option.map_map]
  by_cases hkey : key∈l
  · obtain ⟨v,hv⟩ := Option.isSome_iff_exists.mp (AList.lookup_isSome.mpr hkey)
    cases hfind : (l.keys.insertionSort (· ≤ ·)).find? _ with
    | none => exact absurd (find?_eq_none.mp hfind key (hmem.mpr hkey)) (by simp)
    | some k =>
      obtain rfl : k=key := by simpa using find?_some hfind
      simp [hv]
  · rw [AList.lookup_eq_none.mpr hkey,find?_eq_none.mpr]
    · rfl
    · intro k hk heq
      obtain rfl : k=key := by simpa using heq
      exact hkey (hmem.mp hk)

lemma canonicalLabels_congr {l l' : LabelMap} (h : ∀ k, l.lookup k=l'.lookup k) :
    canonicalLabels l = canonicalLabels l' := by
  have hmem : ∀ k, k∈l.keys ↔ k∈l'.keys := by
    intro k
    rw [← AList.mem_keys,← AList.mem_keys,← AList.lookup_isSome,h,AList.lookup_isSome]
  have hperm : l.keys.Perm l'.keys :=
    (perm_ext_iff_of_nodup l.keys_nodup l'.keys_nodup).mpr hmem
  have hsort : l.keys.insertionSort (· ≤ ·) = l'.keys.insertionSort (· ≤ ·) :=
    (((perm_insertionSort _ _).trans hperm).trans (perm_insertionSort _ _).symm).eq_of_pairwise'
      (pairwise_insertionSort _ _) (pairwise_insertionSort _ _)
  have hnil : l.keys=[] ↔ l'.keys=[] := by
    rw [← length_eq_zero_iff,hperm.length_eq,length_eq_zero_iff]
  simp only [canonicalLabels,hnil,hsort,h]

lemma canonicalLabels_inj {l l' : LabelMap} :
    canonicalLabels l = canonicalLabels l' ↔ ∀ k, l.lookup k = l'.lookup k := by
  refine ⟨fun heq k => ?_,canonicalLabels_congr⟩
  rw [← find_sortedLabels,← find_sortedLabels,← readLabels_canonicalLabels,heq,
    readLabels_canonicalLabels]

/-- Canonical strings are unambiguous, and canonicalLabel reads every value back. -/
theorem canonicalLabels_readable (l : LabelMap) :
    (∀ l' : LabelMap, canonicalLabels l=canonicalLabels l' ↔ ∀ k, l.lookup k=l'.lookup k) ∧
    (∀ k v, l.lookup k=some v → canonicalLabel (canonicalLabels l) k=v) ∧
    ∀ k, k ∉ l → canonicalLabel (canonicalLabels l) k = [] := by
  have hread : ∀ k, canonicalLabel (canonicalLabels l) k = (l.lookup k).getD [] := by
    intro k
    rw [canonicalLabel_eq,readLabels_canonicalLabels,find_sortedLabels]
  refine ⟨fun l' => canonicalLabels_inj,?_,?_⟩
  · intro k v hv
    rw [hread,hv,Option.getD_some]
  · intro k hk
    rw [hread,AList.lookup_eq_none.mpr hk,Option.getD_none]

end Pglens.Pgtype

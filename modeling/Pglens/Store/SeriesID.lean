import Pglens.Pgtype
import Pglens.Pgtype.Labels

/-! SeriesID of internal/store: an FNV-1a hash of the four fields of a series key, written one after
the other with a separator between them. The database name is written as it is. -/
namespace Pglens.Store
open Pglens.Lib Pglens.Pgtype

/-- pgtype.SeriesKey, with its strings as their bytes. -/
structure SeriesKey where
  metric : Text
  inst : UUID
  database : Text
  labels : Text
  deriving DecidableEq

/-- The digits that a uuid is written with. -/
def hextable : Text :=
  [0x30,0x31,0x32,0x33,0x34,0x35,0x36,0x37,0x38,0x39,0x61,0x62,0x63,0x64,0x65,0x66]

def dash : UInt8 := 0x2d

/-- What is used of String of the uuid package: different ids have different texts, of hex digits
and dashes. -/
class UUIDText where
  uuidString : UUID → Text
  injective : Function.Injective uuidString
  hex : ∀ {u : UUID} {b : UInt8}, b ∈ uuidString u → b ∈ dash::hextable

open UUIDText (uuidString)

/-- Some of the labels of one series stand at the end of the database name of another: the
database of `k'` is that of `k`, a separator and leading pairs of the labels of `k`, and the
labels of `k'` are the remaining pairs. -/
def Shifted (k k' : SeriesKey) : Prop :=
  k.metric = k'.metric ∧ k.inst=k'.inst ∧ ∃ moved,
    k'.database = k.database++unitSep::moved ∧ k.labels = moved++unitSep::k'.labels

lemma Shifted.ne {k k' : SeriesKey} (h : Shifted k k') : k≠k' := by
  obtain ⟨-,-,moved,hdb,-⟩ := h
  rintro rfl
  simpa using congrArg List.length hdb

section Hashed
variable [UUIDText]

/-- The writes of SeriesID, in order. -/
def writes (k : SeriesKey) : List Text :=
  [k.metric,[0x1f],uuidString k.inst,[0x1f],k.database,[0x1f],k.labels]

def hashed (k : SeriesKey) : Text := (writes k).flatten

def fnvWrite (h : UInt64) (s : Text) : UInt64 :=
  s.foldl (fun h c => (h ^^^ c.toUInt64)*1099511628211) h

def fnvOffset : UInt64 := 14695981039346656037

def seriesID (k : SeriesKey) : Int64 := ((writes k).foldl fnvWrite fnvOffset).toInt64

lemma seriesID_eq (k : SeriesKey) : seriesID k = (fnvWrite fnvOffset (hashed k)).toInt64 := by
  rw [seriesID,hashed,fnvWrite,List.foldl_flatten]
  rfl

lemma unitSep_not_mem_uuidString (u : UUID) : unitSep ∉ uuidString u :=
  fun h => absurd (UUIDText.hex h) (by decide)

lemma hashed_eq (k : SeriesKey) : hashed k = k.metric++unitSep::(uuidString k.inst ++
    unitSep::(k.database++unitSep::k.labels)) := by
  simp [hashed,writes,unitSep]

variable {k k' : SeriesKey}

lemma hashed_eq_iff (hk : unitSep ∉ k.metric) (hk' : unitSep ∉ k'.metric) :
    hashed k = hashed k' ↔ k.metric=k'.metric ∧ k.inst=k'.inst ∧
      k.database++unitSep::k.labels = k'.database++unitSep::k'.labels := by
  rw [hashed_eq,hashed_eq]
  constructor
  · intro h
    obtain ⟨hmetric,hrest⟩ := Text.append_sep_inj hk hk' h
    obtain ⟨hinst,hjoin⟩ := Text.append_sep_inj (unitSep_not_mem_uuidString _)
      (unitSep_not_mem_uuidString _) hrest
    exact ⟨hmetric,UUIDText.injective hinst,hjoin⟩
  · rintro ⟨hmetric,hinst,hjoin⟩
    rw [hmetric,hinst,hjoin]

/-- The keys that the pipeline builds: canonical labels, and a metric name without a separator. -/
structure WellFormed (k : SeriesKey) : Prop where
  labels : ∃ l, k.labels = canonicalLabels l
  metric : unitSep ∉ k.metric

lemma Shifted.hashed_eq (h : Shifted k k') : hashed k = hashed k' := by
  obtain ⟨hmetric,hinst,moved,hdb,hlabels⟩ := h
  rw [Store.hashed_eq,Store.hashed_eq,hmetric,hinst,hdb,hlabels]
  simp

lemma shifted_of_hashed_eq (hk : unitSep ∉ k.metric) (hk' : unitSep ∉ k'.metric)
    (h : hashed k=hashed k') : k=k' ∨ Shifted k k' ∨ Shifted k' k := by
  obtain ⟨hmetric,hinst,hjoin⟩ := (hashed_eq_iff hk hk').mp h
  obtain ⟨hdb,hlabels⟩ | hshift | hshift := Text.append_sep_cases hjoin
  · left
    cases k
    cases k'
    simp_all
  · exact .inr (.inl ⟨hmetric,hinst,hshift⟩)
  · exact .inr (.inr ⟨hmetric.symm,hinst.symm,hshift⟩)

/-- The bytes tell two series apart exactly if no labels are shifted between the two. -/
theorem hashed_apart {k k' : SeriesKey} (hk : WellFormed k) (hk' : WellFormed k') :
    (hashed k=hashed k' → k=k') ↔ ¬Shifted k k' ∧ ¬Shifted k' k := by
  constructor
  · intro h
    exact ⟨fun hs => hs.ne (h hs.hashed_eq),fun hs => hs.ne (h hs.hashed_eq.symm).symm⟩
  · rintro ⟨hl,hr⟩ heq
    obtain h | h | h := shifted_of_hashed_eq hk.metric hk'.metric heq
    · exact h
    · exact absurd h hl
    · exact absurd h hr

end Hashed

section Digits

def hexDigit (n : BitVec 4) : UInt8 := hextable.getD n.toNat 0

def uuidDigits (u : UUID) : Text := (List.range 32).map fun i => hexDigit (u.extractLsb' (4*(31-i)) 4)

lemma hexDigit_injective : Function.Injective hexDigit := by
  have hall : ∀ m n : Fin 16, hextable.getD m 0 = hextable.getD n 0 → m=n := by decide
  intro m n h
  exact BitVec.toFin_inj.mp (hall m.toFin n.toFin h)

lemma hexDigit_mem (n : BitVec 4) : hexDigit n ∈ hextable := by
  have hall : ∀ n : Fin 16, hextable.getD n 0 ∈ hextable := by decide
  exact hall n.toFin

lemma uuidDigits_injective : Function.Injective uuidDigits := by
  intro u v h
  refine BitVec.eq_of_getLsbD_eq fun i hi => ?_
  have hnibble : u.extractLsb' (4*(i/4)) 4 = v.extractLsb' (4*(i/4)) 4 := by
    have hmem := List.map_inj_left.mp h (31-i/4) (List.mem_range.mpr (by omega))
    have hpos : 31-(31-i/4) = i/4 := by omega
    rw [hpos] at hmem
    exact hexDigit_injective hmem
  have hbit := congrArg (fun n => n.getLsbD (i%4)) hnibble
  have hi4 : 4*(i/4)+i%4 = i := Nat.div_add_mod i 4
  simpa [BitVec.getLsbD_extractLsb',hi4,Nat.mod_lt] using hbit

lemma mem_uuidDigits {u : UUID} {b : UInt8} (h : b ∈ uuidDigits u) : b∈hextable := by
  obtain ⟨i,-,rfl⟩ := List.mem_map.mp h
  exact hexDigit_mem _

instance : UUIDText := ⟨uuidDigits,uuidDigits_injective,fun h => List.mem_cons_of_mem _ (mem_uuidDigits h)⟩

end Digits

def labelB : LabelMap := (∅ : LabelMap).insert [0x62] [0x32]

def twoLabels : SeriesKey :=
  { metric := [0x6d], inst := UUID.nil, database := [0x78],
    labels := canonicalLabels (labelB.insert [0x61] [0x31]) }

/-- The database whose name goes on with the label a, and the label b alone. -/
def oneLabel : SeriesKey :=
  { metric := [0x6d], inst := UUID.nil, database := [0x78,unitSep,0x61,equals,0x31],
    labels := canonicalLabels labelB }

lemma twoLabels_wellFormed : WellFormed twoLabels := ⟨⟨labelB.insert [0x61] [0x31],rfl⟩,by decide⟩

lemma oneLabel_wellFormed : WellFormed oneLabel := ⟨⟨labelB,rfl⟩,by decide⟩

/-- The same labels in a database y. -/
theorem hashed_apart_databases : hashed twoLabels ≠ hashed { twoLabels with database := [0x79] } := by
  have hother : WellFormed { twoLabels with database := [0x79] } :=
    ⟨⟨labelB.insert [0x61] [0x31],rfl⟩,by decide⟩
  intro heq
  refine absurd ((hashed_apart twoLabels_wellFormed hother).mpr ⟨?_,?_⟩ heq) (by decide)
  · rintro ⟨-,-,moved,hdb,-⟩
    simp [twoLabels] at hdb
  · rintro ⟨-,-,moved,hdb,-⟩
    simp [twoLabels] at hdb

/-- Two series of two databases with the same bytes, and so the same id. -/
theorem seriesID_merges : WellFormed twoLabels ∧ WellFormed oneLabel ∧
    hashed twoLabels = hashed oneLabel ∧ seriesID twoLabels = seriesID oneLabel ∧
      twoLabels ≠ oneLabel := by
  have heq : hashed twoLabels = hashed oneLabel := by decide +kernel
  refine ⟨twoLabels_wellFormed,oneLabel_wellFormed,heq,?_,by decide⟩
  rw [seriesID_eq,seriesID_eq,heq]

end Pglens.Store

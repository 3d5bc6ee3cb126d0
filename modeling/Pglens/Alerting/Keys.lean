import Pglens.Alerting.Types
import Pglens.Store.SeriesID

/-! Key of internal/alert joins the rule, the subject and the canonical labels with slashes and
escapes none of them. Here are its bytes, for names and labels that are free bytes, and with them
the keys of the evaluator. -/
namespace Pglens.Alerting
open Pglens.Lib Pglens.Pgtype List Text
open Pglens.Store (UUIDText)
open Pglens.Store.UUIDText (uuidString)

def slash : UInt8 := 0x2f
def colon : UInt8 := 0x3a

structure Subject where
  clusterID : Option ℤ
  instanceID : Option UUID
  datname : Text
  labels : LabelMap

/-- The text of a cluster id, which a nil pointer leaves empty. -/
def clusterText : Option ℤ → Text
  | some id => Text.decimal id
  | none => []

lemma utf8_empty : Text.utf8 "" = [] := rfl

lemma slash_not_mem_clusterText (id : Option ℤ) : slash ∉ clusterText id := by
  cases id with
  | none => exact not_mem_nil
  | some id =>
    intro h
    obtain h | h := mem_decimal h
    · exact absurd h (by decide)
    · exact absurd h (by decide)

lemma clusterText_injective : Function.Injective clusterText := by
  intro id id' h
  cases id with
  | none => cases id' with
    | none => rfl
    | some id' => exact absurd h.symm (decimal_ne_nil id')
  | some id => cases id' with
    | none => exact absurd h (decimal_ne_nil id)
    | some id' => exact congrArg some (decimal_injective h)

/-- The same subject: the cluster of a cluster rule, the instance and the database of another. -/
def SameSubject (scope : Scope) (s s' : Subject) : Prop :=
  match scope with
  | .cluster => s.clusterID=s'.clusterID
  | _ => s.instanceID=s'.instanceID ∧ s.datname=s'.datname

/-- The same subject with the same labels. -/
def SameEpisode (scope : Scope) (s s' : Subject) : Prop :=
  SameSubject scope s s' ∧ ∀ k, s.labels.lookup k = s'.labels.lookup k

/-- Some of the label text of one subject stands at the end of the database name of the other:
its name goes on with a slash and that text, which a slash ends among the labels too. A rule of
instances writes no colon before an empty name, so there the first name is not empty. -/
def Shifted (scope : Scope) (s s' : Subject) : Prop :=
  scope ≠ .cluster ∧ (scope=.inst → s.datname≠[]) ∧ s.instanceID=s'.instanceID ∧ ∃ moved,
    s'.datname = s.datname++slash::moved ∧
      canonicalLabels s.labels = moved++slash::canonicalLabels s'.labels

variable {id : Text} {scope : Scope} {s s' : Subject}

lemma same_or_shifted_of_join (hscope : scope≠.cluster) (hid : s.instanceID=s'.instanceID)
    (hempty : scope=.inst → s.datname≠[] ∧ s'.datname≠[])
    (h : s.datname++slash::canonicalLabels s.labels=s'.datname++slash::canonicalLabels s'.labels) :
    SameEpisode scope s s' ∨ Shifted scope s s' ∨ Shifted scope s' s := by
  obtain ⟨hname,hlabels⟩ | ⟨m,hname,hlabels⟩ | ⟨m,hname,hlabels⟩ := append_sep_cases h
  · refine .inl ⟨?_,canonicalLabels_inj.mp hlabels⟩
    cases scope with
    | cluster => exact absurd rfl hscope
    | database => exact ⟨hid,hname⟩
    | inst => exact ⟨hid,hname⟩
  · exact .inr (.inl ⟨hscope,fun hs => (hempty hs).1,hid,m,hname,hlabels⟩)
  · exact .inr (.inr ⟨hscope,fun hs => (hempty hs).2,hid.symm,m,hname,hlabels⟩)

lemma Shifted.not_same (h : Shifted scope s s') : ¬SameEpisode scope s s' := by
  obtain ⟨hscope,-,-,m,hname,-⟩ := h
  rintro ⟨hsubject,-⟩
  have hdatname : s.datname=s'.datname := by
    cases scope with
    | cluster => exact absurd rfl hscope
    | database => exact hsubject.2
    | inst => exact hsubject.2
  rw [← hdatname] at hname
  simpa using congrArg List.length hname

lemma SameEpisode.symm (h : SameEpisode scope s s') : SameEpisode scope s' s := by
  refine ⟨?_,fun k => (h.2 k).symm⟩
  cases scope with
  | cluster => exact Eq.symm h.1
  | database => exact ⟨h.1.1.symm,h.1.2.symm⟩
  | inst => exact ⟨h.1.1.symm,h.1.2.symm⟩

section Keyed
variable [UUIDText]

/-- uuidText of a pointer to a UUID: a nil pointer prints as `<nil>`. -/
def instanceText : Option UUID → Text
  | some id => uuidString id
  | none => Text.utf8 "<nil>"

def subjectText (scope : Scope) (s : Subject) : Text :=
  match scope with
  | .cluster => clusterText s.clusterID
  | .database => instanceText s.instanceID++colon::s.datname
  | .inst => instanceText s.instanceID++if s.datname=[] then [] else colon::s.datname

def keyText (id : Text) (scope : Scope) (s : Subject) : Text :=
  id++slash::(subjectText scope s++slash::canonicalLabels s.labels)

section Evaluator
variable (codec : Codec)

def labelMap (l : Wire.Labels) : LabelMap :=
  l.foldr (fun p m => m.insert (Text.utf8 p.1) (Text.utf8 p.2)) ∅

def subjectOf (s : Sample) : Subject :=
  ⟨s.clusterID,s.instanceID,Text.utf8 s.datname,labelMap s.labels⟩

/-- A codec that writes UUIDs and labels as the packages do. -/
structure Codec.Writes : Prop where
  uuid : ∀ id, Text.utf8 (codec.uuidText id) = uuidString id
  labels : ∀ l, Text.utf8 (codec.canonicalLabels l) = Pgtype.canonicalLabels (labelMap l)

variable {codec}

lemma utf8_uuidText (h : codec.Writes) (id : Option UUID) :
    Text.utf8 (uuidText codec id) = instanceText id := by
  cases id with
  | none => rfl
  | some id => exact h.uuid id

lemma utf8_key (h : codec.Writes) (r : Rule) (s : Sample) :
    Text.utf8 (Key codec r s) = keyText (Text.utf8 r.id) r.scope (subjectOf s) := by
  have hsubject : ∀ subject, Text.utf8 (r.id++"/"++subject++"/"++codec.canonicalLabels s.labels) =
      Text.utf8 r.id++slash::(Text.utf8 subject++slash::canonicalLabels (labelMap s.labels)) := by
    intro subject
    simp only [utf8_append,h.labels,append_assoc]
    rfl
  have hcolon : Text.utf8 ":" = [colon] := rfl
  unfold Key
  dsimp only
  rw [hsubject,keyText]
  congr 3
  cases hscope : r.scope with
  | cluster => cases hid : s.clusterID <;> simp [subjectText,subjectOf,clusterText,hid,Text.decimal,utf8_empty]
  | database => simp [subjectText,subjectOf,utf8_append,utf8_uuidText h,hcolon]
  | inst =>
    by_cases hd : s.datname = ""
    · simp [subjectText,subjectOf,hd,utf8_uuidText h,utf8_empty]
    · have hne : Text.utf8 s.datname ≠ [] := fun hnil => hd (utf8_injective hnil)
      simp [subjectText,subjectOf,hd,hne,utf8_append,utf8_uuidText h,hcolon]

end Evaluator

section Unique

lemma mem_instanceText {id : Option UUID} {b : UInt8} (h : b ∈ instanceText id) :
    b ≠ slash ∧ b≠colon := by
  have hnil : ∀ b ∈ Text.utf8 "<nil>", b≠slash ∧ b≠colon := by decide +kernel
  have hhex : ∀ b ∈ Store.dash::Store.hextable, b≠slash ∧ b≠colon := by decide +kernel
  cases id with
  | none => exact hnil b h
  | some id => exact hhex b (UUIDText.hex h)

lemma instanceText_injective : Function.Injective instanceText := by
  have hnil : ∀ id : UUID, Text.utf8 "<nil>" ≠ uuidString id := by
    intro id h
    have hmem : (0x3c : UInt8) ∈ uuidString id := h ▸ by decide
    exact absurd (UUIDText.hex hmem) (by decide)
  intro id id' h
  cases id with
  | none => cases id' with
    | none => rfl
    | some id' => exact absurd h (hnil id')
  | some id => cases id' with
    | none => exact absurd h.symm (hnil id)
    | some id' => exact congrArg some (UUIDText.injective h)

lemma slash_not_mem_instanceText (id : Option UUID) : slash ∉ instanceText id :=
  fun h => (mem_instanceText h).1 rfl

lemma colon_not_mem_instanceText (id : Option UUID) : colon ∉ instanceText id :=
  fun h => (mem_instanceText h).2 rfl

lemma keyText_inj : keyText id scope s = keyText id scope s' ↔
    subjectText scope s++slash::canonicalLabels s.labels =
      subjectText scope s'++slash::canonicalLabels s'.labels := by
  simp [keyText]

lemma instanceText_join {i i' : Option UUID} {c c' : UInt8} {t t' : Text}
    (hc : c=slash ∨ c=colon) (hc' : c'=slash ∨ c'=colon)
    (h : instanceText i++c::t=instanceText i'++c'::t') : i=i' ∧ c=c' ∧ t=t' := by
  have hsep : ∀ {c i}, c=slash ∨ c=colon → c ∉ instanceText i := by
    rintro c i (rfl | rfl) h
    · exact slash_not_mem_instanceText i h
    · exact colon_not_mem_instanceText i h
  obtain ⟨hi,hrest⟩ | ⟨n,hi,-⟩ := append_cons_cases h (hsep hc')
  · exact ⟨instanceText_injective hi,hrest⟩
  · exact absurd (by simp [hi]) (hsep (i := i') hc)

lemma same_or_shifted (h : keyText id scope s=keyText id scope s') :
    SameEpisode scope s s' ∨ Shifted scope s s' ∨ Shifted scope s' s := by
  rw [keyText_inj] at h
  cases scope with
  | cluster =>
    obtain ⟨hid,hlabels⟩ :=
      append_sep_inj (slash_not_mem_clusterText _) (slash_not_mem_clusterText _) h
    exact .inl ⟨clusterText_injective hid,canonicalLabels_inj.mp hlabels⟩
  | database =>
    simp only [subjectText,append_assoc,cons_append] at h
    obtain ⟨hid,-,hjoin⟩ := instanceText_join (.inr rfl) (.inr rfl) h
    exact same_or_shifted_of_join (by decide) hid (by simp) hjoin
  | inst =>
    simp only [subjectText,append_assoc] at h
    by_cases hd : s.datname=[]
    · by_cases hd' : s'.datname=[]
      · rw [if_pos hd,if_pos hd',nil_append,nil_append] at h
        obtain ⟨hid,-,hlabels⟩ := instanceText_join (.inl rfl) (.inl rfl) h
        exact .inl ⟨⟨hid,hd.trans hd'.symm⟩,canonicalLabels_inj.mp hlabels⟩
      · rw [if_pos hd,if_neg hd',nil_append,cons_append] at h
        obtain ⟨-,hsep,-⟩ := instanceText_join (.inl rfl) (.inr rfl) h
        exact absurd hsep (by decide)
    · by_cases hd' : s'.datname=[]
      · rw [if_neg hd,if_pos hd',nil_append,cons_append] at h
        obtain ⟨-,hsep,-⟩ := instanceText_join (.inr rfl) (.inl rfl) h
        exact absurd hsep (by decide)
      · rw [if_neg hd,if_neg hd',cons_append,cons_append] at h
        obtain ⟨hid,-,hjoin⟩ := instanceText_join (.inr rfl) (.inr rfl) h
        exact same_or_shifted_of_join (by decide) hid (fun _ => ⟨hd,hd'⟩) hjoin

lemma Shifted.keyText_eq (h : Shifted scope s s') : keyText id scope s = keyText id scope s' := by
  obtain ⟨hscope,hempty,hid,m,hname,hlabels⟩ := h
  rw [keyText_inj]
  cases scope with
  | cluster => exact absurd rfl hscope
  | database => simp [subjectText,hid,hname,hlabels]
  | inst => simp [subjectText,hid,hname,hlabels,hempty rfl]

/-- Keys of one rule tell two subjects with their labels apart exactly if no label text is
shifted between the two. -/
theorem keyText_apart (id : Text) (scope : Scope) (s s' : Subject) :
    (keyText id scope s=keyText id scope s' → SameEpisode scope s s') ↔
      ¬Shifted scope s s' ∧ ¬Shifted scope s' s := by
  constructor
  · intro h
    exact ⟨fun hs => hs.not_same (h hs.keyText_eq),fun hs => hs.not_same (h hs.keyText_eq.symm).symm⟩
  · rintro ⟨hl,hr⟩ heq
    obtain h | h | h := same_or_shifted heq
    · exact h
    · exact absurd h hl
    · exact absurd h hr

end Unique

end Keyed

/-- The database d with a label x whose value is a slash. -/
def labelled : Subject := ⟨none,some UUID.nil,[0x64],(∅ : LabelMap).insert [0x78] [slash]⟩

/-- The database `d/x=` with no label. -/
def unlabelled : Subject := ⟨none,some UUID.nil,[0x64,slash,0x78,equals],∅⟩

theorem keyText_merges :
    keyText (Text.utf8 "check_failing") .inst labelled = keyText (Text.utf8 "check_failing") .inst unlabelled ∧
      ¬SameEpisode .inst labelled unlabelled := by
  have hshift : Shifted .inst labelled unlabelled :=
    ⟨by decide,fun _ => by decide,rfl,[0x78,equals],rfl,by decide +kernel⟩
  exact ⟨by decide +kernel,hshift.not_same⟩

end Pglens.Alerting

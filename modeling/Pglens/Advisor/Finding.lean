import Pglens.Alerting.Keys
import Pglens.Lib.FinMap

/-! The findings of internal/advisor, their ids and the two statements that write them. The table is
keyed by the id alone, and the id joins the names of a subject with slashes as they are. -/
namespace Pglens.Advisor
open Pglens.Lib
open Pglens.Alerting (Severity slash)
open Pglens.Store (UUIDText)
open Pglens.Store.UUIDText (uuidString)

inductive Scope
  | inst
  | cluster
  | database
  | relation
  deriving DecidableEq, Repr

inductive State
  | opened
  | degraded
  | muted
  | resolved
  deriving DecidableEq, Repr

/-- A string type with named values: the empty text, one of them, or some other text. -/
inductive Word (α : Type)
  | empty
  | known (value : α)
  | other
  deriving DecidableEq, Repr

/-- The text, or another where it is empty. -/
def Word.orElse {α : Type} (w w' : Word α) : Word α :=
  match w with
  | .empty => w'
  | w => w

/-- Finding. The evidence is its JSON, `none` if it cannot be written. -/
structure Finding where
  ruleID : Text
  severity : Word Severity
  state : Word State
  scope : Word Scope
  clusterID : Option ℤ
  instanceID : Option UUID
  datname : Text
  objectName : Text
  title : Text
  detail : Text
  remediation : Text
  evidence : Option Text
  degradedReason : Text
  deriving DecidableEq

variable {f g : Finding}

/-- The names of a subject as an id has them. -/
def Finding.names (f : Finding) : Text :=
  if f.datname=[] then f.objectName
  else if f.objectName=[] then f.datname
  else f.datname++slash::f.objectName

def Finding.Named (f : Finding) : Prop := f.datname ≠ [] ∨ f.objectName≠[]

lemma Finding.Named.names_ne_nil (h : f.Named) : f.names≠[] := by
  unfold names
  split_ifs with hd ho
  · exact h.resolve_left (absurd hd)
  · exact hd
  · simp

/-- The ways in which the names of two subjects run together. -/
inductive Collides (f g : Finding) : Prop
  /-- An object without a database, and a database of that name. -/
  | swapped (hf : f.datname=[]) (hg : g.objectName=[]) (name : f.objectName=g.datname)
  /-- One name alone, which is the two names of the other with the slash between them. -/
  | joined (hf : f.datname=[] ∨ f.objectName=[]) (hg : g.datname≠[] ∧ g.objectName≠[])
      (name : f.datname++f.objectName=g.datname++slash::g.objectName)
  /-- Two names each, cut at different slashes. -/
  | shifted (hf : f.datname≠[] ∧ f.objectName≠[]) (hg : g.datname≠[] ∧ g.objectName≠[])
      (moved : Text) (datname : g.datname=f.datname++slash::moved)
      (objectName : f.objectName=moved++slash::g.objectName)

lemma Collides.names_eq (h : Collides f g) : f.names=g.names := by
  cases h with
  | swapped hf hg name =>
    by_cases hd : g.datname=[]
    · simp [Finding.names,hf,hg,name,hd]
    · simp [Finding.names,hf,hg,name,hd]
  | joined hf hg name =>
    have hself : f.names = f.datname++f.objectName := by
      obtain hf | hf := hf <;> by_cases hd : f.datname = [] <;> simp_all [Finding.names]
    rw [hself,name]
    simp [Finding.names,hg]
  | shifted hf hg moved datname objectName =>
    simp [Finding.names,datname,objectName,hf.1,hg.2]

lemma Collides.ne (hf : f.Named) (h : Collides f g) :
    ¬(f.datname=g.datname ∧ f.objectName=g.objectName) := by
  rintro ⟨hd,ho⟩
  cases h with
  | swapped hf' hg name =>
    obtain h | h := hf
    · exact h hf'
    · exact h (ho.trans hg)
  | joined hf' hg name =>
    obtain h | h := hf'
    · exact hg.1 (hd.symm.trans h)
    · exact hg.2 (ho.symm.trans h)
  | shifted hf' hg moved datname objectName =>
    rw [← hd] at datname
    simpa using congrArg List.length datname

lemma collides_of_names_eq (h : f.names=g.names) :
    (f.datname=g.datname ∧ f.objectName=g.objectName) ∨ Collides f g ∨ Collides g f := by
  unfold Finding.names at h
  by_cases hfd : f.datname = [] <;> by_cases hgd : g.datname=[]
  · rw [if_pos hfd,if_pos hgd] at h
    exact .inl ⟨hfd.trans hgd.symm,h⟩
  · rw [if_pos hfd,if_neg hgd] at h
    by_cases hgo : g.objectName=[]
    · rw [if_pos hgo] at h
      exact .inr (.inl (.swapped hfd hgo h))
    · rw [if_neg hgo] at h
      exact .inr (.inl (.joined (.inl hfd) ⟨hgd,hgo⟩ (by rw [hfd,List.nil_append,h])))
  · rw [if_neg hfd,if_pos hgd] at h
    by_cases hfo : f.objectName=[]
    · rw [if_pos hfo] at h
      exact .inr (.inr (.swapped hgd hfo h.symm))
    · rw [if_neg hfo] at h
      exact .inr (.inr (.joined (.inl hgd) ⟨hfd,hfo⟩ (by rw [hgd,List.nil_append,← h])))
  · rw [if_neg hfd,if_neg hgd] at h
    by_cases hfo : f.objectName = [] <;> by_cases hgo : g.objectName=[]
    · rw [if_pos hfo,if_pos hgo] at h
      exact .inl ⟨h,hfo.trans hgo.symm⟩
    · rw [if_pos hfo,if_neg hgo] at h
      exact .inr (.inl (.joined (.inr hfo) ⟨hgd,hgo⟩ (by rw [hfo,List.append_nil,h])))
    · rw [if_neg hfo,if_pos hgo] at h
      exact .inr (.inr (.joined (.inr hgo) ⟨hfd,hfo⟩ (by rw [hgo,List.append_nil,← h])))
    · rw [if_neg hfo,if_neg hgo] at h
      obtain h | ⟨m,hd,ho⟩ | ⟨m,hd,ho⟩ := Text.append_sep_cases h
      · exact .inl h
      · exact .inr (.inl (.shifted ⟨hfd,hfo⟩ ⟨hgd,hgo⟩ m hd ho))
      · exact .inr (.inr (.shifted ⟨hgd,hgo⟩ ⟨hfd,hfo⟩ m hd ho))

section Table
variable [UUIDText]

def Finding.id (f : Finding) : Text :=
  let subject := f.objectName
  let subject := if subject≠[] ∧ f.datname≠[] then f.datname++slash::subject else subject
  let subject := if subject=[] then f.datname else subject
  let subject := match f.instanceID with
    | some id => if subject=[] then uuidString id else uuidString id++slash::subject
    | none => subject
  let subject := match f.clusterID with
    | some id => if subject=[] then Text.utf8 "cluster:"++Text.decimal id else subject
    | none => subject
  f.ruleID++slash::subject

/-- A row of the findings table. -/
structure Row where
  ruleID : Text
  severity : Severity
  state : State
  scope : Scope
  clusterID : Option ℤ
  instanceID : Option UUID
  datname : Text
  objectName : Text
  title : Text
  detail : Text
  remediation : Text
  evidence : Text
  degradedReason : Option Text
  firstSeen : Time
  lastSeen : Time
  resolvedAt : Option Time
  mutedUntil : Option Time
  deriving DecidableEq

/-- The rows of the default tenant by finding_id. -/
abbrev Findings := FinMap Text Row

/-- The row that UpsertFinding inserts. The checks of the table admit only the named values. -/
def Finding.row (f : Finding) (now : Time) : Option Row :=
  match f.severity, f.state, f.scope, f.evidence with
  | .known severity, .known state, .known scope, some evidence =>
    some ⟨f.ruleID,severity,state,scope,f.clusterID,f.instanceID,f.datname,f.objectName,f.title,
      f.detail,f.remediation,evidence,if f.degradedReason=[] then none else some f.degradedReason,
      Server.stamp now,Server.stamp now,none,none⟩
  | _, _, _, _ => none

/-- The row that it leaves where the id has one: the mute and the first sight stay. -/
def Row.over (new old : Row) : Row :=
  { new with
    firstSeen := old.firstSeen
    mutedUntil := old.mutedUntil
    state := if old.mutedUntil.any fun t => t.after new.lastSeen then .muted else new.state }

/-- UpsertFinding, which fails if the evidence cannot be written or the table rejects a value. -/
def upsertFinding (t : Findings) (f : Finding) (now : Time) : Option Findings :=
  (f.row now).map fun new => t.set f.id (match t.get f.id with
    | some old => new.over old
    | none => new)

def resolveAbsent (t : Findings) (inst : UUID) (ran seen : List Text) (now : Time) : Findings :=
  if ran=[] then t
  else t.update fun id row =>
    if row.instanceID = some inst ∧ row.state≠.resolved ∧ row.ruleID∈ran ∧ id ∉ seen then
      { row with
        state := .resolved
        resolvedAt := some (Server.stamp now) }
    else row

lemma Finding.Named.id_eq (h : f.Named) : f.id = f.ruleID++slash::(match f.instanceID with
    | some id => uuidString id++slash::f.names
    | none => f.names) := by
  have hnames : (if (if f.objectName≠[] ∧ f.datname≠[] then f.datname++slash::f.objectName
      else f.objectName)=[] then f.datname
      else if f.objectName≠[] ∧ f.datname≠[] then f.datname++slash::f.objectName
      else f.objectName) = f.names := by
    unfold names
    by_cases hd : f.datname = [] <;> by_cases ho : f.objectName = [] <;> simp [hd,ho]
  have hne := h.names_ne_nil
  unfold id
  dsimp only
  rw [hnames]
  cases f.instanceID <;> cases f.clusterID <;> simp [hne]

lemma id_inj (hrule : f.ruleID=g.ruleID) (hinst : f.instanceID=g.instanceID) (hf : f.Named)
    (hg : g.Named) : f.id=g.id ↔ f.names=g.names := by
  rw [hf.id_eq,hg.id_eq,hrule,hinst]
  cases g.instanceID <;> simp

lemma upsertFinding_of_ne {t t' : Findings} {now : Time} (h : upsertFinding t g now=some t')
    {id : Text} (hne : id≠g.id) : t'.get id = t.get id := by
  obtain ⟨new,-,rfl⟩ := Option.map_eq_some_iff.mp h
  exact FinMap.get_set_of_ne t _ hne

/-- The ids of one rule and instance tell two subjects apart exactly if their names do not run
together, and then the row of one is not written for the other. -/
theorem id_apart {f g : Finding} (hrule : f.ruleID=g.ruleID) (hinst : f.instanceID=g.instanceID)
    (hf : f.datname≠[] ∨ f.objectName≠[]) (hg : g.datname≠[] ∨ g.objectName≠[]) :
    ((f.id=g.id → f.datname=g.datname ∧ f.objectName=g.objectName) ↔
      ¬Collides f g ∧ ¬Collides g f) ∧
    (¬Collides f g → ¬Collides g f → ¬(f.datname=g.datname ∧ f.objectName=g.objectName) →
      ∀ t now t', upsertFinding t g now=some t' → t'.get f.id=t.get f.id) := by
  have hid := id_inj hrule hinst hf hg
  have hsame : ¬Collides f g → ¬Collides g f → f.id=g.id →
      f.datname = g.datname ∧ f.objectName=g.objectName := by
    intro hl hr heq
    obtain h | h | h := collides_of_names_eq (hid.mp heq)
    · exact h
    · exact absurd h hl
    · exact absurd h hr
  refine ⟨⟨fun h => ⟨?_,?_⟩,fun h => hsame h.1 h.2⟩,?_⟩
  · exact fun hc => hc.ne hf (h (hid.mpr hc.names_eq))
  · intro hc
    obtain ⟨hd,ho⟩ := h (hid.mpr hc.names_eq.symm)
    exact hc.ne hg ⟨hd.symm,ho.symm⟩
  · intro hl hr hne t now t' hup
    exact upsertFinding_of_ne hup fun heq => hne (hsame hl hr heq)

end Table

def unusedIndex (datname objectName : Text) : Finding :=
  ⟨Text.utf8 "index.unused",.known .info,.known .opened,.known .relation,none,some UUID.nil,datname,
    objectName,[],[],[],some [],[]⟩

/-- Two indexes of one name in two databases. -/
theorem id_apart_databases : (unusedIndex [0x61] [0x63]).id ≠ (unusedIndex [0x62] [0x63]).id := by
  have hapart : ∀ a b : UInt8, ¬Collides (unusedIndex [a] [0x63]) (unusedIndex [b] [0x63]) := by
    rintro a b (⟨hf,-,-⟩ | ⟨hf,-,-⟩ | ⟨-,-,moved,hd,-⟩)
    · simp [unusedIndex] at hf
    · simp [unusedIndex] at hf
    · simp [unusedIndex] at hd
  intro heq
  exact absurd ((id_apart (f := unusedIndex [0x61] [0x63]) (g := unusedIndex [0x62] [0x63]) rfl rfl
    (by decide) (by decide)).1.mpr ⟨hapart _ _,hapart _ _⟩ heq) (by decide)

/-- The index `b/c` of the database a, and the index c of the database `a/b`: the second is
written over the row of the first. -/
theorem id_overwritten :
    (unusedIndex [0x61] [0x62,slash,0x63]).id = (unusedIndex [0x61,slash,0x62] [0x63]).id ∧
    ∀ t now, ∃ t₁ t₂, upsertFinding t (unusedIndex [0x61] [0x62,slash,0x63]) now = some t₁ ∧
      upsertFinding t₁ (unusedIndex [0x61,slash,0x62] [0x63]) now = some t₂ ∧
      (t₁.get (unusedIndex [0x61] [0x62,slash,0x63]).id).map Row.datname = some [0x61] ∧
      (t₂.get (unusedIndex [0x61] [0x62,slash,0x63]).id).map Row.datname = some [0x61,slash,0x62] := by
  have heq : (unusedIndex [0x61] [0x62,slash,0x63]).id = (unusedIndex [0x61,slash,0x62] [0x63]).id := by
    decide +kernel
  refine ⟨heq,fun t now => ⟨_,_,rfl,rfl,?_,?_⟩⟩
  · rw [FinMap.get_set_self,Option.map_some]
    split <;> rfl
  · rw [heq,FinMap.get_set_self,Option.map_some]
    split <;> rfl

end Pglens.Advisor

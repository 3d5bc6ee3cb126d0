import Pglens.Advisor.Finding
import Mathlib.Data.List.Nodup

/-! runInstance of internal/advisor: every registered rule is asked, its findings are written, and
the findings that the rules which gave a complete answer did not name again are resolved. -/
namespace Pglens.Advisor
open Pglens.Lib List Text Option
open Pglens.Alerting (Severity slash)
open Pglens.Store (UUIDText)
open Pglens.Store.UUIDText (uuidString)

abbrev PermTier := ℤ

def PermTier.text (t : PermTier) : String :=
  if t=0 then "T0" else if t=1 then "T1" else if t=2 then "T2" else if t=3 then "T3"
  else "Tier"++toString t

def isSpace (c : Char) : Bool :=
  c.toNat ∈ [0x09,0x0a,0x0b,0x0c,0x0d,0x20,0x85,0xa0,0x1680,0x2028,0x2029,0x202f,0x205f,0x3000] ||
    decide (0x2000≤c.toNat ∧ c.toNat≤0x200a)

/-- The test that strings.TrimSpace leaves nothing. -/
def blank (s : String) : Bool := s.toList.all isSpace

/-- What the engine reads of a snapshot: the identity, and which inputs are there (a section that
is not nil, a kind of facts, a metric). The sections themselves are read by the rules. -/
structure Snapshot where
  instanceID : UUID
  clusterID : ℤ
  permTier : PermTier
  skippedChecks : String → Option String
  statements : Bool
  indexes : Bool
  tables : Bool
  bloat : Bool
  siblings : Bool
  baseline : Bool
  replication : Bool
  lockTree : Bool
  hostAvailable : Bool
  settings : Bool
  facts : String → Bool
  metrics : String → Bool

/-- A rule; `evaluate` is `none` where Evaluate panics. -/
structure Rule where
  id : Text
  severity : Word Severity
  scope : Word Scope
  needs : List String
  minTier : PermTier
  evaluate : Snapshot → Option (List Finding)

/-- The registered rules: Register panics on an id it has. -/
structure Registry where
  rules : List Rule
  distinct : (rules.map Rule.id).Nodup

/-- A check that was skipped for a reason. -/
def Snapshot.skipped (s : Snapshot) (need : String) : Option String :=
  (s.skippedChecks need).filter fun reason => !blank reason

def missingSnapshotInput (s : Snapshot) (need : String) : Bool :=
  if (s.skipped need).isSome then true
  else match need with
    | "Statements" => !s.statements
    | "Indexes" => !s.indexes
    | "Tables" => !s.tables
    | "Bloat" => !s.bloat
    | "Siblings" => !s.siblings
    | "Baseline" => !s.baseline
    | "Replication" => !s.replication
    | "LockTree" => !s.lockTree
    | "host" => !s.hostAvailable
    | "settings" => !s.settings
    | "monitoring_role" => !s.facts "monitoring_role"
    | need => "pg_".toList.isPrefixOf need.toList && !s.metrics need

/-- The finding about a whole instance that stands for a rule that was not evaluated. -/
def Rule.unevaluated (r : Rule) (title detail reason : String) : Finding :=
  ⟨r.id,r.severity,.known .degraded,r.scope,none,none,[],[],utf8 title,utf8 detail,[],
    some (utf8 "null"),utf8 reason⟩

/-- evaluateRule: the findings, and whether the rule panicked. -/
def evaluateRule (r : Rule) (s : Snapshot) : List Finding × Bool :=
  if s.permTier<r.minTier then
    ([r.unevaluated "Permission tier unavailable" "advisor rule requires a higher permission tier"
      ("required permission tier "++r.minTier.text)],false)
  else match r.needs.find? (missingSnapshotInput s) with
    | some need =>
      let reason := (s.skipped need).getD ("missing input: "++need)
      ([r.unevaluated "Advisor input unavailable" ("required advisor input is unavailable: "++reason)
        reason],false)
    | none => match r.evaluate s with
      | some findings => (findings,false)
      | none => ([r.unevaluated "Advisor rule failed" "rule evaluation panicked" "rule evaluation failed"],true)

def degradedAsWhole (findings : List Finding) : Bool :=
  findings.any fun f => decide (f.state = .known .degraded ∧ f.datname=[] ∧ f.objectName=[])

section Answers
variable {r : Rule} {s : Snapshot}

/-- A finding that does not itself say that it is resolved. -/
def Finding.Current (f : Finding) : Prop := f.state ≠ .known .resolved

lemma evaluateRule_current (h : ∀ fs, r.evaluate s=some fs → ∀ f∈fs, f.Current) :
    ∀ f ∈ (evaluateRule r s).1, f.Current := by
  have hdegraded : ∀ title detail reason, ∀ f ∈ [r.unevaluated title detail reason], f.Current := by
    intro title detail reason f hf
    rw [mem_singleton.mp hf]
    exact fun heq => absurd heq (by simp [Rule.unevaluated])
  unfold evaluateRule
  split_ifs
  · exact hdegraded _ _ _
  · split
    · exact hdegraded _ _ _
    · split
      · exact h _ ‹_›
      · exact hdegraded _ _ _

lemma resolveAbsent_get (t : Findings) (inst : UUID) (ran seen : List Text) (now : Time)
    (i : Text) :
    (resolveAbsent t inst ran seen now).get i = t.get i ∨
      ∃ row, t.get i = some row ∧ row.ruleID∈ran ∧ i ∉ seen := by
  unfold resolveAbsent
  split_ifs
  · exact .inl rfl
  · rw [FinMap.get_update]
    cases hrow : t.get i with
    | none => exact .inl rfl
    | some row =>
      rw [map_some]
      split_ifs with hcond
      · exact .inr ⟨row,rfl,hcond.2.2⟩
      · exact .inl rfl

end Answers

section Passes
variable [UUIDText]

/-- What runInstance fills in before it writes a finding. -/
def fillIn (r : Rule) (s : Snapshot) (id : UUID) (f : Finding) : Finding :=
  let f := { f with
    ruleID := if f.ruleID=[] then r.id else f.ruleID
    instanceID := f.instanceID <|> some s.instanceID
    clusterID := f.clusterID <|> if s.clusterID≠0 then some s.clusterID else none
    scope := f.scope.orElse r.scope
    severity := f.severity.orElse r.severity }
  if f.id = r.id++[slash] then { f with objectName := uuidString id } else f

/-- How a statement ends: it is executed, it is not, or it is and the answer is lost. -/
inductive Outcome
  | done
  | failed
  | unanswered
  deriving DecidableEq, Repr

/-- The variables of runInstance, with the findings it has reported and whether UpsertFinding
returned no error for them. -/
structure Pass where
  rows : Findings
  ran : List Text
  seen : List Text
  reported : List (Finding × Bool)

section Run
variable (s : Snapshot) (id : UUID) (now : Time) (outcome : ℕ → Outcome)

/-- One finding is written and recorded as seen. -/
def persist (p : Pass) (f : Finding) : Pass :=
  let written := if outcome p.reported.length = .failed then none else upsertFinding p.rows f now
  { p with
    rows := written.getD p.rows
    seen := p.seen++[f.id]
    reported := p.reported++[(f,written.isSome && outcome p.reported.length = .done)] }

/-- The body of the loop over the rules. -/
def runRule (p : Pass) (r : Rule) : Pass :=
  let p := { p with ran := p.ran++[r.id] }
  let (findings,panicked) := evaluateRule r s
  let p := if panicked || degradedAsWhole findings then { p with ran := p.ran.dropLast } else p
  findings.foldl (fun p f => persist now outcome p (fillIn r s id f)) p

/-- The loop over the rules, from a table. -/
def runRules (rules : List Rule) (rows : Findings) : Pass :=
  rules.foldl (runRule s id now outcome) ⟨rows,[],[],[]⟩

/-- runInstance, once the snapshot is loaded. -/
def runInstance (rules : List Rule) (resolve : Outcome) (rows : Findings) : Pass :=
  let p := runRules s id now outcome rules rows
  if resolve=.failed then p
  else { p with rows := resolveAbsent p.rows s.instanceID p.ran p.seen now }

end Run

/-- A complete answer: no panic, and no degraded finding without a database and an object. -/
def Complete (r : Rule) (s : Snapshot) : Prop :=
  (evaluateRule r s).2 = false ∧ degradedAsWhole (evaluateRule r s).1 = false

section Invariant

def Row.Unresolved (row : Row) : Prop := row.state ≠ .resolved ∧ row.resolvedAt=none

variable {f : Finding} {t t' : Findings} {now : Time} {outcome : ℕ → Outcome} {r : Rule}
  {s : Snapshot} {id : UUID} {p : Pass}

lemma upsertFinding_unresolved (hf : f.Current) (h : upsertFinding t f now=some t') :
    ∃ row, t'.get f.id = some row ∧ row.Unresolved := by
  obtain ⟨new,hnew,rfl⟩ := map_eq_some_iff.mp h
  have hun : new.Unresolved := by
    unfold Finding.row at hnew
    split at hnew
    · next hstate _ _ =>
      obtain rfl := some.inj hnew
      exact ⟨fun heq => hf (heq ▸ hstate),rfl⟩
    · cases hnew
  refine ⟨_,FinMap.get_set_self t _ _,?_⟩
  cases t.get f.id with
  | none => exact hun
  | some old =>
    refine ⟨?_,hun.2⟩
    unfold Row.over
    dsimp only
    split_ifs
    · decide
    · exact hun.1

lemma fillIn_state (r : Rule) (s : Snapshot) (id : UUID) (f : Finding) :
    (fillIn r s id f).state = f.state := by
  unfold fillIn
  dsimp only
  split_ifs <;> rfl

/-- The rows that a pass has written so far are unresolved, and the others are those of the table
that it began with. -/
structure Pass.Kept (rows : Findings) (p : Pass) : Prop where
  seen : p.seen = p.reported.map fun w => w.1.id
  others : ∀ i ∉ p.seen, p.rows.get i = rows.get i
  rows : ∀ i row, p.rows.get i = some row → rows.get i = some row ∨ row.Unresolved
  written : ∀ f, (f,true) ∈ p.reported → ∃ row, p.rows.get f.id = some row ∧ row.Unresolved

variable {rows : Findings}

lemma Pass.Kept.persist (h : p.Kept rows) (hf : f.Current) :
    (persist now outcome p f).Kept rows := by
  unfold Advisor.persist
  generalize hw : (if outcome p.reported.length = .failed then none else upsertFinding p.rows f now) = written
  cases written with
  | none =>
    refine ⟨by simp [h.seen],fun i hi => h.others i ?_,h.rows,fun g hg => h.written g ?_⟩
    · exact fun hmem => hi (mem_append_left _ hmem)
    · simpa using hg
  | some t' =>
    have hup : upsertFinding p.rows f now = some t' := by
      split_ifs at hw
      exact hw
    obtain ⟨row,hrow,hun⟩ := upsertFinding_unresolved hf hup
    refine ⟨by simp [h.seen],fun i hi => ?_,fun i row' hrow' => ?_,fun g hg => ?_⟩
    · have hne : i≠f.id := fun heq => hi (by simp [heq])
      exact (upsertFinding_of_ne hup hne).trans (h.others i fun hmem => hi (mem_append_left _ hmem))
    · by_cases hi : i=f.id
      · subst hi
        obtain rfl : row=row' := some.inj (hrow.symm.trans hrow')
        exact .inr hun
      · exact h.rows i row' ((upsertFinding_of_ne hup hi).symm.trans hrow')
    · by_cases hi : g.id=f.id
      · exact ⟨row,by rw [hi]; exact hrow,hun⟩
      · have hmem : (g,true) ∈ p.reported := by
          obtain hmem | hmem := mem_append.mp hg
          · exact hmem
          · exact absurd (congrArg (fun w => w.1.id) (mem_singleton.mp hmem)) hi
        obtain ⟨row₁,hrow₁,hun₁⟩ := h.written g hmem
        exact ⟨row₁,(upsertFinding_of_ne hup hi).trans hrow₁,hun₁⟩

/-- The rules that a pass counts as having run gave a complete answer. -/
def Pass.RanComplete (rules : List Rule) (s : Snapshot) (p : Pass) : Prop :=
  ∀ i∈p.ran, ∃ r∈rules, r.id=i ∧ Complete r s

lemma foldl_persist_ran (fs : List Finding) (p : Pass) :
    (fs.foldl (fun p f => persist now outcome p (fillIn r s id f)) p).ran = p.ran := by
  induction fs generalizing p with
  | nil => rfl
  | cons f fs ih => exact ih _

lemma Pass.Kept.foldl_persist (h : p.Kept rows) {fs : List Finding} (hfs : ∀ f∈fs, f.Current) :
    (fs.foldl (fun p f => Advisor.persist now outcome p (fillIn r s id f)) p).Kept rows := by
  induction fs generalizing p with
  | nil => exact h
  | cons f fs ih =>
    have hf : (fillIn r s id f).Current := by
      rw [Finding.Current,fillIn_state]
      exact hfs f (by simp)
    exact ih (h.persist hf) fun g hg => hfs g (by simp [hg])

lemma Pass.Kept.runRule (h : p.Kept rows) (hr : ∀ fs, r.evaluate s=some fs → ∀ f∈fs, f.Current) :
    (runRule s id now outcome p r).Kept rows := by
  unfold Advisor.runRule
  dsimp only
  refine Pass.Kept.foldl_persist ?_ (evaluateRule_current hr)
  split_ifs <;> exact ⟨h.seen,h.others,h.rows,h.written⟩

lemma Pass.RanComplete.runRule {rules : List Rule} (h : p.RanComplete rules s) (hr : r∈rules) :
    (runRule s id now outcome p r).RanComplete rules s := by
  intro i hi
  unfold Advisor.runRule at hi
  dsimp only at hi
  rw [foldl_persist_ran] at hi
  split_ifs at hi with hwhole
  · rw [dropLast_concat] at hi
    exact h i hi
  · obtain hi | hi := mem_append.mp hi
    · exact h i hi
    · exact ⟨r,hr,(mem_singleton.mp hi).symm,by simpa [Complete] using hwhole⟩

lemma runRules_kept (s : Snapshot) (id : UUID) (now : Time) (outcome : ℕ → Outcome)
    (rules : List Rule) (rows : Findings)
    (hrules : ∀ r∈rules, ∀ fs, r.evaluate s=some fs → ∀ f∈fs, f.Current) :
    (runRules s id now outcome rules rows).Kept rows := by
  unfold runRules
  have hstart : (⟨rows,[],[],[]⟩ : Pass).Kept rows :=
    ⟨rfl,fun _ _ => rfl,fun _ _ h => .inl h,by simp⟩
  generalize (⟨rows,[],[],[]⟩ : Pass) = p at hstart
  induction rules generalizing p with
  | nil => exact hstart
  | cons r rules ih =>
    exact ih (fun r' hr' => hrules r' (by simp [hr'])) _ (hstart.runRule (hrules r (by simp)))

lemma runRules_ran (s : Snapshot) (id : UUID) (now : Time) (outcome : ℕ → Outcome)
    (rules : List Rule) (rows : Findings) :
    (runRules s id now outcome rules rows).RanComplete rules s := by
  unfold runRules
  have hloop : ∀ (done : List Rule) (p : Pass), done ⊆ rules → p.RanComplete rules s →
      (done.foldl (runRule s id now outcome) p).RanComplete rules s := by
    intro done
    induction done with
    | nil => exact fun p _ hp => hp
    | cons r done ih =>
      intro p hsub hp
      exact ih _ (fun r' hr' => hsub (by simp [hr'])) (hp.runRule (hsub (by simp)))
  exact hloop rules _ (List.Subset.refl _) (by simp [Pass.RanComplete])

lemma runInstance_get (s : Snapshot) (id : UUID) (now : Time) (outcome : ℕ → Outcome)
    (rules : List Rule) (resolve : Outcome) (rows : Findings) :
    let p := runRules s id now outcome rules rows
    let q := runInstance s id now outcome rules resolve rows
    q.reported=p.reported ∧ ∀ i, q.rows.get i = p.rows.get i ∨
      ∃ row, p.rows.get i = some row ∧ row.ruleID∈p.ran ∧ i∉p.seen := by
  unfold runInstance
  dsimp only
  split_ifs
  · exact ⟨rfl,fun i => .inl rfl⟩
  · exact ⟨rfl,resolveAbsent_get _ _ _ _ _⟩

/-- A pass resolves a finding only where its rule gave a complete answer that does not name it,
and leaves every finding that it has written unresolved, if no rule answers that a finding is
resolved. -/
theorem pass_resolves_absent (registry : Registry) (s : Snapshot)
    (hcurrent : ∀ r∈registry.rules, ∀ fs, r.evaluate s=some fs → ∀ f∈fs, f.state ≠ .known .resolved)
    (id : UUID) (now : Time) (outcome : ℕ → Outcome) (resolve : Outcome) (rows : Findings) :
    (∀ i row row', rows.get i=some row → row.instanceID=some s.instanceID → row.state≠.resolved →
      (runInstance s id now outcome registry.rules resolve rows).rows.get i=some row' →
      row'.state = .resolved →
      (∃ r∈registry.rules, r.id=row.ruleID ∧ (∀ r'∈registry.rules, r'.id=row.ruleID → r'=r) ∧
        Complete r s) ∧
      ∀ f ok, (f,ok) ∈ (runInstance s id now outcome registry.rules resolve rows).reported → f.id≠i) ∧
    ∀ f, (f,true) ∈ (runInstance s id now outcome registry.rules resolve rows).reported →
      ∃ row, (runInstance s id now outcome registry.rules resolve rows).rows.get f.id = some row ∧
        row.state ≠ .resolved ∧ row.resolvedAt=none := by
  have hkept := runRules_kept s id now outcome registry.rules rows hcurrent
  have hran := runRules_ran s id now outcome registry.rules rows
  obtain ⟨hreported,hend⟩ := runInstance_get s id now outcome registry.rules resolve rows
  rw [hreported]
  have hseen : ∀ f ok, (f,ok) ∈ (runRules s id now outcome registry.rules rows).reported →
      f.id ∈ (runRules s id now outcome registry.rules rows).seen := by
    intro f ok hf
    rw [hkept.seen]
    exact mem_map.mpr ⟨_,hf,rfl⟩
  constructor
  · rintro i row row' hrow - hopen hrow' hresolved
    obtain heq | ⟨row₁,hrow₁,hrule,habsent⟩ := hend i
    · -- What the loop leaves is the row it found or an unresolved one.
      exfalso
      obtain h | h := hkept.rows i row' (heq.symm.trans hrow')
      · obtain rfl : row=row' := some.inj (hrow.symm.trans h)
        exact hopen hresolved
      · exact h.1 hresolved
    · obtain rfl : row=row₁ :=
        some.inj ((hrow.symm.trans (hkept.others i habsent).symm).trans hrow₁)
      obtain ⟨r,hr,hid,hcomplete⟩ := hran _ hrule
      refine ⟨⟨r,hr,hid,fun r' hr' hid' => ?_,hcomplete⟩,fun f ok hf heq => habsent (heq ▸ hseen f ok hf)⟩
      exact inj_on_of_nodup_map registry.distinct hr' hr (hid'.trans hid.symm)
  · intro f hf
    obtain ⟨row,hrow,hun⟩ := hkept.written f hf
    obtain heq | ⟨_,_,_,habsent⟩ := hend f.id
    · exact ⟨row,heq.trans hrow,hun⟩
    · exact absurd (hseen f true hf) habsent

end Invariant

end Passes

def bareSnapshot : Snapshot :=
  ⟨UUID.nil,0,0,fun _ => none,true,true,true,true,true,true,true,true,true,true,fun _ => true,fun _ => true⟩

/-- A rule that gives one answer, alone in its registry. -/
def answering (fs : List Finding) : Registry :=
  ⟨[⟨utf8 "index.unused",.known .info,.known .relation,["Indexes"],0,fun _ => some fs⟩],by simp⟩

/-- The table that holds one finding. -/
def holding (f : Finding) : Findings := (upsertFinding FinMap.empty f ⟨0,0⟩).getD FinMap.empty

/-- An index that a complete answer does not name any more is resolved. -/
theorem pass_resolves_index :
    (((runInstance bareSnapshot UUID.nil ⟨0,0⟩ (fun _ => .done) (answering []).rules .done
      (holding (unusedIndex [0x61] [0x63]))).rows.get (unusedIndex [0x61] [0x63]).id).map Row.state =
        some .resolved) ∧
    ∃ r ∈ (answering []).rules, r.id = utf8 "index.unused" ∧ Complete r bareSnapshot := by
  have hstate : ((runInstance bareSnapshot UUID.nil ⟨0,0⟩ (fun _ => .done) (answering []).rules .done
      (holding (unusedIndex [0x61] [0x63]))).rows.get (unusedIndex [0x61] [0x63]).id).map Row.state =
        some .resolved := by decide +kernel
  refine ⟨hstate,?_⟩
  obtain ⟨row',hrow',hresolved⟩ := map_eq_some_iff.mp hstate
  obtain ⟨⟨r,hr,hid,-,hcomplete⟩,-⟩ := (pass_resolves_absent (answering []) bareSnapshot (by
    simp [answering]) UUID.nil ⟨0,0⟩ (fun _ => .done) .done (holding (unusedIndex [0x61] [0x63]))).1
    (unusedIndex [0x61] [0x63]).id _ row' rfl rfl (by decide) hrow' hresolved
  exact ⟨r,hr,hid,hcomplete⟩

/-- A rule that answers with a resolved finding: it is reported, written and stored as resolved. -/
theorem pass_stores_resolved :
    ({ unusedIndex [0x61] [0x63] with state := .known .resolved },true) ∈
      (runInstance bareSnapshot UUID.nil ⟨0,0⟩ (fun _ => .done)
        (answering [{ unusedIndex [0x61] [0x63] with state := .known .resolved }]).rules .done
        (holding (unusedIndex [0x61] [0x63]))).reported ∧
    ((runInstance bareSnapshot UUID.nil ⟨0,0⟩ (fun _ => .done)
        (answering [{ unusedIndex [0x61] [0x63] with state := .known .resolved }]).rules .done
        (holding (unusedIndex [0x61] [0x63]))).rows.get (unusedIndex [0x61] [0x63]).id).map Row.state =
      some .resolved := by
  decide +kernel

end Pglens.Advisor

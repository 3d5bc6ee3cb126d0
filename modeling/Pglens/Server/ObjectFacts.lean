import Pglens.Server.Store
import Pglens.Lib.FinMap
import Mathlib.Data.List.Induction

/-! The object_facts and lock_snapshots tables under the statements of internal/store/write.go. A
fact that comes again replaces what the row said before, whatever their times; a lock tree does
so only when it is newer. A table is a map from its primary key, and a time is stored in
microseconds. -/
namespace Pglens.Server
open Pglens.Lib Pglens.Wire List FinMap

section Facts

/-- The primary key of object_facts. -/
structure FactID where
  tenantID : String
  instanceID : UUID
  datname : String
  kind : String
  key : String
  deriving DecidableEq, Repr

def ObjectFactRow.id (r : ObjectFactRow) : FactID := ⟨r.tenantID,r.instanceID,r.datname,r.kind,r.key⟩

abbrev FactTable := FinMap FactID ObjectFactRow

/-- IS DISTINCT FROM on value_json, of which the empty text is NULL. `same` compares as jsonb. -/
def distinctJSON (same : Bytes → Bytes → Bool) (a b : Bytes) : Bool :=
  if a=[] ∨ b=[] then decide (¬(a=[] ∧ b=[])) else !same a b

/-- The row of an INSERT without a conflict. -/
def ObjectFactRow.stamped (r : ObjectFactRow) : ObjectFactRow :=
  { r with firstSeen := stamp r.firstSeen, lastSeen := stamp r.lastSeen, changedAt := stamp r.changedAt }

/-- ON CONFLICT DO UPDATE. -/
def ObjectFactRow.seenAgain (same : Bytes → Bytes → Bool) (old r : ObjectFactRow) : ObjectFactRow :=
  { old with
    lastSeen := stamp r.lastSeen
    labels := r.labels
    valueText := r.valueText
    valueJSON := r.valueJSON
    changedAt := if old.valueText≠r.valueText ∨ distinctJSON same old.valueJSON r.valueJSON
      then stamp r.lastSeen else old.changedAt }

def FactTable.upsert (same : Bytes → Bytes → Bool) (t : FactTable) (r : ObjectFactRow) : FactTable :=
  t.set r.id (match t.get r.id with
    | none => r.stamped
    | some old => old.seenAgain same r)

def FactTable.writeObjectFacts (same : Bytes → Bytes → Bool) (t : FactTable)
    (rows : List ObjectFactRow) : FactTable :=
  rows.foldl (FactTable.upsert same) t

/-- The row says what a result said: its value, its labels and its time. -/
structure ObjectFactRow.Shows (row r : ObjectFactRow) : Prop where
  labels : row.labels=r.labels
  valueText : row.valueText=r.valueText
  valueJSON : row.valueJSON=r.valueJSON
  lastSeen : row.lastSeen.ns = (stamp r.lastSeen).ns

lemma get_upsert (same : Bytes → Bytes → Bool) (t : FactTable) (r : ObjectFactRow) (k : FactID) :
    if r.id=k then ∃ row, (t.upsert same r).get k = some row ∧ row.Shows r
    else (t.upsert same r).get k = t.get k := by
  split_ifs with hk
  · subst hk
    rw [FactTable.upsert,get_set_self]
    cases t.get r.id with
    | none => exact ⟨_,rfl,rfl,rfl,rfl,rfl⟩
    | some old => exact ⟨_,rfl,rfl,rfl,rfl,rfl⟩
  · exact get_set_of_ne _ _ (Ne.symm hk)

lemma get_writeObjectFacts (same : Bytes → Bytes → Bool) (t : FactTable) (rows : List ObjectFactRow)
    (k : FactID) {last : ObjectFactRow} (hlast : (rows.filter fun r => r.id=k).getLast?=some last) :
    ∃ row, (t.writeObjectFacts same rows).get k = some row ∧ row.Shows last := by
  induction rows using List.reverseRecOn with
  | nil => cases hlast
  | append_singleton rows r ih =>
    have hone := get_upsert same (t.writeObjectFacts same rows) r k
    rw [FactTable.writeObjectFacts,foldl_append]
    by_cases hk : r.id=k
    · rw [if_pos hk] at hone
      rw [filter_append,filter_cons_of_pos (by simpa using hk)] at hlast
      obtain rfl : r=last := by simpa using hlast
      exact hone
    · rw [if_neg hk] at hone
      rw [filter_append,filter_cons_of_neg (by simpa using hk),filter_nil,append_nil] at hlast
      obtain ⟨row,hrow,hshows⟩ := ih hlast
      exact ⟨row,hone.trans hrow,hshows⟩

/-- Two results say the same of a fact, in the same microsecond. -/
def ObjectFactRow.Says (r r' : ObjectFactRow) : Prop :=
  r.labels = r'.labels ∧ r.valueText=r'.valueText ∧ r.valueJSON=r'.valueJSON ∧
    (stamp r.lastSeen).ns = (stamp r'.lastSeen).ns

/-- The rows of a fact in the calls of WriteObjectFacts, in the order they are written. -/
def deliveries (k : FactID) (batches : List (List ObjectFactRow)) : List ObjectFactRow :=
  batches.flatten.filter fun r => r.id=k

/-- After any deliveries of results with different times, the row of a fact shows the newest result exactly
when that is delivered last, or what is delivered last says the same in the same microsecond. -/
theorem newest_fact_stays_iff (same : Bytes → Bytes → Bool) (t : FactTable) (batches : List (List ObjectFactRow))
    (k : FactID) (hdistinct : ∀ r ∈ deliveries k batches, ∀ r' ∈ deliveries k batches,
      r.lastSeen.ns=r'.lastSeen.ns → r=r') {newest last : ObjectFactRow} (hmem : newest ∈ deliveries k batches)
    (hnewest : ∀ r ∈ deliveries k batches, r.lastSeen.ns≤newest.lastSeen.ns)
    (hlast : (deliveries k batches).getLast?=some last) :
    (∃ row, (batches.foldl (FactTable.writeObjectFacts same) t).get k=some row ∧ row.Shows newest) ↔
      (∀ r ∈ deliveries k batches, r.lastSeen.ns≤last.lastSeen.ns) ∨ last.Says newest := by
  have hfold : batches.foldl (FactTable.writeObjectFacts same) t = t.writeObjectFacts same batches.flatten := by
    rw [FactTable.writeObjectFacts,foldl_flatten]
    rfl
  obtain ⟨row,hrow,hshows⟩ := get_writeObjectFacts same t batches.flatten k hlast
  rw [hfold,hrow]
  constructor
  · rintro ⟨row',hrow',hnew⟩
    cases hrow'
    exact .inr ⟨hshows.labels.symm.trans hnew.labels,hshows.valueText.symm.trans hnew.valueText,
      hshows.valueJSON.symm.trans hnew.valueJSON,hshows.lastSeen.symm.trans hnew.lastSeen⟩
  · rintro (hmax | ⟨hlabels,htext,hjson,hseen⟩)
    · have hin := mem_of_getLast? hlast
      obtain rfl := hdistinct last hin newest hmem (le_antisymm (hnewest last hin) (hmax newest hmem))
      exact ⟨row,rfl,hshows⟩
    · exact ⟨row,rfl,hshows.labels.trans hlabels,hshows.valueText.trans htext,hshows.valueJSON.trans hjson,
        hshows.lastSeen.trans hseen⟩

def settingAt (value : String) (second : ℤ) : ObjectFactRow :=
  ⟨tenantID,5,7,"","setting","work_mem",[],some value,[],⟨second*Duration.second,0⟩,
    ⟨second*Duration.second,0⟩,
    ⟨second*Duration.second,0⟩⟩

theorem newest_fact_stays_in_order : ∃ row,
    ([[settingAt "4MB" 1],[settingAt "8MB" 2]].foldl (FactTable.writeObjectFacts fun a b => decide (a=b)) .empty).get
      (settingAt "8MB" 2).id = some row ∧ row.Shows (settingAt "8MB" 2) := by
  have hmem : settingAt "8MB" 2 ∈ deliveries (settingAt "8MB" 2).id [[settingAt "4MB" 1],[settingAt "8MB" 2]] := by
    decide
  have hlast : (deliveries (settingAt "8MB" 2).id [[settingAt "4MB" 1],[settingAt "8MB" 2]]).getLast? =
      some (settingAt "8MB" 2) := by
    decide
  exact (newest_fact_stays_iff _ .empty [[settingAt "4MB" 1],[settingAt "8MB" 2]] _ (by decide) hmem (by decide)
    hlast).mpr (.inl (by decide))

/-- A result that is delivered late sets the fact back. -/
theorem late_fact_sets_back :
    let batches := [[settingAt "8MB" 2],[settingAt "4MB" 1]]
    let k := (settingAt "8MB" 2).id
    deliveries k batches = [settingAt "8MB" 2,settingAt "4MB" 1] ∧
      (settingAt "4MB" 1).lastSeen.ns < (settingAt "8MB" 2).lastSeen.ns ∧
      ¬∃ row, (batches.foldl (FactTable.writeObjectFacts fun a b => decide (a=b)) .empty).get k = some row ∧
        row.Shows (settingAt "8MB" 2) := by
  refine ⟨by decide,by decide,?_⟩
  rintro ⟨row,hrow,hshows⟩
  have hold : some row.valueText = some (some "4MB") := by
    rw [← Option.map_some,← hrow]
    decide
  rw [hshows.valueText] at hold
  exact absurd hold (by decide)

end Facts

section LockTrees

abbrev LockTable := FinMap (String × UUID) LockSnapshotRow

def LockSnapshotRow.id (r : LockSnapshotRow) : String × UUID := (r.tenantID,r.instanceID)

def LockSnapshotRow.stamped (r : LockSnapshotRow) : LockSnapshotRow := { r with ts := stamp r.ts }

def lockFreshness : ℤ := 15*Duration.minute

/-- The DELETE of a tree that is too old beside a new one. -/
def LockTable.dropStale (t : LockTable) (r : LockSnapshotRow) : LockTable :=
  t.filter fun k old => !(k == r.id && old.ts.before ((stamp r.ts).add (-lockFreshness)))

/-- The INSERT, which updates a row only when it is older. -/
def LockTable.upsert (t : LockTable) (r : LockSnapshotRow) : LockTable :=
  match t.get r.id with
  | none => t.set r.id r.stamped
  | some old => if (stamp r.ts).after old.ts then
      t.set r.id { old with clusterID := r.clusterID, ts := stamp r.ts, tree := r.tree } else t

def LockTable.writeLockSnapshots (t : LockTable) (rows : List LockSnapshotRow) : LockTable :=
  rows.foldl (fun t r => (t.dropStale r).upsert r) t

/-- The tree of a row is at least as new as all that were written, and it is one of them or was there before. -/
structure Newest (t : LockTable) (rows : List LockSnapshotRow) (k : String × UUID) (row : LockSnapshotRow) : Prop where
  latest : ∀ r∈rows, r.id=k → (stamp r.ts).ns ≤ row.ts.ns
  source : (∃ r∈rows, r.id=k ∧ row.ts=stamp r.ts ∧ row.tree=r.tree) ∨ t.get k = some row

variable {k : String × UUID}

lemma get_upsert_lock (t : LockTable) (r : LockSnapshotRow) (hk : r.id=k) :
    ∃ row, ((t.dropStale r).upsert r).get k = some row ∧ (stamp r.ts).ns ≤ row.ts.ns ∧
      (∀ old, t.get k=some old → old.ts.ns≤row.ts.ns) ∧
      ((row.ts=stamp r.ts ∧ row.tree=r.tree) ∨ t.get k=some row) := by
  subst hk
  have hstale : (t.dropStale r).get r.id =
      (t.get r.id).filter fun old => !old.ts.before ((stamp r.ts).add (-lockFreshness)) := by
    rw [LockTable.dropStale,get_filter]
    simp
  cases hold : t.get r.id with
  | none =>
    rw [hold,Option.filter_none] at hstale
    rw [LockTable.upsert,hstale]
    exact ⟨r.stamped,get_set_self ..,le_rfl,by simp,.inl ⟨rfl,rfl⟩⟩
  | some old =>
    rw [hold] at hstale
    by_cases hbefore : old.ts.ns < (stamp r.ts).ns-lockFreshness
    · -- the tree was removed, and the new one is inserted
      have hnone : (t.dropStale r).get r.id = none := by
        rw [hstale,Option.filter_eq_none_iff]
        rintro _ ⟨⟩
        rw [Bool.not_eq_true',Time.before_eq_false_iff,Time.add_ns]
        omega
      rw [LockTable.upsert,hnone]
      refine ⟨r.stamped,get_set_self ..,le_rfl,?_,.inl ⟨rfl,rfl⟩⟩
      rintro _ ⟨⟩
      have hpos : (0 : ℤ) ≤ lockFreshness := by decide
      change old.ts.ns ≤ (stamp r.ts).ns
      omega
    · have hkept : (t.dropStale r).get r.id = some old := by
        rw [hstale,Option.filter_eq_some_iff]
        refine ⟨rfl,?_⟩
        rw [Bool.not_eq_true',Time.before_eq_false_iff,Time.add_ns]
        omega
      rw [LockTable.upsert,hkept]
      dsimp only
      split_ifs with hafter
      · rw [Time.after_iff] at hafter
        refine ⟨_,get_set_self ..,le_rfl,?_,.inl ⟨rfl,rfl⟩⟩
        rintro _ ⟨⟩
        exact hafter.le
      · rw [Time.after_iff,not_lt] at hafter
        refine ⟨old,hkept,hafter,?_,.inr rfl⟩
        rintro _ ⟨⟩
        exact le_rfl

lemma get_upsert_lock_of_ne (t : LockTable) (r : LockSnapshotRow) (hk : r.id≠k) :
    ((t.dropStale r).upsert r).get k = t.get k := by
  have hkeep : (t.dropStale r).get k = t.get k := by
    rw [LockTable.dropStale,get_filter]
    cases t.get k with
    | none => rfl
    | some old => simp [beq_eq_false_iff_ne.mpr (Ne.symm hk)]
  rw [LockTable.upsert]
  split
  · rw [get_set_of_ne _ _ (Ne.symm hk),hkeep]
  · split_ifs
    · rw [get_set_of_ne _ _ (Ne.symm hk),hkeep]
    · exact hkeep

lemma get_writeLockSnapshots_of_ne (t : LockTable) {rows : List LockSnapshotRow}
    (hne : ∀ r∈rows, r.id≠k) : (t.writeLockSnapshots rows).get k = t.get k := by
  induction rows generalizing t with
  | nil => rfl
  | cons r rows ih =>
    have hrest := ih ((t.dropStale r).upsert r) fun r' hr' => hne r' (mem_cons_of_mem _ hr')
    exact hrest.trans (get_upsert_lock_of_ne t r (hne r mem_cons_self))

/-- Of the lock trees of an instance the newest stays, in whatever order and however often they are delivered. -/
theorem newest_lock_tree_stays (t : LockTable) (rows : List LockSnapshotRow) (k : String × UUID)
    (hsome : ∃ r∈rows, r.id=k) : ∃ row, (t.writeLockSnapshots rows).get k = some row ∧
        Newest t rows k row := by
  induction rows using List.reverseRecOn with
  | nil => simp at hsome
  | append_singleton rows r ih =>
    rw [LockTable.writeLockSnapshots,foldl_append,← LockTable.writeLockSnapshots]
    change ∃ row, (((t.writeLockSnapshots rows).dropStale r).upsert r).get k = some row ∧ _
    by_cases hk : r.id=k
    · obtain ⟨row,hrow,hnew,hold,hsource⟩ := get_upsert_lock (t.writeLockSnapshots rows) r hk
      refine ⟨row,hrow,?_,?_⟩
      · intro r' hr' hk'
        obtain hr' | hr' := mem_append.mp hr'
        · obtain ⟨was,hwas,hnewest⟩ := ih ⟨r',hr',hk'⟩
          exact (hnewest.latest r' hr' hk').trans (hold was hwas)
        · rwa [mem_singleton.mp hr']
      · obtain ⟨hts,htree⟩ | hkept := hsource
        · exact .inl ⟨r,by simp,hk,hts,htree⟩
        · by_cases hmore : ∃ r'∈rows, r'.id=k
          · obtain ⟨was,hwas,hnewest⟩ := ih hmore
            rw [hkept] at hwas
            cases hwas
            refine hnewest.source.imp_left ?_
            rintro ⟨r',hr',h⟩
            exact ⟨r',mem_append_left _ hr',h⟩
          · refine .inr ?_
            rw [← hkept]
            exact (get_writeLockSnapshots_of_ne t fun r' hr' h => hmore ⟨r',hr',h⟩).symm
    · have hrest : ∃ r'∈rows, r'.id=k := by
        obtain ⟨r',hr',hk'⟩ := hsome
        obtain hr' | hr' := mem_append.mp hr'
        · exact ⟨r',hr',hk'⟩
        · exact absurd (mem_singleton.mp hr' ▸ hk') hk
      obtain ⟨row,hrow,hnewest⟩ := ih hrest
      refine ⟨row,(get_upsert_lock_of_ne _ r hk).trans hrow,?_,?_⟩
      · intro r' hr' hk'
        obtain hr' | hr' := mem_append.mp hr'
        · exact hnewest.latest r' hr' hk'
        · exact absurd (mem_singleton.mp hr' ▸ hk') hk
      · refine hnewest.source.imp_left ?_
        rintro ⟨r',hr',h⟩
        exact ⟨r',mem_append_left _ hr',h⟩

theorem newest_lock_tree_stays_late :
    let rows : List LockSnapshotRow := [⟨"",0,1,⟨5000,0⟩,[1]⟩,⟨"",0,1,⟨4000,0⟩,[2]⟩]
    ∃ row, (LockTable.writeLockSnapshots .empty rows).get ("",0) = some row ∧ Newest .empty rows ("",0) row :=
  newest_lock_tree_stays _ _ _ ⟨_,mem_cons_self,rfl⟩

end LockTrees

end Pglens.Server

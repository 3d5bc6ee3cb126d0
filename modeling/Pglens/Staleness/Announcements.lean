import Pglens.Lib.Runs
import Pglens.Staleness.Turns
import Mathlib.Data.List.Chain

/-! Which instances were announced down is in the events; a leader's map follows them within a term,
and a new term reads them again. -/
namespace Pglens.Staleness
open Pglens.Lib List Function Duration
open Server (stamp)

def agentRows (i : UUID) (rows : List EventRow) : List EventRow := rows.filter (EventRow.announces i)

def partner : EventType → EventType
  | .agentUp => .instanceReachable
  | _ => .instanceUnreachable

/-- The agent events of an instance are told in time order, down first and in turn, each with
its instance event. -/
structure Told (i : UUID) (rows : List EventRow) : Prop where
  alternate : (agentRows i rows).IsChain fun later earlier => later.event.typ≠earlier.event.typ
  first : ∀ row ∈ (agentRows i rows).getLast?, row.event.typ=.agentDown
  ordered : (agentRows i rows).Pairwise fun later earlier => earlier.ts.ns<later.ts.ns
  paired : ∀ row ∈ agentRows i rows, ∃ row'∈rows, row'.event.typ = partner row.event.typ ∧
    row'.eventID = row.eventID+1 ∧ row'.ts=row.ts ∧ row'.event.clusterID=row.event.clusterID ∧
    row'.event.instanceID = row.event.instanceID

/-- What a leader's map says of an instance is what was announced last, and an instance
nothing was announced of is up or not in it. -/
def Coherent (i : UUID) (up : Option Bool) (rows : List EventRow) : Prop :=
  match up with
  | some up => (agentRows i rows).head?.map (fun row => decide (row.event.typ=.agentUp)) = some up ∨
      agentRows i rows = [] ∧ up=true
  | none => agentRows i rows = []

structure EventTable.Numbered (t : EventTable) : Prop where
  below : ∀ row∈t.rows, row.eventID<t.next
  ordered : t.rows.Pairwise fun later earlier => earlier.eventID<later.eventID

section Table
variable {t : EventTable} {i : UUID}

lemma EventTable.Numbered.insert (h : t.Numbered) (ts : Time) (evs : List Event) :
    (t.insert ts evs).Numbered := by
  induction evs generalizing t with
  | nil => exact h
  | cons ev evs ih =>
    refine ih ⟨fun row hrow => ?_,pairwise_cons.mpr ⟨h.below,h.ordered⟩⟩
    rcases mem_cons.mp hrow with rfl | hrow
    · exact Nat.lt_succ_self _
    · exact Nat.lt_succ_of_lt (h.below row hrow)

lemma EventTable.Numbered.inj (h : t.Numbered) {row row' : EventRow} (hrow : row∈t.rows)
    (hrow' : row'∈t.rows) (heq : row.eventID=row'.eventID) : row=row' := by
  have hp := pairwise_iff_getElem.mp h.ordered
  obtain ⟨n,hn,rfl⟩ := mem_iff_getElem.mp hrow
  obtain ⟨m,hm,rfl⟩ := mem_iff_getElem.mp hrow'
  rcases Nat.lt_trichotomy n m with hlt | rfl | hlt
  · have := hp n m hn hm hlt
    omega
  · rfl
  · have := hp m n hm hn hlt
    omega

lemma EventTable.mem_insert {row : EventRow} (h : row∈t.rows) (ts : Time) (evs : List Event) :
    row ∈ (t.insert ts evs).rows := by
  induction evs generalizing t with
  | nil => exact h
  | cons ev evs ih => exact ih (mem_cons_of_mem _ h)

def Foreign (i : UUID) (evs : List Event) : Prop :=
  ∀ ev∈evs, (ev.typ=.agentUp ∨ ev.typ=.agentDown) → ev.instanceID ≠ some i

lemma agentRows_insert (ts : Time) {evs : List Event} (h : Foreign i evs) :
    agentRows i (t.insert ts evs).rows = agentRows i t.rows := by
  induction evs generalizing t with
  | nil => rfl
  | cons ev evs ih =>
    refine (ih fun ev' hev' => h ev' (by simp [hev'])).trans (filter_cons_of_neg ?_)
    simpa [EventRow.announces] using h ev (by simp)

end Table

/-- What holds of a turn while it announces: `lo` is the purge's cutoff, `hi` the last reading
of the clock. -/
structure Steady (i : UUID) (instances : List InstanceRow) (lo hi : ℤ) (t : Turn) : Prop where
  told : Told i t.events.rows
  numbered : t.events.Numbered
  known : agentRows i t.events.rows ≠ [] → ∃ inst∈instances, inst.id=i
  within : ∀ row ∈ agentRows i t.events.rows, lo≤row.ts.ns ∧ row.ts.ns≤hi
  readings : t.txs.Pairwise fun tx tx' => (stamp tx.ts).ns < (stamp tx'.ts).ns
  ahead : ∀ tx∈t.txs, lo ≤ (stamp tx.ts).ns ∧ (stamp tx.ts).ns ≤ hi ∧
    ∀ row ∈ agentRows i t.events.rows, row.ts.ns < (stamp tx.ts).ns

def InTerm (i : UUID) (instances : List InstanceRow) (lo hi : ℤ) (t : Turn) : Prop :=
  Steady i instances lo hi t ∧ Coherent i (t.memory.instanceUp i) t.events.rows

section Turn
variable {i : UUID} {instances : List InstanceRow} {lo hi : ℤ} {t t' : Turn}

lemma Steady.of_eq (h : Steady i instances lo hi t) (he : t'.events=t.events)
    (htxs : t'.txs=t.txs) : Steady i instances lo hi t' := by
  obtain ⟨memory,events,txs⟩ := t'
  cases he
  cases htxs
  exact ⟨h.told,h.numbered,h.known,h.within,h.readings,h.ahead⟩

lemma Steady.skip (h : Steady i instances lo hi t) {txs : List Tx} (hsuf : txs <:+ t.txs) :
    Steady i instances lo hi { t with txs := txs } :=
  ⟨h.told,h.numbered,h.known,h.within,h.readings.sublist hsuf.sublist,
    fun tx htx => h.ahead tx (hsuf.subset htx)⟩

variable {evs : List Event} {rows : List EventRow} {up : Bool} {inst : InstanceRow}
  {scan : Option (List EventRow → List EventRow)}

lemma Steady.emit_foreign (h : Steady i instances lo hi t)
    (hf : Foreign i evs) : Steady i instances lo hi (emitEvents evs t).1 ∧
      agentRows i (emitEvents evs t).1.events.rows = agentRows i t.events.rows := by
  rcases emitEvents_cases evs t with ⟨tx,txs,htxs,he⟩ | ⟨txs,hsuf,he⟩
  · have hrows : agentRows i (t.events.insert tx.ts evs).rows = agentRows i t.events.rows :=
      agentRows_insert tx.ts hf
    have hread := h.readings
    have hahead := h.ahead
    rw [htxs] at hread hahead
    rw [he]
    refine ⟨⟨⟨?_,?_,?_,?_⟩,h.numbered.insert _ _,?_,?_,(pairwise_cons.mp hread).2,?_⟩,hrows⟩
    · rw [hrows]; exact h.told.alternate
    · rw [hrows]; exact h.told.first
    · rw [hrows]; exact h.told.ordered
    · intro row hrow
      rw [hrows] at hrow
      obtain ⟨row',hmem,hrest⟩ := h.told.paired row hrow
      exact ⟨row',EventTable.mem_insert hmem _ _,hrest⟩
    · rw [hrows]; exact h.known
    · rw [hrows]; exact h.within
    · rw [hrows]
      exact fun tx' htx' => hahead tx' (mem_cons_of_mem _ htx')
  · rw [he]
    exact ⟨h.skip hsuf,rfl⟩

lemma insert_transition (e : EventTable) (ts : Time) (clusterID : ℤ) (i : UUID) (up : Bool)
    (lastSeen : Time) :
    ∃ row row', (e.insert ts (transitionEvents clusterID i up lastSeen)).rows = row'::row::e.rows ∧
      row.announces i = true ∧ row'.announces i = false ∧
      row.event.typ = (if up then .agentUp else .agentDown) ∧ row.ts = stamp ts ∧
      row'.event.typ = partner row.event.typ ∧ row'.eventID = row.eventID+1 ∧ row'.ts=row.ts ∧
      row'.event.clusterID = row.event.clusterID ∧ row'.event.instanceID=row.event.instanceID := by
  cases up <;> exact ⟨_,_,rfl,by simp [EventRow.announces],rfl,rfl,rfl,rfl,rfl,rfl,rfl,rfl⟩

lemma Told.announce {row row' : EventRow} (h : Told i rows)
    (hagent : agentRows i (row'::row::rows)=row::agentRows i rows)
    (htyp : row.event.typ=if up then .agentUp else .agentDown)
    (hturn : match (agentRows i rows).head? with
      | some row => (row.event.typ=.agentUp ↔ up=false)
      | none => up=false) (hafter : ∀ row₁ ∈ agentRows i rows, row₁.ts.ns<row.ts.ns)
    (hpair : row'.event.typ=partner row.event.typ ∧ row'.eventID=row.eventID+1 ∧ row'.ts=row.ts ∧
      row'.event.clusterID=row.event.clusterID ∧ row'.event.instanceID=row.event.instanceID) :
    Told i (row'::row::rows) := by
  constructor
  · rw [hagent,isChain_cons]
    refine ⟨fun row₁ hrow₁ => ?_,h.alternate⟩
    rw [Option.mem_def.mp hrow₁] at hturn
    rw [htyp]
    cases up with
    | true => exact fun heq => absurd (hturn.mp heq.symm) (by decide)
    | false => simp [hturn.mpr rfl]
  · rw [hagent]
    intro row₁ hrow₁
    cases hold : agentRows i rows with
    | nil =>
      rw [hold] at hturn hrow₁
      have heq : row=row₁ := by simpa using hrow₁
      rw [← heq,htyp,show up=false from hturn]
      rfl
    | cons row₂ rest =>
      rw [hold,getLast?_cons_cons,← hold] at hrow₁
      exact h.first row₁ hrow₁
  · rw [hagent,pairwise_cons]
    exact ⟨hafter,h.ordered⟩
  · rw [hagent]
    intro row₁ hrow₁
    rcases mem_cons.mp hrow₁ with rfl | hrow₁
    · exact ⟨row',by simp,hpair⟩
    · obtain ⟨row₂,hmem₂,hpair₂⟩ := h.paired row₁ hrow₁
      exact ⟨row₂,by simp [hmem₂],hpair₂⟩

theorem Steady.emit_transition (h : Steady i instances lo hi t)
    (hmem : inst∈instances) (hid : inst.id=i) (up : Bool) (lastSeen : Time)
    (hturn : match (agentRows i t.events.rows).head? with
      | some row => (row.event.typ=.agentUp ↔ up=false)
      | none => up=false) :
    let r := emitEvents (transitionEvents inst.clusterID inst.id up lastSeen) t
    Steady i instances lo hi r.1 ∧
      (r.2=none → (agentRows i r.1.events.rows).head?.map
        (fun row => decide (row.event.typ=.agentUp))=some up) ∧
      (r.2≠none → agentRows i r.1.events.rows=agentRows i t.events.rows) := by
  intro r
  rcases emitEvents_cases (transitionEvents inst.clusterID inst.id up lastSeen) t with
    ⟨tx,txs,htxs,he⟩ | ⟨txs,hsuf,he⟩
  · have hr : r=_ := he
    rw [hr]
    obtain ⟨row,row',hrows,hrow,hrow',htyp,hts,hpair⟩ :=
      insert_transition t.events tx.ts inst.clusterID inst.id up lastSeen
    subst hid
    have hagent : agentRows inst.id (t.events.insert tx.ts
        (transitionEvents inst.clusterID inst.id up lastSeen)).rows =
        row::agentRows inst.id t.events.rows := by
      rw [hrows,agentRows,filter_cons_of_neg (by simp [hrow']),filter_cons_of_pos hrow]
      rfl
    have hread := h.readings
    have hahead := h.ahead
    rw [htxs] at hread hahead
    obtain ⟨hlo,hhi,hafter⟩ := hahead tx (by simp)
    obtain ⟨hnext,hread⟩ := pairwise_cons.mp hread
    have htold : Told inst.id (t.events.insert tx.ts
        (transitionEvents inst.clusterID inst.id up lastSeen)).rows := by
      rw [hrows] at hagent ⊢
      exact h.told.announce hagent htyp hturn (fun row₁ hrow₁ => hts ▸ hafter row₁ hrow₁) hpair
    refine ⟨⟨htold,h.numbered.insert _ _,?_,?_,hread,?_⟩,fun _ => ?_,fun hne => ?_⟩
    all_goals dsimp only
    · exact fun _ => ⟨inst,hmem,rfl⟩
    · rw [hagent]
      intro row₁ hrow₁
      rcases mem_cons.mp hrow₁ with rfl | hrow₁
      · rw [hts]
        exact ⟨hlo,hhi⟩
      · exact h.within row₁ hrow₁
    · rw [hagent]
      intro tx' htx'
      obtain ⟨hlo',hhi',hafter'⟩ := hahead tx' (mem_cons_of_mem _ htx')
      refine ⟨hlo',hhi',fun row₁ hrow₁ => ?_⟩
      rcases mem_cons.mp hrow₁ with rfl | hrow₁
      · rw [hts]
        exact hnext tx' htx'
      · exact hafter' row₁ hrow₁
    · rw [hagent]
      cases up <;> simp [htyp]
    · exact absurd rfl hne
  · have hr : r=_ := he
    rw [hr]
    exact ⟨h.skip hsuf,fun hnone => (by cases hnone),fun _ => rfl⟩

lemma Coherent.congr {up : Option Bool} {rows' : List EventRow} (h : Coherent i up rows)
    (hrows : agentRows i rows'=agentRows i rows) : Coherent i up rows' := by
  unfold Coherent at h ⊢
  rwa [hrows]

lemma Turn.setUp_inTerm (h : Steady i instances lo hi t)
    (hc : Coherent i (some up) t.events.rows) : InTerm i instances lo hi (t.setUp i up) := by
  refine ⟨h.of_eq rfl rfl,?_⟩
  change Coherent i (update t.memory.instanceUp i (some up) i) t.events.rows
  rwa [update_self]

lemma Coherent.turn {known : Option Bool} (up : Bool)
    (hc : Coherent i known rows) (hne : known ≠ some up) (hup : known=none → up=false) :
    match (agentRows i rows).head? with
      | some row => (row.event.typ=.agentUp ↔ up=false)
      | none => up=false := by
  cases known with
  | none =>
    rw [show agentRows i rows=[] from hc]
    exact hup rfl
  | some prevUp =>
    have hup : up=!prevUp := by
      cases up <;> cases prevUp <;> simp_all
    rcases hc with hc | ⟨hnil,hprev⟩
    · cases hhead : (agentRows i rows).head? with
      | none => simp [hhead] at hc
      | some row =>
        have htyp : decide (row.event.typ=.agentUp) = prevUp := by simpa [hhead] using hc
        subst htyp
        simp [hup]
    · rw [hnil]
      simp [hup,hprev]

lemma noteInstance_inTerm (now : Time) (hmem : inst∈instances)
    (hrev : inst.id=i → inst.revoked=false) :
    (noteInstance now inst).Keeps (InTerm i instances lo hi) := by
  intro t ht
  have hcases := noteInstance_cases now inst t
  generalize isStaleUp inst.lastSeen now instanceStaleAfter = up at hcases
  have hmemory := emitEvents_memory (transitionEvents inst.clusterID inst.id up inst.lastSeen) t
  obtain ⟨hs,hc⟩ := ht
  by_cases hid : inst.id=i
  · subst hid
    rcases hcases with ⟨heq,-⟩ | ⟨heq,hset⟩ | ⟨heq,-,hne,hup⟩
    · rw [heq]
      exact ⟨hs,hc⟩
    · rw [hrev rfl] at hset
      obtain ⟨hnone,rfl⟩ := hset.resolve_left (by simp)
      rw [hnone] at hc
      rw [heq]
      exact Turn.setUp_inTerm hs (.inr ⟨hc,rfl⟩)
    · obtain ⟨hsteady,hok,hfail⟩ := hs.emit_transition hmem rfl up inst.lastSeen (hc.turn up hne hup)
      rw [heq,Attempt.andThen_pure]
      generalize emitEvents (transitionEvents inst.clusterID inst.id up inst.lastSeen) t = r at *
      obtain ⟨t',_ | e⟩ := r
      · exact Turn.setUp_inTerm hsteady (.inl (hok rfl))
      · refine ⟨hsteady,?_⟩
        change Coherent inst.id (t'.memory.instanceUp inst.id) t'.events.rows
        rw [show t'.memory=t.memory from hmemory]
        exact hc.congr (hfail (by simp))
  · have hset : ∀ t', InTerm i instances lo hi t' → InTerm i instances lo hi (t'.setUp inst.id up) :=
      fun t' ht' => ⟨ht'.1.of_eq rfl rfl,by
        change Coherent i (update t'.memory.instanceUp inst.id (some up) i) t'.events.rows
        rw [update_of_ne (Ne.symm hid)]
        exact ht'.2⟩
    have hforeign : Foreign i (transitionEvents inst.clusterID inst.id up inst.lastSeen) := by
      intro ev hev _
      unfold transitionEvents at hev
      cases up <;> simp at hev <;> rcases hev with rfl | rfl <;> simpa using hid
    rcases hcases with ⟨heq,-⟩ | ⟨heq,-⟩ | ⟨heq,-⟩
    · rw [heq]
      exact ⟨hs,hc⟩
    · rw [heq]
      exact hset t ⟨hs,hc⟩
    · obtain ⟨hsteady,hrows⟩ := hs.emit_foreign hforeign
      have hin : InTerm i instances lo hi
          (emitEvents (transitionEvents inst.clusterID inst.id up inst.lastSeen) t).1 :=
        ⟨hsteady,by rw [hmemory]; exact hc.congr hrows⟩
      rw [heq,Attempt.andThen_pure]
      dsimp only
      split_ifs
      · exact hset _ hin
      · exact hin

lemma InTerm.of_eq (h : InTerm i instances lo hi t) (he : t'.events=t.events) (htxs : t'.txs=t.txs)
    (hup : t'.memory.instanceUp=t.memory.instanceUp) : InTerm i instances lo hi t' :=
  ⟨h.1.of_eq he htxs,by rw [he,hup]; exact h.2⟩

lemma emitEvents_inTerm (hf : Foreign i evs) :
    (emitEvents evs).Keeps (InTerm i instances lo hi) := by
  intro t ht
  obtain ⟨hsteady,hrows⟩ := ht.1.emit_foreign hf
  exact ⟨hsteady,by rw [emitEvents_memory]; exact ht.2.congr hrows⟩

lemma noteCluster_inTerm (now : Time) (hasPrimary : ℤ → Bool) (cid : ℤ) :
    (noteCluster now hasPrimary cid).Keeps (InTerm i instances lo hi) :=
  noteCluster_keeps now hasPrimary (emitEvents_inTerm (by simp [Foreign]))
    (fun _ ht => ht.of_eq rfl rfl rfl) (fun _ _ ht => ht.of_eq rfl rfl rfl)

lemma evaluateSlots_inTerm (now : Time) (slots : Option (List SlotRow)) :
    (evaluateSlots now slots).Keeps (InTerm i instances lo hi) :=
  evaluateSlots_keeps now slots
    (fun em => ⟨emitEvents_inTerm (by simp [Foreign]),emitEvents_inTerm (by simp [Foreign])⟩)
    (fun _ _ _ ht => ht.of_eq rfl rfl rfl)

lemma InTerm.filter (h : InTerm i instances lo hi t) (p : EventRow → Bool)
    (hp : ∀ row∈t.events.rows, lo≤row.ts.ns → p row=true) :
    InTerm i instances lo hi { t with events := { t.events with rows := t.events.rows.filter p } } := by
  obtain ⟨hs,hc⟩ := h
  have hrows : agentRows i (t.events.rows.filter p) = agentRows i t.events.rows := by
    rw [agentRows,agentRows,filter_filter]
    refine filter_congr fun row hrow => ?_
    cases ha : row.announces i with
    | false => rfl
    | true => simpa using hp row hrow (hs.within row (mem_filter.mpr ⟨hrow,ha⟩)).1
  refine ⟨⟨⟨?_,?_,?_,fun row hrow => ?_⟩,⟨fun row hrow => ?_,?_⟩,?_,?_,hs.readings,?_⟩,hc.congr hrows⟩
  all_goals dsimp only at *
  · rw [hrows]; exact hs.told.alternate
  · rw [hrows]; exact hs.told.first
  · rw [hrows]; exact hs.told.ordered
  · rw [hrows] at hrow
    obtain ⟨row',hmem,htyp,hid,hts,hrest⟩ := hs.told.paired row hrow
    refine ⟨row',mem_filter.mpr ⟨hmem,hp row' hmem ?_⟩,htyp,hid,hts,hrest⟩
    rw [hts]
    exact (hs.within row hrow).1
  · exact hs.numbered.below row (mem_filter.mp hrow).1
  · exact hs.numbered.ordered.sublist filter_sublist
  · rw [hrows]; exact hs.known
  · rw [hrows]; exact hs.within
  · rw [hrows]; exact hs.ahead

lemma purgeEvents_inTerm (now : Time) (hscan : ∀ f∈scan, ∀ rows, (f rows).Perm rows)
    (hlo : (stamp (now.add (-eventRetention))).ns ≤ lo) :
    (purgeEvents now scan).Keeps (InTerm i instances lo hi) := by
  intro t ht
  unfold purgeEvents
  dsimp only
  split_ifs
  · exact ht
  · cases scan with
    | none => exact ht
    | some f =>
      refine InTerm.of_eq (ht.filter _ fun row hrow hge => ?_) rfl rfl rfl
      simp only [Bool.not_eq_eq_eq_not,Bool.not_true,contains_eq_mem,decide_eq_false_iff_not,
        mem_map,not_exists,not_and]
      intro old hold heq
      obtain ⟨hmem,hts⟩ := mem_filter.mp (mem_of_mem_take hold)
      obtain rfl := ht.1.numbered.inj ((hscan f rfl _).mem_iff.mp hmem) hrow heq
      have := (Time.before_iff _ _).mp hts
      omega

lemma purgeRetention_inTerm (now : Time) (affected : Option ℕ)
    (hscan : ∀ f∈scan, ∀ rows, (f rows).Perm rows)
    (hlo : (stamp (now.add (-eventRetention))).ns ≤ lo) :
    (purgeRetention now affected scan).Keeps (InTerm i instances lo hi) := by
  intro t ht
  refine purgeEvents_inTerm now hscan hlo _ ?_
  unfold purgeQueryTexts
  dsimp only
  split_ifs
  · exact ht
  · cases affected with
    | none => exact ht
    | some n => exact ht.of_eq rfl rfl rfl

end Turn

section Reload
variable {i : UUID} {rows scan : List EventRow}

lemma foldl_newerRow {best : EventRow} {l : List EventRow}
    (hl : ∀ row∈l, row=best ∨ row.ts.ns<best.ts.ns) (start : Option EventRow)
    (hstart : start=some best ∨ (∀ row∈start, row.ts.ns<best.ts.ns) ∧ best∈l) :
    l.foldl newerRow start = some best := by
  induction l generalizing start with
  | nil =>
    rcases hstart with h | ⟨-,h⟩
    · exact h
    · cases h
  | cons row l ih =>
    refine ih (fun row' h' => hl row' (by simp [h'])) (newerRow start row) ?_
    rcases hstart with rfl | ⟨hlt,hmem⟩
    · refine .inl (if_neg ?_)
      rcases hl row (by simp) with rfl | hlt
      · simp
      · simpa using hlt.le
    · by_cases hrow : row=best
      · subst hrow
        cases start with
        | none => exact .inl rfl
        | some b => exact .inl (if_pos (by simpa using hlt b rfl))
      · have hlt' := (hl row (by simp)).resolve_left hrow
        refine .inr ⟨fun row' hrow' => ?_,(mem_cons.mp hmem).resolve_left (Ne.symm hrow)⟩
        unfold newerRow at hrow'
        cases start with
        | none =>
          obtain rfl := Option.some.inj hrow'
          exact hlt'
        | some b =>
          dsimp only at hrow'
          split_ifs at hrow'
          · obtain rfl := Option.some.inj hrow'
            exact hlt'
          · obtain rfl := Option.some.inj hrow'
            exact hlt _ rfl

lemma announcedStates_eq (h : Told i rows) (hscan : scan.Perm rows) :
    announcedStates scan i =
      (agentRows i rows).head?.map fun row => decide (row.event.typ=.agentUp) := by
  unfold announcedStates
  have hperm : (scan.filter (EventRow.announces i)).Perm (agentRows i rows) := hscan.filter _
  cases hrows : agentRows i rows with
  | nil =>
    rw [hrows] at hperm
    rw [hperm.eq_nil]
    rfl
  | cons best rest =>
    have hord := h.ordered
    rw [hrows] at hperm hord
    have hbest : (scan.filter (EventRow.announces i)).foldl newerRow none = some best := by
      refine foldl_newerRow (fun row hrow => ?_) none (.inr ⟨by simp,hperm.mem_iff.mpr (by simp)⟩)
      exact (mem_cons.mp (hperm.mem_iff.mp hrow)).imp_right ((pairwise_cons.mp hord).1 row)
    rw [hbest]
    rfl

end Reload

/-- A round that can happen: clock readings in order, scans of the table, and an iteration over
the clusters. -/
structure Round.Possible (before : Time → Time → Prop) (w : World) (round : Round) : Prop where
  clock : (w.clock::round.now::round.txs.map Tx.ts).Pairwise before
  announcedScan : ∀ f∈round.announcedScan, ∀ rows, (f rows).Perm rows
  order : round.order.Perm (clusterIDs w.instances)
  purgeScan : ∀ f∈round.purgeScan, ∀ rows, (f rows).Perm rows

def Action.Possible (before : Time → Time → Prop) (w : World) : Action → Prop
  | .push instances => ∀ inst∈w.instances, ∃ inst'∈instances, inst'.id=inst.id
  | .endSession _ => True
  | .evaluate _ round => round.Possible before w

/-- At an evaluation the instance is not revoked, and neither its last push nor an agent event
of it is older than the events are kept. -/
def Action.Monitors (i : UUID) (w : World) : Action → Prop
  | .evaluate _ round =>
    (∀ inst∈w.instances, inst.id=i → inst.revoked=false ∧
      (round.now.add (-eventRetention)).ns ≤ inst.lastSeen.ns) ∧
    ∀ row ∈ agentRows i w.events.rows, (round.now.add (-eventRetention)).ns ≤ row.ts.ns
  | _ => True

def StoredBefore (t u : Time) : Prop := (stamp t).ns < (stamp u).ns

def Follows (before : Time → Time → Prop) (i : UUID) (w : World) (a : Action) (w' : World) : Prop :=
  (a.Possible before w ∧ a.Monitors i w) ∧ w' = w.step a

/-- The announcements of an instance, and the map of the replica that leads. -/
structure World.Announces (i : UUID) (w : World) : Prop where
  seats : w.locks.Seats w.leaders
  told : Told i w.events.rows
  numbered : w.events.Numbered
  known : agentRows i w.events.rows ≠ [] → ∃ inst∈w.instances, inst.id=i
  past : ∀ row ∈ agentRows i w.events.rows, row.ts.ns ≤ (stamp w.clock).ns
  coherent : ∀ r, w.locks.Leads (w.leaders r) → (w.replicas r).announcedLoaded = true →
    Coherent i ((w.replicas r).instanceUp i) w.events.rows

section World
variable {i : UUID} {w : World} {r : ℕ} {round : Round}

lemma stamp_le (t : Time) : (stamp t).ns ≤ t.ns := by
  simp only [stamp]
  have := Int.emod_nonneg t.ns (b := microsecond) (by decide)
  omega

lemma stamp_mono {t u : Time} (h : t.ns≤u.ns) : (stamp t).ns ≤ (stamp u).ns := by
  simp only [stamp,microsecond]
  omega

variable {now : Time} {ts : List Time} {lo hi : ℤ} {t : Turn}

lemma eq_or_before_lastReading {before : Time → Time → Prop} (h : (now::ts).Pairwise before) :
    ∀ u ∈ now::ts, u = ts.getLast?.getD now ∨ before u (ts.getLast?.getD now) := by
  induction ts generalizing now with
  | nil => simp
  | cons t ts ih =>
    obtain ⟨hnow,hrest⟩ := pairwise_cons.mp h
    intro u hu
    rw [getLast?_cons,Option.getD_some]
    obtain rfl | hu := mem_cons.mp hu
    · refine .inr (hnow _ ?_)
      cases hlast : ts.getLast? with
      | none => simp
      | some last => simp [mem_of_getLast? hlast]
    · exact ih hrest u hu

lemma le_lastReading (h : (now::ts).Pairwise StoredBefore) :
    ∀ u ∈ now::ts, (stamp u).ns ≤ (stamp (ts.getLast?.getD now)).ns :=
  fun u hu => (eq_or_before_lastReading h u hu).elim (fun heq => heq ▸ le_rfl) le_of_lt

lemma World.Announces.steady (h : w.Announces i) (hp : round.Possible StoredBefore w)
    (hm : Action.Monitors i w (.evaluate r round)) (memory : Replica) :
    Steady i w.instances (stamp (round.now.add (-eventRetention))).ns
      (stamp ((round.txs.map Tx.ts).getLast?.getD round.now)).ns ⟨memory,w.events,round.txs⟩ := by
  obtain ⟨hclock,hreadings⟩ := pairwise_cons.mp hp.clock
  obtain ⟨hnow,htxs⟩ := pairwise_cons.mp hreadings
  have hlast := le_lastReading hreadings
  have hlo : (stamp (round.now.add (-eventRetention))).ns ≤ (stamp round.now).ns :=
    stamp_mono (add_le_of_nonpos_right (by decide : -eventRetention ≤ 0))
  have hread : round.txs.Pairwise fun tx tx' => StoredBefore tx.ts tx'.ts := pairwise_map.mp htxs
  refine ⟨h.told,h.numbered,h.known,fun row hrow => ⟨?_,?_⟩,hread,fun tx htx => ?_⟩
  · exact (stamp_le _).trans (hm.2 row hrow)
  · exact (h.past row hrow).trans ((hclock _ (by simp)).le.trans (hlast round.now (by simp)))
  · have hmem : tx.ts ∈ round.txs.map Tx.ts := mem_map_of_mem htx
    refine ⟨hlo.trans (hnow _ hmem).le,hlast _ (mem_cons_of_mem _ hmem),fun row hrow => ?_⟩
    exact (h.past row hrow).trans_lt (hclock _ (mem_cons_of_mem _ hmem))

lemma loadAnnounced_inTerm {instances : List InstanceRow}
    {scan : Option (List EventRow → List EventRow)} (hscan : ∀ f∈scan, ∀ rows, (f rows).Perm rows)
    (hseen : ∀ inst∈instances, inst.id=i → (now.add (-eventRetention)).ns ≤ inst.lastSeen.ns)
    (hs : Steady i instances lo hi t)
    (hc : t.memory.announcedLoaded=true → Coherent i (t.memory.instanceUp i) t.events.rows) :
    let r := loadAnnounced now instances scan t
    Steady i instances lo hi r.1 ∧
      (r.1.memory.announcedLoaded=true → Coherent i (r.1.memory.instanceUp i) r.1.events.rows) ∧
      (r.2=none → InTerm i instances lo hi r.1) := by
  intro r
  have hr : r = loadAnnounced now instances scan t := rfl
  unfold loadAnnounced at hr
  split_ifs at hr with hloaded
  · rw [hr]
    exact ⟨hs,hc,fun _ => ⟨hs,hc hloaded⟩⟩
  · cases scan with
    | none =>
      rw [hr]
      exact ⟨hs,hc,fun hnone => (by cases hnone)⟩
    | some f =>
      have hcoh : Coherent i (announcedUp now instances (announcedStates (f t.events.rows)) i)
          t.events.rows := by
        unfold announcedUp
        cases hfind : instances.find? fun inst => inst.id == i with
        | none =>
          have habsent : ¬∃ inst∈instances, inst.id=i := by
            simpa using find?_eq_none.mp hfind
          exact not_not.mp fun hne => habsent (hs.known hne)
        | some inst =>
          have hid : inst.id=i := by simpa using find?_some hfind
          have hfresh : inst.lastSeen.before (now.add (-eventRetention)) = false :=
            (Time.before_eq_false_iff _ _).mpr (hseen inst (mem_of_find?_eq_some hfind) hid)
          rw [announcedStates_eq hs.told (hscan f rfl t.events.rows)]
          cases hhead : (agentRows i t.events.rows).head? with
          | none =>
            simp only [Option.map_none,hfresh,Bool.false_eq_true,if_false]
            exact head?_eq_none_iff.mp hhead
          | some row => exact .inl (by rw [hhead]; rfl)
      rw [hr]
      exact ⟨hs.of_eq rfl rfl,fun _ => hcoh,fun _ => ⟨hs.of_eq rfl rfl,hcoh⟩⟩

lemma leaderTurn_sound (hp : round.Possible StoredBefore w)
    (hm : Action.Monitors i w (.evaluate r round))
    (hlo : (stamp (round.now.add (-eventRetention))).ns ≤ lo)
    (hs : Steady i w.instances lo hi t)
    (hc : t.memory.announcedLoaded=true → Coherent i (t.memory.instanceUp i) t.events.rows) :
    let t' := ((announceAll w.instances round).andThen (keepHouse round) t).1
    Steady i w.instances lo hi t' ∧
      (t'.memory.announcedLoaded=true → Coherent i (t'.memory.instanceUp i) t'.events.rows) := by
  have hrest : (((Attempt.each (noteInstance round.now) w.instances).andThen
      (Attempt.each (noteCluster round.now (clusterHasPrimary round.now w.instances))
        round.order)).andThen (keepHouse round)).Keeps (InTerm i w.instances lo hi) := by
    have hedges : (purgeTopologyEdges round.purgesEdges).Keeps (InTerm i w.instances lo hi) :=
      fun _ ht => ht
    refine ((Attempt.Keeps.each fun inst hinst => ?_).andThen (Attempt.Keeps.each fun cid _ => ?_)).andThen
      ((evaluateSlots_inTerm _ _).andThen (hedges.andThen
        (purgeRetention_inTerm _ _ hp.purgeScan hlo)))
    · exact noteInstance_inTerm _ hinst fun hid => (hm.1 inst hinst hid).1
    · exact noteCluster_inTerm _ _ _
  unfold announceAll
  rw [Attempt.andThen_assoc]
  exact Attempt.Keeps.after (P := fun t => Steady i w.instances lo hi t ∧
      (t.memory.announcedLoaded=true → Coherent i (t.memory.instanceUp i) t.events.rows))
    (fun t ht => by
      obtain ⟨hs',hc',hdone⟩ := loadAnnounced_inTerm hp.announcedScan
        (fun inst hinst hid => (hm.1 inst hinst hid).2) ht.1 ht.2
      exact ⟨⟨hs',hc'⟩,hdone⟩)
    hrest (fun t ht => ⟨ht.1,fun _ => ht.2⟩) t ⟨hs,hc⟩

lemma World.Announces.ensureLeader (h : w.Announces i) (r : ℕ) (io : LeaderIO) :
    (w.ensureLeader r io).2.Announces i := by
  refine ⟨h.seats.ensure r,h.told,h.numbered,h.known,h.past,fun r' hleads hloaded => ?_⟩
  simp only [World.ensureLeader] at hleads hloaded ⊢
  by_cases hr : r'=r
  · subst hr
    rw [update_self] at hleads hloaded ⊢
    obtain ⟨hleads',hkept | hasked⟩ := h.seats.ensure_leads hleads.1
    · rw [hkept] at hleads'
      exact h.coherent r' hleads' (Bool.and_eq_true_iff.mp hloaded).1
    · simp [hasked] at hloaded
  · rw [update_of_ne hr] at hleads hloaded ⊢
    exact h.coherent r' (h.seats.leads_before hr hleads) hloaded

lemma World.Announces.tick (h : w.Announces i) {clock : Time}
    (hc : (stamp w.clock).ns ≤ (stamp clock).ns) :
    ({ w with clock := clock } : World).Announces i :=
  ⟨h.seats,h.told,h.numbered,h.known,fun row hrow => (h.past row hrow).trans hc,h.coherent⟩

lemma World.Announces.evaluate (h : w.Announces i) (hp : round.Possible StoredBefore w)
    (hm : Action.Monitors i w (.evaluate r round)) : (w.evaluate r round).1.Announces i := by
  have hled := h.ensureLeader r round.io
  have hclock : (stamp w.clock).ns ≤
      (stamp ((round.txs.map Tx.ts).getLast?.getD round.now)).ns := by
    obtain ⟨hclock,hreadings⟩ := pairwise_cons.mp hp.clock
    exact (hclock _ (by simp)).le.trans (le_lastReading hreadings round.now (by simp))
  have hearly : ({ (w.ensureLeader r round.io).2 with
      clock := (round.txs.map Tx.ts).getLast?.getD round.now } : World).Announces i := hled.tick hclock
  unfold World.evaluate
  dsimp only
  split_ifs with hfailed hreads hlock
  · exact hearly
  · exact hearly
  · exact hearly
  · -- Only this replica leads, so only its map has to follow the events it wrote.
    have hleads : (w.ensureLeader r round.io).2.locks.Leads
        ((w.ensureLeader r round.io).2.leaders r) := by
      simp only [World.ensureLeader,update_self,Bool.not_eq_true',Bool.not_eq_false] at hlock ⊢
      exact (h.seats.ensure_leads hlock).1
    obtain ⟨hs,hc⟩ := leaderTurn_sound hp hm le_rfl
      (h.steady hp hm ((w.ensureLeader r round.io).2.replicas r)) (hled.coherent r hleads)
    refine ⟨hled.seats,hs.told,hs.numbered,hs.known,fun row hrow => (hs.within row hrow).2,
      fun r' hleads' hloaded => ?_⟩
    obtain rfl := hled.seats.unique hleads' hleads
    dsimp only at hloaded ⊢
    rw [update_self] at hloaded ⊢
    exact hc hloaded

lemma World.Announces.step (h : w.Announces i) (a : Action) (hp : a.Possible StoredBefore w)
    (hm : a.Monitors i w) : (w.step a).Announces i := by
  cases a with
  | push instances =>
    refine ⟨h.seats,h.told,h.numbered,fun hne => ?_,h.past,h.coherent⟩
    obtain ⟨inst,hinst,hid⟩ := h.known hne
    obtain ⟨inst',hinst',hid'⟩ := hp inst hinst
    exact ⟨inst',hinst',hid'.trans hid⟩
  | endSession c =>
    refine ⟨h.seats.endSession c,h.told,h.numbered,h.known,h.past,fun r hleads hloaded => ?_⟩
    obtain ⟨hlock,c',hc',hholder⟩ := hleads
    exact h.coherent r ⟨hlock,c',hc',Locks.holder_endSession hholder⟩ hloaded
  | evaluate r round => exact h.evaluate hp hm

lemma World.start_announces (instances : List InstanceRow) (clock : Time) :
    (World.start instances clock).Announces i :=
  ⟨Locks.new_seats,⟨.nil,fun _ h => (by cases h),.nil,fun _ h => (by cases h)⟩,
    ⟨fun _ h => (by cases h),.nil⟩,fun h => (h rfl).elim,fun _ h => (by cases h),
    fun _ h => (by cases h.1)⟩

end World

/-- In every run of evaluations by any replicas, with any hand-overs, failed queries and failed
transactions, the agent events of a monitored instance are told as they should be, when the
clock readings differ at the precision the events are stored with. -/
theorem agent_events_alternate (i : UUID) {instances : List InstanceRow} {clock : Time}
    {actions : List Action} {w : World}
    (hrun : Run (Follows StoredBefore i) (World.start instances clock) actions w) :
    Told i w.events.rows :=
  (hrun.invariant (P := World.Announces i)
    (fun _ a _ h ⟨⟨hp,hm⟩,heq⟩ => heq ▸ h.step a hp hm)
    (World.start_announces instances clock)).told

section Runs

def seenAt (seconds : ℤ) : InstanceRow := ⟨1,7,⟨seconds*second,0⟩,.primary,false⟩

def healthy : LeaderIO := ⟨false,true,true,true,true,true⟩

/-- An evaluation `ns` after 1000 s in which nothing fails, with one transaction. -/
def evaluatesAt (ns tx : ℤ) (scan : List EventRow → List EventRow) : Round :=
  ⟨healthy,⟨1000*second+ns,0⟩,true,some scan,[7],[⟨⟨1000*second+tx,0⟩,true⟩],
    some [],true,some 0,some id⟩

instance (t u : Time) : Decidable (StoredBefore t u) := inferInstanceAs (Decidable (_<_))

variable {before : Time → Time → Prop} {w : World} {ns tx : ℤ}
  {scan : List EventRow → List EventRow}

lemma evaluatesAt_possible (hscan : ∀ rows, (scan rows).Perm rows)
    (hclock : (w.clock::(evaluatesAt ns tx scan).now::(evaluatesAt ns tx scan).txs.map Tx.ts).Pairwise before)
    (horder : [7].Perm (clusterIDs w.instances)) : (evaluatesAt ns tx scan).Possible before w :=
  ⟨hclock,fun _ hf => Option.some.inj hf ▸ hscan,horder,fun _ hf => Option.some.inj hf ▸ fun _ => .refl _⟩

lemma evaluatesAt_follows {r : ℕ} (hscan : ∀ rows, (scan rows).Perm rows)
    (hclock : (w.clock::(evaluatesAt ns tx scan).now::(evaluatesAt ns tx scan).txs.map Tx.ts).Pairwise before)
    (horder : [7].Perm (clusterIDs w.instances)) (hseen : ∀ inst∈w.instances, inst.revoked=false ∧
      ((evaluatesAt ns tx scan).now.add (-eventRetention)).ns ≤ inst.lastSeen.ns)
    (hrows : ∀ row∈w.events.rows, ((evaluatesAt ns tx scan).now.add (-eventRetention)).ns ≤ row.ts.ns)
    :
    Follows before 1 w (.evaluate r (evaluatesAt ns tx scan)) (w.step (.evaluate r (evaluatesAt ns tx scan))) :=
  ⟨⟨evaluatesAt_possible hscan hclock horder,
    fun inst hinst _ => hseen inst hinst,fun row hrow => hrows row (mem_filter.mp hrow).1⟩,rfl⟩

/-- An instance goes down and comes back, the lock changes hands, and it goes down again. -/
def handedOver : List Action :=
  [.evaluate 0 (evaluatesAt 0 1000 id),.push [seenAt 1000],.evaluate 0 (evaluatesAt 2000 3000 id),
    .endSession 0,.evaluate 1 (evaluatesAt 4000 5000 List.reverse),
    .evaluate 1 (evaluatesAt (100*second) (100*second+1000) List.reverse)]

/-- The new leader does not repeat the event before it, and tells the next. -/
theorem agent_events_handed_over :
    let w := handedOver.foldl World.step (World.start [seenAt 900] .zero)
    (agentRows 1 w.events.rows).map (·.event.typ) = [.agentDown,.agentUp,.agentDown] ∧
      Told 1 w.events.rows := by
  intro w
  have hkept : ∀ inst ∈ [seenAt 900], ∃ inst' ∈ [seenAt 1000], inst'.id=inst.id := by decide
  have hrun : Run (Follows StoredBefore 1) (World.start [seenAt 900] .zero) handedOver w := by
    refine .cons (evaluatesAt_follows (fun _ => .refl _) ?_ ?_ ?_ ?_) (.cons ⟨⟨hkept,trivial⟩,rfl⟩
      (.cons (evaluatesAt_follows (fun _ => .refl _) ?_ ?_ ?_ ?_) (.cons ⟨⟨trivial,trivial⟩,rfl⟩
        (.cons (evaluatesAt_follows reverse_perm ?_ ?_ ?_ ?_)
          (.single (evaluatesAt_follows reverse_perm ?_ ?_ ?_ ?_))))))
    all_goals decide
  exact ⟨by decide,agent_events_alternate 1 hrun⟩

/-- An instance goes down and comes back within a microsecond, and the lock changes hands. -/
def withinMicrosecond : List Action :=
  [.evaluate 0 (evaluatesAt 1 2 id),.push [seenAt 1000],.evaluate 0 (evaluatesAt 3 4 id),.endSession 0,
    .evaluate 1 (evaluatesAt 5 6 List.reverse)]

/-- The new leader may read the older of two events with one stored time, and announces the
instance up twice. -/
theorem announced_up_twice :
    let w := withinMicrosecond.foldl World.step (World.start [seenAt 900] .zero)
    Run (Follows (fun t u => t.ns<u.ns) 1) (World.start [seenAt 900] .zero) withinMicrosecond w ∧
      ¬Told 1 w.events.rows := by
  have hkept : ∀ inst ∈ [seenAt 900], ∃ inst' ∈ [seenAt 1000], inst'.id=inst.id := by decide
  refine ⟨?_,fun h => absurd h.alternate (by decide)⟩
  refine .cons (evaluatesAt_follows (fun _ => .refl _) ?_ ?_ ?_ ?_) (.cons ⟨⟨hkept,trivial⟩,rfl⟩
    (.cons (evaluatesAt_follows (fun _ => .refl _) ?_ ?_ ?_ ?_) (.cons ⟨⟨trivial,trivial⟩,rfl⟩
      (.single (evaluatesAt_follows reverse_perm ?_ ?_ ?_ ?_)))))
  all_goals decide

end Runs

end Pglens.Staleness

import Pglens.Staleness.Evaluate

/-! The steps of a turn by cases, and for each of its loops the rule from what one transaction keeps
to what the loop keeps. -/
namespace Pglens.Staleness
open Pglens.Lib

variable {P : Turn → Prop}

lemma emitEvents_cases (evs : List Event) (t : Turn) :
    (∃ tx txs, t.txs=tx::txs ∧
      emitEvents evs t=({ t with events := t.events.insert tx.ts evs, txs := txs },none)) ∨
    ∃ txs, txs <:+ t.txs ∧ emitEvents evs t = ({ t with txs := txs },some .emit) := by
  unfold emitEvents
  cases htxs : t.txs with
  | nil => exact .inr ⟨t.txs,by rw [htxs],rfl⟩
  | cons tx txs =>
    cases hok : tx.ok with
    | true => exact .inl ⟨tx,txs,rfl,by simp [hok]⟩
    | false => exact .inr ⟨txs,List.suffix_cons tx txs,by simp [hok]⟩

lemma emitEvents_memory (evs : List Event) (t : Turn) : (emitEvents evs t).1.memory = t.memory := by
  rcases emitEvents_cases evs t with ⟨tx,txs,-,he⟩ | ⟨txs,-,he⟩ <;> rw [he]

lemma noteInstance_cases (now : Time) (inst : InstanceRow) (t : Turn) :
    let up := isStaleUp inst.lastSeen now instanceStaleAfter
    noteInstance now inst t = (t,none) ∧ t.memory.instanceUp inst.id = some up ∨
    noteInstance now inst t = (t.setUp inst.id up,none) ∧
      (inst.revoked=true ∨ t.memory.instanceUp inst.id=none ∧ up=true) ∨
    noteInstance now inst t =
        ((emitEvents (transitionEvents inst.clusterID inst.id up inst.lastSeen)).andThen
          (Attempt.pure fun t => t.setUp inst.id up)) t ∧
      inst.revoked = false ∧ t.memory.instanceUp inst.id ≠ some up ∧
      (t.memory.instanceUp inst.id=none → up=false) := by
  intro up
  have hup : isStaleUp inst.lastSeen now instanceStaleAfter = up := rfl
  unfold noteInstance
  dsimp only
  rw [hup]
  cases inst.revoked with
  | true => exact .inr (.inl ⟨rfl,.inl rfl⟩)
  | false =>
    simp only [Bool.false_eq_true,if_false,false_or]
    cases t.memory.instanceUp inst.id with
    | none =>
      cases up with
      | true => exact .inr (.inl ⟨rfl,rfl,rfl⟩)
      | false => exact .inr (.inr ⟨rfl,trivial,by simp,fun _ => rfl⟩)
    | some prevUp =>
      by_cases heq : prevUp=up
      · exact .inl ⟨if_pos heq,heq ▸ rfl⟩
      · exact .inr (.inr ⟨if_neg heq,trivial,by simpa using heq,by simp⟩)

lemma loadAnnounced_keeps (now : Time) (instances : List InstanceRow)
    (scan : Option (List EventRow → List EventRow))
    (hload : ∀ t up, P t → P { t with memory := { t.memory with
      instanceUp := up
      announcedLoaded := true } }) : (loadAnnounced now instances scan).Keeps P := by
  intro t ht
  unfold loadAnnounced
  split_ifs
  · exact ht
  · cases scan with
    | none => exact ht
    | some f => exact hload t _ ht

lemma noteInstance_keeps (now : Time) {inst : InstanceRow}
    (hemit : ∀ up, (emitEvents (transitionEvents inst.clusterID inst.id up inst.lastSeen)).Keeps P)
    (hset : ∀ t up, P t → P (t.setUp inst.id up)) : (noteInstance now inst).Keeps P := by
  intro t ht
  obtain ⟨heq,-⟩ | ⟨heq,-⟩ | ⟨heq,-⟩ := noteInstance_cases now inst t
  · exact heq ▸ ht
  · exact heq ▸ hset t _ ht
  · exact heq ▸ (hemit _).andThen (fun t' ht' => hset t' _ ht') t ht

lemma noteCluster_keeps (now : Time) (hasPrimary : ℤ → Bool) {cid : ℤ}
    (hemit : (emitEvents [⟨.noPrimaryInCluster,some cid,none,.headless cid⟩]).Keeps P)
    (hseen : ∀ t, P t → P (t.setPrimarySeen cid now))
    (hemitted : ∀ t b, P t → P (t.setNoPrimaryEmitted cid b)) :
    (noteCluster now hasPrimary cid).Keeps P := by
  intro t ht
  unfold noteCluster
  split_ifs
  · exact hemitted _ _ (hseen t ht)
  · split
    · exact hseen t ht
    · split_ifs
      · exact ht
      · exact hemit.andThen (fun t' ht' => hemitted t' true ht') t ht
      · exact ht

lemma emitSlotEvents_keeps (typ : EventType) (unmark : List SlotEmission → Turn → Turn)
    (ems : List SlotEmission) (hemit : ∀ em : SlotEmission,
      (emitEvents [⟨typ,some em.clusterID,some em.instanceID,.slot em.slotName⟩]).Keeps P)
    (hunmark : ∀ ems t, P t → P (unmark ems t)) : (emitSlotEvents typ unmark ems).Keeps P := by
  induction ems with
  | nil => exact fun t ht => ht
  | cons em ems ih =>
    intro t ht
    have h := hemit em t ht
    unfold emitSlotEvents
    generalize emitEvents [⟨typ,some em.clusterID,some em.instanceID,.slot em.slotName⟩] t = r at *
    obtain ⟨t',_ | e⟩ := r
    · exact ih t' h
    · exact hunmark _ t' h

lemma evaluateSlots_keeps (now : Time) (slots : Option (List SlotRow)) (hemit : ∀ em : SlotEmission,
      (emitEvents [⟨.slotInactive,some em.clusterID,some em.instanceID,.slot em.slotName⟩]).Keeps P ∧
      (emitEvents [⟨.slotLost,some em.clusterID,some em.instanceID,.slot em.slotName⟩]).Keeps P)
    (hslots : ∀ t inactive lost, P t → P { t with memory := { t.memory with
      slotInactive := inactive
      slotLostEmitted := lost } }) : (evaluateSlots now slots).Keeps P := by
  intro t ht
  unfold evaluateSlots
  cases slots with
  | none => exact ht
  | some rows =>
    refine (emitSlotEvents_keeps .slotInactive Turn.unmarkInactive _ (fun em => (hemit em).1)
      fun _ t' ht' => hslots t' _ _ ht').andThen (fun t' ht' => ?_) _ (hslots t _ _ ht)
    exact emitSlotEvents_keeps .slotLost Turn.unmarkLost _ (fun em => (hemit em).2)
      (fun _ t' ht' => hslots t' _ _ ht') _ (hslots t' _ _ ht')

end Pglens.Staleness

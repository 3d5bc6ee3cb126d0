import Pglens.Topology.Alike

/-! Any interleaving of Apply, ApplyUndoable, the undo functions it returned and Evict. The cluster
index is exact in all of them, and undo functions called in reverse order are an inverse: no later
sequence of observations can tell. -/
namespace Pglens.Topology
open Pglens.Lib

/-- The engine with the undo functions it has returned, in order. -/
structure Session where
  engine : Engine
  undos : List Undo

inductive Op
  | apply (now : Time) (obs : Observation)
  | applyUndoable (now : Time) (obs : Observation)
  /-- Calls the `i`th undo function. A second call puts back a map of edges that the engine
  may have written to since the first; `seen` is what it holds by then. -/
  | undo (i : ℕ) (seen : FinMap InstanceID Time)
  | evict (before : Time)

def Undo.withSeen (u : Undo) (seen : FinMap InstanceID Time) : Undo :=
  { u with before := { u.before with inst := u.before.inst.map fun p =>
      { p with state := { p.state with edgeSeenAt := seen } } } }

def Session.step (s : Session) : Op → Session
  | .apply now obs => { s with engine := (s.engine.apply now obs).2 }
  | .applyUndoable now obs =>
    let r := s.engine.applyUndoable now obs
    ⟨r.2.2,s.undos++[r.2.1]⟩
  | .undo i seen =>
    match s.undos[i]? with
    | some u => { s with engine := (u.withSeen seen).run s.engine }
    | none => s
  | .evict before => { s with engine := s.engine.evict before }

def Session.new : Session := ⟨newEngine,[]⟩

def Session.run (s : Session) (ops : List Op) : Session := ops.foldl Session.step s

lemma sameInstanceState_clusterID {a b : InstanceState} (h : sameInstanceState a b=true) :
    a.clusterID = b.clusterID := by
  simp only [sameInstanceState,Bool.and_eq_true,decide_eq_true_eq] at h
  exact h.1.1.1.1.1.1.1.1.2

variable {e e₀ : Engine} {undos : List Undo}

lemma revert_indexed (h : e.Indexed) (id : InstanceID) (c : ClusterID)
    (before written : TopoMark) : (e.revert id c before written).Indexed := by
  change (e.revertInstance id before.inst written.inst).Indexed
  unfold Engine.revertInstance
  split
  case h_2 => exact h
  case h_1 live w hlive _ =>
    split_ifs with hguard
    case neg => exact h
    have hcluster := sameInstanceState_clusterID hguard.2
    have hdrop : ∀ i c', i ∈ dropFrom e.clusterInstances w.state.clusterID id c' ↔
        i ≠ id ∧ i ∈ e.clusterInstances c' := by
      intro i c'
      rw [mem_dropFrom]
      by_cases hi : i=id
      · subst hi
        simp only [h i c',hlive,Option.some.injEq]
        grind
      · simp [hi]
    cases hb : before.inst with
    | none =>
      intro i c'
      change i ∈ dropFrom e.clusterInstances w.state.clusterID id c' ↔
        ∃ p, (e.instances.erase id).get i = some p ∧ _
      rw [hdrop]
      by_cases hi : i=id
      · subst hi; simp
      · simp [hi,FinMap.get_erase_of_ne,h i c']
    | some b =>
      intro i c'
      change i ∈ addTo (dropFrom e.clusterInstances w.state.clusterID id) b.state.clusterID id c' ↔
        ∃ p, (e.instances.set id ⟨live.addr,b.state⟩).get i = some p ∧ _
      rw [mem_addTo,hdrop]
      by_cases hi : i=id
      · subst hi; simp [eq_comm]
      · simp [hi,FinMap.get_set_of_ne,h i c']

lemma step_indexed {s : Session} (h : s.engine.Indexed) (op : Op) : (s.step op).engine.Indexed := by
  cases op with
  | apply now obs => exact (apply_moves h now obs).1
  | applyUndoable now obs => exact (apply_moves h now obs).1
  | undo i seen =>
    change (match s.undos[i]? with
      | some u => { s with engine := (u.withSeen seen).run s.engine }
      | none => s : Session).engine.Indexed
    cases s.undos[i]? with
    | none => exact h
    | some u => exact revert_indexed h _ _ _ _
  | evict before => exact evict_indexed h before

lemma run_indexed (ops : List Op) : (Session.new.run ops).engine.Indexed := by
  have hrun : ∀ s : Session, s.engine.Indexed → (s.run ops).engine.Indexed := by
    induction ops with
    | nil => exact fun s h => h
    | cons op ops ih => exact fun s h => ih _ (step_indexed h op)
  exact hrun _ newEngine_indexed

/-- In every state that any interleaving of the operations reaches, an instance is in the
index of a cluster if and only if it is tracked with that cluster, so the split-brain scan
finds a state for every member. -/
theorem cluster_index_exact (ops : List Op) (id : InstanceID) (c : ClusterID) :
    let e := (Session.new.run ops).engine
    (id ∈ e.clusterInstances c ↔ ∃ p, e.instances.get id=some p ∧ p.state.clusterID=c) ∧
      (id ∈ e.clusterInstances c → (e.instances.get id).isSome=true) := by
  intro e
  have h := run_indexed ops id c
  refine ⟨h,fun hid => ?_⟩
  obtain ⟨p,hp,-⟩ := h.mp hid
  rw [hp]
  rfl

/-- Observations applied through ApplyUndoable, with their undo functions last first. -/
def Engine.applyAllUndoable (e : Engine) : List (Time × Observation) → List Undo × Engine
  | [] => ([],e)
  | (now,obs)::steps =>
    let r := e.applyUndoable now obs
    let rest := r.2.2.applyAllUndoable steps
    (rest.1++[r.2.1],rest.2)

/-- The undo functions, called one after the other, bring `e` back to `e₀`, whatever
addresses are handed out meanwhile. -/
def Restores (undos : List Undo) (e₀ e : Engine) : Prop :=
  ∀ heap, undoAll undos { e with heap := heap } = { e₀ with heap := heap }

lemma Restores.nil (e : Engine) : Restores [] e e := fun _ => rfl

lemma Restores.push (h : Restores undos e₀ e) (hi : e.Indexed) (now : Time) (obs : Observation) :
    Restores ((e.applyUndoable now obs).2.1::undos) e₀ (e.applyUndoable now obs).2.2 := by
  intro heap
  change undoAll undos (Undo.run _ _) = _
  rw [Undo.run_heap,applyUndoable_run hi]
  exact h heap

lemma Restores.undone (h : Restores undos e₀ e) :
    undoAll undos e = { e₀ with heap := e.heap } := h e.heap

lemma applyAllUndoable_restores (hi : e.Indexed) (steps : List (Time × Observation)) :
    Restores (e.applyAllUndoable steps).1 e (e.applyAllUndoable steps).2 := by
  induction steps generalizing e with
  | nil => exact Restores.nil e
  | cons step steps ih =>
    obtain ⟨now,obs⟩ := step
    have hrest := ih (apply_moves hi now obs).1
    intro heap
    change undoAll ((Engine.applyAllUndoable _ steps).1++[_]) _ = _
    rw [undoAll,List.foldl_append]
    exact (congrArg (Undo.run _) (hrest heap)).trans ((Restores.nil e).push hi now obs heap)

/-- Undo functions called in reverse order, with no operation in between, are an inverse for
every later sequence of observations. One observation that is applied, undone and applied
again at the same clock reading gives the same events both times. -/
theorem undo_is_inverse (ops : List Op) (steps later : List (Time × Observation)) (now : Time)
    (obs : Observation) :
    let e := (Session.new.run ops).engine
    let r := e.applyAllUndoable steps
    ((undoAll r.1 r.2).applyAll later).1 = (e.applyAll later).1 ∧
      (let once := e.applyUndoable now obs
       ((once.2.1.run once.2.2).apply now obs).1=once.1) := by
  intro e r
  have hi : e.Indexed := run_indexed ops
  constructor
  · rw [(applyAllUndoable_restores hi steps).undone]
    exact ((Engine.Alike.heap e r.2.heap e.heap).applyAll later).1
  · intro once
    have hrun : once.2.1.run once.2.2 = { e with heap := (e.apply now obs).2.heap } :=
      applyUndoable_run hi now obs
    rw [hrun]
    exact ((Engine.Alike.heap e (e.apply now obs).2.heap e.heap).apply now obs).1

end Pglens.Topology

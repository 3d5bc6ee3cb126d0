import Pglens.Pgtype
import Pglens.Lib.FinMap
import Pglens.Lib.Text
import Mathlib.Data.List.Nodup

/-! Store of internal/identity/identity.go: the id of each server an agent watches, by the
fingerprint of its DSN, in memory and in one file. The file is written beside its place and renamed
into it, so a failed write leaves it as it was; the temporary file is left out, since nothing reads
it. Every call holds the lock from its start to its end. -/
namespace Pglens.Identity
open Pglens.Lib List Option FinMap

structure File where
  agentID : UUID
  instances : FinMap Text UUID
  version : ℤ

/-- What stands at the path: a file of JSON, with a null map as it may be, or what is none. -/
inductive Content
  | absent
  | corrupt
  | saved (agentID : UUID) (instances : Option (FinMap Text UUID)) (version : ℤ)

/-- The file that a content holds, read as Open reads it. -/
def Content.file : Content → Option File
  | .saved agentID instances version => some ⟨agentID,instances.getD .empty,version⟩
  | _ => none

structure Store where
  f : File
  disk : Content

/-- Where persistLocked fails. -/
inductive PersistFault
  | writeTmp
  | rename
  deriving DecidableEq, Repr

def Store.persistLocked (s : Store) : Option PersistFault → Option Store
  | some _ => none
  | none => some { s with disk := .saved s.f.agentID (some s.f.instances) s.f.version }

def Store.setInstances (s : Store) (instances : FinMap Text UUID) : Store :=
  { s with f := { s.f with instances := instances } }

/-- Open, with the agent id it makes for a new file. -/
def openStore (disk : Content) (fresh : UUID) (fault : Option PersistFault) : Option Store :=
  match disk with
  | .absent => Store.persistLocked ⟨⟨fresh,.empty,1⟩,.absent⟩ fault
  | .corrupt => none
  | .saved agentID instances version =>
    if agentID=UUID.nil then none else some ⟨⟨agentID,instances.getD .empty,version⟩,disk⟩

/-- A call of instanceID: its fingerprints, of which the legacy one is empty for none, the UUID it
makes if it makes one, and where writing the file fails. -/
structure Call where
  fingerprint : Text
  legacy : Text
  fresh : UUID
  fault : Option PersistFault

/-- Store.instanceID: the id and whether the call made it, or an error. -/
def Store.instanceID (s : Store) (c : Call) : Option (UUID × Bool) × Store :=
  let id := s.f.instances.get c.fingerprint
  let moved := if c.legacy≠[] then s.f.instances.get c.legacy else none
  match id,moved with
  | some id,none => (some (id,false),s)
  | id,moved =>
    let (newID,created) := match id,moved with
      | none,some moved => (moved,false)
      | none,none => (c.fresh,true)
      | some id,_ => (id,false)
    let instances := s.f.instances.set c.fingerprint newID
    let instances := if moved.isSome then instances.erase c.legacy else instances
    match (s.setInstances instances).persistLocked c.fault with
    | some s' => (some (newID,created),s')
    | none =>
      -- the map is put back
      let instances := if id.isNone then instances.erase c.fingerprint else instances
      let instances := match moved with
        | some moved => instances.set c.legacy moved
        | none => instances
      (none,s.setInstances instances)

/-- What happens to a store: a call, or the agent starts again and opens the file. -/
inductive Op
  | call (c : Call)
  | reopen

def Op.call? : Op → Option Call
  | .call c => some c
  | .reopen => none

def Store.step (s : Store) : Op → Store
  | .call c => (s.instanceID c).2
  | .reopen => (openStore s.disk UUID.nil none).getD s

def Store.after (s : Store) (ops : List Op) : Store := ops.foldl Store.step s

section Steps
variable {s : Store} {c : Call}

/-- The map with the new entry of a call, and without its legacy entry if there was one. -/
def Store.moved (s : Store) (c : Call) (id : UUID) : FinMap Text UUID :=
  if c.legacy≠[] ∧ (s.f.instances.get c.legacy).isSome then (s.f.instances.set c.fingerprint id).erase c.legacy
  else s.f.instances.set c.fingerprint id

inductive Did (s : Store) (c : Call) : Option (UUID × Bool) × Store → Prop
  | found {id : UUID} (hid : s.f.instances.get c.fingerprint=some id)
      (hlegacy : c.legacy=[] ∨ s.f.instances.get c.legacy=none) : Did s c (some (id,false),s)
  | wrote {id : UUID} {created : Bool} {s' : Store}
      (hid : (s.f.instances.get c.fingerprint=some id ∧ created=false) ∨
        (s.f.instances.get c.fingerprint=none ∧ c.legacy≠[] ∧ s.f.instances.get c.legacy=some id ∧
          created=false) ∨
        (s.f.instances.get c.fingerprint=none ∧ (c.legacy=[] ∨ s.f.instances.get c.legacy=none) ∧
          id=c.fresh ∧ created=true))
      (hf : s'.f={ s.f with instances := s.moved c id }) (hdisk : s'.disk.file=some s'.f) :
      Did s c (some (id,created),s')
  | failed : Did s c (none,s)

lemma legacy_cases (s : Store) (c : Call) :
    ((if c.legacy≠[] then s.f.instances.get c.legacy else none)=none ∧
        (c.legacy=[] ∨ s.f.instances.get c.legacy=none)) ∨
      ∃ moved, (if c.legacy≠[] then s.f.instances.get c.legacy else none) = some moved ∧ c.legacy≠[] ∧
        s.f.instances.get c.legacy = some moved := by
  by_cases hlegacy : c.legacy=[]
  · exact .inl ⟨if_neg (not_not.mpr hlegacy),.inl hlegacy⟩
  · rw [if_pos hlegacy]
    cases hget : s.f.instances.get c.legacy with
    | none => exact .inl ⟨rfl,.inr rfl⟩
    | some moved => exact .inr ⟨moved,rfl,hlegacy,rfl⟩

lemma instanceID_did (s : Store) (c : Call) : Did s c (s.instanceID c) := by
  rw [Store.instanceID]
  obtain ⟨hmoved,hlegacy⟩ | ⟨moved,hmoved,hlegacy,hget⟩ := legacy_cases s c
  · have hnotMoved : ¬(c.legacy≠[] ∧ (s.f.instances.get c.legacy).isSome=true) := by
      rintro ⟨hne,hsome⟩
      rw [hlegacy.resolve_left hne] at hsome
      cases hsome
    cases hid : s.f.instances.get c.fingerprint with
    | some id =>
      rw [hmoved]
      exact .found hid hlegacy
    | none =>
      rw [hmoved]
      cases hfault : c.fault with
      | none =>
        refine .wrote (.inr (.inr ⟨hid,hlegacy,rfl,rfl⟩)) ?_ rfl
        rw [Store.moved,if_neg hnotMoved]
        rfl
      | some fault =>
        have hback : (s.f.instances.set c.fingerprint c.fresh).erase c.fingerprint = s.f.instances := by
          ext k : 1
          by_cases hk : k=c.fingerprint
          · rw [hk,get_erase_self,hid]
          · rw [get_erase_of_ne _ hk,get_set_of_ne _ _ hk]
        dsimp only [Store.persistLocked,isNone_none,isSome_none]
        rw [if_pos rfl,if_neg (by decide),hback]
        exact .failed
  · rw [hmoved]
    have hwas : c.legacy≠[] ∧ (s.f.instances.get c.legacy).isSome = true := ⟨hlegacy,by rw [hget]; rfl⟩
    cases hid : s.f.instances.get c.fingerprint with
    | some id =>
      cases hfault : c.fault with
      | none =>
        refine .wrote (.inl ⟨hid,rfl⟩) ?_ rfl
        rw [Store.moved,if_pos hwas]
        rfl
      | some fault =>
        have hback : ((s.f.instances.set c.fingerprint id).erase c.legacy).set c.legacy moved = s.f.instances := by
          ext k : 1
          by_cases hk : k=c.legacy
          · rw [hk,get_set_self,hget]
          · rw [get_set_of_ne _ _ hk,get_erase_of_ne _ hk]
            by_cases hkf : k=c.fingerprint
            · rw [hkf,get_set_self,hid]
            · rw [get_set_of_ne _ _ hkf]
        dsimp only [Store.persistLocked,isNone_some,isSome_some]
        rw [if_neg (by decide),if_pos rfl,hback]
        exact .failed
    | none =>
      cases hfault : c.fault with
      | none =>
        refine .wrote (.inr (.inl ⟨hid,hlegacy,hget,rfl⟩)) ?_ rfl
        rw [Store.moved,if_pos hwas]
        rfl
      | some fault =>
        have hback : (((s.f.instances.set c.fingerprint moved).erase c.legacy).erase c.fingerprint).set c.legacy
            moved = s.f.instances := by
          ext k : 1
          by_cases hk : k=c.legacy
          · rw [hk,get_set_self,hget]
          · rw [get_set_of_ne _ _ hk]
            by_cases hkf : k=c.fingerprint
            · rw [hkf,get_erase_self,hid]
            · rw [get_erase_of_ne _ hkf,get_erase_of_ne _ hk,get_set_of_ne _ _ hkf]
        dsimp only [Store.persistLocked,isNone_none,isSome_some]
        rw [if_pos rfl,if_pos rfl,hback]
        exact .failed

lemma get_moved (hne : c.legacy≠c.fingerprint) (id : UUID) (k : Text) :
    (s.moved c id).get k = if k=c.fingerprint then some id
      else if k=c.legacy ∧ c.legacy≠[] then none else s.f.instances.get k := by
  rw [Store.moved]
  by_cases hk : k=c.fingerprint
  · rw [if_pos hk,hk]
    split_ifs
    · rw [get_erase_of_ne _ (Ne.symm hne),get_set_self]
    · exact get_set_self ..
  · rw [if_neg hk]
    split_ifs with hlegacy hkl hkl
    · rw [hkl.1,get_erase_self]
    · rw [get_erase_of_ne,get_set_of_ne _ _ hk]
      exact fun heq => hkl ⟨heq,hlegacy.1⟩
    · rw [get_set_of_ne _ _ hk,hkl.1]
      cases hget : s.f.instances.get c.legacy with
      | none => rfl
      | some v => exact absurd ⟨hkl.2,by rw [hget]; rfl⟩ hlegacy
    · exact get_set_of_ne _ _ hk

/-- What holds between operations. `unused` are the ids still to be made. -/
structure Store.Settled (s : Store) (unused : List UUID) : Prop where
  agent : s.f.agentID≠UUID.nil
  saved : s.disk.file = some s.f
  apart : ∀ k k' id, s.f.instances.get k = some id → s.f.instances.get k' = some id → k=k'
  fresh : ∀ k id, s.f.instances.get k = some id → id ∉ unused

variable {unused : List UUID} {id : UUID} {op : Op} {ops later : List Op} {k : Text}
  {out : UUID × Bool}

lemma Store.Settled.mono {unused' : List UUID} (h : s.Settled unused) (hsub : unused' ⊆ unused) :
    s.Settled unused' :=
  ⟨h.agent,h.saved,h.apart,fun k id hid hmem => h.fresh k id hid (hsub hmem)⟩

lemma Store.Settled.wrote (h : s.Settled (c.fresh::unused)) (hnew : c.fresh ∉ unused)
    (hne : c.legacy≠c.fingerprint) {s' : Store} (hid : s.f.instances.get c.fingerprint=some id ∨
      (c.legacy≠[] ∧ s.f.instances.get c.legacy=some id) ∨ id=c.fresh)
    (hf : s'.f={ s.f with instances := s.moved c id }) (hdisk : s'.disk.file=some s'.f) :
    s'.Settled unused := by
  have hget : ∀ k, s'.f.instances.get k = if k=c.fingerprint then some id
      else if k=c.legacy ∧ c.legacy≠[] then none else s.f.instances.get k := by
    intro k
    rw [hf]
    exact get_moved hne id k
  -- no other entry has the id
  have hother : ∀ k, k≠c.fingerprint → s'.f.instances.get k ≠ some id := by
    intro k hk hkid
    rw [hget,if_neg hk] at hkid
    split_ifs at hkid with hkl
    obtain hid | ⟨hlegacy,hid⟩ | rfl := hid
    · exact hk (h.apart k c.fingerprint id hkid hid)
    · exact hkl ⟨h.apart k c.legacy id hkid hid,hlegacy⟩
    · exact h.fresh k c.fresh hkid (by simp)
  constructor
  case agent =>
    rw [hf]
    exact h.agent
  case saved => exact hdisk
  case apart =>
    intro k k' v hk hk'
    by_cases hkf : k=c.fingerprint
    · by_cases hkf' : k'=c.fingerprint
      · rw [hkf,hkf']
      · rw [hget,if_pos hkf] at hk
        cases hk
        exact absurd hk' (hother k' hkf')
    · by_cases hkf' : k'=c.fingerprint
      · rw [hget k',if_pos hkf'] at hk'
        cases hk'
        exact absurd hk (hother k hkf)
      · rw [hget,if_neg hkf] at hk
        rw [hget,if_neg hkf'] at hk'
        split_ifs at hk hk'
        exact h.apart k k' v hk hk'
  case fresh =>
    intro k v hk hmem
    rw [hget] at hk
    split_ifs at hk
    · cases hk
      obtain hid | ⟨-,hid⟩ | rfl := hid
      · exact h.fresh _ id hid (mem_cons_of_mem _ hmem)
      · exact h.fresh _ id hid (mem_cons_of_mem _ hmem)
      · exact hnew hmem
    · exact h.fresh k v hk (mem_cons_of_mem _ hmem)

lemma Store.Settled.instanceID (h : s.Settled (c.fresh::unused)) (hnew : c.fresh ∉ unused)
    (hne : c.legacy≠c.fingerprint) : (s.instanceID c).2.Settled unused := by
  have hdid := instanceID_did s c
  generalize s.instanceID c = r at hdid ⊢
  cases hdid with
  | found _ _ => exact h.mono (subset_cons_self _ _)
  | wrote hid hf hdisk =>
    refine h.wrote hnew hne ?_ hf hdisk
    obtain ⟨hid,-⟩ | ⟨-,hlegacy,hid,-⟩ | ⟨-,-,hid,-⟩ := hid
    · exact .inl hid
    · exact .inr (.inl ⟨hlegacy,hid⟩)
    · exact .inr (.inr hid)
  | failed => exact h.mono (subset_cons_self _ _)

lemma Store.Settled.reopen (h : s.Settled unused) : s.step .reopen = s := by
  obtain ⟨f,disk⟩ := s
  have hsaved := h.saved
  have hagent := h.agent
  cases disk with
  | absent => cases hsaved
  | corrupt => cases hsaved
  | saved agentID instances version =>
    cases hsaved
    rw [Store.step,openStore,if_neg hagent]
    rfl

lemma Store.Settled.step (h : s.Settled ((op.call?.map Call.fresh).toList++unused))
    (hnew : ∀ c, op = .call c → c.fresh ∉ unused)
    (hne : ∀ c, op = .call c → c.legacy≠c.fingerprint) : (s.step op).Settled unused := by
  cases op with
  | call c => exact Store.Settled.instanceID h (hnew c rfl) (hne c rfl)
  | reopen =>
    rw [h.reopen]
    exact h

def freshIDs (ops : List Op) : List UUID := (ops.filterMap Op.call?).map Call.fresh

lemma freshIDs_append (ops later : List Op) :
    freshIDs (ops++later) = freshIDs ops++freshIDs later := by
  simp [freshIDs]

lemma Store.Settled.after (h : s.Settled (freshIDs (ops++later)))
    (hfresh : (freshIDs (ops++later)).Nodup) (hne : ∀ c, Op.call c ∈ ops → c.legacy≠c.fingerprint) :
    (s.after ops).Settled (freshIDs later) := by
  induction ops generalizing s with
  | nil => exact h
  | cons op ops ih =>
    have hsplit : freshIDs (op::ops++later) = (op.call?.map Call.fresh).toList++freshIDs (ops++later) := by
      cases op <;> rfl
    rw [hsplit] at h hfresh
    refine ih (h.step ?_ fun c hc => hne c (by simp [hc])) (nodup_append.mp hfresh).2.1 fun c hc => hne c (by simp [hc])
    rintro c rfl
    exact (nodup_cons.mp hfresh).1

lemma Store.step_get (h : s.Settled unused) (hget : s.f.instances.get k=some id)
    (hne : ∀ c, op = .call c → c.legacy≠c.fingerprint ∧ c.legacy≠k) :
    (s.step op).f.instances.get k = some id := by
  cases op with
  | reopen => rwa [h.reopen]
  | call c =>
    rw [Store.step]
    have hdid := instanceID_did s c
    generalize s.instanceID c = r at hdid ⊢
    cases hdid with
    | found _ _ => exact hget
    | failed => exact hget
    | wrote hid hf _ =>
      rw [hf]
      refine (get_moved (hne c rfl).1 _ k).trans ?_
      rw [if_neg (c := k=c.legacy ∧ _) (fun hk => (hne c rfl).2 hk.1.symm)]
      split_ifs with hk
      · subst hk
        obtain ⟨hid,-⟩ | ⟨hnone,-⟩ | ⟨hnone,-⟩ := hid
        · rw [← hid,hget]
        · rw [hget] at hnone
          cases hnone
        · rw [hget] at hnone
          cases hnone
      · exact hget

lemma Store.after_get (h : s.Settled (freshIDs (ops++later)))
    (hfresh : (freshIDs (ops++later)).Nodup) (hget : s.f.instances.get k=some id)
    (hne : ∀ c, Op.call c ∈ ops → c.legacy≠c.fingerprint ∧ c.legacy≠k) :
    (s.after ops).f.instances.get k = some id := by
  induction ops using List.reverseRecOn generalizing later with
  | nil => exact hget
  | append_singleton ops op ih =>
    rw [append_assoc] at h hfresh
    have hkeep := ih h hfresh fun c hc => hne c (by simp [hc])
    have hsettled := h.after hfresh fun c hc => (hne c (by simp [hc])).1
    rw [Store.after,foldl_append]
    exact Store.step_get hsettled hkeep fun c hc => hne c (by simp [hc])

lemma instanceID_entry (hne : c.legacy≠c.fingerprint) {created : Bool}
    (h : (s.instanceID c).1=some (id,created)) :
    (s.instanceID c).2.f.instances.get c.fingerprint = some id := by
  have hdid := instanceID_did s c
  generalize s.instanceID c = r at h hdid ⊢
  cases hdid with
  | found hid _ =>
    cases h
    exact hid
  | wrote hid hf _ =>
    cases h
    rw [hf]
    exact (get_moved hne _ _).trans (if_pos rfl)
  | failed => cases h

lemma instanceID_known (hid : s.f.instances.get c.fingerprint=some id)
    (h : (s.instanceID c).1=some out) : out.1=id := by
  have hdid := instanceID_did s c
  generalize s.instanceID c = r at h hdid ⊢
  cases hdid with
  | found hid' _ =>
    cases h
    rw [hid'] at hid
    exact some.inj hid
  | wrote hid' _ _ =>
    cases h
    obtain ⟨hid',-⟩ | ⟨hnone,-⟩ | ⟨hnone,-⟩ := hid'
    · rw [hid'] at hid
      exact some.inj hid
    · rw [hnone] at hid
      cases hid
    · rw [hnone] at hid
      cases hid
  | failed => cases h

lemma instanceID_moves (hne : c.legacy≠c.fingerprint)
    (hnone : s.f.instances.get c.fingerprint=none) (hlegacy : c.legacy≠[])
    (hid : s.f.instances.get c.legacy=some id) (h : (s.instanceID c).1=some out) :
    out = (id,false) ∧ (s.instanceID c).2.f.instances.get c.legacy = none := by
  have hdid := instanceID_did s c
  generalize s.instanceID c = r at h hdid ⊢
  cases hdid with
  | found hid' _ =>
    rw [hnone] at hid'
    cases hid'
  | wrote hid' hf _ =>
    cases h
    obtain ⟨hid',-⟩ | ⟨-,-,hid',rfl⟩ | ⟨-,hno,-⟩ := hid'
    · rw [hnone] at hid'
      cases hid'
    · rw [hid] at hid'
      cases hid'
      refine ⟨rfl,?_⟩
      rw [hf]
      refine (get_moved hne _ _).trans ?_
      rw [if_neg hne,if_pos ⟨rfl,hlegacy⟩]
    · rw [hno.resolve_left hlegacy] at hid
      cases hid
  | failed => cases h

lemma instanceID_failed (h : (s.instanceID c).1=none) : (s.instanceID c).2 = s := by
  have hdid := instanceID_did s c
  generalize s.instanceID c = r at h hdid ⊢
  cases hdid with
  | found _ _ => cases h
  | wrote _ _ _ => cases h
  | failed => rfl

lemma openStore_settled {agentID : UUID} (hagent : agentID≠UUID.nil) {fault : Option PersistFault}
    (hopen : openStore .absent agentID fault=some s) (unused : List UUID) : s.Settled unused := by
  cases fault with
  | some fault => cases hopen
  | none =>
    cases hopen
    refine ⟨hagent,rfl,fun k k' id hk => ?_,fun k id hk => ?_⟩
    · cases hk
    · cases hk

end Steps

/-- What a call of instanceID promises, in a store that `earlier` led to and `later` comes after. -/
structure Kept (before : Store) (c : Call) (later : List Op) : Prop where
  stable : ∀ id created, (before.instanceID c).1 = some (id,created) →
    ∀ mid c' rest, later = mid++.call c'::rest →
    c'.fingerprint = c.fingerprint → (∀ x, Op.call x ∈ mid → x.legacy≠c.fingerprint) →
    ∀ id' created', ((((before.instanceID c).2).after mid).instanceID c').1 = some (id',created') → id'=id
  moved : ∀ id, before.f.instances.get c.fingerprint = none → c.legacy≠[] →
    before.f.instances.get c.legacy = some id → ∀ out, (before.instanceID c).1 = some out →
    out = (id,false) ∧ (before.instanceID c).2.f.instances.get c.legacy = none
  saved : ∀ out, (before.instanceID c).1 = some out →
    (before.instanceID c).2.disk.file = some (before.instanceID c).2.f
  failed : (before.instanceID c).1 = none → (before.instanceID c).2 = before

/-- The ids of a store that began as a new file, over all its calls and restarts. -/
theorem identities_stable {agentID : UUID} (hagent : agentID≠UUID.nil) {fault : Option PersistFault} {s : Store}
    (hopen : openStore .absent agentID fault=some s) {ops : List Op} (hfresh : (freshIDs ops).Nodup)
    (hlegacy : ∀ c, Op.call c ∈ ops → c.legacy≠c.fingerprint) :
    (∀ earlier c later, ops=earlier++.call c::later → Kept (s.after earlier) c later) ∧
      ∀ earlier later, ops = earlier++later → ∀ k k' id, (s.after earlier).f.instances.get k = some id →
        (s.after earlier).f.instances.get k' = some id → k=k' := by
  constructor
  · rintro earlier c later rfl
    have hne := hlegacy c (by simp)
    have hbefore := (openStore_settled hagent hopen _).after hfresh fun x hx => hlegacy x (by simp [hx])
    have hnodup : (c.fresh::freshIDs later).Nodup := by
      rw [freshIDs_append] at hfresh
      exact (nodup_append.mp hfresh).2.1
    have hafter : ((s.after earlier).instanceID c).2.Settled (freshIDs later) :=
      Store.Settled.instanceID hbefore (nodup_cons.mp hnodup).1 hne
    constructor
    case stable =>
      rintro id created hid mid c' rest rfl hsame hmid id' created' hid'
      refine instanceID_known ?_ hid'
      rw [hsame]
      exact Store.after_get hafter (nodup_cons.mp hnodup).2 (instanceID_entry hne hid)
        fun x hx => ⟨hlegacy x (by simp [hx]),hmid x hx⟩
    case moved => exact fun id hnone hl hid out hout => instanceID_moves hne hnone hl hid hout
    case saved => exact fun out _ => hafter.saved
    case failed => exact instanceID_failed
  · rintro earlier later rfl
    exact ((openStore_settled hagent hopen _).after hfresh fun x hx => hlegacy x (by simp [hx])).apart

/-- An id made, lost in a failed move, kept over a restart and moved. -/
def upgraded : List Op :=
  [.call ⟨[1],[],7,none⟩,.call ⟨[2],[1],8,some .rename⟩,.reopen,.call ⟨[2],[1],9,none⟩]

theorem identities_stable_upgraded : ∃ s, openStore .absent 1 none = some s ∧
    (s.after upgraded).f.instances.get [2] = some 7 ∧ Kept (s.after (upgraded.take 3)) ⟨[2],[1],9,none⟩ [] := by
  have hagent : (1 : UUID) ≠ UUID.nil := by decide
  have hfresh : (freshIDs upgraded).Nodup := by decide
  have hlegacy : ∀ c, Op.call c ∈ upgraded → c.legacy≠c.fingerprint := by
    intro c hc
    simp only [upgraded,mem_cons,Op.call.injEq,not_mem_nil,or_false,reduceCtorEq,false_or] at hc
    obtain rfl | rfl | rfl := hc <;> decide
  refine ⟨_,rfl,by decide,?_⟩
  exact (identities_stable hagent (show openStore .absent 1 none=some _ from rfl) hfresh hlegacy).1
    (upgraded.take 3) ⟨[2],[1],9,none⟩ [] rfl

end Pglens.Identity

import Pglens.Pgtype
import Pglens.Time
import Mathlib.Logic.Function.Basic

/-! The state machines of slot_inactive and slot_lost, over the latest report of each slot. -/
namespace Pglens.Staleness
open Function

structure SlotRow where
  instanceID : UUID
  clusterID : ℤ
  slotName : String
  active : Bool
  walStatus : String
  deriving DecidableEq, Repr

def slotLostStatus : String := "lost"

structure SlotEmission where
  clusterID : ℤ
  instanceID : UUID
  slotName : String
  deriving DecidableEq, Repr

/-- The source joins the two with a slash; the text of a UUID has none. -/
abbrev SlotKey := UUID × String

def slotKey (r : SlotRow) : SlotKey := (r.instanceID,r.slotName)

def SlotRow.emission (r : SlotRow) : SlotEmission := ⟨r.clusterID,r.instanceID,r.slotName⟩

def SlotEmission.key (em : SlotEmission) : SlotKey := (em.instanceID,em.slotName)

def present (rows : List SlotRow) (key : SlotKey) : Bool := rows.any fun r => slotKey r == key

/-- One row of decideSlotLostEmissions. -/
def slotLostRow (emitted : SlotKey → Bool) (r : SlotRow) : List SlotEmission × (SlotKey → Bool) :=
  if r.walStatus≠slotLostStatus then ([],update emitted (slotKey r) false)
  else if emitted (slotKey r) then ([],emitted)
  else ([r.emission],update emitted (slotKey r) true)

/-- decideSlotLostEmissions, with the map it leaves. -/
def decideSlotLostEmissions (rows : List SlotRow) (emitted : SlotKey → Bool) :
    List SlotEmission × (SlotKey → Bool) :=
  rows.foldl (fun acc r =>
      let s := slotLostRow acc.2 r
      (acc.1++s.1,s.2))
    ([],fun key => present rows key && emitted key)

/-- The maps of slot_inactive. -/
structure SlotSpells where
  since : SlotKey → Option Time
  emitted : SlotKey → Bool

def slotInactiveThreshold : ℤ := 30*Duration.second

/-- One row of decideSlotInactiveEmissions. -/
def slotInactiveRow (now : Time) (s : SlotSpells) (r : SlotRow) : List SlotEmission × SlotSpells :=
  let key := slotKey r
  if r.active then
    ([],⟨update s.since key none,update s.emitted key false⟩)
  else match s.since key with
    | none => ([],{ s with since := update s.since key (some now) })
    | some t =>
      if slotInactiveThreshold < now.sub t ∧ s.emitted key = false then
        ([r.emission],{ s with emitted := update s.emitted key true })
      else ([],s)

/-- decideSlotInactiveEmissions, with the maps it leaves. -/
def decideSlotInactiveEmissions (rows : List SlotRow) (now : Time) (s : SlotSpells) :
    List SlotEmission × SlotSpells :=
  rows.foldl (fun acc r =>
      let t := slotInactiveRow now acc.2 r
      (acc.1++t.1,t.2))
    ([],⟨fun key => if present rows key then s.since key else none,
      fun key => present rows key && s.emitted key⟩)

end Pglens.Staleness

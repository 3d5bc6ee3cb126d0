import Mathlib.Data.Nat.Notation

/-! A database refuses every statement of a transaction after one that failed. So how a transaction
fails is told by the number of statements that still succeed, and what a program does on a
transaction that never fails is what it does on any other that has not failed by its end. -/
namespace Pglens.Lib

/-- `left` is the number of statements that still succeed, `none` when all do. -/
structure Txn where
  left : Option ℕ
  deriving DecidableEq

namespace Txn

def sound : Txn := ⟨none⟩

def exec (t : Txn) : Option Txn :=
  match t.left with
  | none => some t
  | some 0 => none
  | some (n+1) => some ⟨some n⟩

def query (t : Txn) : Bool × Txn :=
  match t.exec with
  | some t' => (true,t')
  | none => (false,t)

def execAll {ε : Type*} (t : Txn) : List ε → Except ε Txn
  | [] => .ok t
  | e::es =>
    match t.exec with
    | some t' => t'.execAll es
    | none => .error e

def Spent (t : Txn) : Prop := t.left = some 0

@[simp] lemma exec_sound : sound.exec = some sound := rfl

@[simp] lemma query_sound : sound.query = (true,sound) := rfl

variable {ε : Type*} {t t' : Txn}

@[simp] lemma execAll_sound (es : List ε) : sound.execAll es = .ok sound := by
  induction es with
  | nil => rfl
  | cons e es ih => simpa [execAll] using ih

lemma exec_eq_none : t.exec=none ↔ t.Spent := by
  obtain ⟨left⟩ := t
  cases left with
  | none => simp [exec,Spent]
  | some n => cases n <;> simp [exec,Spent]

lemma exec_not_spent (h : t.exec=some t') : ¬t.Spent :=
  fun hs => by rw [exec_eq_none.mpr hs] at h; cases h

lemma query_not_spent (h : ¬t.query.2.Spent) : ¬t.Spent ∧ t.query.1=true := by
  unfold query at h ⊢
  cases he : t.exec with
  | none =>
    rw [he] at h
    exact absurd (exec_eq_none.mp he) h
  | some t' => exact ⟨exec_not_spent he,rfl⟩

lemma execAll_cons_not_spent {es : List ε} (hne : es≠[])
    (h : t.execAll es = .ok t') : ¬t.Spent := by
  cases es with
  | nil => exact absurd rfl hne
  | cons e es =>
    cases he : t.exec with
    | none => simp [execAll,he] at h
    | some u => exact exec_not_spent he

lemma execAll_not_spent {es : List ε} (h : t.execAll es = .ok t') (hs : ¬t'.Spent) : ¬t.Spent := by
  cases es with
  | nil =>
    cases h
    exact hs
  | cons e es => exact execAll_cons_not_spent (List.cons_ne_nil e es) h

end Txn
end Pglens.Lib

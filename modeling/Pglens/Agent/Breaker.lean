import Pglens.Time
import Mathlib.Data.List.Induction
import Mathlib.Tactic.IntervalCases

/-! Three failures in a row open the breaker of internal/agent/breaker.go, every further one doubles
the pause until the next trial, up to a quarter of an hour, and a success closes it. The clock is
read under the lock, so a call is its reading. Durations are int64 and wrap. -/
namespace Pglens.Agent
open Duration

/-- Breaker. `opened` is state 1. -/
structure Breaker where
  failures : ℕ := 0
  opened : Bool := false
  openedAt : Time := .zero
  backoffAttempts : ℕ := 0
  deriving DecidableEq, Repr

def newBreaker : Breaker := {}

section Backoff

def maxBackoff : ℤ := 15*minute

/-- The loop of calculateBackoff, with the rounds the attempt count still allows. -/
def doubleBackoff : ℕ → ℤ → ℤ
  | 0, backoff => backoff
  | n+1, backoff => if backoff < maxBackoff then doubleBackoff n ((backoff*2).bmod (2^64)) else backoff

def calculateBackoff (attempt : ℕ) : ℤ :=
  let backoff := doubleBackoff attempt minute
  if backoff > maxBackoff then maxBackoff else backoff

lemma doubleBackoff_of_le {backoff : ℤ} (h : maxBackoff≤backoff) (n : ℕ) :
    doubleBackoff n backoff = backoff := by
  cases n with
  | zero => rfl
  | succ n => rw [doubleBackoff,if_neg (by omega)]

lemma calculateBackoff_eq (attempt : ℕ) : calculateBackoff attempt = min (2^attempt) 15*minute := by
  by_cases h : attempt<4
  · interval_cases attempt <;> decide
  · obtain ⟨n,rfl⟩ := Nat.exists_eq_add_of_le (Nat.le_of_not_lt h)
    have hloop : doubleBackoff (4+n) minute = 16*minute := by
      rw [Nat.add_comm]
      exact doubleBackoff_of_le (by decide) n
    have hpow : (15 : ℤ) ≤ 2^(4+n) := by
      rw [pow_add]
      have hpos : (0 : ℤ) < 2^n := by positivity
      omega
    rw [calculateBackoff,hloop,min_eq_right hpow]
    rfl

lemma calculateBackoff_bounds (attempt : ℕ) :
    minute ≤ calculateBackoff attempt ∧ calculateBackoff attempt ≤ maxBackoff := by
  have hpow : (1 : ℤ) ≤ 2^attempt := one_le_pow₀ (by decide)
  have hone : (1 : ℤ) ≤ min (2^attempt) 15 := le_min hpow (by decide)
  have hcap : min (2^attempt : ℤ) 15 ≤ 15 := min_le_right _ _
  rw [calculateBackoff_eq,maxBackoff]
  simp only [minute,second]
  omega

end Backoff

section Calls

/-- Allow, at the reading of the clock. -/
def Breaker.allow (b : Breaker) (now : Time) : Bool :=
  if b.opened=false then true
  else decide (calculateBackoff b.backoffAttempts ≤ now.sub b.openedAt)

def Breaker.recordSuccess (b : Breaker) : Breaker :=
  let b := { b with failures := 0 }
  if b.opened then { b with opened := false, backoffAttempts := 0 } else b

/-- RecordFailure, at the reading of the clock. -/
def Breaker.recordFailure (b : Breaker) (now : Time) : Breaker :=
  let b := { b with failures := b.failures+1 }
  if b.opened then { b with openedAt := now, backoffAttempts := b.backoffAttempts+1 }
  else if 3≤b.failures then { b with opened := true, openedAt := now, backoffAttempts := 0 }
  else b

inductive Outcome
  | success
  | failure (now : Time)
  deriving DecidableEq, Repr

def Breaker.record (b : Breaker) : Outcome → Breaker
  | .success => b.recordSuccess
  | .failure now => b.recordFailure now

/-- The times of the failures since the last success. -/
def failing (times : List Time) : Outcome → List Time
  | .success => []
  | .failure now => times++[now]

/-- What the fields say of the failures since the last success. -/
structure Breaker.Reflects (b : Breaker) (times : List Time) : Prop where
  count : b.failures=times.length
  opened : b.opened = decide (3≤times.length)
  last : 3≤times.length → times.getLast? = some b.openedAt
  attempts : 3≤times.length → b.backoffAttempts+3 = times.length

lemma newBreaker_reflects : newBreaker.Reflects [] := ⟨rfl,rfl,by simp,by simp⟩

lemma Breaker.Reflects.record {b : Breaker} {times : List Time} (h : b.Reflects times)
    (outcome : Outcome) : (b.record outcome).Reflects (failing times outcome) := by
  cases outcome with
  | success =>
    rw [Breaker.record,Breaker.recordSuccess,failing]
    cases hopened : b.opened with
    | true => exact ⟨rfl,rfl,by simp,by simp⟩
    | false => exact ⟨rfl,rfl,by simp,by simp⟩
  | failure now =>
    have hcount := h.count
    have hopened := h.opened
    simp only [Breaker.record,Breaker.recordFailure,failing]
    by_cases hthree : 3≤times.length
    · -- the trial of an open breaker fails
      have hattempts := h.attempts hthree
      rw [decide_eq_true hthree] at hopened
      rw [if_pos hopened]
      refine ⟨?_,?_,fun _ => ?_,fun _ => ?_⟩
      · simp [hcount]
      · simp [hopened]
        omega
      · simp
      · simp
        omega
    · rw [decide_eq_false hthree] at hopened
      rw [if_neg (by simp [hopened])]
      by_cases htwo : times.length=2
      · -- the third failure opens it
        rw [if_pos (by simp [hcount,htwo])]
        exact ⟨by simp [hcount],by simp [htwo],by simp,by simp [htwo]⟩
      · rw [if_neg (by omega)]
        refine ⟨by simp [hcount],?_,fun hlong => ?_,fun hlong => ?_⟩
        · simp [hopened]
          omega
        · simp at hlong
          omega
        · simp at hlong
          omega

lemma reflects_run (outcomes : List Outcome) :
    (outcomes.foldl Breaker.record newBreaker).Reflects (outcomes.foldl failing []) := by
  induction outcomes using List.reverseRecOn with
  | nil => exact newBreaker_reflects
  | append_singleton outcomes outcome ih =>
    rw [List.foldl_append,List.foldl_append]
    exact ih.record outcome

lemma le_sub_iff {t u : Time} {d : ℤ} (h : minute≤d) (hmax : d ≤ maxBackoff) :
    d ≤ t.sub u ↔ d ≤ t.ns-u.ns := by
  simp only [Time.sub,maxBackoff,maxDuration,minDuration,minute,second] at *
  split_ifs <;> omega

/-- The breaker refuses exactly while the pause of its ladder runs. -/
theorem allow_ladder (outcomes : List Outcome) (now : Time) :
    (((outcomes.foldl Breaker.record newBreaker).allow now=false) ↔
      ∃ last, (outcomes.foldl failing []).getLast?=some last ∧ 3 ≤ (outcomes.foldl failing []).length ∧
        now.ns-last.ns < min (2^((outcomes.foldl failing []).length-3)) 15*minute) ∧
      ∀ k, minute ≤ calculateBackoff k ∧ calculateBackoff k ≤ 15*minute := by
  refine ⟨?_,calculateBackoff_bounds⟩
  have h := reflects_run outcomes
  generalize outcomes.foldl Breaker.record newBreaker = b at h
  generalize outcomes.foldl failing [] = times at h
  have hopened := h.opened
  rw [Breaker.allow]
  by_cases hthree : 3≤times.length
  · obtain ⟨hlow,hhigh⟩ := calculateBackoff_bounds b.backoffAttempts
    have hattempts : b.backoffAttempts = times.length-3 := by
      have := h.attempts hthree
      omega
    rw [decide_eq_true hthree] at hopened
    rw [if_neg (by simp [hopened]),decide_eq_false_iff_not,le_sub_iff hlow hhigh,calculateBackoff_eq,hattempts,not_le]
    constructor
    · exact fun hlt => ⟨b.openedAt,h.last hthree,hthree,hlt⟩
    · rintro ⟨last,hlast,-,hlt⟩
      rw [h.last hthree] at hlast
      cases hlast
      exact hlt
  · rw [decide_eq_false hthree] at hopened
    rw [if_pos hopened]
    constructor
    · exact fun hfalse => by cases hfalse
    · rintro ⟨-,-,hlong,-⟩
      exact absurd hlong hthree

end Calls

end Pglens.Agent

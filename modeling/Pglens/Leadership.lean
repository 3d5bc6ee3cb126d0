import Mathlib.Data.List.Induction
import Mathlib.Data.Nat.Notation
import Mathlib.Logic.Function.Basic
import Mathlib.Tactic.SplitIfs

/-! The staleness evaluator and the alert engine elect a leader in the same way: a replica keeps a
session of its own, and leads while the session holds a PostgreSQL advisory lock. The lock goes with
the session. A replica learns that its session is over only when it uses it, so every cycle begins
with a ping. -/
namespace Pglens
open Function

/-- The server's side of one advisory lock. Sessions are numbered as they are opened. -/
structure Locks where
  holder : Option ℕ
  ended : List ℕ
  next : ℕ

def Locks.new : Locks := ⟨none,[],0⟩

/-- The end of a session frees its lock. -/
def Locks.endSession (l : Locks) (c : ℕ) : Locks :=
  { l with holder := if l.holder=some c then none else l.holder, ended := c::l.ended }

/-- pg_try_advisory_lock; a session that has the lock gets it again. -/
def Locks.tryLock (l : Locks) (c : ℕ) : Bool × Locks :=
  if l.holder=none ∨ l.holder = some c then (true,{ l with holder := some c }) else (false,l)

/-- The replica's side: the session it keeps, and whether it takes itself for the leader. -/
structure Leader where
  conn : Option ℕ
  hasLock : Bool

def Leader.new : Leader := ⟨none,false⟩

/-- How the I/O of one ensureLeader goes: whether the driver knows that the session is closed, the
ping is answered, a connection is acquired, the lock query reaches the server and is answered, and
the server has by then seen the end of a session the replica closes. -/
structure LeaderIO where
  closed : Bool
  pings : Bool
  acquires : Bool
  reaches : Bool
  answers : Bool
  freed : Bool

/-- releaseLeaderConn: the session is closed, not returned to the pool. -/
def Leader.release (r : Leader) (l : Locks) (io : LeaderIO) : Leader × Locks :=
  match r.conn with
  | some c => (⟨none,false⟩,if io.freed then l.endSession c else l)
  | none => (⟨none,false⟩,l)

/-- What ensureLeader comes to: an error, the lock still held, or the answer to the query,
with what the replica took itself for until then. -/
inductive Election
  | failed
  | kept
  | asked (locked hadLock : Bool)
  deriving DecidableEq

def Leader.ask (c : ℕ) (hasLock : Bool) (l : Locks) (io : LeaderIO) : Election × Leader × Locks :=
  if io.reaches ∧ c ∉ l.ended then
    let q := l.tryLock c
    if io.answers then (.asked q.1 hasLock,⟨some c,q.1⟩,q.2)
    else (.failed,(Leader.mk (some c) hasLock).release q.2 io)
  else (.failed,(Leader.mk (some c) hasLock).release l io)

/-- The session is known to be closed, or does not answer. -/
def Leader.lost (r : Leader) (l : Locks) (io : LeaderIO) : Bool :=
  match r.conn with
  | some c => io.closed || r.hasLock && !(io.pings && decide (c ∉ l.ended))
  | none => false

/-- A session, opened if there is none, and the query on it. -/
def Leader.elect (r : Leader) (l : Locks) (io : LeaderIO) : Election × Leader × Locks :=
  match r.conn with
  | some c => Leader.ask c r.hasLock l io
  | none =>
    if io.acquires then Leader.ask l.next r.hasLock { l with next := l.next+1 } io
    else (.failed,r,l)

/-- ensureLeader. The branch for a lock query without a row is left out: a SELECT of a
function has one. -/
def Leader.ensure (r : Leader) (l : Locks) (io : LeaderIO) : Election × Leader × Locks :=
  if r.hasLock && r.conn.isSome && !r.lost l io then (.kept,r,l)
  else if r.lost l io then (r.release l io).1.elect (r.release l io).2 io
  else r.elect l io

/-- Replicas have sessions of their own, and one that takes itself for the leader holds the
lock unless its session is over. -/
structure Locks.Seats (l : Locks) (leaders : ℕ → Leader) : Prop where
  opened : ∀ r c, (leaders r).conn = some c → c<l.next
  apart : ∀ r r' c, (leaders r).conn = some c → (leaders r').conn = some c → r=r'
  locked : ∀ r, (leaders r).hasLock = true →
    ∃ c, (leaders r).conn = some c ∧ (c ∉ l.ended → l.holder=some c)

/-- The session of `r` holds the lock. -/
def Locks.Leads (l : Locks) (r : Leader) : Prop :=
  r.hasLock = true ∧ ∃ c, r.conn = some c ∧ l.holder = some c

section Seats
variable {l : Locks} {leaders : ℕ → Leader}

lemma Locks.new_seats : Locks.new.Seats fun _ => Leader.new :=
  ⟨fun _ _ h => (by cases h),fun _ _ _ h => (by cases h),fun _ h => (by cases h)⟩

lemma Locks.Seats.unique (h : l.Seats leaders) {r r' : ℕ} (hr : l.Leads (leaders r))
    (hr' : l.Leads (leaders r')) : r=r' := by
  obtain ⟨-,c,hc,hl⟩ := hr
  obtain ⟨-,c',hc',hl'⟩ := hr'
  obtain rfl := Option.some.inj (hl.symm.trans hl')
  exact h.apart r r' c hc hc'

lemma Locks.Seats.endSession (h : l.Seats leaders) (c : ℕ) : (l.endSession c).Seats leaders := by
  refine ⟨h.opened,h.apart,fun r hr => ?_⟩
  obtain ⟨c',hc',hl⟩ := h.locked r hr
  refine ⟨c',hc',fun hended => ?_⟩
  simp only [Locks.endSession,List.mem_cons,not_or] at hended ⊢
  rw [hl hended.2,if_neg (by simpa using hended.1)]

lemma Locks.holder_endSession {l : Locks} {c c' : ℕ} (h : (l.endSession c).holder=some c') :
    l.holder = some c' := by
  unfold Locks.endSession at h
  dsimp only at h
  split_ifs at h
  exact h

end Seats

/-- What one replica's cycle does to the lock: it concerns the session the replica had and
sessions it opened, and no other. -/
structure Locks.Moves (l : Locks) (r : Leader) (r' : Leader) (l' : Locks) : Prop where
  next_le : l.next≤l'.next
  conn : ∀ c, r'.conn = some c → r.conn = some c ∨ l.next≤c ∧ c<l'.next
  ended : ∀ c, c∈l.ended → c∈l'.ended
  holder : ∀ c, r.conn = some c ∨ l.next≤c ∨ (l'.holder=some c ↔ l.holder=some c)

section Moves
variable {l l' l'' : Locks} {r r' r'' : Leader}

lemma Locks.Moves.refl (l : Locks) (r : Leader) : l.Moves r r l :=
  ⟨Nat.le_refl _,fun _ h => .inl h,fun _ h => h,fun _ => .inr (.inr Iff.rfl)⟩

lemma Locks.Moves.trans (h : l.Moves r r' l') (h' : l'.Moves r' r'' l'') : l.Moves r r'' l'' := by
  refine ⟨Nat.le_trans h.next_le h'.next_le,fun c hc => ?_,fun c hc => h'.ended c (h.ended c hc),fun c => ?_⟩
  · rcases h'.conn c hc with hc | hc
    · exact (h.conn c hc).imp_right fun hc => ⟨hc.1,Nat.lt_of_lt_of_le hc.2 h'.next_le⟩
    · exact .inr ⟨Nat.le_trans h.next_le hc.1,hc.2⟩
  · rcases h'.holder c with hc | hc | hc
    · exact (h.conn c hc).imp_right fun hc => .inl hc.1
    · exact .inr (.inl (Nat.le_trans h.next_le hc))
    · rcases h.holder c with hc' | hc' | hc'
      · exact .inl hc'
      · exact .inr (.inl hc')
      · exact .inr (.inr (hc.trans hc'))

lemma Locks.Moves.release (l : Locks) (r : Leader) (io : LeaderIO) :
    l.Moves r (r.release l io).1 (r.release l io).2 := by
  unfold Leader.release
  cases hc : r.conn with
  | none => exact ⟨Nat.le_refl _,fun _ h => (by cases h),fun _ h => h,fun _ => .inr (.inr Iff.rfl)⟩
  | some c =>
    cases io.freed with
    | false => exact ⟨Nat.le_refl _,fun _ h => (by cases h),fun _ h => h,fun _ => .inr (.inr Iff.rfl)⟩
    | true =>
      refine ⟨Nat.le_refl _,fun _ h => (by cases h),fun c' h => List.mem_cons_of_mem c h,fun c' => ?_⟩
      by_cases heq : c'=c
      · exact .inl (by rw [hc,heq])
      · refine .inr (.inr ⟨Locks.holder_endSession,fun hl => ?_⟩)
        simp only [Locks.endSession,if_true]
        rw [if_neg (by rw [hl]; simpa using heq),hl]

lemma Locks.Moves.tryLock (l : Locks) {c : ℕ} (hc : r.conn=some c) (hr : r'.conn=some c) :
    l.Moves r r' (l.tryLock c).2 := by
  unfold Locks.tryLock
  split_ifs with h
  · refine ⟨Nat.le_refl _,fun c' h' => .inl (by rw [hc,← hr,h']),fun _ h => h,fun c' => ?_⟩
    by_cases heq : c'=c
    · exact .inl (by rw [hc,heq])
    · refine .inr (.inr ?_)
      rcases h with h | h <;> simp [h,Ne.symm heq]
  · exact ⟨Nat.le_refl _,fun c' h' => .inl (by rw [hc,← hr,h']),fun _ h => h,
      fun _ => .inr (.inr Iff.rfl)⟩

lemma Locks.Moves.ask (l : Locks) (c : ℕ) (hasLock : Bool) (io : LeaderIO) :
    l.Moves ⟨some c,hasLock⟩ (Leader.ask c hasLock l io).2.1 (Leader.ask c hasLock l io).2.2 := by
  unfold Leader.ask
  split_ifs
  · exact .tryLock l rfl rfl
  · exact (Locks.Moves.tryLock l rfl rfl).trans (.release _ ⟨some c,hasLock⟩ io)
  · exact .release l ⟨some c,hasLock⟩ io

lemma Locks.Moves.elect (l : Locks) (r : Leader) (io : LeaderIO) :
    l.Moves r (r.elect l io).2.1 (r.elect l io).2.2 := by
  obtain ⟨conn,hasLock⟩ := r
  unfold Leader.elect
  cases conn with
  | some c => exact .ask l c hasLock io
  | none =>
    dsimp only
    split_ifs
    · have hopen : l.Moves ⟨none,hasLock⟩ ⟨some l.next,hasLock⟩ { l with next := l.next+1 } :=
        ⟨Nat.le_succ _,fun c h => .inr (by cases h; exact ⟨Nat.le_refl _,Nat.lt_succ_self _⟩),
          fun _ h => h,fun _ => .inr (.inr Iff.rfl)⟩
      exact hopen.trans (.ask _ l.next hasLock io)
    · exact .refl l ⟨none,hasLock⟩

lemma Locks.Moves.ensure (l : Locks) (r : Leader) (io : LeaderIO) :
    l.Moves r (r.ensure l io).2.1 (r.ensure l io).2.2 := by
  unfold Leader.ensure
  split_ifs
  · exact .refl l r
  · exact (Locks.Moves.release l r io).trans (.elect _ _ io)
  · exact .elect l r io

lemma Leader.ask_leads {l : Locks} {c : ℕ} {hasLock : Bool} {io : LeaderIO}
    (h : (Leader.ask c hasLock l io).2.1.hasLock=true) :
    (Leader.ask c hasLock l io).2.2.Leads (Leader.ask c hasLock l io).2.1 ∧
      (Leader.ask c hasLock l io).1 = .asked true hasLock := by
  unfold Leader.ask at h ⊢
  split_ifs at h ⊢
  · dsimp only at h ⊢
    refine ⟨⟨h,c,rfl,?_⟩,by rw [h]⟩
    unfold Locks.tryLock at h ⊢
    split_ifs at h ⊢
    rfl
  · cases h
  · cases h

lemma Leader.elect_leads {l : Locks} {r : Leader} {io : LeaderIO}
    (hnone : r.conn=none → r.hasLock=false) (h : (r.elect l io).2.1.hasLock=true) :
    (r.elect l io).2.2.Leads (r.elect l io).2.1 ∧ (r.elect l io).1 = .asked true r.hasLock := by
  obtain ⟨conn,hasLock⟩ := r
  unfold Leader.elect at h ⊢
  cases conn with
  | some c => exact Leader.ask_leads h
  | none =>
    dsimp only at h ⊢
    split_ifs at h ⊢
    · exact Leader.ask_leads h
    · rw [hnone rfl] at h
      cases h

end Moves

section Ensure
variable {l : Locks} {leaders : ℕ → Leader} {io : LeaderIO}

lemma Locks.Seats.ensure_leads (h : l.Seats leaders) {r : ℕ}
    (hlock : ((leaders r).ensure l io).2.1.hasLock=true) :
    ((leaders r).ensure l io).2.2.Leads ((leaders r).ensure l io).2.1 ∧
      ((leaders r).ensure l io=(.kept,leaders r,l) ∨
        ((leaders r).ensure l io).1 = .asked true false) := by
  have hnone : (leaders r).conn = none → (leaders r).hasLock = false := by
    intro hc
    by_contra hl
    obtain ⟨c,hc',-⟩ := h.locked r (by simpa using hl)
    rw [hc] at hc'
    cases hc'
  unfold Leader.ensure at hlock ⊢
  split_ifs at hlock ⊢ with hkept hlost
  · replace hlock : (leaders r).hasLock = true := hlock
    refine ⟨⟨hlock,?_⟩,.inl rfl⟩
    obtain ⟨c,hc,hl⟩ := h.locked r hlock
    have hping : c ∉ l.ended := by
      simp only [Leader.lost,hc,hlock,Bool.true_and,Option.isSome_some,Bool.not_or,
        Bool.not_not,Bool.and_eq_true,decide_eq_true_eq] at hkept
      exact hkept.2.2
    exact ⟨c,hc,hl hping⟩
  · have hrel : ((leaders r).release l io).1 = ⟨none,false⟩ := by
      unfold Leader.release
      split <;> rfl
    obtain ⟨hleads,hasked⟩ := Leader.elect_leads (fun _ => by rw [hrel]) hlock
    exact ⟨hleads,.inr (by rw [hasked,hrel])⟩
  · obtain ⟨hleads,hasked⟩ := Leader.elect_leads hnone hlock
    refine ⟨hleads,.inr ?_⟩
    have hno : (leaders r).hasLock = false := by
      by_contra hl
      cases hc : (leaders r).conn with
      | none => exact hl (hnone hc)
      | some c => simp [hc,eq_true_of_ne_false hl,hlost] at hkept
    rw [hasked,hno]

lemma Locks.Seats.ensure (h : l.Seats leaders) (r : ℕ) :
    ((leaders r).ensure l io).2.2.Seats (update leaders r ((leaders r).ensure l io).2.1) := by
  have hm := Locks.Moves.ensure l (leaders r) io
  have hleads : ((leaders r).ensure l io).2.1.hasLock = true → _ := h.ensure_leads
  generalize ((leaders r).ensure l io).2.1 = own at hm hleads ⊢
  generalize ((leaders r).ensure l io).2.2 = l' at hm hleads ⊢
  have hown : ∀ r' c, r'≠r → (leaders r').conn = some c → own.conn ≠ some c := by
    intro r' c hne hc' hc
    rcases hm.conn c hc with hc | ⟨hc,-⟩
    · exact hne (h.apart r' r c hc' hc)
    · have := h.opened r' c hc'
      omega
  refine ⟨fun r' c hc => ?_,fun r' r'' c hc hc' => ?_,fun r' hl => ?_⟩
  · by_cases hr : r'=r
    · subst hr
      rw [update_self] at hc
      rcases hm.conn c hc with hc | ⟨-,hc⟩
      · exact Nat.lt_of_lt_of_le (h.opened r' c hc) hm.next_le
      · exact hc
    · rw [update_of_ne hr] at hc
      exact Nat.lt_of_lt_of_le (h.opened r' c hc) hm.next_le
  · by_cases hr : r' = r <;> by_cases hr' : r''=r
    · rw [hr,hr']
    · rw [hr,update_self] at hc
      rw [update_of_ne hr'] at hc'
      exact absurd hc (hown r'' c hr' hc')
    · rw [update_of_ne hr] at hc
      rw [hr',update_self] at hc'
      exact absurd hc' (hown r' c hr hc)
    · rw [update_of_ne hr] at hc
      rw [update_of_ne hr'] at hc'
      exact h.apart r' r'' c hc hc'
  · by_cases hr : r'=r
    · subst hr
      rw [update_self] at hl ⊢
      obtain ⟨⟨-,c,hc,hholder⟩,-⟩ := hleads hl
      exact ⟨c,hc,fun _ => hholder⟩
    · rw [update_of_ne hr] at hl ⊢
      obtain ⟨c,hc,hholder⟩ := h.locked r' hl
      refine ⟨c,hc,fun hended => ?_⟩
      rcases hm.holder c with hc' | hc' | hc'
      · exact absurd (h.apart r' r c hc hc') hr
      · have := h.opened r' c hc
        omega
      · exact hc'.mpr (hholder fun hmem => hended (hm.ended c hmem))

lemma Locks.Seats.leads_before (h : l.Seats leaders) {r r' : ℕ} (hne : r'≠r)
    (hleads : ((leaders r).ensure l io).2.2.Leads (leaders r')) : l.Leads (leaders r') := by
  obtain ⟨hlock,c,hc,hholder⟩ := hleads
  refine ⟨hlock,c,hc,?_⟩
  rcases (Locks.Moves.ensure l (leaders r) io).holder c with hc' | hc' | hc'
  · exact absurd (h.apart r' r c hc hc') hne
  · have := h.opened r' c hc
    omega
  · exact hc'.mp hholder

end Ensure

section Runs

inductive SeatEvent
  | ensure (r : ℕ) (io : LeaderIO)
  | endSession (c : ℕ)

/-- One event at the lock, with the replicas by number. -/
def Locks.act (s : Locks × (ℕ → Leader)) : SeatEvent → Locks × (ℕ → Leader)
  | .ensure r io =>
    let e := (s.2 r).ensure s.1 io
    (e.2.2,update s.2 r e.2.1)
  | .endSession c => (s.1.endSession c,s.2)

def Locks.run (events : List SeatEvent) : Locks × (ℕ → Leader) :=
  events.foldl Locks.act (Locks.new,fun _ => Leader.new)

lemma Locks.run_seats (events : List SeatEvent) :
    (Locks.run events).1.Seats (Locks.run events).2 := by
  induction events using List.reverseRecOn with
  | nil => exact Locks.new_seats
  | append_singleton events e ih =>
    rw [Locks.run,List.foldl_append,← Locks.run]
    cases e with
    | ensure r io => exact ih.ensure r
    | endSession c => exact ih.endSession c

/-- Of two replicas that take themselves for the leader at once, one has lost its session. -/
theorem leaders_apart (events : List SeatEvent) {r r' : ℕ} (hne : r≠r') :
    let s := Locks.run events
    (s.2 r).hasLock = true → (s.2 r').hasLock = true →
      ∃ c∈s.1.ended, (s.2 r).conn = some c ∨ (s.2 r').conn = some c := by
  intro s hr hr'
  have hseats : s.1.Seats s.2 := Locks.run_seats events
  obtain ⟨c,hc,hl⟩ := hseats.locked r hr
  obtain ⟨c',hc',hl'⟩ := hseats.locked r' hr'
  by_cases hended : c∈s.1.ended
  · exact ⟨c,hended,.inl hc⟩
  · by_cases hended' : c'∈s.1.ended
    · exact ⟨c',hended',.inr hc'⟩
    · exact absurd (hseats.unique ⟨hr,c,hc,hl hended⟩ ⟨hr',c',hc',hl' hended'⟩) hne

theorem leaders_apart_restart :
    let answered : LeaderIO := ⟨false,true,true,true,true,true⟩
    let s := Locks.run [.ensure 0 answered,.endSession 0,.ensure 1 answered]
    ∃ c∈s.1.ended, (s.2 0).conn = some c ∨ (s.2 1).conn = some c :=
  leaders_apart _ (by decide) rfl rfl

end Runs

end Pglens

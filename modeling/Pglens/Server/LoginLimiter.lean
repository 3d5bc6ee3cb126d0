import Pglens.Time
import Pglens.Lib.FinMap
import Pglens.Lib.Ranking
import Pglens.Lib.Runs
import Pglens.Lib.Tasks
import Pglens.Lib.Text
import Mathlib.Data.Finset.Sort

/-! loginLimiter of internal/server. A begin takes a slot of a channel, then charges the client's
budget under a lock, and gives the slot back when the budget is used up; a done resets the budget of
a client that signed in and gives the slot back. Requests interleave between these points. -/
namespace Pglens.Server
open Pglens.Lib List Prod

def sessionLoginMaxAttempts : ℕ := 5
def sessionLoginWindow : ℤ := 15*Duration.minute
def sessionLoginMaxInFlight : ℕ := 8
def sessionLoginMaxClients : ℕ := 4096

structure LoginBudget where
  windowStart : Time
  count : ℕ
  deriving DecidableEq, Repr

/-- The budget of a client without an entry. -/
def LoginBudget.zero : LoginBudget := ⟨Time.zero,0⟩

/-- The limiter: its table, and how many elements its channel holds. -/
structure LoginLimiter where
  attempts : FinMap Text LoginBudget
  slots : ℕ

/-- The budget that counts at a time: a window that has ended gives way to a new one. -/
def LoginBudget.current (b : LoginBudget) (now : Time) : LoginBudget :=
  if sessionLoginWindow ≤ now.sub b.windowStart then ⟨now,0⟩ else b

/-- The entries of a map in the order in which range visits them. -/
def ranged (r : Ranging Text) (m : FinMap Text LoginBudget) : List (Text × LoginBudget) :=
  (r.visit (m.keys.sort (· ≤ ·))).filterMap fun client => (m.get client).map (client,·)

/-- The scan for the oldest window of a client other than `keep`. -/
def oldest (keep : Text) (entries : List (Text × LoginBudget)) : Option (Text × Time) :=
  entries.foldl (fun found e =>
    if e.1≠keep ∧ (found.all fun f => e.2.windowStart.before f.2) then some (e.1,e.2.windowStart) else found) none

/-- The second loop of trimLocked. Each turn ranges over the table in an order of its own, and without
a client to remove deletes the empty name. -/
def trimLoop (r : ℕ → Ranging Text) (keep : Text) : ℕ → FinMap Text LoginBudget → FinMap Text LoginBudget
  | 0,m => m
  | n+1,m =>
    if sessionLoginMaxClients < m.keys.card then
      trimLoop r keep n (m.erase (((oldest keep (ranged (r n) m)).map fst).getD []))
    else m

def trimLocked (r : ℕ → Ranging Text) (now : Time) (keep : Text) (m : FinMap Text LoginBudget) :
    FinMap Text LoginBudget :=
  if m.keys.card ≤ sessionLoginMaxClients then m
  else
    let m := m.filter fun client budget =>
      !(decide (client≠keep) && decide (sessionLoginWindow ≤ now.sub budget.windowStart))
    trimLoop r keep m.keys.card m

/-- The part of begin under the lock, with the wait of a refusal. -/
def LoginLimiter.charge (l : LoginLimiter) (client : Text) (now : Time) (r : ℕ → Ranging Text) :
    LoginLimiter × Option ℤ :=
  let budget := ((l.attempts.get client).getD .zero).current now
  if sessionLoginMaxAttempts≤budget.count then
    (l,some ((budget.windowStart.add sessionLoginWindow).sub now))
  else
    ({ l with attempts :=
        trimLocked r now client (l.attempts.set client { budget with count := budget.count+1 }) },none)

/-- The part of done under the lock, which only a client that signed in reaches. -/
def LoginLimiter.settle (l : LoginLimiter) (client : Text) (succeeded : Bool) : LoginLimiter :=
  if succeeded then { l with attempts := l.attempts.erase client } else l

inductive Phase
  /-- In begin, with a slot, before the lock. -/
  | entered (client : Text)
  /-- In begin, refused under the lock, before the slot is given back. -/
  | refusing (retryAfter : ℤ)
  /-- Begin has returned a refusal. -/
  | refused (retryAfter : ℤ)
  /-- Begin has returned its done. -/
  | allowed (client : Text)
  /-- In done, before the slot is given back. -/
  | closing
  /-- Done has returned. -/
  | closed
  deriving DecidableEq, Repr

/-- The limiter and the requests in the order of their begins. -/
structure SignIns where
  limiter : LoginLimiter
  requests : List Phase

def SignIns.new : SignIns := ⟨⟨FinMap.empty,0⟩,[]⟩

/-- One indivisible action of a request. -/
inductive Action
  /-- The select of a new begin. -/
  | enter (client : Text)
  /-- The part of begin under the lock. -/
  | charge (request : ℕ) (now : Time) (r : ℕ → Ranging Text)
  /-- Done up to the slot: a client that signed in loses its entry. -/
  | done (request : ℕ) (succeeded : Bool)
  /-- Taking an element out of the channel, which blocks while there is none. -/
  | leave (request : ℕ)

namespace SignIns

def act (x : SignIns) : Action → Option SignIns
  | .enter client =>
    if x.limiter.slots<sessionLoginMaxInFlight then
      some ⟨{ x.limiter with slots := x.limiter.slots+1 },x.requests++[.entered client]⟩
    else some { x with requests := x.requests++[.refused Duration.second] }
  | .charge i now r =>
    match x.requests[i]? with
    | some (.entered client) =>
      match x.limiter.charge client now r with
      | (l,none) => some ⟨l,x.requests.set i (.allowed client)⟩
      | (l,some wait) => some ⟨l,x.requests.set i (.refusing wait)⟩
    | _ => none
  | .done i succeeded =>
    match x.requests[i]? with
    | some (.allowed client) =>
      some ⟨x.limiter.settle client succeeded,x.requests.set i .closing⟩
    | _ => none
  | .leave i =>
    if x.limiter.slots=0 then none
    else
      let limiter := { x.limiter with slots := x.limiter.slots-1 }
      match x.requests[i]? with
      | some (.refusing wait) => some ⟨limiter,x.requests.set i (.refused wait)⟩
      | some .closing => some ⟨limiter,x.requests.set i .closed⟩
      | _ => none

inductive Moves (x : SignIns) : Action → SignIns → Prop
  | enter (client : Text) (hfree : x.limiter.slots<sessionLoginMaxInFlight) :
      Moves x (.enter client) ⟨{ x.limiter with slots := x.limiter.slots+1 },x.requests++[.entered client]⟩
  | full (client : Text) (hfull : ¬x.limiter.slots<sessionLoginMaxInFlight) :
      Moves x (.enter client) { x with requests := x.requests++[.refused Duration.second] }
  | allow {i : ℕ} {now : Time} {r : ℕ → Ranging Text} {client : Text} {l : LoginLimiter}
      (hi : x.requests[i]?=some (.entered client)) (hl : x.limiter.charge client now r=(l,none)) :
      Moves x (.charge i now r) ⟨l,x.requests.set i (.allowed client)⟩
  | refuse {i : ℕ} {now : Time} {r : ℕ → Ranging Text} {client : Text} {l : LoginLimiter} {wait : ℤ}
      (hi : x.requests[i]?=some (.entered client)) (hl : x.limiter.charge client now r=(l,some wait)) :
      Moves x (.charge i now r) ⟨l,x.requests.set i (.refusing wait)⟩
  | done {i : ℕ} (succeeded : Bool) {client : Text} (hi : x.requests[i]?=some (.allowed client)) :
      Moves x (.done i succeeded) ⟨x.limiter.settle client succeeded,x.requests.set i .closing⟩
  | giveUp {i : ℕ} {wait : ℤ} (hpos : 0<x.limiter.slots) (hi : x.requests[i]?=some (.refusing wait)) :
      Moves x (.leave i) ⟨{ x.limiter with slots := x.limiter.slots-1 },x.requests.set i (.refused wait)⟩
  | close {i : ℕ} (hpos : 0<x.limiter.slots) (hi : x.requests[i]?=some .closing) :
      Moves x (.leave i) ⟨{ x.limiter with slots := x.limiter.slots-1 },x.requests.set i .closed⟩

lemma moves_of_act {x y : SignIns} {a : Action} (h : x.act a=some y) : Moves x a y := by
  cases a with
  | enter client =>
    simp only [act] at h
    split_ifs at h with hfree
    · cases h
      exact .enter client hfree
    · cases h
      exact .full client hfree
  | charge i now r =>
    simp only [act] at h
    split at h
    · next client hi =>
      split at h
      · next l hl =>
        cases h
        exact .allow hi hl
      · next l wait hl =>
        cases h
        exact .refuse hi hl
    · cases h
  | done i succeeded =>
    simp only [act] at h
    split at h
    · next client hi =>
      cases h
      exact .done succeeded hi
    · cases h
  | leave i =>
    simp only [act] at h
    split_ifs at h with hzero
    split at h
    · next wait hi =>
      cases h
      exact .giveUp (Nat.pos_of_ne_zero hzero) hi
    · next hi =>
      cases h
      exact .close (Nat.pos_of_ne_zero hzero) hi
    · cases h

end SignIns

variable {m : FinMap Text LoginBudget} {keep client : Text} {l l' : LoginLimiter} {now : Time}
  {r : ℕ → Ranging Text}

lemma mem_ranged {r : Ranging Text} {e : Text × LoginBudget} :
    e ∈ ranged r m ↔ m.get e.1 = some e.2 := by
  obtain ⟨client,budget⟩ := e
  simp only [ranged,mem_filterMap,(r.perm _).mem_iff,Finset.mem_sort,m.mem_keys,Option.map_eq_some_iff,
    mk.injEq]
  constructor
  · rintro ⟨k,-,b,hb,rfl,rfl⟩
    exact hb
  · intro hget
    exact ⟨client,by rw [hget]; rfl,budget,hget,rfl,rfl⟩

lemma oldest_spec (keep : Text) (entries : List (Text × LoginBudget)) :
    match oldest keep entries with
    | none => ∀ e∈entries, e.1=keep
    | some (client,start) => client≠keep ∧ ∃ budget, (client,budget) ∈ entries ∧
        budget.windowStart = start := by
  induction entries using List.reverseRecOn with
  | nil => simp [oldest]
  | append_singleton entries e ih =>
    rw [oldest,foldl_append,foldl_cons,foldl_nil,← oldest]
    split_ifs with hnew
    · exact ⟨hnew.1,e.2,by simp,rfl⟩
    · cases hfound : oldest keep entries with
      | none =>
        rw [hfound] at ih hnew
        have hkeep : e.1=keep := by simpa using hnew
        intro e' he'
        obtain he' | he' := mem_append.mp he'
        · exact ih e' he'
        · rwa [mem_singleton.mp he']
      | some f =>
        rw [hfound] at ih
        obtain ⟨hne,budget,hmem,hstart⟩ := ih
        exact ⟨hne,budget,mem_append_left _ hmem,hstart⟩

lemma exists_oldest (r : Ranging Text) (keep : Text) (h : sessionLoginMaxClients < m.keys.card) :
    ∃ client∈m.keys, client≠keep ∧ ((oldest keep (ranged r m)).map fst).getD [] = client := by
  have hspec := oldest_spec keep (ranged r m)
  cases hfound : oldest keep (ranged r m) with
  | none =>
    rw [hfound] at hspec
    obtain ⟨client,hmem,hne⟩ := Finset.exists_mem_ne ((by decide : 1<sessionLoginMaxClients).trans h) keep
    obtain ⟨budget,hget⟩ := Option.isSome_iff_exists.mp ((m.mem_keys client).mp hmem)
    exact absurd (hspec (client,budget) (mem_ranged.mpr hget)) hne
  | some f =>
    rw [hfound] at hspec
    obtain ⟨hne,budget,hmem,-⟩ := hspec
    refine ⟨f.1,(m.mem_keys _).mpr ?_,hne,rfl⟩
    rw [mem_ranged.mp hmem]
    rfl

/-- What trimming does to a table: fewer entries, the one to keep among them. -/
structure Trims (keep : Text) (m m' : FinMap Text LoginBudget) : Prop where
  sub : ∀ client budget, m'.get client = some budget → m.get client = some budget
  kept : m'.get keep = m.get keep

lemma Trims.refl (keep : Text) (m : FinMap Text LoginBudget) :
    Trims keep m m := ⟨fun _ _ h => h,rfl⟩

lemma Trims.trans {m₁ m₂ m₃ : FinMap Text LoginBudget} (h : Trims keep m₁ m₂)
    (h' : Trims keep m₂ m₃) : Trims keep m₁ m₃ :=
  ⟨fun client budget hget => h.sub client budget (h'.sub client budget hget),h'.kept.trans h.kept⟩

lemma Trims.erase (m : FinMap Text LoginBudget) (hne : client≠keep) :
    Trims keep m (m.erase client) := by
  refine ⟨fun other budget hget => ?_,FinMap.get_erase_of_ne m (Ne.symm hne)⟩
  by_cases heq : other=client
  · rw [heq,FinMap.get_erase_self] at hget
    cases hget
  · rwa [FinMap.get_erase_of_ne m heq] at hget

lemma trimLoop_spec (r : ℕ → Ranging Text) (keep : Text) (n : ℕ) (m : FinMap Text LoginBudget)
    (hn : m.keys.card ≤ n+sessionLoginMaxClients) :
    (trimLoop r keep n m).keys.card ≤ sessionLoginMaxClients ∧ Trims keep m (trimLoop r keep n m) := by
  induction n generalizing m with
  | zero => exact ⟨(Nat.zero_add sessionLoginMaxClients) ▸ hn,.refl keep m⟩
  | succ n ih =>
    rw [trimLoop]
    split_ifs with hlarge
    · obtain ⟨client,hmem,hne,hold⟩ := exists_oldest (r n) keep hlarge
      rw [hold]
      have hcard : (m.erase client).keys.card = m.keys.card-1 := Finset.card_erase_of_mem hmem
      obtain ⟨hle,htrims⟩ := ih (m.erase client) (by omega)
      exact ⟨hle,(Trims.erase m hne).trans htrims⟩
    · exact ⟨not_lt.mp hlarge,.refl keep m⟩

lemma trimLocked_spec (r : ℕ → Ranging Text) (now : Time) (keep : Text)
    (m : FinMap Text LoginBudget) :
    (trimLocked r now keep m).keys.card ≤ sessionLoginMaxClients ∧ Trims keep m (trimLocked r now keep m) := by
  unfold trimLocked
  split_ifs with hsmall
  · exact ⟨hsmall,.refl keep m⟩
  · obtain ⟨hle,htrims⟩ := trimLoop_spec r keep _ (m.filter fun client budget =>
      !(decide (client≠keep) && decide (sessionLoginWindow ≤ now.sub budget.windowStart))) (Nat.le_add_right _ _)
    refine ⟨hle,Trims.trans ⟨fun client budget hget => ?_,?_⟩ htrims⟩
    · exact (Option.filter_eq_some_iff.mp hget).1
    · rw [FinMap.get_filter]
      cases m.get keep <;> simp

lemma charge_allowed (h : l.charge client now r=(l',none)) :
    ∃ budget, budget = ((l.attempts.get client).getD .zero).current now ∧ budget.count<sessionLoginMaxAttempts ∧
      l'.slots = l.slots ∧ l'.attempts =
        trimLocked r now client (l.attempts.set client { budget with count := budget.count+1 }) := by
  unfold LoginLimiter.charge at h
  simp only at h
  split_ifs at h with hmany
  · exact absurd (congrArg snd h) (by simp)
  · cases h
    exact ⟨_,rfl,not_le.mp hmany,rfl,rfl⟩

lemma charge_refused {wait : ℤ} (h : l.charge client now r=(l',some wait)) : l'=l := by
  unfold LoginLimiter.charge at h
  simp only at h
  split_ifs at h
  · exact (congrArg fst h).symm
  · exact absurd (congrArg snd h) (by simp)

/-- The request has an element in the channel. -/
def Phase.holds : Phase → Bool
  | .entered _ | .refusing _ | .allowed _ | .closing => true
  | .refused _ | .closed => false

/-- A begin in progress that took a slot. -/
def Phase.inBegin : Phase → Bool
  | .entered _ | .refusing _ => true
  | _ => false

def Phase.wasAllowed : Phase → Bool
  | .allowed _ | .closing | .closed => true
  | _ => false

lemma countP_holds (ps : List Phase) :
    ps.countP Phase.holds+ps.countP (· == .closed) = ps.countP Phase.wasAllowed+ps.countP Phase.inBegin := by
  induction ps with
  | nil => rfl
  | cons p ps ih =>
    simp only [countP_cons]
    cases p <;> simp [Phase.holds,Phase.wasAllowed,Phase.inBegin] <;> omega

/-- The channel holds an element for each request that has one, and the table is not too large. -/
structure SignIns.Bounded (x : SignIns) : Prop where
  slots_eq : x.limiter.slots = x.requests.countP Phase.holds
  slots_le : x.limiter.slots ≤ sessionLoginMaxInFlight
  clients_le : x.limiter.attempts.keys.card ≤ sessionLoginMaxClients

lemma settle_slots (l : LoginLimiter) (client : Text) (succeeded : Bool) :
    (l.settle client succeeded).slots = l.slots := by
  cases succeeded <;> rfl

lemma settle_keys (l : LoginLimiter) (client : Text) (succeeded : Bool) :
    (l.settle client succeeded).attempts.keys ⊆ l.attempts.keys := by
  cases succeeded
  · exact subset_rfl
  · exact Finset.erase_subset client _

lemma SignIns.Moves.bounded {x y : SignIns} {a : Action} (h : Moves x a y) (hx : x.Bounded) :
    y.Bounded := by
  obtain ⟨hslots,hle,hclients⟩ := hx
  cases h with
  | enter client hfree =>
    refine ⟨?_,hfree,hclients⟩
    simp [hslots,Phase.holds]
  | full client hfull =>
    refine ⟨?_,hle,hclients⟩
    simp [hslots,Phase.holds]
  | @allow i now r client l hi hl =>
    obtain ⟨budget,-,-,hsame,htable⟩ := charge_allowed hl
    have hcount := countP_set_some hi (.allowed client) Phase.holds
    simp only [Phase.holds] at hcount
    refine ⟨by dsimp only; omega,by dsimp only; omega,?_⟩
    rw [htable]
    exact (trimLocked_spec r now client _).1
  | @refuse i now r client l wait hi hl =>
    obtain rfl := charge_refused hl
    have hcount := countP_set_some hi (.refusing wait) Phase.holds
    simp only [Phase.holds] at hcount
    exact ⟨by dsimp only; omega,hle,hclients⟩
  | @done i succeeded client hi =>
    have hcount := countP_set_some hi .closing Phase.holds
    simp only [Phase.holds] at hcount
    have hsame := settle_slots x.limiter client succeeded
    exact ⟨by dsimp only; omega,by dsimp only; omega,
      (Finset.card_le_card (settle_keys x.limiter client succeeded)).trans hclients⟩
  | @giveUp i wait hpos hi =>
    have hcount := countP_set_some hi (.refused wait) Phase.holds
    simp only [Phase.holds] at hcount
    exact ⟨by dsimp only; simp at hcount; omega,by dsimp only; omega,hclients⟩
  | @close i hpos hi =>
    have hcount := countP_set_some hi .closed Phase.holds
    simp only [Phase.holds] at hcount
    exact ⟨by dsimp only; simp at hcount; omega,by dsimp only; omega,hclients⟩

end Pglens.Server

import Pglens.Server.LoginLimiter
import Mathlib.Algebra.BigOperators.Group.List.Basic

/-! What the requests of a run have done to the limiter, told from the steps of the run: a request
that was refused has left no trace, and the sign-ins that were allowed to one client fall into
windows. -/
namespace Pglens.Server
open Pglens.Lib SignIns List FinMap Duration Prod

def actor (st : Taken SignIns Action) : ℕ :=
  match st.label with
  | .enter _ => st.before.requests.length
  | .charge i _ _ | .done i _ | .leave i => i

def slotsChanged (i : ℕ) (steps : List (Taken SignIns Action)) : ℤ :=
  ((steps.filter fun st => decide (actor st=i)).map fun st =>
    (st.after.limiter.slots : ℤ)-st.before.limiter.slots).sum

def held (p : Option Phase) : ℤ := if p.any Phase.holds then 1 else 0

def allowedAt (p : Option Phase) : Bool := p.any Phase.wasAllowed

/-- What one step of a request changes. -/
structure ChangesOwn (st : Taken SignIns Action) : Prop where
  others : ∀ j, j ≠ actor st → st.after.requests[j]? = st.before.requests[j]?
  slots : (st.after.limiter.slots : ℤ)-st.before.limiter.slots =
    held st.after.requests[actor st]?-held st.before.requests[actor st]?
  stays : allowedAt st.before.requests[actor st]? = true → allowedAt st.after.requests[actor st]? = true
  table : allowedAt st.after.requests[actor st]? = false →
    st.after.limiter.attempts = st.before.limiter.attempts

lemma getElem?_set_of_some {α : Type} {l : List α} {i : ℕ} {a : α} (h : l[i]?=some a) (b : α) :
    (l.set i b)[i]? = some b := by
  obtain ⟨hlt,-⟩ := List.getElem?_eq_some_iff.mp h
  simp [hlt]

variable {x y : SignIns} {a : Action} {steps : List (Taken SignIns Action)} {now : Time} {t : ℤ}
  {st : Taken SignIns Action}

lemma SignIns.Moves.changesOwn (h : Moves x a y) : ChangesOwn ⟨x,a,y⟩ := by
  have hset : ∀ {i j : ℕ} (p : Phase), j≠i → (x.requests.set i p)[j]? = x.requests[j]? := fun p hne =>
    getElem?_set_ne (Ne.symm hne)
  have hnew : ∀ {j : ℕ} (p : Phase), j≠x.requests.length → (x.requests++[p])[j]? = x.requests[j]? := by
    intro j p hne
    rw [getElem?_append]
    split_ifs with hlt
    · rfl
    · rw [getElem?_eq_none (by simp; omega),getElem?_eq_none (by omega)]
  cases h with
  | enter client hfree =>
    refine ⟨fun j hj => hnew _ hj,?_,?_,?_⟩ <;> simp [actor,held,allowedAt,Phase.holds]
  | full client hfull =>
    refine ⟨fun j hj => hnew _ hj,?_,?_,?_⟩ <;> simp [actor,held,allowedAt,Phase.holds]
  | @allow i now r client l hi hl =>
    obtain ⟨budget,-,-,hslots,-⟩ := charge_allowed hl
    refine ⟨fun j hj => hset _ hj,?_,?_,?_⟩ <;>
      simp [actor,held,allowedAt,Phase.holds,Phase.wasAllowed,getElem?_set_of_some hi,hi,hslots]
  | @refuse i now r client l wait hi hl =>
    obtain rfl := charge_refused hl
    refine ⟨fun j hj => hset _ hj,?_,?_,?_⟩ <;>
      simp [actor,held,allowedAt,Phase.holds,Phase.wasAllowed,getElem?_set_of_some hi,hi]
  | @done i succeeded client hi =>
    refine ⟨fun j hj => hset _ hj,?_,?_,?_⟩ <;>
      simp [actor,held,allowedAt,Phase.holds,Phase.wasAllowed,getElem?_set_of_some hi,hi,settle_slots]
  | @giveUp i wait hpos hi =>
    refine ⟨fun j hj => hset _ hj,?_,?_,?_⟩ <;>
      simp [actor,held,allowedAt,Phase.holds,Phase.wasAllowed,getElem?_set_of_some hi,hi,hpos]
  | @close i hpos hi =>
    refine ⟨fun j hj => hset _ hj,?_,?_,?_⟩ <;>
      simp [actor,held,allowedAt,Phase.holds,Phase.wasAllowed,getElem?_set_of_some hi,hi,hpos]

/-- The account of every request over a run. -/
structure Accounted (steps : List (Taken SignIns Action)) (x : SignIns) : Prop where
  slots : ∀ i, slotsChanged i steps = held x.requests[i]?
  table : ∀ i, allowedAt x.requests[i]? = false → ∀ st∈steps, actor st = i →
    st.after.limiter.attempts = st.before.limiter.attempts

lemma slotsChanged_snoc (i : ℕ) (steps : List (Taken SignIns Action)) (st : Taken SignIns Action) :
    slotsChanged i (steps++[st]) = slotsChanged i steps+
      if actor st = i then (st.after.limiter.slots : ℤ)-st.before.limiter.slots else 0 := by
  rw [slotsChanged,filter_append,map_append,sum_append,← slotsChanged]
  by_cases h : actor st = i <;> simp [h]

lemma accounted (h : Trace act .new steps x) : Accounted steps x := by
  induction h with
  | start => exact ⟨fun i => by simp [slotsChanged,new,held],by simp⟩
  | @step steps x y a _ last ih =>
    obtain ⟨hothers,hslots,hstays,htable⟩ := (moves_of_act last).changesOwn
    refine ⟨fun i => ?_,fun i hi st hst hactor => ?_⟩
    · rw [slotsChanged_snoc,ih.slots i]
      by_cases hown : actor ⟨x,a,y⟩ = i
      · subst hown
        rw [if_pos rfl,hslots]
        exact add_sub_cancel _ _
      · rw [if_neg hown,hothers i (Ne.symm hown),add_zero]
    · obtain hst | hst := mem_append.mp hst
      · refine ih.table i ?_ st hst hactor
        by_cases hown : i = actor ⟨x,a,y⟩
        · subst hown
          exact Bool.eq_false_iff.mpr fun hbefore => by simp [hstays hbefore] at hi
        · rwa [← hothers i hown]
      · cases mem_singleton.mp hst
        subst hactor
        exact htable hi

def charged (st : Taken SignIns Action) : Option (Text × Time) :=
  match st.label with
  | .charge i now _ => match st.after.requests[i]? with
    | some (.allowed client) => some (client,now)
    | _ => none
  | _ => none

def signedIn (st : Taken SignIns Action) : Option Text :=
  match st.label with
  | .done i true => match st.before.requests[i]? with
    | some (.allowed client) => some client
    | _ => none
  | _ => none

def reading (st : Taken SignIns Action) : Option Time :=
  match st.label with
  | .charge _ now _ => some now
  | _ => none

def clients (steps : List (Taken SignIns Action)) : Finset Text :=
  ((steps.filterMap charged).map fst).toFinset

def begins (client : Text) (ts : List Time) (st : Taken SignIns Action) : List Time :=
  if signedIn st = some client then []
  else match charged st with
    | some (c,now) => if c=client then ts++[now] else ts
    | none => ts

def since (client : Text) (steps : List (Taken SignIns Action)) : List Time := steps.foldl (begins client) []

/-- Times fall into windows that start at least sessionLoginWindow apart, at most
sessionLoginMaxAttempts in each: `starts` gives each time the start of its window. -/
def Windowed (ts : List Time) : Prop :=
  ∃ starts : List ℤ, List.Forall₂ (fun s t => s≤t.ns ∧ t.ns<s+sessionLoginWindow) starts ts ∧
    starts.Pairwise (fun s s' => s=s' ∨ s+sessionLoginWindow ≤ s') ∧
    ∀ s, starts.count s ≤ sessionLoginMaxAttempts

lemma sessionLoginWindow_pos : 0<sessionLoginWindow := by decide

lemma window_ended_iff {start : Time} :
    sessionLoginWindow ≤ now.sub start ↔ sessionLoginWindow ≤ now.ns-start.ns := by
  have hiff := Time.lt_sub_iff (t := now) (u := start) (d := sessionLoginWindow-1) (by decide) (by decide)
  omega

/-- The windows as the table has them. A client without an entry has the window of the zero Time,
which a clock before its end does not leave. -/
structure Windows (b : Option LoginBudget) (pairs : List (ℤ × Time)) : Prop where
  within : ∀ p∈pairs, p.2.ns < p.1+sessionLoginWindow ∧
    (p.1=0 ∨ sessionLoginWindow≤p.1 ∧ p.1≤p.2.ns)
  apart : (pairs.map fst).Pairwise fun s s' => s=s' ∨ s+sessionLoginWindow ≤ s'
  few : ∀ s, (pairs.map fst).count s ≤ sessionLoginMaxAttempts
  empty : b=none → pairs=[]
  latest : ∀ budget, b = some budget → (∀ s ∈ pairs.map fst, s=budget.windowStart.ns ∨
    s+sessionLoginWindow ≤ budget.windowStart.ns) ∧ (pairs.map fst).count budget.windowStart.ns = budget.count

namespace Windows

lemma nil : Windows none [] := ⟨by simp,by simp,by simp,fun _ => rfl,by simp⟩

variable {b : Option LoginBudget} {pairs : List (ℤ × Time)} {now : Time}

lemma openWindow (h : Windows b pairs) (hnow : sessionLoginWindow≤now.ns)
    (hended : ∀ s ∈ pairs.map fst, s+sessionLoginWindow ≤ now.ns) :
    Windows (some ⟨now,1⟩) (pairs++[(now.ns,now)]) := by
  have hpos := sessionLoginWindow_pos
  have hfresh : (pairs.map fst).count now.ns = 0 :=
    count_eq_zero.mpr fun hmem => by have := hended _ hmem; omega
  refine ⟨?_,?_,?_,by simp,?_⟩
  · intro p hp
    obtain hp | hp := mem_append.mp hp
    · exact h.within p hp
    · cases mem_singleton.mp hp
      exact ⟨by dsimp only; omega,.inr ⟨hnow,le_rfl⟩⟩
  · rw [map_append,pairwise_append]
    refine ⟨h.apart,by simp,fun s hs s' hs' => .inr ?_⟩
    rw [show s'=now.ns by simpa using hs']
    exact hended s hs
  · intro s
    rw [map_append,count_append]
    by_cases heq : s=now.ns
    · subst heq
      simp [hfresh,sessionLoginMaxAttempts]
    · simpa [count_singleton,Ne.symm heq] using h.few s
  · rintro budget ⟨⟩
    rw [map_append,count_append,hfresh]
    refine ⟨fun s hs => ?_,by simp⟩
    obtain hs | hs := mem_append.mp hs
    · exact .inr (hended s hs)
    · exact .inl (by simpa using hs)

lemma stay {budget : LoginBudget} (hpairs : Windows (some budget) pairs)
    (hstart : budget.windowStart.ns=0 ∨
      sessionLoginWindow ≤ budget.windowStart.ns ∧ budget.windowStart.ns≤now.ns)
    (hopen : now.ns<budget.windowStart.ns+sessionLoginWindow)
    (hcount : budget.count<sessionLoginMaxAttempts) :
    Windows (some { budget with count := budget.count+1 }) (pairs++[(budget.windowStart.ns,now)]) := by
  obtain ⟨hlast,hnumber⟩ := hpairs.latest budget rfl
  refine ⟨?_,?_,?_,by simp,?_⟩
  · intro p hp
    obtain hp | hp := mem_append.mp hp
    · exact hpairs.within p hp
    · cases mem_singleton.mp hp
      exact ⟨hopen,hstart⟩
  · rw [map_append,pairwise_append]
    refine ⟨hpairs.apart,by simp,fun s hs s' hs' => ?_⟩
    rw [show s'=budget.windowStart.ns by simpa using hs']
    exact hlast s hs
  · intro s
    rw [map_append,count_append]
    by_cases heq : s=budget.windowStart.ns
    · subst heq
      rw [hnumber,map_singleton,count_singleton_self]
      exact hcount
    · simpa [count_singleton,Ne.symm heq] using hpairs.few s
  · rintro _ ⟨⟩
    rw [map_append,count_append]
    refine ⟨fun s hs => ?_,by simpa using hnumber⟩
    obtain hs | hs := mem_append.mp hs
    · exact hlast s hs
    · exact .inl (by simpa using hs)

lemma charge (h : Windows b pairs) (hstart : ∀ budget, b=some budget → budget.windowStart.ns=0 ∨
      sessionLoginWindow ≤ budget.windowStart.ns ∧ budget.windowStart.ns≤now.ns)
    (hcount : ((b.getD .zero).current now).count<sessionLoginMaxAttempts) :
    ∃ s, Windows (some { (b.getD .zero).current now with count := ((b.getD .zero).current now).count+1 })
      (pairs++[(s,now)]) := by
  have hpos := sessionLoginWindow_pos
  -- an entry that is missing counts as one of the zero Time without begins
  have hwindows : Windows (some (b.getD .zero)) pairs := by
    cases b with
    | none =>
      obtain rfl := h.empty rfl
      exact ⟨by simp,by simp,by simp,by simp,by rintro _ ⟨⟩; simp [LoginBudget.zero]⟩
    | some budget => exact h
  have hfrom : (b.getD .zero).windowStart.ns = 0 ∨ sessionLoginWindow ≤ (b.getD .zero).windowStart.ns ∧
      (b.getD .zero).windowStart.ns ≤ now.ns := by
    cases b with
    | none => exact .inl rfl
    | some budget => exact hstart budget rfl
  generalize b.getD .zero = budget at hcount hwindows hfrom ⊢
  unfold LoginBudget.current at hcount ⊢
  split_ifs at hcount ⊢ with hended
  · have hlate := window_ended_iff.mp hended
    have hnew : Windows (some ⟨now,1⟩) (pairs++[(now.ns,now)]) := by
      refine hwindows.openWindow (by omega) fun s hs => ?_
      have := (hwindows.latest budget rfl).1 s hs
      omega
    exact ⟨now.ns,hnew⟩
  · have hopen := mt window_ended_iff.mpr hended
    exact ⟨_,hwindows.stay hfrom (by omega) hcount⟩

end Windows

/-- The start of the window that holds a time, if windows follow one another from the zero Time. -/
def cell (t : ℤ) : ℤ := sessionLoginWindow*(t/sessionLoginWindow)

lemma cell_le (t : ℤ) : cell t ≤ t := Int.mul_ediv_self_le sessionLoginWindow_pos.ne'

lemma lt_cell_add (t : ℤ) :
    t < cell t+sessionLoginWindow := Int.lt_mul_ediv_self_add sessionLoginWindow_pos

lemma cell_apart {t' : ℤ} (h : t≤t') : cell t = cell t' ∨ cell t+sessionLoginWindow ≤ cell t' := by
  obtain heq | hlt := (Int.ediv_le_ediv sessionLoginWindow_pos h).eq_or_lt
  · exact .inl (by rw [cell,cell,heq])
  · right
    calc cell t+sessionLoginWindow = sessionLoginWindow*(t/sessionLoginWindow+1) := (mul_add_one _ _).symm
      _ ≤ cell t' := Int.mul_le_mul_of_nonneg_left hlt sessionLoginWindow_pos.le

lemma cell_add_le_zero (h : t<0) : cell t+sessionLoginWindow ≤ 0 := by
  calc cell t+sessionLoginWindow = sessionLoginWindow*(t/sessionLoginWindow+1) := (mul_add_one _ _).symm
    _ ≤ sessionLoginWindow*0 :=
      Int.mul_le_mul_of_nonneg_left (Int.ediv_neg_of_neg_of_pos h sessionLoginWindow_pos) sessionLoginWindow_pos.le
    _ = 0 := mul_zero _

/-- The window of a begin: for one before the zero Time, at which the code has its window start, the
one that holds it. -/
def windowOf (p : ℤ × Time) : ℤ := if p.2.ns<0 then cell p.2.ns else p.1

lemma Windows.windowed {b : Option LoginBudget} {pairs : List (ℤ × Time)} (h : Windows b pairs)
    (hsorted : (pairs.map snd).Pairwise fun t t' => t.ns≤t'.ns) :
    Windowed (pairs.map snd) := by
  have hpos := sessionLoginWindow_pos
  have hzero : ∀ p∈pairs, p.2.ns<0 → p.1=0 := by
    intro p hp hneg
    have := h.within p hp
    omega
  refine ⟨pairs.map windowOf,?_,?_,?_⟩
  · rw [forall₂_map_left_iff,forall₂_map_right_iff,forall₂_same]
    intro p hp
    have hwithin := h.within p hp
    unfold windowOf
    split_ifs with hneg
    · exact ⟨cell_le _,lt_cell_add _⟩
    · omega
  · have hapart := h.apart
    rw [pairwise_map] at hsorted hapart ⊢
    refine (hsorted.and hapart).imp_of_mem ?_
    rintro p q hp hq ⟨hle,hpq⟩
    unfold windowOf
    by_cases hneg : p.2.ns<0
    · rw [if_pos hneg]
      split_ifs with hneg'
      · exact cell_apart hle
      · have hcell := cell_add_le_zero hneg
        have hwithin := h.within q hq
        omega
    · rw [if_neg hneg,if_neg (by omega)]
      exact hpq
  · intro s
    -- the begins of a window are begins of one window of the table
    obtain ⟨s',hsame⟩ : ∃ s', ∀ p∈pairs, windowOf p = s → p.1=s' := by
      by_cases hneg : s<0
      · refine ⟨0,fun p hp hs => hzero p hp ?_⟩
        by_contra hnot
        rw [windowOf,if_neg hnot] at hs
        have := h.within p hp
        omega
      · refine ⟨s,fun p hp hs => ?_⟩
        rw [windowOf] at hs
        split_ifs at hs with hbefore
        · have := cell_le p.2.ns
          omega
        · exact hs
    refine le_trans ?_ (h.few s')
    rw [List.count,List.count,countP_map,countP_map]
    exact countP_mono_left fun p hp hs => by simpa using hsame p hp (by simpa using hs)

lemma since_snoc (client : Text) (steps : List (Taken SignIns Action)) (st : Taken SignIns Action) :
    since client (steps++[st]) = begins client (since client steps) st := by
  rw [since,foldl_append,foldl_cons,foldl_nil,← since]

lemma begins_of_quiet (hcharged : charged st=none) (hsigned : signedIn st=none)
    (client : Text) (ts : List Time) : begins client ts st = ts := by
  rw [begins,hsigned,hcharged,if_neg (by simp)]

lemma clients_of_quiet (h : charged st=none) (steps : List (Taken SignIns Action)) :
    clients (steps++[st]) = clients steps := by
  simp [clients,h]

lemma clients_of_charged {c : Text} (h : charged st=some (c,now))
    (steps : List (Taken SignIns Action)) : clients (steps++[st]) = insert c (clients steps) := by
  simp [clients,h]

lemma readings_snoc (steps : List (Taken SignIns Action)) (st : Taken SignIns Action) :
    (steps++[st]).filterMap reading = steps.filterMap reading++(reading st).toList := by
  cases h : reading st <;> simp [h]

lemma since_sublist (client : Text) (steps : List (Taken SignIns Action)) :
    (since client steps).Sublist (steps.filterMap reading) := by
  induction steps using List.reverseRecOn with
  | nil => exact .refl []
  | append_singleton steps st ih =>
    rw [since_snoc,readings_snoc,begins]
    split_ifs
    · exact nil_sublist _
    · have hreads : ∀ c now, charged st = some (c,now) → reading st = some now := by
        intro c now h
        unfold charged at h
        unfold reading
        split at h
        · split at h
          · simp_all
          · cases h
        · cases h
      cases hcharged : charged st with
      | none => exact ih.trans (sublist_append_left _ _)
      | some e =>
        obtain ⟨c,now⟩ := e
        rw [hreads c now hcharged]
        simp only
        split_ifs
        · exact ih.append (.refl [now])
        · exact ih.trans (sublist_append_left _ _)

/-- The table over a run: only clients that were charged, windows that started at a reading of the
clock or the zero Time, and as long as there is room for all clients, the windows of each. -/
structure Tracks (steps : List (Taken SignIns Action)) (m : FinMap Text LoginBudget) : Prop where
  known : ∀ client budget, m.get client = some budget → client ∈ clients steps
  starts : ∀ client budget, m.get client = some budget → budget.windowStart.ns=0 ∨
    sessionLoginWindow ≤ budget.windowStart.ns ∧ budget.windowStart ∈ steps.filterMap reading
  windows : (clients steps).card ≤ sessionLoginMaxClients → ∀ client,
    ∃ pairs, pairs.map snd = since client steps ∧ Windows (m.get client) pairs

namespace Tracks
variable {steps : List (Taken SignIns Action)} {m : FinMap Text LoginBudget}
  {st : Taken SignIns Action} {c : Text} {budget : LoginBudget} {now : Time} {x : SignIns}

lemma quiet (h : Tracks steps m) (hcharged : charged st=none)
    (hsigned : signedIn st=none) : Tracks (steps++[st]) m := by
  refine ⟨fun client budget hget => clients_of_quiet hcharged steps ▸ h.known client budget hget,
    fun client budget hget => ?_,fun hroom client => ?_⟩
  · rw [readings_snoc]
    exact (h.starts client budget hget).imp id fun ⟨hlate,hmem⟩ => ⟨hlate,mem_append_left _ hmem⟩
  · rw [since_snoc,begins_of_quiet hcharged hsigned]
    exact h.windows (clients_of_quiet hcharged steps ▸ hroom) client

lemma erase (h : Tracks steps m) (hcharged : charged st=none)
    (hsigned : signedIn st=some c) : Tracks (steps++[st]) (m.erase c) := by
  have hget : ∀ client budget, (m.erase c).get client = some budget → m.get client = some budget :=
    fun client budget hsome => by
      by_cases heq : client=c
      · rw [heq,get_erase_self] at hsome
        cases hsome
      · rwa [get_erase_of_ne m heq] at hsome
  refine ⟨fun client budget hsome => ?_,fun client budget hsome => ?_,fun hroom client => ?_⟩
  · rw [clients_of_quiet hcharged]
    exact h.known client budget (hget client budget hsome)
  · rw [readings_snoc]
    exact (h.starts client budget (hget client budget hsome)).imp id fun ⟨hlate,hmem⟩ =>
      ⟨hlate,mem_append_left _ hmem⟩
  · rw [since_snoc,begins,hsigned,hcharged]
    by_cases heq : client=c
    · subst heq
      rw [if_pos rfl,get_erase_self]
      exact ⟨[],rfl,Windows.nil⟩
    · rw [if_neg (by simpa using Ne.symm heq),get_erase_of_ne m heq]
      exact h.windows (clients_of_quiet hcharged steps ▸ hroom) client

lemma current_start (h : budget.windowStart.ns=0 ∨
    sessionLoginWindow ≤ budget.windowStart.ns ∧ budget.windowStart ∈ steps.filterMap reading) :
    (budget.current now).windowStart.ns = 0 ∨ sessionLoginWindow ≤ (budget.current now).windowStart.ns ∧
      (budget.current now).windowStart ∈ steps.filterMap reading++[now] := by
  have hpos := sessionLoginWindow_pos
  unfold LoginBudget.current
  split_ifs with hended
  · have hlate := window_ended_iff.mp hended
    exact .inr ⟨by dsimp only; omega,by simp⟩
  · exact h.imp id fun ⟨hlate,hmem⟩ => ⟨hlate,mem_append_left _ hmem⟩

def chargedTable (m : FinMap Text LoginBudget) (c : Text) (now : Time) : FinMap Text LoginBudget :=
  m.set c { ((m.get c).getD .zero).current now with count := (((m.get c).getD .zero).current now).count+1 }

lemma get_chargedTable {client : Text} (h : (chargedTable m c now).get client=some budget) :
    client = c ∧ budget.windowStart = (((m.get c).getD .zero).current now).windowStart ∨
      client ≠ c ∧ m.get client = some budget := by
  by_cases heq : client=c
  · rw [heq,chargedTable,get_set_self] at h
    cases h
    exact .inl ⟨heq,rfl⟩
  · rw [chargedTable,get_set_of_ne m _ heq] at h
    exact .inr ⟨heq,h⟩

lemma trimLocked_of_room (h : Tracks steps m) (hcharged : charged st=some (c,now))
    (hroom : (clients (steps++[st])).card ≤ sessionLoginMaxClients) (r : ℕ → Ranging Text) :
    trimLocked r now c (chargedTable m c now) = chargedTable m c now := by
  refine if_pos ((Finset.card_le_card fun client hmem => ?_).trans hroom)
  rw [FinMap.mem_keys] at hmem
  obtain ⟨budget,hget⟩ := Option.isSome_iff_exists.mp hmem
  rw [clients_of_charged hcharged]
  obtain ⟨rfl,-⟩ | ⟨-,hold⟩ := get_chargedTable hget
  · exact Finset.mem_insert_self _ _
  · exact Finset.mem_insert_of_mem (h.known client budget hold)

lemma charge (h : Tracks steps m) (hcharged : charged st=some (c,now))
    (hsigned : signedIn st=none) (hreading : reading st=some now)
    (hclock : ∀ t ∈ steps.filterMap reading, t.ns≤now.ns) (r : ℕ → Ranging Text)
    (hcount : (((m.get c).getD .zero).current now).count<sessionLoginMaxAttempts) :
    Tracks (steps++[st]) (trimLocked r now c (chargedTable m c now)) := by
  obtain ⟨-,htrims⟩ := trimLocked_spec r now c (chargedTable m c now)
  have hfrom : ∀ budget, m.get c = some budget → budget.windowStart.ns=0 ∨
      sessionLoginWindow ≤ budget.windowStart.ns ∧ budget.windowStart ∈ steps.filterMap reading :=
    h.starts c
  refine ⟨fun client budget hget => ?_,fun client budget hget => ?_,fun hroom client => ?_⟩
  · rw [clients_of_charged hcharged]
    obtain ⟨rfl,-⟩ | ⟨-,hold⟩ := get_chargedTable (htrims.sub client budget hget)
    · exact Finset.mem_insert_self _ _
    · exact Finset.mem_insert_of_mem (h.known client budget hold)
  · rw [readings_snoc,hreading]
    obtain ⟨-,hstart⟩ | ⟨-,hold⟩ := get_chargedTable (htrims.sub client budget hget)
    · rw [hstart]
      refine current_start ?_
      cases hentry : m.get c with
      | none => exact .inl rfl
      | some entry => exact hfrom entry hentry
    · exact (h.starts client budget hold).imp id fun ⟨hlate,hmem⟩ => ⟨hlate,mem_append_left _ hmem⟩
  · have hearlier : (clients steps).card ≤ sessionLoginMaxClients := by
      refine (Finset.card_le_card ?_).trans hroom
      rw [clients_of_charged hcharged]
      exact Finset.subset_insert c _
    obtain ⟨pairs,hpairs,hwindows⟩ := h.windows hearlier client
    rw [h.trimLocked_of_room hcharged hroom,since_snoc,begins,hsigned,hcharged,if_neg (by simp)]
    by_cases heq : client=c
    · subst heq
      obtain ⟨s,hnew⟩ := hwindows.charge (fun budget hbudget => (hfrom budget hbudget).imp id
        fun ⟨hlate,hmem⟩ => ⟨hlate,hclock _ hmem⟩) hcount
      refine ⟨pairs++[(s,now)],by simp [hpairs],?_⟩
      rw [chargedTable,get_set_self]
      exact hnew
    · refine ⟨pairs,by simp [hpairs,Ne.symm heq],?_⟩
      rw [chargedTable,get_set_of_ne m _ heq]
      exact hwindows

lemma step {y : SignIns} {a : Action} (h : Tracks steps x.limiter.attempts) (hmove : Moves x a y)
    (hclock : ((steps++[Taken.mk x a y]).filterMap reading).Pairwise fun t t' => t.ns≤t'.ns) :
    Tracks (steps++[⟨x,a,y⟩]) y.limiter.attempts := by
  cases hmove with
  | enter client hfree => exact h.quiet rfl rfl
  | full client hfull => exact h.quiet rfl rfl
  | @allow i now r client l hi hl =>
    obtain ⟨budget,rfl,hcount,-,htable⟩ := charge_allowed hl
    dsimp only
    rw [htable]
    rw [readings_snoc,pairwise_append] at hclock
    exact h.charge (by simp [charged,getElem?_set_of_some hi]) rfl rfl
      (fun t ht => hclock.2.2 t ht now (by simp [reading])) r hcount
  | @refuse i now r client l wait hi hl =>
    obtain rfl := charge_refused hl
    exact h.quiet (by simp [charged,getElem?_set_of_some hi]) rfl
  | @done i succeeded client hi =>
    cases succeeded with
    | false => exact h.quiet rfl rfl
    | true => exact h.erase rfl (by simp [signedIn,hi])
  | giveUp hpos hi => exact h.quiet rfl rfl
  | close hpos hi => exact h.quiet rfl rfl

lemma run (h : Trace act .new steps x)
    (hclock : (steps.filterMap reading).Pairwise fun t t' => t.ns≤t'.ns) :
    Tracks steps x.limiter.attempts := by
  induction h with
  | start => exact ⟨by simp [new],by simp [new],fun _ _ => ⟨[],rfl,Windows.nil⟩⟩
  | step _ last ih =>
    have hearlier := hclock
    rw [readings_snoc,pairwise_append] at hearlier
    exact (ih hearlier.1).step (moves_of_act last) hclock

end Tracks

lemma bounded_run (h : Trace act .new steps x) : x.Bounded := by
  induction h with
  | start => exact ⟨rfl,by decide,by simp [new,FinMap.empty]⟩
  | step _ last ih => exact (moves_of_act last).bounded ih

lemma mem_keys_of_charged (h : Moves x a y) {client : Text}
    (hcharged : charged ⟨x,a,y⟩=some (client,now)) : client∈y.limiter.attempts.keys := by
  cases h with
  | @allow i t r c l hi hl =>
    obtain ⟨budget,-,-,-,htable⟩ := charge_allowed hl
    have hsame : c=client := by simpa [charged,getElem?_set_of_some hi] using congrArg (Option.map fst) hcharged
    subst hsame
    rw [FinMap.mem_keys,htable,(trimLocked_spec r t c _).2.kept,get_set_self]
    rfl
  | refuse hi hl => simp [charged,getElem?_set_of_some hi] at hcharged
  | enter | full | done | giveUp | close => cases hcharged

/-- In every interleaving of begins and dones, with a clock that does not go back: the slots in use
are those of the allowed begins that are not done and of the begins in progress that took one, and
within the limit; a refused begin has left table and slots as they were; the table is within its
limit; and as long as there is room for all clients, the allowed begins of a client since its last
successful done fall into windows. -/
theorem sign_in_limits {steps : List (Taken SignIns Action)} {x : SignIns} (h : Trace act .new steps x)
    (hclock : (steps.filterMap reading).Pairwise fun t t' => t.ns≤t'.ns) :
    (x.limiter.slots : ℤ) = x.requests.countP Phase.wasAllowed-x.requests.countP (· == .closed)+
      x.requests.countP Phase.inBegin ∧
    x.limiter.slots ≤ sessionLoginMaxInFlight ∧
    (∀ i wait, x.requests[i]?=some (.refused wait) → slotsChanged i steps=0 ∧
      ∀ st∈steps, actor st=i → st.after.limiter.attempts=st.before.limiter.attempts) ∧
    x.limiter.attempts.keys.card ≤ sessionLoginMaxClients ∧
    (∀ st∈steps, ∀ client now, charged st=some (client,now) → client∈st.after.limiter.attempts.keys) ∧
    ((clients steps).card ≤ sessionLoginMaxClients → ∀ client, Windowed (since client steps)) := by
  obtain ⟨hslots,hle,hclients⟩ := bounded_run h
  have hcount := countP_holds x.requests
  refine ⟨by omega,hle,fun i wait hi => ?_,hclients,?_,fun hroom client => ?_⟩
  · have hacc := accounted h
    exact ⟨by rw [hacc.slots i,hi]; rfl,hacc.table i (by rw [hi]; rfl)⟩
  · rintro ⟨y,a,z⟩ hst client now hcharged
    exact mem_keys_of_charged (moves_of_act (h.taken _ hst)) hcharged
  · obtain ⟨pairs,hpairs,hwindows⟩ := (Tracks.run h hclock).windows hroom client
    rw [← hpairs]
    exact hwindows.windowed (hpairs ▸ hclock.sublist (since_sublist client steps))

section Attempts

def begun (i : ℕ) (client : Text) : List Action :=
  [.enter client,.charge i ⟨hour+i*second,0⟩ fun _ => .inOrder _]

/-- The sixth begin of a client is refused and another client begins; then the first signs in and
begins again. -/
def attempted : List Action :=
  (List.range 6).flatMap (begun · [0x61])++[.leave 5]++begun 6 [0x62]++[.done 0 true,.leave 0] ++
    begun 7 [0x61]

theorem sign_in_limits_two_clients : ∃ steps x, Trace act .new steps x ∧ x.limiter.slots=6 ∧
    x.requests[5]? = some (.refused (15*minute-5*second)) ∧ slotsChanged 5 steps = 0 ∧
    since [0x61] steps = [⟨hour+7*second,0⟩] ∧
    since [0x62] steps = [⟨hour+6*second,0⟩] ∧ ∀ client, Windowed (since client steps) := by
  obtain ⟨x,hx,hslots,hrefused⟩ : ∃ x, exec act .new attempted = some x ∧ x.limiter.slots=6 ∧
      x.requests[5]? = some (.refused (15*minute-5*second)) := ⟨_,rfl,rfl,rfl⟩
  obtain ⟨htrace,-⟩ := exec_trace hx .start
  have hclock : ((execSteps act .new attempted).filterMap reading).Pairwise fun t t' => t.ns≤t'.ns := by
    decide
  have hroom : (clients (execSteps act .new attempted)).card ≤ sessionLoginMaxClients := by decide
  obtain ⟨-,-,hleft,-,-,hwindowed⟩ := sign_in_limits htrace hclock
  exact ⟨_,x,htrace,hslots,hrefused,(hleft 5 _ hrefused).1,by decide,by decide,hwindowed hroom⟩

end Attempts

end Pglens.Server

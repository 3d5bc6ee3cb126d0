import Pglens.Agent.Breaker
import Pglens.Lib.Runs
import Pglens.Lib.Tasks

/-! Every entry of internal/agent/scheduler.go has a loop that starts its scrapes on a bounded
number of workers. The loops, the scrapes, the receiver of the results and the caller of Stop run
beside each other: an event is one step of one of them, and what is blocked has none. The clock and
what a scrape finds are open. -/
namespace Pglens.Agent
open Pglens.Lib List Function

/-- Where runEntry is: in the sleep of its jitter, at its select, or at the one for a worker. -/
inductive Loop
  | sleeping
  | selecting
  | acquiring
  | exited
  deriving DecidableEq, Repr

/-- Where the goroutine of a scrape is: in Scrape, at the send of its result, and at its deferred
calls, which come last to first: busy, workerSem, scrapeWG. -/
inductive Stage
  | scraping
  | sending
  | clearing
  | releasing
  | finishing
  | gone
  deriving DecidableEq, Repr

structure Scrape where
  entry : ℕ
  stage : Stage
  deriving DecidableEq, Repr

/-- The entries by number. Entries of one breakerKey share a breaker. -/
structure Plan (κ : Type) where
  entries : ℕ
  maxWorkers : ℕ
  key : ℕ → κ

/-- A started Scheduler. `results` has what was sent, an entry and the place of its scrape, of which
`received` were taken out of the channel. `panicked` is a send on the closed channel. -/
structure Scheduler (κ : Type) where
  loops : List Loop
  busy : ℕ → Bool := fun _ => false
  breakers : κ → Breaker := fun _ => newBreaker
  scrapes : List Scrape := []
  workerSem : ℕ := 0
  scrapeWG : ℕ := 0
  results : List (ℕ × ℕ) := []
  received : ℕ := 0
  cancelled : Bool := false
  closed : Bool := false
  panicked : Bool := false

def Plan.start {κ : Type} (p : Plan κ) : Scheduler κ := { loops := List.replicate p.entries .sleeping }

inductive Event
  | cancel
  /-- The jitter is over. -/
  | wake (entry : ℕ)
  | tick (entry : ℕ) (now : Time)
  | acquire (entry : ℕ)
  /-- A loop that finds the context done. -/
  | leave (entry : ℕ)
  /-- The next step of a scrape: what its check came to, and whether a send is given up. -/
  | proceed (scrape : ℕ) (outcome : Outcome) (dropped : Bool)
  | receive
  /-- The end of run. -/
  | close

section Steps
variable {κ : Type} [DecidableEq κ] (p : Plan κ)

/-- What the goroutine of a scrape does at its stage. -/
def Scheduler.proceed (s : Scheduler κ) (k : ℕ) (x : Scrape) (outcome : Outcome) (dropped : Bool) :
    Option (Scheduler κ) :=
  let movedTo (stage : Stage) : List Scrape := s.scrapes.set k ⟨x.entry,stage⟩
  match x.stage with
  | .scraping => some { s with
      scrapes := movedTo .sending
      breakers := update s.breakers (p.key x.entry) ((s.breakers (p.key x.entry)).record outcome) }
  | .sending =>
    if dropped then if s.cancelled then some { s with scrapes := movedTo .clearing } else none
    else if s.closed then some { s with scrapes := movedTo .clearing, panicked := true }
    else if s.results.length < s.received+100 then
      some { s with scrapes := movedTo .clearing, results := s.results++[(x.entry,k)] }
    else none
  | .clearing => some { s with scrapes := movedTo .releasing, busy := update s.busy x.entry false }
  | .releasing => if s.workerSem=0 then none
    else some { s with scrapes := movedTo .finishing, workerSem := s.workerSem-1 }
  | .finishing => some { s with scrapes := movedTo .gone, scrapeWG := s.scrapeWG-1 }
  | .gone => none

def Scheduler.act (s : Scheduler κ) : Event → Option (Scheduler κ)
  | .cancel => some { s with cancelled := true }
  | .wake i => if s.loops[i]? = some .sleeping then some { s with loops := s.loops.set i .selecting } else none
  | .tick i now =>
    if s.loops[i]? = some .selecting then
      if s.busy i = false ∧ (s.breakers (p.key i)).allow now = true then
        some { s with loops := s.loops.set i .acquiring }
      else some s
    else none
  | .acquire i =>
    if s.loops[i]? = some .acquiring ∧ s.workerSem<p.maxWorkers then
      some { s with
        loops := s.loops.set i .selecting
        busy := update s.busy i true
        scrapes := s.scrapes++[⟨i,.scraping⟩]
        workerSem := s.workerSem+1
        scrapeWG := s.scrapeWG+1 }
    else none
  | .leave i =>
    if s.cancelled ∧ s.loops[i]? ≠ some .exited then some { s with loops := s.loops.set i .exited } else none
  | .proceed k outcome dropped => s.scrapes[k]?.bind fun x => s.proceed p k x outcome dropped
  | .receive => if s.received<s.results.length then some { s with received := s.received+1 } else none
  | .close =>
    if (∀ l∈s.loops, l=.exited) ∧ s.scrapeWG=0 ∧ s.closed=false then
      some { s with closed := true }
    else none

end Steps

/-- The scrape keeps its entry from another one. -/
def Stage.owns : Stage → Bool
  | .scraping | .sending | .clearing => true
  | .releasing | .finishing | .gone => false

def Stage.holds : Stage → Bool
  | .releasing => true
  | stage => stage.owns

/-- What holds between the events. Of the scrapes of an entry only the last one can be in it. -/
structure Scheduler.Safe {κ : Type} (p : Plan κ) (s : Scheduler κ) : Prop where
  workers : s.workerSem = s.scrapes.countP (·.stage.holds)
  workers_le : s.workerSem≤p.maxWorkers
  waits : s.scrapeWG = s.scrapes.countP (·.stage != .gone)
  idle : ∀ i, s.busy i = false → ∀ x∈s.scrapes, x.entry=i → x.stage.owns=false
  last : ∀ (j k : ℕ) (x y : Scrape), s.scrapes[j]? = some x → s.scrapes[k]? = some y → j<k →
    x.entry = y.entry → x.stage.owns=false
  free : ∀ i, s.loops[i]? = some .acquiring → s.busy i = false
  shut : s.closed=true → s.scrapeWG=0 ∧ ∀ l∈s.loops, l=.exited
  calm : s.panicked=false
  sent : ∀ r∈s.results, ∃ x, s.scrapes[r.2]? = some x ∧ x.entry=r.1 ∧ x.stage≠.scraping ∧
    x.stage ≠ .sending
  ordered : s.results.Pairwise fun r r' => r.1=r'.1 → r.2<r'.2

section Safety
variable {κ : Type} {p : Plan κ} {s t : Scheduler κ} {i k : ℕ} {x : Scrape}

lemma start_safe (p : Plan κ) : p.start.Safe p := by
  refine ⟨rfl,Nat.zero_le _,rfl,?_,?_,fun _ _ => rfl,nofun,rfl,?_,.nil⟩ <;> simp [Plan.start]

theorem Scheduler.Safe.loop (h : s.Safe p) {l : Loop} (hl : l=.acquiring → s.busy i=false)
    (hshut : s.closed=true → l=.exited) :
    ({ s with loops := s.loops.set i l } : Scheduler κ).Safe p := by
  refine { h with
    free := fun j hj => ?_
    shut := fun hc => ⟨(h.shut hc).1,fun l' hl' => ?_⟩ }
  · obtain ⟨rfl,heq⟩ | ⟨-,hj⟩ := getElem?_set_cases hj
    · exact hl heq.symm
    · exact h.free j hj
  · obtain hl' | rfl := mem_or_eq_of_mem_set hl'
    · exact (h.shut hc).2 l' hl'
    · exact hshut hc

lemma Scheduler.Safe.open_of_lives (h : s.Safe p) (hx : s.scrapes[k]?=some x)
    (hlives : x.stage≠.gone) : s.closed=false := by
  refine Bool.eq_false_iff.mpr fun hc => ?_
  have hpos : 0 < s.scrapes.countP (·.stage != .gone) :=
    countP_pos_iff.mpr ⟨x,mem_of_getElem? hx,by simpa using hlives⟩
  rw [← h.waits,(h.shut hc).1] at hpos
  cases hpos

theorem Scheduler.Safe.acquired (h : s.Safe p) (hi : s.loops[i]?=some .acquiring)
    (hroom : s.workerSem<p.maxWorkers) :
    ({ s with loops := s.loops.set i .selecting, busy := update s.busy i true,
              scrapes := s.scrapes++[⟨i,.scraping⟩], workerSem := s.workerSem+1,
              scrapeWG := s.scrapeWG+1 } : Scheduler κ).Safe p := by
  have hfree := h.idle i (h.free i hi)
  refine ⟨?_,hroom,?_,fun j hj x hx hentry => ?_,fun j k x y hx hy hlt hentry => ?_,fun j hj => ?_,fun hc => ?_,
    h.calm,fun r hr => ?_,h.ordered⟩
  · simp [h.workers,Stage.holds,Stage.owns]
  · simp [h.waits]
  · have hne : j≠i := by
      rintro rfl
      simp at hj
    replace hj : s.busy j = false := (update_of_ne hne _ _).symm.trans hj
    obtain hx | hx := mem_append.mp hx
    · exact h.idle j hj x hx hentry
    · rw [mem_singleton.mp hx] at hentry
      exact absurd hentry.symm hne
  · have hlen := (List.getElem?_eq_some_iff.mp hy).1
    simp only [length_append,length_singleton] at hlen
    rw [getElem?_append_left (by omega)] at hx
    rw [getElem?_append] at hy
    split_ifs at hy
    · exact h.last j k x y hx hy hlt hentry
    · rw [mem_singleton.mp (mem_of_getElem? hy)] at hentry
      exact hfree x (mem_of_getElem? hx) hentry
  · obtain ⟨-,heq⟩ | ⟨hij,hj⟩ := getElem?_set_cases hj
    · cases heq
    · exact (update_of_ne (Ne.symm hij) _ _).trans (h.free j hj)
  · cases (h.shut hc).2 _ (mem_of_getElem? hi)
  · obtain ⟨x,hx,hr⟩ := h.sent r hr
    exact ⟨x,by rw [getElem?_append_left (List.getElem?_eq_some_iff.mp hx).1,hx],hr⟩

/-- A scrape moves on, and gives back what it does not have at its new stage. -/
theorem Scheduler.Safe.movedTo (h : s.Safe p) (hx : s.scrapes[k]?=some x) {stage : Stage}
    {b : ℕ → Bool} {w g : ℕ} (hlives : x.stage≠.gone)
    (hto : stage≠.scraping ∧ (stage=.sending → x.stage=.scraping))
    (howns : stage.owns=true → x.stage.owns=true)
    (hw : w+(if x.stage.holds then 1 else 0)=s.workerSem+(if stage.holds then 1 else 0))
    (hle : w ≤ s.workerSem) (hg : g+1=s.scrapeWG+(if stage != .gone then 1 else 0))
    (hb : ∀ i, b i=false → s.busy i=false ∨ i=x.entry ∧ x.stage.owns=true ∧ stage.owns=false)
    (hbusy : ∀ i, b i=true → s.busy i=true) :
    ({ s with scrapes := s.scrapes.set k ⟨x.entry,stage⟩, busy := b, workerSem := w, scrapeWG := g } :
      Scheduler κ).Safe p := by
  have hcount := countP_set_some hx ⟨x.entry,stage⟩
  have hnot : x.stage.owns=false → stage.owns=false := by simpa [← Bool.not_eq_true] using mt howns
  refine { h with
    workers := ?_
    workers_le := hle.trans h.workers_le
    waits := ?_
    idle := fun i hi y hy hentry => ?_
    last := fun j j' y y' hy hy' hlt hentry => ?_
    free := fun i hi => Bool.eq_false_iff.mpr fun hbi => by simpa [h.free i hi] using hbusy i hbi
    shut := fun hc => ?_
    sent := fun r hr => ?_ }
  · have := hcount (·.stage.holds)
    have := h.workers
    dsimp only at *
    omega
  · have := hcount (·.stage != .gone)
    have := h.waits
    simp only [bne_iff_ne.mpr hlives,if_true] at *
    omega
  · obtain ⟨j,hj⟩ := getElem?_of_mem hy
    obtain ⟨rfl,rfl⟩ | ⟨hne,hj⟩ := getElem?_set_cases hj
    · obtain hi | ⟨-,-,hlost⟩ := hb i hi
      · exact hnot (h.idle i hi x (mem_of_getElem? hx) hentry)
      · exact hlost
    · obtain hi | ⟨rfl,hown,-⟩ := hb i hi
      · exact h.idle i hi y (mem_of_getElem? hj) hentry
      · obtain hlt | hlt := Nat.lt_or_gt_of_ne hne
        · cases hown.symm.trans (h.last k j x y hx hj hlt hentry.symm)
        · exact h.last j k y x hj hx hlt hentry
  · obtain ⟨rfl,rfl⟩ | ⟨-,hy⟩ := getElem?_set_cases hy <;>
      obtain ⟨rfl,rfl⟩ | ⟨-,hy'⟩ := getElem?_set_cases hy'
    · omega
    · exact hnot (h.last k j' x y' hx hy' hlt hentry)
    · exact h.last j k y x hy hx hlt hentry
    · exact h.last j j' y y' hy hy' hlt hentry
  · cases (h.open_of_lives hx hlives).symm.trans hc
  · obtain ⟨y,hy,hentry,hscr,hsend⟩ := h.sent r hr
    by_cases hkr : k=r.2
    · subst hkr
      cases hx.symm.trans hy
      exact ⟨⟨x.entry,stage⟩,by rw [getElem?_set_self',hx]; rfl,hentry,hto.1,fun heq => hscr (hto.2 heq)⟩
    · exact ⟨y,by rw [getElem?_set_ne hkr,hy],hentry,hscr,hsend⟩

variable [DecidableEq κ]

/-- A scrape proceeds. The one at its send is the last of its entry, so what was sent for the entry was
started before. -/
theorem Scheduler.Safe.proceed (h : s.Safe p) (hx : s.scrapes[k]?=some x) {outcome : Outcome}
    {dropped : Bool} (hstep : s.proceed p k x outcome dropped=some t) : t.Safe p := by
  obtain ⟨i,stage⟩ := x
  cases stage with
  | scraping =>
    cases hstep
    have hsafe : ({ s with scrapes := s.scrapes.set k ⟨i,.sending⟩ } : Scheduler κ).Safe p :=
      h.movedTo hx (by simp) (by simp) (fun _ => rfl) rfl le_rfl rfl (fun _ => .inl) (fun _ hb => hb)
    exact { hsafe with }
  | sending =>
    have hsafe : ({ s with scrapes := s.scrapes.set k ⟨i,.clearing⟩ } : Scheduler κ).Safe p :=
      h.movedTo hx (by simp) (by simp) (fun _ => rfl) rfl le_rfl rfl (fun _ => .inl) (fun _ hb => hb)
    simp only [Scheduler.proceed] at hstep
    split_ifs at hstep with hd hc hclosed hroom
    · cases hstep
      exact hsafe
    · cases (h.open_of_lives hx (by simp)).symm.trans hclosed
    · cases hstep
      refine { hsafe with
        sent := fun r hr => ?_
        ordered := pairwise_append.mpr ⟨h.ordered,by simp,fun r hr r' hr' heq => ?_⟩ }
      · obtain hr | hr := mem_append.mp hr
        · exact hsafe.sent r hr
        · rw [mem_singleton.mp hr]
          exact ⟨⟨i,.clearing⟩,by rw [getElem?_set_self',hx]; rfl,rfl,by simp,by simp⟩
      · rw [mem_singleton.mp hr'] at heq ⊢
        obtain ⟨y,hy,hentry,hscr,hsend⟩ := h.sent r hr
        by_contra hle
        obtain hlt | heq' := Nat.lt_or_eq_of_le (Nat.le_of_not_lt hle)
        · cases h.last k r.2 _ y hx hy hlt (heq.symm.trans hentry.symm)
        · rw [← heq',hx] at hy
          cases hy
          exact hsend rfl
  | clearing =>
    cases hstep
    refine h.movedTo hx (by simp) (by simp) nofun rfl le_rfl rfl (fun j hj => ?_) fun j hj => ?_
    · by_cases hij : j=i
      · exact .inr ⟨hij,rfl,rfl⟩
      · exact .inl (by rwa [update_of_ne hij] at hj)
    · have hij : j≠i := by
        rintro rfl
        simp at hj
      rwa [update_of_ne hij] at hj
  | releasing =>
    simp only [Scheduler.proceed] at hstep
    split_ifs at hstep with hzero
    cases hstep
    exact h.movedTo hx (by simp) (by simp) nofun (by simp [Stage.holds,Stage.owns]; omega)
      (by omega) rfl (fun _ => .inl)
      (fun _ hb => hb)
  | finishing =>
    cases hstep
    have hpos : 0 < s.scrapes.countP (·.stage != .gone) := countP_pos_iff.mpr ⟨_,mem_of_getElem? hx,rfl⟩
    rw [← h.waits] at hpos
    exact h.movedTo hx (by simp) (by simp) nofun rfl le_rfl (by simp; omega) (fun _ => .inl) (fun _ hb => hb)
  | gone => cases hstep

lemma act_safe (h : s.Safe p) {e : Event} (hstep : s.act p e=some t) : t.Safe p := by
  cases e with
  | cancel =>
    cases hstep
    exact { h with }
  | wake i =>
    simp only [Scheduler.act] at hstep
    split_ifs at hstep with hi
    cases hstep
    exact h.loop (by simp) fun hc => by cases (h.shut hc).2 _ (mem_of_getElem? hi)
  | tick i now =>
    simp only [Scheduler.act] at hstep
    split_ifs at hstep with hi hfree
    · cases hstep
      exact h.loop (fun _ => hfree.1) fun hc => by cases (h.shut hc).2 _ (mem_of_getElem? hi)
    · cases hstep
      exact h
  | acquire i =>
    simp only [Scheduler.act] at hstep
    split_ifs at hstep with hi
    cases hstep
    exact h.acquired hi.1 hi.2
  | leave i =>
    simp only [Scheduler.act] at hstep
    split_ifs at hstep
    cases hstep
    exact h.loop (by simp) fun _ => rfl
  | proceed k outcome dropped =>
    obtain ⟨x,hx,hstep⟩ := Option.bind_eq_some_iff.mp hstep
    exact h.proceed hx hstep
  | receive =>
    simp only [Scheduler.act] at hstep
    split_ifs at hstep
    cases hstep
    exact { h with }
  | close =>
    simp only [Scheduler.act] at hstep
    split_ifs at hstep with hend
    cases hstep
    exact { h with shut := fun _ => ⟨hend.2.1,hend.1⟩ }

lemma run_safe {events : List Event} (h : exec (Scheduler.act p) p.start events=some s) :
    s.Safe p :=
  exec_invariant (fun _ _ _ hs hstep => act_safe hs hstep) h (start_safe p)

/-- The channel is closed behind the last loop and the last scrape, and nothing is sent on it then. -/
theorem results_closed_last (p : Plan κ) (events : List Event) (h : exec (Scheduler.act p) p.start events=some s) :
    s.panicked = false ∧
      (s.closed=true → (∀ l∈s.loops, l=.exited) ∧ ∀ x∈s.scrapes, x.stage=.gone) := by
  have hsafe := run_safe h
  refine ⟨hsafe.calm,fun hc => ⟨(hsafe.shut hc).2,fun x hx => ?_⟩⟩
  have hnone : s.scrapes.countP (·.stage != .gone) = 0 := hsafe.waits.symm.trans (hsafe.shut hc).1
  simpa using countP_eq_zero.mp hnone x hx

/-- An entry is not scraped twice at a time, nor are there more scrapes than workers. -/
theorem scrapes_apart (p : Plan κ) (events : List Event) (h : exec (Scheduler.act p) p.start events=some s) :
    s.scrapes.countP (·.stage.owns) ≤ p.maxWorkers ∧ ∀ (j k : ℕ) (x y : Scrape), s.scrapes[j]? = some x →
      s.scrapes[k]? = some y → x.entry=y.entry → x.stage.owns=true → y.stage.owns=true → j=k := by
  have hsafe := run_safe h
  refine ⟨?_,fun j k x y hj hk hentry hx hy => ?_⟩
  · have hle : s.scrapes.countP (·.stage.owns) ≤ s.scrapes.countP (·.stage.holds) :=
      countP_mono_left fun x _ hx => by
        unfold Stage.holds
        split <;> simp_all
    exact hle.trans (hsafe.workers.symm.trans_le hsafe.workers_le)
  · by_contra hne
    obtain hlt | hlt := Nat.lt_or_gt_of_ne hne
    · cases hx.symm.trans (hsafe.last j k x y hj hk hlt hentry)
    · cases hy.symm.trans (hsafe.last k j y x hk hj hlt hentry.symm)

/-- The results of an entry come in the order its scrapes were started in, each at most once. -/
theorem results_in_order (p : Plan κ) (events : List Event)
    (h : exec (Scheduler.act p) p.start events=some s) (i : ℕ) :
    ((s.results.filter (·.1=i)).map Prod.snd).Pairwise (· < ·) := by
  rw [pairwise_map]
  refine ((run_safe h).ordered.filter _).imp_of_mem fun {r r'} hr hr' hlt => ?_
  have hentry := (mem_filter.mp hr).2
  have hentry' := (mem_filter.mp hr').2
  exact hlt (by simp_all)

end Safety

def onePlan : Plan Unit := ⟨1,1,fun _ => ()⟩

def brief : List Event :=
  [.wake 0,.tick 0 .zero,.acquire 0]++List.replicate 5 (.proceed 0 .success false) ++
    [.tick 0 .zero,.acquire 0]++List.replicate 5 (.proceed 1 .success false)++[.cancel,.leave 0,.close]

theorem results_closed_last_brief : ∃ s, exec (Scheduler.act onePlan) onePlan.start brief = some s ∧
    s.closed = true ∧ s.panicked=false := ⟨_,rfl,rfl,(results_closed_last onePlan brief rfl).1⟩

theorem scrapes_apart_brief : ∃ s, exec (Scheduler.act onePlan) onePlan.start brief = some s ∧
    s.scrapes.length = 2 ∧ s.scrapes.countP (·.stage.owns) ≤ 1 :=
  ⟨_,rfl,rfl,(scrapes_apart onePlan brief rfl).1⟩

theorem results_in_order_brief : ∃ s, exec (Scheduler.act onePlan) onePlan.start brief = some s ∧
    s.results = [(0,0),(0,1)] ∧ ((s.results.filter (·.1=0)).map Prod.snd).Pairwise (· < ·) :=
  ⟨_,rfl,rfl,results_in_order onePlan brief rfl 0⟩

end Pglens.Agent

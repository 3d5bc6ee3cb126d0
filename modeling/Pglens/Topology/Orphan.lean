import Pglens.Lib.History
import Pglens.Topology.SplitBrain
import Pglens.Topology.Replay
import Mathlib.Tactic.NormNum
import Mathlib.Tactic.Linarith

/-! An orphan event reports how long a standby has had edges and no resolved one. Here the events of
a run are told by the calls alone: which observation an event is dated from, and what the instance
was not observed as in between. The calls are kept newest first. -/
namespace Pglens.Topology
open Pglens.Lib List Duration
open InstanceState (orphanEvidence)

/-- One call of `apply`: its clock reading and observation, whether the observation was
taken for a new cycle, and the events it gave. -/
structure Heard where
  now : Time
  obs : Observation
  accepted : Bool
  events : List Event

/-- The engine with the calls it took. -/
structure Watch where
  engine : Engine
  heard : List Heard

def Watch.new : Watch := ⟨newEngine,[]⟩

def Watch.step (w : Watch) : Input → Watch
  | .observe now obs => ⟨(w.engine.apply now obs).2,
      ⟨now,obs,decide (w.engine.Accepts obs),(w.engine.apply now obs).1⟩::w.heard⟩
  | .evict _ before => ⟨w.engine.evict before,w.heard⟩

def Watch.run (w : Watch) (inputs : List Input) : Watch := inputs.foldl Watch.step w

def heardOf (i : InstanceID) (heard : List Heard) : List Heard :=
  heard.filter fun h => decide (h.obs.instanceID=i)

def orphansOf (i : InstanceID) (heard : List Heard) : List Event :=
  (heard.flatMap Heard.events).filter fun ev =>
    decide (ev.type=.orphanStandby ∧ ev.instanceID=i)

def quietSince : List Heard → ℕ
  | [] => 0
  | h::older => if h.obs.evidence then 0 else quietSince older+1

/-- The newest evidence, which is `first` when none came later. -/
def lastEvidence (first : Heard) : List Heard → Heard
  | [] => first
  | h::older => if h.obs.evidence then h else lastEvidence first older

/-- A whole window after the last evidence on the server's clock and, when both are
stamped, on the agent's. -/
def Heard.WindowAfter (h last : Heard) : Prop :=
  last.now.ns+orphanWindow ≤ h.now.ns ∧
    (h.obs.timestamp.isZero=false → last.obs.timestamp.isZero=false →
      last.obs.timestamp.ns+orphanWindow ≤ h.obs.timestamp.ns)

/-- The second or a later call in a row without evidence, a whole window after the last. -/
def Heard.Lapses (h first : Heard) (older : List Heard) : Prop :=
  h.obs.evidence = false ∧ 1 ≤ quietSince older ∧ h.WindowAfter (lastEvidence first older)

/-- The duration of an event given at `h` is the time since the evidence of `first`, and
none of the calls about the instance since then says that the standby was no orphan.
`counts` are the calls that make a row. -/
structure Heard.DatedFrom (counts : Heard → Bool) (h : Heard) (d : ℚ) (first : Heard)
    (since : List Heard) : Prop where
  evidence : first.obs.evidence=true
  duration : d = seconds (h.now.sub first.now)
  long : 60≤d
  alone : ∀ o∈since, o.obs.connected=false
  unbroken : AtEach (fun o older => ¬o.Lapses first older) (since.filter counts)

/-- Every orphan event of a call is about the observed instance and truthfully dated. -/
def Heard.Truthful (counts : Heard → Bool) (h : Heard) (older : List Heard) : Prop :=
  ∀ ev∈h.events, ev.type=.orphanStandby →
    ev.instanceID = h.obs.instanceID ∧ ev.timestamp=h.now ∧
      ∃ d since first earlier, ev.payload = .duration d ∧
        heardOf h.obs.instanceID older = since++first::earlier ∧
        h.DatedFrom counts d first since

lemma orphanWindow_le_sub {t u : Time} : orphanWindow ≤ t.sub u ↔ u.ns+orphanWindow ≤ t.ns := by
  rw [← not_lt,sub_lt_iff (by decide) (by decide)]
  omega

section Cycle
variable (s : InstanceState) (now : Time)

lemma quietCycle_open {sent : Time} (h : (s.quietCycle now sent).orphanAt.isZero=false) :
    s.quietCycle now sent = { s with quietCycles := s.quietCycles+1 } ∧
      (1 ≤ s.quietCycles → s.orphanSeenAt.ns+orphanWindow ≤ now.ns →
        sent.isZero=false ∧ s.orphanSeenSent.isZero=false ∧
          sent.ns<s.orphanSeenSent.ns+orphanWindow) := by
  unfold InstanceState.quietCycle at h ⊢
  cases hg : orphanGapEnds { s with quietCycles := s.quietCycles+1 } now sent with
  | true => simp [hg,InstanceState.clearOrphan,Time.isZero,Time.zero] at h
  | false =>
    refine ⟨by simp [hg],fun hq hw => ?_⟩
    unfold orphanGapEnds at hg
    rw [if_neg (by
      rw [not_or,not_lt,not_lt,orphanWindow_le_sub]
      exact ⟨by simpa using hq,hw⟩)] at hg
    simp only [ite_eq_left_iff,Bool.true_eq_false,imp_false,not_not,Bool.and_eq_true,
      Bool.not_eq_eq_eq_not,Bool.not_true,decide_eq_true_eq] at hg
    obtain ⟨⟨hs,hl⟩,hlt⟩ := hg
    refine ⟨hs,hl,?_⟩
    rw [sub_lt_iff (by decide) (by decide)] at hlt
    omega

end Cycle

section Apply
variable {e : Engine} {now : Time} {obs : Observation}

lemma detectSplitBrain_type (c : ClusterID) :
    ∀ ev ∈ (e.detectSplitBrain c now).1, ev.type=.splitBrainDetected := by
  intro ev hev
  unfold Engine.detectSplitBrain at hev
  dsimp only at hev
  split_ifs at hev
  · rw [mem_singleton.mp hev]
  all_goals cases hev

lemma apply_orphan (now : Time) (h : e.Accepts obs) :
    let o := (InstanceState.renew ((e.instances.get obs.instanceID).map InstancePtr.state)
      now obs).orphanStep now obs
    (∃ addr, (e.apply now obs).2.instances=e.instances.set obs.instanceID ⟨addr,o.1⟩) ∧
      (e.apply now obs).1.filter (fun ev => decide (ev.type=.orphanStandby)) = o.2 := by
  intro o
  obtain ⟨heap,addr,-,-,happly⟩ := apply_new now h
  refine ⟨apply_renews now h,?_⟩
  rw [congrArg Prod.fst happly]
  dsimp only [Engine.track]
  rw [filter_append,filter_append,
    filter_eq_nil_iff.mpr fun ev hev => ?_,filter_eq_self.mpr fun ev hev => ?_,
    filter_eq_nil_iff.mpr fun ev hev => ?_,append_nil,nil_append]
  · simp [detectSplitBrain_type _ ev hev]
  · simpa using orphanStep_type _ ev hev
  · rcases roleChange_type _ ev hev with ht | ht <;> simp [ht]

end Apply

/-- What an open episode knows of the calls about its instance and of the events given for
it: `calls` and `events` are newest first. -/
structure Episode (calls : List Heard) (events : List Event) (s : InstanceState) : Prop where
  reported : ∀ ev∈events, ev.timestamp.ns ≤ s.orphanAt.ns ∨ ev.timestamp.ns ≤ s.orphanedAt.ns
  dated : ∃ since first earlier, calls = since++first::earlier ∧ first.obs.evidence=true ∧
    first.now = s.orphanAt ∧ (∀ o∈since, o.obs.connected=false) ∧
    AtEach (fun o older => ¬o.Lapses first older) (since.filter Heard.accepted) ∧
    quietSince (since.filter Heard.accepted) = s.quietCycles ∧
    (lastEvidence first (since.filter Heard.accepted)).now = s.orphanSeenAt ∧
    (lastEvidence first (since.filter Heard.accepted)).obs.timestamp = s.orphanSeenSent

section Episode
variable {calls : List Heard} {events : List Event} {s : InstanceState} {h : Heard}

lemma Episode.ignore (he : Episode calls events s) (ha : h.accepted=false)
    (hc : h.obs.connected=false) : Episode (h::calls) events s := by
  obtain ⟨since,first,earlier,rfl,hev,hnow,halone,hunbroken,hq,hseen,hsent⟩ := he.dated
  refine ⟨he.reported,h::since,first,earlier,rfl,hev,hnow,?_,?_⟩
  · simpa [hc] using halone
  · rw [filter_cons_of_neg (by simp [ha])]
    exact ⟨hunbroken,hq,hseen,hsent⟩

lemma Episode.quiet (he : Episode calls events s) (ha : h.accepted=true)
    (hc : h.obs.connected=false) (hv : h.obs.evidence=false)
    (hopen : (s.quietCycle h.now h.obs.timestamp).orphanAt.isZero=false) :
    Episode (h::calls) events (s.quietCycle h.now h.obs.timestamp) := by
  obtain ⟨heq,hgap⟩ := quietCycle_open s h.now hopen
  obtain ⟨since,first,earlier,rfl,hev,hnow,halone,hunbroken,hq,hseen,hsent⟩ := he.dated
  rw [heq]
  refine ⟨he.reported,h::since,first,earlier,rfl,hev,hnow,?_,?_⟩
  · simpa [hc] using halone
  · rw [filter_cons_of_pos ha]
    refine ⟨⟨fun hl => ?_,hunbroken⟩,?_,?_,?_⟩
    · obtain ⟨-,hrow,hserver,hagent⟩ := hl
      rw [hseen] at hserver
      rw [hsent] at hagent
      obtain ⟨h₁,h₂,hlt⟩ := hgap (hq ▸ hrow) hserver
      have := hagent h₁ h₂
      omega
    · simp [quietSince,hv,hq]
    · simpa [lastEvidence,hv] using hseen
    · simpa [lastEvidence,hv] using hsent

lemma Episode.start (hv : h.obs.evidence=true) (hz : s.orphanAt.isZero=true)
    (hpast : ∀ ev∈events, ev.timestamp.ns≤h.now.ns) :
    Episode (h::calls) events (s.orphanEvidence h.now h.obs.timestamp) := by
  refine ⟨fun ev hev => .inl ?_,[],h,calls,rfl,hv,?_,by simp,trivial,rfl,rfl,rfl⟩
  · simpa [orphanEvidence,hz] using hpast ev hev
  · simp [orphanEvidence,hz]

lemma Episode.renew (he : Episode calls events s) (ha : h.accepted=true)
    (hv : h.obs.evidence=true) (hc : h.obs.connected=false) (hopen : s.orphanAt.isZero=false) :
    Episode (h::calls) events (s.orphanEvidence h.now h.obs.timestamp) := by
  obtain ⟨since,first,earlier,rfl,hev,hnow,halone,hunbroken,hq,hseen,hsent⟩ := he.dated
  have hat : (s.orphanEvidence h.now h.obs.timestamp).orphanAt = s.orphanAt := by
    simp [orphanEvidence,hopen]
  refine ⟨?_,h::since,first,earlier,rfl,hev,by rw [hat,hnow],?_,?_⟩
  · rw [hat]
    exact he.reported
  · simpa [hc] using halone
  · rw [filter_cons_of_pos ha]
    refine ⟨⟨fun hlapses => ?_,hunbroken⟩,?_,?_,?_⟩
    · have hquiet := hlapses.1
      rw [hv] at hquiet
      cases hquiet
    · simp [quietSince,hv,orphanEvidence]
    · simp [lastEvidence,hv,orphanEvidence]
    · simp [lastEvidence,hv,orphanEvidence]

lemma Episode.report (he : Episode calls events s)
    (hat : orphanWindow ≤ h.now.sub s.orphanAt) (hed : orphanWindow ≤ h.now.sub s.orphanedAt) :
    (∀ ev∈events, ev.timestamp.ns+orphanWindow ≤ h.now.ns) ∧
      ∃ since first earlier, calls = since++first::earlier ∧
        h.DatedFrom Heard.accepted (seconds (h.now.sub s.orphanAt)) first since := by
  obtain ⟨since,first,earlier,hcalls,hev,hnow,halone,hunbroken,-⟩ := he.dated
  refine ⟨fun ev hmem => ?_,since,first,earlier,hcalls,hev,by rw [hnow],?_,halone,hunbroken⟩
  · rw [orphanWindow_le_sub] at hat hed
    rcases he.reported ev hmem with hle | hle <;> omega
  · have h60 : (60*1000000000 : ℤ) ≤ h.now.sub s.orphanAt := hat
    rw [seconds,le_div_iff₀ (by norm_num)]
    exact_mod_cast h60

def Heard.Reports (h : Heard) (calls : List Heard) (events reports : List Event) : Prop :=
  reports = [] ∨ ∃ d, reports = [⟨.orphanStandby,h.now,h.obs.instanceID,h.obs.clusterID,.duration d⟩] ∧
    (∀ ev∈events, ev.timestamp.ns+orphanWindow ≤ h.now.ns) ∧
    ∃ since first earlier, calls = since++first::earlier ∧
      h.DatedFrom Heard.accepted d first since

variable {reports : List Event}

section Reports
variable (hr : h.Reports calls events reports)
include hr

lemma Heard.Reports.about :
    ∀ ev∈reports, ev.instanceID=h.obs.instanceID ∧ ev.timestamp=h.now := by
  intro ev hev
  rcases hr with rfl | ⟨d,rfl,-⟩
  · cases hev
  · obtain rfl := mem_singleton.mp hev
    exact ⟨rfl,rfl⟩

lemma Heard.Reports.dated :
    ∀ ev∈reports, ∃ d since first earlier, ev.payload = .duration d ∧
      calls = since++first::earlier ∧ h.DatedFrom Heard.accepted d first since := by
  intro ev hev
  rcases hr with rfl | ⟨d,rfl,-,since,first,earlier,hcalls,hdated⟩
  · cases hev
  · obtain rfl := mem_singleton.mp hev
    exact ⟨d,since,first,earlier,rfl,hcalls,hdated⟩

lemma Heard.Reports.spaced
    (he : events.Pairwise fun later earlier =>
      earlier.timestamp.ns+orphanWindow ≤ later.timestamp.ns) :
    (reports++events).Pairwise fun later earlier =>
      earlier.timestamp.ns+orphanWindow ≤ later.timestamp.ns := by
  rcases hr with rfl | ⟨d,rfl,hapart,-⟩
  · exact he
  · exact pairwise_cons.mpr ⟨hapart,he⟩

lemma Heard.Reports.filter_of
    (i : InstanceID) : reports.filter (fun ev => decide (ev.instanceID=i)) =
      if h.obs.instanceID=i then reports else [] := by
  split_ifs with hi
  · exact filter_eq_self.mpr fun ev hev => decide_eq_true ((hr.about ev hev).1.trans hi)
  · refine filter_eq_nil_iff.mpr fun ev hev => ?_
    rw [(hr.about ev hev).1]
    simpa using hi

end Reports

lemma orphanStep_episode (ha : h.accepted=true)
    (hpast : ∀ ev∈events, ev.timestamp.ns≤h.now.ns)
    (he : s.orphanAt.isZero=false → Episode calls events s) :
    let o := s.orphanStep h.now h.obs
    (o.1.orphanAt.isZero=false → h.obs.connected=false ∧
      Episode (h::calls) (o.2++events) o.1) ∧ h.Reports calls events o.2 := by
  intro o
  cases hc : h.obs.connected with
  | true =>
    obtain ⟨hev,hzero⟩ := orphanStep_connected s h.now hc
    refine ⟨fun hopen => ?_,.inl hev⟩
    rw [hzero] at hopen
    cases hopen
  | false =>
    cases hv : h.obs.evidence with
    | false =>
      have ho : o = (s.quietCycle h.now h.obs.timestamp,[]) := orphanStep_quiet s h.now hc hv
      rw [ho]
      refine ⟨fun hopen => ⟨rfl,?_⟩,.inl rfl⟩
      have hs : s.orphanAt.isZero=false := by
        rw [(quietCycle_open s h.now hopen).1] at hopen
        exact hopen
      exact (he hs).quiet ha hc hv hopen
    | true =>
      have ho : o=_ := orphanStep_evidence s h.now hv
      have hnew : Episode (h::calls) events (s.orphanEvidence h.now h.obs.timestamp) := by
        cases hz : s.orphanAt.isZero with
        | true => exact .start hv hz hpast
        | false => exact (he hz).renew ha hv hc hz
      rw [ho]
      dsimp only
      split_ifs with hdue
      · -- A new episode is no window old, so the one reported was open before.
        have hz : s.orphanAt.isZero=false := by
          by_contra hz
          have hat : (s.orphanEvidence h.now h.obs.timestamp).orphanAt = h.now := by
            simp [orphanEvidence,eq_true_of_ne_false hz]
          rw [hat,sub_self] at hdue
          exact absurd hdue.1 (by decide)
        have hat : (s.orphanEvidence h.now h.obs.timestamp).orphanAt = s.orphanAt := by
          simp [orphanEvidence,hz]
        refine ⟨fun _ => ⟨rfl,⟨fun ev hev => .inr ?_,hnew.dated⟩⟩,
          .inr ⟨_,rfl,(he hz).report (hat ▸ hdue.1) hdue.2 |>.1,?_⟩⟩
        · rcases mem_cons.mp hev with rfl | hev
          · exact le_rfl
          · exact hpast ev hev
        · rw [hat]
          exact ((he hz).report (hat ▸ hdue.1) hdue.2).2
      · exact ⟨fun _ => ⟨rfl,hnew⟩,.inl rfl⟩

end Episode

/-- The episodes in the engine fit the calls, and the events so far are as they should be. -/
structure Watch.Sound (clock : ℤ) (w : Watch) : Prop where
  episode : ∀ i p, w.engine.instances.get i = some p → p.state.orphanAt.isZero=false →
    p.state.lastObs.connected = false ∧
      Episode (heardOf i w.heard) (orphansOf i w.heard) p.state
  past : ∀ h∈w.heard, ∀ ev∈h.events, ev.type=.orphanStandby → ev.timestamp.ns≤clock
  spaced : ∀ i, (orphansOf i w.heard).Pairwise fun later earlier =>
    earlier.timestamp.ns+orphanWindow ≤ later.timestamp.ns
  truthful : AtEach (Heard.Truthful Heard.accepted) w.heard

section Run
variable {w : Watch} {clock : ℤ} {now : Time} {obs : Observation}

lemma repeat_connected {s : InstanceState} (h : isRepeat (some s) obs=true) :
    obs.connected = s.lastObs.connected := by
  simp only [isRepeat,Bool.and_eq_true,decide_eq_true_eq] at h
  obtain ⟨⟨⟨-,hrole⟩,-⟩,hedges⟩ := h
  simp only [Observation.connected,hrole,hedges]

lemma orphansOf_cons (i : InstanceID) (h : Heard) (heard : List Heard) :
    orphansOf i (h::heard) = (h.events.filter fun ev =>
      decide (ev.type=.orphanStandby ∧ ev.instanceID=i))++orphansOf i heard := by
  simp [orphansOf]

section HeardOf
variable {i : InstanceID} {accepted : Bool} {events : List Event} {heard : List Heard}

lemma heardOf_cons_self (hi : obs.instanceID=i) :
    heardOf i (⟨now,obs,accepted,events⟩::heard) = ⟨now,obs,accepted,events⟩::heardOf i heard :=
  filter_cons_of_pos (decide_eq_true hi)

lemma heardOf_cons_of_ne (hi : obs.instanceID≠i) :
    heardOf i (⟨now,obs,accepted,events⟩::heard) = heardOf i heard :=
  filter_cons_of_neg (by simpa using hi)

end HeardOf

lemma Watch.Sound.repeated (h : w.Sound clock) (ht : clock≤now.ns)
    (ha : ¬w.engine.Accepts obs) : (w.step (.observe now obs)).Sound now.ns := by
  have hrep : isRepeat ((w.engine.instances.get obs.instanceID).map InstancePtr.state) obs = true := by
    simpa [Engine.Accepts] using ha
  have hstep : w.step (.observe now obs) = ⟨w.engine,⟨now,obs,false,[]⟩::w.heard⟩ := by
    simp [Watch.step,apply_repeat now hrep,ha]
  have horphans : ∀ i, orphansOf i (⟨now,obs,false,[]⟩::w.heard) = orphansOf i w.heard := by
    simp [orphansOf_cons]
  rw [hstep]
  refine ⟨fun i p hp hopen => ?_,?_,fun i => horphans i ▸ h.spaced i,?_,h.truthful⟩
  · obtain ⟨hlast,hepisode⟩ := h.episode i p hp hopen
    refine ⟨hlast,?_⟩
    dsimp only
    rw [horphans]
    by_cases hi : obs.instanceID=i
    · subst hi
      rw [hp] at hrep
      rw [heardOf_cons_self rfl]
      exact hepisode.ignore rfl ((repeat_connected hrep).trans hlast)
    · rwa [heardOf_cons_of_ne hi]
  · intro g hg ev hev htype
    rcases mem_cons.mp hg with rfl | hg
    · cases hev
    · exact (h.past g hg ev hev htype).trans ht
  · intro ev hev
    cases hev

lemma Watch.Sound.not_after (h : w.Sound clock) {i : InstanceID} :
    ∀ ev ∈ orphansOf i w.heard, ev.timestamp.ns≤clock := by
  intro ev hev
  obtain ⟨hmem,htype⟩ := mem_filter.mp hev
  obtain ⟨g,hg,hev'⟩ := mem_flatMap.mp hmem
  exact h.past g hg ev hev' (of_decide_eq_true htype).1

lemma Watch.Sound.renewed (h : w.Sound clock) {i : InstanceID} :
    let s := InstanceState.renew ((w.engine.instances.get i).map InstancePtr.state) now obs
    s.orphanAt.isZero = false → Episode (heardOf i w.heard) (orphansOf i w.heard) s := by
  intro s hopen
  cases hp : w.engine.instances.get i with
  | none => simp [s,hp,InstanceState.renew,Time.isZero,Time.zero] at hopen
  | some p =>
    simp only [s,hp,Option.map_some,InstanceState.renew] at hopen ⊢
    obtain ⟨-,hepisode⟩ := h.episode i p hp hopen
    exact ⟨hepisode.reported,hepisode.dated⟩

lemma Watch.Sound.accepted (h : w.Sound clock) (ht : clock≤now.ns)
    (ha : w.engine.Accepts obs) : (w.step (.observe now obs)).Sound now.ns := by
  obtain ⟨⟨addr,hset⟩,hevents⟩ := apply_orphan now ha
  set i := obs.instanceID with hi
  set s := InstanceState.renew ((w.engine.instances.get i).map InstancePtr.state) now obs with hs
  let g : Heard := ⟨now,obs,true,(w.engine.apply now obs).1⟩
  have hstep : w.step (.observe now obs) = ⟨(w.engine.apply now obs).2,g::w.heard⟩ := by
    simp [Watch.step,ha,g]
  obtain ⟨hopens,hreports⟩ := orphanStep_episode (h := g) rfl
    (fun ev hev => (h.not_after ev hev).trans ht) h.renewed
  have hgiven : ∀ ev∈g.events, ev.type=.orphanStandby → ev ∈ (s.orphanStep now obs).2 :=
    fun ev hev htype => hevents ▸ mem_filter.mpr ⟨hev,decide_eq_true htype⟩
  have horphans : ∀ j, orphansOf j (g::w.heard) =
      (if i=j then (s.orphanStep now obs).2 else [])++orphansOf j w.heard := by
    intro j
    rw [orphansOf_cons,← hreports.filter_of,← hevents,filter_filter]
    simp only [Bool.decide_and,Bool.and_comm]
    rfl
  rw [hstep]
  refine ⟨fun j p hp hopen => ?_,fun g' hg' ev hev htype => ?_,fun j => ?_,
    fun ev hev htype => ?_,h.truthful⟩
  · dsimp only at hp ⊢
    rw [horphans]
    by_cases hij : i=j
    · subst hij
      rw [hset,FinMap.get_set_self] at hp
      obtain rfl := Option.some.inj hp
      rw [if_pos rfl,heardOf_cons_self rfl]
      obtain ⟨hconn,hepisode⟩ := hopens hopen
      have hlast : (s.orphanStep now obs).1.lastObs = obs :=
        congrArg (·.2.2.2) (renew_sighting now obs _)
      exact ⟨(congrArg Observation.connected hlast).trans hconn,hepisode⟩
    · rw [hset,FinMap.get_set_of_ne _ _ (Ne.symm hij)] at hp
      rw [if_neg hij,heardOf_cons_of_ne hij]
      exact h.episode j p hp hopen
  · rcases mem_cons.mp hg' with rfl | hg'
    · rw [(hreports.about ev (hgiven ev hev htype)).2]
    · exact (h.past g' hg' ev hev htype).trans ht
  · dsimp only
    rw [horphans]
    split_ifs with hij
    · subst hij
      exact hreports.spaced (h.spaced i)
    · exact h.spaced j
  · obtain ⟨hid,hts⟩ := hreports.about ev (hgiven ev hev htype)
    obtain ⟨d,since,first,earlier,hd,hcalls,hdated⟩ := hreports.dated ev (hgiven ev hev htype)
    exact ⟨hid,hts,d,since,first,earlier,hd,hcalls,hdated⟩

lemma Watch.Sound.evict (h : w.Sound clock) (ht : clock≤now.ns) (before : Time) :
    (w.step (.evict now before)).Sound now.ns := by
  refine ⟨fun i p hp hopen => ?_,fun g hg ev hev htype => (h.past g hg ev hev htype).trans ht,
    h.spaced,h.truthful⟩
  change (w.engine.evict before).instances.get i = some p at hp
  cases hget : w.engine.instances.get i with
  | none =>
    rw [evict_get_stale (by simp [hget])] at hp
    cases hp
  | some q =>
    cases hold : q.state.timestamp.before before with
    | true =>
      rw [evict_get_stale (by simpa [hget] using hold)] at hp
      cases hp
    | false =>
      obtain ⟨seen,hseen⟩ := evict_get_fresh hget hold
      rw [hseen] at hp
      obtain rfl := Option.some.inj hp
      obtain ⟨hlast,hepisode⟩ := h.episode i q hget hopen
      exact ⟨hlast,hepisode.reported,hepisode.dated⟩

lemma Watch.Sound.step (h : w.Sound clock) (input : Input) (ht : clock ≤ input.now.ns) :
    (w.step input).Sound input.now.ns := by
  cases input with
  | observe now obs =>
    by_cases ha : w.engine.Accepts obs
    · exact h.accepted ht ha
    · exact h.repeated ht ha
  | evict now before => exact h.evict ht before

lemma Watch.Sound.run {inputs : List Input} (h : w.Sound clock)
    (hclock : (inputs.map fun input => input.now.ns).Pairwise (· ≤ ·))
    (hfrom : ∀ input∈inputs, clock ≤ input.now.ns) : ∃ clock, (w.run inputs).Sound clock := by
  induction inputs generalizing w clock with
  | nil => exact ⟨clock,h⟩
  | cons input inputs ih =>
    obtain ⟨hle,hrest⟩ := pairwise_cons.mp hclock
    refine ih (h.step input (hfrom input (by simp))) hrest fun input' hmem => ?_
    exact hle _ (mem_map_of_mem hmem)

end Run

/-- Every run of `apply` and `evict` at clock readings that do not go back, whatever the
sent times and the cutoffs. -/
theorem orphan_events_spaced_and_dated (inputs : List Input)
    (hclock : (inputs.map fun input => input.now.ns).Pairwise (· ≤ ·)) :
    let heard := (Watch.new.run inputs).heard
    (∀ i, (orphansOf i heard).Pairwise fun later earlier =>
      earlier.timestamp.ns+60*second ≤ later.timestamp.ns) ∧
    AtEach (Heard.Truthful Heard.accepted) heard := by
  have hnew : ∀ clock, Watch.new.Sound clock := fun clock =>
    ⟨fun i p hp => by simp [Watch.new,newEngine] at hp,by simp [Watch.new],
      fun i => by simp [Watch.new,orphansOf],trivial⟩
  cases inputs with
  | nil => exact ⟨(hnew 0).spaced,(hnew 0).truthful⟩
  | cons input inputs =>
    obtain ⟨clock,h⟩ := (hnew input.now.ns).run hclock fun input' hmem => by
      rcases mem_cons.mp hmem with rfl | hmem
      · exact le_rfl
      · exact (pairwise_cons.mp hclock).1 _ (mem_map_of_mem hmem)
    exact ⟨h.spaced,h.truthful⟩

section Runs

def unresolved : Observation := ⟨1,7,.standby,none,.zero,[⟨1,2,"streaming","",.low⟩]⟩
def edgeless : Observation := ⟨1,7,.standby,none,⟨5,0⟩,[]⟩

/-- A standby that stays unresolved is reported after a minute. -/
theorem orphan_events_after_minute :
    let heard := (Watch.new.run [.observe ⟨1000*second,0⟩ unresolved,
      .observe ⟨1060*second,0⟩ unresolved]).heard
    (∃ ev ∈ heard.flatMap Heard.events, ev.type=.orphanStandby) ∧
      AtEach (Heard.Truthful Heard.accepted) heard :=
  ⟨by decide,(orphan_events_spaced_and_dated
    [.observe ⟨1000*second,0⟩ unresolved,.observe ⟨1060*second,0⟩ unresolved]
    (by decide)).2⟩

/-- One edgeless observation, and the same again with a minute gone since the evidence. -/
def repeatedEdgeless : List Input :=
  [.observe ⟨1000*second,0⟩ unresolved,.observe ⟨1010*second,0⟩ edgeless,
    .observe ⟨1070*second,0⟩ edgeless,.observe ⟨1080*second,0⟩ unresolved]

/-- The repeat is a second call in a row without evidence, and ends no episode. -/
theorem repeated_edgeless_lapses :
    (repeatedEdgeless.map fun input => input.now.ns).Pairwise (· ≤ ·) ∧
      ¬AtEach (Heard.Truthful fun _ => true) (Watch.new.run repeatedEdgeless).heard := by
  refine ⟨by decide,fun h => ?_⟩
  obtain ⟨g,older,hheard,⟨ev,hev,htype⟩,hseen⟩ : ∃ g older,
      (Watch.new.run repeatedEdgeless).heard = g::older ∧
      (∃ ev∈g.events, ev.type=.orphanStandby) ∧
      (heardOf g.obs.instanceID older).map (fun o => (o.now,o.obs)) =
        [(⟨1070*second,0⟩,edgeless),(⟨1010*second,0⟩,edgeless),
          (⟨1000*second,0⟩,unresolved)] := ⟨_,_,rfl,by decide,by decide⟩
  rw [hheard] at h
  obtain ⟨-,-,d,since,first,earlier,-,hcalls,hdated⟩ := h.1 ev hev htype
  rw [hcalls,map_append,map_cons] at hseen
  -- Only the oldest call has evidence, so the event is dated from it.
  have hev : first.obs.evidence=true := hdated.evidence
  match since,hseen,hdated.unbroken with
  | [],hseen,_ =>
    simp only [map_nil,nil_append,List.cons.injEq,Prod.mk.injEq] at hseen
    rw [hseen.1.2] at hev
    exact absurd hev (by decide)
  | [a],hseen,_ =>
    simp only [map_cons,map_nil,cons_append,nil_append,List.cons.injEq,Prod.mk.injEq] at hseen
    rw [hseen.2.1.2] at hev
    exact absurd hev (by decide)
  | [a,b],hseen,hunbroken =>
    simp only [map_cons,map_nil,cons_append,nil_append,List.cons.injEq,Prod.mk.injEq] at hseen
    obtain ⟨⟨ha,hao⟩,⟨hb,hbo⟩,⟨hf,hfo⟩,-⟩ := hseen
    have hquiet : b.obs.evidence=false := by rw [hbo]; decide
    refine hunbroken.1 ⟨by rw [hao]; decide,?_,?_⟩
    · change 1 ≤ quietSince [b]
      simp [quietSince,hquiet]
    · change a.WindowAfter (lastEvidence first [b])
      simp only [lastEvidence,hquiet,Bool.false_eq_true,if_false,Heard.WindowAfter,ha,hao,hf,hfo]
      decide
  | a::b::c::since,hseen,_ => simp at hseen

end Runs

end Pglens.Topology

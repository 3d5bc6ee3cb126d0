import Mathlib.Data.Finset.Card
import Mathlib.Logic.Function.Basic
import Mathlib.Logic.Relation
import Mathlib.Order.Basic

/-! A graph is a function to lists of successors. A breadth-first search labels each node with the
hops of the walk that found it, and when its queue is empty the labels are the distances from the
starts. A depth-first visit with a set of visited nodes collects what can be reached. -/
namespace Pglens.Lib
open List

/-- A walk of so many hops from one of the starts. -/
inductive Hops {α : Type*} (R : α → α → Prop) (start : α → Prop) : ℕ → α → Prop
  | start {x : α} (h : start x) : Hops R start 0 x
  | hop {n : ℕ} {x y : α} (walk : Hops R start n x) (h : R x y) : Hops R start (n+1) y

def Distance {α : Type*} (R : α → α → Prop) (start : α → Prop) (n : ℕ) (x : α) : Prop :=
  Hops R start n x ∧ ∀ m, Hops R start m x → n ≤ m

/-- The depths found so far, and the nodes whose successors were not looked at. -/
structure Search (α : Type*) where
  depth : α → Option ℕ
  queue : List α

namespace Search
variable {α : Type*} [DecidableEq α]

def meet (d : ℕ) (s : Search α) (y : α) : Search α :=
  if (s.depth y).isSome then s else ⟨Function.update s.depth y (some d),s.queue++[y]⟩

def expand (next : α → List α) (x : α) (s : Search α) : Search α :=
  (next x).foldl (meet ((s.depth x).getD 0+1)) s

def run (next : α → List α) : ℕ → Search α → Option (Search α)
  | 0,s => if s.queue.isEmpty then some s else none
  | n+1,s => match s.queue with
    | [] => some s
    | x::queue => run next n (expand next x { s with queue := queue })

lemma foldl_meet (d : ℕ) (ys : List α) (s : Search α) : ∃ new : List α,
    (ys.foldl (meet d) s).queue = s.queue++new ∧ new.Nodup ∧
        (∀ y, y∈new ↔ y∈ys ∧ s.depth y=none) ∧
      ∀ y, (ys.foldl (meet d) s).depth y = if y∈new then some d else s.depth y := by
  induction ys generalizing s with
  | nil => exact ⟨[],by simp,by simp,by simp,by simp⟩
  | cons y ys ih =>
    rw [foldl_cons]
    cases hy : s.depth y with
    | some e =>
      obtain ⟨new,hqueue,hnodup,hmem,hdepth⟩ := ih s
      have hmeet : meet d s y = s := by simp [meet,hy]
      rw [hmeet]
      refine ⟨new,hqueue,hnodup,fun z => ?_,hdepth⟩
      rw [hmem,mem_cons]
      constructor
      · exact fun h => ⟨.inr h.1,h.2⟩
      · rintro ⟨rfl | hz,hnone⟩
        · rw [hy] at hnone
          cases hnone
        · exact ⟨hz,hnone⟩
    | none =>
      have hmeet : meet d s y = ⟨Function.update s.depth y (some d),s.queue++[y]⟩ := by simp [meet,hy]
      rw [hmeet]
      obtain ⟨new,hqueue,hnodup,hmem,hdepth⟩ := ih ⟨Function.update s.depth y (some d),s.queue++[y]⟩
      have hfresh : y ∉ new := by
        intro hnew
        have := ((hmem y).mp hnew).2
        simp at this
      refine ⟨y::new,?_,nodup_cons.mpr ⟨hfresh,hnodup⟩,fun z => ?_,fun z => ?_⟩
      · rw [hqueue,append_assoc]
        rfl
      · rw [mem_cons,mem_cons,hmem]
        by_cases hz : z=y
        · subst hz
          simp [hy]
        · simp [hz]
      · rw [hdepth]
        by_cases hz : z=y
        · subst hz
          simp [hfresh]
        · simp [hz]

lemma expand_spec (next : α → List α) (x : α) (s : Search α) (queue : List α) :
    ∃ new, (expand next x { s with queue := queue }).queue = queue++new ∧ new.Nodup ∧
      (∀ y, y∈new ↔ y ∈ next x ∧ s.depth y=none) ∧
      ∀ y, (expand next x { s with queue := queue }).depth y =
        if y∈new then some ((s.depth x).getD 0+1) else s.depth y :=
  foldl_meet ((s.depth x).getD 0+1) (next x) { s with queue := queue }

def potential (U : Finset α) (s : Search α) : ℕ := (U.filter fun x => s.depth x=none).card+s.queue.length

variable {U : Finset α} {s t : Search α} {next : α → List α} {x : α} {queue : List α} {n : ℕ}
  {start : α → Prop}

lemma potential_le (hnodup : s.queue.Nodup)
    (hqueue : ∀ x∈s.queue, x∈U ∧ ∃ d, s.depth x=some d) : potential U s ≤ U.card := by
  have hdisjoint : Disjoint (U.filter fun x => s.depth x=none) s.queue.toFinset := by
    rw [Finset.disjoint_left]
    intro x hx hq
    obtain ⟨d,hd⟩ := (hqueue x (mem_toFinset.mp hq)).2
    rw [(Finset.mem_filter.mp hx).2] at hd
    cases hd
  rw [potential,← toFinset_card_of_nodup hnodup,← Finset.card_union_of_disjoint hdisjoint]
  refine Finset.card_le_card (Finset.union_subset (Finset.filter_subset _ _) fun x hx => ?_)
  exact (hqueue x (mem_toFinset.mp hx)).1

/-- The search stays among the nodes of a finite set. -/
structure Within (next : α → List α) (U : Finset α) (s : Search α) : Prop where
  closed : ∀ x∈U, ∀ y ∈ next x, y∈U
  queue : ∀ x∈s.queue, x∈U

lemma Within.expand (h : Within next U s)
    (hs : s.queue=x::queue) : Within next U (expand next x { s with queue := queue }) := by
  obtain ⟨new,hqueue,_,hmem,_⟩ := expand_spec next x s queue
  refine ⟨h.closed,fun y hy => ?_⟩
  rw [hqueue] at hy
  obtain hy | hy := mem_append.mp hy
  · exact h.queue y (by rw [hs]; exact mem_cons_of_mem x hy)
  · exact h.closed x (h.queue x (by simp [hs])) y ((hmem y).mp hy).1

lemma potential_expand (h : Within next U s) (hs : s.queue=x::queue) :
    potential U (expand next x { s with queue := queue })+1 = potential U s := by
  obtain ⟨new,hqueue,hnodup,hmem,hdepth⟩ := expand_spec next x s queue
  have hnew : new.toFinset ⊆ U.filter fun y => s.depth y = none := by
    intro y hy
    obtain ⟨hy,hnone⟩ := (hmem y).mp (mem_toFinset.mp hy)
    exact Finset.mem_filter.mpr ⟨h.closed x (h.queue x (by simp [hs])) y hy,hnone⟩
  have hleft : (U.filter fun y => (Search.expand next x { s with queue := queue }).depth y=none) =
      (U.filter fun y => s.depth y=none) \ new.toFinset := by
    ext y
    simp only [hdepth,Finset.mem_filter,Finset.mem_sdiff,mem_toFinset]
    by_cases hy : y ∈ new <;> simp [hy]
  have hcard := Finset.card_sdiff_add_card_eq_card hnew
  rw [toFinset_card_of_nodup hnodup] at hcard
  rw [potential,potential,hleft,hqueue,length_append,hs,length_cons]
  omega

lemma run_of_potential (h : Within next U s)
    (hn : potential U s ≤ n) : ∃ t, run next n s = some t ∧ t.queue=[] := by
  induction n generalizing s with
  | zero =>
    have hnil : s.queue=[] := by
      rw [← length_eq_zero_iff]
      rw [potential] at hn
      omega
    exact ⟨s,by simp [run,hnil],hnil⟩
  | succ n ih =>
    cases hs : s.queue with
    | nil => exact ⟨s,by simp [run,hs],hs⟩
    | cons x queue =>
      have hpot := potential_expand h hs
      obtain ⟨t,ht,hnil⟩ := ih (h.expand hs) (by omega)
      refine ⟨t,?_,hnil⟩
      rw [run,hs]
      exact ht

lemma run_invariant {P : Search α → Prop}
    (hP : ∀ s x queue, s.queue=x::queue → P s → P (expand next x { s with queue := queue }))
    (h : run next n s=some t) (hs : P s) : P t := by
  induction n generalizing s with
  | zero =>
    rw [run] at h
    split_ifs at h
    cases h
    exact hs
  | succ n ih =>
    cases hq : s.queue with
    | nil =>
      simp only [run,hq,Option.some.injEq] at h
      rwa [← h]
    | cons x queue =>
      simp only [run,hq] at h
      exact ih h (hP s x queue hq hs)

/-- The labels are lengths of walks, the queue is ordered and spans two depths, and the successors of a
node that left it are labelled one deeper at most. -/
structure Sound (next : α → List α) (start : α → Prop) (s : Search α) : Prop where
  walk : ∀ x d, s.depth x = some d → Hops (fun x y => y ∈ next x) start d x
  starts : ∀ x, start x → s.depth x = some 0
  queued : ∀ x∈s.queue, ∃ d, s.depth x = some d
  ordered : s.queue.Pairwise fun x y => ∀ d e, s.depth x = some d → s.depth y = some e → d≤e
  span : ∀ x queue d, s.queue = x::queue → s.depth x = some d → ∀ y e, s.depth y = some e → e ≤ d+1
  closed : ∀ x d, s.depth x = some d → x ∉ s.queue → ∀ y ∈ next x, ∃ e, s.depth y = some e ∧ e ≤ d+1

lemma Sound.expand (h : Sound next start s) (hs : s.queue=x::queue) :
    Sound next start (expand next x { s with queue := queue }) := by
  obtain ⟨d,hd⟩ := h.queued x (by simp [hs])
  obtain ⟨new,hqueue,_,hmem,hdepth⟩ := expand_spec next x s queue
  rw [hd,Option.getD_some] at hdepth
  have hold : ∀ y e, s.depth y = some e → y ∉ new := by
    intro y e he hy
    have hnone : s.depth y = none := ((hmem y).mp hy).2
    rw [hnone] at he
    cases he
  have hspan := h.span x queue d hs hd
  have hordered := h.ordered
  rw [hs,pairwise_cons] at hordered
  -- every label is at most one more than that of the node that left
  have hbound : ∀ y e, (Search.expand next x { s with queue := queue }).depth y = some e → e ≤ d+1 := by
    intro y e he
    rw [hdepth] at he
    split_ifs at he
    · cases he
      exact le_rfl
    · exact hspan y e he
  constructor
  case walk =>
    intro y e he
    rw [hdepth] at he
    split_ifs at he with hy
    · cases he
      exact .hop (h.walk x d hd) ((hmem y).mp hy).1
    · exact h.walk y e he
  case starts =>
    intro y hy
    rw [hdepth,if_neg (hold y 0 (h.starts y hy))]
    exact h.starts y hy
  case queued =>
    intro y hy
    rw [hqueue] at hy
    rw [hdepth]
    obtain hy | hy := mem_append.mp hy
    · obtain ⟨e,he⟩ := h.queued y (by rw [hs]; exact mem_cons_of_mem x hy)
      exact ⟨e,by rw [if_neg (hold y e he),he]⟩
    · exact ⟨d+1,if_pos hy⟩
  case ordered =>
    rw [hqueue,pairwise_append]
    refine ⟨?_,?_,?_⟩
    · refine hordered.2.imp_of_mem fun {y z} hy hz hyz e f he hf => ?_
      obtain ⟨e',he'⟩ := h.queued y (by rw [hs]; exact mem_cons_of_mem x hy)
      obtain ⟨f',hf'⟩ := h.queued z (by rw [hs]; exact mem_cons_of_mem x hz)
      rw [hdepth,if_neg (hold y e' he')] at he
      rw [hdepth,if_neg (hold z f' hf')] at hf
      exact hyz e f he hf
    · refine pairwise_of_forall_mem_list fun y hy z hz e f he hf => ?_
      rw [hdepth,if_pos hy] at he
      rw [hdepth,if_pos hz] at hf
      cases he
      cases hf
      exact le_rfl
    · intro y _ z hz e f he hf
      rw [hdepth,if_pos hz] at hf
      cases hf
      exact hbound y e he
  case span =>
    intro y queue' e hq he z f hf
    have hle : d≤e := by
      rw [hdepth] at he
      split_ifs at he with hy
      · cases he
        exact Nat.le_succ d
      · have hmem' : y∈queue := by
          have hfirst : y ∈ queue++new := by
            rw [← hqueue,hq]
            exact mem_cons_self
          exact (mem_append.mp hfirst).resolve_right hy
        exact hordered.1 y hmem' d e hd he
    exact (hbound z f hf).trans (Nat.succ_le_succ hle)
  case closed =>
    intro y e he hy z hz
    rw [hqueue,mem_append,not_or] at hy
    rw [hdepth,if_neg hy.2] at he
    by_cases hyx : y=x
    · subst hyx
      rw [hd] at he
      cases he
      rw [hdepth]
      by_cases hznew : z∈new
      · exact ⟨d+1,if_pos hznew,le_rfl⟩
      · rw [if_neg hznew]
        cases hf : s.depth z with
        | none => exact absurd ((hmem z).mpr ⟨hz,hf⟩) hznew
        | some f => exact ⟨f,rfl,hspan z f hf⟩
    · obtain ⟨f,hf,hle⟩ := h.closed y e he (by rw [hs]; exact not_mem_cons_of_ne_of_not_mem hyx hy.1) z hz
      exact ⟨f,by rw [hdepth,if_neg (hold z f hf),hf],hle⟩

omit [DecidableEq α] in
lemma Sound.depth_iff (h : Sound next start s) (hs : s.queue=[]) (x : α) (d : ℕ) :
    s.depth x = some d ↔ Distance (fun x y => y ∈ next x) start d x := by
  have hfound : ∀ n y, Hops (fun x y => y ∈ next x) start n y → ∃ e, s.depth y = some e ∧ e≤n := by
    intro n y hwalk
    induction hwalk with
    | start hy => exact ⟨0,h.starts _ hy,le_rfl⟩
    | hop _ hnext ih =>
      obtain ⟨e,he,hle⟩ := ih
      obtain ⟨f,hf,hle'⟩ := h.closed _ e he (by simp [hs]) _ hnext
      exact ⟨f,hf,hle'.trans (Nat.succ_le_succ hle)⟩
  constructor
  · intro hd
    refine ⟨h.walk x d hd,fun m hm => ?_⟩
    obtain ⟨e,he,hle⟩ := hfound m x hm
    rw [hd] at he
    cases he
    exact hle
  · rintro ⟨hwalk,hleast⟩
    obtain ⟨e,he,hle⟩ := hfound d x hwalk
    rw [he,Nat.le_antisymm hle (hleast e (h.walk x e he))]

lemma Sound.run (h : Sound next start s) (hrun : run next n s=some t) : Sound next start t :=
  run_invariant (fun _ _ _ hs hP => hP.expand hs) hrun h

omit [DecidableEq α] in
lemma sound_starts (next : α → List α) (hdepth : ∀ x d, s.depth x=some d ↔ start x ∧ d=0)
    (hqueue : ∀ x, x∈s.queue ↔ start x) : Sound next start s := by
  constructor
  case walk =>
    intro x d hd
    obtain ⟨hx,rfl⟩ := (hdepth x d).mp hd
    exact .start hx
  case starts => exact fun x hx => (hdepth x 0).mpr ⟨hx,rfl⟩
  case queued => exact fun x hx => ⟨0,(hdepth x 0).mpr ⟨(hqueue x).mp hx,rfl⟩⟩
  case ordered =>
    refine pairwise_of_forall fun x y d e hd _ => ?_
    rw [((hdepth x d).mp hd).2]
    exact Nat.zero_le e
  case span =>
    intro x queue d _ _ y e he
    rw [((hdepth y e).mp he).2]
    exact Nat.zero_le _
  case closed => exact fun x d hd hx => absurd ((hqueue x).mpr ((hdepth x d).mp hd).1) hx

lemma distance_of_run {starts : List α}
    (hrun : run next n (starts.foldl (meet 0) ⟨fun _ => none,[]⟩)=some t) (ht : t.queue=[])
    {d : ℕ} : t.depth x = some d ↔ Distance (fun x y => y ∈ next x) (· ∈ starts) d x := by
  obtain ⟨new,hqueue,_,hmem,hdepth⟩ := foldl_meet 0 starts ⟨fun _ => none,[]⟩
  have hstart : ∀ y, y∈new ↔ y∈starts := by
    intro y
    simp [hmem]
  have hsound : Sound next (· ∈ starts) (starts.foldl (meet 0) ⟨fun _ => none,[]⟩) := by
    refine sound_starts _ (fun y e => ?_) (fun y => ?_)
    · rw [hdepth,← hstart]
      split_ifs with hy <;> simp [hy,eq_comm]
    · rw [hqueue,nil_append,hstart]
  exact (hsound.run hrun).depth_iff ht x d

end Search

section Visits
variable {α : Type*} [DecidableEq α]

/-- A depth-first visit with the nodes it has visited and the successors it has met, none when the fuel
does not reach. -/
def visit (next : α → List α) : ℕ → α → Finset α × Finset α → Option (Finset α × Finset α)
  | 0,_,_ => none
  | fuel+1,x,st =>
    if x∈st.1 then some st
    else (next x).foldlM (fun st y => visit next fuel y (st.1,insert y st.2)) (insert x st.1,st.2)

/-- What a visit of some nodes adds: they and what is reached from them is visited, and the nodes that
are met are those or successors of what was visited. -/
structure Visited (next : α → List α) (xs : List α) (st st' : Finset α × Finset α) : Prop where
  grows : st.1 ⊆ st'.1
  visited : ∀ x∈xs, x∈st'.1
  reached : ∀ y∈st'.1, y ∉ st.1 → ∃ x∈xs, Relation.ReflTransGen (fun x y => y ∈ next x) x y
  closed : ∀ y∈st'.1, y ∉ st.1 → ∀ z ∈ next y, z∈st'.1 ∧ z∈st'.2
  met : st.2 ⊆ st'.2
  only : ∀ z∈st'.2, z ∉ st.2 → ∃ y∈st'.1, y ∉ st.1 ∧ z ∈ next y

variable {next : α → List α} {U : Finset α} {fuel : ℕ}

/-- A visit of a list, one by one, each met before it is visited. -/
theorem visit_list (hone : ∀ x∈U, ∀ st : Finset α × Finset α, (U \ st.1).card<fuel →
      ∃ st', visit next fuel x st=some st' ∧ Visited next [x] st st') (xs : List α)
    (hxs : ∀ x∈xs, x∈U) (st : Finset α × Finset α) (hfuel : (U \ st.1).card<fuel) : ∃ st',
      xs.foldlM (fun st y => visit next fuel y (st.1,insert y st.2)) st = some st' ∧
        Visited next xs (st.1,st.2 ∪ xs.toFinset) st' := by
  induction xs generalizing st with
  | nil =>
    refine ⟨st,rfl,⟨subset_rfl,by simp,fun y hy hn => absurd hy hn,fun y hy hn => absurd hy hn,by simp,?_⟩⟩
    intro z hz hn
    simp at hn
    exact absurd hz hn
  | cons x xs ih =>
    obtain ⟨st₁,h₁,hv₁⟩ := hone x (hxs x (by simp)) (st.1,insert x st.2) hfuel
    have hless : (U \ st₁.1).card < fuel :=
      (Finset.card_le_card (Finset.sdiff_subset_sdiff subset_rfl hv₁.grows)).trans_lt hfuel
    obtain ⟨st₂,h₂,hv₂⟩ := ih (fun y hy => hxs y (by simp [hy])) st₁ hless
    refine ⟨st₂,?_,?_⟩
    · rw [foldlM_cons,h₁]
      exact h₂
    · constructor
      case grows => exact hv₁.grows.trans hv₂.grows
      case visited =>
        intro y hy
        obtain rfl | hy := mem_cons.mp hy
        · exact hv₂.grows (hv₁.visited y (by simp))
        · exact hv₂.visited y hy
      case reached =>
        intro y hy hn
        by_cases hy₁ : y∈st₁.1
        · obtain ⟨z,hz,hwalk⟩ := hv₁.reached y hy₁ hn
          exact ⟨z,by simp_all,hwalk⟩
        · obtain ⟨z,hz,hwalk⟩ := hv₂.reached y hy hy₁
          exact ⟨z,mem_cons_of_mem x hz,hwalk⟩
      case closed =>
        intro y hy hn z hz
        by_cases hy₁ : y∈st₁.1
        · obtain ⟨hvisited,hmet⟩ := hv₁.closed y hy₁ hn z hz
          exact ⟨hv₂.grows hvisited,hv₂.met (Finset.mem_union_left _ hmet)⟩
        · exact hv₂.closed y hy hy₁ z hz
      case met =>
        intro z hz
        have hsplit : z ∈ insert x st.2 ∨ z∈xs.toFinset := by simpa [or_assoc,or_comm,or_left_comm] using hz
        obtain hz | hz := hsplit
        · exact hv₂.met (Finset.mem_union_left _ (hv₁.met hz))
        · exact hv₂.met (Finset.mem_union_right _ hz)
      case only =>
        intro z hz hn
        have hn' : z ∉ insert x st.2 ∧ z ∉ xs.toFinset := by
          simpa [not_or,and_assoc,and_comm,and_left_comm] using hn
        by_cases hz₁ : z∈st₁.2
        · obtain ⟨y,hy,hyn,hnext⟩ := hv₁.only z hz₁ hn'.1
          exact ⟨y,hv₂.grows hy,hyn,hnext⟩
        · have hz' : z ∉ st₁.2 ∪ xs.toFinset := by simp only [Finset.mem_union,not_or]; exact ⟨hz₁,hn'.2⟩
          obtain ⟨y,hy,hyn,hnext⟩ := hv₂.only z hz hz'
          exact ⟨y,hy,fun hyst => hyn (hv₁.grows hyst),hnext⟩

lemma visit_of_fuel (hU : ∀ x∈U, ∀ y ∈ next x, y∈U) (fuel : ℕ) :
    ∀ x∈U, ∀ st : Finset α × Finset α, (U \ st.1).card < fuel →
      ∃ st', visit next fuel x st = some st' ∧ Visited next [x] st st' := by
  induction fuel with
  | zero => exact fun x _ st h => absurd h (Nat.not_lt_zero _)
  | succ fuel ih =>
    intro x hx st hfuel
    by_cases hseen : x∈st.1
    · refine ⟨st,by rw [visit,if_pos hseen],⟨subset_rfl,by simpa using hseen,fun y hy hn => absurd hy hn,
        fun y hy hn => absurd hy hn,subset_rfl,fun z hz hn => absurd hz hn⟩⟩
    · have hless : (U \ insert x st.1).card < fuel := by
        have hcard : (U \ insert x st.1).card < (U \ st.1).card := by
          refine Finset.card_lt_card
              ⟨Finset.sdiff_subset_sdiff subset_rfl (Finset.subset_insert _ _),fun hsub => ?_⟩
          have := hsub (Finset.mem_sdiff.mpr ⟨hx,hseen⟩)
          simp at this
        omega
      obtain ⟨st',hrun,hv⟩ := visit_list ih (next x) (hU x hx) (insert x st.1,st.2) hless
      refine ⟨st',by rw [visit,if_neg hseen]; exact hrun,?_⟩
      constructor
      case grows => exact (Finset.subset_insert _ _).trans hv.grows
      case visited =>
        intro y hy
        rw [mem_singleton.mp hy]
        exact hv.grows (Finset.mem_insert_self _ _)
      case reached =>
        intro y hy hn
        by_cases hyx : y=x
        · exact ⟨x,by simp,hyx ▸ .refl⟩
        · obtain ⟨z,hz,hwalk⟩ := hv.reached y hy (by simp [hyx,hn])
          exact ⟨x,by simp,.head hz hwalk⟩
      case closed =>
        intro y hy hn z hz
        by_cases hyx : y=x
        · subst hyx
          exact ⟨hv.visited z hz,hv.met (Finset.mem_union_right _ (mem_toFinset.mpr hz))⟩
        · exact hv.closed y hy (by simp [hyx,hn]) z hz
      case met => exact Finset.subset_union_left.trans hv.met
      case only =>
        intro z hz hn
        by_cases hznext : z ∈ next x
        · exact ⟨x,hv.grows (Finset.mem_insert_self _ _),hseen,hznext⟩
        · obtain ⟨y,hy,hyn,hnext⟩ := hv.only z hz (by simp [hn,hznext])
          exact ⟨y,hy,fun hyst => hyn (Finset.mem_insert_of_mem hyst),hnext⟩

lemma visit_spec (hU : ∀ x∈U, ∀ y ∈ next x, y∈U)
    (hfuel : U.card<fuel) {x : α} (hx : x∈U) : ∃ st, visit next fuel x (∅,∅) = some st ∧
      ∀ y, y∈st.2 ↔ Relation.TransGen (fun x y => y ∈ next x) x y := by
  obtain ⟨st,hrun,hv⟩ := visit_of_fuel hU fuel x hx (∅,∅) (by simpa using hfuel)
  have hvisited : ∀ y, y∈st.1 ↔ Relation.ReflTransGen (fun x y => y ∈ next x) x y := by
    intro y
    constructor
    · intro hy
      obtain ⟨z,hz,hwalk⟩ := hv.reached y hy (by simp)
      rwa [mem_singleton.mp hz] at hwalk
    · intro hwalk
      induction hwalk with
      | refl => exact hv.visited x (by simp)
      | tail _ hstep ih => exact (hv.closed _ ih (by simp) _ hstep).1
  refine ⟨st,hrun,fun y => ?_⟩
  rw [Relation.TransGen.tail'_iff]
  constructor
  · intro hy
    obtain ⟨z,hz,_,hnext⟩ := hv.only y hy (by simp)
    exact ⟨z,(hvisited z).mp hz,hnext⟩
  · rintro ⟨z,hwalk,hnext⟩
    exact (hv.closed z ((hvisited z).mpr hwalk) (by simp) y hnext).2

end Visits

end Pglens.Lib

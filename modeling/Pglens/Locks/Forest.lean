import Pglens.Locks.Placement

/-! A call of place is a search from its starts over the waiters, so it ends with every session it
reaches placed and every waiter of those looked at. The first call starts from the sessions without
a known blocker and gives each session its distance from them. The later ones place the rest. -/
namespace Pglens.Locks
open Pglens.Lib List Option
open LockNode (pid)

variable {K : Type} [DecidableEq K]

def blocked (waiters : K → List (LockNode K)) (k : K) : List K := (waiters k).map pid

def lookedAt (waiters : K → List (LockNode K)) (s : Search K) (k : K) : List (LockNode K) :=
  if (s.depth k).isSome = true ∧ k ∉ s.queue then waiters k else []

section Place
variable {nodes tops queue : List (LockNode K)} {waiters : K → List (LockNode K)} {p : Placement K}
  {s t : Search K} {fuel n : ℕ} {pids : Pids K}

lemma lookedAt_expand {current : K} {rest : List K} {d : ℕ} (hs : s.queue=current::rest)
    (hnodup : s.queue.Nodup) (hd : s.depth current=some d) :
    lookedAt waiters (((blocked waiters current).foldl (Search.meet (d+1)) { s with queue := rest })) =
      Function.update (lookedAt waiters s) current (lookedAt waiters s current++waiters current) := by
  obtain ⟨new,hqueue,_,hmem,hdepth⟩ := Search.foldl_meet (d+1) (blocked waiters current) { s with queue := rest }
  rw [hs,nodup_cons] at hnodup
  funext k
  rw [lookedAt,hqueue,hdepth]
  by_cases hk : k=current
  · subst hk
    have hnew : k ∉ new := by
      intro hk
      have hnone := ((hmem k).mp hk).2
      rw [hd] at hnone
      cases hnone
    simp [lookedAt,hs,hnew,hnodup.1,hd]
  · rw [Function.update_of_ne hk,lookedAt,hs]
    by_cases hnew : k∈new
    · have hnone : s.depth k = none := ((hmem k).mp hnew).2
      simp [hnew,hnone]
    · simp [hnew,hk]

lemma lookedAt_done (hw : Waits nodes waiters) (hs : s.queue=[])
    (hall : ∀ n∈nodes, ∃ d, s.depth n.pid=some d) : lookedAt waiters s = waiters := by
  funext k
  rw [lookedAt,hs]
  cases hd : s.depth k with
  | some d => simp
  | none =>
    symm
    rw [if_neg (by simp),eq_nil_iff_forall_not_mem]
    intro w hwait
    obtain ⟨n,hn,rfl⟩ := known_iff.mp ((hw.mem k w).mp hwait).2.2
    obtain ⟨d,hd'⟩ := hall n hn
    rw [hd] at hd'
    cases hd'

theorem drain_spec (hpids : pids.Plain) (hw : Waits nodes waiters)
    (hinj : Keyed nodes) (hfuel : nodes.length≤fuel) {roots : K → Prop}
    (hrun : Search.run (blocked waiters) n s=some t)
    (h : Grown nodes p s.depth (lookedAt waiters s) tops)
    (hqueue : queue.map pid=s.queue) (hnodup : s.queue.Nodup)
    (hqueued : ∀ k∈s.queue, (∃ d, s.depth k=some d) ∧ ∃ r, roots r ∧ p.rootOf.get k=some r) :
    ∃ p', drain pids waiters fuel n queue p = some p' ∧ Grown nodes p' t.depth (lookedAt waiters t) tops ∧
      Keeps (· ∈ s.queue) roots p s.depth p' t.depth := by
  induction n generalizing s p queue with
  | zero =>
    rw [Search.run] at hrun
    split_ifs at hrun with hempty
    cases hrun
    rw [List.isEmpty_iff] at hempty
    rw [hempty,map_eq_nil_iff] at hqueue
    subst hqueue
    exact ⟨p,rfl,h,Keeps.same _ rfl fun _ _ => rfl⟩
  | succ n ih =>
    cases queue with
    | nil =>
      have hs : s.queue=[] := hqueue.symm
      simp only [Search.run,hs,Option.some.injEq] at hrun
      subst hrun
      exact ⟨p,rfl,h,Keeps.same _ rfl fun _ _ => rfl⟩
    | cons current rest =>
      have hs : s.queue = current.pid::rest.map pid := hqueue.symm
      obtain ⟨⟨d,hd⟩,root,hroots,hroot⟩ := hqueued current.pid (by simp [hs])
      obtain ⟨p₁,queue₁,hvisit,hgrown,hqueue₁,hkeeps⟩ :=
          visitChildren_spec (s := { s with queue := rest.map pid })
        hpids hinj hfuel (waiters current.pid) (fun w hwait => ((hw.mem _ w).mp hwait).1) h rfl hd hroot
      rw [← blocked] at hgrown hqueue₁ hkeeps
      rw [← lookedAt_expand hs hnodup hd] at hgrown
      simp only [Search.run,hs,Search.expand,hd,getD_some] at hrun
      obtain ⟨new,hnewQueue,hnewNodup,hnew,hnewDepth⟩ :=
        Search.foldl_meet (d+1) (blocked waiters current.pid) { s with queue := rest.map pid }
      have hunplaced : ∀ k∈new, s.depth k = none := fun k hk => ((hnew k).mp hk).2
      have hplaced : ∀ k∈new, _ := fun k hk => (hnewDepth k).trans (if_pos hk)
      generalize (blocked waiters current.pid).foldl (Search.meet (d+1))
        { s with queue := rest.map pid } = s₁
        at hrun hgrown hqueue₁ hkeeps hnewQueue hplaced
      have hkeeps' : Keeps (· ∈ s.queue) roots p s.depth p₁ s₁.depth :=
        hkeeps.mono (fun k hk => by simp [hs,hk]) (fun r hr => hr ▸ hroots)
      have hold : ∀ k ∈ rest.map pid, k∈s.queue := by
        intro k hk
        rw [hs]
        exact mem_cons_of_mem _ hk
      have hnodup₁ : s₁.queue.Nodup := by
        rw [hnewQueue]
        rw [hs,nodup_cons] at hnodup
        refine nodup_append.mpr ⟨hnodup.2,hnewNodup,fun a ha b hb hab => ?_⟩
        obtain ⟨⟨e,he⟩,_⟩ := hqueued a (hold a ha)
        rw [hab,hunplaced b hb] at he
        cases he
      have hqueued₁ : ∀ k∈s₁.queue, (∃ e, s₁.depth k=some e) ∧
          ∃ r, roots r ∧ p₁.rootOf.get k = some r := by
        intro k hk
        rw [hnewQueue] at hk
        obtain hk | hk := mem_append.mp hk
        · obtain ⟨⟨e,he⟩,r,hr,hkr⟩ := hqueued k (hold k hk)
          exact ⟨⟨e,hkeeps'.level k e he⟩,r,hr,(hkeeps'.root k e he).trans hkr⟩
        · exact ⟨⟨d+1,hplaced k hk⟩,hkeeps'.fresh k (d+1) (hunplaced k hk) (hplaced k hk)⟩
      obtain ⟨p₂,hdrain,hgrown₂,hkeeps₂⟩ := ih hrun hgrown hqueue₁ hnodup₁ hqueued₁
      refine ⟨p₂,?_,hgrown₂,hkeeps'.trans hkeeps₂ fun k hk => ?_⟩
      · simp only [drain,hroot,getD_some,hvisit,bind_some,hdrain]
      · rw [hnewQueue] at hk
        obtain hk | hk := mem_append.mp hk
        · exact .inl (hold k hk)
        · exact .inr (hunplaced k hk)

theorem addStarts_spec (hinj : Keyed nodes) (roots : K → Prop)
    (starts : List (LockNode K)) (hstarts : ∀ n∈starts, n∈nodes ∧ roots n.pid)
    (h : Grown nodes p s.depth (lookedAt waiters s) tops)
    (hqueue : queue.map pid=s.queue) :
    ∃ p' entries, starts.foldl (fun st node => if (st.1.placed.get node.pid).isSome then st
        else (st.1.start node,st.2++[node])) (p,queue) = (p',queue++entries) ∧
            (∀ n∈entries, n∈starts) ∧
      Grown nodes p' ((starts.map pid).foldl (Search.meet 0) s).depth
        (lookedAt waiters ((starts.map pid).foldl (Search.meet 0) s)) (tops++entries) ∧
      (queue++entries).map pid = ((starts.map pid).foldl (Search.meet 0) s).queue ∧
      Keeps (fun _ => False) roots p s.depth p' ((starts.map pid).foldl (Search.meet 0) s).depth := by
  induction starts generalizing p s tops queue with
  | nil =>
    exact ⟨p,[],by simp,by simp,by simpa using h,by simpa using hqueue,Keeps.same _ rfl fun _ _ => rfl⟩
  | cons node starts ih =>
    have hrest : ∀ n∈starts, n∈nodes ∧ roots n.pid := fun n hn => hstarts n (by simp [hn])
    rw [foldl_cons,map_cons,foldl_cons]
    cases hd : s.depth node.pid with
    | some d =>
      have hplaced : (p.placed.get node.pid).isSome = true := by rw [h.placed,hd]; rfl
      have hmeet : s.meet 0 node.pid = s := by simp [Search.meet,hd]
      obtain ⟨p',entries,hfold,hmem,hrest⟩ := ih hrest h hqueue
      rw [hmeet]
      exact ⟨p',entries,by simpa [hplaced] using hfold,fun n hn => by simp [hmem n hn],hrest⟩
    | none =>
      have hplaced : (p.placed.get node.pid).isSome = false := by rw [h.placed,hd]; rfl
      have hmeet : s.meet 0 node.pid = ⟨Function.update s.depth node.pid (some 0),s.queue++[node.pid]⟩ := by
        simp [Search.meet,hd]
      have hlooked : lookedAt waiters s = lookedAt waiters (s.meet 0 node.pid) := by
        funext k
        rw [hmeet,lookedAt,lookedAt]
        by_cases hk : k=node.pid
        · simp [hk,hd]
        · simp [hk]
      have hkeeps : Keeps (fun _ => False) roots p s.depth (p.start node) (s.meet 0 node.pid).depth := by
        rw [hmeet]
        refine Keeps.enter hd (hstarts node (by simp)).2 (fun _ => rfl) fun k hk _ => ?_
        rw [Placement.kids,Placement.start,FinMap.get_set_of_ne _ _ hk,Placement.kids]
      have hgrown : Grown nodes (p.start node) (s.meet 0 node.pid).depth (lookedAt waiters (s.meet 0 node.pid))
          (tops++[node]) := by
        rw [← hlooked,hmeet]
        exact h.start hinj (hstarts node (by simp)).1 hd
      have hqueued : (queue++[node]).map pid = (s.meet 0 node.pid).queue := by simp [hmeet,hqueue]
      obtain ⟨p',entries,hfold,hmem,hgrown',hqueue',hkeeps'⟩ := ih hrest hgrown hqueued
      refine ⟨p',node::entries,?_,?_,?_,?_,hkeeps.trans hkeeps' fun k hk => .inl hk⟩
      · simpa [hplaced] using hfold
      · intro n hn
        obtain rfl | hn := mem_cons.mp hn
        · exact mem_cons_self
        · exact mem_cons_of_mem _ (hmem n hn)
      · simpa using hgrown'
      · simpa using hqueue'

/-- A call of place is the search from its starts, run to its end. -/
theorem place_spec (hpids : pids.Plain) (hw : Waits nodes waiters)
    (hinj : Keyed nodes) (starts : List (LockNode K))
    (hstarts : ∀ n∈starts, n∈nodes) (hs : s.queue=[])
    (h : Grown nodes p s.depth (lookedAt waiters s) tops) : ∃ p' entries t,
      place pids waiters nodes.length starts p = some (p',entries) ∧ (∀ n∈entries, n∈starts) ∧
      entries.map pid = ((starts.map pid).foldl (Search.meet 0) s).queue ∧
      Search.run (blocked waiters) nodes.length ((starts.map pid).foldl (Search.meet 0) s) = some t ∧
      t.queue = [] ∧ Grown nodes p' t.depth (lookedAt waiters t) (tops++entries) ∧
      Keeps (fun _ => False) (· ∈ starts.map pid) p s.depth p' t.depth := by
  have hempty : ([] : List (LockNode K)).map pid = s.queue := hs.symm
  obtain ⟨p₁,entries,hfold,hentries,hgrown,hqueue,hkeeps⟩ :=
      addStarts_spec hinj (· ∈ starts.map pid) starts
    (fun n hn => ⟨hstarts n hn,List.mem_map_of_mem hn⟩) h hempty
  rw [nil_append] at hfold hqueue
  obtain ⟨new,hnewQueue,hnodup,hnew,hdepth⟩ := Search.foldl_meet 0 (starts.map pid) s
  rw [hs,nil_append] at hnewQueue
  generalize (starts.map pid).foldl (Search.meet 0) s = s₁ at hgrown hqueue hkeeps hnewQueue hdepth
  have hplaced : ∀ k∈s₁.queue, s.depth k = none ∧ s₁.depth k = some 0 := by
    intro k hk
    rw [hnewQueue] at hk
    rw [hdepth,if_pos hk]
    exact ⟨((hnew k).mp hk).2,rfl⟩
  have hwithin : Search.Within (blocked waiters) (nodes.map pid).toFinset s₁ := by
    constructor
    · intro x _ y hy
      obtain ⟨w,hwait,rfl⟩ := List.mem_map.mp hy
      exact List.mem_toFinset.mpr (List.mem_map_of_mem ((hw.mem x w).mp hwait).1)
    · intro x hx
      rw [← hqueue] at hx
      obtain ⟨n,hn,rfl⟩ := List.mem_map.mp hx
      exact List.mem_toFinset.mpr (List.mem_map_of_mem (hstarts n (hentries n hn)))
  have hpotential : Search.potential (nodes.map pid).toFinset s₁ ≤ nodes.length := by
    refine (Search.potential_le (by rw [hnewQueue]; exact hnodup) fun x hx =>
      ⟨hwithin.queue x hx,0,(hplaced x hx).2⟩).trans ?_
    exact (toFinset_card_le _).trans (length_map ..).le
  obtain ⟨t,hrun,ht⟩ := Search.run_of_potential hwithin hpotential
  obtain ⟨p',hdrain,hgrown',hkeeps'⟩ := drain_spec hpids hw hinj (le_refl nodes.length) hrun hgrown hqueue
    (by rw [hnewQueue]; exact hnodup)
    fun k hk => ⟨⟨0,(hplaced k hk).2⟩,hkeeps.fresh k 0 (hplaced k hk).1 (hplaced k hk).2⟩
  refine ⟨p',entries,t,?_,hentries,hqueue,hrun,ht,hgrown',hkeeps.trans hkeeps' fun k hk => .inr (hplaced k hk).1⟩
  simp only [place,addStarts,hfold,hdrain,map_some]

end Place

def Child.followed : Child K → Bool
  | .cycle _ => false
  | .tree _ | .reference _ => true

def Apart (p : Placement K) (r : K) : Prop :=
  ∃ S : K → Prop, S r ∧ ∀ k, S k → (p.placed.get k).isSome = true ∧
    ∀ c ∈ p.kids k, c.followed=true → S c.node.pid ∧ c.node.pid≠r

/-- A placement between two calls of place. -/
structure Settled (nodes : List (LockNode K)) (waiters : K → List (LockNode K)) (p : Placement K)
    (tops : List (LockNode K)) (s : Search K) : Prop where
  queue : s.queue=[]
  grown : Grown nodes p s.depth (lookedAt waiters s) tops
  apart : ∀ r∈tops, Apart p r.pid

variable {nodes : List (LockNode K)}

lemma Grown.child {waiters : K → List (LockNode K)} {p : Placement K} {s : Search K}
    {tops : List (LockNode K)} (h : Grown nodes p s.depth (lookedAt waiters s) tops) {k : K}
    {c : Child K} (hc : c ∈ p.kids k) : c.node ∈ waiters k ∧ ∃ d, s.depth c.node.pid = some d := by
  have hlooked : c.node ∈ lookedAt waiters s k := (h.listed k).subset (List.mem_map_of_mem hc)
  refine ⟨?_,h.shown k c.node hlooked⟩
  rw [lookedAt] at hlooked
  split_ifs at hlooked
  · exact hlooked
  · cases hlooked

namespace Settled
variable {nodes tops entries starts : List (LockNode K)} {waiters : K → List (LockNode K)}
  {p p' : Placement K} {s t : Search K} {pids : Pids K}

lemma empty (nodes : List (LockNode K)) (waiters : K → List (LockNode K)) :
    Settled nodes waiters .empty [] ⟨fun _ => none,[]⟩ := by
  refine ⟨rfl,⟨?_,?_⟩,by simp⟩
  · constructor <;> simp [Placement.empty]
  · constructor <;> simp [Placement.empty,Placement.kids,lookedAt]

variable (h : Settled nodes waiters p tops s)
include h

lemma keep {roots : K → Prop}
    (hkeeps : Keeps (fun _ => False) roots p s.depth p' t.depth)
    (hplaced : ∀ k, (p'.placed.get k).isSome=(t.depth k).isSome) {r : LockNode K} (hr : r∈tops) :
    Apart p' r.pid := by
  obtain ⟨S,hSr,hS⟩ := h.apart r hr
  refine ⟨S,hSr,fun k hk => ?_⟩
  obtain ⟨d,hd⟩ := isSome_iff_exists.mp ((h.grown.placed k).symm.trans (hS k hk).1)
  rw [hplaced,hkeeps.level k d hd,hkeeps.kids k d hd id]
  exact ⟨rfl,(hS k hk).2⟩

lemma apart_start (hw : Waits nodes waiters)
    (hinj : Keyed nodes)
    (hgrown : Grown nodes p' t.depth (lookedAt waiters t) entries)
    (hkeeps : Keeps (fun _ => False) (· ∈ starts.map pid) p s.depth p' t.depth)
    {r : LockNode K} (hr : r∈entries) (hnew : s.depth r.pid=none)
    (hfree : (∀ k, r ∉ waiters k) ∨ ∀ n∈starts, n=r) : Apart p' r.pid := by
  obtain ⟨hnode,hzero,hroot⟩ := hgrown.top r hr
  refine ⟨fun k => ∃ d, t.depth k=some d,⟨0,hzero⟩,fun k ⟨d,hd⟩ =>
      ⟨by rw [hgrown.placed,hd]; rfl,fun c hc hf => ?_⟩⟩
  obtain ⟨hwait,hplaced⟩ := hgrown.child hc
  refine ⟨hplaced,fun heq => ?_⟩
  cases hsk : s.depth k with
  | some e =>
    rw [hkeeps.kids k e hsk id] at hc
    obtain ⟨_,f,hf⟩ := h.grown.child hc
    rw [heq,hnew] at hf
    cases hf
  | none =>
    obtain hfree | hone := hfree
    · have hsame : c.node=r := hinj c.node ((hw.mem k c.node).mp hwait).1 r hnode heq
      exact hfree k (hsame ▸ hwait)
    · obtain ⟨q,hq,hkq⟩ := hkeeps.fresh k d hsk hd
      obtain ⟨n,hn,rfl⟩ := List.mem_map.mp hq
      rw [hone n hn] at hkq
      cases c with
      | cycle n => cases hf
      | tree n =>
        obtain ⟨f,_,hdeep⟩ := hgrown.parent n.pid k ((hgrown.trees k n).mp hc).2
        rw [show n.pid=r.pid from heq,hzero] at hdeep
        cases hdeep
      | reference n =>
        refine hgrown.refs k n hc ?_
        rw [show n.pid=r.pid from heq,hroot,hkq]

lemma place (hpids : pids.Plain) (hw : Waits nodes waiters)
    (hinj : Keyed nodes) (starts : List (LockNode K))
    (hstarts : ∀ n∈starts, n∈nodes) (hfree : ∀ n∈starts, (∀ k, n ∉ waiters k) ∨ ∀ n'∈starts, n'=n) :
    ∃ p' entries t,
      Locks.place pids waiters nodes.length starts p = some (p',entries) ∧
          Settled nodes waiters p' (tops++entries) t ∧
      Search.run (blocked waiters) nodes.length ((starts.map pid).foldl (Search.meet 0) s) = some t ∧
      (∀ k d, s.depth k=some d → t.depth k=some d) ∧
        ∀ n∈starts, s.depth n.pid = none → n∈entries := by
  obtain ⟨p',entries,t,hplace,hentries,hqueue,hrun,ht,hgrown,hkeeps⟩ :=
    place_spec hpids hw hinj starts hstarts h.queue h.grown
  obtain ⟨new,hnewQueue,_,hnew,_⟩ := Search.foldl_meet 0 (starts.map pid) s
  rw [← hqueue,h.queue,nil_append] at hnewQueue
  have hunplaced : ∀ e∈entries, s.depth e.pid = none := by
    intro e he
    exact ((hnew e.pid).mp (hnewQueue ▸ List.mem_map_of_mem he)).2
  refine ⟨p',entries,t,hplace,⟨ht,hgrown,fun r hr => ?_⟩,hrun,hkeeps.level,fun n hn hnone => ?_⟩
  · obtain hr | hr := mem_append.mp hr
    · exact h.keep hkeeps hgrown.placed hr
    · exact h.apart_start hw hinj hgrown hkeeps (mem_append_right _ hr) (hunplaced r hr) (hfree r (hentries r hr))
  · have hpid : n.pid ∈ entries.map pid := by
      rw [hnewQueue]
      exact (hnew n.pid).mpr ⟨List.mem_map_of_mem hn,hnone⟩
    obtain ⟨e,he,heq⟩ := List.mem_map.mp hpid
    rwa [hinj n (hstarts n hn) e (hstarts e (hentries e he)) heq.symm]

theorem placeCycles (hpids : pids.Plain)
    (hw : Waits nodes waiters) (hinj : Keyed nodes)
    (unplaced : List (LockNode K)) (hunplaced : ∀ n∈unplaced, n∈nodes) : ∃ p' tops' t,
      Locks.placeCycles pids waiters nodes.length unplaced (p,tops) = some (p',tops') ∧
          Settled nodes waiters p' tops' t ∧
      (∀ k d, s.depth k=some d → t.depth k=some d) ∧ (∀ n∈unplaced, ∃ d, t.depth n.pid=some d) ∧
      ∀ n∈tops, n∈tops' := by
  induction unplaced generalizing p tops s with
  | nil => exact ⟨p,tops,s,rfl,h,fun _ _ hd => hd,by simp,fun _ hn => hn⟩
  | cons node unplaced ih =>
    have hrest : ∀ n∈unplaced, n∈nodes := fun n hn => hunplaced n (by simp [hn])
    -- what one round leaves is settled, keeps the depths and has the session placed
    have hround : ∃ p₁ tops₁ s₁, (if (p.placed.get node.pid).isSome then some (p,tops)
        else (Locks.place pids waiters nodes.length [node] p).map fun r => (r.1,tops++r.2)) = some (p₁,tops₁) ∧
        Settled nodes waiters p₁ tops₁ s₁ ∧ (∀ k d, s.depth k=some d → s₁.depth k=some d) ∧
        (∃ d, s₁.depth node.pid=some d) ∧ ∀ n∈tops, n∈tops₁ := by
      cases hd : s.depth node.pid with
      | some d =>
        have hplaced : (p.placed.get node.pid).isSome = true := by rw [h.grown.placed,hd]; rfl
        exact ⟨p,tops,s,by rw [if_pos hplaced],h,fun _ _ he => he,⟨d,hd⟩,fun _ hn => hn⟩
      | none =>
        have hplaced : ¬(p.placed.get node.pid).isSome = true := by rw [h.grown.placed,hd]; simp
        obtain ⟨p₁,entries,s₁,hplace,hsettled,_,hlevel,hentries⟩ := h.place hpids hw hinj [node]
          (fun n hn => hunplaced n (by simp [mem_singleton.mp hn]))
          (fun n hn => .inr fun n' hn' => (mem_singleton.mp hn').trans (mem_singleton.mp hn).symm)
        refine ⟨p₁,tops++entries,s₁,by rw [if_neg hplaced,hplace]; rfl,hsettled,hlevel,⟨0,?_⟩,
          fun n hn => mem_append_left _ hn⟩
        exact (hsettled.grown.top node (mem_append_right _ (hentries node (by simp) hd))).2.1
    obtain ⟨p₁,tops₁,s₁,hround,hsettled,hlevel,⟨d,hd⟩,htops⟩ := hround
    obtain ⟨p₂,tops₂,t,hfold,hsettled₂,hlevel₂,hplaced₂,htops₂⟩ := ih hsettled hrest
    refine ⟨p₂,tops₂,t,?_,hsettled₂,fun k e he => hlevel₂ k e (hlevel k e he),fun n hn => ?_,
      fun n hn => htops₂ n (htops n hn)⟩
    · rw [Locks.placeCycles,foldlM_cons,hround]
      exact hfold
    · obtain rfl | hn := mem_cons.mp hn
      · exact ⟨d,hlevel₂ _ d hd⟩
      · exact hplaced₂ n hn

end Settled

structure Built (nodes : List (LockNode K)) (waiters : K → List (LockNode K)) (p : Placement K)
    (depth : K → Option ℕ) (tops : List (LockNode K)) : Prop where
  grown : Grown nodes p depth waiters tops
  all : ∀ n∈nodes, ∃ d, depth n.pid = some d
  unblocked : ∀ n∈nodes, hasKnownBlocker nodes n = false → n∈tops
  distance : ∀ k d, Distance (fun x y => y ∈ blocked waiters x)
    (fun x => ∃ n∈nodes, hasKnownBlocker nodes n=false ∧ n.pid=x) d k → depth k = some d
  apart : ∀ r∈tops, Apart p r.pid

omit [DecidableEq K] in
lemma pid_inj (hdistinct : (nodes.map pid).Nodup) :
    Keyed nodes :=
  fun _ ha _ hb => inj_on_of_nodup_map hdistinct ha hb

lemma buildPlacement_spec (sorter : SliceSort (LockNode K)) {pids : Pids K} (hpids : pids.Plain)
    (hdistinct : (nodes.map pid).Nodup) : ∃ p depth tops,
      buildPlacement sorter pids nodes = some (p,tops) ∧ Built nodes (waitersOf sorter pids nodes) p depth tops := by
  have hw := waits_waitersOf sorter pids hdistinct
  have hinj := pid_inj hdistinct
  generalize hwaiters : waitersOf sorter pids nodes = waiters at hw
  set unblocked := sorter.sort (compareByPID pids) (nodes.filter fun node => !hasKnownBlocker nodes node)
    with hunblocked
  have hmem : ∀ n, n∈unblocked ↔ n∈nodes ∧ hasKnownBlocker nodes n = false := by
    intro n
    rw [hunblocked,sorter.mem_sort,mem_filter]
    simp
  have hfree : ∀ n∈unblocked, ∀ k, n ∉ waiters k := by
    intro n hn k hwait
    obtain ⟨_,hk,hknown⟩ := (hw.mem k n).mp hwait
    have hany : hasKnownBlocker nodes n = true := List.any_eq_true.mpr ⟨k,hk,hknown⟩
    rw [((hmem n).mp hn).2] at hany
    cases hany
  obtain ⟨p₁,entries,s₁,hplace,hsettled,hrun,_,hentries⟩ := (Settled.empty nodes waiters).place hpids hw hinj
    unblocked (fun n hn => ((hmem n).mp hn).1) fun n hn => .inl (hfree n hn)
  obtain ⟨p,tops,t,hcycles,hsettled',hlevel,hplaced,htops⟩ := hsettled.placeCycles hpids hw hinj
    (sorter.sort (compareByPID pids) (nodes.filter fun node => !(p₁.placed.get node.pid).isSome))
    fun n hn => (mem_filter.mp ((sorter.mem_sort _ _).mp hn)).1
  refine ⟨p,t.depth,tops,?_,?_⟩
  · simp only [buildPlacement,hwaiters,← hunblocked,hplace,bind_some]
    exact hcycles
  have hall : ∀ n∈nodes, ∃ d, t.depth n.pid = some d := by
    intro n hn
    cases hd : s₁.depth n.pid with
    | some d => exact ⟨d,hlevel _ d hd⟩
    | none =>
      refine hplaced n ((sorter.mem_sort _ _).mpr (mem_filter.mpr ⟨hn,?_⟩))
      rw [hsettled.grown.placed,hd]
      rfl
  constructor
  case grown =>
    have hlooked := lookedAt_done hw hsettled'.queue hall
    exact hlooked ▸ hsettled'.grown
  case all => exact hall
  case unblocked => exact fun n hn hfree => htops n (hentries n ((hmem n).mpr ⟨hn,hfree⟩) rfl)
  case distance =>
    intro k d hdist
    have hstart : (fun x => ∃ n∈nodes, hasKnownBlocker nodes n=false ∧ n.pid=x) =
        (· ∈ unblocked.map pid) := by
      funext x
      simp [hmem,and_assoc]
    rw [hstart] at hdist
    exact hlevel k d ((Search.distance_of_run hrun hsettled.queue).mpr hdist)
  case apart => exact hsettled'.apart

end Pglens.Locks

import Pglens.Locks.Forest
import Mathlib.Data.List.Nodup

/-! The forest is read back from the entries: the top entries are its first level, and the next
level has the sessions that the entries of a level expand. A session is found once, at the depth of
the search. -/
namespace Pglens.Locks
open Pglens.Lib List Text

variable {K : Type} [DecidableEq K]

/-- The session of a child that is neither a cycle marker nor a reference. -/
def Child.expanded : Child K → Option (LockNode K)
  | .tree node => some node
  | .cycle _ | .reference _ => none

def Forest.children (f : Forest K) (key : K) : List (Child K) := (f.entries.get key).getD []

/-- The sessions of the entries that are so many steps below the top, in their order. -/
def Forest.level (f : Forest K) : ℕ → List (LockNode K)
  | 0 => f.roots
  | d+1 => (f.level d).flatMap fun node => (f.children node.pid).filterMap Child.expanded

/-- The sessions with these pids are in the list and the first blocks the second. -/
def Blocks (nodes : List (LockNode K)) (blocker waiter : K) : Prop :=
  blocker ∈ nodes.map LockNode.pid ∧ ∃ w∈nodes, w.pid=waiter ∧ blocker∈w.blockedBy

def Unblocked (nodes : List (LockNode K)) (pid : K) : Prop :=
  ∃ n∈nodes, n.pid=pid ∧ ∀ b∈n.blockedBy, b ∉ nodes.map LockNode.pid

variable {nodes : List (LockNode K)}

lemma known_eq_true {key : K} : known nodes key = true ↔ key ∈ nodes.map LockNode.pid := by
  rw [known_iff,mem_map]

lemma hasKnownBlocker_eq_false {n : LockNode K} :
    hasKnownBlocker nodes n = false ↔ ∀ b∈n.blockedBy, b ∉ nodes.map LockNode.pid := by
  rw [hasKnownBlocker,any_eq_false]
  simp only [known_eq_true]

lemma mem_blocked {waiters : K → List (LockNode K)} (hw : Waits nodes waiters) {x y : K} :
    y ∈ blocked waiters x ↔ Blocks nodes x y := by
  rw [blocked,mem_map,Blocks]
  constructor
  · rintro ⟨w,hwait,rfl⟩
    obtain ⟨hmem,hx,hknown⟩ := (hw.mem x w).mp hwait
    exact ⟨known_eq_true.mp hknown,w,hmem,rfl,hx⟩
  · rintro ⟨hknown,w,hmem,rfl,hx⟩
    exact ⟨w,(hw.mem x w).mpr ⟨hmem,hx,known_eq_true.mpr hknown⟩,rfl⟩

section Levels
variable {nodes tops : List (LockNode K)} {waiters : K → List (LockNode K)} {p : Placement K}
  {depth : K → Option ℕ}

variable (h : Built nodes waiters p depth tops)
include h

lemma mem_expanded {k : K} {n : LockNode K} :
    n ∈ ((Forest.mk p.placed tops).children k).filterMap Child.expanded ↔
      n ∈ nodes ∧ p.parentOf.get n.pid = some k := by
  rw [← h.grown.trees k n,mem_filterMap]
  constructor
  · rintro ⟨c,hc,hn⟩
    cases c with
    | tree m =>
      obtain rfl : m=n := Option.some.inj hn
      exact hc
    | cycle m => cases hn
    | reference m => cases hn
  · exact fun hc => ⟨.tree n,hc,rfl⟩

lemma mem_level
    (hinj : Keyed nodes) (d : ℕ) (n : LockNode K) :
    n ∈ (Forest.mk p.placed tops).level d ↔ n∈nodes ∧ depth n.pid = some d := by
  have horphan : ∀ m∈nodes, p.parentOf.get m.pid = none → m∈tops := by
    intro m hm hnone
    obtain ⟨e,he⟩ := h.all m hm
    obtain ⟨r,hr,hpid⟩ := mem_map.mp (h.grown.orphan m.pid e he hnone)
    rwa [hinj m hm r (h.grown.top r hr).1 hpid.symm]
  induction d generalizing n with
  | zero =>
    constructor
    · exact fun hn => ⟨(h.grown.top n hn).1,(h.grown.top n hn).2.1⟩
    · rintro ⟨hn,hd⟩
      refine horphan n hn ?_
      cases hp : p.parentOf.get n.pid with
      | none => rfl
      | some k =>
        obtain ⟨e,_,he⟩ := h.grown.parent n.pid k hp
        rw [hd] at he
        cases he
  | succ d ih =>
    rw [Forest.level,mem_flatMap]
    constructor
    · rintro ⟨m,hm,hn⟩
      obtain ⟨hn,hparent⟩ := (mem_expanded h).mp hn
      obtain ⟨e,he,hdeep⟩ := h.grown.parent n.pid m.pid hparent
      rw [((ih m).mp hm).2] at he
      cases he
      exact ⟨hn,hdeep⟩
    · rintro ⟨hn,hd⟩
      cases hp : p.parentOf.get n.pid with
      | none =>
        rw [(h.grown.top n (horphan n hn hp)).2.1] at hd
        cases hd
      | some k =>
        obtain ⟨e,he,hdeep⟩ := h.grown.parent n.pid k hp
        rw [hd] at hdeep
        cases hdeep
        obtain ⟨m,hm,rfl⟩ := h.grown.session k d he
        exact ⟨m,(ih m).mpr ⟨hm,he⟩,(mem_expanded h).mpr ⟨hn,hp⟩⟩

lemma nodup_children (hw : Waits nodes waiters) (k : K) :
    (((Forest.mk p.placed tops).children k).map fun c => c.node.pid).Nodup := by
  have hsub := (h.grown.listed k).map LockNode.pid
  rw [map_map] at hsub
  exact (hw.nodup k).sublist hsub

lemma nodup_level (hw : Waits nodes waiters)
    (hinj : Keyed nodes) (d : ℕ) :
    ((Forest.mk p.placed tops).level d).Nodup := by
  induction d with
  | zero => exact h.grown.nodup.of_map
  | succ d ih =>
    rw [Forest.level,nodup_flatMap]
    constructor
    · intro m _
      refine (nodup_children h hw m.pid).of_map.filterMap ?_
      intro c c' n hc hc'
      cases c <;> cases c' <;> simp_all [Child.expanded]
    · refine ih.imp_of_mem fun {m m'} hm hm' hne n hn hn' => hne ?_
      have hparent := ((mem_expanded h).mp hn).2
      rw [((mem_expanded h).mp hn').2] at hparent
      exact hinj m ((mem_level h hinj d m).mp hm).1 m' ((mem_level h hinj d m').mp hm').1 (Option.some.inj hparent).symm

lemma levels_perm (hw : Waits nodes waiters)
    (hdistinct : (nodes.map LockNode.pid).Nodup) :
    ((List.range nodes.length).flatMap (Forest.mk p.placed tops).level).Perm nodes := by
  have hinj := pid_inj hdistinct
  refine (perm_ext_iff_of_nodup ?_ hdistinct.of_map).mpr fun n => ?_
  · rw [nodup_flatMap]
    refine ⟨fun d _ => nodup_level h hw hinj d,nodup_range.imp fun {d e} hne n hn hn' => hne ?_⟩
    have hd := ((mem_level h hinj d n).mp hn).2
    rw [((mem_level h hinj e n).mp hn').2] at hd
    exact (Option.some.inj hd).symm
  · rw [mem_flatMap]
    constructor
    · rintro ⟨d,_,hn⟩
      exact ((mem_level h hinj d n).mp hn).1
    · intro hn
      obtain ⟨d,hd⟩ := h.all n hn
      exact ⟨d,mem_range.mpr ((h.grown.small n.pid d hd).trans_le h.grown.card_le),
        (mem_level h hinj d n).mpr ⟨hn,hd⟩⟩

end Levels

lemma buildBlockingTree_perm (sorter : SliceSort (LockNode K)) {pids : Pids K}
    {nodes' : List (LockNode K)} (horder : StrictTotalOn (compareByPID pids) nodes)
    (hperm : nodes.Perm nodes') :
    buildBlockingTree sorter pids nodes' = buildBlockingTree sorter pids nodes := by
  have hsort : ∀ q : LockNode K → Bool, sorter.sort (compareByPID pids) (nodes'.filter q) =
      sorter.sort (compareByPID pids) (nodes.filter q) := by
    intro q
    refine (SliceSort.sort_eq_of_perm sorter ?_ (hperm.filter q)).symm
    exact horder.congr (filter_subset_self _) fun _ _ _ _ => rfl
  have hknown : known nodes' = known nodes := by
    funext key
    rw [Bool.eq_iff_iff,known_eq_true,known_eq_true,(hperm.map LockNode.pid).mem_iff]
  have hblocker : hasKnownBlocker nodes' = hasKnownBlocker nodes := by
    funext n
    rw [hasKnownBlocker,hknown,hasKnownBlocker]
  have hwaiters : waitersOf sorter pids nodes' = waitersOf sorter pids nodes := by
    funext key
    rw [waitersOf_eq,waitersOf_eq,hknown,hsort]
  simp only [buildBlockingTree,buildPlacement,hwaiters,hblocker,hsort,hperm.length_eq]

def integers (localeCompare : Text → Text → Ordering) : Pids ℤ := ⟨decimal,localeCompare⟩

lemma plain_integers (localeCompare : Text → Text → Ordering) : (integers localeCompare).Plain := by
  refine ⟨decimal_injective,fun n hn => ?_⟩
  obtain hsign | hdigit := mem_decimal hn
  · exact absurd hsign (by decide)
  · exact absurd hdigit.2 (by decide)

/-- The forest of sessions whose pids are different integers: the sessions at its entries are those
of the list, the children of an entry wait for its session and are different, and the sessions
without a known blocker are at the top, those they lead to at their distance from them. -/
theorem forest_shows_sessions (sorter : SliceSort (LockNode ℤ)) (localeCompare : Text → Text → Ordering)
    (nodes : List (LockNode ℤ)) (hnumeric : ∀ a ∈ nodes.map LockNode.pid, ∀ b ∈ nodes.map LockNode.pid,
      localeCompare (decimal a) (decimal b)=compare a b)
    (hdistinct : (nodes.map LockNode.pid).Nodup) : ∃ forest,
      buildBlockingTree sorter (integers localeCompare) nodes = some forest ∧
      ((List.range nodes.length).flatMap forest.level).Perm nodes ∧
          (∀ d, nodes.length≤d → forest.level d=[]) ∧
      (∀ d, ∀ m ∈ forest.level d, ∀ c ∈ forest.children m.pid, c.node∈nodes ∧
          m.pid ∈ c.node.blockedBy) ∧
      (∀ n∈nodes, (∀ b∈n.blockedBy, b ∉ nodes.map LockNode.pid) → n∈forest.roots) ∧
      (∀ k, ((forest.children k).map fun c => c.node.pid).Nodup) ∧
      (∀ n∈nodes, ∀ d, Distance (Blocks nodes) (Unblocked nodes) d n.pid → n ∈ forest.level d) ∧
      ∀ nodes', nodes.Perm nodes' → buildBlockingTree sorter (integers localeCompare) nodes' = some forest := by
  have hw := waits_waitersOf sorter (integers localeCompare) hdistinct
  have hinj := pid_inj hdistinct
  obtain ⟨p,depth,tops,hbuild,h⟩ := buildPlacement_spec sorter (plain_integers localeCompare) hdistinct
  have hforest : buildBlockingTree sorter (integers localeCompare) nodes = some ⟨p.placed,tops⟩ := by
    rw [buildBlockingTree,hbuild]
    rfl
  have horder : StrictTotalOn (compareByPID (integers localeCompare)) nodes := by
    refine (strictTotal_ascending.comap_on LockNode.pid hinj).congr (List.Subset.refl _) fun a ha b hb => ?_
    rw [Bool.eq_iff_iff,compareByPID,beq_iff_eq,ascending,decide_eq_true_iff,← compare_lt_iff_lt,
      ← hnumeric a.pid (mem_map_of_mem ha) b.pid (mem_map_of_mem hb)]
    rfl
  refine ⟨⟨p.placed,tops⟩,hforest,levels_perm h hw hdistinct,fun d hd => ?_,fun d m _ c hc => ?_,
    fun n hn hfree => ?_,
    nodup_children h hw,fun n hn d hdist => ?_,fun nodes' hperm => ?_⟩
  · refine eq_nil_iff_forall_not_mem.mpr fun n hn => ?_
    have hlt := (h.grown.small n.pid d ((mem_level h hinj d n).mp hn).2).trans_le h.grown.card_le
    omega
  · obtain ⟨hnode,hblocks,_⟩ := (hw.mem m.pid c.node).mp ((h.grown.listed m.pid).subset (mem_map_of_mem hc))
    exact ⟨hnode,hblocks⟩
  · exact h.unblocked n hn (hasKnownBlocker_eq_false.mpr hfree)
  · refine (mem_level h hinj d n).mpr ⟨hn,h.distance n.pid d ?_⟩
    have hnext : (fun x y => y ∈ blocked (waitersOf sorter (integers localeCompare) nodes) x) = Blocks nodes := by
      funext x y
      exact propext (mem_blocked hw)
    have hstart : (fun x => ∃ n∈nodes, hasKnownBlocker nodes n=false ∧ n.pid=x) = Unblocked nodes := by
      funext x
      simp only [hasKnownBlocker_eq_false,Unblocked,and_comm]
    rwa [hnext,hstart]
  · rw [buildBlockingTree_perm sorter horder hperm,hforest]

/-- A collation by length and then by bytes, which orders the texts of natural numbers. -/
def shortLex (s t : Text) : Ordering := (compare s.length t.length).then (compare s t)

/-- Three sessions that block each other in a ring and one that waits for itself and for a session not in the list. -/
theorem forest_shows_sessions_cycle : ∃ forest,
    buildBlockingTree (.insertion _) (integers shortLex) [⟨2,[1]⟩,⟨10,[2]⟩,⟨1,[10]⟩,⟨3,[3,9]⟩] =
        some forest ∧
      ((List.range 4).flatMap forest.level).Perm [(⟨2,[1]⟩ : LockNode ℤ),⟨10,[2]⟩,⟨1,[10]⟩,
          ⟨3,[3,9]⟩] := by
  have hnumeric : ∀ a ∈ [(2 : ℤ),10,1,3], ∀ b ∈ [(2 : ℤ),10,1,3],
      shortLex (decimal a) (decimal b) = compare a b := by decide +kernel
  obtain ⟨forest,hbuild,hperm,_⟩ := forest_shows_sessions (.insertion _) shortLex
    [⟨2,[1]⟩,⟨10,[2]⟩,⟨1,[10]⟩,⟨3,[3,9]⟩] hnumeric (by decide)
  exact ⟨forest,hbuild,hperm⟩

end Pglens.Locks

import Pglens.Locks.Levels
import Mathlib.Data.Set.Card

/-! blockedCount visits the children of an entry but for the cycle markers, and goes from a
reference to the entry of its session. Within the tree of its own top entry this finds every waiter.
In another tree it finds the waiters that the entry it comes to has as children, and those that the
other tree shows elsewhere are lost. -/
namespace Pglens.Locks
open Pglens.Lib Relation List

variable {K : Type} [DecidableEq K]

def Forest.follows (f : Forest K) (key : K) : List K :=
  ((f.children key).filter Child.followed).map fun c => c.node.pid

def Forest.Under (f : Forest K) : K → K → Prop :=
  ReflTransGen fun k c => ∃ n, Child.tree n ∈ f.children k ∧ n.pid=c

def Forest.Counts (f : Forest K) : K → K → Prop := TransGen fun k c => c ∈ f.follows k

/-- The other sessions that wait for a session, directly or through others. -/
def Waiting (nodes : List (LockNode K)) (pid : K) : Set K := {x | x ≠ pid ∧ ReflTransGen (Blocks nodes) pid x}

omit [DecidableEq K] in
lemma foldlM_followed {σ : Type} (g : K → σ → Option σ) (children : List (Child K)) (st : σ) :
    children.foldlM (fun st child => match child with
      | .cycle _ => some st
      | .tree node | .reference node => g node.pid st) st =
    ((children.filter Child.followed).map fun c => c.node.pid).foldlM (fun st y => g y st) st := by
  induction children generalizing st with
  | nil => rfl
  | cons c children ih =>
    cases c with
    | cycle node => exact ih st
    | tree node => exact congrArg (Option.bind (g node.pid st)) (funext ih)
    | reference node => exact congrArg (Option.bind (g node.pid st)) (funext ih)

lemma visit_eq (f : Forest K) (fuel : ℕ) (key : K) (st : Finset K × Finset K) :
    f.visit fuel key st = visit f.follows fuel key st := by
  induction fuel generalizing key st with
  | zero => rfl
  | succ fuel ih =>
    rw [Forest.visit,visit]
    split_ifs
    · rfl
    · simp only [ih]
      exact foldlM_followed (fun y st => visit f.follows fuel y (st.1,insert y st.2)) (f.children key) _

section Count
variable {nodes tops : List (LockNode K)} {waiters : K → List (LockNode K)} {p : Placement K}
  {depth : K → Option ℕ} {f : Forest K} {k x : K} {r : LockNode K}

omit [DecidableEq K] in
lemma mem_follows : x ∈ f.follows k ↔ ∃ c ∈ f.children k, c.followed=true ∧ c.node.pid=x := by
  simp [Forest.follows,and_assoc]

lemma follows_spec (h : Built nodes waiters p depth tops) (hw : Waits nodes waiters)
    (hx : x ∈ (Forest.mk p.placed tops).follows k) : Blocks nodes k x ∧ ∃ d, depth x = some d := by
  obtain ⟨c,hc,_,rfl⟩ := mem_follows.mp hx
  have hwait : c.node ∈ waiters k := (h.grown.listed k).subset (mem_map_of_mem hc)
  exact ⟨(mem_blocked hw).mp (mem_map_of_mem hwait),h.grown.shown k c.node hwait⟩

lemma under_iff (h : Built nodes waiters p depth tops) (hr : r∈tops) {d : ℕ} (hd : depth k=some d) :
    (Forest.mk p.placed tops).Under r.pid k ↔ p.rootOf.get k = some r.pid := by
  constructor
  · intro hunder
    clear hd
    induction hunder with
    | refl => exact (h.grown.top r hr).2.2
    | tail _ hchild ih =>
      obtain ⟨n,hn,rfl⟩ := hchild
      rw [h.grown.rootParent n.pid _ ((h.grown.trees _ n).mp hn).2,ih]
  · intro hroot
    -- up the parents, whose depths decrease to the top entry
    induction d generalizing k with
    | zero =>
      have hnone : p.parentOf.get k = none := by
        cases hp : p.parentOf.get k with
        | none => rfl
        | some q =>
          obtain ⟨e,_,he⟩ := h.grown.parent k q hp
          rw [hd] at he
          cases he
      obtain ⟨t,ht,rfl⟩ := mem_map.mp (h.grown.orphan k 0 hd hnone)
      rw [(h.grown.top t ht).2.2] at hroot
      rw [Option.some.inj hroot]
      exact .refl
    | succ d ih =>
      cases hp : p.parentOf.get k with
      | none =>
        obtain ⟨t,ht,rfl⟩ := mem_map.mp (h.grown.orphan k _ hd hp)
        rw [(h.grown.top t ht).2.1] at hd
        cases hd
      | some q =>
        obtain ⟨e,he,hdeep⟩ := h.grown.parent k q hp
        rw [hd] at hdeep
        cases hdeep
        obtain ⟨n,hn,rfl⟩ := h.grown.session k _ hd
        have hup := ih he ((h.grown.rootParent n.pid q hp).symm.trans hroot)
        exact hup.tail ⟨n,(h.grown.trees q n).mpr ⟨hn,hp⟩,rfl⟩

omit [DecidableEq K] in
lemma Forest.Under.counts {r : K} (h : f.Under r k) : k=r ∨ f.Counts r k := by
  refine reflTransGen_iff_eq_or_transGen.mp (ReflTransGen.mono ?_ r k h)
  rintro k c ⟨n,hn,rfl⟩
  exact mem_follows.mpr ⟨.tree n,hn,rfl,rfl⟩

variable (h : Built nodes waiters p depth tops) (hw : Waits nodes waiters)
include h hw

lemma blockedCount_spec
    (hr : r∈tops) : ∃ counted : Finset K, blockedCount ⟨p.placed,tops⟩ [r] = some counted.card ∧
      ∀ x, x∈counted ↔ (Forest.mk p.placed tops).Counts r.pid x := by
  have hclosed : ∀ x∈p.placed.keys, ∀ y ∈ (Forest.mk p.placed tops).follows x, y∈p.placed.keys := by
    intro x _ y hy
    obtain ⟨d,hd⟩ := (follows_spec h hw hy).2
    rw [FinMap.mem_keys,h.grown.placed,hd]
    rfl
  have hplaced : r.pid∈p.placed.keys := by
    rw [FinMap.mem_keys,h.grown.placed,(h.grown.top r hr).2.1]
    rfl
  obtain ⟨st,hvisit,hmem⟩ := visit_spec hclosed (Nat.lt_succ_self _) hplaced
  refine ⟨st.2,?_,hmem⟩
  simp only [blockedCount,foldlM_cons,foldlM_nil,visit_eq]
  rw [hvisit]
  rfl

lemma counts_waiting
    (hr : r∈tops) (hx : (Forest.mk p.placed tops).Counts r.pid x) : x ∈ Waiting nodes r.pid := by
  constructor
  · obtain ⟨S,hSr,hS⟩ := h.apart r hr
    have hstep : ∀ k, S k → ∀ y ∈ (Forest.mk p.placed tops).follows k, S y ∧ y≠r.pid := by
      intro k hk y hy
      obtain ⟨c,hc,hf,rfl⟩ := mem_follows.mp hy
      exact (hS k hk).2 c hc hf
    have hboth : S x ∧ x≠r.pid := by
      induction hx with
      | single hy => exact hstep _ hSr _ hy
      | tail _ hy ih => exact hstep _ ih.1 _ hy
    exact hboth.2
  · exact ReflTransGen.mono (fun _ _ hy => (follows_spec h hw hy).1) _ _ hx.to_reflTransGen

lemma counts_of_under
    (hr : r∈tops) {w : K} (hk : (Forest.mk p.placed tops).Under r.pid k) (hkw : Blocks nodes k w) :
    w=r.pid ∨ (Forest.mk p.placed tops).Counts r.pid w := by
  obtain ⟨n,hn,rfl⟩ := mem_map.mp ((mem_blocked hw).mpr hkw)
  obtain ⟨dw,hdw⟩ := h.grown.shown k n hn
  obtain ⟨d,hd⟩ := h.grown.placed_of_handled hn
  have hroot := (under_iff h hr hd).mp hk
  obtain hsame | ⟨k',n',hk',hn',hpid⟩ := h.grown.covered k n hn
  · exact ((under_iff h hr hdw).mpr (hsame.trans hroot)).counts
  · -- a session of the tree has a reference to it
    have hwait : n' ∈ waiters k' := (h.grown.listed k').subset (mem_map_of_mem hn')
    obtain ⟨d',hd'⟩ := h.grown.placed_of_handled hwait
    have hfollows : n.pid ∈ (Forest.mk p.placed tops).follows k' := mem_follows.mpr ⟨_,hn',rfl,hpid⟩
    obtain heq | hcounts := ((under_iff h hr hd').mpr (hk'.trans hroot)).counts
    · exact .inr (.single (heq ▸ hfollows))
    · exact .inr (hcounts.tail hfollows)

lemma counts_of_waiting
    (hr : r∈tops)
    (hout : ∀ k, (Forest.mk p.placed tops).Counts r.pid k → ¬(Forest.mk p.placed tops).Under r.pid k →
      ∀ w, Blocks nodes k w → w=r.pid ∨ (Forest.mk p.placed tops).Counts r.pid w)
    (hx : x ∈ Waiting nodes r.pid) : (Forest.mk p.placed tops).Counts r.pid x := by
  refine Or.resolve_left ?_ hx.1
  have hreach := hx.2
  clear hx
  induction hreach with
  | refl => exact .inl rfl
  | @tail k w _ hkw ih =>
    by_cases hunder : (Forest.mk p.placed tops).Under r.pid k
    · exact counts_of_under h hw hr hunder hkw
    · obtain rfl | hcounts := ih
      · exact absurd .refl hunder
      · exact hout k hcounts hunder w hkw

end Count

/-- The count of a top entry is at most the number of sessions that wait for it. It is that number just
when what waits for a counted session of another tree is counted, so it is when every session of another
tree that waits for it has all its waiters as children that are not cycle markers. -/
theorem blockedCount_of_top (sorter : SliceSort (LockNode K)) {pids : Pids K} (hpids : pids.Plain)
    (nodes : List (LockNode K)) (hdistinct : (nodes.map LockNode.pid).Nodup) :
    ∃ forest, buildBlockingTree sorter pids nodes = some forest ∧
      ∀ r∈forest.roots, ∃ count, blockedCount forest [r] = some count ∧
          count ≤ (Waiting nodes r.pid).ncard ∧
        (count=(Waiting nodes r.pid).ncard ↔ ∀ k, forest.Counts r.pid k → ¬forest.Under r.pid k →
          ∀ w, Blocks nodes k w → w=r.pid ∨ forest.Counts r.pid w) ∧
        ((∀ k ∈ Waiting nodes r.pid, ¬forest.Under r.pid k → ∀ w, Blocks nodes k w →
          w=r.pid ∨ w ∈ forest.follows k) → count=(Waiting nodes r.pid).ncard) := by
  have hw := waits_waitersOf sorter pids hdistinct
  obtain ⟨p,depth,tops,hbuild,h⟩ := buildPlacement_spec sorter hpids hdistinct
  refine ⟨⟨p.placed,tops⟩,by rw [buildBlockingTree,hbuild]; rfl,fun r hr => ?_⟩
  obtain ⟨counted,hcount,hmem⟩ := blockedCount_spec h hw hr
  have hsub : (counted : Set K) ⊆ Waiting nodes r.pid := fun x hx => counts_waiting h hw hr ((hmem x).mp hx)
  have hfinite : (Waiting nodes r.pid).Finite := by
    refine (nodes.map LockNode.pid).toFinset.finite_toSet.subset fun x hx => ?_
    obtain heq | ⟨k,_,_,w,hnode,rfl,_⟩ := ReflTransGen.cases_tail hx.2
    · exact absurd heq hx.1
    · simpa using ⟨w,hnode,rfl⟩
  have hiff : counted.card = (Waiting nodes r.pid).ncard ↔ ∀ k, (Forest.mk p.placed tops).Counts r.pid k →
      ¬(Forest.mk p.placed tops).Under r.pid k → ∀ w, Blocks nodes k w →
        w = r.pid ∨ (Forest.mk p.placed tops).Counts r.pid w := by
    rw [← Set.ncard_coe_finset]
    constructor
    · intro heq k hk _ w hkw
      have hset := Set.eq_of_subset_of_ncard_le hsub heq.ge hfinite
      refine or_iff_not_imp_left.mpr fun hne => (hmem w).mp ?_
      have hwait : w ∈ Waiting nodes r.pid := ⟨hne,(counts_waiting h hw hr hk).2.tail hkw⟩
      rw [← hset] at hwait
      exact hwait
    · intro hout
      refine congrArg Set.ncard (hsub.antisymm fun x hx => ?_)
      exact (hmem x).mpr (counts_of_waiting h hw hr hout hx)
  refine ⟨counted.card,hcount,?_,hiff,fun hout => hiff.mpr fun k hk hunder w hkw => ?_⟩
  · rw [← Set.ncard_coe_finset]
    exact Set.ncard_le_ncard hsub hfinite
  · exact (hout k (counts_waiting h hw hr hk) hunder w hkw).imp id hk.tail

/-- The order of the bytes, which is that of the numbers for texts of one digit. -/
def byteOrder (s t : Text) : Ordering := compare (s.map UInt8.toNat) (t.map UInt8.toNat)

/-- Two sessions block a third one, and both count it. -/
theorem blockedCount_of_top_two : ∃ forest,
    buildBlockingTree (.insertion _) (integers byteOrder)
      [(⟨1,[]⟩ : LockNode ℤ),⟨2,[]⟩,⟨3,[1,2]⟩] = some forest ∧
      ∀ r∈forest.roots, blockedCount forest [r] =
        some (Waiting [(⟨1,[]⟩ : LockNode ℤ),⟨2,[]⟩,⟨3,[1,2]⟩] r.pid).ncard := by
  obtain ⟨forest,hbuild,hcount⟩ :=
    blockedCount_of_top (.insertion _) (plain_integers byteOrder)
      [(⟨1,[]⟩ : LockNode ℤ),⟨2,[]⟩,⟨3,[1,2]⟩] (by decide)
  refine ⟨forest,hbuild,fun r hr => ?_⟩
  obtain ⟨count,hblocked,_,_,hlocal⟩ := hcount r hr
  rw [hblocked,hlocal]
  -- only the third session waits, and nothing waits for it
  intro k hk _ w hkw
  obtain heq | ⟨_,_,_,n,hn,rfl,hb⟩ := ReflTransGen.cases_tail hk.2
  · exact absurd heq hk.1
  · obtain ⟨_,n',hn',_,hb'⟩ := hkw
    simp only [mem_cons,not_mem_nil,or_false] at hn hn'
    obtain rfl | rfl | rfl := hn <;> obtain rfl | rfl | rfl := hn' <;> simp at hb hb'

/-- The fourth session is expanded below the second one, next to the fifth that waits for it. The first
session counts the fourth by a reference and not the fifth. -/
theorem blockedCount_misses_waiter :
    let nodes : List (LockNode ℤ) := [⟨1,[]⟩,⟨2,[]⟩,⟨3,[1]⟩,⟨4,[2,3]⟩,⟨5,[2,4]⟩]
    (nodes.map LockNode.pid).Nodup ∧
      (buildBlockingTree (.insertion _) (integers byteOrder) nodes).map Forest.roots = some [⟨1,[]⟩,⟨2,[]⟩] ∧
      (buildBlockingTree (.insertion _) (integers byteOrder) nodes).bind (blockedCount · [⟨1,[]⟩]) = some 2 ∧
      Waiting nodes 1 = {3,4,5} := by
  refine ⟨by decide,by decide +kernel,by decide +kernel,Set.Subset.antisymm ?_ ?_⟩
  · rintro x ⟨hne,hreach⟩
    have hin : x=1 ∨ x=3 ∨ x=4 ∨ x=5 := by
      clear hne
      induction hreach with
      | refl => exact .inl rfl
      | tail _ hblocks ih =>
        obtain ⟨_,w,hw,rfl,hb⟩ := hblocks
        simp only [mem_cons,not_mem_nil,or_false] at hw
        obtain rfl | rfl | rfl | rfl | rfl := hw <;> simp_all
    simpa [hne] using hin
  · have h3 : ReflTransGen (Blocks [⟨1,[]⟩,⟨2,[]⟩,⟨3,[1]⟩,⟨4,[2,3]⟩,⟨5,[2,4]⟩]) (1 : ℤ) 3 :=
      .single ⟨by decide,⟨3,[1]⟩,by decide,rfl,by decide⟩
    have h4 := h3.tail ⟨by decide,⟨4,[2,3]⟩,by decide,rfl,by decide⟩
    have h5 := h4.tail ⟨by decide,⟨5,[2,4]⟩,by decide,rfl,by decide⟩
    rintro x (rfl | rfl | rfl)
    · exact ⟨by decide,h3⟩
    · exact ⟨by decide,h4⟩
    · exact ⟨by decide,h5⟩

end Pglens.Locks

import Pglens.Lib.Traversal
import Pglens.Locks.BlockingTree

/-! The queue of place is a breadth-first search over the waiters: it runs in step with
`Search.run`, so it ends, and a session's depth in the forest is the depth of the search. Along the
way every entry lists some of the waiters it has looked at, and each of those is in the same tree or
referenced from it. -/
namespace Pglens.Locks
open Pglens.Lib List Function FinMap Option
open LockNode (pid)

variable {K : Type} [DecidableEq K]

variable {nodes : List (LockNode K)} {active roots active' : K → Prop} {p p' : Placement K}
  {depth : K → Option ℕ}

lemma known_iff {key : K} : known nodes key = true ↔ ∃ n∈nodes, n.pid=key := by
  simp [known]

lemma get_addSibling (nodes : List (LockNode K)) (children : FinMap K (List (LockNode K)))
    (node : LockNode K) (key : K) : (addSibling nodes children node).get key =
      if key∈node.blockedBy ∧ known nodes key = true then some ((children.get key).getD []++[node])
      else children.get key := by
  have hfold : ∀ (blockers : List K), blockers.Nodup → ∀ m : FinMap K (List (LockNode K)),
      (blockers.foldl (fun m blocker => m.set blocker ((m.get blocker).getD []++[node])) m).get key =
        if key∈blockers then some ((m.get key).getD []++[node]) else m.get key := by
    intro blockers
    induction blockers with
    | nil => simp
    | cons blocker blockers ih =>
      intro hnodup m
      rw [nodup_cons] at hnodup
      rw [foldl_cons,ih hnodup.2]
      by_cases hkey : key=blocker
      · subst hkey
        simp [hnodup.1]
      · rw [get_set_of_ne _ _ hkey]
        simp [hkey]
  rw [addSibling,hfold _ ((nodup_dedup _).filter _)]
  simp [mem_filter]

lemma foldl_addSibling (nodes rest : List (LockNode K)) (children : FinMap K (List (LockNode K)))
    (key : K) :
    ((rest.foldl (addSibling nodes) children).get key).getD [] =
      (children.get key).getD []++rest.filter fun n => decide (key∈n.blockedBy) && known nodes key := by
  induction rest generalizing children with
  | nil => simp
  | cons n rest ih =>
    rw [foldl_cons,ih,get_addSibling]
    by_cases h : key∈n.blockedBy ∧ known nodes key = true
    · rw [if_pos h,filter_cons_of_pos (by simp [h])]
      simp
    · rw [if_neg h,filter_cons_of_neg (by simpa using h)]

lemma waitersOf_eq (sorter : SliceSort (LockNode K)) (pids : Pids K) (nodes : List (LockNode K))
    (key : K) :
    waitersOf sorter pids nodes key =
      sorter.sort (compareByPID pids) (nodes.filter fun n => decide (key∈n.blockedBy) && known nodes key) := by
  have hlist := foldl_addSibling nodes nodes .empty key
  rw [get_empty,getD_none,nil_append] at hlist
  rw [← hlist,waitersOf,childrenOf]
  exact sorter.getD_map_sort (compareByPID pids) _

abbrev Keyed (nodes : List (LockNode K)) : Prop := ∀ a∈nodes, ∀ b∈nodes, a.pid=b.pid → a=b

structure Waits (nodes : List (LockNode K)) (waiters : K → List (LockNode K)) : Prop where
  mem : ∀ key w, w ∈ waiters key ↔ w∈nodes ∧ key∈w.blockedBy ∧ known nodes key = true
  nodup : ∀ key, ((waiters key).map pid).Nodup

lemma waits_waitersOf (sorter : SliceSort (LockNode K)) (pids : Pids K)
    (hdistinct : (nodes.map pid).Nodup) : Waits nodes (waitersOf sorter pids nodes) := by
  constructor
  · intro key w
    rw [waitersOf_eq,sorter.mem_sort,mem_filter]
    simp
  · intro key
    rw [waitersOf_eq,((sorter.perm (compareByPID pids) _).map pid).nodup_iff]
    exact hdistinct.sublist (filter_sublist.map _)

def Placement.kids (p : Placement K) (key : K) : List (Child K) := (p.placed.get key).getD []

@[simp] lemma kids_push (p : Placement K) (current : K) (child : Child K) (key : K) :
    (p.push current child).kids key = if key=current then p.kids current++[child] else p.kids key := by
  by_cases h : key=current
  · subst h
    simp [Placement.push,Placement.kids]
  · simp [Placement.push,Placement.kids,get_set_of_ne _ _ h,h]

lemma isSome_push (p : Placement K) {current : K} (h : (p.placed.get current).isSome=true)
    (child : Child K) (key : K) :
    ((p.push current child).placed.get key).isSome = (p.placed.get key).isSome := by
  by_cases hkey : key=current
  · subst hkey
    simp [Placement.push,h]
  · simp [Placement.push,get_set_of_ne _ _ hkey]

/-- Where the sessions that are placed are: their depths, their parents, and the top entries above them. -/
structure Rooted (nodes : List (LockNode K)) (p : Placement K) (depth : K → Option ℕ) (tops : List (LockNode K)) :
    Prop where
  placed : ∀ k, (p.placed.get k).isSome = (depth k).isSome
  session : ∀ k d, depth k = some d → ∃ n∈nodes, n.pid=k
  small : ∀ k d, depth k = some d → d<p.placed.keys.card
  parent : ∀ c k, p.parentOf.get c = some k → ∃ d, depth k = some d ∧ depth c = some (d+1)
  orphan : ∀ k d, depth k = some d → p.parentOf.get k = none → k ∈ tops.map pid
  top : ∀ t∈tops, t∈nodes ∧ depth t.pid = some 0 ∧ p.rootOf.get t.pid = some t.pid
  nodup : (tops.map pid).Nodup
  root : ∀ k d, depth k = some d → ∃ r, p.rootOf.get k = some r
  rootParent : ∀ c k, p.parentOf.get c = some k → p.rootOf.get c = p.rootOf.get k

/-- What the entries list of the waiters they have looked at. -/
structure Listing (nodes : List (LockNode K)) (p : Placement K) (depth : K → Option ℕ)
    (handled : K → List (LockNode K)) : Prop where
  unplaced : ∀ k, depth k = none → handled k = []
  listed : ∀ k, ((p.kids k).map Child.node).Sublist (handled k)
  trees : ∀ k n, Child.tree n ∈ p.kids k ↔ n∈nodes ∧ p.parentOf.get n.pid = some k
  refs : ∀ k n, Child.reference n ∈ p.kids k → p.rootOf.get n.pid ≠ p.rootOf.get k
  referenced : ∀ r w, (r,w) ∈ p.referenced → ∃ k n, p.rootOf.get k = some r ∧
    Child.reference n ∈ p.kids k ∧ n.pid=w
  shown : ∀ k, ∀ w ∈ handled k, ∃ d, depth w.pid = some d
  covered : ∀ k, ∀ w ∈ handled k, p.rootOf.get w.pid = p.rootOf.get k ∨
    ∃ k' n, p.rootOf.get k' = p.rootOf.get k ∧ Child.reference n ∈ p.kids k' ∧ n.pid=w.pid

/-- A forest as far as it is built. `handled` is what each entry has looked at of its waiters. -/
structure Grown (nodes : List (LockNode K)) (p : Placement K) (depth : K → Option ℕ)
    (handled : K → List (LockNode K)) (tops : List (LockNode K)) : Prop
    extends Rooted nodes p depth tops, Listing nodes p depth handled

namespace Grown
variable {nodes tops : List (LockNode K)} {p : Placement K} {depth : K → Option ℕ}
  {handled : K → List (LockNode K)}

lemma card_le (h : Grown nodes p depth handled tops) : p.placed.keys.card≤nodes.length := by
  have hsub : p.placed.keys ⊆ (nodes.map pid).toFinset := by
    intro k hk
    rw [FinMap.mem_keys,h.placed] at hk
    obtain ⟨d,hd⟩ := isSome_iff_exists.mp hk
    obtain ⟨n,hn,rfl⟩ := h.session k d hd
    exact mem_toFinset.mpr (mem_map_of_mem hn)
  calc p.placed.keys.card ≤ (nodes.map pid).toFinset.card := Finset.card_le_card hsub
    _ ≤ (nodes.map pid).length := toFinset_card_le _
    _ = nodes.length := length_map ..

variable {k key current : K} {fuel d : ℕ} {p' : Placement K} {child : LockNode K}

omit [DecidableEq K] in
lemma placed_of_handled (h : Grown nodes p depth handled tops) {w : LockNode K}
    (hw : w ∈ handled k) : ∃ d, depth k = some d := by
  cases hd : depth k with
  | some d => exact ⟨d,rfl⟩
  | none =>
    rw [h.unplaced k hd] at hw
    cases hw

lemma rootOf_ancestor (h : Grown nodes p depth handled tops) {candidate : K}
    (hwalk : isAncestorOrSelf p.parentOf candidate fuel key=some true) :
    p.rootOf.get candidate = p.rootOf.get key := by
  induction fuel generalizing key with
  | zero => cases hwalk
  | succ fuel ih =>
    rw [isAncestorOrSelf] at hwalk
    split_ifs at hwalk with heq
    · rw [heq]
    · cases hup : p.parentOf.get key with
      | none =>
        rw [hup] at hwalk
        cases hwalk
      | some up =>
        rw [hup] at hwalk
        rw [ih hwalk,h.rootParent key up hup]

lemma ancestor_ends (h : Grown nodes p depth handled tops) (candidate : K) (hd : depth key=some d)
    (hfuel : d<fuel) : ∃ b, isAncestorOrSelf p.parentOf candidate fuel key = some b := by
  induction fuel generalizing key d with
  | zero => exact absurd hfuel (Nat.not_lt_zero d)
  | succ fuel ih =>
    rw [isAncestorOrSelf]
    split_ifs
    · exact ⟨true,rfl⟩
    · cases hup : p.parentOf.get key with
      | none => exact ⟨false,rfl⟩
      | some up =>
        obtain ⟨e,he,hkey⟩ := h.parent key up hup
        rw [hd] at hkey
        cases hkey
        exact ih he (Nat.lt_of_succ_lt_succ hfuel)

omit [DecidableEq K] in
lemma rooted_same (h : Rooted nodes p depth tops)
    (hplaced : ∀ k, (p'.placed.get k).isSome=(p.placed.get k).isSome)
    (hparent : p'.parentOf=p.parentOf) (hroot : p'.rootOf=p.rootOf) :
    Rooted nodes p' depth tops := by
  have hkeys : p'.placed.keys=p.placed.keys := by
    ext k
    rw [FinMap.mem_keys,FinMap.mem_keys,hplaced]
  constructor
  case placed => exact fun k => (hplaced k).trans (h.placed k)
  case session => exact h.session
  case small => exact fun k d hd => hkeys ▸ h.small k d hd
  case parent => exact fun c k hc => h.parent c k (hparent ▸ hc)
  case orphan => exact fun k d hd hk => h.orphan k d hd (hparent ▸ hk)
  case top => exact fun t ht => hroot ▸ h.top t ht
  case nodup => exact h.nodup
  case root => exact fun k d hd => hroot ▸ h.root k d hd
  case rootParent => exact fun c k hc => hroot ▸ h.rootParent c k (hparent ▸ hc)

/-- An entry is given one more child, or none, for a waiter that is placed. -/
theorem look (h : Grown nodes p depth handled tops)
    (hplaced : ∀ k, (p'.placed.get k).isSome=(p.placed.get k).isSome)
    (hparent : p'.parentOf=p.parentOf) (hroot : p'.rootOf=p.rootOf)
    (hcurrent : ∃ d, depth current=some d) (hchild : ∃ d, depth child.pid=some d)
    (new : List (Child K)) (hnew : (new.map Child.node).Sublist [child])
    (hkids : ∀ k, p'.kids k=if k=current then p.kids current++new else p.kids k)
    (htree : ∀ n, Child.tree n ∉ new)
    (hrefs : ∀ n, Child.reference n ∈ new → p.rootOf.get n.pid ≠ p.rootOf.get current)
    (hreferenced : ∀ r w, (r,w) ∈ p'.referenced → (r,w) ∈ p.referenced ∨
      (p.rootOf.get current=some r ∧ ∃ n, Child.reference n ∈ new ∧ n.pid=w))
    (hcovered : p.rootOf.get child.pid=p.rootOf.get current ∨ ∃ k' n, p.rootOf.get k'=p.rootOf.get current ∧
      Child.reference n ∈ p'.kids k' ∧ n.pid=child.pid) :
    Grown nodes p' depth (update handled current (handled current++[child])) tops := by
  refine ⟨rooted_same h.toRooted hplaced hparent hroot,?_⟩
  have hmono : ∀ k c, c ∈ p.kids k → c ∈ p'.kids k := by
    intro k c hc
    rw [hkids]
    split_ifs with hk
    · subst hk
      exact mem_append_left _ hc
    · exact hc
  have hhandled : ∀ k w, w ∈ update handled current (handled current++[child]) k →
      w ∈ handled k ∨ (k=current ∧ w=child) := by
    intro k w hw
    by_cases hk : k=current
    · subst hk
      rw [update_self] at hw
      obtain hw | hw := mem_append.mp hw
      · exact .inl hw
      · exact .inr ⟨rfl,mem_singleton.mp hw⟩
    · rw [update_of_ne hk] at hw
      exact .inl hw
  constructor
  case unplaced =>
    intro k hk
    obtain ⟨d,hd⟩ := hcurrent
    have hne : k≠current := by
      rintro rfl
      rw [hk] at hd
      cases hd
    rw [update_of_ne hne]
    exact h.unplaced k hk
  case listed =>
    intro k
    rw [hkids]
    by_cases hk : k=current
    · subst hk
      rw [if_pos rfl,update_self,map_append]
      exact (h.listed k).append hnew
    · rw [if_neg hk,update_of_ne hk]
      exact h.listed k
  case trees =>
    intro k n
    rw [hkids,hparent]
    split_ifs with hk
    · subst hk
      rw [mem_append,h.trees]
      exact ⟨fun hn => hn.resolve_right (htree n),.inl⟩
    · exact h.trees k n
  case refs =>
    intro k n hn
    rw [hroot]
    rw [hkids] at hn
    split_ifs at hn with hk
    · subst hk
      obtain hn | hn := mem_append.mp hn
      · exact h.refs k n hn
      · exact hrefs n hn
    · exact h.refs k n hn
  case referenced =>
    intro r w hrw
    rw [hroot]
    obtain hold | ⟨hr,n,hn,hw⟩ := hreferenced r w hrw
    · obtain ⟨k,n,hk,hn,hw⟩ := h.referenced r w hold
      exact ⟨k,n,hk,hmono k _ hn,hw⟩
    · refine ⟨current,n,hr,?_,hw⟩
      rw [hkids,if_pos rfl]
      exact mem_append_right _ hn
  case shown =>
    intro k w hw
    obtain hw | ⟨_,rfl⟩ := hhandled k w hw
    · exact h.shown k w hw
    · exact hchild
  case covered =>
    intro k w hw
    rw [hroot]
    obtain hw | ⟨rfl,rfl⟩ := hhandled k w hw
    · obtain hsame | ⟨k',n,hk',hn,hpid⟩ := h.covered k w hw
      · exact .inl hsame
      · exact .inr ⟨k',n,hk',hmono k' _ hn,hpid⟩
    · exact hcovered

/-- Where a session enters the forest: at the top, or one below a session that is placed. -/
inductive Entry (p : Placement K) (depth : K → Option ℕ) (child : LockNode K) : Option K → ℕ → K → Prop
  | top : Entry p depth child none 0 child.pid
  | below {current root : K} {d : ℕ} (hcurrent : depth current=some d) (hroot : p.rootOf.get current=some root) :
      Entry p depth child (some current) (d+1) root

/-- The placement with one more session, under its parent if it has one. -/
structure Enters (p p' : Placement K) (child : LockNode K) (parent : Option K) (root : K) : Prop where
  placed : ∀ k, (p'.placed.get k).isSome = if k=child.pid then true else (p.placed.get k).isSome
  parents : ∀ k, p'.parentOf.get k = if k=child.pid then parent else p.parentOf.get k
  roots : ∀ k, p'.rootOf.get k = if k=child.pid then some root else p.rootOf.get k
  referenced : p'.referenced=p.referenced
  kids : ∀ k, p'.kids k = p.kids k++if parent = some k then [.tree child] else []

section Enter
variable {child : LockNode K} {parent : Option K} {e f : ℕ} {root k : K} {p' : Placement K}
  {c : Child K}

omit [DecidableEq K] in
lemma ne_of_depth (hnew : depth child.pid=none) (hk : depth k=some f) : k≠child.pid := by
  rintro rfl
  rw [hnew] at hk
  cases hk

lemma depth_old (hnew : depth child.pid=none) (hk : depth k=some f) :
    update depth child.pid (some e) k = some f := by
  rw [update_of_ne (ne_of_depth hnew hk),hk]

lemma depth_cases (hk : update depth child.pid (some e) k=some f) :
    (k=child.pid ∧ f=e) ∨ (k≠child.pid ∧ depth k=some f) := by
  by_cases hkc : k=child.pid
  · rw [hkc,update_self] at hk
    exact .inl ⟨hkc,(some.inj hk).symm⟩
  · rw [update_of_ne hkc] at hk
    exact .inr ⟨hkc,hk⟩

lemma Enters.root_old (h : Enters p p' child parent root) (hnew : depth child.pid=none)
    (hk : depth k=some f) : p'.rootOf.get k = p.rootOf.get k := by
  rw [h.roots,if_neg (ne_of_depth hnew hk)]

lemma Enters.kids_mono (h : Enters p p' child parent root) (hc : c ∈ p.kids k) : c ∈ p'.kids k := by
  rw [h.kids]
  exact mem_append_left _ hc

lemma Enters.card (h : Enters p p' child parent root)
    (hnew : (p.placed.get child.pid).isSome=false) :
    p'.placed.keys.card = p.placed.keys.card+1 := by
  have hkeys : p'.placed.keys = insert child.pid p.placed.keys := by
    ext k
    rw [FinMap.mem_keys,h.placed,Finset.mem_insert,FinMap.mem_keys]
    split_ifs with hk <;> simp [hk]
  rw [hkeys,Finset.card_insert_of_notMem]
  rw [FinMap.mem_keys,hnew]
  simp

lemma rooted_enter (h : Rooted nodes p depth tops) (hchild : child∈nodes)
    (hnew : depth child.pid=none) (hentry : Entry p depth child parent e root)
    (henters : Enters p p' child parent root) :
    Rooted nodes p' (update depth child.pid (some e)) (tops++if parent=none then [child] else []) := by
  constructor
  case placed =>
    intro k
    rw [henters.placed]
    by_cases hk : k=child.pid
    · simp [hk]
    · rw [if_neg hk,update_of_ne hk,h.placed]
  case session =>
    intro k f hk
    obtain ⟨rfl,_⟩ | ⟨_,hk⟩ := depth_cases hk
    · exact ⟨child,hchild,rfl⟩
    · exact h.session k f hk
  case small =>
    intro k f hk
    rw [henters.card (by rw [h.placed,hnew]; rfl)]
    obtain ⟨_,rfl⟩ | ⟨_,hk⟩ := depth_cases hk
    · cases hentry with
      | top => exact Nat.succ_pos _
      | below hcurrent _ => exact Nat.succ_lt_succ (h.small _ _ hcurrent)
    · exact (h.small k f hk).trans (Nat.lt_succ_self _)
  case parent =>
    intro c k hc
    rw [henters.parents] at hc
    split_ifs at hc with hcc
    · subst hc
      cases hentry with
      | below hcurrent _ => exact ⟨_,depth_old hnew hcurrent,by rw [hcc,update_self]⟩
    · obtain ⟨f,hf,hf'⟩ := h.parent c k hc
      exact ⟨f,depth_old hnew hf,depth_old hnew hf'⟩
  case orphan =>
    intro k f hk hnone
    rw [henters.parents] at hnone
    rw [map_append,mem_append]
    obtain ⟨rfl,_⟩ | ⟨hkc,hk⟩ := depth_cases hk
    · rw [if_pos rfl] at hnone
      exact .inr (by simp [hnone])
    · rw [if_neg hkc] at hnone
      exact .inl (h.orphan k f hk hnone)
  case top =>
    intro t ht
    obtain ht | ht := mem_append.mp ht
    · obtain ⟨htn,ht0,htr⟩ := h.top t ht
      exact ⟨htn,depth_old hnew ht0,(henters.root_old hnew ht0).trans htr⟩
    · cases hentry with
      | below _ _ => simp at ht
      | top =>
        obtain rfl : t=child := by simpa using ht
        exact ⟨hchild,update_self ..,by rw [henters.roots,if_pos rfl]⟩
  case nodup =>
    rw [map_append,nodup_append]
    refine ⟨h.nodup,by split_ifs <;> simp,fun k hk k' hk' => ?_⟩
    obtain ⟨t,ht,rfl⟩ := mem_map.mp hk
    have hk'child : k'=child.pid := by
      split_ifs at hk'
      · simpa using hk'
      · cases hk'
    rw [hk'child]
    exact ne_of_depth hnew (h.top t ht).2.1
  case root =>
    intro k f hk
    rw [henters.roots]
    obtain ⟨rfl,_⟩ | ⟨hk',hk⟩ := depth_cases hk
    · exact ⟨root,if_pos rfl⟩
    · rw [if_neg hk']
      exact h.root k f hk
  case rootParent =>
    intro c k hc
    rw [henters.parents] at hc
    split_ifs at hc with hcc
    · subst hc
      cases hentry with
      | below hcurrent hroot => rw [henters.root_old hnew hcurrent,hroot,henters.roots,if_pos hcc]
    · obtain ⟨f,hf,hf'⟩ := h.parent c k hc
      rw [henters.root_old hnew hf,henters.root_old hnew hf']
      exact h.rootParent c k hc

variable (h : Grown nodes p depth handled tops)
include h

omit [DecidableEq K] in
lemma parentOf_unplaced (hnone : depth k=none) :
    p.parentOf.get k = none := by
  cases hp : p.parentOf.get k with
  | none => rfl
  | some k' =>
    obtain ⟨f,_,hf⟩ := h.parent _ k' hp
    rw [hnone] at hf
    cases hf

omit [DecidableEq K] in
/-- A child of an entry has been looked at from it, so both are placed. -/
theorem placed_of_kid (hc : c ∈ p.kids k) :
    (∃ f, depth k=some f) ∧ ∃ f, depth c.node.pid = some f := by
  have hlisted := (h.listed k).subset (mem_map_of_mem hc)
  exact ⟨h.placed_of_handled hlisted,h.shown k _ hlisted⟩

lemma enter_unplaced
    (hentry : Entry p depth child parent e root) (hk : update depth child.pid (some e) k=none) :
    (handled k++if parent=some k then [child] else []) = [] := by
  have hknone : depth k = none := by
    by_cases hkc : k=child.pid
    · rw [hkc,update_self] at hk
      cases hk
    · rwa [update_of_ne hkc] at hk
  have hnot : parent ≠ some k := by
    rintro rfl
    cases hentry with
    | below hcurrent _ =>
      rw [hknone] at hcurrent
      cases hcurrent
  rw [h.unplaced k hknone,if_neg hnot]
  rfl

lemma enter_trees
    (hinj : Keyed nodes) (hchild : child∈nodes)
    (hnew : depth child.pid=none) (henters : Enters p p' child parent root) (k : K)
    (n : LockNode K) : Child.tree n ∈ p'.kids k ↔ n∈nodes ∧ p'.parentOf.get n.pid = some k := by
  rw [henters.kids,henters.parents,mem_append,h.trees]
  by_cases hn : n.pid=child.pid
  · rw [hn,h.parentOf_unplaced hnew,if_pos rfl]
    constructor
    · rintro (⟨_,hnone⟩ | hmem)
      · cases hnone
      · split_ifs at hmem with hk
        · obtain rfl : n=child := by simpa using hmem
          exact ⟨hchild,hk⟩
        · cases hmem
    · rintro ⟨hnode,hk⟩
      rw [if_pos hk,hinj n hnode child hchild hn]
      exact .inr (mem_singleton_self _)
  · rw [if_neg hn]
    refine ⟨fun hmem => hmem.resolve_right ?_,.inl⟩
    split_ifs
    · rw [mem_singleton,Child.tree.injEq]
      exact fun heq => hn (congrArg pid heq)
    · simp

lemma enter_covered (hnew : depth child.pid=none)
    (hentry : Entry p depth child parent e root) (henters : Enters p p' child parent root)
    {w : LockNode K} (hw : w ∈ handled k++if parent=some k then [child] else []) :
    p'.rootOf.get w.pid = p'.rootOf.get k ∨
      ∃ k' n, p'.rootOf.get k' = p'.rootOf.get k ∧ Child.reference n ∈ p'.kids k' ∧ n.pid=w.pid := by
  obtain hw | hw := mem_append.mp hw
  · obtain ⟨f,hf⟩ := h.shown k w hw
    obtain ⟨g,hg⟩ := h.placed_of_handled hw
    rw [henters.root_old hnew hf,henters.root_old hnew hg]
    obtain hsame | ⟨k',n,hk',hn,hpid⟩ := h.covered k w hw
    · exact .inl hsame
    · obtain ⟨⟨i,hi⟩,_⟩ := h.placed_of_kid hn
      exact .inr ⟨k',n,(henters.root_old hnew hi).trans hk',henters.kids_mono hn,hpid⟩
  · left
    split_ifs at hw with hk
    · obtain rfl : w=child := by simpa using hw
      subst hk
      cases hentry with
      | below hcurrent hroot => rw [henters.root_old hnew hcurrent,hroot,henters.roots,if_pos rfl]
    · cases hw

theorem enter
    (hinj : Keyed nodes) (hchild : child∈nodes)
    (hnew : depth child.pid=none) (hentry : Entry p depth child parent e root)
    (henters : Enters p p' child parent root) :
    Grown nodes p' (update depth child.pid (some e))
      (fun k => handled k++if parent=some k then [child] else [])
      (tops++if parent=none then [child] else []) := by
  refine ⟨rooted_enter h.toRooted hchild hnew hentry henters,?_⟩
  constructor
  case unplaced => exact fun k hk => h.enter_unplaced hentry hk
  case listed =>
    intro k
    rw [henters.kids,map_append]
    refine (h.listed k).append ?_
    split_ifs <;> simp [Child.node]
  case trees => exact h.enter_trees hinj hchild hnew henters
  case refs =>
    intro k n hn
    have hmem : Child.reference n ∈ p.kids k := by
      rw [henters.kids,mem_append] at hn
      refine hn.resolve_right ?_
      split_ifs <;> simp
    obtain ⟨⟨f,hf⟩,g,hg⟩ := h.placed_of_kid hmem
    rw [Child.node] at hg
    rw [henters.root_old hnew hf,henters.root_old hnew hg]
    exact h.refs k n hmem
  case referenced =>
    intro r w hrw
    rw [henters.referenced] at hrw
    obtain ⟨k,n,hk,hn,hw⟩ := h.referenced r w hrw
    obtain ⟨⟨f,hf⟩,_⟩ := h.placed_of_kid hn
    exact ⟨k,n,(henters.root_old hnew hf).trans hk,henters.kids_mono hn,hw⟩
  case shown =>
    intro k w hw
    obtain hw | hw := mem_append.mp hw
    · obtain ⟨f,hf⟩ := h.shown k w hw
      exact ⟨f,depth_old hnew hf⟩
    · obtain rfl : w=child := by
        split_ifs at hw
        · simpa using hw
        · cases hw
      exact ⟨e,update_self ..⟩
  case covered => exact fun k w hw => h.enter_covered hnew hentry henters hw

end Enter

variable (h : Grown nodes p depth handled tops)
include h

omit [DecidableEq K] in
lemma unplaced_of_depth (hk : depth k=none) :
    p.placed.get k = none := by
  have hplaced := h.placed k
  rw [hk] at hplaced
  simpa using hplaced

lemma start (hinj : Keyed nodes)
    {node : LockNode K} (hnode : node∈nodes) (hnew : depth node.pid=none) :
    Grown nodes (p.start node) (update depth node.pid (some 0)) handled (tops++[node]) := by
  have henters : Enters p (p.start node) node none node.pid := by
    refine ⟨fun k => ?_,fun k => ?_,fun k => rfl,rfl,fun k => ?_⟩
    · by_cases hk : k=node.pid
      · simp [Placement.start,hk]
      · simp [Placement.start,get_set_of_ne _ _ hk,hk]
    · change p.parentOf.get k = _
      split_ifs with hk
      · exact hk ▸ h.parentOf_unplaced hnew
      · rfl
    · by_cases hk : k=node.pid
      · simp [Placement.start,Placement.kids,hk,h.unplaced_of_depth hnew]
      · simp [Placement.start,Placement.kids,get_set_of_ne _ _ hk]
  simpa using h.enter hinj hnode hnew .top henters

lemma adopt (hinj : Keyed nodes)
    {root : K} (hcurrent : depth current=some d) (hroot : p.rootOf.get current=some root)
    (hchild : child∈nodes) (hnew : depth child.pid=none) :
    Grown nodes (p.adopt current root child) (update depth child.pid (some (d+1)))
      (update handled current (handled current++[child])) tops := by
  have hcur : ((p.placed.set child.pid []).get current).isSome = true := by
    rw [get_set_of_ne _ _ (ne_of_depth hnew hcurrent),h.placed,hcurrent]
    rfl
  have hbase : ∀ k, (Placement.kids { p with
      placed := p.placed.set child.pid []
      parentOf := p.parentOf.set child.pid current
      rootOf := p.rootOf.set child.pid root } k) = p.kids k := by
    intro k
    by_cases hk : k=child.pid
    · simp [Placement.kids,hk,h.unplaced_of_depth hnew]
    · simp [Placement.kids,get_set_of_ne _ _ hk]
  have henters : Enters p (p.adopt current root child) child (some current) root := by
    refine ⟨fun k => ?_,fun k => rfl,fun k => rfl,rfl,fun k => ?_⟩
    · rw [Placement.adopt,isSome_push _ hcur]
      by_cases hk : k=child.pid
      · simp [hk]
      · simp [get_set_of_ne _ _ hk,hk]
    · rw [Placement.adopt,kids_push,hbase,hbase]
      by_cases hk : k=current
      · simp [hk]
      · simp [hk,Ne.symm hk]
  have hhandled : (fun k => handled k++if some current=some k then [child] else []) =
      update handled current (handled current++[child]) := by
    funext k
    by_cases hk : k=current
    · simp [hk]
    · simp [hk,Ne.symm hk]
  have hgrown := h.enter hinj hchild hnew (.below hcurrent hroot) henters
  rw [hhandled] at hgrown
  simpa using hgrown

end Grown

/-- Different pids have different texts, and none of those contains the sign that joins a pair. -/
structure Pids.Plain (pids : Pids K) : Prop where
  injective : Function.Injective pids.keyOf
  plain : ∀ k, 0x3e ∉ pids.keyOf k

omit [DecidableEq K] in
lemma Pids.Plain.pair_inj {pids : Pids K} (h : pids.Plain) {r w r' w' : K}
    (heq : pairText pids r w=pairText pids r' w') : r=r' ∧ w=w' := by
  obtain ⟨hr,hw⟩ := Text.append_sep_inj (h.plain r) (h.plain r') heq
  exact ⟨h.injective hr,h.injective hw⟩

/-- What is placed stays as it is, but for the children of the active sessions, and what is placed anew
is in the tree of one of the roots. -/
structure Keeps (active roots : K → Prop) (p : Placement K) (depth : K → Option ℕ) (p' : Placement K)
    (depth' : K → Option ℕ) : Prop where
  level : ∀ k d, depth k = some d → depth' k = some d
  root : ∀ k d, depth k = some d → p'.rootOf.get k = p.rootOf.get k
  kids : ∀ k d, depth k = some d → ¬active k → p'.kids k = p.kids k
  fresh : ∀ k d, depth k = none → depth' k = some d → ∃ r, roots r ∧ p'.rootOf.get k = some r

omit [DecidableEq K] in
lemma Keeps.same (roots : K → Prop) (hroots : p'.rootOf=p.rootOf)
    (hkids : ∀ k, ¬active k → p'.kids k=p.kids k) : Keeps active roots p depth p' depth := by
  refine ⟨fun _ _ h => h,fun _ _ _ => by rw [hroots],fun k _ _ hk => hkids k hk,fun k d hnone hd => ?_⟩
  rw [hnone] at hd
  cases hd

lemma Keeps.enter {child root : K} {e : ℕ} (hnew : depth child=none) (hroot : roots root)
    (hroots : ∀ k, p'.rootOf.get k=if k=child then some root else p.rootOf.get k)
    (hkids : ∀ k, k≠child → ¬active k → p'.kids k=p.kids k) :
    Keeps active roots p depth p' (update depth child (some e)) := by
  have hne : ∀ {k d}, depth k = some d → k≠child := by
    rintro k d hk rfl
    rw [hnew] at hk
    cases hk
  constructor
  case level => exact fun k d hk => (update_of_ne (hne hk) ..).trans hk
  case root => exact fun k d hk => by rw [hroots,if_neg (hne hk)]
  case kids => exact fun k d hk hactive => hkids k (hne hk) hactive
  case fresh =>
    intro k d hnone hk
    have hkc : k=child := by
      by_contra hkc
      rw [update_of_ne hkc,hnone] at hk
      cases hk
    exact ⟨root,hroot,by rw [hroots,if_pos hkc]⟩

omit [DecidableEq K] in
lemma Keeps.mono {roots' : K → Prop} {depth' : K → Option ℕ}
    (h : Keeps active roots p depth p' depth') (hactive : ∀ k, active k → active' k)
    (hroots : ∀ r, roots r → roots' r) : Keeps active' roots' p depth p' depth' :=
  ⟨h.level,h.root,fun k d hd hk => h.kids k d hd fun hk' => hk (hactive k hk'),fun k d hnone hd =>
    (h.fresh k d hnone hd).imp fun r hr => ⟨hroots r hr.1,hr.2⟩⟩

omit [DecidableEq K] in
lemma Keeps.trans {p₁ p₂ : Placement K} {depth₁ depth₂ : K → Option ℕ}
    (h : Keeps active roots p depth p₁ depth₁) (h' : Keeps active' roots p₁ depth₁ p₂ depth₂)
    (hactive : ∀ k, active' k → active k ∨ depth k=none) :
    Keeps active roots p depth p₂ depth₂ := by
  constructor
  case level => exact fun k d hd => h'.level k d (h.level k d hd)
  case root => exact fun k d hd => (h'.root k d (h.level k d hd)).trans (h.root k d hd)
  case kids =>
    intro k d hd hk
    rw [h'.kids k d (h.level k d hd),h.kids k d hd hk]
    intro hk'
    obtain hk' | hnone := hactive k hk'
    · exact hk hk'
    · rw [hnone] at hd
      cases hd
  case fresh =>
    intro k d hnone hd
    cases hk : depth₁ k with
    | some e =>
      obtain ⟨r,hr,hroot⟩ := h.fresh k e hnone hk
      exact ⟨r,hr,(h'.root k e hk).trans hroot⟩
    | none => exact h'.fresh k d hk hd

section Steps
variable {nodes tops queue : List (LockNode K)} {p : Placement K} {s : Search K}
  {handled : K → List (LockNode K)} {current root : K} {d fuel : ℕ} {pids : Pids K}

/-- A waiter that is placed gives the current session one more child, or none. -/
theorem visitChild_placed (hpids : pids.Plain) (hfuel : nodes.length≤fuel)
    (h : Grown nodes p s.depth handled tops) (hcurrent : s.depth current=some d)
    (hroot : p.rootOf.get current=some root) {child : LockNode K} {e : ℕ}
    (hdepth : s.depth child.pid=some e) (queue : List (LockNode K)) :
    ∃ p', visitChild pids fuel current root (p,queue) child = some (p',queue) ∧
      Grown nodes p' s.depth (update handled current (handled current++[child])) tops ∧
      Keeps (· = current) (· = root) p s.depth p' s.depth := by
  have hplacedCurrent : (p.placed.get current).isSome = true := by rw [h.placed,hcurrent]; rfl
  obtain ⟨cs,hcs⟩ : ∃ cs, p.placed.get child.pid = some cs := by
    rw [← isSome_iff_exists,h.placed,hdepth]
    rfl
  obtain ⟨ancestor,hancestor⟩ := h.ancestor_ends child.pid hcurrent
    ((h.small current d hcurrent).trans_le (h.card_le.trans hfuel))
  have hnothing : p.rootOf.get child.pid = p.rootOf.get current ∨
      (∃ k' n, p.rootOf.get k'=p.rootOf.get current ∧
      Child.reference n ∈ p.kids k' ∧ n.pid=child.pid) →
      Grown nodes p s.depth (update handled current (handled current++[child])) tops := by
    refine h.look (fun _ => rfl) rfl rfl ⟨d,hcurrent⟩ ⟨e,hdepth⟩ [] (nil_sublist _) (fun k => ?_) (by simp)
      (by simp) (fun _ _ hrw => .inl hrw)
    split_ifs with hk
    · rw [hk,append_nil]
    · rfl
  cases ancestor with
  | true =>
    have hsame := h.rootOf_ancestor hancestor
    refine ⟨p.push current (.cycle child),by simp [visitChild,hcs,hancestor],?_,?_⟩
    · exact h.look (isSome_push p hplacedCurrent _) rfl rfl ⟨d,hcurrent⟩ ⟨e,hdepth⟩ [.cycle child]
        (List.Sublist.refl _)
        (kids_push p current _) (by simp) (by simp) (fun _ _ hrw => .inl hrw) (.inl hsame)
    · exact Keeps.same _ rfl fun k hk => by rw [kids_push,if_neg hk]
  | false =>
    by_cases hsame : p.rootOf.get child.pid = some root
    · exact ⟨p,by simp [visitChild,hcs,hancestor,hsame],hnothing (.inl (hsame.trans hroot.symm)),
        Keeps.same _ rfl fun _ _ => rfl⟩
    have hvisit : visitChild pids fuel current root (p,queue) child =
        some (if ∃ pair∈p.referenced, pairText pids pair.1 pair.2=pairText pids root child.pid then (p,queue)
          else (Placement.push { p with referenced := insert (root,child.pid) p.referenced } current
            (.reference child),queue)) := by
      simp only [visitChild,hcs,hancestor,map_some,Bool.false_eq_true,if_false,ne_eq,hsame,
        not_false_eq_true,if_true]
    by_cases hreferenced : ∃ pair∈p.referenced, pairText pids pair.1 pair.2 = pairText pids root child.pid
    · refine ⟨p,?_,?_,Keeps.same _ rfl fun _ _ => rfl⟩
      · rw [hvisit,if_pos hreferenced]
      obtain ⟨⟨r,w⟩,hmem,htext⟩ := hreferenced
      obtain ⟨rfl,rfl⟩ := hpids.pair_inj htext
      obtain ⟨k,n,hk,hn,hpid⟩ := h.referenced r child.pid hmem
      exact hnothing (.inr ⟨k,n,hk.trans hroot.symm,hn,hpid⟩)
    · set p₁ : Placement K := { p with referenced := insert (root,child.pid) p.referenced }
      refine ⟨p₁.push current (.reference child),by rw [hvisit,if_neg hreferenced],?_,?_⟩
      · refine h.look (isSome_push p₁ hplacedCurrent _) rfl rfl ⟨d,hcurrent⟩ ⟨e,hdepth⟩ [.reference child]
          (List.Sublist.refl _) (kids_push p₁ current _) (by simp) ?_ ?_ (.inr ⟨current,child,rfl,?_,rfl⟩)
        · intro n hn
          obtain rfl : n=child := by simpa using hn
          rwa [hroot]
        · intro r w hrw
          obtain hrw | hrw := Finset.mem_insert.mp hrw
          · cases hrw
            exact .inr ⟨hroot,child,by simp,rfl⟩
          · exact .inl hrw
        · rw [kids_push,if_pos rfl]
          simp
      · exact Keeps.same _ rfl fun k hk => by rw [kids_push,if_neg hk]; rfl

lemma visitChild_spec (hpids : pids.Plain) (hinj : Keyed nodes)
    (hfuel : nodes.length≤fuel) (h : Grown nodes p s.depth handled tops)
    (hqueue : queue.map pid=s.queue) (hcurrent : s.depth current=some d)
    (hroot : p.rootOf.get current=some root) {child : LockNode K} (hchild : child∈nodes) :
    ∃ p' queue', visitChild pids fuel current root (p,queue) child = some (p',queue') ∧
      Grown nodes p' (s.meet (d+1) child.pid).depth
        (update handled current (handled current++[child])) tops ∧
      queue'.map pid = (s.meet (d+1) child.pid).queue ∧
      Keeps (· = current) (· = root) p s.depth p' (s.meet (d+1) child.pid).depth := by
  cases hdepth : s.depth child.pid with
  | none =>
    have hunplaced := h.unplaced_of_depth hdepth
    have hmeet : s.meet (d+1) child.pid = ⟨update s.depth child.pid (some (d+1)),s.queue++[child.pid]⟩ := by
      simp [Search.meet,hdepth]
    rw [hmeet]
    refine ⟨p.adopt current root child,queue++[child],by simp [visitChild,hunplaced],
      h.adopt hinj hcurrent hroot hchild hdepth,by simp [hqueue],Keeps.enter hdepth rfl
          (fun _ => rfl) fun k hk hkc => ?_⟩
    rw [Placement.adopt,kids_push,if_neg hkc]
    simp [Placement.kids,get_set_of_ne _ _ hk]
  | some e =>
    have hmeet : s.meet (d+1) child.pid = s := by simp [Search.meet,hdepth]
    obtain ⟨p',hvisit,hgrown,hkeeps⟩ := visitChild_placed hpids hfuel h hcurrent hroot hdepth queue
    rw [hmeet]
    exact ⟨p',queue,hvisit,hgrown,hqueue,hkeeps⟩

lemma visitChildren_spec (hpids : pids.Plain) (hinj : Keyed nodes)
    (hfuel : nodes.length≤fuel) (ws : List (LockNode K)) (hws : ∀ w∈ws, w∈nodes)
    (h : Grown nodes p s.depth handled tops) (hqueue : queue.map pid=s.queue)
    (hcurrent : s.depth current=some d) (hroot : p.rootOf.get current=some root) : ∃ p' queue',
      ws.foldlM (visitChild pids fuel current root) (p,queue) = some (p',queue') ∧
      Grown nodes p' ((ws.map pid).foldl (Search.meet (d+1)) s).depth
        (update handled current (handled current++ws)) tops ∧
      queue'.map pid = ((ws.map pid).foldl (Search.meet (d+1)) s).queue ∧
      Keeps (· = current) (· = root) p s.depth p' ((ws.map pid).foldl (Search.meet (d+1)) s).depth := by
  induction ws generalizing p s handled queue with
  | nil =>
    refine ⟨p,queue,rfl,?_,hqueue,Keeps.same _ rfl fun _ _ => rfl⟩
    rwa [append_nil,update_eq_self]
  | cons w ws ih =>
    obtain ⟨p₁,queue₁,hrun₁,h₁,hqueue₁,hkeeps₁⟩ :=
      visitChild_spec hpids hinj hfuel h hqueue hcurrent hroot (hws w (by simp))
    obtain ⟨p₂,queue₂,hrun₂,h₂,hqueue₂,hkeeps₂⟩ := ih (fun v hv => hws v (by simp [hv])) h₁ hqueue₁
      (hkeeps₁.level current d hcurrent) ((hkeeps₁.root current d hcurrent).trans hroot)
    refine ⟨p₂,queue₂,?_,?_,hqueue₂,hkeeps₁.trans hkeeps₂ fun k hk => .inl hk⟩
    · rw [foldlM_cons,hrun₁]
      exact hrun₂
    · rw [update_self,update_idem,append_assoc] at h₂
      exact h₂

end Steps

end Pglens.Locks

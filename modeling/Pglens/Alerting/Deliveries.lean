import Pglens.Alerting.Notifier
import Mathlib.Data.List.Count
import Mathlib.Data.List.Nodup

/-! Each delivery is in one place: in hand while a call works on it, pending, or settled by an entry
of the log. The attempts a delivery carries are the claims and sends the log has of it, and what is
sent was claimed. -/
namespace Pglens.Alerting
open List

inductive Class
  | sent
  | pending
  | obsolete
  | onRecord
  | exhausted
  | undelivered
  deriving DecidableEq, Repr

def Delivery.triple (d : Delivery) : String × String × Phase := (d.dedupID,d.channel.name,d.phase)

/-- The delivery that an entry settles, and how. A claim found on record settles the delivery
in Notify; in Retry, where the deliveries claimed are marked unclaimed, giveUp does. -/
def Effect.settles : Effect → Option (Class × ℕ)
  | .sent d _ true => some (.sent,d.number)
  | .dropped d => some (.obsolete,d.number)
  | .claimed d .onRecord => if d.unclaimed then none else some (.onRecord,d.number)
  | .marked d false => if d.attempts=maxNotifyAttempts then some (.exhausted,d.number) else none
  | .gaveUp d => some (.undelivered,d.number)
  | _ => none

def Effect.tries : Effect → Option ℕ
  | .claimed d .failed => some d.number
  | .sent d _ _ => some d.number
  | _ => none

def Effect.wins : Effect → Option (String × String × Phase)
  | .claimed d .won => some d.triple
  | _ => none

def Effect.succeeds : Effect → Option (String × String × Phase)
  | .sent d _ true => some d.triple
  | _ => none

open Effect (settles)

namespace Notifier

def settled (n : Notifier) : List (Class × ℕ) := n.log.filterMap settles

def tries (n : Notifier) (i : ℕ) : ℕ := (n.log.filterMap Effect.tries).count i

def wins (n : Notifier) : List (String × String × Phase) := n.log.filterMap Effect.wins

def successes (n : Notifier) : List (String × String × Phase) := n.log.filterMap Effect.succeeds

end Notifier

def held (ds : List Delivery) : List (String × String × Phase) :=
  (ds.filter fun d => !d.unclaimed).map Delivery.triple

/-- The books of a notifier, with the deliveries in hand. -/
structure Sound (n : Notifier) (hand : List Delivery) : Prop where
  accounted : ∀ i, (hand.map Delivery.number).count i+(n.pending.map Delivery.number).count i+
    (n.settled.map Prod.snd).count i = (List.range n.created).count i
  tried : ∀ d ∈ hand++n.pending, n.tries d.number = d.attempts
  bounded : ∀ i, n.tries i ≤ maxNotifyAttempts
  fresh : ∀ i, n.created ≤ i → n.tries i = 0
  left : ∀ d∈n.pending, d.attempts < maxNotifyAttempts
  claimed : ∀ t, n.successes.count t+(held hand).count t+(held n.pending).count t ≤ n.wins.count t
  counted : n.undelivered = n.settled.countP fun c => decide (c.1=.undelivered)

lemma filterMap_cons_toList {α β : Type} (f : α → Option β) (a : α) (l : List α) :
    (a::l).filterMap f = (f a).toList++l.filterMap f := by
  cases h : f a <;> simp [h]

namespace Notifier
variable (n : Notifier) (e : Effect)

@[simp] lemma record_settled : (n.record e).settled = e.settles.toList++n.settled :=
  filterMap_cons_toList _ e n.log

@[simp] lemma record_tries (i : ℕ) : (n.record e).tries i = e.tries.toList.count i+n.tries i := by
  simp only [tries,record,filterMap_cons_toList,count_append]

@[simp] lemma record_wins : (n.record e).wins = e.wins.toList++n.wins :=
  filterMap_cons_toList _ e n.log

@[simp] lemma record_successes : (n.record e).successes = e.succeeds.toList++n.successes :=
  filterMap_cons_toList _ e n.log

@[simp] lemma record_pending : (n.record e).pending = n.pending := rfl
@[simp] lemma record_created : (n.record e).created = n.created := rfl
@[simp] lemma record_undelivered : (n.record e).undelivered = n.undelivered := rfl

end Notifier

@[simp] lemma held_append (ds ds' : List Delivery) : held (ds++ds') = held ds++held ds' := by
  simp [held]

namespace Sound
variable {n : Notifier} {hand : List Delivery} {d : Delivery}

lemma answers (h : Sound n hand) (outcomes : Outcomes) :
    Sound { n with outcomes := outcomes } hand :=
  ⟨h.accounted,h.tried,h.bounded,h.fresh,h.left,h.claimed,h.counted⟩

lemma apart (h : Sound n (d::hand)) {d' : Delivery} (hd' : d' ∈ hand++n.pending) :
    d'.number ≠ d.number := by
  intro heq
  have hacc := h.accounted d.number
  have hpos : 0 < ((hand++n.pending).map Delivery.number).count d.number :=
    count_pos_iff.mpr (mem_map.mpr ⟨d',hd',heq⟩)
  have honce := nodup_iff_count_le_one.mp (nodup_range (n := n.created)) d.number
  rw [map_append,count_append] at hpos
  rw [map_cons,count_cons_self] at hacc
  omega

lemma number_lt (h : Sound n (d::hand)) : d.number<n.created := by
  have hacc := h.accounted d.number
  rw [map_cons,count_cons_self] at hacc
  exact mem_range.mp (count_pos_iff.mp (by omega))

variable {e : Effect} {c : Class} {i : ℕ}

lemma neutral (h : Sound n hand) (hsettles : e.settles=none) (htries : e.tries=none)
    (hwins : e.wins=none) (hsucceeds : e.succeeds=none) : Sound (n.record e) hand := by
  constructor
  · simpa [hsettles] using h.accounted
  · simpa [htries] using h.tried
  · simpa [htries] using h.bounded
  · simpa [htries] using h.fresh
  · exact h.left
  · simpa [hwins,hsucceeds] using h.claimed
  · simpa [hsettles] using h.counted

/-- An entry about the delivery in hand: it stays in hand, as it is then, or the entry
settles it. -/
theorem exchange (h : Sound n (d::hand)) {l : List Delivery} {u : ℕ}
    (hmoves : l.map Delivery.number++e.settles.toList.map Prod.snd=[d.number])
    (hcounts : u=n.undelivered+e.settles.toList.countP fun c => decide (c.1=.undelivered))
    (htries : e.tries=none ∧ (∀ d'∈l, d'.attempts=d.attempts) ∨
      e.tries=some d.number ∧ d.attempts < maxNotifyAttempts ∧ ∀ d'∈l, d'.attempts=d.attempts+1)
    (hclaim : ∀ t, e.succeeds.toList.count t+(held l).count t ≤
      e.wins.toList.count t+(held [d]).count t) :
    Sound ({ n with undelivered := u }.record e) (l++hand) := by
  have hown : n.tries d.number = d.attempts := h.tried d (by simp)
  have hnumber : ∀ d'∈l, d'.number=d.number := by
    intro d' hd'
    have hmem : d'.number ∈ l.map Delivery.number++e.settles.toList.map Prod.snd := by
      simp only [mem_append,mem_map]
      exact .inl ⟨d',hd',rfl⟩
    rw [hmoves] at hmem
    exact mem_singleton.mp hmem
  have hsettled : ({ n with undelivered := u } : Notifier).settled = n.settled := rfl
  have htried (i : ℕ) : ({ n with undelivered := u } : Notifier).tries i = n.tries i := rfl
  have hwins : ({ n with undelivered := u } : Notifier).wins = n.wins := rfl
  have hsucceeds : ({ n with undelivered := u } : Notifier).successes = n.successes := rfl
  constructor
  · intro i
    have hcount := congrArg (List.count i) hmoves
    have hacc := h.accounted i
    simp only [count_append,map_append,map_cons,count_cons,count_nil,
      Notifier.record_settled,Notifier.record_pending,Notifier.record_created,hsettled] at hcount hacc ⊢
    omega
  · intro d' hd'
    rw [append_assoc,mem_append] at hd'
    obtain ⟨hnone,hatt⟩ | ⟨hsome,-,hatt⟩ := htries
    · simp only [Notifier.record_tries,hnone,Option.toList_none,count_nil,Nat.zero_add,htried]
      obtain hd' | hd' := hd'
      · rw [hnumber d' hd',hown,hatt d' hd']
      · exact h.tried d' (by simpa using Or.inr hd')
    · simp only [Notifier.record_tries,hsome,Option.toList_some,htried]
      obtain hd' | hd' := hd'
      · rw [hnumber d' hd',hown,hatt d' hd',count_cons_self,count_nil]
        omega
      · rw [count_cons_of_ne (h.apart hd').symm,count_nil,Nat.zero_add]
        exact h.tried d' (by simpa using Or.inr hd')
  · intro i
    have hb := h.bounded i
    obtain ⟨hnone,-⟩ | ⟨hsome,hlt,-⟩ := htries
    · simpa [hnone,htried] using hb
    · simp only [Notifier.record_tries,hsome,Option.toList_some,count_cons,count_nil,htried]
      split_ifs with hi
      · rw [← of_decide_eq_true hi,hown]
        omega
      · omega
  · intro i hi
    have hf := h.fresh i hi
    obtain ⟨hnone,-⟩ | ⟨hsome,-,-⟩ := htries
    · simpa [hnone,htried] using hf
    · have hne : d.number≠i := by
        have := h.number_lt
        simp only [Notifier.record_created] at hi
        omega
      simp only [Notifier.record_tries,hsome,Option.toList_some,htried]
      rw [count_cons_of_ne hne,count_nil,hf]
  · exact h.left
  · intro t
    have hc := h.claimed t
    have hd := hclaim t
    simp only [Notifier.record_successes,Notifier.record_wins,Notifier.record_pending,held_append,
      count_append,hwins,hsucceeds] at hc ⊢
    rw [show d::hand=[d]++hand from rfl,held_append,count_append] at hc
    omega
  · have hc := h.counted
    simp only [Notifier.record_undelivered,Notifier.record_settled,countP_append,hsettled]
    omega

lemma keep (h : Sound n (d::hand)) (hleft : d.attempts < maxNotifyAttempts) :
    Sound (n.keep d) hand := by
  rw [Notifier.keep,if_neg (by omega)]
  constructor
  · intro i
    have hacc := h.accounted i
    simp only [map_append,map_cons,map_nil,count_append,count_cons,count_nil] at hacc ⊢
    have hsettled : ({ n with pending := n.pending++[{ d with failedIn := n.passes }] } : Notifier).settled =
      n.settled := rfl
    rw [hsettled]
    omega
  · intro d' hd'
    rw [← append_assoc,mem_append,mem_singleton] at hd'
    obtain hd' | rfl := hd'
    · exact h.tried d' (by simpa using Or.inr (mem_append.mp hd'))
    · exact h.tried d (by simp)
  · exact h.bounded
  · exact h.fresh
  · intro d' hd'
    obtain hd' | hd' := mem_append.mp hd'
    · exact h.left d' hd'
    · rw [mem_singleton.mp hd']
      exact hleft
  · intro t
    have hc := h.claimed t
    have hheld : held [{ d with failedIn := n.passes }] = held [d] := by
      cases hu : d.unclaimed <;> simp [held,hu,Delivery.triple]
    rw [show d::hand=[d]++hand from rfl] at hc
    simp only [held_append,hheld,count_append] at hc ⊢
    change n.successes.count t+_+_ ≤ n.wins.count t
    omega
  · exact h.counted

lemma giveUp (h : Sound n (d::hand)) (reason : String) : Sound (n.giveUp d reason).1 hand :=
  h.exchange (l := []) (e := .gaveUp d) rfl rfl (.inl ⟨rfl,by simp⟩) (by simp [Effect.succeeds,held])

lemma keepUnclaimed (h : Sound n (d::hand)) : Sound (n.keepUnclaimed d).1 hand := by
  unfold Notifier.keepUnclaimed
  split_ifs with hleft
  · exact h.keep hleft
  · exact h.giveUp "its claim failed on every attempt"

/-- What is dropped is settled; what is left keeps its place. -/
theorem dropPending (h : Sound n hand) (drop : Delivery → Bool) :
    Sound (n.dropPending drop) hand := by
  have hlog {α : Type} (f : Effect → Option α) (hf : ∀ d, f (.dropped d)=none) :
      (n.dropPending drop).log.filterMap f = n.log.filterMap f := by
    simp [Notifier.dropPending,filterMap_append,hf]
  have hsettled : (n.dropPending drop).settled =
      ((n.pending.filter drop).map fun d => (Class.obsolete,d.number)).reverse++n.settled := by
    simp only [Notifier.settled,Notifier.dropPending,filterMap_append,filterMap_reverse,
      filterMap_map]
    exact congrArg (fun l => List.reverse l++n.settled) (congrFun filterMap_eq_map _)
  have htries (i : ℕ) : (n.dropPending drop).tries i = n.tries i :=
    congrArg (List.count i) (hlog Effect.tries fun _ => rfl)
  have hpending : (n.dropPending drop).pending.Sublist n.pending := filter_sublist
  constructor
  · intro i
    have hacc := h.accounted i
    have hsplit : (n.pending.map Delivery.number).count i =
        ((n.pending.filter drop).map Delivery.number).count i+
          ((n.pending.filter fun d => !drop d).map Delivery.number).count i := by
      rw [← count_append,← map_append]
      exact ((filter_append_perm drop n.pending).map _).count_eq i |>.symm
    rw [hsettled]
    simp only [map_append,map_reverse,map_map,count_append,count_reverse]
    change _+((n.pending.filter fun d => !drop d).map Delivery.number).count i+
      (((n.pending.filter drop).map Delivery.number).count i+_) = (List.range n.created).count i
    omega
  · intro d' hd'
    rw [htries]
    exact h.tried d' ((List.Sublist.refl hand).append hpending |>.subset hd')
  · exact fun i => htries i ▸ h.bounded i
  · exact fun i hi => (htries i).trans (h.fresh i hi)
  · exact fun d' hd' => h.left d' (hpending.subset hd')
  · intro t
    have hc := h.claimed t
    have hle : (held (n.dropPending drop).pending).count t ≤ (held n.pending).count t :=
      ((hpending.filter _).map _).count_le t
    have hs : (n.dropPending drop).successes = n.successes := hlog _ fun _ => rfl
    have hw : (n.dropPending drop).wins = n.wins := hlog _ fun _ => rfl
    rw [hs,hw]
    omega
  · rw [hsettled,countP_append,countP_reverse,countP_map]
    have hnone : (n.pending.filter drop).countP
        ((fun c : Class × ℕ => decide (c.1=.undelivered)) ∘ fun d => (Class.obsolete,d.number)) = 0 := by
      simp
    rw [hnone,Nat.zero_add]
    exact h.counted

lemma create (h : Sound n hand) (hnumber : d.number=n.created) (hattempts : d.attempts=0) :
    Sound { n with created := n.created+1 } ({ d with unclaimed := true }::hand) := by
  constructor
  · intro i
    have hacc := h.accounted i
    rw [range_succ,count_append,← hacc,← hnumber]
    simp only [map_cons,count_cons,count_nil]
    change _+(if d.number == i then 1 else 0)+_+(n.settled.map Prod.snd).count i = _
    omega
  · intro d' hd'
    rw [cons_append] at hd'
    obtain rfl | hd' := mem_cons.mp hd'
    · exact (h.fresh _ hnumber.ge).trans hattempts.symm
    · exact h.tried d' hd'
  · exact h.bounded
  · exact fun i hi => h.fresh i (Nat.le_of_succ_le hi)
  · exact h.left
  · exact h.claimed
  · exact h.counted

lemma claim_won (h : Sound n ({ d with unclaimed := true }::hand)) (m : Option Message) :
    Sound (n.record (.claimed d .won)) ({ d with unclaimed := false, message := m }::hand) :=
  h.exchange (l := [{ d with unclaimed := false, message := m }]) rfl rfl (.inl ⟨rfl,by simp⟩)
    (by simp [Effect.succeeds,Effect.wins,held,Delivery.triple])

lemma claim_failed (h : Sound n ({ d with unclaimed := true }::hand))
    (hleft : d.attempts < maxNotifyAttempts) : Sound (n.record (.claimed d .failed))
      ({ d with attempts := d.attempts+1, unclaimed := true }::hand) :=
  h.exchange (l := [{ d with attempts := d.attempts+1, unclaimed := true }]) rfl rfl
    (.inr ⟨rfl,hleft,by simp⟩) (by simp [Effect.succeeds,held])

lemma claim_onRecord (h : Sound n ({ d with unclaimed := true }::hand))
    (hnew : d.unclaimed=false) : Sound (n.record (.claimed d .onRecord)) hand :=
  h.exchange (l := []) (by simp [settles,hnew]) (by simp [settles,hnew])
    (.inl ⟨rfl,by simp⟩) (by simp [Effect.succeeds,held])

lemma deliver (h : Sound n (d::hand)) (hleft : d.attempts < maxNotifyAttempts)
    (hclaimed : d.unclaimed=false) (again : Bool) : Sound (n.deliver d again).1 hand := by
  obtain ⟨outcomes,heq | heq | heq⟩ := n.deliver_cases d again
  · rw [heq]
    exact (h.answers outcomes).keep hleft
  · rw [heq]
    refine Sound.neutral ?_ rfl rfl rfl rfl
    exact (h.answers outcomes).exchange (l := []) rfl rfl (.inr ⟨rfl,hleft,by simp⟩)
      (by simp [Effect.succeeds,held,hclaimed])
  · rw [heq]
    have htried := (h.answers outcomes).exchange (l := [{ d with attempts := d.attempts+1 }])
      (e := .sent d again false) rfl rfl (.inr ⟨rfl,hleft,by simp⟩)
      (by cases hu : d.unclaimed <;> simp [Effect.succeeds,held,hu,Delivery.triple])
    by_cases hlast : d.attempts+1 = maxNotifyAttempts
    · rw [Notifier.keep,if_pos hlast.ge]
      exact htried.exchange (l := []) (by simp [settles,hlast]) (by simp [settles,hlast])
        (.inl ⟨rfl,by simp⟩) (by simp [Effect.succeeds,held])
    · refine Sound.keep (htried.neutral ?_ rfl rfl rfl) (by change d.attempts+1<_; omega)
      simp [settles,hlast]

variable (codec : Codec)

lemma notifyOn (h : Sound n hand) (a : Alert) (ch : Channel) :
    Sound (n.notifyOn codec a ch).1 hand := by
  have hnew : Sound { n with created := n.created+1 }
      ({ n.delivery codec a ch with unclaimed := true }::hand) := h.create rfl rfl
  have hleft : (n.delivery codec a ch).attempts < maxNotifyAttempts := (by decide : 0 < maxNotifyAttempts)
  obtain ⟨n',outcomes,rfl,heq | heq | heq | heq⟩ := Notifier.notifyOn_cases codec a n ch
  · rw [heq]
    exact (hnew.answers outcomes).keepUnclaimed
  · rw [heq]
    exact ((hnew.answers outcomes).claim_failed hleft).keepUnclaimed
  · rw [heq]
    exact ((hnew.answers outcomes).claim_won (some (Notifier.newMessage codec a (Notifier.phaseOf a)))).deliver
      hleft rfl false
  · rw [heq]
    exact (hnew.answers outcomes).claim_onRecord rfl

lemma retryOne (h : Sound n (d::hand)) (hleft : d.attempts < maxNotifyAttempts) :
    Sound (n.retryOne codec d).1 hand := by
  obtain ⟨n',outcomes,rfl,⟨hclaimed,heq⟩ | ⟨hunclaimed,hcases⟩⟩ := Notifier.retryOne_cases codec n d
  · rw [heq]
    exact h.deliver hleft hclaimed true
  · have hd : d = { d with unclaimed := true } := by rw [← hunclaimed]
    have h' : Sound n ({ d with unclaimed := true }::hand) := hd ▸ h
    obtain heq | heq | heq | heq := hcases
    · rw [heq]
      exact (h.answers outcomes).keepUnclaimed
    · rw [heq]
      have hfailed := (h'.answers outcomes).claim_failed hleft
      rw [← hunclaimed] at hfailed
      exact hfailed.keepUnclaimed
    · rw [heq]
      exact ((h'.answers outcomes).claim_won _).deliver hleft rfl true
    · rw [heq]
      have hseen : settles (.claimed d .onRecord) = none := by simp [settles,hunclaimed]
      exact ((h.answers outcomes).neutral hseen rfl rfl rfl).giveUp _

lemma notify (h : Sound n []) (a : Alert) : Sound (n.notify codec a).1 [] := by
  have hloop : Sound (Notifier.collect (Notifier.notifyOn codec a) n.channels
      (n.dropPending fun d => d.alert.key == a.key)).1 [] :=
    Notifier.collect_keeps (P := fun n => Sound n []) (fun _ ch _ hn => hn.notifyOn codec a ch)
      (h.dropPending _)
  exact ⟨hloop.accounted,hloop.tried,hloop.bounded,hloop.fresh,hloop.left,hloop.claimed,hloop.counted⟩

lemma retryAll {due : List Delivery} (h : Sound n due)
    (hleft : ∀ d∈due, d.attempts < maxNotifyAttempts) :
    Sound (Notifier.collect (Notifier.retryOne codec) due n).1 [] := by
  induction due generalizing n with
  | nil => exact h
  | cons d due ih =>
    exact ih (h.retryOne codec (hleft d (by simp))) fun d' hd' => hleft d' (by simp [hd'])

lemma takeDue (h : Sound n []) (due : Delivery → Bool) :
    Sound { n with pending := n.pending.filter fun d => !due d } (n.pending.filter due) := by
  have hperm := filter_append_perm due n.pending
  constructor
  · intro i
    have hacc := h.accounted i
    have hcount := (hperm.map Delivery.number).count_eq i
    rw [map_append,count_append] at hcount
    rw [map_nil,count_nil,Nat.zero_add] at hacc
    rw [hcount]
    exact hacc
  · exact fun d' hd' => h.tried d' (hperm.subset hd')
  · exact h.bounded
  · exact h.fresh
  · exact fun d' hd' => h.left d' (mem_of_mem_filter hd')
  · intro t
    have hc := h.claimed t
    have hcount : (held (n.pending.filter due)).count t+(held (n.pending.filter fun d => !due d)).count t =
        (held n.pending).count t := by
      rw [← count_append,← held_append]
      exact ((hperm.filter _).map _).count_eq t
    rw [show held ([] : List Delivery)=[] from rfl,count_nil] at hc
    change n.successes.count t+_+(held (n.pending.filter fun d => !due d)).count t ≤ n.wins.count t
    omega
  · exact h.counted

lemma retry (h : Sound n []) : Sound (n.retry codec).1 [] := by
  have hloop := (h.takeDue fun d => decide (d.failedIn<n.passes)).retryAll codec fun d hd =>
    h.left d (mem_of_mem_filter hd)
  exact ⟨hloop.accounted,hloop.tried,hloop.bounded,hloop.fresh,hloop.left,hloop.claimed,hloop.counted⟩

lemma step (h : Sound n []) (call : Call) : Sound (n.step codec call) [] := by
  cases call with
  | notify a outcomes => exact (h.answers outcomes).notify codec a
  | settle firing => exact h.dropPending _
  | retry outcomes => exact (h.answers outcomes).retry codec

lemma run (h : Sound n []) (calls : List Call) : Sound (n.run codec calls) [] := by
  induction calls generalizing n with
  | nil => exact h
  | cons call calls ih => exact ih (h.step codec call)

lemma new (channels : List Channel) : Sound (Notifier.new channels) [] where
  accounted i := by simp [Notifier.new,Notifier.settled]
  tried := by simp [Notifier.new]
  bounded i := by simp [Notifier.new,Notifier.tries]
  fresh i _ := by simp [Notifier.new,Notifier.tries]
  left := by simp [Notifier.new]
  claimed t := by simp [Notifier.new,Notifier.successes,held]
  counted := by simp [Notifier.new,Notifier.settled]

end Sound

end Pglens.Alerting

import Pglens.Time
import Pglens.Lib.FinMap
import Pglens.Lib.Ranking
import Pglens.Lib.Runs
import Pglens.Lib.Text
import Mathlib.Data.Finset.Sort

/-! SessionStore of internal/server/session.go. A Create that finds many sessions drops the expired
ones and then enforces the cap, each time with the lock anew, so that other requests come in
between. -/
namespace Pglens.Server
open Pglens.Lib List FinMap Prod

def sessionReapThreshold : ℕ := 1024
def sessionHardCap : ℕ := 4096

/-- SessionStore, with the Creates that are about to call reap and enforceCap. -/
structure SessionStore where
  sessions : FinMap Text Time := .empty
  reaping : ℕ := 0
  capping : ℕ := 0

inductive SessionCall
  /-- Create up to its sweep, with the token it drew. -/
  | create (token : Text) (now : Time)
  | reap (now : Time)
  | enforceCap (range : Ranging Text) (sorter : SliceSort (Text × Time))
  | delete (token : Text)

/-- enforceCap for any cap. -/
def evictTo (cap : ℕ) (range : Ranging Text) (sorter : SliceSort (Text × Time)) (m : FinMap Text Time) :
    FinMap Text Time :=
  if m.keys.card≤cap then m
  else
    let entries := (range.visit (m.keys.sort (· ≤ ·))).filterMap fun token => (m.get token).map (token,·)
    let sorted := sorter.sort (fun a b => a.2.before b.2) entries
    (sorted.take (sorted.length-cap)).foldl (fun m e => m.erase e.1) m

def enforceCap (range : Ranging Text) (sorter : SliceSort (Text × Time)) : FinMap Text Time → FinMap Text Time :=
  evictTo sessionHardCap range sorter

namespace SessionStore

def act (ttl : ℤ) (s : SessionStore) : SessionCall → Option SessionStore
  | .create token now =>
    let sessions := s.sessions.set token (now.add ttl)
    some { s with
      sessions := sessions
      reaping := if sessions.keys.card > sessionReapThreshold then s.reaping+1 else s.reaping }
  | .reap now =>
    if s.reaping=0 then none
    else some ⟨s.sessions.filter fun _ expiresAt => now.before expiresAt,s.reaping-1,s.capping+1⟩
  | .enforceCap range sorter =>
    if s.capping=0 then none
    else some { s with sessions := enforceCap range sorter s.sessions, capping := s.capping-1 }
  | .delete token => some { s with sessions := s.sessions.erase token }

def validate (s : SessionStore) (token : Text) (now : Time) : Option Time :=
  (s.sessions.get token).filter fun expiresAt => now.before expiresAt

end SessionStore

section Cap
variable (m : FinMap Text Time) {range : Ranging Text} {sorter : SliceSort (Text × Time)}
  {token : Text} {t : Time}

lemma foldl_erase_keys (entries : List (Text × Time)) :
    (entries.foldl (fun m e => m.erase e.1) m).keys = m.keys \ (entries.map fst).toFinset := by
  induction entries generalizing m with
  | nil => simp
  | cons e entries ih =>
    rw [foldl_cons,ih]
    ext token
    simp [FinMap.erase]
    tauto

lemma foldl_erase_get (entries : List (Text × Time))
    (h : (entries.foldl (fun m e => m.erase e.1) m).get token=some t) : m.get token = some t := by
  induction entries generalizing m with
  | nil => exact h
  | cons e entries ih =>
    have hget := ih (m.erase e.1) h
    by_cases heq : token=e.1
    · simp [heq] at hget
    · rwa [get_erase_of_ne m heq] at hget

lemma entries_tokens {tokens : List Text} (h : ∀ token∈tokens, token∈m.keys) :
    (tokens.filterMap fun token => (m.get token).map (token,·)).map fst = tokens := by
  induction tokens with
  | nil => rfl
  | cons token tokens ih =>
    obtain ⟨t,ht⟩ := Option.isSome_iff_exists.mp ((m.mem_keys token).mp (h token (by simp)))
    simp [ht,ih fun token hmem => h token (by simp [hmem])]

lemma evictTo_card_le {cap : ℕ} : (evictTo cap range sorter m).keys.card ≤ cap := by
  unfold evictTo
  split_ifs with hle
  · exact hle
  · -- the tokens of the sorted entries are the keys, each once
    dsimp only
    have hvisit := range.perm (m.keys.sort (· ≤ ·))
    have htokens := entries_tokens m fun token h => (Finset.mem_sort _).mp (hvisit.mem_iff.mp h)
    generalize (range.visit (m.keys.sort (· ≤ ·))).filterMap _ = entries at htokens ⊢
    have hsorted := sorter.perm (fun a b => a.2.before b.2) entries
    generalize sorter.sort (fun a b => a.2.before b.2) entries = sorted at hsorted ⊢
    have hperm : (sorted.map fst).Perm (m.keys.sort (· ≤ ·)) := (hsorted.map _).trans (htokens ▸ hvisit)
    have hlength : sorted.length=m.keys.card := by
      simpa using hperm.length_eq
    have hnodup : ((sorted.take (sorted.length-cap)).map fst).Nodup := by
      rw [map_take]
      exact (hperm.nodup_iff.mpr (Finset.sort_nodup _ _)).sublist (take_sublist _ _)
    have hsub : ((sorted.take (sorted.length-cap)).map fst).toFinset ⊆ m.keys := by
      intro token h
      rw [mem_toFinset,map_take] at h
      exact (Finset.mem_sort _).mp (hperm.mem_iff.mp (mem_of_mem_take h))
    rw [foldl_erase_keys,Finset.card_sdiff_of_subset hsub,toFinset_card_of_nodup hnodup,length_map,
      length_take]
    omega

lemma evictTo_get {cap : ℕ} (h : (evictTo cap range sorter m).get token=some t) :
    m.get token = some t := by
  unfold evictTo at h
  split_ifs at h
  · exact h
  · exact foldl_erase_get m _ h

end Cap

namespace SessionStore
variable {ttl : ℤ} {s s' : SessionStore} {call : SessionCall} {token : Text} {e : Time}

/-- A step puts one session more than the sweeps in flight take, or sweeps down to the cap. -/
theorem act_card (h : s.act ttl call=some s')
    (hs : s.sessions.keys.card ≤ sessionHardCap+s.reaping+s.capping) :
    s'.sessions.keys.card ≤ sessionHardCap+s'.reaping+s'.capping := by
  cases call with
  | create token now =>
    cases h
    have hcard : (s.sessions.set token (now.add ttl)).keys.card ≤ s.sessions.keys.card+1 :=
      Finset.card_insert_le _ _
    dsimp only
    split_ifs with hmany
    · omega
    · have hcap : sessionReapThreshold ≤ sessionHardCap := by decide
      omega
  | reap now =>
    rw [act] at h
    split_ifs at h with hzero
    cases h
    have hcard : (s.sessions.filter fun _ e => now.before e).keys.card ≤ s.sessions.keys.card :=
      Finset.card_le_card (Finset.filter_subset _ _)
    dsimp only
    omega
  | enforceCap range sorter =>
    rw [act] at h
    split_ifs at h
    cases h
    have hcard : (Server.enforceCap range sorter s.sessions).keys.card ≤ _ := evictTo_card_le s.sessions
    dsimp only
    omega
  | delete token =>
    cases h
    exact (Finset.card_le_card (Finset.erase_subset _ _)).trans hs

/-- What is stored for a token after a step is what a Create put there in it, or was stored before and not deleted. -/
theorem act_get (h : s.act ttl call=some s') (hget : s'.sessions.get token=some e) :
    (∃ t, call = .create token t ∧ e=t.add ttl) ∨ s.sessions.get token = some e ∧ call ≠ .delete token := by
  cases call with
  | create other now =>
    cases h
    by_cases heq : token=other
    · subst heq
      exact .inl ⟨now,rfl,by simpa using hget.symm⟩
    · exact .inr ⟨(get_set_of_ne _ _ heq).symm.trans hget,by simp⟩
  | reap now =>
    rw [act] at h
    split_ifs at h
    cases h
    exact .inr ⟨(Option.filter_eq_some_iff.mp ((get_filter _ _ _).symm.trans hget)).1,by simp⟩
  | enforceCap range sorter =>
    rw [act] at h
    split_ifs at h
    cases h
    exact .inr ⟨evictTo_get _ hget,by simp⟩
  | delete other =>
    cases h
    by_cases heq : token=other
    · simp [heq] at hget
    · exact .inr ⟨(get_erase_of_ne _ heq).symm.trans hget,by simpa using Ne.symm heq⟩

/-- What is stored was put by a Create that no Delete of the token follows. -/
theorem stored_created {steps : List (Taken SessionStore SessionCall)}
    (h : Trace (act ttl) {} steps s) (hget : s.sessions.get token=some e) :
    ∃ before t after, steps.map Taken.label = before++.create token t :: after ∧ .delete token ∉ after ∧
      e = t.add ttl := by
  induction h with
  | start => simp at hget
  | @step steps s s' call _ last ih =>
    obtain ⟨t,rfl,he⟩ | ⟨hget,hne⟩ := act_get last hget
    · exact ⟨steps.map Taken.label,t,[],by simp,by simp,he⟩
    · obtain ⟨before,t,after,heq,hnot,he⟩ := ih hget
      exact ⟨before,t,after++[call],by simp [heq],by simpa [hnot] using Ne.symm hne,he⟩

end SessionStore

section Swept

def drawn (i : ℕ) : Text := List.replicate i 0x61

lemma drawn_injective : Function.Injective drawn := replicate_left_injective 0x61

/-- As many Creates as it takes to sweep, the sweep, and a sign-out. -/
def swept : List SessionCall :=
  (List.range 1025).map (fun i => .create (drawn i) .zero) ++
    [.reap ⟨1,0⟩,.enforceCap (.inOrder _) (.insertion _),.delete (drawn 0)]

lemma exec_drawn (n : ℕ) : ∃ s,
    exec (SessionStore.act 5) {} ((List.range n).map fun i => .create (drawn i) .zero) = some s ∧
      s.sessions.keys = (Finset.range n).image drawn ∧
      (∀ i<n, s.sessions.get (drawn i)=some ⟨5,0⟩) ∧ s.reaping = n-1024 ∧ s.capping=0 := by
  induction n with
  | zero => exact ⟨{},rfl,by simp [FinMap.empty],by simp,rfl,rfl⟩
  | succ n ih =>
    obtain ⟨s,hs,hkeys,hget,hreaping,hcapping⟩ := ih
    rw [range_succ,map_append,exec_append,hs]
    have hset : (s.sessions.set (drawn n) ⟨5,0⟩).keys = (Finset.range (n+1)).image drawn := by
      rw [Finset.range_add_one,Finset.image_insert,← hkeys]
      rfl
    have hcard : ((Finset.range (n+1)).image drawn).card = n+1 := by
      rw [Finset.card_image_of_injective _ drawn_injective,Finset.card_range]
    refine ⟨_,rfl,hset,fun i hi => ?_,?_,hcapping⟩
    · by_cases heq : i=n
      · rw [heq]
        exact get_set_self _ _ _
      · have hne : drawn i ≠ drawn n := fun h => heq (drawn_injective h)
        exact (get_set_of_ne _ _ hne).trans (hget i (by omega))
    · have hstep : (if (s.sessions.set (drawn n) ⟨5,0⟩).keys.card > sessionReapThreshold then s.reaping+1
          else s.reaping) = n+1-1024 := by
        rw [hset,hcard,hreaping,sessionReapThreshold]
        split_ifs <;> omega
      exact hstep

lemma exec_swept :
    ∃ s, exec (SessionStore.act 5) {} swept = some s ∧ s.reaping=0 ∧ s.capping=0 ∧
    s.validate (drawn 7) ⟨3,0⟩ = some ⟨5,0⟩ := by
  obtain ⟨s,hs,hkeys,hget,hreaping,hcapping⟩ := exec_drawn 1025
  have hcard : (s.sessions.filter fun _ e => Time.before ⟨1,0⟩ e).keys.card ≤ sessionHardCap := by
    refine (Finset.card_le_card (Finset.filter_subset _ _)).trans ?_
    rw [hkeys,Finset.card_image_of_injective _ drawn_injective,Finset.card_range]
    decide
  have hcap : enforceCap (.inOrder _) (.insertion _)
      (s.sessions.filter fun _ e => Time.before ⟨1,0⟩ e) = _ := if_pos hcard
  refine ⟨⟨(s.sessions.filter fun _ e => Time.before ⟨1,0⟩ e).erase (drawn 0),0,0⟩,?_,rfl,rfl,?_⟩
  · rw [swept,exec_append,hs]
    simp [exec,SessionStore.act,hreaping,hcapping,hcap]
  · have hne : drawn 7 ≠ drawn 0 := by decide
    simp only [SessionStore.validate]
    rw [get_erase_of_ne _ hne,get_filter,hget 7 (by decide)]
    rfl

end Swept

/-- However the calls interleave, there are at most as many sessions as the cap allows and one more
for each Create that has yet to sweep. -/
theorem sessions_bounded (ttl : ℤ) (calls : List SessionCall) {s : SessionStore}
    (h : exec (SessionStore.act ttl) {} calls=some s) :
    s.sessions.keys.card ≤ sessionHardCap+s.reaping+s.capping :=
  exec_invariant (fun _ _ _ hs hact => SessionStore.act_card hact hs) h (Nat.zero_le _)

theorem sessions_bounded_swept : ∃ s, exec (SessionStore.act 5) {} swept = some s ∧ s.reaping=0 ∧
    s.capping = 0 ∧ s.sessions.keys.card≤4096 := by
  obtain ⟨s,hs,hreaping,hcapping,-⟩ := exec_swept
  refine ⟨s,hs,hreaping,hcapping,?_⟩
  have hcard := sessions_bounded 5 swept hs
  rwa [hreaping,hcapping] at hcard

/-- Whoever is let in with a token got it from a Create less than the lifetime ago, and did not sign out since. -/
theorem validated_created (ttl : ℤ) {steps : List (Taken SessionStore SessionCall)} {s : SessionStore}
    (h : Trace (SessionStore.act ttl) {} steps s) {token : Text} {now e : Time}
    (hvalid : s.validate token now=some e) :
    ∃ before t after, steps.map Taken.label = before++.create token t :: after ∧ .delete token ∉ after ∧
      e = t.add ttl ∧ now.before e = true := by
  obtain ⟨hget,hbefore⟩ := Option.filter_eq_some_iff.mp hvalid
  obtain ⟨before,t,after,heq,hnot,he⟩ := SessionStore.stored_created h hget
  exact ⟨before,t,after,heq,hnot,he,hbefore⟩

theorem validated_created_swept : ∃ before t after,
    swept = before++.create (drawn 7) t :: after ∧ .delete (drawn 7) ∉ after ∧
      ⟨5,0⟩ = t.add 5 ∧ Time.before ⟨3,0⟩ ⟨5,0⟩ = true := by
  obtain ⟨s,hs,-,-,hvalid⟩ := exec_swept
  obtain ⟨htrace,hlabels⟩ := exec_trace hs .start
  have hcreated := validated_created 5 htrace hvalid
  rwa [nil_append,hlabels] at hcreated

end Pglens.Server

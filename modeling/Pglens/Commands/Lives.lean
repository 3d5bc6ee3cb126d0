import Pglens.Lib.Runs
import Pglens.Commands.Queue
import Mathlib.Data.List.Basic

/-! In every interleaving of the handlers a command goes through one of a few lives: it waits, is
claimed, is finished by a result or expires. What the tables and the history show of one command is
told by its life alone; a step moves at most the lives of commands that no transaction holds. -/
namespace Pglens.Commands
open Pglens.Lib List Function

section Views

def Happening.commandID : Happening → UUID
  | .claimed id _ _ _ _ => id
  | .expired id _ => id
  | .accepted id _ _ => id

/-- What the tables show of one command: its rows, the numbers of its requested rows and of the rows
that record its move out of pending or claimed, and what has happened to it, newest first. -/
structure View where
  rows : List Command
  requests : ℕ
  moves : ℕ
  happened : List Happening

namespace Tables

def requests (db : Tables) (id : UUID) : ℕ := db.audit.countP fun r => r.commandID == id && r.outcome == .requested

def moves (db : Tables) (id : UUID) : ℕ := db.audit.countP fun r => r.commandID == id && r.cause == .move

def happened (db : Tables) (id : UUID) : List Happening := db.history.filter fun h => h.commandID == id

def view (db : Tables) (id : UUID) : View := ⟨db.rows id,db.requests id,db.moves id,db.happened id⟩

variable {db : Tables} {id other : UUID} {c row : Command} {f : Command → Command}
  {req : ResultRequest} {audit : AuditRow}

lemma mem_rows : c ∈ db.rows id ↔ c∈db.commands ∧ c.commandID=id := by
  rw [rows,mem_filter,beq_iff_eq]

lemma rows_map {g : Command → Command} (hg : ∀ c, (g c).commandID=c.commandID)
    (commands : List Command) :
    (commands.map g).filter (fun c => c.commandID == id) = (commands.filter fun c => c.commandID == id).map g := by
  rw [filter_map]
  congr 1
  exact filter_congr fun c _ => by rw [comp_apply,hg]

lemma updateRow_keeps (hf : ∀ c, c.commandID=other → (f c).commandID=other)
    (c : Command) : (if c.commandID == other then f c else c).commandID = c.commandID := by
  split
  · next h => exact (hf c (beq_iff_eq.mp h)).trans (beq_iff_eq.mp h).symm
  · rfl

lemma rows_updateRow_own (db : Tables) (hf : ∀ c, c.commandID=id → (f c).commandID=id) :
    (db.updateRow id f).rows id = (db.rows id).map f := by
  refine (rows_map (updateRow_keeps hf) db.commands).trans (map_congr_left fun c hc => ?_)
  rw [if_pos (beq_iff_eq.mpr (mem_rows.mp hc).2)]

lemma rows_updateRow_other (db : Tables) (h : other≠id)
    (hf : ∀ c, c.commandID=other → (f c).commandID=other) :
    (db.updateRow other f).rows id = db.rows id := by
  refine (rows_map (updateRow_keeps hf) db.commands).trans ((map_congr_left fun c hc => ?_).trans (map_id _))
  rw [if_neg (by simpa [(mem_rows.mp hc).2] using Ne.symm h)]
  rfl

lemma view_insert_own (c : Command) :
    (db.insert c).view c.commandID = ⟨c::db.rows c.commandID,db.requests c.commandID+1,db.moves c.commandID,
      db.happened c.commandID⟩ := by
  simp [view,insert,rows,requests,moves,happened,Command.requestedRow]

lemma view_insert_other (h : c.commandID≠id) : (db.insert c).view id = db.view id := by
  simp [view,insert,rows,requests,moves,happened,Command.requestedRow,h]

lemma rows_claim_other (h : other≠id) (agentID token : UUID) (now reading : Time) :
    (db.claim other agentID token now reading).rows id = db.rows id :=
  rows_updateRow_other db h fun _ h => h

lemma rows_accept_other (h : other≠id)
    (hrow : row.commandID=other) : (db.accept other req row audit).rows id = db.rows id :=
  rows_updateRow_other db h fun _ _ => hrow

lemma view_claim_own (agentID token : UUID) (now reading : Time) :
    (db.claim id agentID token now reading).view id = ⟨(db.rows id).map (Command.claim now reading token),
      db.requests id,db.moves id,.claimed id agentID token now reading::db.happened id⟩ := by
  have hrows := @rows_updateRow_own id (Command.claim now reading token) db fun _ h => h
  simp only [view,View.mk.injEq]
  refine ⟨hrows,rfl,rfl,?_⟩
  simp [happened,claim,Happening.commandID]

lemma view_claim_other (h : other≠id) (agentID token : UUID) (now reading : Time) :
    (db.claim other agentID token now reading).view id = db.view id := by
  simp only [view,View.mk.injEq]
  refine ⟨rows_claim_other h agentID token now reading,rfl,rfl,?_⟩
  simp [happened,claim,Happening.commandID,h]

lemma view_accept_own (hrow : row.commandID=id) (haudit : audit.commandID=id)
    (hmove : audit.cause=.move) (houtcome : audit.outcome≠.requested) :
    (db.accept id req row audit).view id = ⟨(db.rows id).map fun _ => row,db.requests id,db.moves id+1,
      .accepted id req.claimToken req.outcome::db.happened id⟩ := by
  have hrows := @rows_updateRow_own id (fun _ => row) db fun _ _ => hrow
  simp only [view,View.mk.injEq]
  refine ⟨hrows,?_,?_,?_⟩
  · simp [requests,accept,updateRow,houtcome]
  · simp [moves,accept,updateRow,haudit,hmove]
  · simp [happened,accept,updateRow,Happening.commandID]

lemma view_accept_other (h : other≠id) (hrow : row.commandID=other)
    (haudit : audit.commandID=other) : (db.accept other req row audit).view id = db.view id := by
  simp only [view,View.mk.injEq]
  refine ⟨rows_accept_other h hrow,?_,?_,?_⟩
  · simp [requests,accept,updateRow,haudit,h]
  · simp [moves,accept,updateRow,haudit,h]
  · simp [happened,accept,updateRow,Happening.commandID,h]

lemma view_note (hlate : audit.cause=.late) (houtcome : audit.outcome≠.requested) :
    (db.note audit).view id = db.view id := by
  simp [view,note,rows,requests,moves,happened,hlate,houtcome]

lemma happened_expired (now : Time) (commands : List Command) :
    ((commands.filter (Command.lapsed now)).map fun c => Happening.expired c.commandID now).filter
        (fun h => h.commandID == id) =
      ((commands.filter fun c => c.commandID == id).filter (Command.lapsed now)).map fun _ => .expired id now := by
  rw [filter_map,filter_comm]
  refine map_congr_left fun c hc => ?_
  have hid := (mem_filter.mp (mem_filter.mp hc).1).2
  exact congrArg (Happening.expired · now) (beq_iff_eq.mp hid)

lemma view_expireCommands (now : Time) :
    (db.expireCommands now).view id =
      ⟨(db.rows id).map fun c => if c.lapsed now then c.expire now else c,db.requests id,
        db.moves id+(db.rows id).countP (Command.lapsed now),
        ((db.rows id).filter (Command.lapsed now)).map (fun _ => .expired id now)++db.happened id⟩ := by
  simp only [view,View.mk.injEq]
  refine ⟨rows_map (fun c => by split <;> rfl) db.commands,?_,?_,?_⟩
  · simp [requests,expireCommands,countP_map,comp_def,Command.expiredRow]
  · simp only [moves,expireCommands,countP_append,countP_map,rows,countP_filter]
    rw [Nat.add_comm]
    congr 1
    exact countP_congr fun c _ => by simp [Command.expiredRow,and_comm]
  · simp only [happened,expireCommands,filter_append,rows]
    rw [happened_expired]

end Tables

end Views

section Lives

inductive Life (id : UUID) : View → Prop
  | absent : Life id ⟨[],0,0,[]⟩
  | pending (c : Command) (hid : c.commandID=id) (hstate : c.state=.pending) : Life id ⟨[c],1,0,[]⟩
  | claimed (c : Command) (hid : c.commandID=id) (hstate : c.state=.claimed) (token : UUID)
    (htoken : c.claimToken=some token) (now reading : Time) (hlease : (leaseEnd reading).ns ≤ c.expiresAt.ns) :
    Life id ⟨[c],1,0,[.claimed id c.agentID token now reading]⟩
  | finished (c : Command) (hid : c.commandID=id) (hstate : c.state=.done ∨ c.state=.failed) (token : UUID)
    (outcome : Outcome) (now reading : Time) :
    Life id ⟨[c],1,1,[.accepted id token outcome,.claimed id c.agentID token now reading]⟩
  | expired (c : Command) (hid : c.commandID=id) (hstate : c.state=.expired) (stop : Time) :
    Life id ⟨[c],1,1,[.expired id stop]⟩
  | abandoned (c : Command) (hid : c.commandID=id) (hstate : c.state=.expired) (token : UUID)
    (now reading stop : Time) (hlease : (leaseEnd reading).ns ≤ stop.ns) :
    Life id ⟨[c],1,1,[.expired id stop,.claimed id c.agentID token now reading]⟩

variable {id : UUID} {v : View} {c : Command}

lemma Life.insert (h : Life id v) (hrows : v.rows=[]) (hid : c.commandID=id)
    (hstate : c.state=.pending) : Life id ⟨c::v.rows,v.requests+1,v.moves,v.happened⟩ := by
  cases h with
  | absent => exact .pending c hid hstate
  | pending | claimed | finished | expired | abandoned => cases hrows

lemma Life.of_pending (h : Life id v) (hc : c∈v.rows) (hpending : c.state=.pending) :
    c.commandID = id ∧ v = ⟨[c],1,0,[]⟩ := by
  cases h with
  | absent => cases hc
  | pending d hid =>
    obtain rfl := mem_singleton.mp hc
    exact ⟨hid,rfl⟩
  | claimed d _ hstate | expired d _ hstate | abandoned d _ hstate | finished d _ hstate =>
    obtain rfl := mem_singleton.mp hc
    simp [hpending] at hstate

lemma Life.of_claimed (h : Life id v) (hc : c∈v.rows) (hclaimed : c.state=.claimed) :
    c.commandID = id ∧ ∃ token now reading, c.claimToken = some token ∧
        (leaseEnd reading).ns ≤ c.expiresAt.ns ∧
      v = ⟨[c],1,0,[.claimed id c.agentID token now reading]⟩ := by
  cases h with
  | absent => cases hc
  | claimed d hid _ token htoken now reading hlease =>
    obtain rfl := mem_singleton.mp hc
    exact ⟨hid,token,now,reading,htoken,hlease,rfl⟩
  | pending d _ hstate | expired d _ hstate | abandoned d _ hstate | finished d _ hstate =>
    obtain rfl := mem_singleton.mp hc
    simp [hclaimed] at hstate

lemma Command.holdsClaim_iff {token : UUID} :
    c.holdsClaim token = true ↔ c.state=.claimed ∧ c.claimToken = some token := by
  rw [Command.holdsClaim,Bool.and_eq_true,beq_iff_eq,beq_iff_eq]

lemma leaseEnd_le_greatest (t reading : Time) :
    (leaseEnd reading).ns ≤ (greatest t (leaseEnd reading)).ns := by
  rw [greatest]
  split
  · exact le_refl _
  · next h => simpa using h

lemma Life.claim (h : Life id v) (hc : c∈v.rows) (hpending : c.state=.pending)
    (token : UUID) (now reading : Time) :
    Life id ⟨v.rows.map (Command.claim now reading token),v.requests,v.moves,
      .claimed id c.agentID token now reading::v.happened⟩ := by
  obtain ⟨hid,rfl⟩ := h.of_pending hc hpending
  exact .claimed (c.claim now reading token) hid rfl token rfl now reading (leaseEnd_le_greatest _ _)

lemma Life.accept (h : Life id v) (hc : c∈v.rows) {req : ResultRequest}
    (hclaim : c.holdsClaim req.claimToken=true) (finishedAt : Time) :
    Life id ⟨v.rows.map fun _ => c.finish req finishedAt,v.requests,v.moves+1,
      .accepted id req.claimToken req.outcome::v.happened⟩ := by
  rw [Command.holdsClaim_iff] at hclaim
  obtain ⟨hid,token,now,reading,htoken,-,rfl⟩ := h.of_claimed hc hclaim.1
  obtain rfl : token=req.claimToken := Option.some.inj (htoken.symm.trans hclaim.2)
  refine .finished (c.finish req finishedAt) hid ?_ req.claimToken req.outcome now reading
  rw [Command.finish]
  split
  · exact .inl rfl
  · exact .inr rfl

lemma Life.rows_eq (h : Life id v) (hc : c∈v.rows) : v.rows = [c] := by
  cases h with
  | absent => cases hc
  | pending | claimed | finished | expired | abandoned =>
    obtain rfl := mem_singleton.mp hc
    rfl

lemma Life.expire (h : Life id v) (now : Time) :
    Life id ⟨v.rows.map fun c => if c.lapsed now then c.expire now else c,v.requests,
      v.moves+v.rows.countP (Command.lapsed now),
      (v.rows.filter (Command.lapsed now)).map (fun _ => .expired id now)++v.happened⟩ := by
  by_cases hlapsed : ∃ c∈v.rows, c.lapsed now = true
  · obtain ⟨c,hc,hlapsed⟩ := hlapsed
    have hstate : c.state.final=false ∧ c.expiresAt.ns≤now.ns := by simpa [Command.lapsed] using hlapsed
    cases hs : c.state with
    | pending =>
      obtain ⟨hid,rfl⟩ := h.of_pending hc hs
      simp only [map_cons,map_nil,countP_singleton,filter_singleton,hlapsed,if_true]
      exact .expired (c.expire now) hid rfl now
    | claimed =>
      obtain ⟨hid,token,at',reading,-,hlease,rfl⟩ := h.of_claimed hc hs
      simp only [map_cons,map_nil,countP_singleton,filter_singleton,hlapsed,if_true]
      exact .abandoned (c.expire now) hid rfl token at' reading now (hlease.trans hstate.2)
    | done | failed | expired => simp [hs,CommandState.final] at hstate
  · have hnone : ∀ c∈v.rows, c.lapsed now = false := by simpa using hlapsed
    have hmap : (v.rows.map fun c => if c.lapsed now then c.expire now else c) = v.rows := by
      refine (map_congr_left fun c hc => ?_).trans (map_id _)
      rw [hnone c hc,if_neg Bool.false_ne_true]
      rfl
    have hcount : v.rows.countP (Command.lapsed now) = 0 := countP_eq_zero.mpr (by simpa using hnone)
    have hfilter : v.rows.filter (Command.lapsed now) = [] := filter_eq_nil_iff.mpr (by simpa using hnone)
    rw [hmap,hcount,hfilter]
    exact h

end Lives

section Locks

/-- A handler's transaction has updated the row of a command, and holds its lock. -/
def Holds (s : State) (n : ℕ) (id : UUID) (req : ResultRequest) (row : Command) : Prop :=
  s.locks id = some n ∧ ∃ c finishedAt, c ∈ s.tables.rows id ∧ c.holdsClaim req.claimToken = true ∧
    row = c.finish req finishedAt

def Session.Sound (s : State) (n : ℕ) : Session → Prop
  | .filing id req row => Holds s n id req row
  | .auditing id req row => Holds s n id req row
  | .committing id req row audit => Holds s n id req row ∧ audit = row.resultRow req
  | .committingLate audit => ∃ req c, audit = Command.lateRow req c
  | _ => True

/-- The invariant: each command has a life, and each session stands on what it holds. -/
structure Sound (s : State) : Prop where
  lives : ∀ id, Life id (s.tables.view id)
  sessions : ∀ n, (s.sessions n).Sound s n

lemma Sound.session {s : State} (h : Sound s) {n : ℕ} {session : Session}
    (hsession : s.sessions n=session) : session.Sound s n := by
  rw [← hsession]
  exact h.sessions n

inductive Change (s : State) (n : ℕ) : Tables → Prop
  | none : Change s n s.tables
  | insert (c : Command) (hnew : s.tables.rows c.commandID=[]) (hstate : c.state=.pending) :
    Change s n (s.tables.insert c)
  | expire (now : Time) (hfree : ∀ c∈s.tables.commands, c.lapsed now=true → s.locks c.commandID=none) :
    Change s n (s.tables.expireCommands now)
  | claim (c : Command) (hc : c∈s.tables.commands) (hstate : c.state=.pending)
    (hfree : s.locks c.commandID=none) (token : UUID) (now reading : Time) (hexpiry : now.ns<c.expiresAt.ns)
    (hrevoked : s.revoked c.agentID=false) :
    Change s n (s.tables.claim c.commandID c.agentID token now reading)
  | accept (id : UUID) (req : ResultRequest) (row : Command) (audit : AuditRow)
    (hsession : s.sessions n = .committing id req row audit) : Change s n (s.tables.accept id req row audit)
  | late (audit : AuditRow) (hsession : s.sessions n = .committingLate audit) : Change s n (s.tables.note audit)

variable {s t : State} {n m : ℕ} {db : Tables} {id : UUID}

lemma Holds.commandID {req : ResultRequest} {row : Command} (hholds : Holds s n id req row) :
    row.commandID = id := by
  obtain ⟨-,c,finishedAt,hc,-,rfl⟩ := hholds
  exact (Tables.mem_rows.mp hc).2

lemma Change.lives (hchange : Change s n db) (h : Sound s) (id : UUID) : Life id (db.view id) := by
  have hlife := h.lives id
  cases hchange with
  | none => exact hlife
  | insert c hnew hstate =>
    by_cases hid : c.commandID=id
    · subst hid
      rw [Tables.view_insert_own]
      exact hlife.insert hnew rfl hstate
    · rwa [Tables.view_insert_other hid]
  | expire now hfree =>
    rw [Tables.view_expireCommands]
    exact hlife.expire now
  | claim c hc hstate hfree token now reading hexpiry hrevoked =>
    by_cases hid : c.commandID=id
    · subst hid
      rw [Tables.view_claim_own]
      exact hlife.claim (Tables.mem_rows.mpr ⟨hc,rfl⟩) hstate token now reading
    · rwa [Tables.view_claim_other hid]
  | accept accepted req row audit hsession =>
    obtain ⟨hholds,rfl⟩ := h.session hsession
    have hrow := hholds.commandID
    by_cases hid : accepted=id
    · subst hid
      obtain ⟨-,c,finishedAt,hc,hclaim,rfl⟩ := hholds
      rw [Tables.view_accept_own hrow hrow rfl (by simp [Command.resultRow])]
      exact hlife.accept hc hclaim finishedAt
    · rwa [Tables.view_accept_other hid hrow hrow]
  | late audit hsession =>
    obtain ⟨req,c,rfl⟩ := h.session hsession
    rwa [Tables.view_note rfl (by simp [Command.lateRow])]

lemma Change.rows_of_locked (hchange : Change s n db) (h : Sound s) (hm : m≠n)
    (hlock : s.locks id=some m) {c : Command} (hc : c ∈ s.tables.rows id) : c ∈ db.rows id := by
  cases hchange with
  | none => exact hc
  | insert d hnew hstate =>
    obtain ⟨hmem,hid⟩ := Tables.mem_rows.mp hc
    exact Tables.mem_rows.mpr ⟨mem_cons_of_mem d hmem,hid⟩
  | expire now hfree =>
    obtain ⟨hmem,hid⟩ := Tables.mem_rows.mp hc
    have hlapsed : ¬c.lapsed now = true := by
      intro hl
      rw [← hid,hfree c hmem hl] at hlock
      cases hlock
    exact Tables.mem_rows.mpr ⟨mem_map.mpr ⟨c,hmem,if_neg hlapsed⟩,hid⟩
  | claim d hd hstate hfree token now reading hexpiry hrevoked =>
    have hne : d.commandID≠id := by
      rintro rfl
      rw [hfree] at hlock
      cases hlock
    rwa [Tables.rows_claim_other hne]
  | accept accepted req row audit hsession =>
    obtain ⟨hholds,rfl⟩ := h.session hsession
    have hne : accepted≠id := by
      rintro rfl
      exact hm (Option.some.inj (hlock.symm.trans hholds.1))
    rwa [Tables.rows_accept_other hne hholds.commandID]
  | late audit hsession => exact hc

/-- A change of the state that keeps the locks of a handler, and the rows under them. -/
def Spares (s t : State) (m : ℕ) : Prop :=
  ∀ id, s.locks id = some m → t.locks id = some m ∧ ∀ c ∈ s.tables.rows id, c ∈ t.tables.rows id

lemma Session.Sound.spared {session : Session} (h : session.Sound s m)
    (hspares : Spares s t m) : session.Sound t m := by
  have hholds : ∀ id req row, Holds s m id req row → Holds t m id req row := by
    rintro id req row ⟨hlock,c,finishedAt,hc,hclaim,hrow⟩
    obtain ⟨hlock',hrows⟩ := hspares id hlock
    exact ⟨hlock',c,finishedAt,hrows c hc,hclaim,hrow⟩
  cases session with
  | filing id req row => exact hholds id req row h
  | auditing id req row => exact hholds id req row h
  | committing id req row audit => exact ⟨hholds id req row h.1,h.2⟩
  | committingLate audit => exact h
  | _ => trivial

/-- What a step of handler `n` does: it changes the tables, keeps the other handlers' sessions and
locks, and comes to a sound session. -/
structure Moves (s t : State) (n : ℕ) : Prop where
  change : Change s n t.tables
  others : ∀ m, m≠n → t.sessions m = s.sessions m ∧ ∀ id, s.locks id = some m → t.locks id = some m
  own : (t.sessions n).Sound t n

lemma Moves.sound (hmoves : Moves s t n) (h : Sound s) : Sound t := by
  refine ⟨hmoves.change.lives h,fun m => ?_⟩
  by_cases hm : m=n
  · exact hm ▸ hmoves.own
  · obtain ⟨hsame,hlocks⟩ := hmoves.others m hm
    rw [hsame]
    exact (h.sessions m).spared fun id hlock =>
      ⟨hlocks id hlock,fun c hc => hmoves.change.rows_of_locked h hm hlock hc⟩

lemma moves_enter (hchange : Change s n db) {session : Session}
    (hown : session.Sound { s with tables := db } n) :
    Moves s (State.enter { s with tables := db } n session) n := by
  refine ⟨hchange,fun m hm => ⟨update_of_ne hm _ _,fun _ hlock => hlock⟩,?_⟩
  change Session.Sound _ n (update s.sessions n session n)
  rw [update_self]
  exact hown.spared fun _ hlock => ⟨hlock,fun _ hc => hc⟩

lemma moves_leave (hchange : Change s n db) : Moves s { s.leave n with tables := db } n := by
  refine ⟨hchange,fun m hm => ⟨update_of_ne hm _ _,fun id hlock => ?_⟩,?_⟩
  · change (if s.locks id=some n then none else s.locks id) = some m
    rw [if_neg (by rw [hlock]; simpa using hm),hlock]
  · change Session.Sound _ n (update s.sessions n .idle n)
    rw [update_self]
    trivial

lemma moves_lock (hfree : s.locks id=none) {session : Session}
    (hown : session.Sound (s.lock n id) n) : Moves s ((s.lock n id).enter n session) n := by
  have hsound : Moves (s.lock n id) ((s.lock n id).enter n session) n := moves_enter .none hown
  refine ⟨.none,fun m hm => ⟨update_of_ne hm _ _,fun other hlock => ?_⟩,hsound.own⟩
  have hne : other≠id := by
    rintro rfl
    rw [hfree] at hlock
    cases hlock
  exact (update_of_ne hne _ _).trans hlock

lemma Sound.moves_tables (h : Sound s) (hchange : ∀ n, Change s n db) (revoked : UUID → Bool) :
    Moves s { s with tables := db, revoked := revoked } n :=
  ⟨hchange n,fun _ _ => ⟨rfl,fun _ hlock => hlock⟩,
    (h.sessions n).spared fun _ hlock =>
      ⟨hlock,fun _ hc => (hchange (n+1)).rows_of_locked h (Nat.ne_of_lt n.lt_succ_self) hlock hc⟩⟩

end Locks

section Steps
variable {ttl : ℤ} {s t : State} {n : ℕ} {now reading : Time} {token id : UUID} {pick : Option UUID}
  {req : ResultRequest}

lemma expireCommands_change (h : s.expireCommands now=some t) :
    t = { s with tables := s.tables.expireCommands now } ∧ ∀ n, Change s n (s.tables.expireCommands now) := by
  unfold State.expireCommands at h
  split at h
  · cases h
  · next hnone =>
    refine ⟨(Option.some.inj h).symm,fun n => .expire now fun c hc hlapsed => ?_⟩
    simp only [any_eq_true,Bool.and_eq_true,not_exists,not_and] at hnone
    simpa using hnone c hc hlapsed

lemma claim_change {agentID : UUID} (h : s.claim agentID token now reading pick=some t) :
    t = { s with tables := t.tables } ∧ Change s n t.tables := by
  cases pick with
  | none =>
    simp only [State.claim] at h
    split at h
    · cases h
      exact ⟨rfl,.none⟩
    · cases h
  | some id =>
    simp only [State.claim] at h
    split at h
    · next hany =>
      cases h
      obtain ⟨c,hc,hpick⟩ := any_eq_true.mp hany
      simp only [State.claimable,mem_filter,Bool.and_eq_true,beq_iff_eq,Time.before_iff,
        Bool.not_eq_true',Option.isNone_iff_eq_none] at hc hpick
      obtain ⟨hmem,⟨⟨⟨rfl,hstate⟩,hexpiry⟩,hrevoked⟩,hfree⟩ := hc
      obtain ⟨rfl,-⟩ := hpick
      exact ⟨rfl,.claim c hmem hstate hfree token now reading hexpiry hrevoked⟩
    · cases h

lemma update_moves (h : s.update n now id req=some t) : Moves s t n := by
  unfold State.update at h
  split at h
  · cases h
    exact moves_enter .none trivial
  · next c hfind =>
    split at h
    · cases h
    · next hfree =>
      cases h
      refine moves_lock (by simpa using hfree) ⟨update_self _ _ _,c,now,mem_of_find?_eq_some hfind,?_,rfl⟩
      exact find?_some hfind

lemma select_moves (h : s.select n id req=some t) : Moves s t n := by
  unfold State.select at h
  split at h
  · cases h
    exact moves_enter .none trivial
  · split at h
    · cases h
    · next hfree =>
      cases h
      refine moves_lock (by simpa using hfree) ?_
      split <;> trivial

lemma count_moves (hstep : step ttl s (.count n now)=some t) : Moves s t n := by
  simp only [step.eq_def] at hstep
  split at hstep
  · split at hstep
    · cases hstep
      exact moves_leave .none
    · cases hstep
      exact moves_enter .none trivial
  · cases hstep

lemma insert_moves (hstep : step ttl s (.insert n now reading id)=some t) : Moves s t n := by
  simp only [step.eq_def] at hstep
  split at hstep
  · split at hstep
    · next hnew =>
      cases hstep
      exact moves_leave (.insert _ hnew rfl)
    · cases hstep
      exact moves_leave .none
  · cases hstep

lemma sweep_moves (hstep : step ttl s (.sweep n now)=some t) : Moves s t n := by
  simp only [step.eq_def] at hstep
  split at hstep
  · obtain ⟨u,hu,rfl⟩ := Option.map_eq_some_iff.mp hstep
    obtain ⟨rfl,hchange⟩ := expireCommands_change hu
    exact moves_enter (hchange n) trivial
  · cases hstep

lemma claim_moves
    (hstep : step ttl s (.claim n now reading token pick)=some t) : Moves s t n := by
  simp only [step.eq_def] at hstep
  split at hstep
  · obtain ⟨u,hu,rfl⟩ := Option.map_eq_some_iff.mp hstep
    obtain ⟨hu',hchange⟩ := claim_change (n := n) hu
    rw [hu']
    exact moves_leave hchange
  · cases hstep

lemma post_moves (hstep : step ttl s (.post n id req)=some t) : Moves s t n := by
  simp only [step.eq_def] at hstep
  split at hstep
  · split at hstep
    · cases hstep
      exact moves_enter .none trivial
    · cases hstep
  · cases hstep

lemma lookUp_moves (hstep : step ttl s (.lookUp n)=some t) : Moves s t n := by
  simp only [step.eq_def] at hstep
  split at hstep
  · split at hstep
    · cases hstep
      exact moves_leave .none
    · cases hstep
      exact moves_enter .none trivial
  · cases hstep

lemma Sound.file_moves (h : Sound s) (hstep : step ttl s (.file n)=some t) : Moves s t n := by
  simp only [step.eq_def] at hstep
  split at hstep
  · next id req row hsession =>
    cases hstep
    have hholds : Holds s n id req row := h.session hsession
    exact moves_enter .none hholds
  · cases hstep

lemma Sound.audit_moves (h : Sound s) (hstep : step ttl s (.audit n)=some t) : Moves s t n := by
  simp only [step.eq_def] at hstep
  split at hstep
  · next id req row hsession =>
    cases hstep
    have hholds : Holds s n id req row := h.session hsession
    exact moves_enter .none ⟨hholds,rfl⟩
  · cases hstep
    exact moves_enter .none ⟨_,_,rfl⟩
  · cases hstep

lemma commit_moves (hstep : step ttl s (.commit n)=some t) : Moves s t n := by
  simp only [step.eq_def] at hstep
  split at hstep
  · next id req row audit hsession =>
    cases hstep
    exact moves_leave (.accept id req row audit hsession)
  · next audit hsession =>
    cases hstep
    exact moves_leave (.late audit hsession)
  · cases hstep

theorem step_moves (h : Sound s) {act : Act} (hstep : step ttl s act=some t) :
    ∃ n, Moves s t n := by
  cases act with
  | enqueue n req =>
    simp only [step.eq_def] at hstep
    split at hstep
    · cases hstep
      exact ⟨n,moves_enter .none trivial⟩
    · cases hstep
  | count n now => exact ⟨n,count_moves hstep⟩
  | insert n now reading id => exact ⟨n,insert_moves hstep⟩
  | poll n agentID =>
    simp only [step.eq_def] at hstep
    split at hstep
    · cases hstep
      exact ⟨n,moves_enter .none trivial⟩
    · cases hstep
  | sweep n now => exact ⟨n,sweep_moves hstep⟩
  | claim n now reading token pick => exact ⟨n,claim_moves hstep⟩
  | get now =>
    obtain ⟨rfl,hchange⟩ := expireCommands_change hstep
    exact ⟨0,h.moves_tables hchange s.revoked⟩
  | post n id req => exact ⟨n,post_moves hstep⟩
  | lookUp n => exact ⟨n,lookUp_moves hstep⟩
  | update n now =>
    simp only [step.eq_def] at hstep
    split at hstep
    · exact ⟨n,update_moves hstep⟩
    · cases hstep
  | select n =>
    simp only [step.eq_def] at hstep
    split at hstep
    · exact ⟨n,select_moves hstep⟩
    · cases hstep
  | file n => exact ⟨n,h.file_moves hstep⟩
  | audit n => exact ⟨n,h.audit_moves hstep⟩
  | commit n => exact ⟨n,commit_moves hstep⟩
  | fail n =>
    cases hstep
    exact ⟨n,moves_leave .none⟩
  | revoke agentID revoked =>
    cases hstep
    exact ⟨0,h.moves_tables (fun _ => .none) _⟩

lemma sound_start (revoked : UUID → Bool) : Sound (State.start revoked) :=
  ⟨fun _ => .absent,fun _ => trivial⟩

end Steps

section Safety

def Happening.isClaim : Happening → Bool
  | .claimed _ _ _ _ _ => true
  | _ => false

def Happening.isResult : Happening → Bool
  | .accepted _ _ _ => true
  | _ => false

structure Safe (db : Tables) (id : UUID) : Prop where
  life : Life id (db.view id)
  claimedOnce : (db.happened id).countP Happening.isClaim ≤ 1
  acceptedOnce : (db.happened id).countP Happening.isResult ≤ 1
  acceptedWithToken : ∀ token outcome, .accepted id token outcome ∈ db.history →
    ∃ agentID now reading, .claimed id agentID token now reading ∈ db.history
  leased : ∀ agentID token now reading stop, .claimed id agentID token now reading ∈ db.history →
    .expired id stop ∈ db.history → (leaseEnd reading).ns ≤ stop.ns
  requestedOnce : db.requests id = (db.rows id).length ∧ (db.rows id).length ≤ 1
  movedOnce : db.moves id ≤ 1

structure SafeStep (s t : State) : Prop where
  /-- done, failed and expired never change again. -/
  final : ∀ c∈s.tables.commands, c.state.final=true → t.tables.rows c.commandID = [c]
  recorded : s.tables.history <:+ t.tables.history
  claims : ∀ new, t.tables.history = new++s.tables.history → ∀ id agentID token now reading,
    .claimed id agentID token now reading ∈ new →
      ∃ c ∈ s.tables.rows id, c.state=.pending ∧ c.agentID=agentID ∧ now.ns<c.expiresAt.ns ∧
        s.revoked agentID = false
  accepts : ∀ new, t.tables.history = new++s.tables.history → ∀ id token outcome,
    .accepted id token outcome ∈ new → ∃ c ∈ s.tables.rows id, c.state=.claimed ∧ c.claimToken = some token

variable {db : Tables} {id : UUID} {v : View} {s : State} {c : Command} {n : ℕ}

lemma mem_happened {h : Happening} (hid : h.commandID=id) :
    h ∈ db.history ↔ h ∈ db.happened id := by
  rw [Tables.happened,mem_filter]
  simp [hid]

lemma Life.happened (h : Life id v) :
    v.happened.countP Happening.isClaim ≤ 1 ∧ v.happened.countP Happening.isResult ≤ 1 ∧
      (∀ token outcome, Happening.accepted id token outcome ∈ v.happened →
        ∃ agentID now reading, Happening.claimed id agentID token now reading ∈ v.happened) ∧
      ∀ agentID token now reading stop, Happening.claimed id agentID token now reading ∈ v.happened →
        Happening.expired id stop ∈ v.happened → (leaseEnd reading).ns ≤ stop.ns := by
  cases h with
  | absent | pending | claimed | finished | expired => simp [countP_cons,Happening.isClaim,Happening.isResult]
  | abandoned c hid hstate token now reading stop hlease =>
    refine ⟨by simp [countP_cons,Happening.isClaim],by simp [Happening.isResult],by simp,?_⟩
    intro agentID token' now' reading' stop' hclaimed hexpired
    simp only [mem_cons,reduceCtorEq,false_or,not_mem_nil,or_false,Happening.claimed.injEq,
      Happening.expired.injEq] at hclaimed hexpired
    rw [hclaimed.2.2.2.2,hexpired.2]
    exact hlease

lemma Life.counts (h : Life id v) : v.requests = v.rows.length ∧ v.rows.length≤1 ∧ v.moves≤1 := by
  cases h with
  | absent | pending | claimed | finished | expired | abandoned => simp

lemma Life.safe (h : Life id (db.view id)) : Safe db id := by
  obtain ⟨hclaims,hresults,htoken,hlease⟩ := h.happened
  obtain ⟨hrequests,hrows,hmoves⟩ := h.counts
  refine ⟨h,hclaims,hresults,fun token outcome hmem => ?_,fun agentID token now reading stop hclaimed hexpired => ?_,
    ⟨hrequests,hrows⟩,hmoves⟩
  · obtain ⟨agentID,now,reading,hclaimed⟩ := htoken token outcome ((mem_happened rfl).mp hmem)
    exact ⟨agentID,now,reading,(mem_happened rfl).mpr hclaimed⟩
  · exact hlease agentID token now reading stop ((mem_happened rfl).mp hclaimed) ((mem_happened rfl).mp hexpired)

lemma Sound.unique (h : Sound s) {d : Command} (hc : c ∈ s.tables.rows id)
    (hd : d ∈ s.tables.rows id) : c=d := by
  have heq := ((h.lives id).rows_eq hc).symm.trans ((h.lives id).rows_eq hd)
  exact (List.cons.inj heq).1

lemma Change.final (hchange : Change s n db) (h : Sound s)
    (hc : c∈s.tables.commands) (hfinal : c.state.final=true) : c ∈ db.rows c.commandID := by
  have hrow := Tables.mem_rows.mpr ⟨hc,rfl⟩
  cases hchange with
  | none => exact hrow
  | insert d hnew hstate => exact Tables.mem_rows.mpr ⟨mem_cons_of_mem d hc,rfl⟩
  | expire now hfree =>
    have hlapsed : ¬c.lapsed now = true := by simp [Command.lapsed,hfinal]
    exact Tables.mem_rows.mpr ⟨mem_map.mpr ⟨c,hc,if_neg hlapsed⟩,rfl⟩
  | claim d hd hstate hfree token now reading hexpiry hrevoked =>
    have hne : d.commandID≠c.commandID := by
      intro heq
      obtain rfl := h.unique (Tables.mem_rows.mpr ⟨hd,heq⟩) hrow
      rw [hstate] at hfinal
      cases hfinal
    rwa [Tables.rows_claim_other hne]
  | accept accepted req row audit hsession =>
    obtain ⟨hholds,rfl⟩ := h.session hsession
    have hne : accepted≠c.commandID := by
      rintro rfl
      obtain ⟨-,d,_,hd,hclaim,-⟩ := hholds
      obtain rfl := h.unique hd hrow
      rw [Command.holdsClaim_iff] at hclaim
      rw [hclaim.1] at hfinal
      cases hfinal
    rwa [Tables.rows_accept_other hne hholds.commandID]
  | late audit hsession => exact hrow

lemma Change.recorded (hchange : Change s n db) (h : Sound s) :
    ∃ new, db.history = new++s.tables.history ∧
      (∀ id agentID token now reading, .claimed id agentID token now reading ∈ new →
        ∃ c ∈ s.tables.rows id, c.state=.pending ∧ c.agentID=agentID ∧ now.ns<c.expiresAt.ns ∧
          s.revoked agentID=false) ∧
      ∀ id token outcome, .accepted id token outcome ∈ new →
        ∃ c ∈ s.tables.rows id, c.state=.claimed ∧ c.claimToken = some token := by
  cases hchange with
  | none | insert | late => exact ⟨[],rfl,by simp,by simp⟩
  | expire now hfree => exact ⟨_,rfl,by simp,by simp⟩
  | claim d hd hstate hfree token now reading hexpiry hrevoked =>
    refine ⟨[_],rfl,?_,by simp⟩
    intro id agentID token' now' reading' hmem
    obtain ⟨rfl,rfl,rfl,rfl,rfl⟩ := Happening.claimed.inj (mem_singleton.mp hmem)
    exact ⟨d,Tables.mem_rows.mpr ⟨hd,rfl⟩,hstate,rfl,hexpiry,hrevoked⟩
  | accept accepted req row audit hsession =>
    obtain ⟨⟨-,c,_,hc,hclaim,-⟩,-⟩ := h.session hsession
    rw [Command.holdsClaim_iff] at hclaim
    refine ⟨[_],rfl,by simp,?_⟩
    intro id token outcome hmem
    obtain ⟨rfl,rfl,rfl⟩ := Happening.accepted.inj (mem_singleton.mp hmem)
    exact ⟨c,hc,hclaim⟩

lemma Change.safeStep {t : State} (hchange : Change s n t.tables) (h : Sound s) : SafeStep s t := by
  obtain ⟨new,hnew,hclaims,haccepts⟩ := hchange.recorded h
  have hsame : ∀ new', t.tables.history = new'++s.tables.history → new'=new := fun new' hnew' =>
    append_cancel_right (hnew'.symm.trans hnew)
  refine ⟨fun c hc hfinal => (hchange.lives h _).rows_eq (hchange.final h hc hfinal),⟨new,hnew.symm⟩,?_,?_⟩
  · intro new' hnew'
    exact hsame new' hnew' ▸ hclaims
  · intro new' hnew'
    exact hsame new' hnew' ▸ haccepts

/-- The queue is safe in every interleaving of its handlers. -/
theorem command_queue_safe (ttl : ℤ) (revoked : UUID → Bool) (acts : List Act) {s : State}
    (h : exec (step ttl) (State.start revoked) acts=some s) :
    (∀ id, Safe s.tables id) ∧ ∀ act t, step ttl s act = some t → SafeStep s t := by
  have hsound : Sound s := exec_invariant
    (fun s act t hs hstep => (step_moves hs hstep).elim fun _ hmoves => hmoves.sound hs) h (sound_start revoked)
  refine ⟨fun id => (hsound.lives id).safe,fun act t hstep => ?_⟩
  obtain ⟨n,hmoves⟩ := step_moves hsound hstep
  exact hmoves.change.safeStep hsound

def oneCommand : List Act :=
  [.enqueue 0 ⟨5,1,⟨2,.cancel,[],[]⟩⟩,.count 0 ⟨0,0⟩,.insert 0 ⟨0,0⟩ ⟨0,0⟩ 7,.poll 1 5,
    .sweep 1 ⟨1,0⟩,.claim 1 ⟨1,0⟩ ⟨1,0⟩ 9 (some 7),.post 2 7 ⟨9,.ok,[],[]⟩,.lookUp 2,
    .update 2 ⟨2,0⟩,.file 2,.audit 2,.commit 2]

theorem one_command_finished :
    ∃ s, exec (step Duration.minute) (State.start fun _ => false) oneCommand = some s ∧
      s.tables.happened 7 = [.accepted 7 9 .ok,.claimed 7 5 9 ⟨1,0⟩ ⟨1,0⟩] ∧ Safe s.tables 7 := by
  refine ⟨_,rfl,?_,(command_queue_safe Duration.minute (fun _ => false) oneCommand rfl).1 7⟩
  decide +kernel

end Safety

end Pglens.Commands

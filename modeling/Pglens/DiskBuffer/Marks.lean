import Pglens.DiskBuffer.Stored

/-! The checkpoint, in memory and on disk, is a position in the segment files. It is sound when
every stored frame it is past is acknowledged. The frames below a number `k` are left out of
account: they are those a directory of unknown origin held when it was opened. -/
namespace Pglens.DiskBuffer
open Pglens.Lib List

/-- A position between two frames, or in a segment that is gone. -/
structure Place (g : Ghost) (c : ℕ × ℕ) : Prop where
  last : ∀ l∈g.segs.getLast?, c.1≤l.id
  boundary : ∀ l∈g.segs, l.id=c.1 → l.Boundary c.2

/-- A sound checkpoint. -/
structure Mark (k : ℕ) (g : Ghost) (c : ℕ × ℕ) : Prop extends Place g c where
  passed : ∀ n, g.first≤n → n < g.number c → n<k ∨ n∈g.acked

/-- A position does not reach into the segments that are numbered from `next` on. -/
def Below (next : ℕ) (c : ℕ × ℕ) : Prop := c.1 < next ∧ c.2 < 2^64 ∨ c.1=0 ∧ c.2=0

variable {c : ℕ × ℕ} {f : List UInt8} {l : Layout} {off : ℕ}

lemma Below.mono {m n : ℕ} (h : Below m c) (hmn : m≤n) : Below n c := by
  unfold Below at *
  omega

def IsRecord (f : List UInt8) : Prop :=
  ∃ data, 0<data.length ∧ data.length < maxRecord ∧ f = frame data

/-- What a crash leaves behind, wherever it comes. -/
structure OnDisk (k : ℕ) (d : Disk) (g : Ghost) : Prop where
  stored : Stored records.Stuck d g
  written : g.history=g.written
  appended : ∀ n f, k≤n → g.history[n]? = some f → IsRecord f
  checkpoint : ∀ c∈d.checkpoint, c.1+1 < 2^32 ∧ Mark k g c

lemma IsRecord.complete (h : IsRecord f) : records.Complete f := by
  obtain ⟨data,-,hlt,rfl⟩ := h
  exact frame_complete (hlt.trans maxRecord_lt)

lemma IsRecord.length_lt (h : IsRecord f) : f.length < 2^32 := by
  obtain ⟨data,-,hlt,rfl⟩ := h
  unfold maxRecord at hlt
  rw [length_frame]
  omega

lemma IsRecord.hasPayload (h : IsRecord f) : hasPayload f = true := by
  obtain ⟨data,hpos,-,rfl⟩ := h
  simp only [DiskBuffer.hasPayload,length_frame,decide_eq_true_eq]
  omega

lemma Layout.Boundary.le_size (h : l.Boundary off) : off≤l.size := by
  obtain ⟨fs,gs,hframes,rfl⟩ := h
  simp [Layout.size,hframes]

lemma Layout.Boundary.snoc (h : l.Boundary off) (f : List UInt8) :
    ({ l with frames := l.frames++[f] } : Layout).Boundary off := by
  obtain ⟨fs,gs,hframes,rfl⟩ := h
  exact ⟨fs,gs++[f],by simp [hframes],rfl⟩

section Effects
variable {k id : ℕ} {d : Disk} {g : Ghost} {c : ℕ × ℕ} {ls segs : List Layout} {l : Layout}
  {f : List UInt8}

lemma Place.create (h : Place g c) (hc : c.1 < id ∨ c.1=0 ∧ c.2=0) :
    Place (g.apply (.create id)) c := by
  refine ⟨fun l hl => ?_,fun l hl hid => ?_⟩
  · obtain rfl : (⟨id,0,[]⟩ : Layout) = l := by simpa using hl
    simp only
    omega
  · rcases mem_append.mp hl with hl | hl
    · exact h.boundary l hl hid
    · obtain rfl := mem_singleton.mp hl
      refine ⟨[],[],rfl,?_⟩
      simp only at hid ⊢
      simp
      omega

lemma Place.number_write (h : Place g c) (hs : g.Sorted) (hsegs : g.segs=ls++[l])
    (hf : records.Complete f) : (g.apply (.write l.id f)).number c = g.number c := by
  have hl : l∈g.segs := by simp [hsegs]
  exact DiskBuffer.number_write hs hsegs hf (h.last l (by simp [hsegs]))
    fun hid => (h.boundary l hl hid).le_size

lemma Place.write (h : Place g c) (hs : g.Sorted) (hsegs : g.segs=ls++[l])
    (hf : records.Complete f) : Place (g.apply (.write l.id f)) c := by
  rw [apply_write hs hsegs hf]
  refine ⟨fun l' hl' => ?_,fun l' hl' hid => ?_⟩
  · obtain rfl : { l with frames := l.frames++[f] } = l' := by simpa using hl'
    exact h.last l (by simp [hsegs])
  · rcases mem_append.mp hl' with hl' | hl'
    · exact h.boundary l' (by simp [hsegs,hl']) hid
    · obtain rfl := mem_singleton.mp hl'
      exact (h.boundary l (by simp [hsegs]) hid).snoc f

lemma Place.remove (h : Place g c) (hsegs : g.segs=l::segs) (reason : Option Reason) :
    Place (g.apply (.remove l.id reason)) c := by
  rw [apply_remove hsegs]
  refine ⟨fun l' hl' => h.last l' ?_,fun l' hl' hid => ?_⟩
  · rw [hsegs,getLast?_cons]
    simp only at hl'
    simp [Option.mem_def.mp hl']
  · exact h.boundary l' (by simp [hsegs,show l' ∈ segs from hl']) hid

lemma Place.start (hs : g.Sorted) (hl : l∈g.segs) (hbase : l.base=0) : Place g (l.id,0) := by
  refine ⟨fun l' hl' => hs.le_last hl hl',fun l' hl' hid => ?_⟩
  obtain rfl := hs.inj hl' hl hid
  exact ⟨[],l'.frames,rfl,by simp [hbase]⟩

lemma Mark.create (h : Mark k g c) (hc : Below id c) : Mark k (g.apply (.create id)) c := by
  refine ⟨h.toPlace.create (by unfold Below at hc; omega),fun n h1 h2 => ?_⟩
  rw [number_create] at h2
  exact h.passed n h1 h2

lemma Mark.write (h : Mark k g c) (hs : g.Sorted) (hsegs : g.segs=ls++[l])
    (hf : records.Complete f) : Mark k (g.apply (.write l.id f)) c := by
  refine ⟨h.toPlace.write hs hsegs hf,fun n h1 h2 => ?_⟩
  rw [h.toPlace.number_write hs hsegs hf] at h2
  rw [apply_write hs hsegs hf] at h1 ⊢
  exact h.passed n h1 h2

lemma Mark.remove (h : Mark k g c) (hs : g.Sorted) (hsegs : g.segs=l::segs)
    (reason : Option Reason) : Mark k (g.apply (.remove l.id reason)) c := by
  have hnum := number_remove hs hsegs reason c
  have hfirst := first_remove hsegs reason
  refine ⟨h.toPlace.remove hsegs reason,fun n h1 h2 => ?_⟩
  have := h.passed n (by omega) (by omega)
  rw [apply_remove hsegs]
  exact this

lemma OnDisk.create (h : OnDisk k d g) (hid : ∀ l∈g.segs, l.id < id)
    (hlt : id+1<2^32) (hc : ∀ c∈d.checkpoint, Below id c) :
    OnDisk k (d.apply (.create id)) (g.apply (.create id)) := by
  refine ⟨h.stored.create Framing.stuck_nil hid hlt,(history_create g id).trans h.written,
    fun n f hn hf => h.appended n f hn ?_,
    fun c hmem => ⟨(h.checkpoint c hmem).1,(h.checkpoint c hmem).2.create (hc c hmem)⟩⟩
  rwa [history_create] at hf

lemma OnDisk.write (h : OnDisk k d g) (hsegs : g.segs=ls++[l]) (hend : Held (· = []) d l)
    (hf : IsRecord f) (hsize : l.size+f.length<2^64) :
    OnDisk k (d.apply (.write l.id f)) (g.apply (.write l.id f)) := by
  have hs := h.stored.sorted
  refine ⟨h.stored.write Framing.stuck_nil hsegs hend hf.complete hf.length_lt hf.hasPayload hsize,
    ?_,fun n f' hn hf' => ?_,fun c hmem =>
    ⟨(h.checkpoint c hmem).1,(h.checkpoint c hmem).2.write hs hsegs hf.complete⟩⟩
  · rw [history_write hs hsegs hf.complete,apply_write hs hsegs hf.complete,h.written]
  rw [history_write hs hsegs hf.complete] at hf'
  rcases Nat.lt_or_ge n g.history.length with hlt | hge
  · rw [getElem?_append_left hlt] at hf'
    exact h.appended n f' hn hf'
  · rw [getElem?_append_right hge] at hf'
    obtain rfl : f=f' := by
      have := mem_of_getElem? hf'
      exact (mem_singleton.mp this).symm
    exact hf

lemma OnDisk.write_stuck (h : OnDisk k d g) (hl : l∈g.segs) (hend : Held (· = []) d l)
    {r : List UInt8} (hr : records.Stuck r) : OnDisk k (d.apply (.write l.id r)) g :=
  ⟨h.stored.write_stuck hl hend hr,h.written,h.appended,h.checkpoint⟩

lemma OnDisk.truncate (h : OnDisk k d g) (hl : l∈g.segs) :
    OnDisk k (d.apply (.truncate l.id l.size)) g :=
  ⟨h.stored.truncate Framing.stuck_nil hl,h.written,h.appended,h.checkpoint⟩

lemma OnDisk.remove (h : OnDisk k d g) (hsegs : g.segs=l::segs) (reason : Option Reason) :
    OnDisk k (d.apply (.remove l.id reason)) (g.apply (.remove l.id reason)) := by
  refine ⟨h.stored.remove hsegs reason,?_,fun n f hn hf => h.appended n f hn ?_,fun c hmem =>
    ⟨(h.checkpoint c hmem).1,(h.checkpoint c hmem).2.remove h.stored.sorted hsegs reason⟩⟩
  · rw [history_remove hsegs,apply_remove hsegs,h.written]
  rwa [history_remove hsegs] at hf

end Effects

lemma checkpoint_saveAcked (d : Disk) {segID : ℕ} (hid : segID<2^32) (hoff : off<2^64) :
    (d.apply (.saveAcked (ackedBytes segID off))).checkpoint = some (segID,off) := by
  have hlen : ¬(ackedBytes segID off).length < 12 := by simp [ackedBytes]
  have h1 : (ackedBytes segID off).take 4 = putLE 4 segID := by
    rw [ackedBytes,take_left' (by simp)]
  have h2 : ((ackedBytes segID off).drop 4).take 8 = putLE 8 off := by
    rw [ackedBytes,drop_left' (by simp),take_of_length_le (by simp)]
  simp only [Disk.apply,Disk.checkpoint,Option.bind_some,hlen,if_false,h1,h2]
  rw [getLE_putLE_of_lt (by omega),getLE_putLE_of_lt (by omega)]

lemma OnDisk.saveAcked {k : ℕ} {d : Disk} {g : Ghost} (h : OnDisk k d g)
    {next : ℕ} (hb : Below next c) (hnext : next<2^32) (hc : Mark k g c) :
    OnDisk k (d.apply (.saveAcked (ackedBytes c.1 c.2))) g := by
  unfold Below at hb
  refine ⟨h.stored.acked _,h.written,h.appended,fun c' hc' => ?_⟩
  rw [checkpoint_saveAcked d (by omega) (by omega)] at hc'
  cases hc'
  exact ⟨by omega,hc⟩

end Pglens.DiskBuffer

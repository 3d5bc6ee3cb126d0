import Pglens.DiskBuffer.Layout

/-! The correspondence between the directory and its log, and what each effect of the buffer does to
it. A file is its layout's frames and a tail, which is empty after a clean write and has no complete
frame after a torn one. -/
namespace Pglens.DiskBuffer
open Pglens.Lib List

/-- The file of a segment is some bytes up to the layout's base, its frames and a tail. -/
def Held (T : List UInt8 → Prop) (d : Disk) (l : Layout) : Prop :=
  ∃ pre tail, pre.length=l.base ∧ d.content l.id = pre++(l.frames.flatten++tail) ∧ T tail

/-- Frames without a payload and a rest without a frame: what a recovery walk cuts. -/
def Blank (tail : List UInt8) : Prop :=
  ∃ zs r, tail = List.flatten zs++r ∧
    (∀ z∈zs, records.Complete z ∧ hasPayload z=false) ∧ records.Stuck r

/-- What a layout is in itself: frames the reader can step over, the last with a payload. -/
structure Layout.Sound (l : Layout) : Prop where
  id : l.id+1 < 2^32
  frames : ∀ f∈l.frames, records.Complete f ∧ f.length < 2^32
  trailing : ∀ f∈l.frames.getLast?, hasPayload f = true
  size : l.size < 2^64

/-- The directory holds exactly the segments of the log. -/
structure Stored (T : List UInt8 → Prop) (d : Disk) (g : Ghost) : Prop where
  sorted : g.Sorted
  keys : ∀ id, (d.files.get id).isSome = true ↔ ∃ l∈g.segs, l.id=id
  sound : ∀ l∈g.segs, l.Sound
  held : ∀ l∈g.segs, Held T d l

variable {T T' : List UInt8 → Prop} {d : Disk} {l l' : Layout} {g : Ghost} {t f : List UInt8}
  {ls : List Layout}

lemma Held.mono (hT : ∀ t, T t → T' t) (h : Held T d l) : Held T' d l := by
  obtain ⟨pre,tail,hpre,hfile,ht⟩ := h
  exact ⟨pre,tail,hpre,hfile,hT tail ht⟩

lemma Held.congr {d' : Disk} (h : Held T d l)
    (hd : d'.content l.id=d.content l.id) : Held T d' l := by
  rw [Held,hd]
  exact h

lemma Held.size_le (h : Held T d l) : l.size ≤ (d.content l.id).length := by
  obtain ⟨pre,tail,hpre,hfile,-⟩ := h
  rw [hfile,Layout.size]
  simp only [length_append]
  omega

lemma Stored.mono (hT : ∀ t, T t → T' t) (h : Stored T d g) : Stored T' d g :=
  ⟨h.sorted,h.keys,h.sound,fun l hl => (h.held l hl).mono hT⟩

lemma stuck_of_nil (h : t=[]) : records.Stuck t := by
  subst h
  exact Framing.stuck_nil

lemma Blank.of_stuck (h : records.Stuck t) : Blank t :=
  ⟨[],t,rfl,by simp,h⟩

lemma Ghost.Sorted.last_id (hs : g.Sorted) (h : g.segs=ls++[l]) : ∀ l'∈ls, l'.id<l.id := by
  rw [Ghost.Sorted,h,map_append,pairwise_append] at hs
  exact fun l' hl => hs.2.2 l'.id (mem_map_of_mem hl) l.id (by simp)

lemma Ghost.Sorted.le_last (hs : g.Sorted) (hl : l∈g.segs)
    (hl' : l'∈g.segs.getLast?) : l.id≤l'.id := by
  obtain ⟨ls,hls⟩ := getLast?_eq_some_iff.mp hl'
  rw [hls] at hl
  rcases mem_append.mp hl with hl | hl
  · exact (hs.last_id hls l hl).le
  · rw [mem_singleton.mp hl]

lemma Ghost.Sorted.inj (hs : g.Sorted) (hl : l∈g.segs) (hl' : l'∈g.segs) (h : l.id=l'.id) : l=l' :=
  inj_on_of_nodup_map (hs.imp fun h => Nat.ne_of_lt h) hl hl' h

lemma Ghost.Sorted.create (hs : g.Sorted) {id : ℕ} (hid : ∀ l∈g.segs, l.id < id) :
    (g.apply (.create id)).Sorted := by
  rw [Ghost.Sorted,apply_create,map_append,pairwise_append]
  refine ⟨hs,by simp,fun i hi j hj => ?_⟩
  obtain ⟨l,hl,rfl⟩ := mem_map.mp hi
  obtain rfl : j=id := by simpa using hj
  exact hid l hl

lemma apply_write (hs : g.Sorted) (h : g.segs=ls++[l]) (hf : records.Complete f) :
    g.apply (.write l.id f) = { g with
      segs := ls++[{ l with frames := l.frames++[f] }], written := g.written++[f] } := by
  have hls : ls.map (fun l' => if l'.id=l.id then { l' with frames := l'.frames++[f] } else l')
      = ls := by
    conv_rhs => rw [← map_id ls]
    apply map_congr_left
    intro l' hl
    have := hs.last_id h l' hl
    rw [if_neg (by omega)]
    rfl
  have hlen : recordLen f = some f.length := hf
  simp [Ghost.apply,h,hls,hlen]

lemma apply_write_stuck (g : Ghost) (id : ℕ) {r : List UInt8} (hr : records.Stuck r) :
    g.apply (.write id r) = g := by
  have hlen : recordLen r = none := hr
  simp [Ghost.apply,hlen]

lemma number_write (hs : g.Sorted) (h : g.segs=ls++[l]) (hf : records.Complete f) {c : ℕ × ℕ}
    (hc : c.1≤l.id) (hoff : l.id=c.1 → c.2≤l.size) :
    (g.apply (.write l.id f)).number c = g.number c := by
  have hlast : ({ l with frames := l.frames++[f] } : Layout).before c = l.before c := by
    have hge : ¬l.id<c.1 := by omega
    simp only [Layout.before,hge,if_false]
    split_ifs with hid
    · exact startsBefore_snoc _ _ _ _ (hoff hid)
    · rfl
  rw [apply_write hs h hf]
  simp [Ghost.number,Ghost.first,h,hlast]

lemma first_write (hs : g.Sorted) (h : g.segs=ls++[l]) (hf : records.Complete f) :
    (g.apply (.write l.id f)).first = g.first := by
  rw [apply_write hs h hf,Ghost.first,Ghost.first]

lemma history_write (hs : g.Sorted) (h : g.segs=ls++[l]) (hf : records.Complete f) :
    (g.apply (.write l.id f)).history = g.history++[f] := by
  rw [apply_write hs h hf]
  simp [Ghost.history,h]

section Effects
variable {T : List UInt8 → Prop} {d : Disk} {g : Ghost} {l : Layout}

lemma held_truncate (h : Held T d l) : Held (· = []) (d.apply (.truncate l.id l.size)) l := by
  obtain ⟨pre,tail,hpre,hfile,-⟩ := h
  refine ⟨pre,[],hpre,?_,rfl⟩
  rw [content_truncate,if_pos rfl,hfile,← append_assoc,Layout.size,← hpre,
    ← length_append,truncateFile_left,append_nil]

lemma Stored.keys_set (h : Stored T d g) (hl : l∈g.segs) (bytes : List UInt8) (id : ℕ) :
    ((d.files.set l.id bytes).get id).isSome = true ↔ ∃ l∈g.segs, l.id=id := by
  rw [← h.keys id]
  by_cases hid : id=l.id
  · subst hid
    simp [(h.keys l.id).mpr ⟨l,hl,rfl⟩]
  · rw [FinMap.get_set_of_ne _ _ hid]

lemma Stored.truncate (h : Stored T d g) (hT : T []) (hl : l∈g.segs) :
    Stored T (d.apply (.truncate l.id l.size)) g := by
  refine ⟨h.sorted,h.keys_set hl _,h.sound,fun l' hl' => ?_⟩
  by_cases hid : l'.id=l.id
  · obtain rfl := h.sorted.inj hl' hl hid
    exact (held_truncate (h.held l' hl')).mono (by rintro _ rfl; exact hT)
  · exact (h.held l' hl').congr (by simp [hid])

lemma Stored.create (h : Stored T d g) (hT : T []) {id : ℕ} (hid : ∀ l∈g.segs, l.id < id)
    (hlt : id+1<2^32) : Stored T (d.apply (.create id)) (g.apply (.create id)) := by
  refine ⟨h.sorted.create hid,fun j => ?_,fun l hl => ?_,fun l hl => ?_⟩
  · by_cases hj : j=id
    · subst hj
      simp [Disk.apply]
    · rw [Disk.apply,FinMap.get_set_of_ne _ _ hj,h.keys j]
      simp [Ne.symm hj]
  · rcases mem_append.mp hl with hl | hl
    · exact h.sound l hl
    · obtain rfl := mem_singleton.mp hl
      exact ⟨hlt,by simp,by simp,by simp [Layout.size]⟩
  · rcases mem_append.mp hl with hl | hl
    · have := hid l hl
      exact (h.held l hl).congr (by rw [content_create,if_neg (by omega)])
    · obtain rfl := mem_singleton.mp hl
      exact ⟨[],[],rfl,by simp,hT⟩

lemma Stored.write (h : Stored T d g) (hT : T []) {ls : List Layout} (hsegs : g.segs=ls++[l])
    (hend : Held (· = []) d l) {f : List UInt8} (hf : records.Complete f) (hlt : f.length<2^32)
    (hpay : hasPayload f=true) (hsize : l.size+f.length<2^64) :
    Stored T (d.apply (.write l.id f)) (g.apply (.write l.id f)) := by
  have hl : l∈g.segs := by simp [hsegs]
  rw [apply_write h.sorted hsegs hf]
  refine ⟨?_,fun id => ?_,fun l' hl' => ?_,fun l' hl' => ?_⟩
  · have := h.sorted
    rw [Ghost.Sorted,hsegs,map_append] at this
    rw [Ghost.Sorted,map_append]
    exact this
  · rw [Disk.apply,h.keys_set hl,hsegs]
    simp
  · rcases mem_append.mp hl' with hl' | hl'
    · exact h.sound l' (by simp [hsegs,hl'])
    · obtain rfl := mem_singleton.mp hl'
      have hs := h.sound l hl
      refine ⟨hs.id,fun f' hf' => ?_,by simpa using hpay,?_⟩
      · rcases mem_append.mp hf' with hf' | hf'
        · exact hs.frames f' hf'
        · obtain rfl := mem_singleton.mp hf'
          exact ⟨hf,hlt⟩
      · simpa [Layout.size,Nat.add_assoc] using hsize
  · rcases mem_append.mp hl' with hl' | hl'
    · have := h.sorted.last_id hsegs l' hl'
      exact (h.held l' (by simp [hsegs,hl'])).congr (by rw [content_write,if_neg (by omega)])
    · obtain rfl := mem_singleton.mp hl'
      obtain ⟨pre,tail,hpre,hfile,rfl⟩ := hend
      refine ⟨pre,[],hpre,?_,hT⟩
      simp [hfile]

lemma Stored.write_stuck (h : Stored records.Stuck d g) (hl : l∈g.segs) (hend : Held (· = []) d l)
    {r : List UInt8} (hr : records.Stuck r) : Stored records.Stuck (d.apply (.write l.id r)) g := by
  refine ⟨h.sorted,h.keys_set hl _,h.sound,fun l' hl' => ?_⟩
  by_cases hid : l'.id=l.id
  · obtain rfl := h.sorted.inj hl' hl hid
    obtain ⟨pre,tail,hpre,hfile,rfl⟩ := hend
    refine ⟨pre,r,hpre,?_,hr⟩
    simp [hfile]
  · exact (h.held l' hl').congr (by rw [content_write,if_neg hid])

lemma Stored.remove (h : Stored T d g) {segs : List Layout}
    (hsegs : g.segs=l::segs) (reason : Option Reason) :
    Stored T (d.apply (.remove l.id reason)) (g.apply (.remove l.id reason)) := by
  have hs := h.sorted
  rw [Ghost.Sorted,hsegs,map_cons,pairwise_cons] at hs
  have hne : ∀ l'∈segs, l'.id≠l.id := by
    intro l' hl'
    have := hs.1 l'.id (mem_map_of_mem hl')
    omega
  rw [apply_remove hsegs]
  refine ⟨hs.2,fun id => ?_,fun l' hl' => h.sound l' (by simp [hsegs,hl']),fun l' hl' => ?_⟩
  · by_cases hid : id=l.id
    · subst hid
      simpa [Disk.apply] using hne
    · rw [Disk.apply,FinMap.get_erase_of_ne _ hid,h.keys id,hsegs]
      simp [Ne.symm hid]
  · exact (h.held l' (by simp [hsegs,hl'])).congr (by rw [content_remove,if_neg (hne l' hl')])

lemma Stored.acked (h : Stored T d g) (acked : Option (List UInt8)) :
    Stored T { d with acked := acked } g :=
  ⟨h.sorted,h.keys,h.sound,h.held⟩

end Effects

end Pglens.DiskBuffer

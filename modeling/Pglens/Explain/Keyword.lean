import Pglens.Explain.Lexer

/-! firstSQLKeyword and blockCommentEnd of internal/agent/exec_explain.go. The gate skips leading
blanks and comments by a lexer of its own, beside the one of scanCalls. -/
namespace Pglens.Explain
open Pglens.Lib List Option Text

def lineEnd (b : UInt8) : Bool := b == carriageReturn || b == newline

def letter (b : UInt8) : Bool := (0x41 ≤ b && b ≤ 0x5a) || (0x61 ≤ b && b ≤ 0x7a)

/-- strings.ToUpper of ASCII letters. -/
def toUpper (s : Text) : Text := s.map fun b => if 0x61≤b ∧ b≤0x7a then b-0x20 else b

/-- The offset just past the block comment that opens a statement, or none when it is never
closed. -/
def blockCommentEnd (statement : Text) : Option (Option ℕ) :=
  loop (fun (i,depth) => if i+1<statement.length then do
      let pair ← slice statement i (i+2)
      if pair=[slash,star] then some (.again (i+2,depth+1))
      else if pair=[star,slash] then
        if depth-1=0 then some (.leave (some (i+2))) else some (.again (i+2,depth-1))
      else some (.again (i+1,depth))
    else some (.leave none)) (statement.length+1) (0,(0 : ℤ))

/-- Where firstSQLKeyword goes on after the comment that opens a statement: the outer value says
that there is a comment, the inner that it is closed. -/
def commentEnd (statement : Text) : Option (Option (Option ℕ)) :=
  if [hyphen,hyphen].isPrefixOf statement then some (some ((statement.findIdx? lineEnd).map (·+1)))
  else if [slash,star].isPrefixOf statement then (blockCommentEnd statement).map some
  else some none

/-- One round of firstSQLKeyword. -/
def keywordRound (statement : Text) : Option (Round Text Text) := do
  let statement := statement.dropWhile ([blank,0x09,carriageReturn,newline].contains ·)
  match ← commentEnd statement with
  | some (some stop) => some (.again (← sliceFrom statement stop))
  | some none => some (.leave [])
  | none =>
    let stop ← skipWhile statement letter 0
    some (.leave (toUpper (← slice statement 0 stop)))

def firstSQLKeyword (statement : Text) : Option Text := loop keywordRound (statement.length+1) statement

def allowedExplainKeyword (keyword : Text) : Bool :=
  (["SELECT","INSERT","UPDATE","DELETE","MERGE","VALUES","WITH","TABLE"].map ascii).contains keyword

lemma blockCommentEnd_eq (statement : Text) : blockCommentEnd statement =
    some ((afterBlock 0 statement).map (indexOf statement)) := by
  unfold blockCommentEnd
  refine loop_eq (fun _ => True) (fun s : ℕ × ℤ => statement.length-s.1)
    (fun s => (afterBlock s.2 (statement.drop s.1)).map (indexOf statement))
    (fun (j,depth) _ => ?_) trivial (by simp only; omega)
  dsimp only
  match h : statement.drop j with
  | [] =>
    have hle := drop_eq_nil_iff.mp h
    rw [if_neg (by omega)]
    simp [Toward,h,afterBlock]
  | [b] =>
    obtain ⟨hlen,-,-⟩ := drop_cons h
    rw [if_neg (by simp at hlen; omega)]
    simp [Toward,h,afterBlock]
  | b::c::s =>
    obtain ⟨hlen,-,hdrop⟩ := drop_cons h
    obtain ⟨hlen2,-,hdrop2⟩ := drop_cons hdrop
    have hslice : slice statement j (j+2) = some [b,c] := by
      rw [slice,if_pos (by omega),h]
      simp
    rw [if_pos (by omega),hslice]
    simp only [bind_eq_bind,bind_some]
    grind [Toward,afterBlock,indexOf]

section Agreement

/-- Where scanCalls goes on after a comment opener at `i`. -/
def skipComment (text : Text) (i : ℕ) : Option ℕ :=
  if [hyphen,hyphen].isPrefixOf (text.drop i) then skipLineComment text i else skipBlockComment text i

/-- Where firstSQLKeyword would go on, given the text from `i` on. An unclosed comment is the rest of
the text. -/
def resumeOffset (text : Text) (i : ℕ) : Option ℕ :=
  (commentEnd (text.drop i)).bind fun c => c.map fun stop => stop.elim text.length (i+·)

/-- Each carriage return stands behind a newline or is the last byte. -/
def ReturnsBehindNewline (s : Text) : Prop := ∀ m t, s = m++carriageReturn::t → newline∈m ∨ t=[]

lemma lineEnd_eq_false {b : UInt8} : lineEnd b = false ↔ b≠carriageReturn ∧ b≠newline := by
  simp [lineEnd]

variable {text : Text} {i : ℕ}

lemma line_agree_iff {s : Text} (h : text.drop i=s) (hi : i≤text.length) :
    indexOf text (afterFirst (· == newline) s) = ((s.findIdx? lineEnd).map (·+1)).elim text.length (i+·) ↔
      ReturnsBehindNewline s := by
  have hlen := congrArg List.length h
  rw [length_drop] at hlen
  obtain ⟨hidx,hall⟩ | ⟨m,b,t,rfl,hb,hm,hidx⟩ := findIdx?_cases lineEnd s
  · have hnone : ∀ b∈s, (b == newline) = false := fun b hb => by
      simpa using (lineEnd_eq_false.mp (hall b hb)).2
    rw [hidx,afterFirst_of_none hnone]
    refine iff_of_true rfl fun m t hs => ?_
    exact absurd rfl (lineEnd_eq_false.mp (hall carriageReturn (by simp [hs]))).1
  · have hmnl : ∀ c∈m, (c == newline) = false := fun c hc => by
      simpa using (lineEnd_eq_false.mp (hm c hc)).2
    have hmcr : carriageReturn ∉ m := fun hc => (lineEnd_eq_false.mp (hm _ hc)).1 rfl
    simp only [length_append,length_cons] at hlen
    simp only [hidx,map_some,elim_some]
    by_cases hnl : b=newline
    · rw [afterFirst_append hmnl (by simp [hnl]),indexOf]
      refine iff_of_true (by omega) fun m' t' hs => .inl ?_
      obtain ⟨-,heq,-⟩ | ⟨n,rfl,-⟩ := append_cons_cases hs hmcr
      · exact absurd (hnl.symm.trans heq) (by decide)
      · simp [hnl]
    · obtain rfl : b=carriageReturn := by simpa [lineEnd,hnl] using hb
      have hafter : afterFirst (· == newline) (m++carriageReturn::t) = afterFirst (· == newline) t :=
        (afterFirst_skip hmnl).trans (afterFirst_skip (m := [carriageReturn]) (forall_mem_singleton.mpr rfl))
      have hshort := afterFirst_length (· == newline) t
      rw [hafter,indexOf]
      constructor
      · intro heq m' t' hs
        have ht : t=[] := eq_nil_of_length_eq_zero (by omega)
        obtain ⟨-,-,rfl⟩ | ⟨n,-,hn⟩ := append_cons_cases hs hmcr
        · exact .inr ht
        · simp [ht] at hn
      · intro hcr
        obtain hmem | rfl := hcr m t rfl
        · exact absurd (hmnl _ hmem) (by decide)
        · simp only [length_nil] at hlen hshort ⊢
          omega

lemma resumeOffset_line (h : [hyphen,hyphen] <+: text.drop i) :
    resumeOffset text i = some ((((text.drop i).findIdx? lineEnd).map (·+1)).elim text.length (i+·)) := by
  rw [resumeOffset,commentEnd,if_pos (by simpa using h)]
  rfl

lemma block_agree (hline : ¬[hyphen,hyphen] <+: text.drop i) (h : [slash,star] <+: text.drop i)
    (hi : i≤text.length) : skipBlockComment text i = resumeOffset text i := by
  have hlen : (text.drop i).length = text.length-i := length_drop
  rw [resumeOffset,commentEnd,if_neg (by simpa using hline),if_pos (by simpa using h),
    skipBlockComment_eq,blockCommentEnd_eq]
  cases hafter : afterBlock 0 (text.drop i) with
  | none => rfl
  | some rest =>
    have hle := (afterBlock_suffix hafter).length_le
    simp only [getD_some,map_some,bind_some,elim_some,indexOf,Option.some.injEq]
    omega

/-- The two lexers agree on the comment that opens at an offset exactly if it is a block comment or
no carriage return ends it. -/
theorem comments_agree_iff {text : Text} {i : ℕ}
    (h : [hyphen,hyphen] <+: text.drop i ∨ [slash,star] <+: text.drop i) :
    skipComment text i = resumeOffset text i ↔
      ([hyphen,hyphen] <+: text.drop i → ReturnsBehindNewline (text.drop i)) := by
  have hi : i≤text.length := by
    by_contra hlt
    rw [drop_eq_nil_of_le (by omega)] at h
    simp at h
  by_cases hline : [hyphen,hyphen] <+: text.drop i
  · rw [skipComment,if_pos (by simpa using hline),skipLineComment_eq hi,resumeOffset_line hline,
      Option.some.injEq,line_agree_iff rfl hi]
    exact ⟨fun hcr _ => hcr,fun hcr => hcr hline⟩
  · rw [skipComment,if_neg (by simpa using hline)]
    exact iff_of_true (block_agree hline (h.resolve_left hline) hi) fun hl => absurd hl hline

theorem comments_agree_in_block :
    skipComment (ascii "/*\r*/x") 0 = resumeOffset (ascii "/*\r*/x") 0 :=
  (comments_agree_iff (.inr (by decide))).mpr fun hline => absurd hline (by decide)

/-- scanCalls reads the whole text as comment, firstSQLKeyword only up to the carriage return. -/
theorem comments_disagree : skipComment (ascii "--\rx") 0 = some 4 ∧
    resumeOffset (ascii "--\rx") 0 = some 3 := by
  decide +kernel

end Agreement

section Gate

/-- What may stand before the first keyword: a blank, a line comment or a block comment. -/
inductive Lead
  | blank (b : UInt8) (h : b ∈ [blank,0x09,carriageReturn,newline])
  | line (body : Text) (stop : UInt8) (hbody : ∀ b∈body, lineEnd b=false) (hstop : lineEnd stop=true)
  | block (c : Text) (h : BlockComment c)

def Lead.text : Lead → Text
  | .blank b _ => [b]
  | .line body stop _ _ => hyphen::hyphen::body++[stop]
  | .block c _ => c

def Unclosed (s : Text) : Prop :=
  (∃ body, s=hyphen::hyphen::body ∧ ∀ b∈body, lineEnd b=false) ∨
    [slash,star] <+: s ∧ ∀ c rest, s = c++rest → ¬BlockComment c

lemma keywordRound_blank {b : UInt8} (h : b ∈ [blank,0x09,carriageReturn,newline]) (s : Text) :
    keywordRound (b::s) = keywordRound s := by
  have hb : [blank,0x09,carriageReturn,newline].contains b = true := by simpa using h
  rw [keywordRound,dropWhile_cons_of_pos hb,keywordRound]

section Round
variable {b : UInt8} {s : Text} (hb : b ∉ [blank,0x09,carriageReturn,newline])
include hb

lemma dropBlanks_cons : (b::s).dropWhile ([blank,0x09,carriageReturn,newline].contains ·) = b::s :=
  dropWhile_cons_of_neg (by simpa using hb)

lemma keywordRound_closed {stop : ℕ} (h : commentEnd (b::s)=some (some (some stop)))
    (hstop : stop ≤ (b::s).length) : keywordRound (b::s) = some (.again ((b::s).drop stop)) := by
  simp only [keywordRound,dropBlanks_cons hb,h,sliceFrom,if_pos hstop,bind_eq_bind,bind_some]

lemma keywordRound_open (h : commentEnd (b::s)=some (some none)) :
    keywordRound (b::s) = some (.leave []) := by
  simp only [keywordRound,dropBlanks_cons hb,h,bind_eq_bind,bind_some]

lemma keywordRound_none (h : commentEnd (b::s)=some none) :
    keywordRound (b::s) = some (.leave (toUpper ((b::s).takeWhile letter))) := by
  have hslice := slice_takeWhile (s := b::s) (p := letter) (Nat.zero_le _)
  rw [drop_zero] at hslice
  simp only [keywordRound,dropBlanks_cons hb,h,skipWhile_eq,drop_zero,bind_eq_bind,
    bind_some,hslice]

end Round

variable {c body rest : Text}

lemma afterBlock_blockComment (h : BlockComment c) (rest : Text) :
    afterBlock 0 (c++rest) = some rest := by
  obtain ⟨body,rfl,hbody⟩ := h
  rw [cons_append,cons_append,afterBlock_opens]
  exact hbody.afterBlock rest

lemma findIdx?_lineEnd_append (hbody : ∀ b∈body, lineEnd b=false) (s : Text) :
    (hyphen::hyphen::body++s).findIdx? lineEnd = (s.findIdx? lineEnd).map (·+(body.length+2)) := by
  have hnone : (hyphen::hyphen::body).findIdx? lineEnd = none :=
    findIdx?_eq_none_iff.mpr (by simpa using ⟨by decide,hbody⟩)
  rw [findIdx?_append,hnone,none_or]
  rfl

lemma keywordRound_line {stop : UInt8} (hbody : ∀ b∈body, lineEnd b=false)
    (hstop : lineEnd stop=true) :
    keywordRound (hyphen::hyphen::body++stop::rest) = some (.again rest) := by
  have hend : commentEnd (hyphen::hyphen::body++stop::rest) = some (some (some (body.length+3))) := by
    rw [commentEnd,if_pos (by simp),findIdx?_lineEnd_append hbody,findIdx?_cons,hstop]
    simp
  rw [cons_append] at hend ⊢
  rw [keywordRound_closed (by decide) hend (by simp)]
  simp

lemma keywordRound_block (h : BlockComment c) (rest : Text) :
    keywordRound (c++rest) = some (.again rest) := by
  have hafter := afterBlock_blockComment h rest
  obtain ⟨body,rfl,-⟩ := h
  have hend : commentEnd (slash::star::body++rest) = some (some (some (body.length+2))) := by
    have hindex : indexOf (slash::star::body++rest) rest = body.length+2 := by
      rw [indexOf,length_append,Nat.add_sub_cancel]
      rfl
    rw [commentEnd,if_neg (by simp; decide),if_pos (by simp),blockCommentEnd_eq,hafter,← hindex]
    rfl
  rw [cons_append] at hend ⊢
  rw [keywordRound_closed (by decide) hend (by simp)]
  simp

lemma keywordRound_word {word : Text} (hne : word≠[]) (hword : ∀ b∈word, letter b=true)
    (hrest : ∀ b∈rest.head?, letter b=false) :
    keywordRound (word++rest) = some (.leave (toUpper word)) := by
  have htake : (word++rest).takeWhile letter = word := by
    rw [takeWhile_append_of_pos hword]
    cases rest with
    | nil => simp
    | cons c rest => simp [hrest c rfl]
  obtain ⟨b,word,rfl⟩ := exists_cons_of_ne_nil hne
  have hb := hword b (by simp)
  have hblank : b ∉ [blank,0x09,carriageReturn,newline] := by
    rintro hmem
    simp only [mem_cons,not_mem_nil,or_false] at hmem
    obtain rfl | rfl | rfl | rfl := hmem <;> exact absurd hb (by decide)
  have hend : commentEnd (b::(word++rest)) = some none := by
    rw [commentEnd,if_neg,if_neg]
    · intro hpre
      obtain rfl : slash=b := by simpa using (cons_prefix_cons.mp (List.isPrefixOf_iff_prefix.mp hpre)).1
      exact absurd hb (by decide)
    · intro hpre
      obtain rfl : hyphen=b := by simpa using (cons_prefix_cons.mp (List.isPrefixOf_iff_prefix.mp hpre)).1
      exact absurd hb (by decide)
  rw [cons_append,keywordRound_none hblank hend,← cons_append,htake]

lemma keywordRound_unclosed {s : Text} (h : Unclosed s) : keywordRound s = some (.leave []) := by
  obtain ⟨body,rfl,hbody⟩ | ⟨⟨t,rfl⟩,hnever⟩ := h
  · refine keywordRound_open (by decide) ?_
    have hidx := findIdx?_lineEnd_append hbody []
    rw [append_nil] at hidx
    rw [commentEnd,if_pos (by simp),hidx]
    rfl
  · have hafter : afterBlock 0 (slash::star::t) = none := by
      rw [afterBlock_opens]
      by_contra hsome
      obtain ⟨rest,hrest⟩ := ne_none_iff_exists'.mp hsome
      obtain ⟨c,rfl,hc⟩ := inside_of_afterBlock (d := 0) hrest
      exact hnever (slash::star::c) rest rfl ⟨c,rfl,hc⟩
    refine keywordRound_open (b := slash) (s := star::t) (by decide) ?_
    rw [commentEnd,if_neg (by simp; decide),if_pos (by simp),blockCommentEnd_eq,hafter]
    rfl

lemma loop_leads (leads : List Lead) {tail a : Text} (h : keywordRound tail=some (.leave a))
    {n : ℕ} (hn : leads.length<n) :
    loop keywordRound n (leads.flatMap Lead.text++tail) = some a := by
  induction leads generalizing n with
  | nil =>
    obtain ⟨n,rfl⟩ := Nat.exists_eq_succ_of_ne_zero (by omega : n≠0)
    rw [flatMap_nil,nil_append,loop,h]
  | cons lead leads ih =>
    obtain ⟨n,rfl⟩ := Nat.exists_eq_succ_of_ne_zero (by omega : n≠0)
    rw [length_cons] at hn
    rw [flatMap_cons,append_assoc]
    cases lead with
    | blank b hb =>
      rw [Lead.text,singleton_append,loop,keywordRound_blank hb]
      exact ih (n := n+1) (by omega)
    | line body stop hbody hstop =>
      rw [Lead.text,append_assoc,singleton_append,loop,keywordRound_line hbody hstop]
      exact ih (by omega)
    | block c hc =>
      rw [Lead.text,loop,keywordRound_block hc]
      exact ih (by omega)

lemma Lead.text_ne_nil (lead : Lead) : lead.text≠[] := by
  cases lead with
  | blank b h => simp [Lead.text]
  | line body stop hbody hstop => simp [Lead.text]
  | block c h =>
    obtain ⟨body,rfl,-⟩ := h
    simp [Lead.text]

lemma length_le_flatMap_leads (leads : List Lead) :
    leads.length ≤ (leads.flatMap Lead.text).length := by
  induction leads with
  | nil => simp
  | cons lead leads ih =>
    have hpos := length_pos_iff.mpr lead.text_ne_nil
    rw [flatMap_cons,length_append,length_cons]
    omega

/-- Behind blanks and comments, the gate reads the word that comes first, and nothing where a comment is never
closed. -/
theorem firstSQLKeyword_reads (leads : List Lead) :
    (∀ word rest : Text, word≠[] → (∀ b∈word, letter b=true) →
        (∀ b∈rest.head?, letter b=false) →
      firstSQLKeyword (leads.flatMap Lead.text++(word++rest))=some (toUpper word)) ∧
    ∀ s, Unclosed s → firstSQLKeyword (leads.flatMap Lead.text++s) = some [] ∧
      allowedExplainKeyword [] = false := by
  have hfuel : ∀ tail : Text, leads.length < (leads.flatMap Lead.text++tail).length+1 := by
    intro tail
    have hle := length_le_flatMap_leads leads
    rw [length_append]
    omega
  constructor
  · intro word rest hne hword hrest
    exact loop_leads leads (keywordRound_word hne hword hrest) (hfuel _)
  · intro s hs
    exact ⟨loop_leads leads (keywordRound_unclosed hs) (hfuel s),by decide +kernel⟩

/-- A blank, a line comment and a nested block comment. -/
def commented : List Lead :=
  [.blank blank (by decide),
    .line [0x78] newline (forall_mem_singleton.mpr (by decide +kernel)) (by decide +kernel),
    .block [slash,star,slash,star,star,slash,star,slash] ⟨_,rfl,.opens (.closes .last)⟩]

theorem firstSQLKeyword_reads_commented :
    firstSQLKeyword (commented.flatMap Lead.text++(utf8 "Select"++utf8 " 1")) =
      some (utf8 "SELECT") ∧
    firstSQLKeyword (commented.flatMap Lead.text++[hyphen,hyphen,0x78]) = some [] ∧
    firstSQLKeyword (commented.flatMap Lead.text++[slash,star,slash]) = some [] := by
  obtain ⟨hword,hunclosed⟩ := firstSQLKeyword_reads commented
  have hupper : toUpper (utf8 "Select") = utf8 "SELECT" := by decide +kernel
  have hblock : ∀ c rest, [slash,star,slash] = c++rest → ¬BlockComment c := by
    rintro c rest heq ⟨body,rfl,hbody⟩
    have hprefix : body <+: [slash] := ⟨rest,by simpa using heq.symm⟩
    obtain rfl | rfl : body=[] ∨ body = [slash] := by simpa [prefix_cons_iff] using hprefix
    · cases hbody
    · cases hbody with
      | byte _ _ hnil => cases hnil
  refine ⟨hupper ▸ hword _ _ (by decide +kernel) (by decide +kernel) (by decide +kernel),?_,?_⟩
  · exact (hunclosed _ (.inl ⟨[0x78],rfl,forall_mem_singleton.mpr (by decide +kernel)⟩)).1
  · exact (hunclosed _ (.inr ⟨⟨[slash],rfl⟩,hblock⟩)).1

end Gate

end Pglens.Explain

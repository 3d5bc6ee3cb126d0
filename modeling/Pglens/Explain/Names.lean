import Pglens.Explain.Lexer

/-! The readers of dotted names and of the type names behind a cast, as functions of the rest of the
text. -/
namespace Pglens.Explain
open Pglens.Lib List Option Text

/-- The contents of a quoted name and what follows it, from behind its opening quote. -/
def quotedPart : Text → Text × Text
  | [] => ([],[])
  | [b] => if b=doubleQuote then ([],[]) else ([b],[])
  | b::c::s =>
    if b=doubleQuote then
      if c=doubleQuote then (doubleQuote::(quotedPart s).1,(quotedPart s).2) else ([],c::s)
    else (b::(quotedPart (c::s)).1,(quotedPart (c::s)).2)

lemma quotedPart_suffix (s : Text) : (quotedPart s).2 <:+ s := by
  match s with
  | [] => exact suffix_rfl
  | [b] => rw [quotedPart]; split_ifs <;> exact nil_suffix
  | b::c::s =>
    have hs : s <:+ b::c::s := (suffix_cons c s).trans (suffix_cons b _)
    rw [quotedPart]
    split_ifs
    · exact (quotedPart_suffix s).trans hs
    · exact suffix_cons b _
    · exact (quotedPart_suffix (c::s)).trans (suffix_cons b _)
  termination_by s.length

lemma readQuoted_eq {text s : Text} {i : ℕ} (h : text.drop (i+1)=s) (hi : i<text.length) :
    readQuoted text i = some ⟨(quotedPart s).1,true,indexOf text (quotedPart s).2,true⟩ := by
  have hloop : readQuoted text i = some ⟨[]++(quotedPart (text.drop (i+1))).1,true,
      indexOf text (quotedPart (text.drop (i+1))).2,true⟩ := by
    unfold readQuoted
    refine loop_eq (s := (i+1,[])) (fun st : ℕ × Text => st.1≤text.length) (fun st => text.length-st.1)
      (fun st => NamePart.mk (st.2++(quotedPart (text.drop st.1)).1) true
        (indexOf text (quotedPart (text.drop st.1)).2) true) (fun (j,b) hj => ?_) hi (by simp only; omega)
    dsimp only at hj ⊢
    match hs : text.drop j with
    | [] =>
      have hle := drop_eq_nil_iff.mp hs
      rw [if_neg (by omega)]
      grind [Toward,quotedPart,indexOf]
    | [c] =>
      obtain ⟨hlen,hget,hdrop⟩ := Text.drop_cons hs
      rw [if_pos (by omega),hget,within_eq,hdrop]
      simp only [bind_eq_bind,bind_some,head?_nil,any_none]
      grind [Toward,quotedPart,indexOf]
    | c::d::t =>
      obtain ⟨hlen,hget,hdrop⟩ := Text.drop_cons hs
      obtain ⟨hlen2,-,hdrop2⟩ := Text.drop_cons hdrop
      rw [if_pos (by omega),hget,within_eq,hdrop]
      simp only [bind_eq_bind,bind_some,head?_cons,any_some]
      grind [Toward,quotedPart,indexOf]
  rw [hloop,h,nil_append]

section Names
variable (toLower : Text → Text) (deparsed : Bool)

/-- A part of a name: its text, whether it is quoted, and what follows it. -/
def namePart : Text → Option (Text × Bool × Text)
  | [] => none
  | c::s =>
    if c=doubleQuote then some ((quotedPart s).1,true,(quotedPart s).2)
    else if identStart c then
      some (if deparsed then (c::s).takeWhile identByte else toLower ((c::s).takeWhile identByte),false,
        (c::s).dropWhile identByte)
    else none

variable {c : UInt8} {s part rest text : Text} {quoted keyword : Bool} {i : ℕ}

lemma identByte_of_identStart (h : identStart c=true) : identByte c = true := by
  rw [identByte,h,Bool.true_or,Bool.true_or]

variable {toLower deparsed}

lemma namePart_suffix
    (h : namePart toLower deparsed (c::s)=some (part,quoted,rest)) : rest <:+ s := by
  rw [namePart] at h
  by_cases hquote : c=doubleQuote
  · rw [if_pos hquote] at h
    obtain ⟨-,-,rfl⟩ : _ ∧ _ ∧ _ := by simpa using h
    exact quotedPart_suffix s
  · rw [if_neg hquote] at h
    split_ifs at h with hstart
    all_goals
      obtain ⟨-,-,rfl⟩ : _ ∧ _ ∧ _ := by simpa only [Option.some.injEq,Prod.mk.injEq] using h
      rw [dropWhile_cons_of_pos (identByte_of_identStart hstart)]
      exact dropWhile_suffix _

variable (toLower deparsed)

def nextPart : Text → Option Text
  | c::d::s => if c=dot ∧ nameStart d then some (d::s) else none
  | _ => none

lemma nextPart_eq_some (h : nextPart s=some rest) :
    s = dot::rest ∧ ∃ d tail, rest = d::tail ∧ nameStart d = true := by
  match s with
  | [] => cases h
  | [_] => cases h
  | c::d::s =>
    rw [nextPart] at h
    split_ifs at h with hdot
    obtain rfl := some.inj h
    exact ⟨by rw [hdot.1],d,s,rfl,hdot.2⟩

/-- The parts of a dotted name, whether the last is a keyword, and what follows the name. -/
def dotted (keyword : Bool) (s : Text) : List Text × Bool × Text :=
  match _h : namePart toLower deparsed s with
  | none => ([],keyword,s)
  | some (part,quoted,rest) =>
    match _hnext : nextPart rest with
    | some s' =>
      let more := dotted (deparsed && !quoted && part != toLower part) s'
      (part::more.1,more.2)
    | none => ([part],deparsed && !quoted && part != toLower part,rest)
  termination_by s.length
  decreasing_by
    cases s with
    | nil => cases _h
    | cons e s =>
      have hle := (namePart_suffix _h).length_le
      obtain ⟨rfl,-⟩ := nextPart_eq_some _hnext
      simp only [length_cons] at hle ⊢
      omega

lemma readNamePart_eq (h : text.drop i=s) (hi : i≤text.length) :
    readNamePart toLower text i deparsed = some (match namePart toLower deparsed s with
      | none => ⟨[],false,i,false⟩
      | some (part,quoted,rest) => ⟨part,quoted,indexOf text rest,true⟩) := by
  cases s with
  | nil =>
    rw [readNamePart,if_pos (drop_eq_nil_iff.mp h)]
    rfl
  | cons c s =>
    obtain ⟨hlen,hget,hdrop⟩ := Text.drop_cons h
    rw [readNamePart,if_neg (by omega),hget,bind_eq_bind,bind_some,namePart]
    by_cases hquote : c=doubleQuote
    · rw [if_pos hquote,if_pos hquote,readQuoted_eq hdrop (by omega)]
    rw [if_neg hquote,if_neg hquote]
    cases hstart : identStart c with
    | false => rfl
    | true =>
      have hslice := slice_takeWhile (s := text) (p := identByte) (i := i) (by omega)
      have hle := ( takeWhile_prefix identByte (l := text.drop i)).length_le
      rw [length_drop] at hle
      simp only [if_true,skipWhile_eq,bind_eq_bind,bind_some,hslice,← h]
      rw [← drop_takeWhile,indexOf_drop rfl (by omega)]

lemma nextPart_eq (s : Text) : nextPart s =
    if (s.head?.any (· == dot)) && ((s.drop 1).head?.any nameStart) then some (s.drop 1) else none := by
  match s with
  | [] => rfl
  | [_] => simp [nextPart]
  | c::d::s => simp [nextPart]

lemma dotted_of_none (h : namePart toLower deparsed s=none) :
    dotted toLower deparsed keyword s = ([],keyword,s) := by
  rw [dotted]
  split
  · rfl
  · simp_all

lemma dotted_of_some
    (h : namePart toLower deparsed s=some (part,quoted,rest)) :
    dotted toLower deparsed keyword s = match nextPart rest with
      | some s' =>
        let more := dotted toLower deparsed (deparsed && !quoted && part != toLower part) s'
        (part::more.1,more.2)
      | none => ([part],deparsed && !quoted && part != toLower part,rest) := by
  rw [dotted]
  split
  · next hnone => rw [hnone] at h; cases h
  · next part' quoted' rest' heq =>
    obtain ⟨rfl,rfl,rfl⟩ : part=part' ∧ quoted=quoted' ∧ rest=rest' := by simpa [h] using heq
    split <;> next hnext => rw [hnext]

lemma dotted_suffix_of_some {keyword quoted : Bool} {c : UInt8} {s part rest : Text}
    (h : namePart toLower deparsed (c::s)=some (part,quoted,rest)) :
    (dotted toLower deparsed keyword (c::s)).2.2 <:+ s := by
  have hrest := namePart_suffix h
  rw [dotted_of_some _ _ h]
  cases hnext : nextPart rest with
  | none => exact hrest
  | some s' =>
    obtain ⟨rfl,d,tail,rfl,hstart⟩ := nextPart_eq_some hnext
    have htail : d::tail <:+ s := (suffix_cons dot _).trans hrest
    cases hpart : namePart toLower deparsed (d::tail) with
    | none => simpa only [dotted_of_none _ _ hpart] using htail
    | some p =>
      exact (dotted_suffix_of_some hpart).trans ((suffix_cons d tail).trans htail)
  termination_by s.length
  decreasing_by
    have hle := hrest.length_le
    simp only [length_cons] at hle ⊢
    omega

lemma dotted_suffix (keyword : Bool) (s : Text) :
    (dotted toLower deparsed keyword s).2.2 <:+ s := by
  cases h : namePart toLower deparsed s with
  | none => rw [dotted_of_none _ _ h]
  | some p =>
    cases s with
    | nil => cases h
    | cons c s => exact (dotted_suffix_of_some _ _ h).trans (suffix_cons c s)

lemma readDotted_eq (h : text.drop i=s) (hi : i≤text.length) :
    readDotted toLower text i deparsed = some ⟨(dotted toLower deparsed false s).1,
      (dotted toLower deparsed false s).2.1,indexOf text (dotted toLower deparsed false s).2.2⟩ := by
  have hloop : readDotted toLower text i deparsed = some
      ⟨[]++(dotted toLower deparsed false (text.drop i)).1,(dotted toLower deparsed false (text.drop i)).2.1,
        indexOf text (dotted toLower deparsed false (text.drop i)).2.2⟩ := by
    unfold readDotted
    refine loop_eq (s := (i,[],false)) (fun st : ℕ × List Text × Bool => st.1≤text.length)
      (fun st => text.length-st.1)
      (fun st => Dotted.mk (st.2.1++(dotted toLower deparsed st.2.2 (text.drop st.1)).1)
        (dotted toLower deparsed st.2.2 (text.drop st.1)).2.1
        (indexOf text (dotted toLower deparsed st.2.2 (text.drop st.1)).2.2))
      (fun (j,parts,keyword) hj => ?_) hi (by simp only; omega)
    dsimp only at hj ⊢
    rw [readNamePart_eq toLower deparsed rfl hj]
    cases hpart : namePart toLower deparsed (text.drop j) with
    | none =>
      simp [Toward,dotted_of_none _ _ hpart,indexOf_drop rfl hj]
    | some p =>
      obtain ⟨part,quoted,rest⟩ := p
      obtain ⟨c,t,ht⟩ : ∃ c t, text.drop j = c::t := by
        cases hd : text.drop j with
        | nil => rw [hd] at hpart; cases hpart
        | cons c t => exact ⟨c,t,rfl⟩
      obtain ⟨hlen,-,hdrop⟩ := Text.drop_cons ht
      have hsuffix : rest <:+ t := namePart_suffix (ht ▸ hpart)
      have htext : rest <:+ text := hsuffix.trans (hdrop ▸ drop_suffix (j+1) text)
      have hnext := nextPart_eq rest
      simp only [bind_eq_bind,bind_some,if_true,within_eq,drop_indexOf htext,← drop_drop]
      split_ifs with hdot
      · rw [if_pos hdot] at hnext
        obtain ⟨hrest,-⟩ := nextPart_eq_some hnext
        have hle := hsuffix.length_le
        have hpos : 0<rest.length := by rw [hrest]; exact Nat.succ_pos _
        have hat : text.drop (indexOf text rest+1) = rest.drop 1 := by
          rw [← drop_drop,drop_indexOf htext]
        have hlt : indexOf text rest < text.length := by rw [indexOf]; omega
        have hback : text.length-(indexOf text rest+1) < text.length-j := by rw [indexOf]; omega
        refine ⟨hlt,hback,?_⟩
        simp only [hat,dotted_of_some _ _ hpart,hnext,append_assoc,singleton_append]
      · rw [if_neg hdot] at hnext
        simp [Toward,dotted_of_some _ _ hpart,hnext]
  rw [hloop,h,nil_append]

end Names

section Types

def afterGroup (opening closing : UInt8) (set : Text) : Text → Option Text
  | [] => none
  | c::s =>
    if c=opening ∧ (s.dropWhile (set.contains ·)).head? = some closing then
      some (s.dropWhile (set.contains ·)).tail
    else none

variable {opening closing : UInt8} {s rest text : Text} {i : ℕ}

lemma afterGroup_length {set : Text}
    (h : afterGroup opening closing set s=some rest) : rest <:+ s ∧ rest.length<s.length := by
  cases s with
  | nil => cases h
  | cons c s =>
    rw [afterGroup] at h
    split_ifs at h
    obtain rfl := some.inj h
    have hsuffix : (s.dropWhile (set.contains ·)).tail <:+ s :=
      (tail_suffix _).trans (dropWhile_suffix _)
    exact ⟨hsuffix.trans (suffix_cons c s),Nat.lt_succ_of_le hsuffix.length_le⟩

lemma afterGroup_cases (set : Text) (hne : opening≠closing) (hset : closing ∉ set) (t : Text) :
    (Text.indexByte (opening::t) closing=none ∧ afterGroup opening closing set (opening::t)=none) ∨
      ∃ m rest, t = m++closing::rest ∧ Text.indexByte (opening::t) closing = some (m.length+1) ∧
        afterGroup opening closing set (opening::t) = if Text.trim m set = [] then some rest else none := by
  have hdrop : ∀ m rest, (∀ b∈m, b∈set) →
      (m++closing::rest).dropWhile (set.contains ·) = closing::rest := by
    intro m rest hm
    rw [dropWhile_append_of_pos (by simpa using hm),dropWhile_cons_of_neg (by simpa using hset)]
  obtain ⟨hidx,hall⟩ | ⟨m,b,rest,hs,hb,hm,hidx⟩ := findIdx?_cases (· == closing) (opening::t)
  · refine .inl ⟨hidx,?_⟩
    rw [afterGroup,if_neg]
    rintro ⟨-,hhead⟩
    have hmem : closing∈t := (dropWhile_suffix _).mem (mem_of_head? hhead)
    simpa using hall closing (mem_cons_of_mem _ hmem)
  · right
    obtain rfl : b=closing := by simpa using hb
    cases m with
    | nil => exact absurd (List.cons.inj hs).1 hne
    | cons c m =>
      rw [cons_append] at hs
      obtain ⟨rfl,rfl⟩ := List.cons.inj hs
      refine ⟨m,rest,rfl,hidx,?_⟩
      rw [afterGroup]
      by_cases htrim : Text.trim m set = []
      · rw [if_pos htrim,hdrop m rest (trim_eq_nil.mp htrim),if_pos ⟨rfl,rfl⟩,tail_cons]
      · rw [if_neg htrim,if_neg]
        rintro ⟨-,hhead⟩
        refine htrim (trim_eq_nil.mpr ?_)
        rw [dropWhile_append] at hhead
        split_ifs at hhead with hnil
        · simpa using dropWhile_eq_nil_iff.mp (List.isEmpty_iff.mp hnil)
        · rw [head?_append_of_ne_nil _ (by simpa using hnil)] at hhead
          have hmem := (dropWhile_suffix _).mem (mem_of_head? hhead)
          simpa using hm b (mem_cons_of_mem _ hmem)

def afterModifier (s : Text) : Text := (afterGroup openParen closeParen modifierBytes s).getD s

lemma skipTypeModifier_eq (h : text.drop i=s) (hi : i≤text.length) :
    skipTypeModifier text i = some (indexOf text (afterModifier s)) := by
  have hself : indexOf text s = i := indexOf_drop h hi
  rw [skipTypeModifier,within_eq,h,sliceFrom_eq h hi,afterModifier,bind_eq_bind,bind_some]
  cases s with
  | nil =>
    rw [if_neg (by simp)]
    exact congrArg some hself.symm
  | cons c t =>
    obtain ⟨hlen,-,hdrop⟩ := Text.drop_cons h
    by_cases hc : c=openParen
    · subst hc
      rw [if_pos (by simp)]
      obtain ⟨hidx,hgroup⟩ | ⟨m,rest,rfl,hidx,hgroup⟩ :=
        afterGroup_cases modifierBytes (show openParen≠closeParen by decide) (by decide) t
      · simp only [bind_eq_bind,bind_some,hidx,hgroup,getD_none,hself]
      · rw [length_append,length_cons] at hlen
        have hslice : Text.slice text (i+1) (i+(m.length+1)) = some m :=
          slice_eq hdrop (by omega) (by omega)
        simp only [bind_eq_bind,bind_some,hidx,hgroup,hslice]
        by_cases htrim : Text.trim m modifierBytes = []
        · rw [if_pos htrim,getD_some,if_neg (by simpa using htrim),indexOf]
          exact congrArg some (by omega)
        · rw [if_neg htrim,getD_none,if_pos (by simpa using htrim),hself]
    · rw [if_neg (by simpa using hc),afterGroup,if_neg (fun hand => hc hand.1),getD_none,hself]

lemma afterModifier_suffix (s : Text) : afterModifier s <:+ s := by
  rw [afterModifier]
  cases h : afterGroup openParen closeParen modifierBytes s with
  | none => exact suffix_rfl
  | some rest => exact (afterGroup_length h).1

def afterBounds (s : Text) : Text :=
  match _h : afterGroup openBracket closeBracket digits s with
  | some rest => afterBounds rest
  | none => s
  termination_by s.length
  decreasing_by exact (afterGroup_length _h).2

lemma afterBounds_of_some (h : afterGroup openBracket closeBracket digits s=some rest) :
    afterBounds s = afterBounds rest := by
  rw [afterBounds]
  split
  · next rest' heq =>
    obtain rfl := some.inj (h.symm.trans heq)
    rfl
  · next heq => rw [h] at heq; cases heq

lemma afterBounds_of_none (h : afterGroup openBracket closeBracket digits s=none) :
    afterBounds s = s := by
  rw [afterBounds]
  split
  · next rest heq => rw [h] at heq; cases heq
  · rfl

lemma afterBounds_suffix (s : Text) : afterBounds s <:+ s := by
  cases h : afterGroup openBracket closeBracket digits s with
  | none => rw [afterBounds_of_none h]
  | some rest =>
    rw [afterBounds_of_some h]
    exact (afterBounds_suffix rest).trans (afterGroup_length h).1
  termination_by s.length
  decreasing_by exact (afterGroup_length h).2

/-- Whether skipArrayBounds stops at a bracket it cannot read. -/
def unreadBracket (s : Text) : Bool := s.head?.any (· == openBracket) && 1 < s.length

lemma skipArrayBounds_eq (h : text.drop i=s) (hi : i≤text.length) :
    skipArrayBounds text i = some (unreadBracket (afterBounds s),indexOf text (afterBounds s)) := by
  subst h
  let value := fun j => (unreadBracket (afterBounds (text.drop j)),indexOf text (afterBounds (text.drop j)))
  refine loop_eq (fun j => j≤text.length) (fun j => text.length-j) value (fun j hj => ?_) hi (by omega)
  -- Where no further bound can be read, the loop leaves with its index.
  have hleave : ∀ s ends, text.drop j = s → afterGroup openBracket closeBracket digits s = none →
      ends = unreadBracket s → (ends,j) = value j := by
    rintro s ends hs hnone rfl
    simp only [value,hs,afterBounds_of_none hnone,indexOf_drop hs hj]
  match hs : text.drop j with
  | [] =>
    have hle := drop_eq_nil_iff.mp hs
    rw [if_neg (by omega)]
    exact hleave [] false hs rfl rfl
  | [c] =>
    obtain ⟨hlen,-,-⟩ := Text.drop_cons hs
    rw [if_neg (by simp at hlen; omega)]
    exact hleave [c] false hs (by simp [afterGroup]) (by simp [unreadBracket])
  | c::d::t =>
    obtain ⟨hlen,hget,hdrop⟩ := Text.drop_cons hs
    rw [length_cons] at hlen
    rw [if_pos (by omega),hget,sliceFrom_eq hs hj]
    simp only [bind_eq_bind,bind_some]
    by_cases hc : c=openBracket
    · subst hc
      have hunread : unreadBracket (openBracket::d::t) = true := by simp [unreadBracket]
      rw [if_pos rfl]
      obtain ⟨hidx,hgroup⟩ | ⟨m,rest,hm,hidx,hgroup⟩ :=
        afterGroup_cases digits (show openBracket≠closeBracket by decide) (by decide) (d::t)
      · rw [hidx]
        exact hleave _ true hs hgroup hunread.symm
      · have hlens := congrArg List.length hm
        simp only [length_cons,length_append] at hlens
        have hslice : Text.slice text (j+1) (j+(m.length+1)) = some m :=
          slice_eq (hdrop.trans hm) (by omega) (by omega)
        have hrest : text.drop (j+(m.length+1)+1) = rest := by
          rw [show j+(m.length+1)+1=j+1+(m.length+1) by omega,← drop_drop,hdrop,hm]
          simp
        simp only [hidx,hslice,bind_some]
        by_cases htrim : Text.trim m digits = []
        · rw [if_pos htrim] at hgroup
          rw [if_neg (by simpa using htrim)]
          refine ⟨by omega,by dsimp only; omega,?_⟩
          simp only [value,hrest,hs,afterBounds_of_some hgroup]
        · rw [if_neg htrim] at hgroup
          rw [if_pos (by simpa using htrim)]
          exact hleave _ true hs hgroup hunread.symm
    · rw [if_neg hc]
      exact hleave _ false hs (by rw [afterGroup,if_neg fun hand => hc hand.1]) (by simp [unreadBracket,hc])

section Words
variable (toLower : Text → Text)

/-- Behind a word of a type name, the text from behind the next word on. -/
def nextWord : Text → Option Text
  | [] => none
  | b::s =>
    if b=blank ∧ s.takeWhile identByte ≠ [] ∧ typeNameWords.contains (toLower (s.takeWhile identByte)) then
      some (s.dropWhile identByte)
    else none

variable {s rest text : Text} {i : ℕ}

variable {toLower} in
lemma nextWord_length (h : nextWord toLower s=some rest) : rest <:+ s ∧ rest.length<s.length := by
  cases s with
  | nil => cases h
  | cons b s =>
    rw [nextWord] at h
    split_ifs at h
    obtain rfl := some.inj h
    have hsuffix : s.dropWhile identByte <:+ s := dropWhile_suffix _
    exact ⟨hsuffix.trans (suffix_cons b s),Nat.lt_succ_of_le hsuffix.length_le⟩

def afterQualifiers (s : Text) : Text := afterBounds (afterModifier s)

lemma afterQualifiers_suffix (s : Text) : afterQualifiers s <:+ s :=
  (afterBounds_suffix _).trans (afterModifier_suffix s)

def afterTypeWords (s : Text) : Text :=
  match _h : nextWord toLower (afterQualifiers s) with
  | some rest => afterTypeWords rest
  | none => afterQualifiers s
  termination_by s.length
  decreasing_by exact (nextWord_length _h).2.trans_le (afterQualifiers_suffix s).length_le

variable {toLower}

lemma afterTypeWords_of_some (h : nextWord toLower (afterQualifiers s)=some rest) :
    afterTypeWords toLower s = afterTypeWords toLower rest := by
  rw [afterTypeWords]
  split
  · next rest' heq =>
    obtain rfl := some.inj (h.symm.trans heq)
    rfl
  · next heq => rw [h] at heq; cases heq

lemma afterTypeWords_of_none (h : nextWord toLower (afterQualifiers s)=none) :
    afterTypeWords toLower s = afterQualifiers s := by
  rw [afterTypeWords]
  split
  · next rest heq => rw [h] at heq; cases heq
  · rfl

lemma afterTypeWords_suffix (s : Text) : afterTypeWords toLower s <:+ s := by
  cases h : nextWord toLower (afterQualifiers s) with
  | none => rw [afterTypeWords_of_none h]; exact afterQualifiers_suffix s
  | some rest =>
    rw [afterTypeWords_of_some h]
    exact (afterTypeWords_suffix rest).trans ((nextWord_length h).1.trans (afterQualifiers_suffix s))
  termination_by s.length
  decreasing_by exact (nextWord_length h).2.trans_le (afterQualifiers_suffix s).length_le

variable (toLower)

def afterType (s : Text) : Text :=
  afterTypeWords toLower (dotted toLower false false (s.dropWhile isSpace)).2.2

lemma typeRound_eq (h : text.drop i=s) (hi : i≤text.length) :
    typeRound toLower text i = some (match nextWord toLower (afterQualifiers s) with
      | some rest => .again (indexOf text rest)
      | none => .leave (indexOf text (afterQualifiers s))) := by
  have hsuffix : ∀ t, t <:+ s → t <:+ text := fun t ht => ht.trans (h ▸ drop_suffix i text)
  have hqual := hsuffix _ (afterQualifiers_suffix s)
  have hbounds : skipArrayBounds text (indexOf text (afterModifier s)) =
      some (unreadBracket (afterQualifiers s),indexOf text (afterQualifiers s)) :=
    skipArrayBounds_eq (drop_indexOf (hsuffix _ (afterModifier_suffix s))) (indexOf_le _ _)
  rw [typeRound,skipTypeModifier_eq h hi]
  simp only [bind_eq_bind,bind_some,hbounds,within_eq,drop_indexOf hqual]
  match hq : afterQualifiers s with
  | [] => rfl
  | b::t =>
    rw [hq] at hqual
    obtain ⟨hlen,-,hdrop⟩ := Text.drop_cons (drop_indexOf hqual)
    by_cases hb : b=blank
    · have hunread : unreadBracket (b::t) = false := by rw [hb]; rfl
      have hslice := slice_takeWhile (s := text) (p := identByte)
        (i := indexOf text (b::t)+1) (by omega)
      rw [hdrop] at hslice
      rw [hunread,if_neg (by simp),if_pos (by simpa using hb),skipWhile_eq,hdrop]
      simp only [bind_some,hslice,nextWord]
      by_cases hnil : t.takeWhile identByte = []
      · rw [if_pos (by simp [hnil]),if_neg fun hand => hand.2.1 hnil]
      have hk : indexOf text (t.dropWhile identByte) = indexOf text (b::t)+1+(t.takeWhile identByte).length := by
        have hsplit := congrArg List.length (takeWhile_append_dropWhile (p := identByte) (l := t))
        rw [length_append] at hsplit
        rw [indexOf]
        omega
      rw [if_neg (by simpa using hnil)]
      by_cases hword : typeNameWords.contains (toLower (t.takeWhile identByte)) = true
      · rw [if_pos hword,if_pos ⟨hb,hnil,hword⟩,← hk]
      · rw [if_neg hword,if_neg fun hand => hword hand.2.2]
    · have hnone : nextWord toLower (b::t) = none := by rw [nextWord,if_neg fun hand => hb hand.1]
      rw [hnone]
      split_ifs with hends hblank
      · rfl
      · exact absurd (by simpa using hblank) hb
      · rfl

lemma readQualifiedName_eq (deparsed : Bool) (h : text.drop i=s) (hi : i≤text.length) :
    readQualifiedName toLower text i deparsed =
      some (refOf (dotted toLower deparsed false s).1,
        if (dotted toLower deparsed false s).1=[] then true else (dotted toLower deparsed false s).2.1,
        indexOf text (dotted toLower deparsed false s).2.2) := by
  rw [readQualifiedName,readDotted_eq toLower deparsed h hi]
  rfl

lemma skipTypeName_eq (h : text.drop i=s) (hi : i≤text.length) :
    skipTypeName toLower text i = some (indexOf text (afterType toLower s)) := by
  have hspace : s.dropWhile isSpace <:+ text :=
    (dropWhile_suffix _).trans (h ▸ drop_suffix i text)
  have hname := (dotted_suffix toLower false false (s.dropWhile isSpace)).trans hspace
  rw [skipTypeName,skipWhile_indexOf isSpace h hi,bind_eq_bind,bind_some,
    readQualifiedName_eq toLower false (drop_indexOf hspace) (indexOf_le _ _),bind_eq_bind,
    bind_some,afterType]
  refine (loop_eq (fun j => j≤text.length) (fun j => text.length-j)
    (fun j => indexOf text (afterTypeWords toLower (text.drop j))) (fun j hj => ?_) (indexOf_le _ _)
    (by omega)).trans (by rw [drop_indexOf hname])
  rw [typeRound_eq toLower rfl hj]
  cases hnext : nextWord toLower (afterQualifiers (text.drop j)) with
  | none => exact congrArg (indexOf text) (afterTypeWords_of_none hnext).symm
  | some rest =>
    obtain ⟨hsuffix,hlt⟩ := nextWord_length hnext
    have hqual := afterQualifiers_suffix (text.drop j)
    have htext : rest <:+ text := (hsuffix.trans hqual).trans (drop_suffix j text)
    have hle := hqual.length_le
    rw [length_drop] at hle
    refine ⟨indexOf_le _ _,?_,?_⟩
    · simp only [indexOf]
      omega
    · simp only [drop_indexOf htext,afterTypeWords_of_some hnext]

end Words

end Types

end Pglens.Explain

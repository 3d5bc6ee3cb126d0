import Pglens.Explain.Names

/-! One step of scanCalls as a function of the bytes before and behind its index, the calls it finds
on the way, and the proof that scanCalls returns them, each once and in order. -/
namespace Pglens.Explain
open Pglens.Lib List Text Option

/-- Whether an apostrophe opens a string with backslash escapes, by the bytes before it, last
first. -/
def escapes : Text → Bool
  | [] => false
  | [e] => e == 0x45 || e == 0x65
  | e::b::_ => (e == 0x45 || e == 0x65) && !identByte b

lemma escapesAt_eq (before s : Text) :
    escapesAt (before.reverse++s) before.length = some (escapes before) := by
  match before with
  | [] => rfl
  | [e] => simp [escapesAt,escapes]; grind
  | e::b::before =>
    have hlast : ((e::b::before).reverse++s)[(e::b::before).length-1]? = some e := by simp
    have hprior : ((e::b::before).reverse++s)[(e::b::before).length-2]? = some b := by simp
    rw [escapesAt,if_pos (by simp),hlast,hprior]
    simp [escapes]
    grind

lemma afterString_suffix (escaped : Bool) (s : Text) : afterString escaped s <:+ s := by
  match s with
  | [] => exact suffix_rfl
  | [_] => exact nil_suffix
  | b::c::s =>
    have hs : s <:+ b::c::s := (suffix_cons c s).trans (suffix_cons b _)
    have hcs := (afterString_suffix escaped (c::s)).trans (suffix_cons b _)
    rw [afterString]
    split_ifs
    · exact (afterString_suffix escaped s).trans hs
    · exact hcs
    · exact (afterString_suffix escaped s).trans hs
    · exact suffix_cons b _
    · exact hcs
  termination_by s.length

lemma afterFirst_suffix (p : UInt8 → Bool) (c : UInt8) (s : Text) : afterFirst p (c::s) <:+ s := by
  rw [afterFirst,dropWhile_cons]
  split_ifs
  · exact (tail_suffix _).trans (dropWhile_suffix _)
  · exact suffix_rfl

lemma afterDollar_suffix (s : Text) : afterDollar s <:+ s := by
  rw [afterDollar]
  split_ifs
  · exact dropWhile_suffix _
  · have htail : (s.dropWhile tagByte).tail <:+ s := (tail_suffix _).trans (dropWhile_suffix _)
    rw [afterDelim]
    cases index _ (s.dropWhile tagByte).tail with
    | none => exact nil_suffix
    | some k => exact (drop_suffix _ _).trans htail
  · exact suffix_rfl

section Scan
variable (toLower : Text → Text) (deparsed : Bool)

/-- A step of scanCalls at the byte `c`: the call found there, and what is left of the text. -/
def lexStep (before : Text) (c : UInt8) (s : Text) : Option FuncRef × Text :=
  if c=quote then (none,afterString (escapes before) s)
  else if c=hyphen ∧ s.head? = some hyphen then (none,afterFirst (· == newline) (c::s))
  else if c=slash ∧ s.head? = some star then (none,(afterBlock 0 (c::s)).getD [])
  else if c=dollar then (none,afterDollar s)
  else if c=colon ∧ s.head? = some colon then (none,afterType toLower s.tail)
  else if digit c then (none,s.dropWhile numberByte)
  else if nameStart c then
    let name := dotted toLower deparsed false (c::s)
    (if name.2.1=false ∧ (name.2.2.dropWhile isSpace).head?=some openParen then some (refOf name.1) else none,
      name.2.2)
  else (none,s)

variable {toLower deparsed}

lemma lexStep_string (before s : Text) :
    lexStep toLower deparsed before quote s = (none,afterString (escapes before) s) := if_pos rfl

lemma lexStep_lineComment (before s : Text) :
    lexStep toLower deparsed before hyphen (hyphen::s) = (none,afterFirst (· == newline) (hyphen::hyphen::s)) := by
  rw [lexStep,if_neg (by decide),if_pos ⟨rfl,rfl⟩]

lemma lexStep_blockComment (before s : Text) :
    lexStep toLower deparsed before slash (star::s) = (none,(afterBlock 0 (slash::star::s)).getD []) := by
  rw [lexStep,if_neg (by decide),if_neg (fun hand => absurd hand.1 (by decide)),if_pos ⟨rfl,rfl⟩]

lemma lexStep_dollar (before s : Text) :
    lexStep toLower deparsed before dollar s = (none,afterDollar s) := by
  rw [lexStep,if_neg (by decide),if_neg (fun hand => absurd hand.1 (by decide)),
    if_neg (fun hand => absurd hand.1 (by decide)),if_pos rfl]

lemma lexStep_cast (before s : Text) :
    lexStep toLower deparsed before colon (colon::s) = (none,afterType toLower s) := by
  rw [lexStep,if_neg (by decide),if_neg (fun hand => absurd hand.1 (by decide)),
    if_neg (fun hand => absurd hand.1 (by decide)),if_neg (by decide),if_pos ⟨rfl,rfl⟩,tail_cons]

variable {c : UInt8} {text s : Text}

lemma namePart_of_nameStart (h : nameStart c=true) (s : Text) :
    ∃ p, namePart toLower deparsed (c::s) = some p := by
  rw [namePart]
  by_cases hquote : c=doubleQuote
  · exact ⟨_,if_pos hquote⟩
  · have hstart : identStart c = true := by simpa [nameStart,hquote] using h
    rw [if_neg hquote,if_pos hstart]
    exact ⟨_,rfl⟩

lemma dotted_suffix_of_nameStart (h : nameStart c=true) (keyword : Bool) (s : Text) :
    (dotted toLower deparsed keyword (c::s)).2.2 <:+ s := by
  obtain ⟨p,hp⟩ : ∃ p, namePart toLower deparsed (c::s) = some p := namePart_of_nameStart h s
  exact dotted_suffix_of_some _ _ hp

lemma afterType_suffix (s : Text) : afterType toLower s <:+ s :=
  (afterTypeWords_suffix _).trans ((dotted_suffix _ _ _ _).trans (dropWhile_suffix _))

lemma lexStep_suffix (before : Text) (c : UInt8) (s : Text) :
    (lexStep toLower deparsed before c s).2 <:+ s := by
  rw [lexStep]
  split_ifs with hquote hline hblock hdollar hcast hdigit hname
  · exact afterString_suffix _ s
  · exact afterFirst_suffix _ c s
  · obtain ⟨rfl,hhead⟩ := hblock
    obtain ⟨t,rfl⟩ := head?_eq_some_iff.mp hhead
    rw [afterBlock_opens]
    cases h : afterBlock (0+1) t with
    | none => exact nil_suffix
    | some rest => exact (afterBlock_suffix h).trans (suffix_cons star t)
  · exact afterDollar_suffix s
  · exact (afterType_suffix s.tail).trans (tail_suffix s)
  · exact dropWhile_suffix _
  · exact dotted_suffix_of_nameStart hname false s
  · exact suffix_rfl

variable (toLower deparsed)

/-- The calls that the scan finds in the rest of a text, one entry for each place. -/
def calls (before : Text) (s : Text) : List FuncRef :=
  match s with
  | [] => []
  | c::s =>
    let step := lexStep toLower deparsed before c s
    step.1.toList++calls (((c::s).take ((c::s).length-step.2.length)).reverse++before) step.2
  termination_by s.length
  decreasing_by exact Nat.lt_succ_of_le (lexStep_suffix before c s).length_le

def Scan.add (st : Scan) (ref : Option FuncRef) (i : ℕ) : Scan :=
  match ref with
  | none => { st with i := i }
  | some ref =>
    if st.seen ref then { st with i := i }
    else { i := i, refs := st.refs++[ref], seen := Function.update st.seen ref true }

lemma scanName_eq (st : Scan) (h : text.drop st.i=c::s)
    (hname : nameStart c=true) : scanName toLower text deparsed st =
      let name := dotted toLower deparsed false (c::s)
      some (st.add (if name.2.1=false ∧ (name.2.2.dropWhile isSpace).head?=some openParen then
        some (refOf name.1) else none) (indexOf text name.2.2)) := by
  obtain ⟨hlen,-,-⟩ := drop_cons h
  have hparts : (dotted toLower deparsed false (c::s)).1 ≠ [] := by
    obtain ⟨p,hp⟩ : ∃ p, namePart toLower deparsed (c::s) = some p := namePart_of_nameStart hname s
    rw [dotted_of_some _ _ hp]
    split <;> simp
  have hsuffix : (dotted toLower deparsed false (c::s)).2.2 <:+ text :=
    (dotted_suffix _ _ _ _).trans (h ▸ drop_suffix st.i text)
  have hspace := (dropWhile_suffix isSpace).trans hsuffix
  rw [scanName,readQualifiedName_eq toLower deparsed h (by omega)]
  simp only [bind_eq_bind,bind_some,if_neg hparts,
    skipWhile_indexOf isSpace (drop_indexOf hsuffix) (indexOf_le _ _),within_eq,drop_indexOf hspace]
  generalize dotted toLower deparsed false (c::s) = name
  obtain ⟨parts,keyword,rest⟩ := name
  have hparen : ((rest.dropWhile isSpace).head?.any (· == openParen)) =
      ((rest.dropWhile isSpace).head? == some openParen) := by
    cases (rest.dropWhile isSpace).head? <;> simp
  by_cases hcall : keyword=false ∧ (rest.dropWhile isSpace).head? = some openParen
  · rw [if_pos hcall,if_neg (by simp [hcall])]
    simp only [Scan.add]
    split_ifs <;> rfl
  · rw [if_neg hcall,if_pos]
    · rfl
    · simp only [hparen]
      cases keyword <;> simp_all

lemma scanRound_eq {before : Text} (st : Scan) (h : text.drop st.i=c::s)
    (hbefore : (text.take st.i).reverse=before) : scanRound toLower text deparsed st =
      some (.again (st.add (lexStep toLower deparsed before c s).1
        (indexOf text (lexStep toLower deparsed before c s).2))) := by
  obtain ⟨hlen,hget,hdrop⟩ := drop_cons h
  have hescapes : escapesAt text st.i = some (escapes before) := by
    have hsplit : text = before.reverse++text.drop st.i := by
      rw [← hbefore,reverse_reverse,take_append_drop]
    have hi : st.i=before.length := by
      rw [← hbefore,length_reverse,length_take]
      omega
    rw [hi,hsplit]
    exact escapesAt_eq before _
  have hnext : ∀ b, within text (st.i+1) (· == b) = some (s.head? == some b) := by
    intro b
    rw [within_eq,hdrop]
    cases s <;> simp
  rw [scanRound,if_pos (by omega),hget,lexStep]
  simp only [bind_eq_bind,bind_some,hescapes,hnext]
  by_cases hquote : c=quote
  · rw [if_pos hquote,if_pos hquote,skipStringLiteral_eq,hdrop]
    rfl
  rw [if_neg hquote,if_neg hquote]
  by_cases hline : c=hyphen ∧ s.head? = some hyphen
  · rw [if_pos (by simpa using hline),if_pos hline,skipLineComment_eq (by omega),h]
    rfl
  rw [if_neg (by simpa using hline),if_neg hline]
  by_cases hblock : c=slash ∧ s.head? = some star
  · rw [if_pos (by simpa using hblock),if_pos hblock,skipBlockComment_eq,h]
    rfl
  rw [if_neg (by simpa using hblock),if_neg hblock]
  by_cases hdollar : c=dollar
  · rw [if_pos hdollar,if_pos hdollar,skipDollar_eq (hdollar ▸ h)]
    rfl
  rw [if_neg hdollar,if_neg hdollar]
  by_cases hcast : c=colon ∧ s.head? = some colon
  · obtain ⟨t,ht⟩ := head?_eq_some_iff.mp hcast.2
    obtain ⟨hlen2,-,hdrop2⟩ := drop_cons (hdrop.trans ht)
    rw [if_pos (by simpa using hcast),if_pos hcast,skipTypeName_eq toLower hdrop2 (by omega),ht]
    rfl
  rw [if_neg (by simpa using hcast),if_neg hcast]
  by_cases hdigit : digit c = true
  · have hnumber : numberByte c = true := by rw [numberByte,identByte,hdigit]; simp
    rw [if_pos hdigit,if_pos hdigit,skipWhile_indexOf numberByte h (by omega),
      dropWhile_cons_of_pos hnumber]
    rfl
  rw [if_neg hdigit,if_neg hdigit]
  by_cases hname : nameStart c = true
  · rw [if_pos hname,if_pos hname,scanName_eq toLower deparsed st h hname]
    rfl
  · have hself : indexOf text s = st.i+1 := indexOf_drop hdrop (by omega)
    rw [if_neg hname,if_neg hname,hself]
    rfl

def addRef (refs : List FuncRef) (ref : FuncRef) : List FuncRef := if ref∈refs then refs else refs++[ref]

lemma calls_cons (before : Text) (c : UInt8) (s : Text) : calls toLower deparsed before (c::s) =
    (lexStep toLower deparsed before c s).1.toList ++
      calls toLower deparsed (((c::s).take ((c::s).length-(lexStep toLower deparsed before c s).2.length)).reverse ++
        before) (lexStep toLower deparsed before c s).2 := by
  rw [calls]

def Scan.Consistent (st : Scan) : Prop := ∀ ref, st.seen ref = decide (ref∈st.refs)

lemma Scan.Consistent.add {st : Scan} (h : st.Consistent) (ref : Option FuncRef) (i : ℕ) :
    (st.add ref i).Consistent ∧ (st.add ref i).i = i ∧
      (st.add ref i).refs = ref.toList.foldl addRef st.refs := by
  cases ref with
  | none => exact ⟨h,rfl,rfl⟩
  | some ref =>
    rw [Scan.add]
    by_cases hseen : ref∈st.refs
    · rw [if_pos (by simpa [h ref] using hseen)]
      exact ⟨h,rfl,by simp [addRef,hseen]⟩
    · rw [if_neg (by simpa [h ref] using hseen)]
      refine ⟨fun other => ?_,rfl,by simp [addRef,hseen]⟩
      by_cases hother : other=ref
      · simp [hother]
      · simp [hother,h other]

lemma foldl_addRef (found : List FuncRef) : found.foldl addRef [] = found.eraseDups := by
  induction found using List.reverseRecOn with
  | nil => rfl
  | append_singleton found ref ih =>
    rw [foldl_append,ih,eraseDups_append,foldl_cons,foldl_nil,addRef]
    by_cases hmem : ref∈found
    · simp [hmem,List.removeAll,mem_eraseDups]
    · simp [hmem,List.removeAll,mem_eraseDups,eraseDups_cons]

lemma scanCalls_eq (text : Text) :
    scanCalls toLower text deparsed = some (calls toLower deparsed [] text).eraseDups := by
  have hloop : scanCalls toLower text deparsed =
      some ((calls toLower deparsed (text.take 0).reverse (text.drop 0)).foldl addRef []) := by
    refine loop_eq (s := Scan.mk 0 [] fun _ => false) (fun st : Scan => st.i≤text.length ∧ st.Consistent)
      (fun st => text.length-st.i)
      (fun st => (calls toLower deparsed (text.take st.i).reverse (text.drop st.i)).foldl addRef st.refs)
      (fun st hst => ?_) ⟨Nat.zero_le _,fun _ => by simp⟩ (by simp only; omega)
    obtain ⟨hi,hcons⟩ := hst
    cases hs : text.drop st.i with
    | nil =>
      have hle := drop_eq_nil_iff.mp hs
      rw [scanRound,if_neg (by omega)]
      simp [Toward,hs,calls]
    | cons c s =>
      obtain ⟨hlen,-,hdrop⟩ := drop_cons hs
      rw [scanRound_eq toLower deparsed st hs rfl]
      generalize hstep : lexStep toLower deparsed (text.take st.i).reverse c s = step
      have hrest : step.2 <:+ s := hstep ▸ lexStep_suffix _ c s
      have htext : step.2 <:+ text := hrest.trans (hdrop ▸ drop_suffix _ text)
      have hle := hrest.length_le
      obtain ⟨hcons',hindex,hrefs⟩ := hcons.add step.1 (indexOf text step.2)
      refine ⟨⟨hindex.trans_le (indexOf_le _ _),hcons'⟩,?_,?_⟩
      · simp only [hindex]
        rw [indexOf]
        omega
      · have htake : (text.take (indexOf text step.2)).reverse =
            ((c::s).take ((c::s).length-step.2.length)).reverse++(text.take st.i).reverse := by
          rw [← reverse_append,← hs,← take_add,hs,indexOf,length_cons]
          congr 2
          omega
        simp only [hindex,hrefs,drop_indexOf htext,htake,hs,calls_cons,hstep,foldl_append]
  rw [hloop,take_zero,drop_zero,foldl_addRef]
  rfl

end Scan

end Pglens.Explain

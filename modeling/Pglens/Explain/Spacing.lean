import Pglens.Explain.Tokens

/-! When two spellings of one token sequence have the same calls for the scanner. Whitespace between
tokens never matters; comments do where a name is looked at together with what follows it, and so
does the exact whitespace in the type name behind a cast. -/
namespace Pglens.Explain
open Pglens.Lib List

def Token.isGap : Token → Bool
  | .space _ _ => true
  | .lineComment _ _ _ => true
  | .returnComment _ _ => true
  | .blockComment _ _ => true
  | _ => false

/-- The second sequence has the tokens of the first with other gaps: a gap is replaced by a gap, and
gaps are added before opening parentheses. -/
inductive Respaced : List Token → List Token → Prop
  | nil : Respaced [] []
  | token {t : Token} {ts us : List Token} (ht : t.isGap=false) : Respaced ts us → Respaced (t::ts) (t::us)
  | gap {g g' ts us : List Token} (hg : g≠[]) (hg' : g'≠[]) (hgap : ∀ t∈g, t.isGap=true)
    (hgap' : ∀ t∈g', t.isGap=true) : Respaced ts us → Respaced (g++ts) (g'++us)
  | paren {h : punctuation openParen=true} {g ts us : List Token} (hgap : ∀ t∈g, t.isGap=true) :
    Respaced ts us → Respaced (.punct openParen h::ts) (g++.punct openParen h::us)

section Types
variable (toLower : Text → Text)

/-- The number of tokens that skipTypeName passes behind a cast. -/
def typeLength (ts : List Token) : ℕ :=
  ((List.range (ts.length+1)).find? fun n => spell (ts.drop n)=afterType toLower (spell ts)).getD 0

variable {ts : List Token} {closing : UInt8} {set rest before : Text}

variable {toLower}

end Types

section Spacing

/-- The next token behind whitespace and comments is an opening parenthesis. -/
def followed (ts : List Token) : Bool :=
  match ts.dropWhile Token.isGap with
  | .punct b _::_ => b == openParen
  | _ => false

variable {g ts us gap : List Token} {t : Token} {p : Part}

lemma followed_gap (hgap : ∀ t∈g, t.isGap=true) (ts : List Token) :
    followed (g++ts) = followed ts := by
  rw [followed,dropWhile_append_of_pos hgap,followed]

lemma followed_token (ht : t.isGap=false) (ts us : List Token) :
    followed (t::ts) = followed (t::us) := by
  rw [followed,followed,dropWhile_cons_of_neg (by simp [ht]),dropWhile_cons_of_neg (by simp [ht])]
  cases t <;> rfl

lemma followed_of_opensCall (h : opensCall ts=true) : followed ts = true := by
  induction ts with
  | nil => cases h
  | cons t ts ih =>
    cases t with
    | space b hb => exact ih h
    | punct b hb => exact h
    | _ => cases h

lemma Respaced.followed (h : Respaced ts us) : Explain.followed ts = Explain.followed us := by
  induction h with
  | nil => rfl
  | token ht _ _ => exact followed_token ht _ _
  | gap hg hg' hgap hgap' _ ih => rw [followed_gap hgap,followed_gap hgap',ih]
  | paren hgap _ _ =>
    rw [followed_gap hgap]
    exact followed_token rfl _ _

lemma chain_of_gap (ht : t.isGap=true) (ts : List Token) : chain (t::ts) = [] := by
  cases t with
  | punct b hb => cases ht
  | _ => rfl

lemma Respaced.of_name_left (h : Respaced (.name p::ts) us) :
    ∃ us', us = .name p::us' ∧ Respaced ts us' := by
  generalize hxs : Token.name p::ts = xs at h
  cases h with
  | nil => cases hxs
  | @token t ts' us' ht h =>
    obtain ⟨rfl,rfl⟩ := List.cons.inj hxs
    exact ⟨us',rfl,h⟩
  | @gap g g' _ _ hg _ hgap _ _ =>
    obtain ⟨t,g,rfl⟩ := exists_cons_of_ne_nil hg
    obtain ⟨rfl,-⟩ := List.cons.inj hxs
    exact absurd (hgap (.name p) (by simp)) Bool.false_ne_true
  | paren _ _ => cases hxs

lemma Respaced.of_name_right (h : Respaced ts (.name p::us)) :
    ∃ ts', ts = .name p::ts' ∧ Respaced ts' us := by
  generalize hys : Token.name p::us = ys at h
  cases h with
  | nil => cases hys
  | @token t ts' us' ht h =>
    obtain ⟨rfl,rfl⟩ := List.cons.inj hys
    exact ⟨ts',rfl,h⟩
  | @gap g g' _ _ _ hg' _ hgap' _ =>
    obtain ⟨t,g',rfl⟩ := exists_cons_of_ne_nil hg'
    obtain ⟨rfl,-⟩ := List.cons.inj hys
    exact absurd (hgap' (.name p) (by simp)) Bool.false_ne_true
  | @paren _ g _ _ hgap _ =>
    cases g with
    | nil => cases hys
    | cons t g =>
      obtain ⟨rfl,-⟩ := List.cons.inj hys
      exact absurd (hgap (.name p) (by simp)) Bool.false_ne_true

lemma chain_cases (ts : List Token) :
    chain ts = [] ∨ ∃ hb q us, ts = .punct dot hb::.name q::us ∧ chain ts = q::chain us := by
  rw [chain.eq_def]
  split
  · next b hb q us =>
    by_cases hdot : b=dot
    · subst hdot
      exact .inr ⟨hb,q,us,rfl,if_pos rfl⟩
    · exact .inl (if_neg hdot)
  · exact .inl rfl

lemma chain_dot (hb : punctuation dot=true) (q : Part) (us : List Token) :
    chain (.punct dot hb::.name q::us) = q::chain us := by
  rw [chain,if_pos rfl]

lemma Respaced.chain {ts us : List Token} (h : Respaced ts us) :
    Explain.chain ts = Explain.chain us ∧
      Respaced (ts.drop (2*(Explain.chain ts).length)) (us.drop (2*(Explain.chain us).length)) := by
  have hempty : Explain.chain ts = [] → Explain.chain us = [] → Explain.chain ts = Explain.chain us ∧
      Respaced (ts.drop (2*(Explain.chain ts).length)) (us.drop (2*(Explain.chain us).length)) := by
    intro hts hus
    rw [hts,hus]
    exact ⟨rfl,h⟩
  cases h with
  | nil => exact hempty rfl rfl
  | @gap g g' _ _ hg hg' hgap hgap' _ =>
    obtain ⟨t,g,rfl⟩ := exists_cons_of_ne_nil hg
    obtain ⟨t',g',rfl⟩ := exists_cons_of_ne_nil hg'
    exact hempty (chain_of_gap (hgap t (by simp)) _) (chain_of_gap (hgap' t' (by simp)) _)
  | @paren hb g ts us hgap _ =>
    have hparen : ∀ vs, Explain.chain (.punct openParen hb::vs) = [] := by
      intro vs
      obtain hnil | ⟨_,q,ws,heq,-⟩ := chain_cases (.punct openParen hb::vs)
      · exact hnil
      · cases heq
    refine hempty (hparen ts) ?_
    cases g with
    | nil => exact hparen us
    | cons t g => exact chain_of_gap (hgap t (by simp)) _
  | @token t ts us ht h =>
    obtain hnil | ⟨hb,q,ts',heq,hchain⟩ := chain_cases (t::ts)
    · refine hempty hnil ?_
      obtain hnil' | ⟨hb,q,us',heq,-⟩ := chain_cases (t::us)
      · exact hnil'
      · obtain ⟨rfl,rfl⟩ := List.cons.inj heq
        obtain ⟨ts',rfl,-⟩ := h.of_name_right
        rw [chain_dot] at hnil
        cases hnil
    · obtain ⟨rfl,rfl⟩ := List.cons.inj heq
      obtain ⟨us',rfl,h'⟩ := h.of_name_left
      obtain ⟨hsame,hrest⟩ := Respaced.chain h'
      rw [chain_dot,chain_dot]
      simp only [length_cons,Nat.mul_add,drop_succ_cons]
      exact ⟨by rw [hsame],hrest⟩
  termination_by ts.length

/-- Where the next token behind a dotted name is an opening parenthesis, no comment comes before it. -/
def CallsTight (ts : List Token) : Prop :=
  ∀ p us, Token.name p::us <:+ ts → followed (us.drop (2*(chain us).length)) = true →
    opensCall (us.drop (2*(chain us).length)) = true

lemma CallsTight.opensCall_eq (h : CallsTight ts) (hsuffix : Token.name p::us <:+ ts) :
    opensCall (us.drop (2*(chain us).length)) = followed (us.drop (2*(chain us).length)) :=
  Bool.eq_iff_iff.mpr ⟨followed_of_opensCall,h p us hsuffix⟩

/-- Behind each cast, skipTypeName stops at the same token in both spellings. -/
def SameTypes (toLower : Text → Text) (ts us : List Token) : Prop :=
  ∀ ts' us', Token.cast::ts' <:+ ts → Token.cast::us' <:+ us → Respaced ts' us' →
    Respaced (ts'.drop (typeLength toLower ts')) (us'.drop (typeLength toLower us'))

variable {toLower : Text → Text} {typeLength : List Token → ℕ}

lemma callsFrom_gap (hgap : ∀ t∈g, t.isGap=true) (ts : List Token) :
    callsFrom toLower typeLength 0 (g++ts) = callsFrom toLower typeLength 0 ts := by
  induction g with
  | nil => rfl
  | cons t g ih =>
    have ht := hgap t (by simp)
    rw [cons_append,callsFrom_of_plain,ih fun u hu => hgap u (by simp [hu])]
    · rintro p rfl
      cases ht
    · rintro rfl
      cases ht

theorem Respaced.callsFrom (h : Respaced ts us) (hts : CallsTight ts) (hus : CallsTight us)
    (htypes : SameTypes toLower ts us) :
    Explain.callsFrom toLower (Explain.typeLength toLower) 0 ts =
      Explain.callsFrom toLower (Explain.typeLength toLower) 0 us := by
  induction hlen : ts.length using Nat.strong_induction_on generalizing ts us with
  | _ n ih =>
  -- What is left of both behind a token is again a pair of spellings with the conditions.
  have hrec : ∀ ts' us' : List Token, Respaced ts' us' → ts' <:+ ts → us' <:+ us → ts'.length<ts.length →
      Explain.callsFrom toLower (Explain.typeLength toLower) 0 ts' =
        Explain.callsFrom toLower (Explain.typeLength toLower) 0 us' := by
    intro ts' us' h' hsts hsus hlt
    refine ih _ (hlen ▸ hlt) h' (fun p vs hvs => hts p vs (hvs.trans hsts))
      (fun p vs hvs => hus p vs (hvs.trans hsus)) (fun vs ws hvs hws => ?_) rfl
    exact htypes vs ws (hvs.trans hsts) (hws.trans hsus)
  cases h with
  | nil => rfl
  | @gap g g' ts us hg hg' hgap hgap' h =>
    have hpos := length_pos_iff.mpr hg
    rw [callsFrom_gap hgap,callsFrom_gap hgap']
    exact hrec ts us h (suffix_append g ts) (suffix_append g' us) (by rw [length_append]; omega)
  | @paren hb g ts us hgap h =>
    rw [callsFrom_gap hgap]
    exact hrec ts us h (suffix_cons _ ts) ((suffix_cons _ us).trans (suffix_append g _)) (by simp)
  | @token t ts us ht h =>
    by_cases hname : ∃ p, t = .name p
    · obtain ⟨p,rfl⟩ := hname
      obtain ⟨hchain,hrest⟩ := h.chain
      have hopens : opensCall (ts.drop (2*(Explain.chain ts).length)) =
          opensCall (us.drop (2*(Explain.chain us).length)) := by
        rw [hts.opensCall_eq suffix_rfl,hus.opensCall_eq suffix_rfl,hrest.followed]
      have hcalls := hrec _ _ hrest ((drop_suffix _ ts).trans (suffix_cons _ ts))
        ((drop_suffix _ us).trans (suffix_cons _ us))
        (by rw [length_drop,length_cons]; omega)
      rw [Explain.callsFrom,Explain.callsFrom,callsFrom_drop _ _ _ ts,callsFrom_drop _ _ _ us,hcalls,hopens,
        hchain]
    by_cases hcast : t=.cast
    · subst hcast
      have hrest := htypes ts us suffix_rfl suffix_rfl h
      rw [Explain.callsFrom,Explain.callsFrom,callsFrom_drop _ _ _ ts,callsFrom_drop _ _ _ us]
      exact hrec _ _ hrest ((drop_suffix _ ts).trans (suffix_cons _ ts))
        ((drop_suffix _ us).trans (suffix_cons _ us))
        (by rw [length_drop,length_cons]; omega)
    · rw [callsFrom_of_plain (fun p hp => hname ⟨p,hp⟩) hcast,
        callsFrom_of_plain (fun p hp => hname ⟨p,hp⟩) hcast]
      exact hrec ts us h (suffix_cons t ts) (suffix_cons t us) (by simp)

/-- The conditions on one spelling: no line comment ends with a carriage return alone, no number is directly
followed by a dot, and no comment stands between a name and its opening parenthesis. -/
structure Steady (ts : List Token) : Prop where
  lexed : Lexed [] ts
  lines : NewlineEnded ts
  numbers : NumbersEnd ts
  calls : CallsTight ts

end Spacing

end Pglens.Explain

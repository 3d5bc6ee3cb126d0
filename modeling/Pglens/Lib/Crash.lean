import Mathlib.Data.Nat.Notation

/-! A program reads a store and performs effects on it one by one. A crash leaves the effects
performed before it, the last of them possibly torn. A triple says what a program establishes when
it returns and what holds wherever a crash cuts it, over the store and a ghost state that follows
the effects. -/
namespace Pglens.Lib

/-- A store, what one effect does to it, and what a crash during an effect can leave of
that effect. -/
structure Device (σ ε : Type) where
  apply : σ → ε → σ
  torn : ε → ε → Prop

namespace Device
variable {σ ε : Type} (D : Device σ ε)

def run (s : σ) (es : List ε) : σ := es.foldl D.apply s

inductive Cut : List ε → List ε → Prop
  | stop (es : List ε) : Cut es []
  | torn {e e' : ε} (es : List ε) (h : D.torn e e') : Cut (e::es) [e']
  | step {e : ε} {es es' : List ε} (h : Cut es es') : Cut (e::es) (e::es')

variable {D}

lemma run_append (s : σ) (es fs : List ε) : D.run s (es++fs) = D.run (D.run s es) fs :=
  List.foldl_append

lemma Cut.left (es fs : List ε) : D.Cut (es++fs) es := by
  induction es with
  | nil => exact .stop _
  | cons e es ih => exact .step ih

lemma Cut.all (es : List ε) : D.Cut es es := by
  have h := Cut.left (D := D) es []
  rwa [List.append_nil] at h

lemma Cut.append {es fs cs : List ε} (h : D.Cut (es++fs) cs) :
    D.Cut es cs ∨ ∃ ds, D.Cut fs ds ∧ cs = es++ds := by
  induction es generalizing cs with
  | nil => exact .inr ⟨cs,h,rfl⟩
  | cons e es ih =>
    cases h with
    | stop => exact .inl (.stop _)
    | torn _ ht => exact .inl (.torn es ht)
    | step h =>
      rcases ih h with hc | ⟨ds,hd,rfl⟩
      · exact .inl (.step hc)
      · exact .inr ⟨ds,hd,rfl⟩

end Device

/-- A program over a device: its result and the effects it performs, from the store it
starts on. -/
def Prog {σ ε : Type} (_ : Device σ ε) (α : Type) := σ → α × List ε

namespace Prog
variable {σ ε γ α β : Type} {D : Device σ ε}

instance : Monad (Prog D) where
  pure a := fun _ => (a,[])
  bind p f := fun s =>
    let r := p s
    let t := f r.1 (D.run s r.2)
    (t.1,r.2++t.2)

def read : Prog D σ := fun s => (s,[])

def perform (e : ε) : Prog D Unit := fun _ => ((),[e])

def performIf (c : Bool) (e : ε) : Prog D Unit := fun _ => ((),if c then [e] else [])

lemma run_pure (a : α) (s : σ) : (pure a : Prog D α) s = (a,[]) := rfl

lemma run_bind (p : Prog D α) (f : α → Prog D β) (s : σ) :
    (p >>= f) s = ((f (p s).1 (D.run s (p s).2)).1, (p s).2++(f (p s).1 (D.run s (p s).2)).2) := rfl

lemma run_read_bind (f : σ → Prog D β) (s : σ) : (read >>= f) s = f s s := rfl

lemma mem_bind {p : Prog D α} {f : α → Prog D β} {s : σ} {e : ε} :
    e ∈ ((p >>= f) s).2 ↔ e ∈ (p s).2 ∨ e ∈ (f (p s).1 (D.run s (p s).2)).2 := by
  rw [run_bind,List.mem_append]

/-- From `P`, the program returns with `Q`, and `C` holds wherever a crash cuts it. -/
def Triple (ghost : γ → ε → γ) (P : σ → γ → Prop) (p : Prog D α) (C : σ → γ → Prop)
    (Q : α → σ → γ → Prop) : Prop :=
  ∀ s g, P s g →
    (∀ cs, D.Cut (p s).2 cs → C (D.run s cs) (cs.foldl ghost g)) ∧
    Q (p s).1 (D.run s (p s).2) ((p s).2.foldl ghost g)

section Rules
variable {ghost : γ → ε → γ} {P P' C : σ → γ → Prop} {Q : α → σ → γ → Prop}

lemma Triple.pure {a : α} (h : ∀ s g, P s g → C s g ∧ Q a s g) :
    Triple ghost P (Pure.pure a : Prog D α) C Q := by
  intro s g hp
  refine ⟨fun cs hc => ?_,(h s g hp).2⟩
  cases hc
  exact (h s g hp).1

variable {p : Prog D α} {R : β → σ → γ → Prop} {e : ε}

lemma Triple.bind {f : α → Prog D β} (hp : Triple ghost P p C Q)
    (hf : ∀ a, Triple ghost (Q a) (f a) C R) : Triple ghost P (p >>= f) C R := by
  intro s g h
  obtain ⟨hc,hq⟩ := hp s g h
  obtain ⟨hc',hr⟩ := hf _ _ _ hq
  rw [run_bind]
  refine ⟨fun cs hcs => ?_,?_⟩
  · rcases hcs.append with hcs | ⟨ds,hd,rfl⟩
    · exact hc cs hcs
    · rw [Device.run_append,List.foldl_append]
      exact hc' ds hd
  · rw [Device.run_append,List.foldl_append]
    exact hr

lemma Triple.read_bind {f : σ → Prog D β} (h : ∀ d, Triple ghost (fun s g => s=d ∧ P s g) (f d) C R) :
    Triple ghost P (read >>= f) C R := by
  intro s g hp
  exact h s s g ⟨rfl,hp⟩

lemma Triple.perform {Q : Unit → σ → γ → Prop}
    (h : ∀ s g, P s g → C s g ∧ (∀ e', D.torn e e' → C (D.apply s e') (ghost g e')) ∧
      C (D.apply s e) (ghost g e) ∧ Q () (D.apply s e) (ghost g e)) :
    Triple ghost P (Prog.perform e : Prog D Unit) C Q := by
  intro s g hp
  obtain ⟨hc,ht,hca,hq⟩ := h s g hp
  refine ⟨fun cs hcs => ?_,hq⟩
  cases hcs with
  | stop => exact hc
  | torn _ h => exact ht _ h
  | step h =>
    cases h
    exact hca

lemma Triple.performIf {c : Bool} {Q : Unit → σ → γ → Prop}
    (htrue : c=true → Triple ghost P (Prog.perform e : Prog D Unit) C Q)
    (hfalse : c=false → ∀ s g, P s g → C s g ∧ Q () s g) :
    Triple ghost P (Prog.performIf c e : Prog D Unit) C Q := by
  cases c with
  | true => exact htrue rfl
  | false => exact Triple.pure (hfalse rfl)

lemma Triple.pre (h : Triple ghost P' p C Q) (hp : ∀ s g, P s g → P' s g) :
    Triple ghost P p C Q := fun s g hs => h s g (hp s g hs)

lemma Triple.assume {φ : Prop} (h : φ → Triple ghost P p C Q) :
    Triple ghost (fun s g => P s g ∧ φ) p C Q := fun s g hs => h hs.2 s g hs.1

lemma Triple.post {Q' : α → σ → γ → Prop} (h : Triple ghost P p C Q)
    (hq : ∀ a s g, Q a s g → Q' a s g) : Triple ghost P p C Q' :=
  fun s g hs => ⟨(h s g hs).1,hq _ _ _ (h s g hs).2⟩

end Rules

/-- From a store with `P`, the program returns with `Q`. -/
def Ends (P : σ → Prop) (p : Prog D α) (Q : α → σ → Prop) : Prop :=
  ∀ s, P s → Q (p s).1 (D.run s (p s).2)

section Ends
variable {P : σ → Prop} {Q : α → σ → Prop} {R : β → σ → Prop}

lemma Ends.pure {a : α} (h : ∀ s, P s → Q a s) : Ends P (Pure.pure a : Prog D α) Q := h

lemma Ends.bind {p : Prog D α} {f : α → Prog D β} (hp : Ends P p Q)
    (hf : ∀ a, Ends (Q a) (f a) R) : Ends P (p >>= f) R := by
  intro s hs
  rw [run_bind,Device.run_append]
  exact hf _ _ (hp s hs)

lemma Ends.read_bind {f : σ → Prog D β} (h : ∀ d, Ends (fun s => s=d ∧ P s) (f d) R) :
    Ends P (read >>= f) R := fun s hs => h s s ⟨rfl,hs⟩

lemma Ends.assume {p : Prog D α} {φ : Prop} (h : φ → Ends P p Q) :
    Ends (fun s => P s ∧ φ) p Q := fun s hs => h hs.2 s hs.1

lemma Ends.post {p : Prog D α} {Q' : α → σ → Prop} (h : Ends P p Q)
    (hq : ∀ a s, Q a s → Q' a s) : Ends P p Q' := fun s hs => hq _ _ (h s hs)

end Ends

/-- From any store, every effect satisfies `Φ` and the result `Ψ`. -/
def Emits (Φ : ε → Prop) (p : Prog D α) (Ψ : α → Prop) : Prop :=
  ∀ s, (∀ e ∈ (p s).2, Φ e) ∧ Ψ (p s).1

section Emits
variable {Φ : ε → Prop} {Ψ : α → Prop} {Θ : β → Prop}

lemma Emits.pure {a : α} (h : Ψ a) : Emits Φ (Pure.pure a : Prog D α) Ψ :=
  fun _ => ⟨fun _ he => absurd he List.not_mem_nil,h⟩

lemma Emits.bind {p : Prog D α} {f : α → Prog D β} (hp : Emits Φ p Ψ)
    (hf : ∀ a, Ψ a → Emits Φ (f a) Θ) : Emits Φ (p >>= f) Θ := by
  intro s
  obtain ⟨h1,h2⟩ := hp s
  obtain ⟨h3,h4⟩ := hf _ h2 (D.run s (p s).2)
  refine ⟨fun e he => ?_,h4⟩
  rcases mem_bind.mp he with he | he
  · exact h1 e he
  · exact h3 e he

lemma Emits.read_bind {f : σ → Prog D β} (h : ∀ s, Emits Φ (f s) Θ) : Emits Φ (read >>= f) Θ :=
  fun s => h s s

lemma Emits.perform {e : ε} (h : Φ e) : Emits Φ (Prog.perform e : Prog D Unit) fun _ => True :=
  fun _ => ⟨fun e' he => by rw [List.mem_singleton.mp he]; exact h,trivial⟩

lemma Emits.performIf {c : Bool} {e : ε} (h : Φ e) :
    Emits Φ (Prog.performIf c e : Prog D Unit) fun _ => True := by
  cases c with
  | true => exact Emits.perform h
  | false => exact Emits.pure trivial

end Emits

end Prog

end Pglens.Lib

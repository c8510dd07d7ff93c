import Eugraph.Lib.Handler

/-!
# What programs ask for and what they return

`Calls E Q p` says of a program that, whatever it is answered, it makes only calls of `E`
and returns only results of `Q`.  `OkCalls` is the same for a program that may throw; what
it throws is not looked at.  The rules follow the shape of the program.
-/

namespace Eugraph.Lib

namespace Program

variable {C : Type} {R : C → Type} {α β ε : Type} {E : C → Prop}

/-- Whatever is answered, every call satisfies `E` and the result satisfies `Q`. -/
structure Calls (E : C → Prop) (Q : α → Prop) (p : Program C R α) : Prop where
  makes : Makes E p
  returns : Always (fun _ _ => True) Q p

namespace Calls

variable {Q Q' : α → Prop} {S : β → Prop}

lemma pure {a : α} (h : Q a) : Calls E Q (Pure.pure a : Program C R α) := ⟨trivial, h⟩

variable {p : Program C R α}

lemma bind {f : α → Program C R β} (hp : Calls E Q p)
    (hf : ∀ a, Q a → Calls E S (f a)) : Calls E S (p >>= f) := by
  constructor
  · rw [makes_bind]
    exact ⟨hp.makes, hp.returns.mono fun a ha => (hf a ha).makes⟩
  · rw [always_bind]
    exact hp.returns.mono fun a ha => (hf a ha).returns

lemma mono (h : Calls E Q p) (hQ : ∀ a, Q a → Q' a) : Calls E Q' p :=
  ⟨h.makes, h.returns.mono hQ⟩

/-- The result does not matter. -/
theorem weaken (h : Calls E Q p) : Calls E (fun _ => True) p := h.mono fun _ _ => trivial

lemma ask {c : C} (h : E c) : Calls E (fun _ => True) (Program.ask c : Program C R (R c)) :=
  ⟨⟨h, fun _ => trivial⟩, fun _ _ => trivial⟩

lemma ite {c : Prop} [Decidable c] {q : Program C R α} (hp : Calls E Q p) (hq : Calls E Q q) :
    Calls E Q (if c then p else q) := by
  split
  · exact hp
  · exact hq

lemma andThen {p q : Program C R Bool} (hp : Calls E (fun _ => True) p)
    (hq : Calls E (fun _ => True) q) : Calls E (fun _ => True) (Program.andThen p q) := by
  apply hp.bind
  intro ok _
  exact .ite hq (.pure trivial)

lemma allOf {body : β → Program C R Bool} {items : List β} (h : ∀ b ∈ items, Calls E (fun _ => True) (body b)) :
    Calls E (fun _ => True) (Program.allOf body items) := by
  induction items with
  | nil => exact .pure trivial
  | cons b rest ih =>
    exact .andThen (h b List.mem_cons_self) (ih fun b' hb' => h b' (List.mem_cons_of_mem b hb'))

lemma forEach {body : β → Program C R α} {items : List β} (h : ∀ b ∈ items, Calls E (fun _ => True) (body b)) :
    Calls E (fun _ => True) (Program.forEach body items) := by
  induction items with
  | nil => exact .pure trivial
  | cons b rest ih =>
    apply (h b List.mem_cons_self).bind
    intro _ _
    exact ih fun b' hb' => h b' (List.mem_cons_of_mem b hb')

end Calls

/-- A program that may throw makes only calls of `E`, and what it returns satisfies `Q`. -/
abbrev OkCalls (E : C → Prop) (Q : α → Prop) (p : ExceptT ε (Program C R) α) : Prop :=
  Calls E (fun r => ∀ a, r = .ok a → Q a) p.run

namespace OkCalls

variable {Q Q' : α → Prop} {S : β → Prop}

lemma pure {a : α} (h : Q a) : OkCalls E Q (Pure.pure a : ExceptT ε (Program C R) α) :=
  Calls.pure fun _ ha => Except.ok.inj ha ▸ h

lemma throw (e : ε) : OkCalls E Q (throw e : ExceptT ε (Program C R) α) := Calls.pure fun _ ha => nomatch ha

lemma bind {p : ExceptT ε (Program C R) α} {f : α → ExceptT ε (Program C R) β}
    (hp : OkCalls E Q p) (hf : ∀ a, Q a → OkCalls E S (f a)) : OkCalls E S (p >>= f) := by
  apply Calls.bind hp
  rintro (e | a) hQ
  · exact Calls.pure fun _ ha => nomatch ha
  · exact hf a (hQ a rfl)

lemma lift {p : Program C R α} (h : Calls E Q p) : OkCalls E Q (ExceptT.lift p : ExceptT ε (Program C R) α) := by
  apply Calls.bind h
  intro a ha
  exact Calls.pure fun _ hr => Except.ok.inj hr ▸ ha

lemma mk {p : Program C R (Except ε α)} (h : Calls E (fun r => ∀ a, r = .ok a → Q a) p) :
    OkCalls E Q (ExceptT.mk p) := h

lemma ite {c : Prop} [Decidable c] {p q : ExceptT ε (Program C R) α} (hp : OkCalls E Q p)
    (hq : OkCalls E Q q) : OkCalls E Q (if c then p else q) := by
  split
  · exact hp
  · exact hq

end OkCalls

end Program

end Eugraph.Lib

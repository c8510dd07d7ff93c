import Mathlib.Data.Set.Basic
import Mathlib.Order.Basic
import Mathlib.Order.Lattice
import Mathlib.Tactic.Common

/-!
# Three-way comparisons that may fail

A comparison answers with a number below, at or above zero, or not at all.  It sorts a set
when it answers on every pair of it and orders the set up to ties.  The rules give this for
a comparison by a key, by classes that are ordered among themselves, within kinds that tie
with one another, and for lists compared element by element.
-/

namespace Eugraph.Lib.ThreeWay

open Option

variable {α : Type*} {cmp : α → α → Option Int} {S T : Set α} {a b c : α}

/-- The comparison is a total preorder on the set, and never fails there. -/
structure OrdersOn (cmp : α → α → Option Int) (S : Set α) : Prop where
  defined : ∀ a ∈ S, ∀ b ∈ S, ∃ m, cmp a b = some m
  refl : ∀ a ∈ S, cmp a a = some 0
  antisymm : ∀ a ∈ S, ∀ b ∈ S, ∀ m n, cmp a b = some m → cmp b a = some n → n.sign = -m.sign
  trans : ∀ a ∈ S, ∀ b ∈ S, ∀ c ∈ S, ∀ m n k, cmp a b = some m → cmp b c = some n →
    cmp a c = some k → m ≤ 0 → n ≤ 0 → k ≤ 0

lemma OrdersOn.mono (h : OrdersOn cmp S) (hsub : T ⊆ S) : OrdersOn cmp T where
  defined a ha b hb := h.defined a (hsub ha) b (hsub hb)
  refl a ha := h.refl a (hsub ha)
  antisymm a ha b hb := h.antisymm a (hsub ha) b (hsub hb)
  trans a ha b hb c hc := h.trans a (hsub ha) b (hsub hb) c (hsub hc)

variable {m : Int}

lemma OrdersOn.swap (h : OrdersOn cmp S) (ha : a ∈ S) (hb : b ∈ S)
    (hm : cmp a b = some m) : ∃ n, cmp b a = some n ∧ (n < 0 ↔ 0 < m) ∧ (0 < n ↔ m < 0) := by
  obtain ⟨n, hn⟩ := h.defined b hb a ha
  have hsign := h.antisymm a ha b hb m n hm hn
  refine ⟨n, hn, ?_, ?_⟩
  · rw [← Int.sign_eq_neg_one_iff_neg, ← Int.sign_eq_one_iff_pos]
    omega
  · rw [← Int.sign_eq_neg_one_iff_neg, ← Int.sign_eq_one_iff_pos]
    omega

lemma OrdersOn.tie_symm (h : OrdersOn cmp S) (ha : a ∈ S) (hb : b ∈ S)
    (hab : cmp a b = some 0) : cmp b a = some 0 := by
  obtain ⟨n, hn, hn₁, hn₂⟩ := h.swap ha hb hab
  have hzero : n = 0 := by omega
  rw [hn, hzero]

/-- Ties are transitive. -/
theorem OrdersOn.tie_trans (h : OrdersOn cmp S) (ha : a ∈ S) (hb : b ∈ S) (hc : c ∈ S)
    (hab : cmp a b = some 0) (hbc : cmp b c = some 0) : cmp a c = some 0 := by
  obtain ⟨k, hk⟩ := h.defined a ha c hc
  obtain ⟨m, hm, hm₁, hm₂⟩ := h.swap ha hb hab
  obtain ⟨n, hn, hn₁, hn₂⟩ := h.swap hb hc hbc
  obtain ⟨l, hl, hl₁, hl₂⟩ := h.swap ha hc hk
  have hle := h.trans a ha b hb c hc 0 0 k hab hbc hk le_rfl le_rfl
  have hge := h.trans c hc b hb a ha n m l hn hm hl (by omega) (by omega)
  have hzero : k = 0 := by omega
  rw [hk, hzero]

variable {k : Int}

/-- A strict step between two others makes the whole strict. -/
theorem OrdersOn.lt_of_le_of_le (h : OrdersOn cmp S) (ha : a ∈ S) (hb : b ∈ S) (hc : c ∈ S)
    {n : Int} (hab : cmp a b = some m) (hbc : cmp b c = some n) (hac : cmp a c = some k)
    (hm : m ≤ 0) (hn : n ≤ 0) (hstrict : m < 0 ∨ n < 0) : k < 0 := by
  have hk := h.trans a ha b hb c hc m n k hab hbc hac hm hn
  by_contra hnot
  obtain ⟨l, hl, hl₁, hl₂⟩ := h.swap ha hc hac
  obtain ⟨m', hm', hm₁, hm₂⟩ := h.swap ha hb hab
  obtain ⟨n', hn', hn₁, hn₂⟩ := h.swap hb hc hbc
  -- `c` does not come after `a`, so the two steps close a circle
  have hba := h.trans b hb c hc a ha n l m' hbc hl hm' hn (by omega)
  have hcb := h.trans c hc a ha b hb l m n' hl hab hn' (by omega) hm
  omega

/-- An element between two others is on the far side of one of them. -/
theorem OrdersOn.between (h : OrdersOn cmp S) (ha : a ∈ S) (hb : b ∈ S) (hc : c ∈ S) {n : Int}
    (hab : cmp a b = some m) (hbc : cmp b c = some n) (hac : cmp a c = some k) :
    (k < 0 → m < 0 ∨ n < 0) ∧ (0 < k → 0 < m ∨ 0 < n) ∧ (k = 0 → (m < 0 ↔ 0 < n) ∧ (0 < m ↔ n < 0)) := by
  obtain ⟨m', hm', hm₁, hm₂⟩ := h.swap ha hb hab
  obtain ⟨n', hn', hn₁, hn₂⟩ := h.swap hb hc hbc
  obtain ⟨l, hl, hl₁, hl₂⟩ := h.swap ha hc hac
  have hup := h.trans a ha b hb c hc m n k hab hbc hac
  have hdown := h.trans c hc b hb a ha n' m' l hn' hm' hl
  have hup' := h.trans b hb c hc a ha n l m' hbc hl hm'
  have hdown' := h.trans b hb a ha c hc m' k n hm' hac hbc
  have hback := h.trans a ha c hc b hb k n' m hac hn' hab
  have hback' := h.trans c hc a ha b hb l m n' hl hab hn'
  omega

/-! ### By a key -/

/-- The comparison of a linear order. -/
def byKey {β : Type*} [LinearOrder β] (x y : β) : Int := if x = y then 0 else if x < y then -1 else 1

section ByKey

variable {β : Type*} [LinearOrder β] {x y : β}

lemma byKey_self (x : β) : byKey x x = 0 := if_pos rfl

lemma byKey_eq_zero_iff : byKey x y = 0 ↔ x = y := by
  unfold byKey
  split <;> rename_i h
  · exact iff_of_true rfl h
  · split <;> exact iff_of_false (by decide) h

lemma byKey_nonpos_iff : byKey x y ≤ 0 ↔ x ≤ y := by
  unfold byKey
  split <;> rename_i h
  · exact iff_of_true le_rfl h.le
  · split <;> rename_i hlt
    · exact iff_of_true (by decide) hlt.le
    · exact iff_of_false (by decide) fun hle => hlt (lt_of_le_of_ne hle h)

lemma byKey_swap (x y : β) : byKey y x = -byKey x y := by
  unfold byKey
  rcases lt_trichotomy x y with h | h | h
  · rw [if_neg h.ne', if_neg h.not_gt, if_neg h.ne, if_pos h]
    rfl
  · rw [if_pos h.symm, if_pos h]
    rfl
  · rw [if_neg h.ne, if_pos h, if_neg h.ne', if_neg h.not_gt]

lemma OrdersOn.ofKey (key : α → β)
    (h : ∀ a ∈ S, ∀ b ∈ S, cmp a b = some (byKey (key a) (key b))) : OrdersOn cmp S where
  defined a ha b hb := ⟨_, h a ha b hb⟩
  refl a ha := by rw [h a ha a ha, byKey_self]
  antisymm a ha b hb m n hm hn := by
    rw [h a ha b hb, some_inj] at hm
    rw [h b hb a ha, some_inj] at hn
    rw [← hn, ← hm, byKey_swap, Int.sign_neg]
  trans a ha b hb c hc m n k hm hn hk hm₀ hn₀ := by
    rw [h a ha b hb, some_inj] at hm
    rw [h b hb c hc, some_inj] at hn
    rw [h a ha c hc, some_inj] at hk
    rw [← hm, byKey_nonpos_iff] at hm₀
    rw [← hn, byKey_nonpos_iff] at hn₀
    rw [← hk, byKey_nonpos_iff]
    exact hm₀.trans hn₀

/-- A set on which everything ties. -/
theorem OrdersOn.ofTies (h : ∀ a ∈ S, ∀ b ∈ S, cmp a b = some 0) : OrdersOn cmp S :=
  .ofKey (fun _ => ()) fun a ha b hb => by rw [h a ha b hb, byKey_self]

/-! ### By classes -/

/-- Classes come one after the other, and each is ordered within itself. -/
theorem OrdersOn.ofClasses (cls : α → β)
    (hcross : ∀ a ∈ S, ∀ b ∈ S, cls a ≠ cls b → cmp a b = some (byKey (cls a) (cls b)))
    (hwithin : ∀ x, OrdersOn cmp {a ∈ S | cls a = x}) : OrdersOn cmp S where
  defined a ha b hb := by
    by_cases hcls : cls a = cls b
    · exact (hwithin (cls b)).defined a ⟨ha, hcls⟩ b ⟨hb, rfl⟩
    · exact ⟨_, hcross a ha b hb hcls⟩
  refl a ha := (hwithin (cls a)).refl a ⟨ha, rfl⟩
  antisymm a ha b hb m n hm hn := by
    by_cases hcls : cls a = cls b
    · exact (hwithin (cls b)).antisymm a ⟨ha, hcls⟩ b ⟨hb, rfl⟩ m n hm hn
    · rw [hcross a ha b hb hcls, some_inj] at hm
      rw [hcross b hb a ha (Ne.symm hcls), some_inj] at hn
      rw [← hn, ← hm, byKey_swap, Int.sign_neg]
  trans a ha b hb c hc m n k hm hn hk hm₀ hn₀ := by
    -- the classes go up along the chain
    have hle : ∀ a ∈ S, ∀ b ∈ S, ∀ m, cmp a b = some m → m ≤ 0 → cls a ≤ cls b := by
      intro a ha b hb m hm hm₀
      by_cases hcls : cls a = cls b
      · exact hcls.le
      · rw [hcross a ha b hb hcls, some_inj] at hm
        rwa [← hm, byKey_nonpos_iff] at hm₀
    have hab := hle a ha b hb m hm hm₀
    have hbc := hle b hb c hc n hn hn₀
    by_cases hcls : cls a = cls c
    · have hb' : cls b = cls c := le_antisymm hbc (hcls ▸ hab)
      exact (hwithin (cls c)).trans a ⟨ha, hcls⟩ b ⟨hb, hb'⟩ c ⟨hc, rfl⟩ m n k hm hn hk hm₀ hn₀
    · rw [hcross a ha c hc hcls, some_inj] at hk
      rw [← hk, byKey_nonpos_iff]
      exact hab.trans hbc

/-! ### Within kinds -/

/-- Elements of two kinds tie, those of one kind go by a key.  This is an order when no kind
has two keys beside another kind. -/
theorem ordersOn_kinds_iff {κ : Type*} [DecidableEq κ] (kind : α → κ) (key : α → β) (h : ∀ a ∈ S, ∀ b ∈ S,
      cmp a b = some (if kind a = kind b then byKey (key a) (key b) else 0)) :
    OrdersOn cmp S ↔ ∀ a ∈ S, ∀ b ∈ S, ∀ c ∈ S, kind a = kind b → kind c ≠ kind a → key a = key b := by
  constructor
  · intro hord a ha b hb c hc hkind hother
    have hac : cmp a c = some 0 := by rw [h a ha c hc, if_neg (Ne.symm hother)]
    have hcb : cmp c b = some 0 := by rw [h c hc b hb, if_neg (hkind ▸ hother)]
    have hab := hord.tie_trans ha hc hb hac hcb
    rw [h a ha b hb, if_pos hkind, some_inj] at hab
    exact byKey_eq_zero_iff.mp hab
  · intro hkeys
    by_cases hone : ∀ a ∈ S, ∀ b ∈ S, kind a = kind b
    · refine .ofKey key fun a ha b hb => ?_
      rw [h a ha b hb, if_pos (hone a ha b hb)]
    · -- with two kinds around, every kind has one key
      push Not at hone
      obtain ⟨x, hx, y, hy, hxy⟩ := hone
      refine .ofTies fun a ha b hb => ?_
      rw [h a ha b hb]
      split <;> rename_i hkind
      · have hother : ∃ z ∈ S, kind z ≠ kind a := by
          by_cases hxa : kind x = kind a
          · exact ⟨y, hy, fun hya => hxy (hxa.trans hya.symm)⟩
          · exact ⟨x, hx, hxa⟩
        obtain ⟨z, hz, hza⟩ := hother
        rw [hkeys a ha b hb z hz hkind hza, byKey_self]
      · rfl

end ByKey

/-! ### Lists -/

/-- Element by element; a proper prefix comes first. -/
def lexCompare (cmp : α → α → Option Int) : List α → List α → Option Int
  | a :: as, b :: bs =>
    match cmp a b with
    | some 0 => lexCompare cmp as bs
    | difference => difference
  | [], [] => some 0
  | [], _ :: _ => some (-1)
  | _ :: _, [] => some 1

variable {as bs : List α}

lemma lexCompare_cons_of_tie (h : cmp a b = some 0) :
    lexCompare cmp (a :: as) (b :: bs) = lexCompare cmp as bs := by
  simp only [lexCompare, h]

lemma lexCompare_cons_of_ne (h : cmp a b ≠ some 0) : lexCompare cmp (a :: as) (b :: bs) = cmp a b := by
  rw [lexCompare]
  split
  · contradiction
  · rfl

/-- The elements of the list are in the set. -/
def ListsOver (S : Set α) : Set (List α) := {as | ∀ a ∈ as, a ∈ S}

lemma mem_listsOver_cons : a :: as ∈ ListsOver S ↔ a ∈ S ∧ as ∈ ListsOver S := List.forall_mem_cons

lemma OrdersOn.lex_defined (h : OrdersOn cmp S) (has : as ∈ ListsOver S)
    (hbs : bs ∈ ListsOver S) : ∃ m, lexCompare cmp as bs = some m := by
  induction as generalizing bs with
  | nil => cases bs <;> exact ⟨_, rfl⟩
  | cons a as ih =>
    cases bs with
    | nil => exact ⟨_, rfl⟩
    | cons b bs =>
      rw [mem_listsOver_cons] at has hbs
      by_cases htie : cmp a b = some 0
      · rw [lexCompare_cons_of_tie htie]
        exact ih has.2 hbs.2
      · rw [lexCompare_cons_of_ne htie]
        exact h.defined a has.1 b hbs.1

lemma OrdersOn.lex_refl (h : OrdersOn cmp S) (has : as ∈ ListsOver S) : lexCompare cmp as as = some 0 := by
  induction as with
  | nil => rfl
  | cons a as ih =>
    rw [mem_listsOver_cons] at has
    rw [lexCompare_cons_of_tie (h.refl a has.1)]
    exact ih has.2

lemma OrdersOn.lex_antisymm (h : OrdersOn cmp S) (has : as ∈ ListsOver S)
    (hbs : bs ∈ ListsOver S) {n : Int} (hm : lexCompare cmp as bs = some m)
    (hn : lexCompare cmp bs as = some n) : n.sign = -m.sign := by
  induction as generalizing bs with
  | nil =>
    cases bs with
    | nil =>
      cases hm
      cases hn
      rfl
    | cons b bs =>
      cases hm
      cases hn
      rfl
  | cons a as ih =>
    cases bs with
    | nil =>
      cases hm
      cases hn
      rfl
    | cons b bs =>
      rw [mem_listsOver_cons] at has hbs
      by_cases htie : cmp a b = some 0
      · rw [lexCompare_cons_of_tie htie] at hm
        rw [lexCompare_cons_of_tie (h.tie_symm has.1 hbs.1 htie)] at hn
        exact ih has.2 hbs.2 hm hn
      · have hback : cmp b a ≠ some 0 := fun hba => htie (h.tie_symm hbs.1 has.1 hba)
        rw [lexCompare_cons_of_ne htie] at hm
        rw [lexCompare_cons_of_ne hback] at hn
        exact h.antisymm a has.1 b hbs.1 m n hm hn

lemma OrdersOn.lex_trans (h : OrdersOn cmp S) {cs : List α} (has : as ∈ ListsOver S)
    (hbs : bs ∈ ListsOver S) (hcs : cs ∈ ListsOver S) {n : Int}
    (hm : lexCompare cmp as bs = some m) (hn : lexCompare cmp bs cs = some n)
    (hk : lexCompare cmp as cs = some k) (hm₀ : m ≤ 0) (hn₀ : n ≤ 0) : k ≤ 0 := by
  induction as generalizing bs cs with
  | nil =>
    cases cs with
    | nil =>
      cases hk
      exact le_rfl
    | cons c cs =>
      cases hk
      decide
  | cons a as ih =>
    cases bs with
    | nil =>
      cases hm
      omega
    | cons b bs =>
      cases cs with
      | nil =>
        cases hn
        omega
      | cons c cs =>
        rw [mem_listsOver_cons] at has hbs hcs
        obtain ⟨x, hx⟩ := h.defined a has.1 b hbs.1
        obtain ⟨y, hy⟩ := h.defined b hbs.1 c hcs.1
        obtain ⟨z, hz⟩ := h.defined a has.1 c hcs.1
        by_cases hx₀ : x = 0
        · subst hx₀
          rw [lexCompare_cons_of_tie hx] at hm
          by_cases hy₀ : y = 0
          · subst hy₀
            rw [lexCompare_cons_of_tie hy] at hn
            rw [lexCompare_cons_of_tie (h.tie_trans has.1 hbs.1 hcs.1 hx hy)] at hk
            exact ih has.2 hbs.2 hcs.2 hm hn hk
          · rw [lexCompare_cons_of_ne (by simpa only [hy, ne_eq, some_inj]), hy,
              some_inj] at hn
            have hlt := h.lt_of_le_of_le has.1 hbs.1 hcs.1 hx hy hz le_rfl (by omega)
              (Or.inr (by omega))
            rw [lexCompare_cons_of_ne (by rw [hz]; simp only [ne_eq, some_inj]; omega), hz,
              some_inj] at hk
            omega
        · rw [lexCompare_cons_of_ne (by simpa only [hx, ne_eq, some_inj]), hx,
            some_inj] at hm
          -- the first elements differ, and the second step does not go down
          have hy₀ : y ≤ 0 := by
            by_cases hy₀ : y = 0
            · exact hy₀.le
            · rw [lexCompare_cons_of_ne (by simpa only [hy, ne_eq, some_inj]), hy,
                some_inj] at hn
              omega
          have hlt := h.lt_of_le_of_le has.1 hbs.1 hcs.1 hx hy hz (by omega) hy₀
            (Or.inl (by omega))
          rw [lexCompare_cons_of_ne (by rw [hz]; simp only [ne_eq, some_inj]; omega), hz,
            some_inj] at hk
          omega

lemma OrdersOn.lex (h : OrdersOn cmp S) : OrdersOn (lexCompare cmp) (ListsOver S) where
  defined _ has _ hbs := h.lex_defined has hbs
  refl _ has := h.lex_refl has
  antisymm _ has _ hbs _ _ hm hn := h.lex_antisymm has hbs hm hn
  trans _ has _ hbs _ hcs _ _ _ hm hn hk hm₀ hn₀ := h.lex_trans has hbs hcs hm hn hk hm₀ hn₀

/-- A comparison that reads its arguments through a function. -/
theorem OrdersOn.comap {γ : Type*} {f : γ → α} {cmp' : γ → γ → Option Int} {U : Set γ}
    (h : OrdersOn cmp S) (hmem : ∀ x ∈ U, f x ∈ S)
    (heq : ∀ x ∈ U, ∀ y ∈ U, cmp' x y = cmp (f x) (f y)) : OrdersOn cmp' U where
  defined x hx y hy := by
    rw [heq x hx y hy]
    exact h.defined _ (hmem x hx) _ (hmem y hy)
  refl x hx := by
    rw [heq x hx x hx]
    exact h.refl _ (hmem x hx)
  antisymm x hx y hy m n hm hn := by
    rw [heq x hx y hy] at hm
    rw [heq y hy x hx] at hn
    exact h.antisymm _ (hmem x hx) _ (hmem y hy) m n hm hn
  trans x hx y hy z hz m n k hm hn hk hm₀ hn₀ := by
    rw [heq x hx y hy] at hm
    rw [heq y hy z hz] at hn
    rw [heq x hx z hz] at hk
    exact h.trans _ (hmem x hx) _ (hmem y hy) _ (hmem z hz) m n k hm hn hk hm₀ hn₀

end Eugraph.Lib.ThreeWay

import Eugraph.Lib.Handler

/-!
# Transcripts of a handler

`Yields` is `Ensures` for a postcondition that also sees the calls the handler made and
the answers it got, in order.  The rules follow the shape of the handler as those of
`Ensures` do; sequencing appends the transcripts.
-/

namespace Eugraph.Lib

open List Program

namespace Program

variable {C : Type} {R : C → Type} {α β : Type} {ok : (c : C) → R c → Prop}

/-- Whatever the calls answer within `ok`, result and transcript satisfy `Q`. -/
def Yields (ok : (c : C) → R c → Prop) :
    Program C R α → (α → List (Event C R) → Prop) → Prop
  | done a, Q => Q a []
  | call c next, Q => ∀ r, ok c r → Yields ok (next r) fun a es => Q a (⟨c, r⟩ :: es)

variable {p : Program C R α} {Q : α → List (Event C R) → Prop}

lemma Yields.mono {Q' : α → List (Event C R) → Prop}
    (h : Yields ok p Q) (hQ : ∀ a es, Q a es → Q' a es) : Yields ok p Q' := by
  induction p generalizing Q Q' with
  | done a => exact hQ a [] h
  | call c next ih => exact fun r hr => ih r (h r hr) fun a es => hQ a _

lemma yields_congr {Q' : α → List (Event C R) → Prop} (h : ∀ a es, Q a es ↔ Q' a es) :
    Yields ok p Q ↔ Yields ok p Q' :=
  ⟨fun hp => hp.mono fun a es => (h a es).mp, fun hp => hp.mono fun a es => (h a es).mpr⟩

lemma Yields.and {Q' : α → List (Event C R) → Prop} (h : Yields ok p Q) (h' : Yields ok p Q') :
    Yields ok p fun a es => Q a es ∧ Q' a es := by
  induction p generalizing Q Q' with
  | done a => exact ⟨h, h'⟩
  | call c next ih => exact fun r hr => ih r (h r hr) (h' r hr)

/-- Where the transcript does not matter. -/
theorem Always.yields {Q : α → Prop} (h : Always ok Q p) : Yields ok p fun a _ => Q a := by
  induction p with
  | done a => exact h
  | call c next ih => exact fun r hr => ih r (h r hr)

@[simp] lemma yields_bind (p : Program C R α) (f : α → Program C R β) {Q : β → List (Event C R) → Prop} :
    Yields ok (p >>= f) Q ↔ Yields ok p fun a es => Yields ok (f a) fun b es' => Q b (es ++ es') := by
  change Yields ok (p.bind f) Q ↔ _
  induction p generalizing Q with
  | done a => exact Iff.rfl
  | call c next ih => exact forall_congr' fun r => imp_congr_right fun _ => ih r

/-- A run appends its transcript to the record. -/
theorem Yields.run_record
    (h : Yields ok p Q) (oracle : Oracle C R) (events : List (Event C R))
    (hok : ∀ e ∈ (run (record oracle) p events).2, ok e.1 e.2) :
    ∃ es, (run (record oracle) p events).2 = events ++ es ∧ Q (run (record oracle) p events).1 es := by
  induction p generalizing events Q with
  | done a => exact ⟨[], (append_nil events).symm, h⟩
  | call c next ih =>
    -- the event of this call stands in every longer record, so `hok` covers its answer
    have hnew : (⟨c, oracle events.length c⟩ : Event C R) ∈ (record oracle c events).2 :=
      mem_append_right _ (mem_singleton_self _)
    have hmem : (⟨c, oracle events.length c⟩ : Event C R) ∈
        (run (record oracle) (call c next) events).2 := mem_run_record oracle (next _) hnew
    obtain ⟨es, hes, hQ⟩ := ih _ (h _ (hok _ hmem)) (record oracle c events).2 hok
    have hcons : (record oracle c events).2 ++ es = events ++ ⟨c, oracle events.length c⟩ :: es := by
      rw [record, append_assoc]
      rfl
    exact ⟨⟨c, oracle events.length c⟩ :: es, hes.trans hcons, hQ⟩

/-- The result and the events of a run with allowed answers. -/
theorem Yields.exchange (h : Yields ok p Q) {oracle : Oracle C R}
    (hok : ∀ e ∈ (Program.exchange oracle p).2, ok e.1 e.2) :
    Q (Program.exchange oracle p).1 (Program.exchange oracle p).2 := by
  obtain ⟨es, hes, hQ⟩ := h.run_record oracle [] hok
  rw [nil_append] at hes
  rw [Program.exchange, hes]
  exact hQ

end Program

namespace Handler

variable {C : Type} {R : C → Type} {ε σ α β : Type}

/-- From state `s`, whatever is answered within `ok`, the handler ends in `Q`, which sees
its result, its state and its transcript. -/
def Yields (ok : (c : C) → R c → Prop) (m : Handler C R ε σ α) (s : σ)
    (Q : Except ε α → σ → List (Event C R) → Prop) : Prop :=
  Program.Yields ok (m.run.run s) fun r es => Q r.1 r.2 es

variable {ok : (c : C) → R c → Prop} {s : σ}
  {Q Q' : Except ε α → σ → List (Event C R) → Prop}

@[simp] lemma yields_pure (a : α) : Yields ok (pure a : Handler C R ε σ α) s Q ↔ Q (.ok a) s [] := Iff.rfl

@[simp] lemma yields_get {Q : Except ε σ → σ → List (Event C R) → Prop} :
    Yields ok (get : Handler C R ε σ σ) s Q ↔ Q (.ok s) s [] := Iff.rfl

@[simp] lemma yields_modify (f : σ → σ) {Q : Except ε PUnit → σ → List (Event C R) → Prop} :
    Yields ok (modify f : Handler C R ε σ PUnit) s Q ↔ Q (.ok ⟨⟩) (f s) [] := Iff.rfl

@[simp] lemma yields_fromExcept (r : Except ε α) : Yields ok (fromExcept r : Handler C R ε σ α) s Q ↔ Q r s [] := by
  cases r <;> exact Iff.rfl

variable {m : Handler C R ε σ α}

lemma Yields.mono (h : Yields ok m s Q) (hQ : ∀ r s' es, Q r s' es → Q' r s' es) : Yields ok m s Q' :=
  Program.Yields.mono h fun r es => hQ r.1 r.2 es

/-- Where the transcript does not matter. -/
theorem Ensures.yields {Q : Except ε α → σ → Prop} (h : Ensures ok m s Q) : Yields ok m s fun r s' _ => Q r s' :=
  Program.Always.yields h

/-- Sequencing: a throw skips the rest. -/
@[simp] theorem yields_bind (m : Handler C R ε σ α) (f : α → Handler C R ε σ β)
    {Q : Except ε β → σ → List (Event C R) → Prop} :
    Yields ok (m >>= f) s Q ↔ Yields ok m s fun r s' es =>
      match r with
      | .ok a => Yields ok (f a) s' fun r' s'' es' => Q r' s'' (es ++ es')
      | .error e => Q (.error e) s' es := by
  rw [Yields, run_bind, Program.yields_bind]
  apply Program.yields_congr
  rintro ⟨a | a, s'⟩ es
  · -- a throw ends the transcript
    show Q (.error a) s' (es ++ []) ↔ _
    rw [append_nil]
  · exact Iff.rfl

/-- A caught exception runs its handler on the state the throw left. -/
@[simp] theorem yields_tryCatch (m : Handler C R ε σ α) (f : ε → Handler C R ε σ α) :
    Yields ok (tryCatch m f) s Q ↔ Yields ok m s fun r s' es =>
      match r with
      | .ok a => Q (.ok a) s' es
      | .error e => Yields ok (f e) s' fun r' s'' es' => Q r' s'' (es ++ es') := by
  rw [Yields, run_tryCatch, Program.yields_bind]
  apply Program.yields_congr
  rintro ⟨a | a, s'⟩ es
  · exact Iff.rfl
  · show Q (.ok a) s' (es ++ []) ↔ _
    rw [append_nil]

@[simp] lemma yields_ite (c : Prop) [Decidable c] (m m' : Handler C R ε σ α) :
    Yields ok (if c then m else m') s Q ↔
      (c → Yields ok m s Q) ∧ (¬ c → Yields ok m' s Q) := by
  split <;> simp_all

/-! ### Relations over a transcript -/

/-- A relation of a state, a transcript and the state after it that holds where nothing
happens and carries over sequencing. -/
structure Composes (K : σ → List (Event C R) → σ → Prop) : Prop where
  refl (s : σ) : K s [] s
  append {s s' s'' : σ} {es es' : List (Event C R)} :
    K s es s' → K s' es' s'' → K s (es ++ es') s''

/-- `K` relates `s` to the transcript and the state that the handler leads to, and what it
returns satisfies `P`. -/
def Relates (ok : (c : C) → R c → Prop) (K : σ → List (Event C R) → σ → Prop) (P : α → Prop)
    (m : Handler C R ε σ α) (s : σ) : Prop :=
  Yields ok m s fun r s' es => K s es s' ∧ ∀ a, r = .ok a → P a

variable {K : σ → List (Event C R) → σ → Prop}

theorem Composes.bind (hK : Composes K) {T : α → Prop} {P : β → Prop} {f : α → Handler C R ε σ β}
    (h : Relates ok K T m s) (hf : ∀ a s', T a → Relates ok K P (f a) s') : Relates ok K P (m >>= f) s := by
  rw [Relates, yields_bind]
  apply Yields.mono h
  rintro (e | a) s' es ⟨hs, ha⟩
  · exact ⟨hs, nofun⟩
  · exact (hf a s' (ha a rfl)).mono fun _ _ _ hs' => ⟨hK.append hs hs'.1, hs'.2⟩

theorem Composes.tryCatch (hK : Composes K) {P : α → Prop} {f : ε → Handler C R ε σ α}
    (h : Relates ok K P m s) (hf : ∀ e s', Relates ok K P (f e) s') : Relates ok K P (tryCatch m f) s := by
  rw [Relates, yields_tryCatch]
  apply Yields.mono h
  rintro (e | a) s' es ⟨hs, ha⟩
  · exact (hf e s').mono fun _ _ _ hs' => ⟨hK.append hs hs'.1, hs'.2⟩
  · exact ⟨hs, ha⟩

/-- What the handler ensures, it returns beside the relation. -/
theorem Relates.ensuring {P : α → Prop} (h : Relates ok K (fun _ => True) m s)
    (hP : Ensures ok m s fun r _ => ∀ a, r = .ok a → P a) : Relates ok K P m s :=
  Program.Yields.mono (Program.Yields.and h (Program.Always.yields hP)) fun _ _ hs => ⟨hs.1.1, hs.2⟩

end Handler

end Eugraph.Lib

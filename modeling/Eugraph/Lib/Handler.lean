import Eugraph.Lib.Program

/-!
# Handlers that keep a state, throw and call a service

A handler runs on a state of its own, may throw, and makes calls to a service whose
answers it does not control.  The state survives a throw, as the fields of an object
survive an exception in one of its methods.

`Program.Always ok Q p` says that `p` ends in `Q` whatever the service answers, as long
as every answer is one of those `ok` allows.  `Ensures` is the same for a handler; its
rules follow the shape of the handler, so a proof reads the handler from top to bottom.
`Program.exchange` runs a program against a fixed service and records what was asked
and answered.
-/

namespace Eugraph.Lib

open List

namespace Program

variable {C : Type} {R : C → Type} {α β : Type}

/-- Whatever the calls answer within `ok`, the result satisfies `Q`. -/
def Always (ok : (c : C) → R c → Prop) (Q : α → Prop) : Program C R α → Prop
  | done a => Q a
  | call c next => ∀ r, ok c r → Always ok Q (next r)

variable {ok : (c : C) → R c → Prop} {Q Q' : α → Prop}

@[simp] lemma always_bind (p : Program C R α) (f : α → Program C R β) {Q : β → Prop} :
    Always ok Q (p >>= f) ↔ Always ok (fun a => Always ok Q (f a)) p := by
  change Always ok Q (p.bind f) ↔ _
  induction p with
  | done a => exact Iff.rfl
  | call c next ih => exact forall_congr' fun r => imp_congr_right fun _ => ih r

variable {p : Program C R α}

lemma Always.mono (h : Always ok Q p) (hQ : ∀ a, Q a → Q' a) : Always ok Q' p := by
  induction p with
  | done a => exact hQ a h
  | call c next ih => exact fun r hr => ih r (h r hr)

lemma always_congr (h : ∀ a, Q a ↔ Q' a) : Always ok Q p ↔ Always ok Q' p :=
  ⟨fun hp => hp.mono fun a => (h a).mp, fun hp => hp.mono fun a => (h a).mpr⟩

lemma Always.of_forall (h : ∀ a, Q a) (p : Program C R α) : Always ok Q p := by
  induction p with
  | done a => exact h a
  | call c next ih => exact fun r _ => ih r

lemma Always.restrict {ok' : (c : C) → R c → Prop} (h : Always ok Q p)
    (hok : ∀ c r, ok' c r → ok c r) : Always ok' Q p := by
  induction p with
  | done a => exact h
  | call c next ih => exact fun r hr => ih r (h r (hok c r hr))

/-- Whatever the calls answer, every call that is made satisfies `E`. -/
def Makes (E : C → Prop) : Program C R α → Prop
  | done _ => True
  | call c next => E c ∧ ∀ r, Makes E (next r)

@[simp] lemma makes_bind {E : C → Prop} (p : Program C R α) (f : α → Program C R β) :
    Makes E (p >>= f) ↔ Makes E p ∧ Always (fun _ _ => True) (fun a => Makes E (f a)) p := by
  change Makes E (p.bind f) ↔ _
  induction p with
  | done a => exact ⟨fun h => ⟨trivial, h⟩, fun h => h.2⟩
  | call c next ih =>
    constructor
    · intro h
      exact ⟨⟨h.1, fun r => ((ih r).mp (h.2 r)).1⟩, fun r _ => ((ih r).mp (h.2 r)).2⟩
    · intro h
      exact ⟨h.1.1, fun r => (ih r).mpr ⟨h.1.2 r, h.2 r trivial⟩⟩

/-! ### Runs against a fixed service -/

/-- A call and its answer. -/
abbrev Event (C : Type) (R : C → Type) := (c : C) × R c

/-- A service that may answer the same call differently at each position of a run. -/
abbrev Oracle (C : Type) (R : C → Type) := Nat → (c : C) → R c

/-- Answer by the oracle and write the event down. -/
def record (oracle : Oracle C R) (c : C) (events : List (Event C R)) :
    R c × List (Event C R) :=
  (oracle events.length c, events ++ [⟨c, oracle events.length c⟩])

/-- The result of a program against a service, with the events of the run. -/
def exchange (oracle : Oracle C R) (p : Program C R α) : α × List (Event C R) :=
  run (record oracle) p []

@[simp] lemma exchange_pure (oracle : Oracle C R) (a : α) :
    exchange oracle (pure a : Program C R α) = (a, []) := rfl

variable {events : List (Event C R)}

lemma mem_run_record (oracle : Oracle C R) (p : Program C R α)
    {e : Event C R} (he : e ∈ events) : e ∈ (run (record oracle) p events).2 := by
  induction p generalizing events with
  | done a => exact he
  | call c next ih => exact ih _ (mem_append_left _ he)

lemma Always.run_record (h : Always ok Q p) (oracle : Oracle C R) (events : List (Event C R))
    (hok : ∀ e ∈ (run (record oracle) p events).2, ok e.1 e.2) :
    Q (run (record oracle) p events).1 := by
  induction p generalizing events with
  | done a => exact h
  | call c next ih =>
    -- The event of this call stands in every longer record, so `hok` covers its answer.
    have hnew : (⟨c, oracle events.length c⟩ : Event C R) ∈ (record oracle c events).2 :=
      mem_append_right _ (mem_singleton_self _)
    have hmem : (⟨c, oracle events.length c⟩ : Event C R) ∈
        (run (record oracle) (call c next) events).2 := mem_run_record oracle (next _) hnew
    exact ih _ (h _ (hok _ hmem)) _ hok

variable {oracle : Oracle C R}

/-- A result that every allowed answer leads to is the result of a run with such answers. -/
theorem Always.exchange (h : Always ok Q p)
    (hok : ∀ e ∈ (exchange oracle p).2, ok e.1 e.2) : Q (exchange oracle p).1 :=
  h.run_record oracle [] hok

lemma Makes.run_record {E : C → Prop} (h : Makes E p) (oracle : Oracle C R)
    (hevents : ∀ e ∈ events, E e.1) :
    ∀ e ∈ (run (record oracle) p events).2, E e.1 := by
  induction p generalizing events with
  | done a => exact hevents
  | call c next ih =>
    apply ih _ (h.2 _)
    intro e he
    rcases mem_append.mp he with he | he
    · exact hevents e he
    · obtain rfl := mem_singleton.mp he
      exact h.1

/-- The calls of a run are calls the program makes. -/
theorem Makes.exchange {E : C → Prop} (h : Makes E p) (oracle : Oracle C R) : ∀ e ∈ (exchange oracle p).2, E e.1 :=
  h.run_record oracle fun _ he => nomatch he

lemma run_record_answered (hok : ∀ n c, ok c (oracle n c))
    (p : Program C R α) (hevents : ∀ e ∈ events, ok e.1 e.2) :
    ∀ e ∈ (run (record oracle) p events).2, ok e.1 e.2 := by
  induction p generalizing events with
  | done a => exact hevents
  | call c next ih =>
    apply ih
    intro e he
    rcases mem_append.mp he with he | he
    · exact hevents e he
    · obtain rfl := mem_singleton.mp he
      exact hok _ c

/-- A service that keeps to `ok` answers every call of a run so. -/
theorem exchange_answered (hok : ∀ n c, ok c (oracle n c))
    (p : Program C R α) : ∀ e ∈ (exchange oracle p).2, ok e.1 e.2 :=
  run_record_answered hok p fun _ he => nomatch he

end Program

/-- Handlers on a state `σ` that throw `ε` and make calls `C` with answers `R`. -/
abbrev Handler (C : Type) (R : C → Type) (ε σ : Type) := ExceptT ε (StateT σ (Program C R))

namespace Handler

variable {C : Type} {R : C → Type} {ε σ α β : Type}

/-- A call to the service. -/
def ask (c : C) : Handler C R ε σ (R c) :=
  ExceptT.lift (StateT.lift (Program.ask c))

/-- Return a result, or throw the exception that stands in its place. -/
def fromExcept (r : Except ε α) : Handler C R ε σ α :=
  match r with
  | .ok a => pure a
  | .error e => throw e

/-- From state `s`, whatever is answered within `ok`, the handler ends in `Q`. -/
def Ensures (ok : (c : C) → R c → Prop) (m : Handler C R ε σ α) (s : σ)
    (Q : Except ε α → σ → Prop) : Prop :=
  Program.Always ok (fun r => Q r.1 r.2) (m.run.run s)

variable {ok : (c : C) → R c → Prop} {s : σ} {Q Q' : Except ε α → σ → Prop}

@[simp] lemma ensures_pure (a : α) : Ensures ok (pure a : Handler C R ε σ α) s Q ↔ Q (.ok a) s := Iff.rfl

@[simp] lemma ensures_throw (e : ε) : Ensures ok (throw e : Handler C R ε σ α) s Q ↔ Q (.error e) s := Iff.rfl

@[simp] lemma ensures_get {Q : Except ε σ → σ → Prop} :
    Ensures ok (get : Handler C R ε σ σ) s Q ↔ Q (.ok s) s := Iff.rfl

@[simp] lemma ensures_modify (f : σ → σ) {Q : Except ε PUnit → σ → Prop} :
    Ensures ok (modify f : Handler C R ε σ PUnit) s Q ↔ Q (.ok ⟨⟩) (f s) := Iff.rfl

@[simp] lemma ensures_ask (c : C) {Q : Except ε (R c) → σ → Prop} :
    Ensures ok (ask c : Handler C R ε σ (R c)) s Q ↔ ∀ r, ok c r → Q (.ok r) s := Iff.rfl

@[simp] lemma ensures_fromExcept (r : Except ε α) : Ensures ok (fromExcept r : Handler C R ε σ α) s Q ↔ Q r s := by
  cases r <;> exact Iff.rfl

variable {m : Handler C R ε σ α}

lemma Ensures.mono (h : Ensures ok m s Q) (hQ : ∀ r s', Q r s' → Q' r s') : Ensures ok m s Q' :=
  Program.Always.mono h fun r => hQ r.1 r.2

/-- Fewer answers to expect. -/
theorem Ensures.restrict {ok' : (c : C) → R c → Prop}
    (h : Ensures ok m s Q) (hok : ∀ c r, ok' c r → ok c r) : Ensures ok' m s Q :=
  Program.Always.restrict h hok

lemma Ensures.of_forall (h : ∀ r s', Q r s') (m : Handler C R ε σ α) : Ensures ok m s Q := by
  apply Program.Always.of_forall
  intro r
  exact h r.1 r.2

lemma run_bind (m : Handler C R ε σ α) (f : α → Handler C R ε σ β) (s : σ) :
    (m >>= f).run.run s = m.run.run s >>= fun r =>
      match r.1 with
      | .ok a => (f a).run.run r.2
      | .error e => pure (.error e, r.2) := by
  change Program.bind _ _ = Program.bind _ _
  congr 1
  funext r
  obtain ⟨a | a, s'⟩ := r <;> rfl

lemma run_tryCatch (m : Handler C R ε σ α) (f : ε → Handler C R ε σ α) (s : σ) :
    (tryCatch m f).run.run s = m.run.run s >>= fun r =>
      match r.1 with
      | .ok a => pure (.ok a, r.2)
      | .error e => (f e).run.run r.2 := by
  change Program.bind _ _ = Program.bind _ _
  congr 1
  funext r
  obtain ⟨a | a, s'⟩ := r <;> rfl

/-- Sequencing: a throw skips the rest. -/
@[simp] theorem ensures_bind (m : Handler C R ε σ α) (f : α → Handler C R ε σ β) {Q : Except ε β → σ → Prop} :
    Ensures ok (m >>= f) s Q ↔ Ensures ok m s fun r s' =>
      match r with
      | .ok a => Ensures ok (f a) s' Q
      | .error e => Q (.error e) s' := by
  rw [Ensures, run_bind, Program.always_bind]
  apply Program.always_congr
  rintro ⟨a | a, s'⟩ <;> exact Iff.rfl

/-- A caught exception runs its handler on the state the throw left. -/
@[simp] theorem ensures_tryCatch (m : Handler C R ε σ α) (f : ε → Handler C R ε σ α) :
    Ensures ok (tryCatch m f) s Q ↔ Ensures ok m s fun r s' =>
      match r with
      | .ok a => Q (.ok a) s'
      | .error e => Ensures ok (f e) s' Q := by
  rw [Ensures, run_tryCatch, Program.always_bind]
  apply Program.always_congr
  rintro ⟨a | a, s'⟩ <;> exact Iff.rfl

@[simp] lemma ensures_ite (c : Prop) [Decidable c] (m m' : Handler C R ε σ α) :
    Ensures ok (if c then m else m') s Q ↔
      (c → Ensures ok m s Q) ∧ (¬ c → Ensures ok m' s Q) := by
  split <;> simp_all

/-! ### The calls a handler makes -/

/-- From state `s`, whatever is answered, every call satisfies `E`. -/
def Makes (E : C → Prop) (m : Handler C R ε σ α) (s : σ) : Prop := Program.Makes E (m.run.run s)

variable {E : C → Prop}

@[simp] lemma makes_pure (a : α) : Makes E (pure a : Handler C R ε σ α) s := trivial

@[simp] lemma makes_throw (e : ε) : Makes E (throw e : Handler C R ε σ α) s := trivial

@[simp] lemma makes_get : Makes E (get : Handler C R ε σ σ) s := trivial

@[simp] lemma makes_modify (f : σ → σ) : Makes E (modify f : Handler C R ε σ PUnit) s := trivial

@[simp] lemma makes_ask (c : C) : Makes E (ask c : Handler C R ε σ (R c)) s ↔ E c := by
  exact ⟨fun h => h.1, fun h => ⟨h, fun _ => trivial⟩⟩

@[simp] lemma makes_fromExcept (r : Except ε α) : Makes E (fromExcept r : Handler C R ε σ α) s := by
  cases r <;> trivial

@[simp] lemma makes_bind (m : Handler C R ε σ α) (f : α → Handler C R ε σ β) :
    Makes E (m >>= f) s ↔ Makes E m s ∧ Ensures (fun _ _ => True) m s fun r s' =>
      match r with
      | .ok a => Makes E (f a) s'
      | .error _ => True := by
  rw [Makes, run_bind, Program.makes_bind]
  apply and_congr_right
  intro _
  apply Program.always_congr
  rintro ⟨a | a, s'⟩ <;> exact Iff.rfl

@[simp] lemma makes_tryCatch (m : Handler C R ε σ α) (f : ε → Handler C R ε σ α) :
    Makes E (tryCatch m f) s ↔ Makes E m s ∧ Ensures (fun _ _ => True) m s fun r s' =>
      match r with
      | .ok _ => True
      | .error e => Makes E (f e) s' := by
  rw [Makes, run_tryCatch, Program.makes_bind]
  apply and_congr_right
  intro _
  apply Program.always_congr
  rintro ⟨a | a, s'⟩ <;> exact Iff.rfl

end Handler

end Eugraph.Lib

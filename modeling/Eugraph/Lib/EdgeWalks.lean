import Mathlib.Data.Set.Card
import Eugraph.Lib.Trails

/-!
# Directed walks as lists of edges

A walk of directed edges read backwards is a walk of the turned edges.  A walk that leaves
no vertex twice may still enter one twice, but only its last: it reaches its end, goes
around a cycle and ends there again.  Turned, it is a walk that starts with a cycle.  So
searches that leave no vertex twice find as many walks from either side just where as many
walks end with a cycle as start with one.
-/

namespace Eugraph.Lib.EdgeWalks

open List

variable {V E : Type*}

/-- The edges lead from one vertex to the other, each from where the one before ends. -/
inductive Leads (src dst : E → V) : V → List E → V → Prop
  | nil (v : V) : Leads src dst v [] v
  | cons {e : E} {es : List E} {d : V} : Leads src dst (dst e) es d → Leads src dst (src e) (e :: es) d

variable {src dst : E → V} {s m d : V} {es fs : List E}

lemma leads_cons_iff {e : E} : Leads src dst s (e :: es) d ↔ src e = s ∧ Leads src dst (dst e) es d := by
  constructor
  · intro h
    cases h with
    | cons htail => exact ⟨rfl, htail⟩
  · rintro ⟨rfl, htail⟩
    exact .cons htail

lemma leads_append_iff : Leads src dst s (es ++ fs) d ↔ ∃ m, Leads src dst s es m ∧ Leads src dst m fs d := by
  induction es generalizing s with
  | nil =>
    constructor
    · intro h
      exact ⟨s, .nil s, h⟩
    · rintro ⟨m, hnil, h⟩
      cases hnil
      exact h
  | cons e es ih =>
    rw [cons_append, leads_cons_iff, ih]
    constructor
    · rintro ⟨hsrc, m, hes, hfs⟩
      exact ⟨m, leads_cons_iff.mpr ⟨hsrc, hes⟩, hfs⟩
    · rintro ⟨m, hes, hfs⟩
      obtain ⟨hsrc, hes⟩ := leads_cons_iff.mp hes
      exact ⟨hsrc, m, hes, hfs⟩

lemma leads_singleton_iff {e : E} : Leads src dst s [e] d ↔ src e = s ∧ dst e = d := by
  rw [leads_cons_iff]
  constructor
  · rintro ⟨hsrc, hnil⟩
    refine ⟨hsrc, ?_⟩
    generalize dst e = v at hnil
    cases hnil
    rfl
  · rintro ⟨hsrc, rfl⟩
    exact ⟨hsrc, .nil _⟩

lemma Leads.reverse (h : Leads src dst s es d) : Leads dst src d es.reverse s := by
  induction h with
  | nil v => exact .nil v
  | @cons e es d _ ih =>
    rw [reverse_cons, leads_append_iff]
    exact ⟨dst e, ih, leads_singleton_iff.mpr ⟨rfl, rfl⟩⟩

lemma leads_reverse_iff : Leads dst src d es.reverse s ↔ Leads src dst s es d := by
  constructor
  · intro h
    simpa using h.reverse
  · exact Leads.reverse

/-- The vertices entered are those left, without the first and with the end. -/
theorem Leads.map_dst {e : E} (h : Leads src dst s (e :: es) d) : (e :: es).map dst = es.map src ++ [d] := by
  induction es generalizing s e with
  | nil =>
    obtain ⟨-, hdst⟩ := leads_singleton_iff.mp h
    simp [hdst]
  | cons f es ih =>
    obtain ⟨-, htail⟩ := leads_cons_iff.mp h
    rw [map_cons, ih htail, ← (leads_cons_iff.mp htail).1]
    rfl

/-- A search that does not go on behind a vertex it has been at leaves none twice. -/
theorem Leads.nodup_left_iff (h : Leads src dst s es d) : (s :: es.dropLast.map dst).Nodup ↔ (es.map src).Nodup := by
  cases es with
  | nil => simp
  | cons e es =>
    have hdst := h.map_dst
    have hdrop : (e :: es).dropLast.map dst = es.map src := by
      rw [map_dropLast, hdst, dropLast_concat]
    rw [hdrop, map_cons, (leads_cons_iff.mp h).1]

/-! ### Cycles at an end -/

/-- The walk comes to its end, and around a cycle to it again. -/
def CyclesAtEnd (src dst : E → V) (s : V) (es : List E) (d : V) : Prop :=
  ∃ p c, p ≠ [] ∧ c ≠ [] ∧ es = p ++ c ∧ Leads src dst s p d ∧ Leads src dst d c d

/-- The walk goes around a cycle at its start before it sets out. -/
def CyclesAtStart (src dst : E → V) (s : V) (es : List E) (d : V) : Prop :=
  ∃ c p, c ≠ [] ∧ p ≠ [] ∧ es = c ++ p ∧ Leads src dst s c s ∧ Leads src dst s p d

lemma Leads.nodup_dst_iff (h : Leads src dst s es d) (hsrc : (es.map src).Nodup) :
    (es.map dst).Nodup ↔ ¬ CyclesAtEnd src dst s es d := by
  cases es with
  | nil =>
    simp only [map_nil, nodup_nil, true_iff]
    rintro ⟨p, c, hp, -, hes, -⟩
    exact hp (append_eq_nil_iff.mp hes.symm).1
  | cons e es =>
    rw [map_cons, nodup_cons] at hsrc
    have hcycle : CyclesAtEnd src dst s (e :: es) d ↔ d ∈ es.map src := by
      constructor
      · rintro ⟨p, c, hp, hc, hes, -, hback⟩
        obtain ⟨f, p, rfl⟩ := exists_cons_of_ne_nil hp
        obtain ⟨x, c, rfl⟩ := exists_cons_of_ne_nil hc
        obtain ⟨-, rfl⟩ := List.cons.inj hes
        exact mem_map.mpr ⟨x, by simp, (leads_cons_iff.mp hback).1⟩
      · intro hmem
        obtain ⟨x, hx, hxd⟩ := mem_map.mp hmem
        obtain ⟨before, after, rfl⟩ := append_of_mem hx
        rw [← cons_append] at h ⊢
        obtain ⟨m, hto, hback⟩ := leads_append_iff.mp h
        obtain rfl : m = d := (leads_cons_iff.mp hback).1.symm.trans hxd
        exact ⟨e :: before, x :: after, by simp, by simp, rfl, hto, hback⟩
    rw [hcycle, h.map_dst, nodup_append]
    constructor
    · rintro ⟨-, -, hne⟩ hmem
      exact hne d hmem d mem_cons_self rfl
    · intro hnot
      refine ⟨hsrc.2, nodup_singleton d, ?_⟩
      rintro a ha b hb rfl
      exact hnot (mem_singleton.mp hb ▸ ha)

lemma cyclesAtEnd_reverse_iff : CyclesAtEnd dst src d es.reverse s ↔ CyclesAtStart src dst s es d := by
  constructor
  · rintro ⟨p, c, hp, hc, hes, hto, hback⟩
    refine ⟨c.reverse, p.reverse, by simpa using hc, by simpa using hp, ?_, hback.reverse, hto.reverse⟩
    rw [← reverse_append, ← hes, reverse_reverse]
  · rintro ⟨c, p, hc, hp, rfl, hback, hto⟩
    exact ⟨p.reverse, c.reverse, by simpa using hp, by simpa using hc, reverse_append,
      hto.reverse, hback.reverse⟩

lemma Leads.nodup_src_iff (h : Leads src dst s es d) (hdst : (es.map dst).Nodup) :
    (es.map src).Nodup ↔ ¬ CyclesAtStart src dst s es d := by
  have hback := h.reverse.nodup_dst_iff (by rwa [map_reverse, nodup_reverse])
  rwa [map_reverse, nodup_reverse, cyclesAtEnd_reverse_iff] at hback

/-! ### As many from either side -/

section Counting

variable (src dst) (allowed : E → Prop)

/-- The walks that leave no vertex twice. -/
def leavingOnce (s d : V) : Set (List E) :=
  {es | (∀ e ∈ es, allowed e) ∧ Leads src dst s es d ∧ (es.map src).Nodup}

/-- The walks that enter no vertex twice. -/
def enteringOnce (s d : V) : Set (List E) :=
  {es | (∀ e ∈ es, allowed e) ∧ Leads src dst s es d ∧ (es.map dst).Nodup}

/-- The walks that leave no vertex twice and end with a cycle. -/
def endingInCycle (s d : V) : Set (List E) :=
  {es ∈ leavingOnce src dst allowed s d | CyclesAtEnd src dst s es d}

/-- The walks that enter no vertex twice and start with a cycle. -/
def startingInCycle (s d : V) : Set (List E) :=
  {es ∈ enteringOnce src dst allowed s d | CyclesAtStart src dst s es d}

variable {allowed}

/-- Read backwards, the walks that enter no vertex twice leave none twice. -/
theorem reverse_mem_leavingOnce :
    es.reverse ∈ leavingOnce dst src allowed d s ↔ es ∈ enteringOnce src dst allowed s d := by
  simp only [leavingOnce, enteringOnce, Set.mem_ofPred_eq, mem_reverse, leads_reverse_iff, map_reverse,
    nodup_reverse]

lemma leavingOnce_reverse (s d : V) :
    leavingOnce dst src allowed d s = List.reverse '' enteringOnce src dst allowed s d := by
  ext es
  constructor
  · intro h
    refine ⟨es.reverse, ?_, reverse_reverse es⟩
    rw [← reverse_mem_leavingOnce]
    simpa using h
  · rintro ⟨fs, hfs, rfl⟩
    exact (reverse_mem_leavingOnce src dst).mpr hfs

lemma ncard_leavingOnce_reverse (s d : V) :
    (leavingOnce dst src allowed d s).ncard = (enteringOnce src dst allowed s d).ncard := by
  rw [leavingOnce_reverse, Set.ncard_image_of_injective _ reverse_injective]

lemma finite_enteringOnce (h : (leavingOnce dst src allowed d s).Finite) :
    (enteringOnce src dst allowed s d).Finite := by
  rw [leavingOnce_reverse] at h
  exact h.of_finite_image reverse_injective.injOn

lemma ncard_eq_iff (hout : (leavingOnce src dst allowed s d).Finite)
    (hin : (enteringOnce src dst allowed s d).Finite) :
    (leavingOnce src dst allowed s d).ncard = (enteringOnce src dst allowed s d).ncard ↔
      (endingInCycle src dst allowed s d).ncard = (startingInCycle src dst allowed s d).ncard := by
  have hend : endingInCycle src dst allowed s d =
      leavingOnce src dst allowed s d \ enteringOnce src dst allowed s d := by
    ext es
    constructor
    · rintro ⟨hleaving, hcycle⟩
      exact ⟨hleaving, fun hentering =>
        (hleaving.2.1.nodup_dst_iff hleaving.2.2).mp hentering.2.2 hcycle⟩
    · rintro ⟨hleaving, hnot⟩
      refine ⟨hleaving, ?_⟩
      by_contra hcycle
      exact hnot ⟨hleaving.1, hleaving.2.1, (hleaving.2.1.nodup_dst_iff hleaving.2.2).mpr hcycle⟩
  have hstart : startingInCycle src dst allowed s d =
      enteringOnce src dst allowed s d \ leavingOnce src dst allowed s d := by
    ext es
    constructor
    · rintro ⟨hentering, hcycle⟩
      exact ⟨hentering, fun hleaving =>
        (hentering.2.1.nodup_src_iff hentering.2.2).mp hleaving.2.2 hcycle⟩
    · rintro ⟨hentering, hnot⟩
      refine ⟨hentering, ?_⟩
      by_contra hcycle
      exact hnot ⟨hentering.1, hentering.2.1, (hentering.2.1.nodup_src_iff hentering.2.2).mpr hcycle⟩
  rw [hend, hstart]
  exact Set.ncard_eq_ncard_iff_ncard_sdiff_eq_ncard_sdiff hout hin

end Counting

end Eugraph.Lib.EdgeWalks

import Mathlib.Data.List.Basic
import Mathlib.Data.List.GetD
import Mathlib.Data.List.Forall2
import Mathlib.Data.List.Range
import Mathlib.Data.List.Nodup

/-!
# Reading a batch in another order than it is given

A batch may read each distinct key once and hand the answers out to all positions of the
key, or read its positions in another order and put each answer into its own slot.  A
read may fail; the batch then fails with the error of the read it meets first.
-/

namespace Eugraph.Lib

open List

variable {κ α ε : Type*} {r : κ → Except ε α} {ks : List κ}

lemma mapM_eq_ok_iff {out : List α} :
    ks.mapM r = .ok out ↔ List.Forall₂ (fun k v => r k = .ok v) ks out := by
  induction ks generalizing out with
  | nil =>
    rw [mapM_nil, forall₂_nil_left_iff]
    show Except.ok [] = Except.ok out ↔ out = []
    rw [Except.ok.injEq, eq_comm]
  | cons k rest ih =>
    rw [mapM_cons, forall₂_cons_left_iff]
    cases hk : r k with
    | error e =>
      refine ⟨fun h => absurd h (by simp [bind, Except.bind]), ?_⟩
      rintro ⟨v, -, hv, -⟩
      cases hv
    | ok v =>
      cases hrest : rest.mapM r with
      | error e =>
        refine ⟨fun h => absurd h (by simp [bind, Except.bind]), ?_⟩
        rintro ⟨v', out', -, hout', -⟩
        rw [← ih, hrest] at hout'
        cases hout'
      | ok out' =>
        show Except.ok (v :: out') = Except.ok out ↔ _
        rw [Except.ok.injEq]
        constructor
        · rintro rfl
          exact ⟨v, out', rfl, ih.mp hrest, rfl⟩
        · rintro ⟨w, outs, hw, houts, rfl⟩
          rw [← ih, hrest, Except.ok.injEq] at houts
          rw [Except.ok.inj hw, houts]

/-- A batch of reads that all succeed is answered by their answers, position by position. -/
theorem mapM_eq_map_iff {f : κ → α} :
    ks.mapM r = .ok (ks.map f) ↔ ∀ k ∈ ks, r k = .ok (f k) := by
  rw [mapM_eq_ok_iff, forall₂_map_right_iff, forall₂_same]

/-! ### Each distinct key once -/

/-- The keys met so far, in the order of their first occurrences, and for every position
the place of its key among them. -/
structure DistinctKeys (κ : Type*) where
  keys : List κ
  places : List Nat

namespace DistinctKeys

variable [DecidableEq κ]

def add (d : DistinctKeys κ) (k : κ) : DistinctKeys κ :=
  match d.keys.idxOf? k with
  | some i => ⟨d.keys, d.places ++ [i]⟩
  | none => ⟨d.keys ++ [k], d.places ++ [d.keys.length]⟩

def ofList (ks : List κ) : DistinctKeys κ := ks.foldl add ⟨[], []⟩

lemma ofList_append (ks : List κ) (k : κ) : ofList (ks ++ [k]) = (ofList ks).add k := by
  rw [ofList, foldl_append]
  rfl

/-- Every place is one of a key. -/
theorem places_lt (ks : List κ) : ∀ i ∈ (ofList ks).places, i < (ofList ks).keys.length := by
  induction ks using List.reverseRecOn with
  | nil => simp [ofList]
  | append_singleton ks k ih =>
    rw [ofList_append, add]
    intro i hi
    cases hidx : (ofList ks).keys.idxOf? k with
    | some j =>
      rw [hidx] at hi
      rcases mem_append.mp hi with hi | hi
      · exact ih i hi
      · obtain ⟨hj, -⟩ := List.idxOf?_eq_some_iff.mp hidx
        rw [mem_singleton.mp hi]
        exact hj
    | none =>
      rw [hidx] at hi
      show i < ((ofList ks).keys ++ [k]).length
      rw [length_append, length_singleton]
      rcases mem_append.mp hi with hi | hi
      · have := ih i hi
        omega
      · rw [mem_singleton.mp hi]
        omega

lemma keys_sublist (ks : List κ) : (ofList ks).keys.Sublist ks := by
  induction ks using List.reverseRecOn with
  | nil => exact List.Sublist.slnil
  | append_singleton ks k ih =>
    rw [ofList_append, add]
    cases (ofList ks).keys.idxOf? k with
    | some i => exact ih.trans (sublist_append_left ks [k])
    | none => exact ih.append (List.Sublist.refl [k])

/-- When every key is new, the keys are the positions. -/
theorem keys_eq (h : (ofList ks).keys.length = ks.length) : (ofList ks).keys = ks :=
  (keys_sublist ks).eq_of_length h

/-- What the positions are given when the keys have been read. -/
def hand (d : DistinctKeys κ) (fallback : α) (answers : List α) : List α :=
  d.places.map fun i => answers.getD i fallback

/-- Handing out the answers of the distinct keys is reading every position. -/
theorem map_hand_mapM (r : κ → Except ε α) (fallback : α) (ks : List κ) :
    ((ofList ks).keys.mapM r).map ((ofList ks).hand fallback) = ks.mapM r := by
  induction ks using List.reverseRecOn with
  | nil => rfl
  | append_singleton ks k ih =>
    have hlt := places_lt ks
    rw [mapM_append, ← ih, ofList_append, add]
    cases hidx : (ofList ks).keys.idxOf? k with
    | some i =>
      -- the key has been read: its answer is at place `i`
      obtain ⟨hi, hkey, -⟩ := List.idxOf?_eq_some_iff.mp hidx
      show ((ofList ks).keys.mapM r).map _ = _
      cases hread : (ofList ks).keys.mapM r with
      | error e => rfl
      | ok answers =>
        have hall := forall₂_iff_get.mp (mapM_eq_ok_iff.mp hread)
        have hi' : i < answers.length := hall.1 ▸ hi
        have hk : r k = .ok (answers.getD i fallback) := by
          rw [← hkey, getD_eq_getElem _ _ hi']
          exact hall.2 i hi hi'
        show Except.ok _ = Except.map _ (Except.ok answers) >>= _
        simp [hand, hk, Except.map, bind, Except.bind, pure, Except.pure]
    | none =>
      -- a new key: the earlier places keep their answers
      show (((ofList ks).keys ++ [k]).mapM r).map _ = _
      rw [mapM_append]
      cases hread : (ofList ks).keys.mapM r with
      | error e => rfl
      | ok answers =>
        have hlen : (ofList ks).keys.length = answers.length := (mapM_eq_ok_iff.mp hread).length_eq
        cases hk : r k with
        | error e => simp [hk, Except.map, bind, Except.bind]
        | ok v =>
          have hold : ∀ i ∈ (ofList ks).places, (answers ++ [v])[i]?.getD fallback = answers[i]?.getD fallback := by
            intro i hi
            have := hlt i hi
            rw [List.getElem?_append_left (by omega)]
          simpa [hand, hk, Except.map, bind, Except.bind, pure, Except.pure, hlen] using hold

end DistinctKeys

/-! ### Positions in another order -/

/-- Read the positions in the given order, each into its own slot. -/
def fillSlots (read : Nat → Except ε α) (order : List Nat) (out : List α) :
    Except ε (List α) :=
  order.foldlM (fun out i => (read i).map (out.set i)) out

lemma fillSlots_cons (read : Nat → Except ε α) (i : Nat) (order : List Nat) (out : List α) :
    fillSlots read (i :: order) out = (read i).bind fun v => fillSlots read order (out.set i v) := by
  rw [fillSlots, foldlM_cons]
  cases read i with
  | error e => rfl
  | ok v => rfl

/-- With every slot named once, the order does not show in the result. -/
theorem fillSlots_eq_ok_iff {read : Nat → Except ε α} {order : List Nat} {out result : List α}
    (hnodup : order.Nodup) (hlt : ∀ i ∈ order, i < out.length) :
    fillSlots read order out = .ok result ↔ result.length = out.length ∧
      (∀ i ∈ order, ∃ v, read i = .ok v ∧ result[i]? = some v) ∧
      ∀ i, i ∉ order → result[i]? = out[i]? := by
  induction order generalizing out with
  | nil =>
    show Except.ok out = Except.ok result ↔ _
    rw [Except.ok.injEq]
    constructor
    · rintro rfl
      simp
    · rintro ⟨-, -, h⟩
      exact (ext_getElem? fun i => h i (by simp)).symm
  | cons i order ih =>
    rw [nodup_cons] at hnodup
    rw [fillSlots_cons]
    cases hread : read i with
    | error e =>
      refine ⟨fun h => absurd h (by simp [Except.bind]), ?_⟩
      rintro ⟨-, h, -⟩
      obtain ⟨v, hv, -⟩ := h i mem_cons_self
      rw [hread] at hv
      cases hv
    | ok v =>
      have hi : i < out.length := hlt i mem_cons_self
      show fillSlots read order (out.set i v) = .ok result ↔ _
      rw [ih hnodup.2 fun j hj => by
        rw [length_set]
        exact hlt j (mem_cons_of_mem i hj)]
      rw [length_set]
      refine and_congr_right fun hlen => ?_
      constructor
      · rintro ⟨hslots, hrest⟩
        refine ⟨fun j hj => ?_, fun j hj => ?_⟩
        · rcases mem_cons.mp hj with rfl | hj
          · refine ⟨v, hread, ?_⟩
            rw [hrest j hnodup.1, List.getElem?_set_self hi]
          · exact hslots j hj
        · rw [mem_cons, not_or] at hj
          rw [hrest j hj.2, List.getElem?_set_ne (Ne.symm hj.1)]
      · rintro ⟨hslots, hrest⟩
        refine ⟨fun j hj => hslots j (mem_cons_of_mem i hj), fun j hj => ?_⟩
        by_cases hji : j = i
        · subst hji
          obtain ⟨w, hw, hslot⟩ := hslots j mem_cons_self
          rw [hread, Except.ok.injEq] at hw
          rw [hslot, List.getElem?_set_self hi, hw]
        · rw [List.getElem?_set_ne (Ne.symm hji), hrest j (by simp [hji, hj])]

/-- Any order over all positions answers as reading them one after another does. -/
theorem fillSlots_eq_ok_iff_mapM {order : List Nat}
    {read : Nat → Except ε α} {out result : List α}
    (hread : ∀ i (hi : i < ks.length), read i = r ks[i])
    (horder : order.Perm (List.range ks.length)) (hout : out.length = ks.length) :
    fillSlots read order out = .ok result ↔ ks.mapM r = .ok result := by
  have hmem : ∀ i, i ∈ order ↔ i < ks.length := fun i => by rw [horder.mem_iff, mem_range]
  rw [fillSlots_eq_ok_iff (horder.nodup_iff.mpr nodup_range)
    (fun i hi => hout ▸ (hmem i).mp hi), mapM_eq_ok_iff, forall₂_iff_get, hout]
  constructor
  · rintro ⟨hlen, hslots, -⟩
    refine ⟨hlen.symm, fun i hi hi' => ?_⟩
    obtain ⟨v, hv, hslot⟩ := hslots i ((hmem i).mpr hi)
    rw [List.getElem?_eq_getElem hi', Option.some.injEq] at hslot
    rw [hread i hi] at hv
    simpa [hslot] using hv
  · rintro ⟨hlen, hall⟩
    refine ⟨hlen.symm, fun i hi => ?_, fun i hi => ?_⟩
    · have hi' := (hmem i).mp hi
      refine ⟨result[i], ?_, List.getElem?_eq_getElem (hlen ▸ hi')⟩
      rw [hread i hi']
      exact hall i hi' (hlen ▸ hi')
    · rw [hmem, not_lt] at hi
      rw [List.getElem?_eq_none (by omega), List.getElem?_eq_none (by omega)]

end Eugraph.Lib

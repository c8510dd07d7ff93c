import Eugraph.Storage.VertexRows

/-!
# Coherence of the vertex summaries

A summary is coherent when it tells the labels and the inlined properties of its vertex
as the canonical rows do.  The readers then answer as without it.  Every mutator drops
the summary of the vertex it changes, except `insertVertex`, which publishes one when it
finds none: that summary is right only if the call names everything the vertex has.
-/

namespace Eugraph.DataStore

open Lib Lib.Program Wt KeyCodec List Function ValueCodec Or

/-! ### The fallback scans -/

section Probes

variable {candidates : List Candidate}

/-- What the scans find: the value of each candidate, at its first position only. -/
def firstValues (candidates : List Candidate) (f : Candidate → Option PropertyValue) :
    List (Option PropertyValue) :=
  candidates.mapIdx fun i c => if candidates.idxOf c = i then f c else none

lemma firstValues_none : firstValues candidates (fun _ => none) = replicate candidates.length none := by
  refine ext_getElem (by simp [firstValues]) fun i hi hi' => ?_
  simp [firstValues]

/-- A list with some positions emptied keeps its values exactly when none was there. -/
theorem filterMap_eq_iff_of_emptied {α : Type} {xs ys : List (Option α)}
    (h : Forall₂ (fun x y => x = none ∨ x = y) xs ys) :
    xs.filterMap id = ys.filterMap id ↔ xs = ys := by
  have hlen : ∀ {xs ys : List (Option α)}, Forall₂ (fun x y => x = none ∨ x = y) xs ys →
      (xs.filterMap id).length ≤ (ys.filterMap id).length := by
    intro xs ys h
    induction h with
    | nil => exact le_refl _
    | @cons x y xs ys hxy _ ih =>
      rcases hxy with rfl | rfl
      · cases y with
        | none => simpa using ih
        | some v => simpa using Nat.le_succ_of_le ih
      · cases x with
        | none => simpa using ih
        | some v => simpa using ih
  induction h with
  | nil => simp
  | @cons x y xs ys hxy hrest ih =>
    cases x with
    | some v =>
      obtain rfl : some v = y := hxy.resolve_left (by simp)
      simpa using ih
    | none =>
      cases y with
      | none => simpa using ih
      | some v =>
        refine ⟨fun heq => ?_, fun heq => absurd (cons.inj heq).1 (by simp)⟩
        have hshort := hlen hrest
        have hlong : (xs.filterMap id).length = (ys.filterMap id).length + 1 := congrArg length heq
        omega

lemma idxOf_getElem_le {i : Nat} (hi : i < candidates.length) :
    candidates.idxOf candidates[i] ≤ i := by
  by_contra hgt
  have hno := not_of_lt_findIdx (Nat.lt_of_not_le hgt)
  simp at hno

/-- Keeping first positions only loses nothing when no candidate with a value is repeated. -/
theorem foundValues_firstValues_iff (candidates : List Candidate) (f : Candidate → Option PropertyValue) :
    foundValues (firstValues candidates f) = candidates.filterMap f ↔
      (candidates.filter fun cand => (f cand).isSome).Nodup := by
  have hmap : candidates.filterMap f = (candidates.map f).filterMap id := by
    rw [filterMap_map, Function.id_comp]
  have hget : ∀ i (hi : i < candidates.length), (firstValues candidates f)[i]? =
      some (if candidates.idxOf candidates[i] = i then f candidates[i] else none) := by
    intro i hi
    rw [firstValues, getElem?_mapIdx, getElem?_eq_getElem hi]
    rfl
  have hemptied : Forall₂ (fun x y => x = none ∨ x = y) (firstValues candidates f) (candidates.map f) := by
    refine forall₂_iff_get.mpr ⟨by simp [firstValues], fun i hi hi' => ?_⟩
    have hlt : i < candidates.length := by simpa using hi'
    have hx := Option.some.inj ((getElem?_eq_getElem hi).symm.trans (hget i hlt))
    rw [get_eq_getElem, get_eq_getElem, hx, getElem_map]
    split
    · exact Or.inr rfl
    · exact Or.inl rfl
  rw [foundValues, hmap, filterMap_eq_iff_of_emptied hemptied, Nodup, pairwise_filter, pairwise_iff_getElem]
  constructor
  · intro heq i j hi hj hij hfi hfj hsame
    -- the later of two equal positions has been emptied
    have hx := hget j hj
    rw [heq, getElem?_map, getElem?_eq_getElem hj, Option.map_some, Option.some_inj, if_neg] at hx
    · rw [hx] at hfj
      exact absurd hfj (by simp)
    · have hle : candidates.idxOf candidates[j] ≤ i := by
        rw [← hsame]
        exact idxOf_getElem_le hi
      omega
  · intro hpair
    refine ext_getElem? fun i => ?_
    by_cases hi : i < candidates.length
    · rw [hget i hi, getElem?_map, getElem?_eq_getElem hi]
      split
      · rfl
      · rename_i hne
        have hlt := idxOf_lt_length_of_mem (getElem_mem hi)
        have hkey : candidates[candidates.idxOf candidates[i]] = candidates[i] := getElem_idxOf hlt
        have hle : candidates.idxOf candidates[i] ≤ i := idxOf_getElem_le hi
        cases hf : f candidates[i] with
        | none => rw [Option.map_some, hf]
        | some v =>
          refine absurd hkey (hpair _ i hlt hi (by omega) ?_ ?_)
          · simp [hkey, hf]
          · simp [hf]
    · rw [getElem?_eq_none (by simpa [firstValues] using hi),
        getElem?_eq_none (by simpa using hi)]

/-- No candidate with a stored value is repeated. -/
def OncePresent (s : Store) (vid : VertexId) (candidates : List Candidate) : Prop :=
  (candidates.filter fun cand => (canonicalValue s vid cand).isSome).Nodup

instance (s : Store) (vid : VertexId) (candidates : List Candidate) :
    Decidable (OncePresent s vid candidates) :=
  inferInstanceAs (Decidable (Nodup _))

lemma OncePresent.foundValues_eq {s : Store} {vid : VertexId} (h : OncePresent s vid candidates) :
    foundValues (firstValues candidates (canonicalValue s vid)) =
      foundValues (candidates.map (canonicalValue s vid)) := by
  rw [(foundValues_firstValues_iff _ _).mpr h, foundValues, filterMap_map, Function.id_comp]

/-- One row sets the value of its own candidate, whether or not that is asked for. -/
theorem probeRow_firstValues (keepFirst : Bool) (f : Candidate → Option PropertyValue)
    {row : Record} {v : PropertyValue}
    (hv : decode row.2 = .ok v) (hfresh : f (decodeVertexDataPropKey row.1) = none) :
    probeRow keepFirst candidates (firstValues candidates f) row =
      .ok (firstValues candidates (update f (decodeVertexDataPropKey row.1) (some v))) := by
  unfold probeRow
  split
  · rename_i hnone
    rw [findIdx?_eq_none_iff] at hnone
    refine congrArg Except.ok (ext_getElem (by simp [firstValues]) fun j hj hj' => ?_)
    rw [firstValues, length_mapIdx] at hj
    have hne : candidates[j] ≠ decodeVertexDataPropKey row.1 := by
      simpa using hnone _ (getElem_mem hj)
    simp only [firstValues, getElem_mapIdx, update_of_ne hne]
  · rename_i i hi
    obtain ⟨hlt, hkey, hfirst⟩ := findIdx?_eq_some_iff_getElem.mp hi
    have hkey' : candidates[i] = decodeVertexDataPropKey row.1 := by simpa using hkey
    have hidx : candidates.idxOf (decodeVertexDataPropKey row.1) = i := by
      rw [idxOf, findIdx_eq hlt]
      exact ⟨by simpa using hkey', fun j hji => by simpa using hfirst j hji⟩
    have hnone : (firstValues candidates f).getD i none = none := by
      rw [getD_eq_getElem?_getD, List.getElem?_eq_getElem (by simpa [firstValues] using hlt)]
      simp [firstValues, hkey', hfresh]
    rw [hnone, hv, if_neg (by simp)]
    refine congrArg Except.ok (ext_getElem (by simp [firstValues]) fun j hj hj' => ?_)
    rw [getElem_set]
    simp only [firstValues, getElem_mapIdx]
    split
    · rename_i hij
      subst hij
      rw [hkey', hidx, if_pos rfl, update_self]
    · rename_i hij
      have hjlt : j < candidates.length := by simpa [firstValues] using hj'
      by_cases hcand : candidates[j] = decodeVertexDataPropKey row.1
      · rw [hcand, hidx, if_neg hij, if_neg hij]
      · rw [update_of_ne hcand]

lemma foldlM_probeRow (rows : List Record) (f : Candidate → Option PropertyValue)
    (hdecode : ∀ row ∈ rows, ∃ v, decode row.2 = .ok v)
    (hrows : (rows.map fun row => decodeVertexDataPropKey row.1).Nodup)
    (hfresh : ∀ row ∈ rows, f (decodeVertexDataPropKey row.1) = none) :
    ∃ f', rows.foldlM (probeRow false candidates) (firstValues candidates f) = .ok (firstValues candidates f') ∧
      (∀ c, (∀ row ∈ rows, decodeVertexDataPropKey row.1 ≠ c) → f' c = f c) ∧
      ∀ row ∈ rows, f' (decodeVertexDataPropKey row.1) = (decode row.2).toOption := by
  induction rows generalizing f with
  | nil => exact ⟨f, rfl, fun _ _ => rfl, fun _ hrow => absurd hrow (by simp)⟩
  | cons row rest ih =>
    rw [map_cons, nodup_cons] at hrows
    obtain ⟨v, hv⟩ := hdecode row mem_cons_self
    have hother : ∀ row' ∈ rest, decodeVertexDataPropKey row'.1 ≠ decodeVertexDataPropKey row.1 :=
      fun row' hrow' heq => hrows.1 (mem_map.mpr ⟨row', hrow', heq⟩)
    obtain ⟨f', hfold, hkept, hread⟩ := ih (update f (decodeVertexDataPropKey row.1) (some v))
      (fun row' hrow' => hdecode row' (mem_cons_of_mem _ hrow')) hrows.2 (by
        intro row' hrow'
        rw [update_of_ne (hother row' hrow')]
        exact hfresh row' (mem_cons_of_mem _ hrow'))
    refine ⟨f', ?_, fun c hc => ?_, fun row' hrow' => ?_⟩
    · rw [foldlM_cons, probeRow_firstValues false f hv (hfresh row mem_cons_self)]
      exact hfold
    · rw [hkept c fun row' hrow' => hc row' (mem_cons_of_mem _ hrow'), update_of_ne (Ne.symm (hc row mem_cons_self))]
    · rcases mem_cons.mp hrow' with rfl | hrow'
      · rw [hkept _ hother, update_self, hv]
        rfl
      · exact hread row' hrow'

/-- The scan over a vertex: labels are collected, property rows probed. -/
theorem foldlM_probeVertexRow (rows : List Record) (labels : Finset LabelId) (f : Candidate → Option PropertyValue)
    (hdecode : ∀ row ∈ rows, vertexDataKind row.1 ≠ VertexDataKind.LABEL.byte → ∃ v, decode row.2 = .ok v)
    (hrows : rows.Pairwise fun a b => vertexDataKind a.1 ≠ VertexDataKind.LABEL.byte →
      vertexDataKind b.1 ≠ VertexDataKind.LABEL.byte →
      decodeVertexDataPropKey a.1 ≠ decodeVertexDataPropKey b.1)
    (hfresh : ∀ row ∈ rows, vertexDataKind row.1 ≠ VertexDataKind.LABEL.byte →
      f (decodeVertexDataPropKey row.1) = none) :
    ∃ labels' f', rows.foldlM (probeVertexRow candidates) (labels, firstValues candidates f) =
        .ok (labels', firstValues candidates f') ∧
      (∀ l, l ∈ labels' ↔ l ∈ labels ∨ (l ≠ INVALID_LABEL_ID ∧ ∃ row ∈ rows,
        vertexDataKind row.1 = VertexDataKind.LABEL.byte ∧ decodeVertexDataLabelKey row.1 = l)) ∧
      (∀ c, (∀ row ∈ rows, vertexDataKind row.1 ≠ VertexDataKind.LABEL.byte →
        decodeVertexDataPropKey row.1 ≠ c) → f' c = f c) ∧
      ∀ row ∈ rows, vertexDataKind row.1 ≠ VertexDataKind.LABEL.byte →
        f' (decodeVertexDataPropKey row.1) = (decode row.2).toOption := by
  induction rows generalizing labels f with
  | nil => exact ⟨labels, f, rfl, by simp, fun _ _ => rfl, fun _ hrow => absurd hrow (by simp)⟩
  | cons row rest ih =>
    rw [pairwise_cons] at hrows
    have hdecode' := fun row' hrow' => hdecode row' (mem_cons_of_mem row hrow')
    have hfresh' := fun row' hrow' => hfresh row' (mem_cons_of_mem row hrow')
    by_cases hkind : vertexDataKind row.1 = VertexDataKind.LABEL.byte
    · obtain ⟨labels', f', hfold, hlabels, hkept, hread⟩ := ih
        (if decodeVertexDataLabelKey row.1 ≠ INVALID_LABEL_ID then
          insert (decodeVertexDataLabelKey row.1) labels else labels) f hdecode' hrows.2 hfresh'
      refine ⟨labels', f', ?_, fun l => ?_, fun c hc => ?_, fun row' hrow' hno => ?_⟩
      · rw [foldlM_cons, probeVertexRow, if_pos hkind]
        exact hfold
      · rw [hlabels]
        by_cases hvalid : decodeVertexDataLabelKey row.1 = INVALID_LABEL_ID
        · simp only [hvalid, ne_eq, not_true_eq_false, if_false, mem_cons, exists_eq_or_imp, hkind, true_and]
          constructor
          · rintro (hl | ⟨hne, hrow⟩)
            · exact inl hl
            · exact inr ⟨hne, inr hrow⟩
          · rintro (hl | ⟨hne, rfl | hrow⟩)
            · exact inl hl
            · exact absurd rfl hne
            · exact inr ⟨hne, hrow⟩
        · simp only [hvalid, ne_eq, not_false_eq_true, if_true, Finset.mem_insert, mem_cons,
            exists_eq_or_imp, hkind, true_and]
          constructor
          · rintro ((rfl | hl) | ⟨hne, hrow⟩)
            · exact inr ⟨hvalid, inl rfl⟩
            · exact inl hl
            · exact inr ⟨hne, inr hrow⟩
          · rintro (hl | ⟨hne, rfl | hrow⟩)
            · exact inl (inr hl)
            · exact inl (inl rfl)
            · exact inr ⟨hne, hrow⟩
      · exact hkept c fun row' hrow' => hc row' (mem_cons_of_mem _ hrow')
      · rcases mem_cons.mp hrow' with rfl | hrow'
        · exact absurd hkind hno
        · exact hread row' hrow' hno
    · obtain ⟨v, hv⟩ := hdecode row mem_cons_self hkind
      have hother : ∀ row' ∈ rest, vertexDataKind row'.1 ≠ VertexDataKind.LABEL.byte →
          decodeVertexDataPropKey row'.1 ≠ decodeVertexDataPropKey row.1 :=
        fun row' hrow' hno heq => hrows.1 row' hrow' hkind hno heq.symm
      obtain ⟨labels', f', hfold, hlabels, hkept, hread⟩ := ih labels
        (update f (decodeVertexDataPropKey row.1) (some v)) hdecode' hrows.2 (by
          intro row' hrow' hno
          rw [update_of_ne (hother row' hrow' hno)]
          exact hfresh' row' hrow' hno)
      refine ⟨labels', f', ?_, fun l => ?_, fun c hc => ?_, fun row' hrow' hno => ?_⟩
      · rw [foldlM_cons, probeVertexRow, if_neg hkind,
          probeRow_firstValues true f hv (hfresh row mem_cons_self hkind)]
        exact hfold
      · rw [hlabels]
        simp [hkind]
      · rw [hkept c fun row' hrow' => hc row' (mem_cons_of_mem _ hrow'),
          update_of_ne (Ne.symm (hc row mem_cons_self hkind))]
      · rcases mem_cons.mp hrow' with rfl | hrow'
        · rw [hkept _ hother, update_self, hv]
          rfl
        · exact hread row' hrow' hno

end Probes

section Fallback

variable {s : Store} {vid : VertexId} {candidates : List Candidate}

lemma mem_labelRows (h : VertexRowsOk s) (l : LabelId) :
    l ∈ (prefixRecords (s .vertexData) (encodeVertexDataLabelPrefix vid)).map
      (fun row => decodeVertexDataLabelKey row.1) ↔ hasLabel s vid l := by
  constructor
  · intro hl
    obtain ⟨row, hrow, rfl⟩ := mem_map.mp hl
    obtain ⟨hpre, hget⟩ := (mem_prefixRecords _ _ _ _).mp hrow
    rw [hasLabel, ← h.labelRow hget hpre, Store.get, hget]
    rfl
  · intro hl
    obtain ⟨value, hget⟩ := Option.isSome_iff_exists.mp hl
    refine mem_map.mpr ⟨_, (mem_prefixRecords _ _ _ _).mpr ⟨?_, hget⟩, decodeVertexDataLabelKey_encode vid l⟩
    exact sectionKey_isPrefix_iff.mpr ⟨rfl, rfl, nil_prefix⟩

/-- A probed map agrees with the canonical rows when every property row was probed. -/
theorem eq_canonicalValue (h : VertexRowsOk s) (rows : List Record) {f : Candidate → Option PropertyValue}
    (hrows : ∀ row ∈ rows, s.get .vertexData row.1 = some row.2 ∧ encodeVertexDataPropPrefix vid <+: row.1)
    (hall : ∀ cand bytes, propRow s vid cand = some bytes →
      (encodeVertexDataPropKey vid cand.1 cand.2, bytes) ∈ rows)
    (hkept : ∀ c, (∀ row ∈ rows, decodeVertexDataPropKey row.1 ≠ c) → f c = none)
    (hread : ∀ row ∈ rows, f (decodeVertexDataPropKey row.1) =
      (decode row.2).toOption) : f = canonicalValue s vid := by
  funext c
  rw [canonicalValue]
  cases hget : propRow s vid c with
  | none =>
    refine hkept c ?_
    rintro row hrow rfl
    obtain ⟨hrowGet, hpre⟩ := hrows row hrow
    rw [propRow, ← (h.propRow hrowGet hpre).1, hrowGet] at hget
    exact absurd hget (by simp)
  | some bytes =>
    have hvalue := hread _ (hall c bytes hget)
    rw [decodeVertexDataPropKey_encode] at hvalue
    exact hvalue

lemma scan_coalesceProperties (h : VertexRowsOk s) :
    (prefixRecords (s .vertexData) (encodeVertexDataPropPrefix vid)).foldlM
        (probeRow false candidates) (replicate candidates.length none) =
      .ok (firstValues candidates (canonicalValue s vid)) := by
  have hrows : ∀ row ∈ prefixRecords (s .vertexData) (encodeVertexDataPropPrefix vid),
      s.get .vertexData row.1 = some row.2 ∧ encodeVertexDataPropPrefix vid <+: row.1 :=
    fun row hrow => ((mem_prefixRecords _ _ _ _).mp hrow).symm
  obtain ⟨f, hfold, hkept, hread⟩ := foldlM_probeRow
    (prefixRecords (s .vertexData) (encodeVertexDataPropPrefix vid)) (fun _ => none)
    (fun row hrow => (h.propRow (hrows row hrow).1 (hrows row hrow).2).2)
    (nodup_map_prefixRecords fun a ha b hb heq => by
      rw [(h.propRow (hrows a ha).1 (hrows a ha).2).1, (h.propRow (hrows b hb).1 (hrows b hb).2).1, heq])
    fun _ _ => rfl
  rw [← firstValues_none, hfold, eq_canonicalValue h _ hrows _ hkept hread]
  intro cand bytes hget
  exact (mem_prefixRecords _ _ _ _).mpr ⟨sectionKey_isPrefix_iff.mpr ⟨rfl, rfl, nil_prefix⟩, hget⟩

/-- Rows of a vertex are labels first, then properties, then adjacency. -/
theorem VertexRowsOk.kind_le (h : VertexRowsOk s) {key value : Bytes} (hget : s.get .vertexData key = some value)
    (hpre : encodeVertexDataVertexPrefix vid <+: key) :
    ∃ kind rest, key = sectionKey vid (VertexDataKind.byte kind) rest := by
  rcases h key value hget with ⟨vid', l, rfl⟩ | ⟨vid', l, p, v, rfl, -⟩ | ⟨vid', k, rest, -, rfl⟩
  · rw [encodeVertexDataLabelKey, vertexPrefix_isPrefix_sectionKey] at hpre
    exact ⟨.LABEL, _, by rw [hpre]; rfl⟩
  · rw [encodeVertexDataPropKey, vertexPrefix_isPrefix_sectionKey] at hpre
    exact ⟨.PROPERTY, _, by rw [hpre]; rfl⟩
  · rw [vertexPrefix_isPrefix_sectionKey] at hpre
    exact ⟨k, rest, by rw [hpre]⟩

lemma sectionKey_lt_kind {sec sec' : UInt8} {rest rest' : Bytes}
    (h : sectionKey vid sec rest < sectionKey vid sec' rest') : sec ≤ sec' := by
  rw [sectionKey, sectionKey, append_left_lt_iff, cons_lt_cons_iff] at h
  rcases h with hlt | ⟨rfl, -⟩
  · exact le_of_lt hlt
  · exact le_refl _

/-- The kinds `getVertexCoalesceDataBatch` reads. -/
def isLabelOrProperty (key : Bytes) : Bool :=
  vertexDataKind key = VertexDataKind.LABEL.byte ∨ vertexDataKind key = VertexDataKind.PROPERTY.byte

lemma VertexRowsOk.takeWhile_vertexRows (h : VertexRowsOk s) :
    (prefixRecords (s .vertexData) (encodeVertexDataVertexPrefix vid)).takeWhile
        (fun row => isLabelOrProperty row.1) =
      (prefixRecords (s .vertexData) (encodeVertexDataVertexPrefix vid)).filter
        fun row => isLabelOrProperty row.1 := by
  refine SortedMap.takeWhile_eq_filter (SortedMap.sorted _) _ fun a ha b hb hlt hkind => ?_
  obtain ⟨hpreA, hgetA⟩ := (mem_prefixRecords _ _ _ _).mp ha
  obtain ⟨hpreB, hgetB⟩ := (mem_prefixRecords _ _ _ _).mp hb
  obtain ⟨ka, resta, hkeyA⟩ := h.kind_le hgetA hpreA
  obtain ⟨kb, restb, hkeyB⟩ := h.kind_le hgetB hpreB
  rw [hkeyA, hkeyB] at hlt
  have hle := sectionKey_lt_kind hlt
  simp only [isLabelOrProperty, hkeyA, hkeyB, vertexDataKind_sectionKey] at hkind ⊢
  revert hle hkind
  cases ka <;> cases kb <;> decide

lemma VertexRowsOk.propPrefix_of_kind (h : VertexRowsOk s) {row : Record}
    (hrow : row ∈ (prefixRecords (s .vertexData) (encodeVertexDataVertexPrefix vid)).filter
      fun row => isLabelOrProperty row.1) :
    s.get .vertexData row.1 = some row.2 ∧
    (vertexDataKind row.1 = VertexDataKind.LABEL.byte → encodeVertexDataLabelPrefix vid <+: row.1) ∧
    (vertexDataKind row.1 ≠ VertexDataKind.LABEL.byte → encodeVertexDataPropPrefix vid <+: row.1) := by
  obtain ⟨hmem, hkind⟩ := mem_filter.mp hrow
  obtain ⟨hpre, hget⟩ := (mem_prefixRecords _ _ _ _).mp hmem
  obtain ⟨k, rest, hkey⟩ := h.kind_le hget hpre
  simp only [isLabelOrProperty, hkey, vertexDataKind_sectionKey, decide_eq_true_eq] at hkind ⊢
  refine ⟨hkey ▸ hget, fun hlabel => ?_, fun hno => ?_⟩
  · exact sectionKey_isPrefix_iff.mpr ⟨rfl, hlabel.symm, nil_prefix⟩
  · exact sectionKey_isPrefix_iff.mpr ⟨rfl, (hkind.resolve_left hno).symm, nil_prefix⟩

lemma scan_coalesceData (h : VertexRowsOk s) (candidates : List Candidate) (vid : VertexId)
    (labels : Finset LabelId) :
    ∃ labels', ((prefixRecords (s .vertexData) (encodeVertexDataVertexPrefix vid)).takeWhile
        fun row => isLabelOrProperty row.1).foldlM (probeVertexRow candidates)
          (labels, replicate candidates.length none) =
        .ok (labels', firstValues candidates (canonicalValue s vid)) ∧
      ∀ l, l ∈ labels' ↔ l ∈ labels ∨ (l ≠ INVALID_LABEL_ID ∧ hasLabel s vid l) := by
  rw [h.takeWhile_vertexRows]
  obtain ⟨rows, hrows⟩ : ∃ rows, rows = (prefixRecords (s .vertexData)
    (encodeVertexDataVertexPrefix vid)).filter fun row => isLabelOrProperty row.1 := ⟨_, rfl⟩
  have hrow : ∀ row ∈ rows, s.get .vertexData row.1 = some row.2 ∧
      (vertexDataKind row.1 = VertexDataKind.LABEL.byte → encodeVertexDataLabelPrefix vid <+: row.1) ∧
      (vertexDataKind row.1 ≠ VertexDataKind.LABEL.byte → encodeVertexDataPropPrefix vid <+: row.1) :=
    fun row hmem => h.propPrefix_of_kind (hrows ▸ hmem)
  have hmem : ∀ sec rest value, (sec = VertexDataKind.LABEL.byte ∨ sec = VertexDataKind.PROPERTY.byte) →
      s.get .vertexData (sectionKey vid sec rest) = some value →
      (sectionKey vid sec rest, value) ∈ rows := by
    intro sec rest value hsec hget
    rw [hrows]
    refine mem_filter.mpr ⟨(mem_prefixRecords _ _ _ _).mpr ⟨vertexPrefix_isPrefix_sectionKey.mpr rfl, hget⟩, ?_⟩
    simpa [isLabelOrProperty, vertexDataKind_sectionKey] using hsec
  have hsorted : rows.Pairwise fun a b => a.1 < b.1 := by
    rw [hrows]
    exact (SortedMap.sorted _).sublist filter_sublist
  obtain ⟨labels', f, hfold, hlabels, hkept, hread⟩ := foldlM_probeVertexRow rows labels (fun _ => none)
    (fun row hmem hno => (h.propRow (hrow row hmem).1 ((hrow row hmem).2.2 hno)).2)
    (hsorted.imp_of_mem fun {a b} ha hb hlt hnoA hnoB heq => ne_of_lt hlt (by
      rw [(h.propRow (hrow a ha).1 ((hrow a ha).2.2 hnoA)).1,
        (h.propRow (hrow b hb).1 ((hrow b hb).2.2 hnoB)).1, heq]))
    fun _ _ _ => rfl
  refine ⟨labels', ?_, fun l => ?_⟩
  · have hf : f = canonicalValue s vid := by
      refine eq_canonicalValue h (rows.filter fun row =>
        vertexDataKind row.1 ≠ VertexDataKind.LABEL.byte) ?_ ?_ ?_ ?_
      · intro row hmem
        obtain ⟨hmem, hno⟩ := mem_filter.mp hmem
        exact ⟨(hrow row hmem).1, (hrow row hmem).2.2 (by simpa using hno)⟩
      · intro cand bytes hget
        refine mem_filter.mpr ⟨hmem _ _ _ (inr rfl) hget, ?_⟩
        rw [encodeVertexDataPropKey, vertexDataKind_sectionKey]
        decide
      · intro c hc
        exact hkept c fun row hmem hno => hc row (mem_filter.mpr ⟨hmem, by simpa using hno⟩)
      · intro row hmem
        obtain ⟨hmem, hno⟩ := mem_filter.mp hmem
        exact hread row hmem (by simpa using hno)
    rw [← hrows, ← firstValues_none, hfold, hf]
  · rw [hlabels]
    refine or_congr Iff.rfl (and_congr Iff.rfl ⟨?_, fun hl => ?_⟩)
    · rintro ⟨row, hmem, hkind, rfl⟩
      obtain ⟨hget, hlabel, -⟩ := hrow row hmem
      rw [hasLabel, ← h.labelRow hget (hlabel hkind), hget]
      rfl
    · obtain ⟨value, hget⟩ := Option.isSome_iff_exists.mp hl
      refine ⟨_, hmem _ _ _ (inl rfl) hget, ?_, ?_⟩
      · exact vertexDataKind_sectionKey vid VertexDataKind.LABEL.byte (u16BE l)
      · exact decodeVertexDataLabelKey_encode vid l

end Fallback

/-! ### Coherent summaries -/

/-- The summary of a vertex, if any, says what its rows say. -/
def Coherent (s : Store) (vid : VertexId) : Prop :=
  ∀ bytes, s.get .vertexSummary (encodeVertexSummaryKey vid) = some bytes →
    ∃ summary, decodeVertexSummary bytes = some summary ∧
      INVALID_LABEL_ID ∉ summary.labels ∧
      (∀ l, l ∈ summary.labels ↔ hasLabel s vid l) ∧
      ∀ cand, match summaryEntry summary cand with
        | none => propRow s vid cand = none
        | some entry => entry.2 = [] ∨ propRow s vid cand = some entry.2

section Reads

variable {s : Store} {vid : VertexId} {candidates : List Candidate}

/-- On a coherent summary the candidates are answered as by the rows, or not at all. -/
theorem summaryValues_coherent (h : VertexRowsOk s) {summary : DecodedVertexSummary}
    (hsummary : ∀ cand, match summaryEntry summary cand with
      | none => propRow s vid cand = none
      | some entry => entry.2 = [] ∨ propRow s vid cand = some entry.2)
    (candidates : List Candidate) :
    summaryValues summary candidates = .ok none ∨
    summaryValues summary candidates = .ok (some (candidates.map (canonicalValue s vid))) := by
  induction candidates with
  | nil => exact inr rfl
  | cons cand rest ih =>
    have hcand := hsummary cand
    rw [summaryValues]
    cases hentry : summaryEntry summary cand with
    | none =>
      rw [hentry] at hcand
      have hvalue : canonicalValue s vid cand = none := by
        rw [canonicalValue, hcand]
        rfl
      rcases ih with hnone | hsome
      · exact inl (by simp only [hnone]; rfl)
      · refine inr ?_
        simp only [hsome, map_cons, hvalue]
        rfl
    | some entry =>
      obtain ⟨slot, bytes⟩ := entry
      rw [hentry] at hcand
      by_cases hempty : bytes = []
      · exact inl (by simp [hempty])
      · have hrow : propRow s vid cand = some bytes := hcand.resolve_left hempty
        obtain ⟨v, hv⟩ := h.decode_propRow hrow
        have hvalue : canonicalValue s vid cand = some v := by
          rw [canonicalValue, hrow, Option.bind_some, hv]
          rfl
        simp only [hempty, if_false, hv]
        rcases ih with hnone | hsome
        · exact inl (by simp only [hnone]; rfl)
        · refine inr ?_
          simp only [hsome, map_cons, hvalue]
          rfl

lemma exec_vertexSummary (s : Store) (vid : VertexId) : exec (vertexSummary vid) s =
      ((s.get .vertexSummary (encodeVertexSummaryKey vid)).bind decodeVertexSummary, s) := by
  simp [vertexSummary]

lemma exec_vertexLabels (h : VertexRowsOk s) (hcoherent : Coherent s vid) :
    (exec (vertexLabels vid) s).2 = s ∧ ∀ l, l ∈ (exec (vertexLabels vid) s).1 ↔ hasLabel s vid l := by
  simp only [vertexLabels, exec_bind, exec_vertexSummary]
  cases hrow : s.get .vertexSummary (encodeVertexSummaryKey vid) with
  | none =>
    simp only [Option.bind_none, exec_bind, exec_tableScan, exec_pure, mem_toFinset]
    exact ⟨trivial, mem_labelRows h⟩
  | some bytes =>
    obtain ⟨summary, hdecode, -, hlabels, -⟩ := hcoherent bytes hrow
    simp only [Option.bind_some, hdecode, exec_pure, mem_toFinset]
    exact ⟨trivial, hlabels⟩

lemma exec_coalesceProperties (h : VertexRowsOk s) (hcoherent : Coherent s vid) (candidates : List Candidate) :
    ∃ found, exec (coalesceProperties candidates vid) s = (.ok found, s) ∧
      (OncePresent s vid candidates → found = foundValues (candidates.map (canonicalValue s vid))) := by
  have hscan : exec (do
      let rows ← tableScan .session .vertexData (encodeVertexDataPropPrefix vid)
      let found := rows.foldlM (probeRow false candidates) (replicate candidates.length none)
      return found.map foundValues) s = ((.ok (foundValues (firstValues candidates (canonicalValue s vid))) :
          Except String (List PropertyValue)), s) := by
    simp only [exec_bind, exec_tableScan, exec_pure, scan_coalesceProperties h]
    rfl
  simp only [coalesceProperties, exec_bind, exec_vertexSummary]
  cases hrow : s.get .vertexSummary (encodeVertexSummaryKey vid) with
  | none =>
    simp only [Option.bind_none, Option.elim_none]
    exact ⟨_, hscan, OncePresent.foundValues_eq⟩
  | some bytes =>
    obtain ⟨summary, hdecode, -, -, hprops⟩ := hcoherent bytes hrow
    simp only [Option.bind_some, hdecode, Option.elim_some]
    rcases summaryValues_coherent h hprops candidates with hnone | hsome
    · rw [hnone]
      exact ⟨_, hscan, OncePresent.foundValues_eq⟩
    · rw [hsome]
      exact ⟨_, rfl, fun _ => rfl⟩

lemma exec_scanVertexData (h : VertexRowsOk s) (candidates : List Candidate) (vid : VertexId)
    (labels : Finset LabelId) :
    ∃ labels', exec (scanVertexData candidates vid labels) s =
        (.ok ⟨labels', foundValues (firstValues candidates (canonicalValue s vid))⟩, s) ∧
      ∀ l, l ∈ labels' ↔ l ∈ labels ∨ (l ≠ INVALID_LABEL_ID ∧ hasLabel s vid l) := by
  obtain ⟨labels', hfold, hlabels⟩ := scan_coalesceData h candidates vid labels
  refine ⟨labels', ?_, hlabels⟩
  simp only [scanVertexData, exec_bind, exec_tableScan, exec_pure]
  change (Except.map _ (foldlM (probeVertexRow candidates) _ (takeWhile
    (fun row => isLabelOrProperty row.1) _)), s) = _
  rw [hfold]
  rfl

lemma exec_coalesceData (h : VertexRowsOk s) (hcoherent : Coherent s vid) (candidates : List Candidate) :
    ∃ labels found, exec (coalesceData candidates vid) s = (.ok ⟨labels, found⟩, s) ∧
      (∀ l, l ∈ labels ↔ l ≠ INVALID_LABEL_ID ∧ hasLabel s vid l) ∧
      (OncePresent s vid candidates → found = foundValues (candidates.map (canonicalValue s vid))) := by
  simp only [coalesceData, exec_bind, exec_vertexSummary]
  cases hrow : s.get .vertexSummary (encodeVertexSummaryKey vid) with
  | none =>
    obtain ⟨labels, hscan, hlabels⟩ := exec_scanVertexData h candidates vid ∅
    exact ⟨labels, _, hscan, fun l => by rw [hlabels]; simp, OncePresent.foundValues_eq⟩
  | some bytes =>
    obtain ⟨summary, hdecode, hvalid, hlabels, hprops⟩ := hcoherent bytes hrow
    simp only [Option.bind_some, hdecode]
    have hsame : ∀ l, l ∈ summary.labels.toFinset ↔ l ≠ INVALID_LABEL_ID ∧ hasLabel s vid l := by
      intro l
      rw [mem_toFinset, ← hlabels]
      refine ⟨fun hl => ⟨?_, hl⟩, fun hl => hl.2⟩
      rintro rfl
      exact hvalid hl
    rcases summaryValues_coherent h hprops candidates with hnone | hsome
    · rw [hnone]
      obtain ⟨labels, hscan, hunion⟩ := exec_scanVertexData h candidates vid summary.labels.toFinset
      exact ⟨labels, _, hscan, fun l => by rw [hunion, hsame, or_self], OncePresent.foundValues_eq⟩
    · rw [hsome]
      exact ⟨_, _, rfl, hsame, fun _ => rfl⟩

end Reads

/-! ### Batches -/

lemma mem_uniqueVids {vids : List VertexId} {vid : VertexId} (h : vid ∈ vids) : vid ∈ uniqueVids vids := by
  have hfold : ∀ (vids unique : List VertexId), (vid ∈ unique ∨ vid ∈ vids) →
      vid ∈ vids.foldl (fun unique vid => if vid ∈ unique then unique else unique ++ [vid])
        unique := by
    intro vids
    induction vids with
    | nil => exact fun unique hmem => hmem.resolve_right (by simp)
    | cons v rest ih =>
      intro unique hmem
      refine ih _ ?_
      rcases hmem with hmem | hmem
      · refine inl ?_
        dsimp only
        split
        · exact hmem
        · exact mem_append_left _ hmem
      · rcases mem_cons.mp hmem with rfl | hmem
        · refine inl ?_
          dsimp only
          split
          · assumption
          · exact mem_append_right _ (mem_singleton.mpr rfl)
        · exact inr hmem
  exact hfold vids [] (inr h)

/-- Reading each distinct vertex once gives what reading every one gives. -/
theorem exec_getVertexLabelsBatch {s : Store} (hread : ∀ vid, (exec (vertexLabels vid) s).2 = s)
    (vids : List VertexId) :
    (exec (getVertexLabelsBatch vids) s).1 = vids.map fun vid => (exec (vertexLabels vid) s).1 := by
  simp only [getVertexLabelsBatch, exec_bind, exec_mapEach s hread, exec_pure]
  refine map_congr_left fun vid hvid => ?_
  have hlt := idxOf_lt_length_of_mem (mem_uniqueVids hvid)
  rw [getD_eq_getElem?_getD, List.getElem?_map, List.getElem?_eq_getElem hlt, getElem_idxOf hlt]
  rfl

/-- All three readers answer as if `vertex_summary` were empty. -/
structure ReadsCanonical (s : Store) (vids : List VertexId) (candidates : List Candidate) : Prop where
  labels : (exec (getVertexLabelsBatch vids) s).1 =
    (exec (getVertexLabelsBatch vids) (s.clear .vertexSummary)).1
  properties : (exec (getVertexCoalescePropertiesBatch vids candidates) s).1 =
    (exec (getVertexCoalescePropertiesBatch vids candidates) (s.clear .vertexSummary)).1
  data : (exec (getVertexCoalesceDataBatch vids candidates) s).1 =
    (exec (getVertexCoalesceDataBatch vids candidates) (s.clear .vertexSummary)).1

lemma readsCanonical_of_coherent {s : Store} (h : VertexRowsOk s)
    (hcoherent : ∀ vid, Coherent s vid) {vids : List VertexId} {candidates : List Candidate}
    (honce : ∀ vid ∈ vids, OncePresent s vid candidates) : ReadsCanonical s vids candidates := by
  have hdata : ∀ key, (s.clear .vertexSummary).get .vertexData key = s.get .vertexData key :=
    fun key => by rw [Store.clear_get, if_neg (by simp)]
  have hrows : VertexRowsOk (s.clear .vertexSummary) := fun key value hget =>
    h key value (by rw [← hdata, hget])
  have hclear : ∀ vid, Coherent (s.clear .vertexSummary) vid := by
    intro vid bytes hget
    rw [Store.clear_get, if_pos rfl] at hget
    exact absurd hget (by simp)
  have hvalue : canonicalValue (s.clear .vertexSummary) = canonicalValue s := by
    funext vid cand
    rw [canonicalValue, canonicalValue, propRow, propRow, hdata]
  have hlabel : ∀ vid l, hasLabel (s.clear .vertexSummary) vid l ↔ hasLabel s vid l := by
    intro vid l
    rw [hasLabel, hasLabel, hdata]
  have hcleared : ∀ vid ∈ vids, OncePresent (s.clear .vertexSummary) vid candidates := by
    intro vid hvid
    rw [OncePresent, hvalue]
    exact honce vid hvid
  refine ⟨?_, ?_, ?_⟩
  · rw [exec_getVertexLabelsBatch fun vid => (exec_vertexLabels h (hcoherent vid)).1,
      exec_getVertexLabelsBatch fun vid => (exec_vertexLabels hrows (hclear vid)).1]
    refine map_congr_left fun vid _ => Finset.ext fun l => ?_
    rw [(exec_vertexLabels h (hcoherent vid)).2, (exec_vertexLabels hrows (hclear vid)).2, hlabel]
  · simp only [getVertexCoalescePropertiesBatch, exec_ite]
    split
    · rfl
    · have hold : ∀ vid, (exec (coalesceProperties candidates vid) s).2 = s := by
        intro vid
        obtain ⟨found, hexec, -⟩ := exec_coalesceProperties h (hcoherent vid) candidates
        rw [hexec]
      have hnew : ∀ vid, (exec (coalesceProperties candidates vid) (s.clear .vertexSummary)).2 =
          s.clear .vertexSummary := by
        intro vid
        obtain ⟨found, hexec, -⟩ := exec_coalesceProperties hrows (hclear vid) candidates
        rw [hexec]
      simp only [exec_bind, exec_mapEach _ hold, exec_mapEach _ hnew, exec_pure]
      congr 1
      refine map_congr_left fun vid hvid => ?_
      obtain ⟨found, hexec, hfound⟩ := exec_coalesceProperties h (hcoherent vid) candidates
      obtain ⟨found', hexec', hfound'⟩ := exec_coalesceProperties hrows (hclear vid) candidates
      rw [hexec, hexec', hfound (honce vid hvid), hfound' (hcleared vid hvid), hvalue]
  · have hold : ∀ vid, (exec (coalesceData candidates vid) s).2 = s := by
      intro vid
      obtain ⟨labels, found, hexec, -⟩ := exec_coalesceData h (hcoherent vid) candidates
      rw [hexec]
    have hnew : ∀ vid, (exec (coalesceData candidates vid) (s.clear .vertexSummary)).2 =
        s.clear .vertexSummary := by
      intro vid
      obtain ⟨labels, found, hexec, -⟩ := exec_coalesceData hrows (hclear vid) candidates
      rw [hexec]
    simp only [getVertexCoalesceDataBatch, exec_bind, exec_mapEach _ hold, exec_mapEach _ hnew, exec_pure]
    congr 1
    refine map_congr_left fun vid hvid => ?_
    obtain ⟨labels, found, hexec, hlabels, hfound⟩ := exec_coalesceData h (hcoherent vid) candidates
    obtain ⟨labels', found', hexec', hlabels', hfound'⟩ := exec_coalesceData hrows (hclear vid) candidates
    have heq : labels = labels' := Finset.ext fun l => by rw [hlabels, hlabels', hlabel]
    rw [hexec, hexec', heq, hfound (honce vid hvid), hfound' (hcleared vid hvid), hvalue]

end Eugraph.DataStore

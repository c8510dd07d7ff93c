import Eugraph.Query.RuntimeValue

/-!
# Runtime values as properties

`query/physical_plan/operator/property_value_convert.hpp`: what `CREATE`, `SET` and `MERGE`
store for a value, and what a read of the slot gives back.

Scalars, temporals and bytes are stored as they are.  A list is unrolled into the vector of
its first element's alternative when every element has that alternative; a list that starts
with a map is refused.  Every other value falls through to the null property.
-/

namespace Eugraph.Dataset

open Lib List

inductive QueryErrorKind
  | Syntax
  | Type
  | Argument
  | Arithmetic
  | ExecutionFailed
  deriving DecidableEq

structure QueryException where
  kind : QueryErrorKind
  message : String
  deriving DecidableEq

def listOfMaps : QueryException :=
  ⟨.Type, "InvalidPropertyType: list of maps is not supported as a property value"⟩

/-- `propertyValueToValue`. -/
def propertyValueToValue : PropertyValue → Value
  | .null => .null
  | .bool b => .bool b
  | .int64 i => .int64 i
  | .double bits => .double bits
  | .string s => .string s
  | .dateTime tv => .dateTime tv
  | .time tv => .time tv
  | .duration dv => .duration dv
  | .bytes data => .bytes data
  | .int64Array xs => .list (xs.map .int64)
  | .doubleArray xs => .list (xs.map .double)
  | .stringArray xs => .list (xs.map .string)
  | .dateTimeArray xs => .list (xs.map .dateTime)
  | .timeArray xs => .list (xs.map .time)
  | .durationArray xs => .list (xs.map .duration)

/-! ### `valueToPropertyValue` -/

def int64? : Value → Option Int64
  | .int64 i => some i
  | _ => none

def double? : Value → Option DoubleBits
  | .double bits => some bits
  | _ => none

def string? : Value → Option Bytes
  | .string s => some s
  | _ => none

def dateTime? : Value → Option DateTimeValue
  | .dateTime tv => some tv
  | _ => none

def time? : Value → Option TimeValue
  | .time tv => some tv
  | _ => none

def duration? : Value → Option DurationValue
  | .duration dv => some dv
  | _ => none

/-- The elements of one alternative as a vector, when no element has been left out. -/
def unroll {α : Type} (alternative : Value → Option α) (vector : List α → PropertyValue)
    (elements : List Value) : PropertyValue :=
  let arr := elements.filterMap alternative
  if arr.length = elements.length then vector arr else .null

def listToPropertyValue : List Value → Except QueryException PropertyValue
  | [] => .ok .null
  | first :: rest =>
    match first with
    | .int64 _ => .ok (unroll int64? .int64Array (first :: rest))
    | .double _ => .ok (unroll double? .doubleArray (first :: rest))
    | .string _ => .ok (unroll string? .stringArray (first :: rest))
    | .dateTime _ => .ok (unroll dateTime? .dateTimeArray (first :: rest))
    | .time _ => .ok (unroll time? .timeArray (first :: rest))
    | .duration _ => .ok (unroll duration? .durationArray (first :: rest))
    | .map _ => .error listOfMaps
    | _ => .ok .null

/-- `valueToPropertyValue`. -/
def valueToPropertyValue : Value → Except QueryException PropertyValue
  | .bool b => .ok (.bool b)
  | .int64 i => .ok (.int64 i)
  | .double bits => .ok (.double bits)
  | .string s => .ok (.string s)
  | .dateTime tv => .ok (.dateTime tv)
  | .time tv => .ok (.time tv)
  | .duration dv => .ok (.duration dv)
  | .bytes data => .ok (.bytes data)
  | .list elements => listToPropertyValue elements
  | _ => .ok .null

/-! ### Writing and reading a slot -/

/-- `props[pid] = valueToPropertyValue(v)` of the write operators: the vector grows up to the
slot, a null value leaves it as it is. -/
def assignProp (props : Properties) (pid : PropId) (v : Value) :
    Except QueryException Properties :=
  if isNull v then .ok props
  else do
    let grown := props ++ replicate (pid.toNat + 1 - props.length) none
    let pv ← valueToPropertyValue v
    return grown.set pid.toNat (some pv)

/-- A read of the slot; one that is not there reads as null. -/
def readProp (props : Properties) (pid : PropId) : Value :=
  match props[pid.toNat]? with
  | some (some pv) => propertyValueToValue pv
  | _ => .null

/-- The write of the value fails, or every slot it is written to reads as the value. -/
def WriteKept (v : Value) : Prop :=
  ∀ (props : Properties) (pid : PropId),
    match assignProp props pid v with
    | .error _ => True
    | .ok props' => readProp props' pid = v

/-! ### The values that survive -/

/-- Two elements of one alternative, of those a vector can hold. -/
def sameVector : Value → Value → Bool
  | .int64 _, .int64 _ => true
  | .double _, .double _ => true
  | .string _, .string _ => true
  | .dateTime _, .dateTime _ => true
  | .time _, .time _ => true
  | .duration _, .duration _ => true
  | _, _ => false

/-- A list that starts with a map. -/
def refused : Value → Bool
  | .list (.map _ :: _) => true
  | _ => false

/-- A scalar, a temporal, bytes, or a non-empty list of numbers of one kind, of strings or
of temporals of one kind. -/
def storable : Value → Bool
  | .bool _ | .int64 _ | .double _ | .string _ | .dateTime _ | .time _ | .duration _ | .bytes _ =>
    true
  | .list (first :: rest) => (first :: rest).all (sameVector first)
  | _ => false

section Unroll

variable {α : Type} {alternative : Value → Option α} {inject : α → Value}
  {vector : List α → PropertyValue}

lemma map_filterMap_of_all (hinject : ∀ v a, alternative v = some a → inject a = v)
    {elements : List Value} (hall : ∀ v ∈ elements, (alternative v).isSome) :
    (elements.filterMap alternative).map inject = elements := by
  induction elements with
  | nil => rfl
  | cons v rest ih =>
    obtain ⟨a, ha⟩ := Option.isSome_iff_exists.mp (hall v mem_cons_self)
    rw [filterMap_cons_some ha, map_cons, hinject v a ha, ih fun w hw => hall w (mem_cons_of_mem v hw)]

/-- An unrolled list is read back just when every element has the alternative. -/
theorem read_unroll_iff (hinject : ∀ v a, alternative v = some a → inject a = v)
    (hvector : ∀ xs, propertyValueToValue (vector xs) = .list (xs.map inject))
    (elements : List Value) :
    propertyValueToValue (unroll alternative vector elements) = .list elements ↔
      ∀ v ∈ elements, (alternative v).isSome := by
  unfold unroll
  simp only [filterMap_length_eq_length]
  constructor
  · intro h
    by_contra hall
    rw [if_neg hall] at h
    cases h
  · intro hall
    rw [if_pos hall, hvector, map_filterMap_of_all hinject hall]

end Unroll

lemma read_listToPropertyValue_iff (elements : List Value) :
    (∀ pv, listToPropertyValue elements = .ok pv → propertyValueToValue pv = .list elements) ↔
      (refused (.list elements) || storable (.list elements)) = true := by
  cases elements with
  | nil =>
    constructor
    · intro h
      cases h .null rfl
    · intro h
      simp [refused, storable] at h
  | cons first rest =>
    have hread {pv : PropertyValue} (hpv : listToPropertyValue (first :: rest) = .ok pv) :
        (∀ pv', listToPropertyValue (first :: rest) = .ok pv' → propertyValueToValue pv' = .list (first :: rest)) ↔
          propertyValueToValue pv = .list (first :: rest) := by
      rw [hpv]
      exact ⟨fun h => h pv rfl, fun h pv' hpv' => by cases hpv'; exact h⟩
    have hvector {α : Type} {alternative : Value → Option α} (inject : α → Value) {vector : List α → PropertyValue}
        (hpv : listToPropertyValue (first :: rest) = .ok (unroll alternative vector (first :: rest)))
        (hinject : ∀ v a, alternative v = some a → inject a = v)
        (hvector : ∀ xs, propertyValueToValue (vector xs) = .list (xs.map inject))
        (hsame : ∀ v, sameVector first v = (alternative v).isSome)
        (hrefused : refused (.list (first :: rest)) = false) :
        (∀ pv, listToPropertyValue (first :: rest) = .ok pv → propertyValueToValue pv = .list (first :: rest)) ↔
          (refused (.list (first :: rest)) || storable (.list (first :: rest))) = true := by
      rw [hread hpv, read_unroll_iff hinject hvector, hrefused, Bool.false_or, storable, all_eq_true]
      simp only [hsame]
    cases first with
    | int64 i =>
      exact hvector .int64 rfl (fun v a h => by cases v <;> cases h; rfl) (fun _ => rfl)
        (fun v => by cases v <;> rfl) rfl
    | double bits =>
      exact hvector .double rfl (fun v a h => by cases v <;> cases h; rfl) (fun _ => rfl)
        (fun v => by cases v <;> rfl) rfl
    | string s =>
      exact hvector .string rfl (fun v a h => by cases v <;> cases h; rfl) (fun _ => rfl)
        (fun v => by cases v <;> rfl) rfl
    | dateTime tv =>
      exact hvector .dateTime rfl (fun v a h => by cases v <;> cases h; rfl) (fun _ => rfl)
        (fun v => by cases v <;> rfl) rfl
    | time tv =>
      exact hvector .time rfl (fun v a h => by cases v <;> cases h; rfl) (fun _ => rfl)
        (fun v => by cases v <;> rfl) rfl
    | duration dv =>
      exact hvector .duration rfl (fun v a h => by cases v <;> cases h; rfl) (fun _ => rfl)
        (fun v => by cases v <;> rfl) rfl
    | map entries => exact ⟨fun _ => rfl, fun _ pv hpv => by cases hpv⟩
    | _ =>
      rw [hread rfl]
      constructor
      · intro h
        cases h
      · intro h
        simp [refused, storable, sameVector] at h

lemma read_valueToPropertyValue_iff {v : Value} (hv : isNull v = false) :
    (∀ pv, valueToPropertyValue v = .ok pv → propertyValueToValue pv = v) ↔ (refused v || storable v) = true := by
  cases v with
  | null => cases hv
  | list elements => exact read_listToPropertyValue_iff elements
  | bool | int64 | double | string | dateTime | time | duration | bytes =>
    exact ⟨fun _ => rfl, fun _ pv hpv => by cases hpv; rfl⟩
  | _ =>
    constructor
    · intro h
      cases h .null rfl
    · intro h
      simp [refused, storable] at h

/-! ### Writes -/

lemma readProp_assign (props : Properties) (pid : PropId) (pv : PropertyValue) :
    readProp ((props ++ replicate (pid.toNat + 1 - props.length) none).set pid.toNat (some pv))
      pid = propertyValueToValue pv := by
  have hlt : pid.toNat < (props ++ replicate (pid.toNat + 1 - props.length) none).length := by
    rw [length_append, length_replicate]
    omega
  rw [readProp, getElem?_set_self hlt]

/-- A value that is not null is lost without an error just when it is neither refused nor
storable. -/
theorem writeKept_iff {v : Value} (hv : isNull v = false) : WriteKept v ↔ (refused v || storable v) = true := by
  rw [← read_valueToPropertyValue_iff hv]
  have hassign (props : Properties) (pid : PropId) : assignProp props pid v =
      (valueToPropertyValue v).map fun pv =>
        (props ++ replicate (pid.toNat + 1 - props.length) none).set pid.toNat (some pv) := by
    rw [assignProp, hv, if_neg Bool.false_ne_true]
    rfl
  constructor
  · intro h pv hpv
    have hslot := h [] 0
    rw [hassign, hpv] at hslot
    exact (readProp_assign [] 0 pv).symm.trans hslot
  · intro h props pid
    rw [hassign]
    cases hpv : valueToPropertyValue v with
    | error e => trivial
    | ok pv => exact (readProp_assign props pid pv).trans (h pv hpv)

theorem writeKept_integers : WriteKept (.list [.int64 1, .int64 2]) :=
  (writeKept_iff (v := .list [.int64 1, .int64 2]) rfl).mpr rfl

/-- The empty list is stored as null. -/
theorem emptyList_lost : ¬ ∀ v, isNull v = false → WriteKept v := fun h => by
  cases h (.list []) rfl [] 0

end Eugraph.Dataset

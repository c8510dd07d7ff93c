import Eugraph.Storage.IndexMaintenance

/-!
# Labels of the metadata store

The part of `GraphSchema` the write operators read and extend: label definitions, their
names, and the three operations of `AsyncGraphMetaStore` that register a label or a
property.  A new property gets the number of properties its label has.
-/

namespace Eugraph.Meta

open DataStore

/-- The internal label of vertices without labels. -/
def kAnonLabelName : String := "__anon__"

structure GraphSchema where
  labels : LabelDefs
  labelNameToId : String → Option LabelId
  nextLabelId : LabelId

namespace GraphSchema

/-- The error when an existing label is declared with another number of properties. -/
def propertyCountMismatch (name : String) (count : Nat) : String :=
  "Label '" ++ name ++ "' already exists with " ++ toString count ++
    " properties (requested 0); pass merge_properties to add properties incrementally"

/-- `createLabel(name, {})`: an existing label is returned if it has no properties. -/
def createLabel (schema : GraphSchema) (name : String) : Except String (LabelId × GraphSchema) :=
  match schema.labelNameToId name with
  | some id =>
    match schema.labels id with
    | none => .error "map::at"
    | some labelDef =>
      if labelDef.properties.length ≠ 0 then
        .error (propertyCountMismatch name labelDef.properties.length)
      else .ok (id, schema)
  | none =>
    .ok (schema.nextLabelId, {
      labels := Function.update schema.labels schema.nextLabelId (some ⟨name, [], []⟩)
      labelNameToId := Function.update schema.labelNameToId name (some schema.nextLabelId)
      nextLabelId := schema.nextLabelId + 1 })

/-- The label with one more property. -/
def appendProperty (labelDef : LabelDef) (propName : String) : LabelDef :=
  { labelDef with
    properties := labelDef.properties ++ [⟨UInt16.ofNat labelDef.properties.length, propName⟩] }

/-- `addVertexLabelProperties` for one property; a known name is skipped. -/
def addVertexLabelProperty (schema : GraphSchema) (name propName : String) : GraphSchema :=
  match schema.labelNameToId name with
  | none => schema
  | some id =>
    match schema.labels id with
    | none => schema
    | some labelDef =>
      if labelDef.properties.any fun pd => pd.name = propName then schema
      else { schema with
        labels := Function.update schema.labels id (some (appendProperty labelDef propName)) }

def getOrCreateAnonPropId (schema : GraphSchema) (propName : String) : PropId × GraphSchema :=
  match schema.labelNameToId kAnonLabelName with
  | none => (0, schema)
  | some id =>
    match schema.labels id with
    | none => (0, schema)
    | some labelDef =>
      match labelDef.properties.find? fun pd => pd.name = propName with
      | some pd => (pd.id, schema)
      | none =>
        (UInt16.ofNat labelDef.properties.length, { schema with
          labels := Function.update schema.labels id
            (some (appendProperty labelDef propName)) })

end GraphSchema

end Eugraph.Meta

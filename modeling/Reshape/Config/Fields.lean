import Reshape.Config

/-! # The fields of a configuration

A configuration is read and written field by field, in the order of the declaration. Values of any
format will do that knows records, lists of texts, floats, natural numbers and truth values. -/

namespace Reshape

/-- How the values of a format are read. -/
structure FieldReader (α : Type) where
  /-- The fields of a record by their names; a missing field has no value. -/
  fields? : List String → α → Option (List (Option α))
  strings? : α → Option (List String)
  float? : α → Option Float
  nat? : α → Option Nat
  bool? : α → Option Bool

namespace FieldReader

variable {α : Type}

/-- The value of a field, or a default if the field is missing. -/
def orDefault {β : Type} (read : α → Option β) (default : β) : Option α → Option β
  | none => some default
  | some value => read value

end FieldReader

namespace Thresholds

/-- The names of the fields. -/
def fieldNames : List String :=
  ["operation_match", "class_match", "attribute_match", "rename_body", "extract_overlap",
    "merge_fraction", "merge_coverage", "split_coverage", "dice", "min_height"]

/-- Read thresholds; a missing field has its default. -/
def read? {α : Type} (reader : FieldReader α) (value : α) : Option Thresholds := do
  let base : Thresholds := {}
  let ratio := FieldReader.orDefault reader.float?
  match ← reader.fields? fieldNames value with
  | [operationMatch, classMatch, attributeMatch, renameBody, extractOverlap, mergeFraction,
      mergeCoverage, splitCoverage, dice, minHeight] => do
    return {
      operationMatch := ← ratio base.operationMatch operationMatch
      classMatch := ← ratio base.classMatch classMatch
      attributeMatch := ← ratio base.attributeMatch attributeMatch
      renameBody := ← ratio base.renameBody renameBody
      extractOverlap := ← ratio base.extractOverlap extractOverlap
      mergeFraction := ← ratio base.mergeFraction mergeFraction
      mergeCoverage := ← ratio base.mergeCoverage mergeCoverage
      splitCoverage := ← ratio base.splitCoverage splitCoverage
      dice := ← ratio base.dice dice
      minHeight := ← FieldReader.orDefault reader.nat? base.minHeight minHeight }
  | _ => none

/-- The ratios among the thresholds, in the order of the fields. -/
def ratios (thresholds : Thresholds) : List Float :=
  [thresholds.operationMatch, thresholds.classMatch, thresholds.attributeMatch,
    thresholds.renameBody, thresholds.extractOverlap, thresholds.mergeFraction,
    thresholds.mergeCoverage, thresholds.splitCoverage, thresholds.dice]

/-- The fields as values of a format. -/
def fields {α : Type} (ofFloat : Float → α) (ofNat : Nat → α) (thresholds : Thresholds) :
    List (String × α) :=
  fieldNames.zip (thresholds.ratios.map ofFloat ++ [ofNat thresholds.minHeight])

end Thresholds

namespace Config

/-- The names of the fields. -/
def fieldNames : List String := ["extensions", "exclude_patterns", "thresholds", "parallel"]

/-- Read a configuration; a missing field has its default. -/
def readFields? {α : Type} (reader : FieldReader α) (value : α) : Option Config := do
  let base : Config := {}
  match ← reader.fields? fieldNames value with
  | [extensions, excludePatterns, thresholds, parallel] => do
    return {
      extensions := ← FieldReader.orDefault reader.strings? base.extensions extensions
      excludePatterns :=
        ← FieldReader.orDefault reader.strings? base.excludePatterns excludePatterns
      thresholds := ← FieldReader.orDefault (Thresholds.read? reader) base.thresholds thresholds
      parallel := ← FieldReader.orDefault reader.bool? base.parallel parallel }
  | _ => none

end Config

end Reshape

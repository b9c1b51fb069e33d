/-!
# Tokens

The pieces of a YAML text: scalars, the marks of flow style, and the marks of block style, of which
the starts and ends of collections follow from the indentation.
-/

namespace HttpDispatch.Yaml

inductive Token where
  | version (major minor : Nat)
  | handle (name : String)
  | documentStart
  | documentEnd
  | sequenceStart
  | mappingStart
  | blockEnd
  | flowSequenceStart
  | flowSequenceEnd
  | flowMappingStart
  | flowMappingEnd
  /-- The mark of an item in block style. -/
  | entry
  | comma
  | key
  | value
  | alias (name : String)
  | anchor (name : String)
  | tag (handle : String)
  | scalar (text : String) (plain : Bool)
deriving DecidableEq, Repr

end HttpDispatch.Yaml

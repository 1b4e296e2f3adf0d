import SqlStatements.Text.Basic

namespace SqlStatements.Yaml

/-- What a document is made of. Blocks show by their indentation alone, so their starts
and ends are tokens without text, and so is the start of a key. -/
inductive Token where
  | scalar (isPlain : Bool) (text : Text)
  | anchor (name : Text)
  | reference (name : Text)
  | tag (name : Text)
  | blockMapping
  | blockSequence
  | blockEnd
  | flowMapping
  | flowMappingEnd
  | flowSequence
  | flowSequenceEnd
  | comma
  | item
  | key
  | value
  | documentStart
  | documentEnd
  | streamEnd
deriving DecidableEq

end SqlStatements.Yaml

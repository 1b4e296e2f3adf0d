import SqlStatements.Text.Quoted

namespace SqlStatements

inductive Event.Level where
  | trace
  | debug
  | info
  | warn
deriving DecidableEq

def Event.Level.name : Event.Level → String
  | .trace => "TRACE"
  | .debug => "DEBUG"
  | .info => "INFO"
  | .warn => "WARN"

inductive Event where
  | blockEntered (offset : Nat)
  | blockNested (depth : Nat)
  | blockClosed (depth : Nat)
  | blocksLeftOpen (depth : Nat)
  | scriptSplit (resource separator : Text) (statements : Nat)
  | separatorAbsent (separator : Text)
  | lineBreaksInstead (script separator : Text)
  | splitStarted (script : Text)
  | statementsWritten (statements : Nat) (script : Text)
deriving DecidableEq

namespace Event

def level : Event → Level
  | .blockEntered _ => .trace
  | .blockNested _ => .trace
  | .blockClosed _ => .trace
  | .blocksLeftOpen _ => .warn
  | .scriptSplit _ _ _ => .debug
  | .separatorAbsent _ => .debug
  | .lineBreaksInstead _ _ => .info
  | .splitStarted _ => .info
  | .statementsWritten _ _ => .info

def message : Event → String
  | .blockEntered offset => s!"entering compound statement at offset {offset}"
  | .blockNested depth => s!"nested block, depth {depth}"
  | .blockClosed depth => s!"block closed, depth {depth}"
  | .blocksLeftOpen depth =>
    s!"{depth} open BEGIN block(s) at end of input; " ++
      "flushing the remaining text as one statement"
  | .scriptSplit resource separator statements =>
    let resource := String.ofList resource
    let separator := String.ofList separator.quoted
    s!"Split script {resource} with separator {separator} into {statements} statement(s)"
  | .separatorAbsent separator =>
    let separator := String.ofList separator.quoted
    s!"Separator {separator} not found in script, falling back to line breaks"
  | .lineBreaksInstead script separator =>
    let script := String.ofList script
    let separator := String.ofList separator.quoted
    s!"{script} does not use {separator}, splitting on line breaks"
  | .splitStarted script => "Splitting script " ++ String.ofList script
  | .statementsWritten statements script =>
    s!"Wrote {statements} statement(s) from " ++ String.ofList script

end Event

end SqlStatements

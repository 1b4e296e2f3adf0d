import SqlStatements.Command.Options
import SqlStatements.Command.Report

namespace SqlStatements.Command

inductive Action where
  | split
  | tokens
deriving DecidableEq

def Action.ofName? (name : Text) : Option Action :=
  if name = "split".toList then some .split
  else if name = "tokens".toList then some .tokens
  else none

structure Request where
  action : Action
  path : Text
  format : Format
  options : Options
deriving DecidableEq

inductive Invocation where
  | run (request : Request)
  | version
  | usage
deriving DecidableEq

/-- What an argument can give. -/
inductive Slot where
  | settingsFile
  | separator
  | lineComment
  | blockOpen
  | blockClose
  | autoSeparator
  | format
  | path
deriving DecidableEq

namespace Slot

def takesValue (slot : Slot) : Bool := slot ≠ .autoSeparator

/-- A path must not be empty, and a format must have a known name. -/
def accepts (slot : Slot) (value : Text) : Bool :=
  match slot with
  | .settingsFile => !value.isEmpty
  | .path => !value.isEmpty
  | .format => (Format.ofName? value).isSome
  | _ => true

/-- The slot of an option that has two dashes. Only a command has a format. -/
def ofName? (inCommand : Bool) (name : Text) : Option Slot :=
  if name = "config".toList then some .settingsFile
  else if name = "separator".toList then some .separator
  else if name = "comment-prefix".toList then some .lineComment
  else if name = "block-comment-start".toList then some .blockOpen
  else if name = "block-comment-end".toList then some .blockClose
  else if name = "auto-separator".toList then some .autoSeparator
  else if inCommand ∧ name = "format".toList then some .format
  else none

def ofLetter? (inCommand : Bool) (letter : Char) : Option Slot :=
  if letter = 'c' then some .settingsFile
  else if letter = 's' then some .separator
  else if inCommand ∧ letter = 'f' then some .format
  else none

end Slot

inductive Argument where
  | option (slot : Slot) (value : Option Text)
  | plain (text : Text)
  | endOfOptions
  | version
  | unknown

namespace Argument

/-- An option with two dashes, which may have its value after an equals sign. -/
def ofLong (inCommand : Bool) (t : Text) : Argument :=
  let name := t.takeWhile (· != '=')
  let value := (t.dropWhile (· != '=')).tail?
  if !inCommand ∧ name = "version".toList ∧ value.isNone then .version
  else
    match Slot.ofName? inCommand name with
    | some slot => .option slot value
    | none => .unknown

def ofShort (inCommand : Bool) (letter : Char) (rest : Text) : Argument :=
  if !inCommand ∧ letter = 'V' then .version
  else
    match Slot.ofLetter? inCommand letter with
    | some slot =>
      match rest with
      | [] => .option slot none
      | c :: value => .option slot (some (if c = '=' then value else rest))
    | none => .unknown

def of (inCommand : Bool) (t : Text) : Argument :=
  match t with
  | ['-', '-'] => .endOfOptions
  | '-' :: '-' :: rest => ofLong inCommand rest
  | '-' :: letter :: rest => ofShort inCommand letter rest
  | t => .plain t

/-- The argument can be the value of the option before it. -/
def isValue (t : Text) : Bool := t.head? ≠ some '-' || t.length == 1

end Argument

/-- The slots that are filled, and the option that waits for its value. -/
structure Reading where
  given : List (Slot × Text)
  waiting : Option Slot
deriving DecidableEq

namespace Reading

def empty : Reading := ⟨[], none⟩

def value? (r : Reading) (slot : Slot) : Option Text :=
  (r.given.find? fun entry => entry.1 = slot).map Prod.snd

/-- Fills a slot with a fitting value. A slot can be filled once. -/
def fill? (r : Reading) (slot : Slot) (value : Text) : Option Reading :=
  if (r.value? slot).isSome ∨ !slot.accepts value then none
  else some ⟨r.given ++ [(slot, value)], none⟩

def await? (r : Reading) (slot : Slot) (value : Text) : Option Reading :=
  if Argument.isValue value then r.fill? slot value else none

def option? (r : Reading) (slot : Slot) (value : Option Text) : Option Reading :=
  match value with
  | some value => if slot.takesValue then r.fill? slot value else none
  | none => if slot.takesValue then some { r with waiting := some slot } else r.fill? slot []

/-- Reads the arguments of a command. After two dashes no argument is an option. -/
def command? (r : Reading) (options : Bool) : List Text → Option Reading
  | [] => if r.waiting.isNone then some r else none
  | arg :: rest =>
    match r.waiting with
    | some slot =>
      match r.await? slot arg with
      | some r => command? r options rest
      | none => none
    | none =>
      let step :=
        if options then
          match Argument.of true arg with
          | .option slot value => (r.option? slot value).map ((·, true))
          | .plain path => (r.fill? .path path).map ((·, true))
          | .endOfOptions => some (r, false)
          | .version => none
          | .unknown => none
        else (r.fill? .path arg).map ((·, false))
      match step with
      | some (r, options) => command? r options rest
      | none => none

/-- The request of an action, with the slots filled before its name and after it. What
comes later counts, and the environment only where the arguments say nothing. -/
def request? (outer inner : Reading) (environment : Option Text) (action : Action) :
    Option Request := do
  let value? (slot : Slot) := inner.value? slot <|> outer.value? slot
  let path ← inner.value? .path
  return {
    action, path
    format := ((inner.value? .format).bind Format.ofName?).getD .text
    options := {
      settingsFile := value? .settingsFile
      separator := value? .separator <|> environment
      lineComment := value? .lineComment
      blockOpen := value? .blockOpen
      blockClose := value? .blockClose
      autoSeparator := (value? .autoSeparator).isSome } }

end Reading

/-- Reads the arguments up to the name of the action, and then its own. -/
def Invocation.read (r : Reading) (environment : Option Text) : List Text → Invocation
  | [] => .usage
  | arg :: rest =>
    match r.waiting with
    | some slot =>
      match r.await? slot arg with
      | some r => read r environment rest
      | none => .usage
    | none =>
      match Argument.of false arg with
      | .option slot value =>
        match r.option? slot value with
        | some r => read r environment rest
        | none => .usage
      | .plain name =>
        match Action.ofName? name with
        | none => .usage
        | some action =>
          match Reading.empty.command? true rest with
          | none => .usage
          | some inner => ((r.request? inner environment action).map .run).getD .usage
      | .version => .version
      | .endOfOptions => .usage
      | .unknown => .usage

def Invocation.ofArguments (args : List Text) (environment : Option Text) : Invocation :=
  .read .empty environment args

def Request.paths (r : Request) : List Text := r.path :: r.options.settingsFile.toList

end SqlStatements.Command

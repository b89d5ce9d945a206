import Clausal.Text.Integer
import Clausal.Text.Quoted

/-!
Command lines with options and one operand. Long options may be shortened as long as they stay
unique, and take a value from the next argument or after an equals sign. Two hyphens end the
options. Every argument is classified before any is acted on, so an ambiguous option is reported
whatever stands before it; after that the arguments are acted on from left to right.
-/
namespace Clausal.CommandLine

/-- What an option takes. -/
inductive ValueKind where
  | anyText
  | oneOf (choices : List String)
  | integer

inductive OptionKind where
  | help
  | flag
  | value (kind : ValueKind)

/-- An option has a long name and, if it takes no value, possibly one of a single letter. -/
structure OptionSpec where
  long : String
  short : Option Char := none
  kind : OptionKind

/-- What an option is set to. Two hyphens behind an equals sign are dropped like those that end the
options, which leaves the option set to nothing. -/
inductive OptionValue where
  | given (text : Text)
  | nothing

/-- The texts are those that help and errors show. -/
structure Syntax where
  program : String
  usage : String
  description : String
  operand : String
  options : List OptionSpec

/-- What a command line gives: the operand, the flags that are set, and the values of options, the
last one given first. -/
structure Arguments where
  operand : Text
  flags : List String
  values : List (String × OptionValue)

namespace Arguments

def has (a : Arguments) (flag : String) : Bool := a.flags.contains flag

def value? (a : Arguments) (option : String) : Option OptionValue := a.values.lookup option

end Arguments

inductive ParseResult where
  | help
  | error (message : Text)
  | given (arguments : Arguments)

namespace OptionSpec

/-- The name under which messages mention the option. -/
def displayName (o : OptionSpec) : String :=
  match o.short with
  | some c => String.ofList ['-', c] ++ "/" ++ o.long
  | none => o.long

def complain (o : OptionSpec) (what : String) : Text :=
  "argument " ++ o.displayName ++ ": " ++ what

def isShort (o : OptionSpec) (c : CodePoint) : Bool :=
  match o.short with
  | some d => c == d
  | none => false

end OptionSpec

/-- One argument on its own. An option may carry a value behind an equals sign or, after its single
letter, without one. -/
inductive Token where
  | operand (text : Text)
  | separator
  | long (option : OptionSpec) (value : Option Text)
  | short (option : OptionSpec) (rest : Option Text)
  | unknown (text : Text)

/-- The part before the first equals sign, and the part after it if there is one. -/
def splitValue (text : Text) : Text × Option Text :=
  match text.dropWhile (· != .char '=') with
  | [] => (text, none)
  | _ :: value => (text.takeWhile (· != .char '='), some value)

/-- A hyphen and a decimal number, possibly with a point in it. Such arguments are not options. -/
def isNegativeNumber (text : Text) : Bool :=
  let isDigit (c : CodePoint) : Bool := (Text.digitValue? c).isSome
  match text with
  | .char '-' :: number =>
    let number := if number.getLast? == some (.char '\n') then number.dropLast else number
    match number.dropWhile isDigit with
    | [] => !number.isEmpty
    | .char '.' :: places => !places.isEmpty && places.all isDigit
    | _ => false
  | _ => false

/-- Options whose long name begins with the text. -/
def longMatches (s : Syntax) (start : Text) : List OptionSpec :=
  s.options.filter fun o => start.isPrefixOf (Text.ofString o.long)

def ambiguous (text : Text) (options : List OptionSpec) : Text :=
  "ambiguous option: " ++ text ++ " could match " ++ ", ".intercalate (options.map OptionSpec.long)

/-- An argument that begins with a hyphen and is none of the options as it stands. -/
def looseToken (text : Text) : Token :=
  if isNegativeNumber text || text.contains (.char ' ') then .operand text else .unknown text

def classifyLong (s : Syntax) (text : Text) : Except Text Token :=
  let (name, value) := splitValue text
  match s.options.find? (fun o => text == o.long) with
  | some o => .ok (.long o none)
  | none =>
    match s.options.find? (fun o => name == o.long) with
    | some o => .ok (.long o value)
    | none =>
      match longMatches s name with
      | [] => .ok (looseToken text)
      | [o] => .ok (.long o value)
      | options => .error (ambiguous text options)

def classifyShort (s : Syntax) (text : Text) (c : CodePoint) (rest : Text) : Token :=
  match s.options.find? fun o => o.isShort c with
  | none => looseToken text
  | some o =>
    match rest with
    | [] => .short o none
    | .char '=' :: value => .short o (some value)
    | _ => .short o (some rest)

def classify (s : Syntax) (text : Text) : Except Text Token :=
  match text with
  | .char '-' :: .char '-' :: _ => classifyLong s text
  | .char '-' :: c :: rest => .ok (classifyShort s text c rest)
  | _ => .ok (.operand text)

/-- After the separator every argument is an operand. -/
def tokenize (s : Syntax) : List Text → Except Text (List Token)
  | [] => .ok []
  | text :: rest =>
    if text = "--" then .ok (.separator :: rest.map .operand)
    else
      match classify s text with
      | .error e => .error e
      | .ok token =>
        match tokenize s rest with
        | .error e => .error e
        | .ok tokens => .ok (token :: tokens)

/-- What has been given so far; `extras` are the arguments with no place to go, the latest first. -/
structure Progress where
  operand : Option Text := none
  flags : List String := []
  values : List (String × OptionValue) := []
  extras : List Text := []

namespace Progress

def addExtra (p : Progress) (text : Text) : Progress := { p with extras := text :: p.extras }

def setFlag (p : Progress) (o : OptionSpec) : Progress := { p with flags := o.long :: p.flags }

def setNothing (p : Progress) (o : OptionSpec) : Progress :=
  { p with values := (o.long, .nothing) :: p.values }

def setValue (p : Progress) (o : OptionSpec) (kind : ValueKind) (value : Text) :
    Except Text Progress :=
  let accepted : Except Text Progress :=
    .ok { p with values := (o.long, .given value) :: p.values }
  match kind with
  | .anyText => accepted
  | .oneOf choices =>
    if choices.any fun choice => value == choice then accepted
    else .error (o.complain (s!"invalid choice: {Text.quoted value} (choose from " ++
      ", ".intercalate (choices.map fun (choice : String) => Text.quoted choice) ++ ")"))
  | .integer =>
    match Text.paddedInteger? value with
    | some _ => accepted
    | none => .error (o.complain s!"invalid int value: {Text.quoted value}")

/-- What is missing is reported before what is too much. -/
def finish (p : Progress) (s : Syntax) : ParseResult :=
  match p.operand with
  | none => .error (Text.ofString s!"the following arguments are required: {s.operand}")
  | some operand =>
    if p.extras.isEmpty then .given ⟨operand, p.flags, p.values⟩
    else .error ("unrecognized arguments: " ++ List.intercalate [.char ' '] p.extras.reverse)

end Progress

/-- The letters behind a single-letter option are options of one letter too. -/
def shortRest (o : OptionSpec) (rest : Option Text) : Option Text :=
  match rest with
  | none => none
  | some [] => some []
  | some rest =>
    match rest.dropWhile o.isShort with
    | [] => none
    | left => some left

def ignoredValue (o : OptionSpec) (value : Text) : ParseResult :=
  .error (o.complain s!"ignored explicit argument {Text.quoted value}")

/-- Acts on the tokens from left to right. The operand takes a separator next to it along. -/
def consume (s : Syntax) (p : Progress) : List Token → ParseResult
  | [] => p.finish s
  | .unknown text :: rest => consume s (p.addExtra text) rest
  | .operand text :: rest =>
    match p.operand with
    | some _ => consume s (p.addExtra text) rest
    | none =>
      let p := { p with operand := some text }
      match rest with
      | .separator :: rest => consume s p rest
      | rest => consume s p rest
  | .separator :: rest =>
    match p.operand, rest with
    | none, .operand text :: rest => consume s { p with operand := some text } rest
    | _, rest => consume s (p.addExtra "--") rest
  | .short o value :: rest =>
    match shortRest o value with
    | some left => ignoredValue o left
    | none =>
      match o.kind with
      | .help => .help
      | _ => consume s (p.setFlag o) rest
  | .long o value :: rest =>
    match o.kind, value with
    | .value kind, some value =>
      if value = "--" then consume s (p.setNothing o) rest
      else
        match p.setValue o kind value with
        | .error e => .error e
        | .ok p => consume s p rest
    | .value kind, none =>
      match rest with
      | .operand value :: rest =>
        match p.setValue o kind value with
        | .error e => .error e
        | .ok p => consume s p rest
      | _ => .error (o.complain "expected one argument")
    | _, some value => ignoredValue o value
    | .help, none => .help
    | .flag, none => consume s (p.setFlag o) rest

def parse (s : Syntax) (arguments : List Text) : ParseResult :=
  match tokenize s arguments with
  | .error e => .error e
  | .ok tokens => consume s {} tokens

/-- What a command leaves behind: its exit status and what it wrote. -/
structure Outcome where
  exit : Nat
  stdout : Text := []
  stderr : Text := []

/-- Help is an answer; a wrong command line is a failure that repeats the usage. -/
def Syntax.dispatch {ε : Type} (s : Syntax) (arguments : List Text)
    (command : Arguments → Except ε Outcome) : Except ε Outcome :=
  match parse s arguments with
  | .help => .ok { exit := 0, stdout := s.usage ++ s.description }
  | .error e => .ok { exit := 2, stderr := s.usage ++ s.program ++ ": error: " ++ e ++ "\n" }
  | .given a => command a

end Clausal.CommandLine

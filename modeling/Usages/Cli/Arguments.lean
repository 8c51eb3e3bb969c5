/-
The command line: which options and words each command takes, and how arguments are read.

Arguments are read from left to right. A word in the place of a command enters it, and from then on
the options and words of that command are expected. The value of an option follows it, or stands
behind an equals sign or right behind a short name; short names can be joined. `--` makes words of
all that follows. Options for the whole program can stand at every level, once at each, and the
innermost counts. Everything is checked as it is met, so the first fault or the first request for
help or for the version decides.
-/
import Usages.Config.Basic

namespace Usages.Cli

/-- What output looks like. -/
inductive Rendering where
  | human
  | json
  deriving Repr, DecidableEq

namespace Rendering

def ofName? : String → Option Rendering
  | "human" => some human
  | "json" => some json
  | _ => none

end Rendering

def flagOfName? : String → Option Flag
  | "group-by-file" => some .groupByFile
  | "show-full-path" => some .showFullPath
  | _ => none

inductive Command where
  /-- Find references to the symbol at a line and a column, counted from one. -/
  | find (file : String) (line column : Nat) (options : DisplayOptions) (rendering : Rendering)
  | classify (text : String) (start stop : Nat)
  | showConfig (rendering : Rendering)
  | toggle (flag : Flag)
  deriving Repr, DecidableEq

/-- What a command line asks for. -/
structure Invocation where
  configPath : Option String := none
  root : Option String := none
  command : Command
  deriving Repr, DecidableEq

/-- Why nothing is run. -/
inductive Stop where
  | badUsage
  | help
  | version
  deriving Repr, DecidableEq

/-- Options of all commands. -/
inductive Name where
  | config
  | root
  | verbose
  | help
  | version
  | groupByFile
  | fullPath
  | rendering
  deriving Repr, DecidableEq

namespace Name

def long : Name → String
  | config => "config"
  | root => "root"
  | verbose => "verbose"
  | help => "help"
  | version => "version"
  | groupByFile => "group-by-file"
  | fullPath => "full-path"
  | rendering => "format"

def short? : Name → Option Char
  | config => some 'c'
  | root => some 'r'
  | verbose => some 'v'
  | help => some 'h'
  | version => some 'V'
  | rendering => some 'f'
  | groupByFile | fullPath => none

def takesValue : Name → Bool
  | config | root | rendering => true
  | _ => false

end Name

/-- A word that a command takes. -/
inductive Place where
  | path
  | text
  | number
  | flag
  deriving Repr, DecidableEq

/-- The largest number an argument can be. -/
def maxNumber : Nat :=
  18446744073709551615

def digits? (digits : List Char) : Option Nat :=
  if digits.isEmpty || !digits.all Char.isDigit then none
  else
    let value := digits.foldl (fun n c => 10 * n + (c.toNat - '0'.toNat)) 0
    if value ≤ maxNumber then some value else none

/-- A number, which may start with a plus sign. -/
def number? (word : String) : Option Nat :=
  match word.toList with
  | '+' :: digits => digits? digits
  | digits => digits? digits

def Place.accepts : Place → String → Bool
  | path, word => !word.isEmpty
  | text, _ => true
  | number, word => (number? word).isSome
  | flag, word => (flagOfName? word).isSome

/-- How far into the commands the reader is. -/
inductive Level where
  | program
  | find
  | classify
  | config
  | showConfig
  | toggle
  /-- The command that explains the others. -/
  | help
  deriving Repr, DecidableEq

namespace Level

/-- The command that a word enters. -/
def inner? : Level → String → Option Level
  | program, "find" => some find
  | program, "classify" => some classify
  | program, "config" => some config
  | config, "show" => some showConfig
  | config, "toggle" => some toggle
  | program, "help" | config, "help" => some help
  | _, _ => none

def options : Level → List Name
  | program => [.config, .root, .verbose, .help, .version]
  | find => [.config, .root, .verbose, .help, .groupByFile, .fullPath, .rendering]
  | showConfig => [.config, .root, .verbose, .help, .rendering]
  | classify | config | toggle => [.config, .root, .verbose, .help]
  | help => []

def places : Level → List Place
  | find => [.path, .number, .number]
  | classify => [.text, .number, .number]
  | toggle => [.flag]
  | _ => []

end Level

/-- What has been read so far. -/
structure Reading where
  level : Level := .program
  /-- Options met at this level. -/
  met : List Name := []
  /-- An option that waits for its value. -/
  waiting : Option Name := none
  /-- Only words follow. -/
  wordsOnly : Bool := false
  /-- The command to be explained. -/
  topic : Option Level := none
  configPath : Option String := none
  root : Option String := none
  display : DisplayOptions := {}
  rendering : Rendering := .human
  words : List String := []
  deriving Repr, DecidableEq

namespace Reading

/-- Meet an option, which may happen once at each level. -/
def meet (reading : Reading) (name : Name) : Except Stop Reading :=
  if reading.met.contains name then .error .badUsage
  else .ok { reading with met := name :: reading.met }

def setFlag (reading : Reading) (name : Name) : Except Stop Reading := do
  match name with
  | .help => .error .help
  | .version => .error .version
  | _ =>
    let reading ← reading.meet name
    match name with
    | .groupByFile => return { reading with display.groupByFile := true }
    | .fullPath => return { reading with display.showFullPath := true }
    | _ => return reading

def setValue (reading : Reading) (name : Name) (value : String) : Except Stop Reading := do
  let reading := { ← reading.meet name with waiting := none }
  match name with
  | .config =>
    if value.isEmpty then .error .badUsage else return { reading with configPath := some value }
  | .root =>
    if value.isEmpty then .error .badUsage else return { reading with root := some value }
  | .rendering =>
    match Rendering.ofName? value with
    | some rendering => return { reading with rendering }
    | none => .error .badUsage
  | _ => .error .badUsage

/-- A long option, with its value if there is one. -/
def takeLong (reading : Reading) (argument : List Char) : Except Stop Reading :=
  let long := String.ofList (argument.takeWhile (· != '='))
  match reading.level.options.find? (·.long == long), argument.dropWhile (· != '=') with
  | none, _ => .error .badUsage
  | some name, [] =>
    if name.takesValue then .ok { reading with waiting := some name } else reading.setFlag name
  | some name, _ :: value =>
    if name.takesValue then reading.setValue name (String.ofList value) else .error .badUsage

/-- Short options that are joined. The value of the last one may follow it. -/
def takeShort (reading : Reading) : List Char → Except Stop Reading
  | [] => .ok reading
  | c :: rest =>
    match reading.level.options.find? (·.short? == some c) with
    | none => .error .badUsage
    | some name =>
      if name.takesValue then
        match rest with
        | [] => .ok { reading with waiting := some name }
        | '=' :: value => reading.setValue name (String.ofList value)
        | value => reading.setValue name (String.ofList value)
      else
        match reading.setFlag name with
        | .ok reading => takeShort reading rest
        | .error stop => .error stop

/-- A word of the command. -/
def addWord (reading : Reading) (word : String) : Except Stop Reading :=
  match reading.level.places[reading.words.length]? with
  | some place =>
    if place.accepts word then .ok { reading with words := reading.words ++ [word] }
    else .error .badUsage
  | none => .error .badUsage

/-- A word, which may enter a command. -/
def takeWord (reading : Reading) (word : String) : Except Stop Reading :=
  match reading.level.inner? word with
  | some .help => .ok { reading with topic := some reading.level }
  | some level => .ok { reading with level, met := [] }
  | none => reading.addWord word

/-- The argument stands for options. -/
def isOption : List Char → Bool
  | '-' :: _ :: _ => true
  | _ => false

/-- Take the next argument. -/
def take (reading : Reading) (argument : String) : Except Stop Reading :=
  match reading.topic, reading.waiting with
  | some topic, _ =>
    match topic.inner? argument with
    | some inner => .ok { reading with topic := some inner }
    | none => .error .badUsage
  | none, some name =>
    if isOption argument.toList then .error .badUsage else reading.setValue name argument
  | none, none =>
    if reading.wordsOnly then reading.addWord argument
    else
      match argument.toList with
      | ['-', '-'] => .ok { reading with wordsOnly := true }
      | '-' :: '-' :: long => reading.takeLong long
      | '-' :: c :: rest => reading.takeShort (c :: rest)
      | _ => reading.takeWord argument

/-- The command that was entered, with its words. -/
def command? (reading : Reading) : Option Command :=
  match reading.level, reading.words with
  | .find, [file, line, column] => do
    return .find file (← number? line) (← number? column) reading.display reading.rendering
  | .classify, [text, start, stop] => do return .classify text (← number? start) (← number? stop)
  | .showConfig, [] => some (.showConfig reading.rendering)
  | .toggle, [flag] => (flagOfName? flag).map .toggle
  | _, _ => none

/-- What has been asked for when the arguments end. -/
def finish (reading : Reading) : Except Stop Invocation :=
  if reading.topic.isSome then .error .help
  else if reading.waiting.isSome then .error .badUsage
  else
    match reading.command? with
    | some command => .ok ⟨reading.configPath, reading.root, command⟩
    | none => .error .badUsage

end Reading

/-- Read a command line. -/
def Invocation.ofArguments (arguments : List String) : Except Stop Invocation := do
  (← arguments.foldlM Reading.take {}).finish

end Usages.Cli

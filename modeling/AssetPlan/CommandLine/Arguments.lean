import AssetPlan.Options

/-! # Arguments of the command line

A command and its options. An option is written with two dashes and its name, or with one dash and its
letter; letters may stand together. A value follows as the next argument or is attached: after `=` to a
name, directly or after `=` to a letter. No option may be given twice, and no other argument is known. -/

namespace AssetPlan

/-- What the program is asked to do. -/
inductive Command where
  /-- Print the report of the resolution. -/
  | resolve
  /-- Print the diagnostics and a summary. -/
  | check
  deriving DecidableEq, Repr

/-- The command with a name. -/
def Command.ofName? : String → Option Command
  | "resolve" => some .resolve
  | "check" => some .check
  | _ => none

/-- What ends the reading of a command line early. -/
inductive Ending where
  | version
  | help
  | misuse
  deriving DecidableEq, Repr

/-- An option without a value. -/
inductive Flag where
  | production
  | server
  | persistent
  deriving DecidableEq, Repr

/-- An option with a value. -/
inductive Setting where
  | config
  | env
  | publicPath
  | port
  deriving DecidableEq, Repr

/-- What an option asks for. -/
inductive Switch where
  | flag (flag : Flag)
  | setting (setting : Setting)
  | help
  deriving DecidableEq, Repr

/-- The option with a name. -/
def Switch.ofName? (name : String) : Option Switch :=
  match name with
  | "config" => some (.setting .config)
  | "env" => some (.setting .env)
  | "production" => some (.flag .production)
  | "optimize" => some (.flag .production)
  | "public-path" => some (.setting .publicPath)
  | "server" => some (.flag .server)
  | "port" => some (.setting .port)
  | "persistent" => some (.flag .persistent)
  | "help" => some .help
  | _ => none

/-- The option with a letter. -/
def Switch.ofLetter? (letter : Char) : Option Switch :=
  match letter with
  | 'c' => some (.setting .config)
  | 'e' => some (.setting .env)
  | 'p' => some (.flag .production)
  | 'o' => some (.setting .publicPath)
  | 's' => some (.flag .server)
  | 'P' => some (.setting .port)
  | 'w' => some (.flag .persistent)
  | 'h' => some .help
  | _ => none

/-- The options of a command as they were given. -/
structure Arguments where
  config : Option String := none
  env : Option String := none
  production : Bool := false
  publicPath : Option String := none
  server : Bool := false
  port : Option UInt16 := none
  persistent : Bool := false
  deriving DecidableEq, Repr

namespace Arguments

/-- The digits of a number without its sign, and whether the sign is a minus. -/
def splitSign : List Char → Bool × List Char
  | '+' :: digits => (false, digits)
  | '-' :: digits => (true, digits)
  | digits => (false, digits)

/-- The port that a text writes: a sign may stand before its digits and zeros among the first. -/
def portOfText? (text : String) : Option UInt16 :=
  let (negative, digits) := splitSign text.toList
  let value := digits.foldl (fun n c => 10 * n + (c.toNat - '0'.toNat)) 0
  if digits = [] ∨ ! digits.all Char.isDigit then none
  else if UInt16.size ≤ value ∨ (negative ∧ value ≠ 0) then none
  else some (UInt16.ofNat value)

/-- Turns a flag on that was not. -/
def turnOn (a : Arguments) : Flag → Except Ending Arguments
  | .production => if a.production then .error .misuse else .ok { a with production := true }
  | .server => if a.server then .error .misuse else .ok { a with server := true }
  | .persistent => if a.persistent then .error .misuse else .ok { a with persistent := true }

/-- Whether an option has a value. -/
def isSet (a : Arguments) : Setting → Bool
  | .config => a.config.isSome
  | .env => a.env.isSome
  | .publicPath => a.publicPath.isSome
  | .port => a.port.isSome

/-- Sets the value of an option that had none. -/
def set (a : Arguments) (setting : Setting) (value : String) : Except Ending Arguments :=
  if a.isSet setting then .error .misuse
  else
    match setting with
    | .config => if value = "" then .error .misuse else .ok { a with config := some value }
    | .env => .ok { a with env := some value }
    | .publicPath => .ok { a with publicPath := some value }
    | .port =>
      match portOfText? value with
      | some port => .ok { a with port := some port }
      | none => .error .misuse

/-- The options read so far, the one whose value is due, and whether `--` has closed them. -/
structure Progress where
  arguments : Arguments := {}
  due : Option Setting := none
  closed : Bool := false
  deriving DecidableEq, Repr

/-- An option by its name, with the value attached to it. -/
def readName (a : Arguments) (name : String) (value : Option String) : Except Ending Progress :=
  match Switch.ofName? name, value with
  | some (.flag f), none => (a.turnOn f).map fun a => { arguments := a }
  | some (.setting s), some v => (a.set s v).map fun a => { arguments := a }
  | some (.setting s), none => .ok { arguments := a, due := some s }
  | some .help, none => .error .help
  | _, _ => .error .misuse

/-- A value attached to a letter. -/
def attached : List Char → List Char
  | '=' :: value => value
  | value => value

/-- Options by their letters. -/
def readLetters (a : Arguments) : List Char → Except Ending Progress
  | [] => .ok { arguments := a }
  | letter :: rest =>
    match Switch.ofLetter? letter with
    | some (.flag f) => do readLetters (← a.turnOn f) rest
    | some (.setting s) =>
      if rest = [] then .ok { arguments := a, due := some s }
      else (a.set s (String.ofList (attached rest))).map fun a => { arguments := a }
    | some .help => .error .help
    | none => .error .misuse

/-- The name and the attached value of an argument after its two dashes. -/
def splitValue (text : List Char) : String × Option String :=
  let name := text.takeWhile (· ≠ '=')
  (String.ofList name, if name = text then none else some (String.ofList (text.drop (name.length + 1))))

/-- One argument: an option where no value is due, or a value where one is. -/
def read (p : Progress) (argument : String) : Except Ending Progress :=
  if p.closed then .error .misuse
  else
    match argument.toList, p.due with
    | ['-', '-'], none => .ok { p with closed := true }
    | '-' :: '-' :: text, none => readName p.arguments (splitValue text).1 (splitValue text).2
    | '-' :: letter :: letters, none => readLetters p.arguments (letter :: letters)
    | '-' :: _ :: _, some _ => .error .misuse
    | _, some s => (p.arguments.set s argument).map fun a => { arguments := a }
    | _, none => .error .misuse

/-- The options that arguments give: every value must be there, and a port needs a server. -/
def ofList (arguments : List String) : Except Ending Arguments := do
  let p ← arguments.foldlM read {}
  if p.due.isSome ∨ (p.arguments.port.isSome ∧ ! p.arguments.server) then .error .misuse
  else .ok p.arguments

/-- The configuration file that is read without an option. -/
def standardConfig : String := "buildconf"

/-- The configuration file, or its path without extension. -/
def configPath (a : Arguments) : String := a.config.getD standardConfig

/-- The options of a resolution; a server goes on watching. -/
def options (a : Arguments) (processName : Option String) : Options :=
  Options.withProcessEnv
    { named := (a.env.map Options.namesOfText).getD []
      production := a.production
      publicPath := a.publicPath
      server := a.server
      port := a.port
      persistent := a.persistent || a.server } processName

end Arguments

/-- How an argument that names no command ends the reading. -/
def Ending.ofArgument (argument : String) : Ending :=
  match argument.toList with
  | '-' :: 'V' :: _ => .version
  | '-' :: 'h' :: _ => .help
  | _ =>
    if argument = "--version" then .version
    else if argument = "--help" ∨ argument = "help" then .help
    else .misuse

/-- The command and its options. What stands before a command can only end the reading. -/
def Command.ofArguments : List String → Except Ending (Command × Arguments)
  | [] => .error .misuse
  | first :: rest =>
    match Command.ofName? first with
    | some command => (Arguments.ofList rest).map fun a => (command, a)
    | none => .error (.ofArgument first)

end AssetPlan

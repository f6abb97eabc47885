/-!
# The command line

There is one command, which serves, with one option, the path of the configuration. The
value of a variable stands in for an option that is not given.
-/

namespace TopicWatch.CommandLine

/-- What a command line asks for. -/
inductive Command where
  | serve (config : String)
  deriving DecidableEq, Repr

/-- Why nothing is done. -/
inductive Refusal where
  | help
  | missingCommand
  | unknownCommand
  | unknownArgument
  | missingValue
  | surplusValue
  | repeated
  deriving DecidableEq, Repr

/-- The exit status of a refusal: help that was asked for is no failure. -/
def Refusal.exitStatus : Refusal → Nat
  | help => 0
  | _ => 2

/-- The name of the variable that stands in for the option. -/
def variableName : String := "OBSERVER_CONFIG"

/-- The path of the configuration where none is given. -/
def usualConfig : String := "observer.toml"

/-- How an argument looks. -/
inductive Token where
  | escape
  | long (name : List Char) (value : Option (List Char))
  | short (flags : List Char)
  | plain
  deriving DecidableEq, Repr

/-- The look of an argument: two dashes alone, two dashes and a name, which may have a value
behind an equals sign, one dash and letters, or none of them. -/
def Token.of : List Char → Token
  | '-' :: '-' :: [] => .escape
  | '-' :: '-' :: rest =>
      .long (rest.takeWhile (· != '=')) (match rest.dropWhile (· != '=') with
        | _ :: value => some value
        | [] => none)
  | '-' :: c :: rest => .short (c :: rest)
  | _ => .plain

/-- What a flag is for. -/
inductive Flag where
  | help
  | helpWithValue
  | config (value : Option String)
  | unknown
  deriving DecidableEq, Repr

/-- The flag of a command that has the option, or of one that does not. -/
def flag (hasConfig : Bool) : Token → Flag
  | .long name value =>
      if name = ['h', 'e', 'l', 'p'] then
        if value.isSome then .helpWithValue else .help
      else if hasConfig && name == ['c', 'o', 'n', 'f', 'i', 'g'] then
        .config (value.map String.ofList)
      else .unknown
  | .short flags => if flags.head? = some 'h' then .help else .unknown
  | _ => .unknown

/-- The option while its command is read: its value, and what it was given last, which may
still be without a value and counts once the next flag or the end is met. -/
structure Given where
  value : Option String
  last : Option (Option String)
  deriving DecidableEq, Repr

namespace Given

/-- The option before anything is read. -/
def nothing : Given := ⟨none, none⟩

/-- Counts what the option was given last. It may be given once, and not without a value. -/
def settle (g : Given) : Except Refusal Given :=
  match g.last with
  | none => .ok g
  | some none => .error .missingValue
  | some (some v) => if g.value.isSome then .error .repeated else .ok ⟨some v, none⟩

/-- Reads the arguments of the command. -/
def read (g : Given) : List String → Except Refusal Given
  | [] => g.settle
  | arg :: rest =>
      match Token.of arg.toList with
      | .escape => if rest.isEmpty then g.settle else .error .unknownArgument
      | .plain =>
          if g.last = some none then read { g with last := some (some arg) } rest
          else .error .unknownArgument
      | token =>
          match flag true token with
          | .unknown => .error .unknownArgument
          | .helpWithValue => .error .surplusValue
          | .help => match g.settle with
              | .ok _ => .error .help
              | .error e => .error e
          | .config value => match g.settle with
              | .error e => .error e
              | .ok settled => match value with
                  | none => read { settled with last := some none } rest
                  | some v => match settle { settled with last := some (some v) } with
                      | .ok once => read once rest
                      | .error e => .error e

end Given

/-- The words that stand for a command. -/
def commandNames : List String := ["serve", "help"]

/-- What follows the word for help: nothing, or one command to explain. -/
def explain : List String → Refusal
  | [] => .help
  | [name] => if commandNames.contains name then .help else .unknownCommand
  | _ => .unknownCommand

/-- Reads the arguments of the program. -/
def readArguments (environment : Option String) : List String → Except Refusal Command
  | [] => .error .missingCommand
  | arg :: rest =>
      match Token.of arg.toList with
      | .escape => match rest with
          | [] => .error .missingCommand
          | name :: _ =>
              .error (if commandNames.contains name then .unknownArgument else .unknownCommand)
      | .plain =>
          if arg = "serve" then
            (Given.nothing.read rest).map fun g =>
              .serve (g.value.getD (environment.getD usualConfig))
          else .error (if arg = "help" then explain rest else .unknownCommand)
      | token =>
          match flag false token with
          | .help => .error .help
          | .helpWithValue => .error .surplusValue
          | _ => .error .unknownArgument

/-- Reads a command line, which begins with the name of the program. -/
def parse (args : List String) (environment : Option String) : Except Refusal Command :=
  readArguments environment (args.drop 1)

end TopicWatch.CommandLine

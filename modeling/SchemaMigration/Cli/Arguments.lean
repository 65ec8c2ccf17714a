/-!
# Reading arguments

The flags of a command line and the rules by which arguments are read: a long flag has its value behind an equals sign
or in the next argument, short flags may stand together, and two hyphens end the flags. Arguments are read from left
to right, and the first that cannot be read, or that asks for help or for the version, ends the reading.
-/

namespace SchemaMigration.Cli

/-- What may stand for a value. -/
inductive ValueKind where
  | text
  /-- A path, which is not empty. -/
  | path
  /-- A natural number that 64 bits hold. -/
  | count
  deriving Repr, DecidableEq

/-- A flag. -/
structure Flag where
  long : String
  short : Option Char := none
  /-- The value that the flag takes, by the word that stands for it. -/
  value : Option (String × ValueKind) := none
  /-- The variable that gives the value when the command line does not. -/
  variableName : Option String := none
  default : Option String := none
  isRepeatable : Bool := false
  isRequired : Bool := false
  help : String

/-- Why a command line is not carried out. -/
inductive Refusal where
  | usage
  /-- Help was asked for. -/
  | help
  /-- The version was asked for. -/
  | version
  deriving Repr, DecidableEq

/-- The flags that every command has. -/
def helpFlag : Flag := { long := "help", short := some 'h', help := "Print help" }

def versionFlag : Flag := { long := "version", short := some 'V', help := "Print version" }

/-- Which arguments are read. -/
structure Form where
  flags : List Flag
  /-- Whether the version can be asked for. -/
  hasVersion : Bool := false
  /-- Whether an argument that is no flag ends the reading. -/
  endsAtName : Bool := false
  /-- Whether there may be an argument that is no flag. -/
  hasName : Bool := false

/-- What was given: the flags with their values, in order, and the argument that is no flag. -/
structure Given where
  flags : List (String × String) := []
  name : Option String := none
  deriving Repr, DecidableEq

/-- The number that a text spells: digits, and a plus sign in front of them or none. -/
def count? (s : String) : Option Nat :=
  let digits := match s.toList with
    | '+' :: r => r
    | r => r
  if digits.isEmpty || !digits.all fun c => '0' ≤ c && c ≤ '9' then none
  else
    let n := digits.foldl (fun n c => n * 10 + (c.toNat - 48)) 0
    if n < UInt64.size then some n else none

/-- The text can be a value of that kind. -/
def ValueKind.accepts (kind : ValueKind) (s : String) : Bool :=
  match kind with
  | text => true
  | path => s != ""
  | count => (count? s).isSome

namespace Given

/-- The value given for a flag. -/
def value? (g : Given) (long : String) : Option String :=
  g.flags.lookup long

/-- All values given for a flag. -/
def values (g : Given) (long : String) : List String :=
  (g.flags.filter (·.1 == long)).map (·.2)

/-- The flag was given. -/
def has (g : Given) (long : String) : Bool :=
  (g.value? long).isSome

/-- One more flag with a value that it can take. -/
def add (g : Given) (flag : Flag) (value : String) : Except Refusal Given :=
  if flag.long == helpFlag.long then .error .help
  else if flag.long == versionFlag.long then .error .version
  else if g.has flag.long && !flag.isRepeatable then .error .usage
  else if flag.value.any fun (_, kind) => !kind.accepts value then .error .usage
  else .ok { g with flags := g.flags ++ [(flag.long, value)] }

/-- The argument that is no flag, of which there is at most one. -/
def addName (form : Form) (g : Given) (name : String) : Except Refusal Given :=
  if form.hasName && g.name.isNone then .ok { g with name := some name } else .error .usage

end Given

namespace Form

/-- The flags that can be given. -/
def allFlags (form : Form) : List Flag :=
  form.flags ++ helpFlag :: if form.hasVersion then [versionFlag] else []

/-- An argument that is read as a flag. -/
def looksLikeFlag (argument : String) : Bool :=
  argument.startsWith "-" && argument != "-"

/-- Short flags that stand together, and the flag whose value is the next argument. -/
def readShort (form : Form) (g : Given) : List Char → Except Refusal (Given × Option Flag)
  | [] => .ok (g, none)
  | c :: rest =>
    match form.allFlags.find? (·.short == some c) with
    | none => .error .usage
    | some flag =>
      if flag.value.isNone then do readShort form (← g.add flag "") rest
      else
        match rest with
        | [] => .ok (g, some flag)
        | '=' :: value => do return (← g.add flag (String.ofList value), none)
        | value => do return (← g.add flag (String.ofList value), none)

/-- A long flag, without its hyphens, and the flag whose value is the next argument. -/
def readLong (form : Form) (g : Given) (argument : List Char) : Except Refusal (Given × Option Flag) :=
  let name := argument.takeWhile (· != '=')
  match form.allFlags.find? (·.long == String.ofList name) with
  | none => .error .usage
  | some flag =>
    match flag.value, argument.drop name.length with
    | none, [] => do return (← g.add flag "", none)
    | none, _ :: _ => .error .usage
    | some _, [] => .ok (g, some flag)
    | some _, _ :: value => do return (← g.add flag (String.ofList value), none)

/-- One argument that looks like a flag. -/
def readFlag (form : Form) (g : Given) (argument : String) : Except Refusal (Given × Option Flag) :=
  match argument.toList with
  | '-' :: '-' :: long => form.readLong g long
  | _ :: short => form.readShort g short
  | [] => .error .usage

/-- Reads arguments; `pending` is the flag whose value comes next. Where an argument that is no flag ends the reading,
it is given with what follows it. -/
def read (form : Form) (pending : Option Flag) (g : Given) :
    List String → Except Refusal (Given × List String)
  | [] => if pending.isSome then .error .usage else .ok (g, [])
  | argument :: rest =>
    match pending with
    | some flag =>
      if looksLikeFlag argument then .error .usage
      else do form.read none (← g.add flag argument) rest
    | none =>
      if argument == "--" then
        if form.endsAtName then .error .usage
        else do return (← rest.foldlM (Given.addName form) g, [])
      else if looksLikeFlag argument then do
        let (g, pending) ← form.readFlag g argument
        form.read pending g rest
      else if form.endsAtName then .ok (g, argument :: rest)
      else do form.read none (← g.addName form argument) rest

/-- Every flag that has to be given is. -/
def checkRequired (form : Form) (g : Given) : Except Refusal Unit :=
  if form.flags.all fun flag => !flag.isRequired || g.has flag.long then .ok () else .error .usage

/-- The value of a flag: from the command line, from the flag's variable, or its default. -/
def valueOf (environment : List (String × String)) (g : Given) (flag : Flag) : Except Refusal (Option String) :=
  match g.value? flag.long, flag.variableName.bind fun name => environment.lookup name with
  | some value, _ => .ok (some value)
  | none, some value =>
    if flag.value.any fun (_, kind) => !kind.accepts value then .error .usage else .ok (some value)
  | none, none => .ok flag.default

end Form

end SchemaMigration.Cli

import DeviceLink.Options

namespace DeviceLink.Command

structure LinkFlags where
  sequential : Bool := false
  threads : Option UInt64 := none
  strict : Bool := false

def LinkFlags.apply (flags : LinkFlags) (o : Options) : Options :=
  { o with
    parallel := (o.parallel && !flags.sequential) || flags.threads.isSome
    threads := flags.threads <|> o.threads
    strict := o.strict || flags.strict }

inductive Request where
  | link (manifest output : String) (listing abi : Option String) (flags : LinkFlags)
  | inspect (file : String)
  | graph (manifest : String) (flags : LinkFlags)
  | describe (file : String) (library : Bool)
  | version
  | help

structure Switch where
  long : String
  letter : Option Char := none
  takesValue : Bool := false
  repeatable : Bool := false
  isFinal : Bool := false

inductive Item where
  | switch (s : Switch) (value : String)
  | operand (text : String)

namespace Item

def isFinal : Item → Bool
  | .switch s _ => s.isFinal
  | .operand _ => false

end Item

def isSwitch (arg : String) : Bool :=
  match arg.toList with
  | '-' :: _ :: _ => true
  | _ => false

def splitValue (cs : List Char) : String × Option String :=
  match cs.span (· ≠ '=') with
  | (name, '=' :: value) => (String.ofList name, some (String.ofList value))
  | (name, _) => (String.ofList name, none)

def valueFrom (rest : List String) : Option (String × List String) :=
  match rest with
  | v :: rest => if isSwitch v then none else some (v, rest)
  | [] => none

/-- The switches of an argument such as `-vo`. A switch with a value takes the letters behind it; if there
are none it is given back, and takes the next argument. Nothing is read behind a final switch. -/
def letters (switches : List Switch) : List Char → Option (List Item × Option Switch)
  | [] => some ([], none)
  | c :: rest => do
    let s ← switches.find? (·.letter = some c)
    if s.isFinal then return ([.switch s ""], none)
    else if s.takesValue then
      match rest with
      | [] => return ([], some s)
      | '=' :: value => return ([.switch s (String.ofList value)], none)
      | value => return ([.switch s (String.ofList value)], none)
    else
      let (items, pending) ← letters switches rest
      return (.switch s "" :: items, pending)

def item (switches : List Switch) (arg : String) (rest : List String) : Option (List Item × List String) :=
  match arg.toList with
  | '-' :: '-' :: cs => do
    let (name, value) := splitValue cs
    let s ← switches.find? (·.long = name)
    match s.takesValue, value with
    | true, some v => return ([.switch s v], rest)
    | true, none =>
      let (v, rest) ← valueFrom rest
      return ([.switch s v], rest)
    | false, none => return ([.switch s ""], rest)
    | false, some _ => none
  | '-' :: c :: cs => do
    match ← letters switches (c :: cs) with
    | (items, none) => return (items, rest)
    | (items, some s) =>
      let (v, rest) ← valueFrom rest
      return (items ++ [.switch s v], rest)
  | _ => some ([.operand arg], rest)

def items (switches : List Switch) : (fuel : Nat) → List String → Option (List Item)
  | _, [] => some []
  | 0, _ => none
  | fuel + 1, arg :: rest =>
    if arg = "--" then some (rest.map .operand)
    else do
      let (found, rest) ← item switches arg rest
      if found.any Item.isFinal then return found
      else return found ++ (← items switches fuel rest)

def verbose : Switch := { long := "verbose", letter := some 'v', repeatable := true }

def helpSwitch : Switch := { long := "help", letter := some 'h', isFinal := true }

def versionSwitch : Switch := { long := "version", letter := some 'V', isFinal := true }

def linkSwitches : List Switch :=
  [{ long := "sequential" }, { long := "threads", takesValue := true }, { long := "strict" }]

def outputSwitches : List Switch :=
  [{ long := "output", letter := some 'o', takesValue := true }, { long := "emit-ir", takesValue := true },
    { long := "abi", takesValue := true }]

def valueOf? (found : List Item) (long : String) : Option String :=
  found.findSome? fun
    | .switch s value => if s.long = long then some value else none
    | .operand _ => none

def isGiven (found : List Item) (long : String) : Bool := (valueOf? found long).isSome

def isUnique (found : List Item) : Bool :=
  found.all fun
    | .switch s _ => s.repeatable || (found.countP fun
      | .switch t _ => t.long = s.long
      | .operand _ => false) ≤ 1
    | .operand _ => true

def hasPaths (found : List Item) : Bool :=
  found.all fun
    | .switch s value => !s.takesValue || value ≠ ""
    | .operand text => text ≠ ""

def operands (found : List Item) : List String :=
  found.filterMap fun
    | .operand text => some text
    | .switch _ _ => none

def count? (text : String) : Option UInt64 :=
  let digits := match text.toList with
    | '+' :: rest => rest
    | cs => cs
  let n := Nat.ofDigitChars 10 digits 0
  if digits ≠ [] && digits.all Char.isDigit && n < UInt64.size then some (UInt64.ofNat n) else none

def linkFlags (found : List Item) : Option LinkFlags := do
  return {
    sequential := isGiven found "sequential"
    threads := ← (valueOf? found "threads").mapM count?
    strict := isGiven found "strict" }

def LinkFlags.isConsistent (flags : LinkFlags) : Bool := !(flags.sequential && flags.threads.isSome)

/-- What a command is asked to do. Every item must be right by itself, also in front of a call for help;
that nothing is missing and no two items contradict each other is asked only without one. -/
def ofItems (name : String) (found : List Item) : Option Request := do
  guard (isUnique found && hasPaths found && (operands found).length ≤ 1)
  let flags ← linkFlags found
  if isGiven found "help" then return .help
  guard flags.isConsistent
  match name, operands found with
  | "link", [manifest] =>
    return .link manifest ((valueOf? found "output").getD "merged.bc") (valueOf? found "emit-ir")
      (valueOf? found "abi") flags
  | "inspect", [file] => return .inspect file
  | "graph", [manifest] => return .graph manifest flags
  | "describe", [file] => return .describe file (isGiven found "library")
  | _, _ => none

def switchesOf : String → Option (List Switch)
  | "link" => some (verbose :: helpSwitch :: outputSwitches ++ linkSwitches)
  | "inspect" => some [verbose, helpSwitch]
  | "graph" => some (verbose :: helpSwitch :: linkSwitches)
  | "describe" => some [verbose, helpSwitch, { long := "library" }]
  | _ => none

def mainSwitches : List Switch := [verbose, helpSwitch, versionSwitch]

def isHelpTopic : List String → Bool
  | [] => true
  | [name] => (switchesOf name).isSome || name = "help"
  | _ => false

def parse : List String → Option Request
  | [] => none
  | arg :: rest =>
    if arg = "--" then none
    else if isSwitch arg then do
      let (found, _) ← item mainSwitches arg []
      if isGiven found "help" then return .help
      else if isGiven found "version" then return .version
      else parse rest
    else if arg = "help" then
      if isHelpTopic rest then some .help else none
    else do
      let found ← items (← switchesOf arg) rest.length rest
      ofItems arg found

end DeviceLink.Command

import BranchBound.Decimal.Literal
import BranchBound.Integer.Settings
import BranchBound.Scalar.Double

/-!
# Arguments

The arguments of the command, read from left to right. An option takes the next
argument as its value, or what follows an equals sign. Nothing may be given
twice, and there are no positional arguments.
-/

namespace BranchBound.Command

structure Arguments where
  matrix : String := "matriz-A.csv"
  rhs : String := "vector-b.csv"
  objective : String := "vector-c.csv"
  /-- The directory of relative input paths. -/
  dir : Option String := none
  maxNodes : Nat := (Integer.Settings.default : Integer.Settings Float).maxNodes
  intTol : Float := (Integer.Settings.default : Integer.Settings Float).intTol
  maxPivots : Nat := (Linear.Settings.default : Linear.Settings Float).maxPivots
  json : Bool := false
  output : Option String := none
  verbose : Bool := false
  deriving DecidableEq, Repr

namespace Arguments

/-- An input path, below the directory if there is one and the path is relative. -/
def resolve (a : Arguments) (path : String) : String :=
  match a.dir with
  | none => path
  | some dir =>
    if path.startsWith "/" then path
    else if dir.endsWith "/" then dir ++ path
    else dir ++ "/" ++ path

def settings (a : Arguments) : Integer.Settings Float :=
  let base : Integer.Settings Float := .default
  { base with
    maxNodes := a.maxNodes
    intTol := a.intTol
    linear := { base.linear with maxPivots := a.maxPivots }
    verbose := a.verbose }

end Arguments

inductive UsageFault where
  | unexpected (argument : String)
  | missingValue (option : String)
  | invalidValue (option value : String)
  | repeated (option : String)
  | needlessValue (option : String)
  deriving DecidableEq, Repr

def UsageFault.message : UsageFault → String
  | .unexpected argument => s!"unexpected argument '{argument}'"
  | .missingValue option => s!"a value is required for '{option}'"
  | .invalidValue option value => s!"invalid value '{value}' for '{option}'"
  | .repeated option => s!"'{option}' cannot be used more than once"
  | .needlessValue option => s!"unexpected value for '{option}'"

inductive Request where
  | solve (arguments : Arguments)
  | version
  | usage
  deriving DecidableEq, Repr

inductive ValueOption where
  | matrix
  | rhs
  | objective
  | dir
  | maxNodes
  | intTol
  | maxPivots
  | output
  deriving DecidableEq, Repr

inductive Flag where
  | json
  | verbose
  | version
  | usage
  deriving DecidableEq, Repr

def ValueOption.ofName? : String → Option ValueOption
  | "--matrix" => some .matrix
  | "--rhs" => some .rhs
  | "--objective" => some .objective
  | "--dir" => some .dir
  | "--max-nodes" => some .maxNodes
  | "--int-tol" => some .intTol
  | "--lp-max-iter" => some .maxPivots
  | "--output" => some .output
  | _ => none

def Flag.ofName? : String → Option Flag
  | "--json" => some .json
  | "--verbose" => some .verbose
  | "--version" => some .version
  | "--help" => some .usage
  | _ => none

def Flag.ofLetter? : Char → Option Flag
  | 'v' => some .verbose
  | 'V' => some .version
  | 'h' => some .usage
  | _ => none

/-- The arguments read so far, with the options given. -/
structure Draft where
  arguments : Arguments := {}
  given : List ValueOption := []

/-- The end of the range of counts, `2 ^ 64`. -/
def countLimit : Nat := 18446744073709551616

/-- A natural number in the range of counts, with an optional plus sign. -/
def readCount? (text : String) : Option Nat :=
  let digits := match text.toList with
    | '+' :: rest => rest
    | chars => chars
  let n := Decimal.digitsValue digits
  if !digits.isEmpty && digits.all Char.isDigit && n < countLimit then some n else none

def ValueOption.assign? (o : ValueOption) (value : String) (a : Arguments) : Option Arguments :=
  if value.isEmpty then none
  else match o with
    | .matrix => some { a with matrix := value }
    | .rhs => some { a with rhs := value }
    | .objective => some { a with objective := value }
    | .dir => some { a with dir := some value }
    | .output => some { a with output := some value }
    | .maxNodes => (readCount? value).map fun n => { a with maxNodes := n }
    | .maxPivots => (readCount? value).map fun n => { a with maxPivots := n }
    | .intTol => (Decimal.read value).toOption.map fun v => { a with intTol := v }

namespace Draft

def take (d : Draft) (name : String) (o : ValueOption) (value : String) :
    Except UsageFault Draft :=
  if o ∈ d.given then .error (.repeated name)
  else match o.assign? value d.arguments with
    | some a => .ok { d with arguments := a, given := o :: d.given }
    | none => .error (.invalidValue name value)

/-- Raises a flag, written `name`; those that ask for something else than a solve end the
reading. -/
def raise (d : Draft) (name : String) (f : Flag) : Except UsageFault (Draft ⊕ Request) :=
  match f with
  | .version => .ok (.inr .version)
  | .usage => .ok (.inr .usage)
  | .json =>
    if d.arguments.json then .error (.repeated name)
    else .ok (.inl { d with arguments.json := true })
  | .verbose =>
    if d.arguments.verbose then .error (.repeated name)
    else .ok (.inl { d with arguments.verbose := true })

/-- Raises the flags of a cluster of letters in turn. -/
def raiseAll (d : Draft) (name : String) : List Char → Except UsageFault (Draft ⊕ Request)
  | [] => .ok (.inl d)
  | letter :: rest =>
    match Flag.ofLetter? letter with
    | none => .error (.unexpected name)
    | some f =>
      match d.raise name f with
      | .ok (.inl d) => d.raiseAll name rest
      | done => done

end Draft

/-- The name of an argument and the value behind its first equals sign. -/
def splitValue (argument : String) : String × Option String :=
  let chars := argument.toList
  let name := String.ofList (chars.takeWhile (· != '='))
  match chars.dropWhile (· != '=') with
  | [] => (name, none)
  | _ :: value => (name, some (String.ofList value))

/-- Whether an argument cannot be a value: it starts with a dash and is not one. -/
def isDashed (argument : String) : Bool :=
  argument.startsWith "-" && argument != "-"

def readFrom (d : Draft) : List String → Except UsageFault Request
  | [] => .ok (.solve d.arguments)
  | argument :: rest =>
    if argument = "--" then
      match rest with
      | [] => .ok (.solve d.arguments)
      | extra :: _ => .error (.unexpected extra)
    else if argument.startsWith "--" then
      let (name, value) := splitValue argument
      match ValueOption.ofName? name, Flag.ofName? name, value with
      | some o, _, some value =>
        match d.take name o value with
        | .ok d => readFrom d rest
        | .error fault => .error fault
      | some o, _, none =>
        match rest with
        | [] => .error (.missingValue name)
        | value :: rest =>
          if isDashed value then .error (.missingValue name)
          else match d.take name o value with
            | .ok d => readFrom d rest
            | .error fault => .error fault
      | none, some _, some _ => .error (.needlessValue name)
      | none, some f, none =>
        match d.raise name f with
        | .ok (.inl d) => readFrom d rest
        | .ok (.inr request) => .ok request
        | .error fault => .error fault
      | none, none, _ => .error (.unexpected argument)
    else if isDashed argument then
      match d.raiseAll argument (argument.toList.drop 1) with
      | .ok (.inl d) => readFrom d rest
      | .ok (.inr request) => .ok request
      | .error fault => .error fault
    else .error (.unexpected argument)

def read (arguments : List String) : Except UsageFault Request :=
  readFrom {} arguments

end BranchBound.Command

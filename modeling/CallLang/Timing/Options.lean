/-
# `CallLang.Timing.Options` — the command line of the benchmark

    --ns SIZES        comma-separated sizes
    --samples COUNT   timing samples
    --json-out PATH   optional output document
    -h, --help

An option may be shortened to any beginning that fits it alone, and its value
may be attached with an equals sign.  Two dashes as attached value leave the
option without a value, whatever it had before.  What begins with a dash is no
value otherwise, unless it is a number or holds a space.  All arguments are
classified before any of them takes effect; then they take effect from left to
right.
-/
import CallLang.Text.IntegerText

namespace CallLang

/-- What the command line asks for; an option may be without a value. -/
structure Options where
  sizes : Option String := some "8,64,128"
  samples : Option Int := some 3
  output : Option String := some ""
  deriving DecidableEq, Repr

/-- Why a command line is not carried out. -/
inductive OptionsError
  | help
  | refused
  deriving DecidableEq, Repr

/-- The code with which the program ends. -/
def OptionsError.exitCode : OptionsError → Nat
  | .help => 0
  | .refused => 2

/-! ## Classifying arguments -/

/-- The options. -/
inductive Flag
  | help
  | sizes
  | samples
  | output
  deriving DecidableEq, Repr

namespace Flag

/-- The long form of an option. -/
def long : Flag → List Char
  | .help => "--help".toList
  | .sizes => "--ns".toList
  | .samples => "--samples".toList
  | .output => "--json-out".toList

/-- All options. -/
def all : List Flag :=
  [.help, .sizes, .samples, .output]

/-- The option of exactly this form. -/
def ofText? (cs : List Char) : Option Flag :=
  if cs = ['-', 'h'] then some .help else all.find? (·.long = cs)

/-- The options whose long form begins like this. -/
def beginning (cs : List Char) : List Flag :=
  all.filter fun f => cs.isPrefixOf f.long

end Flag

/-- What an argument is.  An option in its short form may have something
attached. -/
inductive Argument
  | value (text : List Char)
  | separator
  | flag (f : Flag) (attached : Option (List Char))
  | letters (attached : List Char)
  | unknown
  | ambiguous
  deriving DecidableEq, Repr

/-- Whether a text is a number with a minus sign, in digits of any script, with
at most one line feed behind it. -/
def isNegativeNumber (cs : List Char) : Bool :=
  let isAnyDigit (c : Char) : Bool := (decimalDigitValue? c).isSome
  match dropFinalNewline cs with
  | '-' :: rest =>
    match rest.dropWhile isAnyDigit with
    | [] => rest ≠ []
    | '.' :: places => places ≠ [] && places.all isAnyDigit
    | _ => false
  | _ => false

/-- Splits a text at its first equals sign. -/
def splitAttached (cs : List Char) : List Char × Option (List Char) :=
  match cs.dropWhile (· ≠ '=') with
  | [] => (cs, none)
  | _ :: value => (cs.takeWhile (· ≠ '='), some value)

/-- Classifies an argument that begins with a dash and is no option in full. -/
def classifyDashed (cs : List Char) : Argument :=
  let other : Argument :=
    if isNegativeNumber cs || cs.contains ' ' then .value cs else .unknown
  match cs with
  | '-' :: '-' :: _ =>
    let (name, attached) := splitAttached cs
    match Flag.beginning name with
    | [] => other
    | [f] => .flag f attached
    | _ => .ambiguous
  | '-' :: 'h' :: attached => .letters attached
  | _ => other

/-- Classifies an argument. -/
def classify (cs : List Char) : Argument :=
  if cs.head? ≠ some '-' then .value cs
  else if cs = ['-', '-'] then .separator
  else match Flag.ofText? cs with
    | some f => .flag f none
    | none =>
      if cs = ['-'] then .value cs
      else
        let (name, attached) := splitAttached cs
        match attached, Flag.ofText? name with
        | some value, some f => if name = ['-', 'h'] then .letters value else .flag f attached
        | _, _ => classifyDashed cs

/-- Classifies a row of arguments; behind a separator there are only values. -/
def classifyAll : List (List Char) → List Argument
  | [] => []
  | cs :: rest =>
    match classify cs with
    | .separator => .separator :: rest.map .value
    | a => a :: classifyAll rest

/-! ## Carrying them out -/

/-- Gives an option its value. -/
def Options.set (o : Options) (f : Flag) (value : List Char) : Except OptionsError Options :=
  match f with
  | .help => .error .refused
  | .sizes => .ok { o with sizes := some (String.ofList value) }
  | .samples =>
    match readInteger value with
    | .ok n => .ok { o with samples := some n }
    | .error _ => .error .refused
  | .output => .ok { o with output := some (String.ofList value) }

/-- Leaves an option without a value. -/
def Options.unset (o : Options) (f : Flag) : Except OptionsError Options :=
  match f with
  | .help => .error .refused
  | .sizes => .ok { o with sizes := none }
  | .samples => .ok { o with samples := none }
  | .output => .ok { o with output := none }

/-- Gives an option the value that is attached to it. -/
def Options.attach (o : Options) (f : Flag) (value : List Char) : Except OptionsError Options :=
  if value = ['-', '-'] then o.unset f else o.set f value

/-- What a request for help leads to that has something attached.  It may be
repeated any number of times, but takes no value. -/
def helpWith (attached : List Char) : OptionsError :=
  if attached ≠ [] ∧ attached.all (· = 'h') then .help else .refused

/-- Carries out classified arguments.  An argument that belongs to no option is
refused once all options have had their effect. -/
def Options.apply (o : Options) (leftover : Bool) : List Argument → Except OptionsError Options
  | [] => if leftover then .error .refused else .ok o
  | .flag .help none :: _ => .error .help
  | .letters attached :: _ => .error (helpWith attached)
  | .flag f (some value) :: rest => do
    let o ← o.attach f value
    o.apply leftover rest
  | .flag f none :: .value value :: rest => do
    let o ← o.set f value
    o.apply leftover rest
  | .flag _ none :: _ => .error .refused
  | _ :: rest => o.apply true rest

/-- The options that a command line asks for. -/
def Options.read (arguments : List String) : Except OptionsError Options :=
  let classified := classifyAll (arguments.map String.toList)
  if classified.contains .ambiguous then .error .refused
  else ({} : Options).apply false classified

/-- The sizes of a comma-separated row; empty places are passed over. -/
def readSizes (text : String) : Except IntegerTextError (List Int) :=
  let places := (text.splitOn ",").map fun place => trimSpaces place.toList
  (places.filter (· ≠ [])).mapM readInteger

/-! ## Paths -/

/-- A path without empty and `.` parts.  Two slashes at the start stay, more
count as one. -/
def plainPath (path : String) : String :=
  let parts := (path.splitOn "/").filter fun part => part ≠ "" && part ≠ "."
  let slashes := (path.toList.takeWhile (· = '/')).length
  let root := if slashes = 2 then "//" else if slashes = 0 then "" else "/"
  let whole := root ++ "/".intercalate parts
  if whole = "" then "." else whole

/-- Whether a plain path can only be that of a directory: it ends in no name of
its own. -/
def endsInDirectory (path : String) : Bool :=
  ["", ".", ".."].contains ((path.splitOn "/").getLast?.getD "")

end CallLang

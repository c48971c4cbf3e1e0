import GoalSearch.Config.Field
import GoalSearch.Number.Reader

/-!
# Command-line arguments

Every field of a configuration is an option of the command line, beside a few general ones. An option
may be written with dashes for its underscores, may be cut short as long as it stays the only one, and
may have its value in the same word, behind an equals sign. An option that is on or off may have a
value or none, and has a second form that switches it off.
-/

namespace GoalSearch.Command

def version : String := "mosacore 0.1.0"

structure Request where
  verbosity : Nat := 0
  plain : Bool := false
  logFile : Option String := none
  config : Config := {}

inductive Reading where
  | request (r : Request)
  | version
  | help
  /-- A form that switches off has a value. The program ends at once, but not as after a fault. -/
  | denied
  | invalid

inductive Switch where
  | help
  | version
  | verbose
  | plain
  | logFile
  | field (f : Field)
  | off (f : Field)

namespace Switch

inductive Arity where
  | none
  | maybe
  | one
deriving DecidableEq

def arity : Switch → Arity
  | help | version | verbose | plain => .none
  | logFile => .one
  | field f | off f =>
    match f.get {} with
    | .flag _ => .maybe
    | _ => .one

/-- A name that the forms of one option share. -/
def key : Switch → String
  | help => "help"
  | version => "version"
  | verbose => "verbose"
  | plain => "no_rich"
  | logFile => "log_file"
  | field f | off f => f.name

end Switch

def dashed (name : String) : String := name.map fun c => if c = '_' then '-' else c

def fieldForms (f : Field) : List (String × Switch) :=
  let forms := if dashed f.name = f.name then [f.name] else [f.name, dashed f.name]
  let on := forms.map fun s => ("--" ++ s, Switch.field f)
  match f.get {} with
  | .flag _ => on ++ forms.map fun s => ("--no" ++ s, Switch.off f)
  | _ => on

def forms : List (String × Switch) :=
  [("-h", .help), ("--help", .help), ("--version", .version), ("-v", .verbose),
    ("--verbose", .verbose), ("--no-rich", .plain), ("--no_rich", .plain), ("--log-file", .logFile),
    ("--log_file", .logFile)] ++ Config.fields.flatMap fieldForms

/-- The help text: every form of every option on a line of its own. -/
def usage : List String := "Options:" :: forms.map fun (form, _) => "  " ++ form

/-! ## Sorting the words -/

inductive Word where
  | plain (s : String)
  /-- An option, with the value behind its equals sign or the letters behind its own. -/
  | option (s : Switch) (short : Bool) (value : Option String)
  /-- Looks like an option but is none. -/
  | unknown

def isNegativeNumber (s : String) : Bool :=
  match s.toList with
  | '-' :: rest =>
    let rest := if rest.getLast? = some '\n' then rest.dropLast else rest
    let isDigit (c : Char) : Bool := (Text.digit? c).isSome
    match rest.dropWhile isDigit with
    | [] => !rest.isEmpty
    | '.' :: places => !places.isEmpty && places.all isDigit
    | _ => false
  | _ => false

def splitValue (s : String) : String × Option String :=
  let cs := s.toList
  match cs.dropWhile (· ≠ '=') with
  | [] => (s, none)
  | _ :: value => (String.ofList (cs.takeWhile (· ≠ '=')), some (String.ofList value))

def candidates (s : String) : List Word :=
  if s.startsWith "--" then
    let (name, value) := splitValue s
    (forms.filter fun (form, _) => form.startsWith name).map fun (_, x) => .option x false value
  else
    let letters := String.ofList (s.toList.drop 2)
    forms.filterMap fun (form, x) =>
      if form.toList = s.toList.take 2 then some (.option x true (some letters))
      else if form.startsWith s then some (.option x false none)
      else none

def sameOption : Word → Word → Bool
  | .option x _ _, .option y _ _ => x.key = y.key
  | _, _ => false

/-- Tells options from values. A word that may be short for several options is a fault. -/
def sortWord (s : String) : Option Word :=
  if !s.startsWith "-" || s = "-" then some (.plain s)
  else
    match forms.lookup s with
    | some x => some (.option x (s.length = 2) none)
    | none =>
      let (name, value) := splitValue s
      match value, forms.lookup name with
      | some value, some x => some (.option x (name.length = 2) (some value))
      | _, _ =>
        match candidates s with
        | [] => some (if isNegativeNumber s || s.contains ' ' then .plain s else .unknown)
        | x :: others => if others.all (sameOption x) then some x else none

/-- Sorts all words. After a word of two dashes there are no options. -/
def sortWords : List String → Option (List Word)
  | [] => some []
  | "--" :: rest => some (.unknown :: rest.map .plain)
  | s :: rest => do return (← sortWord s) :: (← sortWords rest)

/-! ## Taking the options -/

def truth? (s : String) : Option Bool :=
  match String.ofList ((Text.trim s.toList).map Char.toLower) with
  | "yes" | "true" | "t" | "y" | "1" => some true
  | "no" | "false" | "f" | "n" | "0" => some false
  | _ => none

def fieldValue? (f : Field) (s : String) : Option OptionValue :=
  match f.get {} with
  | .integer _ => (Reader.int? s).map .integer
  | .optional _ => (Reader.int? s).map fun n => .optional (some n)
  | .real _ => (Reader.float? s).map .real
  | .flag _ => (truth? s).map .flag
  | .name _ => (Strategy.ofName? s).map fun x => .name x.name

/-- A path without empty parts and parts that stay in place. -/
def tidyPath (s : String) : String :=
  let root :=
    if s.startsWith "//" && !s.startsWith "///" then "//" else if s.startsWith "/" then "/" else ""
  let parts := (s.splitOn "/").filter fun part => part ≠ "" ∧ part ≠ "."
  let path := root ++ "/".intercalate parts
  if path.isEmpty then "." else path

/-- The request with an option and its value. A form that switches off must not have one. -/
def apply (r : Request) : Switch → Option String → Except Reading Request
  | .verbose, none => .ok { r with verbosity := r.verbosity + 1 }
  | .plain, none => .ok { r with plain := true }
  | .logFile, some path => .ok { r with logFile := some (tidyPath path) }
  | .field f, some s =>
    match fieldValue? f s with
    | some v => .ok { r with config := f.set v r.config }
    | none => .error .invalid
  | .field f, none => .ok { r with config := f.set (.flag true) r.config }
  | .off f, none => .ok { r with config := f.set (.flag false) r.config }
  | .off _, some s => .error (if (truth? s).isSome then .denied else .invalid)
  | _, _ => .error .invalid

/-- Takes the options of some letters, all of which take no value. Letters that are no options are
left over, and the flag tells so. -/
def applyLetters (r : Request) (clean : Bool) : List Char → Except Reading (Request × Bool)
  | [] => .ok (r, clean)
  | 'v' :: '=' :: _ => .error .invalid
  | 'v' :: '-' :: _ => .error .invalid
  | 'v' :: rest => applyLetters { r with verbosity := r.verbosity + 1 } clean rest
  | 'h' :: _ => .error .help
  | _ => .ok (r, false)

/-- Takes an option, whose value may stand behind it in the same word or be the next word. Tells the
request, whether everything in its word was taken, and whether the next word was. -/
def takeOption (r : Request) (x : Switch) (short : Bool) (value next : Option String) :
    Except Reading (Request × Bool × Bool) :=
  let applied (value : Option String) (used : Bool) : Except Reading (Request × Bool × Bool) :=
    return (← apply r x value, true, used)
  match x, short, value with
  | .help, _, none => .error .help
  | .version, _, none => .error .version
  | .verbose, true, some letters =>
    match letters.toList with
    | [] => .error .invalid
    | '-' :: _ => .error .invalid
    | letters => do
      let (r, clean) ← applyLetters { r with verbosity := r.verbosity + 1 } true letters
      return (r, clean, false)
  | _, _, _ =>
    match x.arity, value, next with
    | .none, none, _ => applied none false
    | .none, some _, _ => .error .invalid
    | _, some s, _ => applied (some s) false
    | _, none, some s => applied (some s) true
    | .maybe, none, none => applied none false
    | .one, none, none => .error .invalid

def nextValue : List Word → Option String
  | .plain s :: _ => some s
  | _ => none

/-- Takes the words one by one, leaving out the first one if it was taken as a value. The request is
granted if all words are taken. -/
def take (r : Request) (clean used : Bool) : List Word → Reading
  | [] => if clean then .request r else .invalid
  | word :: rest =>
    if used then take r clean false rest
    else
      match word with
      | .option x short value =>
        match takeOption r x short value (nextValue rest) with
        | .ok (r, whole, used) => take r (clean && whole) used rest
        | .error reading => reading
      | _ => take r false false rest

/-- Reads a command line. Words that name files of arguments have to be replaced before. -/
def read (words : List String) : Reading :=
  if words.any (·.startsWith "@") then .invalid
  else
    match sortWords words with
    | some words => take {} true false words
    | none => .invalid

end GoalSearch.Command

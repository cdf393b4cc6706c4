/-
The command line: what the arguments ask for, and what is printed and written for it.  What a run can
reach is a value here, a `Host`, so that a run is a function of it; `Response` is the part of a run that
does not depend on how files are read and written.
-/
import ShaderLift.Report

namespace ShaderLift.CommandLine

/-! ### Arguments -/

structure Request where
  input : String
  profile : String := "glsl"
  mainName : String := "main"
  flipRenderTarget : Bool := false
  depthClipping : Bool := false
  json : Bool := false
  output : Option String := none
  /-- Whether a log is kept on standard error. -/
  verbose : Bool := false
  deriving Repr, DecidableEq

inductive Flag where
  | flipRenderTarget
  | depthClipping
  | json
  | verbose
  deriving Repr, DecidableEq

inductive Setting where
  | profile
  | mainName
  | output
  deriving Repr, DecidableEq

/-- What an argument is taken for. -/
inductive Argument where
  | flag (f : Flag)
  | setting (k : Setting) (value : String)
  | path (value : String)
  deriving Repr, DecidableEq

def longName? (s : String) : Option (Flag ⊕ Setting) :=
  if s = "profile" then some (.inr .profile)
  else if s = "main-fn" then some (.inr .mainName)
  else if s = "output" then some (.inr .output)
  else if s = "flip-render-target" then some (.inl .flipRenderTarget)
  else if s = "depth-clipping" then some (.inl .depthClipping)
  else if s = "json" then some (.inl .json)
  else if s = "verbose" then some (.inl .verbose)
  else none

/-- Whether an argument looks like an option; a single dash does not. -/
def looksLikeOption (arg : List Char) : Bool :=
  match arg with
  | '-' :: _ :: _ => true
  | _ => false

/-- The value of an option that stands in the next argument. -/
def nextValue? (k : Setting) : List (List Char) → Option (Argument × List (List Char))
  | [] => none
  | arg :: rest =>
    if looksLikeOption arg then none else some (.setting k (String.ofList arg), rest)

/-- Reads a long option.  A value follows an equals sign or is the next argument. -/
def readLong (arg : List Char) (rest : List (List Char)) :
    Option (List Argument × List (List Char)) :=
  let (name, value) := arg.span fun c => c != '='
  match longName? (String.ofList name), value with
  | some (.inl f), [] => some ([.flag f], rest)
  | some (.inr k), [] => (nextValue? k rest).map fun r => ([r.1], r.2)
  | some (.inr k), _ :: value => some ([.setting k (String.ofList value)], rest)
  | _, _ => none

/-- Reads short options behind one dash; the one with a value comes last. -/
def readShort (rest : List (List Char)) : List Char → Option (List Argument × List (List Char))
  | [] => some ([], rest)
  | 'v' :: cs => (readShort rest cs).map fun r => (.flag .verbose :: r.1, r.2)
  | ['o'] => (nextValue? .output rest).map fun r => ([r.1], r.2)
  | 'o' :: '=' :: cs => some ([.setting .output (String.ofList cs)], rest)
  | 'o' :: cs => some ([.setting .output (String.ofList cs)], rest)
  | _ => none

/-- Reads the arguments one by one; after two dashes only paths follow.  The first number bounds how
many arguments there are. -/
def readArguments : Nat → List (List Char) → Option (List Argument)
  | _, [] => some []
  | 0, _ => none
  | n + 1, arg :: rest =>
    match arg with
    | ['-', '-'] => some (rest.map fun a => .path (String.ofList a))
    | '-' :: '-' :: name => do
      let (found, rest) ← readLong name rest
      return found ++ (← readArguments n rest)
    | '-' :: c :: cs => do
      let (found, rest) ← readShort rest (c :: cs)
      return found ++ (← readArguments n rest)
    | _ => do return .path (String.ofList arg) :: (← readArguments n rest)

def Argument.sameAs : Argument → Argument → Bool
  | .flag f, .flag g => f = g
  | .setting k _, .setting m _ => k = m
  | .path _, .path _ => true
  | _, _ => false

def distinct : List Argument → Bool
  | [] => true
  | a :: as => !as.any a.sameAs && distinct as

def settingOf? (k : Setting) (as : List Argument) : Option String :=
  as.findSome? fun
    | .setting m value => if m = k then some value else none
    | _ => none

def pathOf? (as : List Argument) : Option String :=
  as.findSome? fun
    | .path value => some value
    | _ => none

/-- Reads the arguments; there has to be one path, nothing may be set twice, and paths are not
empty. -/
def request? (args : List String) : Option Request := do
  let found ← readArguments args.length (args.map String.toList)
  let input ← pathOf? found
  let output := settingOf? .output found
  if !distinct found || input = "" || output = some "" then none
  else
    return {
      input
      profile := (settingOf? .profile found).getD "glsl"
      mainName := (settingOf? .mainName found).getD "main"
      flipRenderTarget := found.contains (.flag .flipRenderTarget)
      depthClipping := found.contains (.flag .depthClipping)
      json := found.contains (.flag .json)
      output
      verbose := found.contains (.flag .verbose) }

/-! ### Responses -/

/-- A text of several lines, every line indented by four spaces. -/
def indented (text : String) : String :=
  "    " ++ String.ofList (text.toList.flatMap fun c => if c = '\n' then "\n    ".toList else [c])

def failure (step path cause : String) : String :=
  "Error: " ++ step ++ " " ++ path ++ "\n\nCaused by:\n" ++ indented cause ++ "\n"

def Request.options (r : Request) : Options :=
  { mainName := r.mainName
    flipRenderTarget := r.flipRenderTarget
    depthClipping := r.depthClipping
    filename := some r.input }

/-- What is to be delivered, if anything: the report, or the program if nothing is wrong. -/
def rendered? (r : Request) (l : Lifted) : Option String :=
  if r.json then some ((Report.ofLifted l).text ++ "\n")
  else if l.isOk then some l.output
  else none

/-- What is said about the faults of a shader: a line for each of them and a summary. -/
def complaint (r : Request) (l : Lifted) : String :=
  if l.isOk then ""
  else
    String.join (l.errors.map fun d => d.text ++ "\n")
      ++ "Error: " ++ toString l.errors.length ++ " error(s) translating " ++ r.input ++ "\n"

/-- What is done for a request once the input was looked at. -/
inductive Response where
  /-- Nothing can be delivered. -/
  | refusal (complaint : String)
  /-- Something is delivered, or nothing, and then the faults are told. -/
  | delivery (text : Option String) (complaint : String)
  deriving Repr, DecidableEq

/-- The response to a request, given what the input holds or why it cannot be read. -/
def respond (r : Request) (input : Except String (List UInt8)) : Response :=
  match input with
  | .error cause => .refusal (failure "read" r.input cause)
  | .ok bytes =>
    match lift? r.profile r.options (Word.listOfBytes bytes) with
    | none => .refusal (failure "translate" r.input (unknownProfile r.profile))
    | some l => .delivery (rendered? r l) (complaint r l)

/-! ### Runs -/

/-- What a run can reach.  Where a text cannot be delivered whole, some of it may have been. -/
structure Host where
  /-- What a file holds, or why it cannot be read. -/
  read : String → Except String (List UInt8)
  /-- Under which name a file is written with a text, or why it cannot be and which file that leaves. -/
  write : String → String → Except (String × Option (String × String)) String
  /-- Whether a text can be printed, or why not and what is printed then. -/
  print : String → Except (String × String) Unit
  /-- Whether the environment asks for a log, as an option can. -/
  logging : Bool
  /-- The log of a shader, with the times of it. -/
  log : String

structure Outcome where
  exitCode : Nat
  stdout : String := ""
  stderr : String := ""
  /-- The file written, with its text. -/
  written : Option (String × String) := none
  deriving Repr, DecidableEq

def exitCodeOf (complaint : String) : Nat := if complaint = "" then 0 else 1

/-- What comes to standard error while a shader is lifted: nothing, unless there is a log. -/
def Host.logged (host : Host) (r : Request) : String :=
  if r.verbose || host.logging then host.log else ""

/-- Delivers a text and then says what there is to say of the shader, or why it was not delivered. -/
def Host.deliver (host : Host) (output : Option String) (text complaint : String) : Outcome :=
  match output with
  | none =>
    match host.print text with
    | .ok () => { exitCode := exitCodeOf complaint, stdout := text, stderr := complaint }
    | .error (cause, part) => { exitCode := 1, stdout := part, stderr := failure "write" "stdout" cause }
  | some path =>
    match host.write path text with
    | .ok name => { exitCode := exitCodeOf complaint, stderr := complaint, written := some (name, text) }
    | .error (cause, left) => { exitCode := 1, stderr := failure "write" path cause, written := left }

/-- Carries a request out.  The log is kept while a shader is lifted, so it comes first. -/
def Host.run (host : Host) (r : Request) : Outcome :=
  match respond r (host.read r.input) with
  | .refusal complaint => { exitCode := 1, stderr := complaint }
  | .delivery none complaint =>
    { exitCode := exitCodeOf complaint, stderr := host.logged r ++ complaint }
  | .delivery (some text) complaint =>
    let o := host.deliver r.output text complaint
    { o with stderr := host.logged r ++ o.stderr }

/-! ### Files in a directory -/

/-- The causes for which a file cannot be read or written. -/
inductive FileFault where
  | missing
  | notADirectory
  | isADirectory
  deriving Repr, DecidableEq

def FileFault.message : FileFault → String
  | .missing => "No such file or directory (os error 2)"
  | .notADirectory => "Not a directory (os error 20)"
  | .isADirectory => "Is a directory (os error 21)"

abbrev Files := List (String × List UInt8)

inductive Target where
  | directory
  | entry (name : String)
  | below (name : String)
  | elsewhere
  deriving Repr, DecidableEq

def pathParts : List Char → List (List Char)
  | [] => [[]]
  | c :: cs =>
    if c = '/' then [] :: pathParts cs
    else
      match pathParts cs with
      | [] => [[c]]
      | part :: parts => (c :: part) :: parts

/-- What a path leads to.  A single dot and an empty part stand for the directory they are in. -/
def Target.ofPath (path : String) : Target :=
  let parts := pathParts path.toList
  let names := parts.filter fun p => p != [] && p != ['.']
  let trailing := (parts.getLast?.map fun p => p = [] || p = ['.']).getD false
  if parts.length > 1 && parts.head? = some [] then .elsewhere
  else if names.contains ['.', '.'] then .elsewhere
  else
    match names with
    | [] => .directory
    | [name] => if trailing then .below (String.ofList name) else .entry (String.ofList name)
    | name :: _ => .below (String.ofList name)

def Files.read (files : Files) (path : String) : Except FileFault (List UInt8) :=
  match Target.ofPath path with
  | .directory => .error .isADirectory
  | .entry name =>
    match files.lookup name with
    | some bytes => .ok bytes
    | none => .error .missing
  | .below name => .error (if (files.lookup name).isSome then .notADirectory else .missing)
  | .elsewhere => .error .missing

/-- The name under which a file would be written. -/
def Files.writable (files : Files) (path : String) : Except FileFault String :=
  match Target.ofPath path with
  | .directory => .error .isADirectory
  | .entry name => .ok name
  | .below name => .error (if (files.lookup name).isSome then .notADirectory else .missing)
  | .elsewhere => .error .missing

/-- The host whose files are those of one directory, which can print and keeps no log. -/
def Files.host (files : Files) : Host where
  read path := (files.read path).mapError FileFault.message
  write path _ := (files.writable path).mapError fun f => (f.message, none)
  print _ := .ok ()
  logging := false
  log := ""

def run (files : Files) (r : Request) : Outcome := files.host.run r

end ShaderLift.CommandLine

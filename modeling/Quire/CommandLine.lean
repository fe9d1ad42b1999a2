import Quire.Book

/-! The command line of the program: what its arguments ask for, and what it prints when that is
done. -/
namespace Quire.CommandLine

structure Invocation where
  settingsPath : String
  target : Option Target
  outDir : Option String
  parallel : Bool
  /-- How often more reports were asked for. -/
  verbosity : Nat
  chapters : List Nat
deriving DecidableEq, Repr

inductive ValueOption
  | config
  | target
  | out
deriving DecidableEq, Repr

inductive Switch
  | parallel
  | verbose
deriving DecidableEq, Repr

inductive Argument
  | value (option : ValueOption) (value : String)
  | switch (switch : Switch)
  | chapter (word : String)
deriving DecidableEq, Repr

def ValueOption.ofLong? : String → Option ValueOption
  | "config" => some config
  | "target" => some target
  | "out" => some out
  | _ => none

def ValueOption.ofShort? : Char → Option ValueOption
  | 'c' => some config
  | 't' => some target
  | 'o' => some out
  | _ => none

def Switch.ofLong? : String → Option Switch
  | "parallel" => some parallel
  | "verbose" => some verbose
  | _ => none

/-- What a word after one dash says: switches, and an option at last. Without a value behind it in
the same word, the option waits for the next word. -/
def shortWord : List Char → Option (List Argument × Option ValueOption)
  | [] => some ([], none)
  | 'v' :: cs => (shortWord cs).map fun (arguments, waiting) =>
      (.switch .verbose :: arguments, waiting)
  | c :: cs =>
    match ValueOption.ofShort? c, cs with
    | none, _ => none
    | some option, [] => some ([], some option)
    | some option, '=' :: value => some ([.value option (.ofList value)], none)
    | some option, value => some ([.value option (.ofList value)], none)

def longWord (cs : List Char) : Option (List Argument × Option ValueOption) :=
  let name := cs.takeWhile (· != '=')
  match cs.drop name.length with
  | _ :: value =>
    (ValueOption.ofLong? (.ofList name)).map fun option => ([.value option (.ofList value)], none)
  | [] =>
    match Switch.ofLong? (.ofList name), ValueOption.ofLong? (.ofList name) with
    | some switch, _ => some ([.switch switch], none)
    | none, some option => some ([], some option)
    | none, none => none

/-- Sorts words into arguments; none when one of them means nothing or a value is missing. After
two dashes alone every word is a chapter. -/
def arguments : Option ValueOption → List String → Option (List Argument)
  | none, [] => some []
  | some _, [] => none
  | waiting, word :: words =>
    match waiting, word.toList with
    | some _, ['-', '-'] => none
    | none, ['-', '-'] => some (words.map .chapter)
    | some _, '-' :: _ :: _ => none
    | none, '-' :: '-' :: cs => do
      let (front, waiting) ← longWord cs
      return front ++ (← arguments waiting words)
    | none, '-' :: c :: cs => do
      let (front, waiting) ← shortWord (c :: cs)
      return front ++ (← arguments waiting words)
    | some option, _ => (arguments none words).map (.value option word :: ·)
    | none, _ => (arguments none words).map (.chapter word :: ·)

def once (option : ValueOption) (all : List Argument) : Option (Option String) :=
  match all.filterMap fun
    | .value o v => if o = option then some v else none
    | _ => none with
  | [] => some none
  | [value] => some (some value)
  | _ => none

def pathOf : Option String → Option (Option String)
  | none => some none
  | some path => if path.isEmpty then none else some (some path)

def targetOf : Option String → Option (Option Target)
  | none => some none
  | some word => (Target.ofWord? word).map some

def Invocation.parse (words : List String) : Option Invocation := do
  let all ← arguments none words
  let settingsPath ← once .config all >>= pathOf
  let target ← once .target all >>= targetOf
  let outDir ← once .out all >>= pathOf
  let parallel := all.count (.switch .parallel)
  let chapters ← all.mapM fun
    | .chapter word => (Text.count? word).map fun n => [n]
    | _ => some []
  if parallel > 1 then none
  else
    some {
      settingsPath := settingsPath.getD "book.toml"
      target
      outDir
      parallel := parallel = 1
      verbosity := all.count (.switch .verbose)
      chapters := chapters.flatten }

structure Outcome where
  code : Nat
  output : List String
  complaints : List String
deriving DecidableEq, Repr

def Invocation.override (invocation : Invocation) (settings : Settings) : Settings :=
  { settings with
    target := invocation.target.getD settings.target
    outDir := invocation.outDir.getD settings.outDir
    parallel := settings.parallel || invocation.parallel }

def Invocation.perform (invocation : Invocation) (tools : Asset.Tools) (turns : List Nat) :
    Asset.Job Book.Report := fun disk =>
  match Settings.load disk invocation.settingsPath >>= fun settings =>
      Book.load tools (invocation.override settings) disk with
  | .error e => (.error e, disk)
  | .ok book => book.render turns invocation.chapters disk

def Outcome.ofReport (report : Book.Report) : Outcome where
  code := if report.isSuccess then 0 else 1
  output :=
    report.chapters.map (fun c => "Wrote " ++ c.output) ++
    report.flagged.flatMap (fun c => ("Chapter " ++ toString c.ordinal ++ ":") ::
      c.diagnostics.toList.map fun d => "  " ++ d.message) ++
    report.indexFiles.map ("Wrote " ++ ·)
  complaints :=
    report.failures.map (fun (ordinal, fault) =>
      "warning: chapter " ++ toString ordinal ++ " failed: " ++ fault.message) ++
    report.failures.map fun (ordinal, fault) =>
      "error: chapter " ++ toString ordinal ++ ": " ++ fault.message

def usage : String :=
  "Usage: quire [-c FILE] [-t html|quarto] [-o DIR] [--parallel] [-v]... [CHAPTER]..."

def run (tools : Asset.Tools) (turns : List Nat) (words : List String) (disk : Disk) :
    Outcome × Disk :=
  match Invocation.parse words with
  | none => (⟨2, [], [usage]⟩, disk)
  | some invocation =>
    match invocation.perform tools turns disk with
    | (.error fault, disk) => (⟨1, [], ["error: " ++ fault.message]⟩, disk)
    | (.ok report, disk) => (.ofReport report, disk)

end Quire.CommandLine

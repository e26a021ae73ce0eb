import Imprint.Command.Program
import Imprint.Proofs.EngineSteps
/-! # What a command writes

A command reads its configuration, its data and its template, stamps, and only then writes.  So one that fails
at any stage leaves every file as it was, and one that succeeds changes no file but its output, which then holds
the stamped document.  Behind the writing it only tells what it did.  A console that refuses to show that makes
the command fail, with the output written and every other file as it was. -/
set_option autoImplicit false
namespace Imprint.Command
open Imprint.Action Document Xml

/-! ## The directory afterwards -/

/-- The directory with a file under a path. -/
def Directory.withFile (directory : Directory) (path : Path) (content : File) : Directory :=
  { directory with files := (path, content) :: directory.files }

theorem Directory.file?_withFile (directory : Directory) (path : Path) (content : File) :
    (directory.withFile path content).file? path = some content := by
  simp [Directory.withFile, Directory.file?]

theorem Directory.file?_withFile_other (directory : Directory) {path other : Path} (content : File)
    (different : other ≠ path) : (directory.withFile path content).file? other = directory.file? other := by
  simp [Directory.withFile, Directory.file?, List.lookup_cons, beq_eq_false_iff_ne.mpr different]

/-- The directory that a report leaves. -/
def Report.leaves (report : Report) (directory : Directory) : Directory :=
  match report.written with
  | some (path, package) => directory.withFile path (.document package)
  | none => directory

/-! ## Consoles -/

namespace Console

variable (console : Console)

/-- A console shows messages behind others: it refuses none of them. -/
def Shows (before messages : List String) : Prop :=
  ∀ shown message rest, messages = shown ++ message :: rest → console.refusal? (before ++ shown) message = none

/-- A console shows some of the messages behind others and refuses the next one. -/
def Stops (before messages shown : List String) (fault : Fault) : Prop :=
  console.Shows before shown ∧
    ∃ message rest, messages = shown ++ message :: rest ∧ console.refusal? (before ++ shown) message = some fault

variable {console}

theorem Shows.nil (before : List String) : console.Shows before [] := by
  intro shown message rest split
  cases shown <;> cases split

theorem Shows.cons {before rest : List String} {message : String} (shown : console.refusal? before message = none)
    (others : console.Shows (before ++ [message]) rest) : console.Shows before (message :: rest) := by
  intro front next behind split
  cases front with
  | nil =>
    cases split
    rwa [List.append_nil]
  | cons first front =>
    cases split
    rw [List.append_cons]
    exact others front next behind rfl

theorem Stops.not_shows {before messages shown : List String} {fault : Fault}
    (stops : console.Stops before messages shown fault) : ¬ console.Shows before messages := by
  obtain ⟨-, message, rest, split, refused⟩ := stops
  intro shows
  rw [shows shown message rest split] at refused
  cases refused

/-- Messages are told up to the first one that the console refuses. -/
theorem tell_cases (console : Console) (before messages : List String) :
    (console.Shows before messages ∧ console.tell before messages = (before ++ messages, none)) ∨
      ∃ shown fault, console.Stops before messages shown fault ∧
        console.tell before messages = (before ++ shown, some fault) := by
  induction messages generalizing before with
  | nil => exact .inl ⟨.nil before, by rw [tell, List.append_nil]⟩
  | cons message rest hypothesis =>
    rw [tell]
    cases answer : console.refusal? before message with
    | some fault =>
      exact .inr ⟨[], fault, ⟨.nil before, message, rest, rfl, by rwa [List.append_nil]⟩, by rw [List.append_nil]⟩
    | none =>
      dsimp only
      obtain ⟨shows, told⟩ | ⟨shown, fault, ⟨shows, next, behind, rfl, refused⟩, told⟩ :=
        hypothesis (before ++ [message])
      · exact .inl ⟨.cons answer shows, by rw [told, ← List.append_cons]⟩
      · rw [← List.append_cons] at refused told
        exact .inr ⟨message :: shown, fault, ⟨.cons answer shows, next, behind, rfl, refused⟩, told⟩

end Console

/-! ## Switches over a configuration -/

/-- The options of a configuration with what the switches of a request say in the place of what they are
about.  A default for unresolved expressions excludes leaving them empty, and the other way round. -/
def Request.merge (request : Request) (options : Replacer.Options) : Replacer.Options :=
  { options with
    failing := if request.lenient then .bool false else options.failing
    leaveEmpty :=
      if request.unresolvedDefault.isSome then .bool false
      else if request.leaveEmpty then .bool true else options.leaveEmpty
    replaceUnresolved :=
      if request.unresolvedDefault.isSome then .bool true
      else if request.leaveEmpty then .bool false else options.replaceUnresolved
    unresolvedDefault := (request.unresolvedDefault.map Value.text).getD options.unresolvedDefault
    replaceNull := if request.nullDefault.isSome then .bool true else options.replaceNull
    nullDefault := (request.nullDefault.map Value.text).getD options.nullDefault
    lineBreak := (request.lineBreak.map Value.text).getD options.lineBreak
    verbose := if request.verbose then .bool true else options.verbose }

/-- A configuration with the switches of a request. -/
def Request.merged (request : Request) (configuration : Configuration) : Configuration :=
  { configuration with replacement := request.merge configuration.replacement }

theorem Request.configure_eq_merged (request : Request) (configuration : Configuration) :
    request.configure configuration = request.merged configuration := by
  obtain ⟨template, data, output, file, lenient, leaveEmpty, unresolvedDefault, nullDefault, lineBreak, verbose⟩ :=
    request
  cases lenient <;> cases leaveEmpty <;> cases unresolvedDefault <;> cases nullDefault <;> cases lineBreak <;>
    cases verbose <;> rfl

/-- The configuration in the file that a request names, or the standard one. -/
def Request.base (request : Request) (directory : Directory) : Heap Configuration :=
  match request.configuration with
  | some name => if name = "" then pure .standard else directory.readConfiguration name
  | none => pure .standard

theorem Request.readConfiguration_eq (request : Request) (directory : Directory) :
    request.readConfiguration directory = do
      let base ← request.base directory
      (request.merged base).validate
      return request.merged base := by
  unfold Request.readConfiguration Request.base
  simp only [Request.configure_eq_merged]
  cases request.configuration with
  | none => rfl
  | some name => by_cases empty : name = "" <;> simp only [empty, if_true, if_false]

/-! ## The stages of a command -/

/-- All stages of a command succeed, and a stamping run ends on this machine.  The data is stamped into the
template with a stamper for the merged configuration, on the store that the stages before have left. -/
inductive Stamps (directory : Directory) (request : Request) (output : Path) (machine : Machine World) : Prop where
  | stages {base : Configuration} {data : Value} {stamper : Stamper} {template : Package}
      {first second third store : Store}
      (configured : runOn (request.base directory) .empty = (.ok base, first))
      (valid : runOn (request.merged base).validate first = (.ok (), second))
      (loaded : runOn (request.readData directory) second = (.ok data, third))
      (made : runOn (Stamper.make (request.merged base) [] []) third = (.ok stamper, store))
      (opened : directory.readDocument (Path.ofText request.template) = .ok template)
      (stamped : runOn (Engine.stamp stamper data) ⟨store, .ofPackage template Handler.standard []⟩ = (.ok (), machine))
      (writable : directory.requireWritable output = .ok ())

/-- The stamped document on a machine. -/
def stampedOn (machine : Machine World) : Package :=
  .ofTemplate machine.outer.template machine.outer.forest

theorem prepare_ok {directory : Directory} {request : Request} {configuration : Configuration} {data : Value}
    {start final : Store} :
    runOn (prepare directory request) start = (.ok (configuration, data), final) ↔
      ∃ base first second, runOn (request.base directory) start = (.ok base, first) ∧
        runOn (request.merged base).validate first = (.ok (), second) ∧ request.merged base = configuration ∧
          runOn (request.readData directory) second = (.ok data, final) := by
  unfold prepare
  rw [Request.readConfiguration_eq]
  constructor
  · intro accepted
    obtain ⟨found, second, read, accepted⟩ := bind_ok accepted
    obtain ⟨base, first, configured, read⟩ := bind_ok read
    obtain ⟨⟨⟩, middle, valid, same⟩ := bind_ok read
    obtain ⟨value, last, loaded, accepted⟩ := bind_ok accepted
    cases same
    cases accepted
    exact ⟨base, first, second, configured, valid, rfl, loaded⟩
  · rintro ⟨base, first, second, configured, valid, rfl, loaded⟩
    simp only [runOn_bind, configured, valid, loaded, runOn_pure]

theorem openTemplate_ok {directory : Directory} {path : Path} {configuration : Configuration} {stamper : Stamper}
    {template : Package} {start final : Store} :
    runOn (openTemplate directory path configuration) start = (.ok (stamper, template), final) ↔
      runOn (Stamper.make configuration [] []) start = (.ok stamper, final) ∧
        directory.readDocument path = .ok template := by
  unfold openTemplate
  constructor
  · intro accepted
    obtain ⟨found, middle, made, accepted⟩ := bind_ok accepted
    cases opened : directory.readDocument path with
    | error fault => rw [opened] at accepted; cases accepted
    | ok package => rw [opened] at accepted; cases accepted; exact ⟨made, rfl⟩
  · rintro ⟨made, opened⟩
    rw [runOn_bind, made, opened]
    rfl

theorem stampDocument_ok {stamper : Stamper} {data : Value} {directory : Directory} {output : Path}
    {start machine : Machine World} {package : Package} :
    runOn (stampDocument stamper data directory output) start = (.ok package, machine) ↔
      runOn (Engine.stamp stamper data) start = (.ok (), machine) ∧
        directory.requireWritable output = .ok () ∧ package = stampedOn machine := by
  unfold stampDocument
  constructor
  · intro accepted
    obtain ⟨⟨⟩, middle, stamped, accepted⟩ := bind_ok accepted
    cases writable : directory.requireWritable output with
    | error fault => rw [writable] at accepted; cases accepted
    | ok granted => rw [writable] at accepted; cases accepted; exact ⟨stamped, rfl, rfl⟩
  · rintro ⟨stamped, writable, rfl⟩
    rw [runOn_bind, stamped, writable]
    rfl

theorem stamps_iff {directory : Directory} {request : Request} {output : Path} {machine : Machine World} :
    Stamps directory request output machine ↔
      ∃ configuration data store stamper template opened,
        runOn (prepare directory request) .empty = (.ok (configuration, data), store) ∧
        runOn (openTemplate directory (Path.ofText request.template) configuration) store =
          (.ok (stamper, template), opened) ∧
        runOn (stampDocument stamper data directory output)
          ⟨opened, .ofPackage template Handler.standard []⟩ = (.ok (stampedOn machine), machine) := by
  constructor
  · rintro ⟨configured, valid, loaded, made, opened, stamped, writable⟩
    exact ⟨_, _, _, _, _, _, prepare_ok.mpr ⟨_, _, _, configured, valid, rfl, loaded⟩,
      openTemplate_ok.mpr ⟨made, opened⟩, stampDocument_ok.mpr ⟨stamped, writable, rfl⟩⟩
  · rintro ⟨configuration, data, store, stamper, template, last, prepared, opened, stamped⟩
    obtain ⟨base, first, second, configured, valid, rfl, loaded⟩ := prepare_ok.mp prepared
    obtain ⟨made, opened⟩ := openTemplate_ok.mp opened
    obtain ⟨stamped, writable, -⟩ := stampDocument_ok.mp stamped
    exact .stages configured valid loaded made opened stamped writable

/-- The machine that the stamping run of a request ends on, if all stages succeed. -/
def reached? (directory : Directory) (request : Request) (output : Path) : Option (Machine World) :=
  match runOn (prepare directory request) .empty with
  | (.ok (configuration, data), store) =>
    match runOn (openTemplate directory (Path.ofText request.template) configuration) store with
    | (.ok (stamper, template), store) =>
      match runOn (stampDocument stamper data directory output) ⟨store, .ofPackage template Handler.standard []⟩ with
      | (.ok _, machine) => some machine
      | _ => none
    | _ => none
  | _ => none

theorem stamps_of_reached {directory : Directory} {request : Request} {output : Path} {machine : Machine World}
    (reached : reached? directory request output = some machine) : Stamps directory request output machine := by
  unfold reached? at reached
  split at reached
  case h_2 => cases reached
  rename_i prepared
  split at reached
  case h_2 => cases reached
  rename_i opened
  split at reached
  case h_2 => cases reached
  rename_i stamped
  cases reached
  obtain ⟨-, -, rfl⟩ := stampDocument_ok.mp stamped
  exact stamps_iff.mpr ⟨_, _, _, _, _, _, prepared, opened, stamped⟩

/-! ## The report -/

/-- The messages in front of the run of a request. -/
def Request.announced (request : Request) (output : Path) : List String :=
  announcement request (Path.ofText request.template) output

/-- The report behind the writing: it tells what the stamping run could not resolve, as far as the console
shows it. -/
def Report.concluded (console : Console) (request : Request) (output : Path) (machine : Machine World) : Report :=
  let written := some (output, stampedOn machine)
  let diagnostics := machine.outer.diagnostics.reverse
  match console.tell (request.announced output) (summary machine.outer.session.errors) with
  | (shown, some fault) => .failed shown diagnostics fault written
  | (shown, none) => ⟨0, shown.flatMap printed, diagnostics, written⟩

theorem carryOut_eq (console : Console) (directory : Directory) (request : Request) (output : Path) :
    carryOut console directory request output =
      let (prepared, store) := runOn (prepare directory request) .empty
      match prepared with
      | .error fault => .failed [] [] fault none
      | .ok (configuration, data) =>
        match console.tell [] (request.announced output) with
        | (shown, some fault) => .failed shown [] fault none
        | (shown, none) =>
          let (opened, store) := runOn (openTemplate directory (Path.ofText request.template) configuration) store
          match opened with
          | .error fault => .failed shown [] fault none
          | .ok (stamper, package) =>
            let (stamped, machine) := runOn (stampDocument stamper data directory output)
              ⟨store, .ofPackage package Handler.standard []⟩
            let diagnostics := machine.outer.diagnostics.reverse
            match stamped with
            | .error fault => .failed shown diagnostics fault none
            | .ok package =>
              let written := some (output, package)
              match console.tell shown (summary machine.outer.session.errors) with
              | (shown, some fault) => .failed shown diagnostics fault written
              | (shown, none) => ⟨0, shown.flatMap printed, diagnostics, written⟩ :=
  rfl

/-- A request either goes through all of its stages, or fails at one of them or at its announcement. -/
theorem carryOut_cases (console : Console) (directory : Directory) (request : Request) (output : Path) :
    (∃ machine, Stamps directory request output machine ∧ console.Shows [] (request.announced output) ∧
      carryOut console directory request output = .concluded console request output machine) ∨
    ((¬ ∃ machine, Stamps directory request output machine) ∨ ¬ console.Shows [] (request.announced output)) ∧
      ∃ shown diagnostics fault, carryOut console directory request output =
        .failed shown diagnostics fault none := by
  rw [carryOut_eq]
  simp only [stamps_iff]
  obtain ⟨prepared, store⟩ := runOn (prepare directory request) .empty
  obtain fault | ⟨configuration, data⟩ := prepared
  · exact .inr ⟨.inl (by simp), [], [], fault, rfl⟩
  dsimp only
  obtain ⟨shows, told⟩ | ⟨shown, fault, stops, told⟩ :=
    console.tell_cases [] (request.announced output)
  case inr =>
    rw [told]
    exact .inr ⟨.inr stops.not_shows, _, [], fault, rfl⟩
  rw [told]
  dsimp only
  cases opening : runOn (openTemplate directory (Path.ofText request.template) configuration) store with
  | mk opened middle =>
  obtain fault | ⟨stamper, template⟩ := opened
  · -- Stages that all succeed would begin with the ones that are run here, of which this one fails.
    refine .inr ⟨.inl ?_, _, [], fault, rfl⟩
    rintro ⟨machine, _, _, _, _, _, _, same, opened, -⟩
    cases same
    cases opening.symm.trans opened
  dsimp only
  cases stamping : runOn (stampDocument stamper data directory output)
    ⟨middle, .ofPackage template Handler.standard []⟩ with
  | mk stamped machine =>
  obtain fault | package := stamped
  · refine .inr ⟨.inl ?_, _, _, fault, rfl⟩
    rintro ⟨machine, _, _, _, _, _, _, same, opened, stamped⟩
    cases same
    cases opening.symm.trans opened
    cases stamping.symm.trans stamped
  · obtain ⟨-, -, rfl⟩ := stampDocument_ok.mp stamping
    exact .inl ⟨machine, ⟨_, _, _, _, _, _, rfl, opening, stamping⟩, shows, rfl⟩

/-- What a run has written stays, whether or not the console shows all of its summary. -/
theorem Report.concluded_cases (console : Console) (request : Request) (output : Path) (machine : Machine World) :
    (concluded console request output machine).written = some (output, stampedOn machine) ∧
      (((concluded console request output machine).exit = 1 ∧
          ∃ shown fault, console.Stops (request.announced output) (summary machine.outer.session.errors) shown fault ∧
            (concluded console request output machine).output = (request.announced output ++ shown).flatMap printed ∧
            (concluded console request output machine).diagnostics =
              machine.outer.diagnostics.reverse ++ printed ("Error: " ++ fault.message)) ∨
        (concluded console request output machine).exit = 0 ∧
          console.Shows (request.announced output) (summary machine.outer.session.errors) ∧
          (concluded console request output machine).output =
            (request.announced output ++ summary machine.outer.session.errors).flatMap printed) := by
  unfold concluded
  obtain ⟨shows, told⟩ | ⟨shown, fault, stops, told⟩ := console.tell_cases
    (request.announced output) (summary machine.outer.session.errors)
  · rw [told]
    exact ⟨rfl, .inr ⟨rfl, shows, rfl⟩⟩
  · rw [told]
    exact ⟨rfl, .inl ⟨rfl, shown, fault, stops, rfl, rfl⟩⟩

/-! ## What is left in the directory -/

theorem runWith_eq {words : List String} {request : Request} {output : Path}
    (accepted : Request.ofWords words = .ok request) (named : request.outputPath = .ok output)
    (console : Console) (directory : Directory) :
    runWith console directory words = .ok (.done (carryOut console directory request output)) := by
  simp only [runWith, accepted, named]
  rfl

/-- A command whose words make a request ends with a report, unless no output can be named.

If it reports failure, every file is as it was, and some stage has failed or the console has refused the
announcement; or else the stamping run of the request has succeeded, the output holds the document it made, no
other file has changed, and the console has refused a message of the summary.  If it reports success, then the
stamping run has succeeded, the output holds the document it made, no other file has changed, and the report lists
the expressions that the run could not resolve. -/
theorem run_writes {words : List String} {request : Request} (accepted : Request.ofWords words = .ok request)
    (console : Console) (directory : Directory) :
    (∃ fault, request.outputPath = .error fault ∧ runWith console directory words = .error fault) ∨
    ∃ output report, request.outputPath = .ok output ∧ runWith console directory words = .ok (.done report) ∧
      ((report.exit = 1 ∧ report.leaves directory = directory ∧
          ((¬ ∃ machine, Stamps directory request output machine) ∨ ¬ console.Shows [] (request.announced output)) ∧
          ∃ before, ∃ fault : Fault, report.diagnostics = before ++ printed ("Error: " ++ fault.message)) ∨
        ∃ machine, Stamps directory request output machine ∧ console.Shows [] (request.announced output) ∧
          (report.leaves directory).file? output = some (.document (stampedOn machine)) ∧
          (∀ path, path ≠ output → (report.leaves directory).file? path = directory.file? path) ∧
          ((report.exit = 1 ∧ ∃ shown fault,
              console.Stops (request.announced output) (summary machine.outer.session.errors) shown fault ∧
              report.output = (request.announced output ++ shown).flatMap printed ∧
              report.diagnostics = machine.outer.diagnostics.reverse ++ printed ("Error: " ++ fault.message)) ∨
            report.exit = 0 ∧ console.Shows (request.announced output) (summary machine.outer.session.errors) ∧
              report.output =
                (request.announced output ++ summary machine.outer.session.errors).flatMap printed)) := by
  cases named : request.outputPath with
  | error fault =>
    refine .inl ⟨fault, rfl, ?_⟩
    simp only [runWith, accepted, named]
    rfl
  | ok output =>
    refine .inr ⟨output, _, rfl, runWith_eq accepted named console directory, ?_⟩
    obtain ⟨machine, stamps, shows, reported⟩ | ⟨refused, told, diagnostics, fault, reported⟩ :=
      carryOut_cases console directory request output
    · obtain ⟨written, ended⟩ := Report.concluded_cases console request output machine
      rw [reported, Report.leaves, written]
      exact .inr ⟨machine, stamps, shows, directory.file?_withFile output _,
        fun path different => directory.file?_withFile_other _ different, ended⟩
    · rw [reported]
      exact .inl ⟨rfl, rfl, refused, diagnostics, fault, rfl⟩

/-- A directory with a template of one paragraph and data for it. -/
def Directory.holding (letters : List Char) : Directory :=
  ⟨[(⟨"", ["letter.docx"]⟩, .document ⟨Node.ofTag Tag.body [createParagraph [letters]], [], [], none, false⟩),
    (⟨"", ["data.json"]⟩, .text "\x7b\"name\": \"Ada\"\x7d")], []⟩

/-- A directory with a letter. -/
def Directory.ofLetter : Directory :=
  .holding "Dear $\x7bname\x7d".toList

/-- The request for a template and data alone. -/
def Request.ofLetter : Request :=
  ⟨"letter.docx", some "data.json", none, none, false, false, none, none, none, false⟩

/-- The report that a run ends with. -/
def reportOf : Except Fault Outcome → Option Report
  | .ok (.done report) => some report
  | _ => none

/-- The exit code of a run that ends with a report. -/
def exitOf (outcome : Except Fault Outcome) : Option Nat :=
  (reportOf outcome).map Report.exit

/-- The stamped letter stands in the directory, beside the template as it was. -/
theorem run_writes_letter :
    Request.ofWords ["letter.docx", "data.json"] = .ok .ofLetter ∧
      ∃ output report, runWith .unlimited .ofLetter ["letter.docx", "data.json"] = .ok (.done report) ∧
        Request.outputPath .ofLetter = .ok output ∧ report.exit = 0 ∧
        (∃ machine, Stamps .ofLetter .ofLetter output machine ∧
          (report.leaves .ofLetter).file? output = some (.document (stampedOn machine))) ∧
        ∀ path, path ≠ output → (report.leaves .ofLetter).file? path = Directory.ofLetter.file? path := by
  have accepted : Request.ofWords ["letter.docx", "data.json"] = .ok .ofLetter := rfl
  have exits : exitOf (runWith .unlimited .ofLetter ["letter.docx", "data.json"]) = some 0 := by decide +kernel
  obtain ⟨fault, -, failed⟩ | ⟨output, report, target, ran, ended⟩ := run_writes accepted .unlimited .ofLetter
  · rw [failed] at exits
    cases exits
  · have exit : report.exit = 0 := by simpa [ran, exitOf, reportOf] using exits
    obtain ⟨failed, -⟩ | ⟨machine, stamps, -, written, others, -⟩ := ended
    · cases exit.symm.trans failed
    · exact ⟨accepted, output, report, ran, target, exit, ⟨machine, stamps, written⟩, others⟩

/-- A directory with a letter that asks for what is not there, by a letter outside of the basic Latin alphabet. -/
def Directory.ofAccent : Directory :=
  .holding "$\x7bnames['\u00e9']\x7d".toList

/-- A name that is longer than what is shown of it. -/
def longName : List Char :=
  List.replicate 61 'a'

/-- A directory with a letter that asks for a long name. -/
def Directory.ofLongName : Directory :=
  .holding ("$\x7b".toList ++ longName ++ ['\x7d'])

/-- The request that goes on behind what is not resolved. -/
def Request.ofLenientLetter : Request :=
  { Request.ofLetter with lenient := true }

/-- The words of the request that goes on behind what is not resolved. -/
def lenientWords : List String :=
  ["letter.docx", "data.json", "--no-fail-on-unresolved"]

/-- The standard output of a letter. -/
def Path.ofStampedLetter : Path :=
  ⟨"", ["letter_stamped.docx"]⟩

/-- A command that fails can have written its output: its console refuses to show what was not resolved.  And what
is shown of an expression that was not resolved need not be the whole of it. -/
theorem run_writes_unheard :
    (∃ report machine, runWith .ascii .ofAccent lenientWords = .ok (.done report) ∧ report.exit = 1 ∧
      Stamps .ofAccent .ofLenientLetter .ofStampedLetter machine ∧
      Directory.ofAccent.file? .ofStampedLetter = none ∧
      (report.leaves .ofAccent).file? .ofStampedLetter = some (.document (stampedOn machine))) ∧
    ∃ report machine, runWith .unlimited .ofLongName lenientWords = .ok (.done report) ∧ report.exit = 0 ∧
      Stamps .ofLongName .ofLenientLetter .ofStampedLetter machine ∧
      machine.outer.session.errors = [(String.ofList longName, "expression is undefined")] ∧
      ∀ line ∈ report.output, ¬ longName <:+: line.toList := by
  have accepted : Request.ofWords lenientWords = .ok .ofLenientLetter := rfl
  have named : Request.outputPath .ofLenientLetter = .ok .ofStampedLetter := rfl
  constructor
  · have exits : (carryOut .ascii .ofAccent .ofLenientLetter .ofStampedLetter).exit = 1 := by decide +kernel
    have writes : (carryOut .ascii .ofAccent .ofLenientLetter .ofStampedLetter).written.isSome := by decide +kernel
    obtain ⟨machine, stamps, -, reported⟩ | ⟨-, shown, diagnostics, fault, reported⟩ :=
      carryOut_cases .ascii .ofAccent .ofLenientLetter .ofStampedLetter
    · obtain ⟨written, -⟩ := Report.concluded_cases .ascii .ofLenientLetter .ofStampedLetter machine
      rw [← reported] at written
      refine ⟨_, machine, runWith_eq accepted named .ascii .ofAccent, exits, stamps, rfl, ?_⟩
      rw [Report.leaves, written, Directory.file?_withFile]
    · rw [reported] at writes
      cases writes
  · have exits : (carryOut .unlimited .ofLongName .ofLenientLetter .ofStampedLetter).exit = 0 := by decide +kernel
    have lines : ∀ line ∈ (carryOut .unlimited .ofLongName .ofLenientLetter .ofStampedLetter).output,
        ¬ longName <:+: line.toList := by decide +kernel
    have errors : (reached? .ofLongName .ofLenientLetter .ofStampedLetter).map (·.outer.session.errors) =
        some [(String.ofList longName, "expression is undefined")] := by decide +kernel
    obtain ⟨machine, reached, errors⟩ := Option.map_eq_some_iff.mp errors
    exact ⟨_, machine, runWith_eq accepted named .unlimited .ofLongName, exits, stamps_of_reached reached, errors, lines⟩

end Imprint.Command

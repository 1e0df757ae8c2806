import BraceScript.Command
import BraceScript.Proofs.Eval.Displays
import BraceScript.Proofs.Eval.Rounds
import BraceScript.Proofs.Report

/-!
# Invocations of the command

The arguments of the command are read from left to right, but what they ask for does not depend on
their order: an option counts once, wherever and however often it stands, and the one argument that
is no option designates the source. On standard output an invocation writes what a run of that
source prints, and its status tells whether the run failed.
-/

namespace BraceScript

/-- Whether a piece of output goes to standard output. -/
def Emission.isPrinted : Emission → Bool
  | out _ | clearScreen => true
  | err _ | hostTrace => false

namespace Command

/-- What a command has written on standard output. -/
def Exit.printed (exit : Exit) : List Emission := exit.emissions.filter Emission.isPrinted

/-- What a command has written on standard error. -/
def Exit.reported (exit : Exit) : List Emission := exit.emissions.filter (!·.isPrinted)

/-- The options that lead to a program and take no value. -/
def switches : List String := ["--scoped", "--verbose", "--tokens", "--ast"]

/-- Whether an argument is no option. -/
def isOperand (argument : String) : Bool :=
  !(switches ++ ["-h", "--help"]).contains argument &&
    !"--timeout".toList.isPrefixOf argument.toList

/-- The arguments that are no options, in their order. -/
def operands (arguments : List String) : List String := arguments.filter isOperand

/-- Arguments with neither a time limit nor a request for help. -/
def Plain (arguments : List String) : Prop :=
  ∀ argument ∈ arguments, argument ∈ switches ∨ isOperand argument = true

/-- Arguments that ask for the tokens or for the tree, and not for both. -/
def OneDump (arguments : List String) : Prop := ¬ ("--tokens" ∈ arguments ∧ "--ast" ∈ arguments)

/-- The text that an argument designates, or that is meant where there is none. -/
inductive Designates (lookup : String → Option String) (input : String) :
    Option String → String → Prop
  | omitted : Designates lookup input none (readText input)
  | dash : Designates lookup input (some "-") (readText input)
  | file {name contents : String} : name ≠ "-" → lookup name = some contents →
    Designates lookup input (some name) (readText contents)
  | text {text : String} : text ≠ "-" → lookup text = none →
    Designates lookup input (some text) text

/-- Arguments that ask for a program to be run or shown: options that take no value, and at most one
    other argument, which designates the source text. -/
structure Requests (lookup : String → Option String) (input : String) (arguments : List String)
    (text : String) : Prop where
  plain : Plain arguments
  dump : OneDump arguments
  single : (operands arguments).length ≤ 1
  designates : Designates lookup input (operands arguments).head? text

/-! ## Reading arguments -/

/-- What arguments ask for in any order, on top of what was asked for before them. -/
def Options.extended (options : Options) (arguments : List String) : Options where
  blockScoped := options.blockScoped || "--scoped" ∈ arguments
  verbose := options.verbose || "--verbose" ∈ arguments
  timeout := options.timeout
  dump :=
    if "--tokens" ∈ arguments then some .tokens
    else if "--ast" ∈ arguments then some .tree
    else options.dump
  source := options.source.or (operands arguments).head?

/-- What the arguments of a command ask for, in any order. -/
def requested (arguments : List String) : Options := Options.extended {} arguments

variable {argument : String} {arguments rest : List String} {options : Options}

theorem isOperand_eq_true :
    isOperand argument = true ↔
      argument ∉ switches ∧ ¬ (argument = "-h" ∨ argument = "--help") ∧
        (after? "--timeout" argument).isSome = false := by
  have timeout : (after? "--timeout" argument).isSome =
      "--timeout".toList.isPrefixOf argument.toList := by
    rw [after?]
    split
    · next isTimeout => exact isTimeout.symm
    · next other => exact (Bool.not_eq_true _ ▸ other).symm
  rw [timeout, isOperand]
  simp [switches, and_assoc]

theorem operands_switch (isSwitch : argument ∈ switches) :
    operands (argument :: rest) = operands rest := by
  refine List.filter_cons_of_neg fun isOperand => ?_
  exact (isOperand_eq_true.mp isOperand).1 isSwitch

theorem operands_operand (noOption : isOperand argument = true) :
    operands (argument :: rest) = argument :: operands rest :=
  List.filter_cons_of_pos noOption

theorem Plain.tail (plain : Plain (argument :: rest)) : Plain rest :=
  fun other member => plain other (.tail _ member)

theorem OneDump.tail (dump : OneDump (argument :: rest)) : OneDump rest :=
  fun both => dump ⟨.tail _ both.1, .tail _ both.2⟩

/-- An option that takes no value is read as what it alone asks for. -/
theorem readFrom_switch (isSwitch : argument ∈ switches) :
    options.readFrom (argument :: rest) = (options.extended [argument]).readFrom rest := by
  simp only [switches, List.mem_cons, List.not_mem_nil, or_false] at isSwitch
  rw [Options.readFrom.eq_def]
  rcases isSwitch with rfl | rfl | rfl | rfl <;>
    simp [Options.extended, operands, isOperand, switches]

/-- An argument that is no option is taken for the source. -/
theorem readFrom_operand (noOption : isOperand argument = true) :
    options.readFrom (argument :: rest) = (do (← options.withSource argument).readFrom rest) := by
  obtain ⟨noSwitch, noHelp, noTimeout⟩ := isOperand_eq_true.mp noOption
  simp only [switches, List.mem_cons, List.not_mem_nil, or_false, not_or] at noSwitch
  rw [Options.readFrom.eq_def]
  simp [noSwitch, noHelp, noTimeout]

theorem extended_source (isSwitch : argument ∈ switches) :
    (options.extended [argument]).source = options.source := by
  rw [Options.extended, operands_switch isSwitch]
  exact Option.or_none

/-- What an option asks for and what the arguments after it ask for. -/
theorem extended_extended (dump : OneDump (argument :: rest)) :
    (options.extended [argument]).extended rest = options.extended (argument :: rest) := by
  have split : operands (argument :: rest) = operands [argument] ++ operands rest :=
    List.filter_append [argument] rest
  simp only [Options.extended, Options.mk.injEq, split, List.head?_append, Option.or_assoc]
  refine ⟨by simp [Bool.or_assoc], by simp [Bool.or_assoc], trivial, ?_, trivial⟩
  by_cases tokens : "--tokens" ∈ rest
  · simp [tokens]
  · by_cases tree : "--ast" ∈ rest
    · have other : "--tokens" ≠ argument := by
        rintro rfl
        exact dump ⟨.head _, .tail _ tree⟩
      simp [tokens, tree, other]
    · simp [tokens, tree]

/-- Options are read up to one argument that is none, with the same result in every order. -/
theorem readFrom_extended (plain : Plain arguments) (dump : OneDump arguments)
    (few : (options.source.toList ++ operands arguments).length ≤ 1) :
    options.readFrom arguments = .ok (options.extended arguments) := by
  induction arguments generalizing options with
  | nil =>
    have none : options.extended [] = options := by simp [Options.extended, operands]
    rw [none]
    rfl
  | cons argument rest ih =>
    rcases plain argument (.head _) with isSwitch | noOption
    · rw [operands_switch isSwitch, ← extended_source isSwitch] at few
      rw [readFrom_switch isSwitch, ih plain.tail dump.tail few, extended_extended dump]
    · rw [operands_operand noOption] at few
      have none : options.source = none := by
        cases source : options.source with
        | none => rfl
        | some before => simp [source] at few
      have taken : options.withSource argument = .ok (options.extended [argument]) := by
        have other := (isOperand_eq_true.mp noOption).1
        simp only [switches, List.mem_cons, List.not_mem_nil, or_false, not_or] at other
        simp [Options.withSource, Options.extended, none, operands_operand noOption, eq_comm, other]
      have last : (options.extended [argument]).source = some argument := by
        rw [Options.extended, none, operands_operand noOption]
        rfl
      rw [readFrom_operand noOption, taken]
      refine (ih plain.tail dump.tail ?_).trans (by rw [extended_extended dump])
      rw [last]
      simpa [none] using few

/-- The second argument that is no option is refused, wherever it stands. -/
theorem readFrom_second {first second : String} {more : List String} (plain : Plain arguments)
    (several : options.source.toList ++ operands arguments = first :: second :: more) :
    options.readFrom arguments = .error (.unexpectedArgument second) := by
  induction arguments generalizing options with
  | nil =>
    have count := congrArg List.length several
    cases source : options.source <;> simp [source, operands] at count
  | cons argument rest ih =>
    rcases plain argument (.head _) with isSwitch | noOption
    · rw [operands_switch isSwitch] at several
      rw [readFrom_switch isSwitch]
      exact ih plain.tail (by rwa [extended_source isSwitch])
    · rw [operands_operand noOption] at several
      rw [readFrom_operand noOption, Options.withSource]
      cases source : options.source with
      | none =>
        rw [source] at several
        exact ih plain.tail several
      | some before =>
        rw [source] at several
        obtain ⟨-, same, -⟩ : before = first ∧ argument = second ∧ operands rest = more := by
          simpa using several
        rw [same]
        rfl

/-! ## What is written -/

section Output

variable {lookup : String → Option String} {input text source : String} {trace : Option String}

theorem loadSource_origin (designates : Designates lookup input options.source text) :
    loadSource lookup input options.origin = text := by
  generalize named : options.source = argument at designates
  rw [Options.origin, named]
  cases designates with
  | omitted => rfl
  | dash => rfl
  | file other found => simp only [if_neg other, loadSource, found]
  | text other none => simp only [if_neg other, loadSource, none]

theorem invoke_eq_perform (requests : Requests lookup input arguments text)
    (outline : Node → Option String) (trace : Option String) :
    invoke outline arguments lookup input trace =
      perform outline (requested arguments) trace text := by
  have read : Options.read arguments = .ok (requested arguments) :=
    readFrom_extended requests.plain requests.dump (by simpa using requests.single)
  have loaded : loadSource lookup input (requested arguments).origin = text :=
    loadSource_origin requests.designates
  rw [invoke, read]
  simp only [loaded]

/-- What is asked for depends on which options occur. -/
theorem requested_congr {others : List String}
    (same : ∀ switch ∈ switches, switch ∈ others ↔ switch ∈ arguments) :
    (requested others).dump = (requested arguments).dump ∧
      (requested others).settings = (requested arguments).settings := by
  have blocks := same "--scoped" (by decide)
  have tokens := same "--tokens" (by decide)
  have tree := same "--ast" (by decide)
  simp [requested, Options.extended, Options.settings, blocks, tokens, tree]

theorem filter_log (milestones : Unit → List Milestone) :
    (options.log milestones).filter Emission.isPrinted = [] := by
  rw [Options.log]
  split
  · simp [Console.errLine, Emission.isPrinted]
  · rfl

theorem filter_reportFailure (failure : Failure) :
    (Console.reportFailure trace failure).filter Emission.isPrinted = [] := by
  rw [Console.reportFailure, Console.errLine]
  split <;> rfl

theorem filter_showReport (report : Report) :
    (Console.showReport trace report).filter Emission.isPrinted =
      report.lines.map Console.outLine := by
  have lines : (report.lines.map Console.outLine).filter Emission.isPrinted =
      report.lines.map Console.outLine := by
    simp [Console.outLine, Emission.isPrinted]
  rw [Console.showReport, List.filter_append, lines]
  cases report.failure with
  | none => exact List.append_nil _
  | some failure => simp only [filter_reportFailure, List.append_nil]

/-- The status and standard output of a command depend on what it shows, on how it runs programs and
    on the source. -/
theorem perform_congr {others : Options} (outline : Node → Option String)
    (dump : others.dump = options.dump) (settings : others.settings = options.settings)
    (other trace : Option String) (source : String) :
    (perform outline others other source).status =
        (perform outline options trace source).status ∧
      (perform outline others other source).printed =
        (perform outline options trace source).printed := by
  simp only [perform, Exit.printed, dump, settings]
  match options.dump with
  | some .tokens =>
    simp only [showTokens]
    cases scan source <;> simp [filter_log, filter_reportFailure]
  | some .tree =>
    simp only [showTree]
    cases parseSource source with
    | error failure => simp [filter_log, filter_reportFailure]
    | ok tree => cases outline tree <;> simp [filter_log]
  | none => simp [showRun, filter_log, filter_showReport]

/-- A text that cannot be scanned or parsed prints nothing. -/
theorem output_of_refused {settings : Settings} {scope : Scope} {failure : Failure}
    (failed : (run settings scope source).failure = some failure)
    (early : failure.isRuntime = false) : (run settings scope source).output = [] := by
  cases parsed : parseSource source with
  | error refused => rw [run, parsed]
  | ok tree =>
    rw [run_of_parseSource parsed, execute_eq] at failed
    cases outcome : Eval.eval settings Eval.depthLimit tree ⟨scope, #[], 0⟩ with
    | ok value m =>
      rw [outcome] at failed
      cases failed
    | error halt m =>
      rw [outcome] at failed
      obtain ⟨⟩ := failed
      cases early

/-- What a command does that shows neither tokens nor a tree. -/
theorem perform_of_run (noDump : options.dump = none) (outline : Node → Option String)
    (trace : Option String) (source : String) :
    ∃ milestones, perform outline options trace source =
      ⟨if (run options.settings [[]] source).failure.isSome then 1 else 0,
        options.log milestones ++
          Console.showReport trace (run options.settings [[]] source)⟩ := by
  rw [perform, noDump]
  exact ⟨_, rfl⟩

theorem reported_of_quiet {report : Report} {failure : Failure} (quiet : options.verbose = false)
    (off : Flag.isTraceOn trace = false) (failed : report.failure = some failure)
    (milestones : Unit → List Milestone) :
    (options.log milestones ++ Console.showReport trace report).filter (!·.isPrinted) =
      [.err ("Error: " ++ failure.notice.text ++ "\n")] := by
  simp [Options.log, quiet, Console.showReport, Console.reportFailure, failed, off,
    Console.outLine, Console.errLine, Emission.isPrinted]

end Output

/-- Options that take no value can stand in any order and number around the one argument that
    designates the source: the status and standard output of the command depend only on which of
    them occur and on the source, however trees are printed. Unless the tokens or the tree are asked
    for, standard output has a line for each value that a run prints, also one that fails; the
    status is zero if the run comes to its end and one if it fails, and then the error is reported
    on standard error. The run is the same however trees are displayed, and with more rounds for
    loops that do not run out of them. With a second argument that is no option the command
    refuses, whatever the source is, and nothing is run. -/
theorem invoke_wraps_run (outline : Node → Option String) (arguments : List String)
    (lookup : String → Option String) (input : String) (trace : Option String) :
    let exit := invoke outline arguments lookup input trace
    (∀ text, Requests lookup input arguments text →
      (∀ arguments' lookup' input' trace', Requests lookup' input' arguments' text →
        (∀ switch ∈ switches, switch ∈ arguments' ↔ switch ∈ arguments) →
        (invoke outline arguments' lookup' input' trace').status = exit.status ∧
          (invoke outline arguments' lookup' input' trace').printed = exit.printed) ∧
      ("--tokens" ∉ arguments → "--ast" ∉ arguments →
        let settings : Settings := { blockScoped := "--scoped" ∈ arguments }
        let report := run settings [[]] text
        exit.printed = report.output.map (fun value => .out (value.text ++ "\n")) ∧
        (report.failure = none → exit.status = 0) ∧
        (∀ failure, report.failure = some failure →
          exit.status = 1 ∧ (failure.isRuntime = false → report.output = []) ∧
          ("--verbose" ∉ arguments → Flag.isTraceOn trace = false →
            exit.reported = [.err ("Error: " ++ failure.notice.text ++ "\n")])) ∧
        (∀ display, run { settings with display } [[]] text = report) ∧
        (report.failure ≠ some (.halt .outOfFuel) → ∀ more, settings.loopFuel ≤ more →
          run (settings.withRounds more) [[]] text = report))) ∧
    (Plain arguments → ∀ first second more, operands arguments = first :: second :: more →
      exit = ⟨2, [.err ("Unexpected argument: " ++ second ++ "\n" ++ usage ++ "\n")]⟩) := by
  intro exit
  refine ⟨fun text requests => ⟨?_, ?_⟩, ?_⟩
  · intro arguments' lookup' input' trace' requests' same
    have performed : exit = perform outline (requested arguments) trace text :=
      invoke_eq_perform requests outline trace
    obtain ⟨dump, settings⟩ := requested_congr same
    rw [performed, invoke_eq_perform requests']
    exact perform_congr outline dump settings trace' trace text
  · intro noTokens noTree settings report
    have performed : exit = perform outline (requested arguments) trace text :=
      invoke_eq_perform requests outline trace
    have noDump : (requested arguments).dump = none := by
      simp [requested, Options.extended, noTokens, noTree]
    have same : (requested arguments).settings = settings := by
      simp [requested, Options.extended, Options.settings, settings]
    obtain ⟨milestones, whole⟩ := perform_of_run noDump outline trace text
    rw [same] at whole
    rw [performed, whole]
    refine ⟨?_, ?_, ?_, fun display => run_display settings display [[]] text,
      fun ends more enough => run_withRounds enough ends⟩
    · rw [Exit.printed, List.filter_append, filter_log, filter_showReport, List.nil_append,
        Report.lines, List.map_map]
      rfl
    · intro ended
      simp only [report] at ended
      simp [ended]
    · intro failure failed
      refine ⟨?_, output_of_refused failed, fun quiet off => ?_⟩
      · simp only [report] at failed
        simp [failed]
      · exact reported_of_quiet (by simp [requested, Options.extended, quiet]) off failed milestones
  · intro plain first second more several
    have read : Options.read arguments = .error (.unexpectedArgument second) :=
      readFrom_second plain several
    show invoke outline arguments lookup input trace = _
    rw [invoke, read]
    rfl

/-- Options around a file that prints and then fails, and a second argument. -/
theorem invoke_wraps_run_fault :
    let outline : Node → Option String := fun _ => none
    let lookup := fun name => if name = "/tmp/fault" then some "print(1);\r\nprint(x);" else none
    let arguments := ["--scoped", "--verbose", "/tmp/fault", "--scoped"]
    Requests lookup "" arguments "print(1);\nprint(x);" ∧
      (invoke outline arguments lookup "" none).status = 1 ∧
      (invoke outline arguments lookup "" none).printed = [.out "1\n"] ∧
      (invoke outline ("y" :: arguments) lookup "" none).status = 2 := by
  intro outline lookup arguments
  have known : Plain ("y" :: arguments) := by
    simp only [Plain]
    decide +kernel
  have named : Designates lookup "" (some "/tmp/fault") "print(1);\nprint(x);" :=
    .file (by decide) (rfl : lookup "/tmp/fault" = some "print(1);\r\nprint(x);")
  have requests : Requests lookup "" arguments "print(1);\nprint(x);" :=
    ⟨known.tail, by simp only [OneDump]; decide, by decide +kernel, named⟩
  obtain ⟨printed, -, failed, -⟩ :=
    ((invoke_wraps_run outline arguments lookup "" none).1 _ requests).2 (by decide) (by decide)
  have report : (run { blockScoped := true } [[]] "print(1);\nprint(x);").failure =
      some (.halt (.fault (.undefinedVariable "x") (some ⟨16, 2, 7⟩))) := by decide +kernel
  have output : (run { blockScoped := true } [[]] "print(1);\nprint(x);").output.map
      (fun value => Emission.out (value.text ++ "\n")) = [.out "1\n"] := by decide +kernel
  have refused := (invoke_wraps_run outline ("y" :: arguments) lookup "" none).2 known "y"
    "/tmp/fault" [] (by decide +kernel)
  exact ⟨requests, (failed _ report).1, printed.trans output, by rw [refused]⟩

end Command

end BraceScript

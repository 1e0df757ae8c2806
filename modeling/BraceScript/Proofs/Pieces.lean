import BraceScript.Proofs.Eval.Carrying
import BraceScript.Proofs.Grammar.Completeness
import BraceScript.Proofs.Grammar.Sequence
import BraceScript.Proofs.Report

/-!
# Running a text in pieces

A text that stands below another is a program of the statements of both, if the upper one ends with
a semicolon or a brace. Running it is running the upper text and then, if that did not fail, the
lower one in the scope that it left: the values printed come one after the other, the bindings are
the same, and a failure of the lower text is the same at a place further down.
-/

namespace BraceScript

open Node

/-- A failure at another place. -/
def Failure.moved (move : Position → Position) : Failure → Failure
  | halt reason => halt (reason.moved move)
  | failure => failure

namespace Report

/-- A report of the same run with its failure at another place. -/
def moved (move : Position → Position) (report : Report) : Report :=
  { report with failure := report.failure.map (.moved move) }

/-- The report of two runs one after the other, where the second is only made if the first does not
    fail. -/
def followedBy (first second : Report) : Report :=
  if first.failure.isSome then first
  else
    { second with
      output := first.output ++ second.output
      polls := first.polls + second.polls }

end Report

namespace Eval

variable {settings : Settings} {room : Nat} {n : Node} {ns ms : List Node}

/-! ## Places of faults -/

theorem poll_places (signal : settings.cancelAfter = none) : Places (poll settings) := by
  intro m _
  rw [poll_run, isCancelled, signal]
  exact ⟨trivial, trivial⟩

/-- The faults of a tree with a place have one. -/
theorem eval_places (placed : n.faultPosition?.isSome) : Places (eval settings room n) := by
  match room with
  | 0 => exact .halt fun cause => by simp
  | room + 1 => exact locating_places placed

theorem runAll_places (signal : settings.cancelAfter = none)
    (placed : ∀ n ∈ ns, n.faultPosition?.isSome) :
    Places (runAll settings (eval settings room) ns) := by
  induction ns with
  | nil => exact .value trivial
  | cons n ns ih =>
    obtain ⟨first, others⟩ := List.forall_mem_cons.mp placed
    refine .bind (poll_places signal) fun _ _ => ?_
    exact .bind (eval_places first).discard fun _ _ => ih others

/-- Without a cancel signal a program whose statements have places only runs them: it has no fault
    to give its own place. -/
theorem eval_program (signal : settings.cancelAfter = none)
    (placed : ∀ n ∈ ns, n.faultPosition?.isSome) (m : Machine) :
    eval settings (room + 3) (.branch .program ns) m =
      (runAll settings (eval settings room) ns >>= fun _ => pure .unit) m := by
  have rule : eval settings (room + 3) (.branch .program ns) =
      locating Node.faultPosition? (.branch .program ns)
        (runAll settings (eval settings room) ns >>= fun _ => pure Value.unit) := rfl
  rw [rule, locating_bind (runAll_places signal placed)]
  rfl

/-! ## A run further down -/

/-- A run that goes on where another has ended, of a program whose leaves are moved. -/
def resumed (signal : settings.cancelAfter = none) (move : Position → Position) (start : Machine) :
    Carrying settings :=
  .moving move start.output start.polls (.inr signal)

/-- The statements of a program and the same statements further down. -/
theorem runAll_resumed (room : Nat) (signal : settings.cancelAfter = none)
    (move : Position → Position) (start : Machine) (shaped : ∀ n ∈ ns, IsStatement n) :
    Alike move (fun _ => False) ((resumed signal move start).Agree 0)
      ((resumed signal move start).Agree 0)
      ((runAll settings (eval settings room) ns >>= fun _ => pure Value.unit)
        ⟨start.scope, #[], 0⟩)
      ((runAll settings (eval settings room) (ns.map (changed (.moving move))) >>= fun _ =>
        pure Value.unit) start) := by
  let carrying := resumed signal move start
  have couples : carrying.coupling.Couples 0 (runAll settings (eval settings room) ns)
      (runAll settings (eval settings room) (forestMap carrying.coupling.change.apply ns)) := by
    refine Coupling.runAll fun n member => ?_
    exact carrying.coupling.runs room 0 n (shaped n member) (fun _ _ => trivial)
      (allows_of_leaves n 0 fun _ _ _ _ => trivial)
  rw [map_changed]
  refine Simulates.bind couples (fun _ => .value _) _ _ ⟨trivial, ?_⟩
  simp [Carrying.carried, carrying, resumed, Carrying.moving]

/-- The report of a run of a program whose leaves are moved, after the values and polls of a first
    part. -/
theorem ofResult_moving {move : Position → Position} {start : Machine}
    {uncancelled : start.polls = 0 ∨ settings.cancelAfter = none}
    {result result' : EStateM.Result Halt Machine Value}
    (alike : Alike move (fun _ => False)
      ((Carrying.moving move start.output start.polls uncancelled).Agree 0)
      ((Carrying.moving move start.output start.polls uncancelled).Agree 0) result result') :
    Report.ofResult result' =
      (Report.ofResult (.ok .unit start)).followedBy ((Report.ofResult result).moved move) := by
  cases alike with
  | value agree =>
    obtain ⟨-, rfl⟩ := agree
    simp [Report.ofResult, Report.followedBy, Report.moved, Carrying.carried, Carrying.moving]
  | halt agree =>
    obtain ⟨-, rfl⟩ := agree
    simp [Report.ofResult, Report.followedBy, Report.moved, Failure.moved, Carrying.carried,
      Carrying.moving]
  | left impossible | right impossible => exact impossible.elim

end Eval

/-! ## Programs -/

section

open Eval Outcome

variable {settings : Settings} {scope : Scope} {ns ms : List Node}

theorem execute_append (signal : settings.cancelAfter = none) (move : Position → Position)
    (placed : ∀ n ∈ ns, n.faultPosition?.isSome) (placed' : ∀ n ∈ ms, n.faultPosition?.isSome)
    (shaped : ∀ n ∈ ms, IsStatement n) :
    execute settings scope (.branch .program (ns ++ ms.map (changed (.moving move)))) =
      (execute settings scope (.branch .program ns)).followedBy
        ((execute settings (execute settings scope (.branch .program ns)).scope
          (.branch .program ms)).moved move) := by
  obtain ⟨room, limit⟩ : ∃ room, depthLimit = room + 3 := ⟨_, rfl⟩
  have program : ∀ {scope ns}, (∀ n ∈ ns, n.faultPosition?.isSome) →
      execute settings scope (.branch .program ns) = .ofResult
        ((runAll settings (eval settings room) ns >>= fun _ => pure .unit) ⟨scope, #[], 0⟩) := by
    intro scope ns placed
    rw [execute_eq, limit, eval_program signal placed]
  have below : ∀ n ∈ ns ++ ms.map (changed (.moving move)), n.faultPosition?.isSome := by
    refine List.forall_mem_append.mpr ⟨placed, List.forall_mem_map.mpr fun n member => ?_⟩
    rw [faultPosition?_changed, Option.isSome_map]
    exact placed' n member
  rw [program below, program placed, runAll_append, bind_assoc]
  cases outcome : runAll settings (eval settings room) ns ⟨scope, #[], 0⟩ with
  | error reason m =>
    rw [bind_error outcome, bind_error outcome]
    rfl
  | ok _ m =>
    have alike := runAll_resumed room signal move m shaped
    rw [bind_ok outcome, bind_ok outcome, ofResult_moving alike, ← program placed']
    rfl

end

/-- The statements of a source text have places. -/
theorem statements_placed {source : String} {ns : List Node}
    (parsed : parseSource source = .ok (.branch .program ns)) :
    ∀ n ∈ ns, n.faultPosition?.isSome := by
  intro n member
  obtain ⟨shaped⟩ := isProgram_of_parseSource parsed
  obtain ⟨l, first⟩ := exists_firstLeaf? (shaped n member).leaves_ne_nil
  have inside : l ∈ n.leaves := by
    rw [firstLeaf?_eq_head?] at first
    exact List.mem_of_mem_head? first
  obtain ⟨t, rfl, -⟩ := leaf_standsIn parsed (mem_leaves_branch.mpr ⟨n, member, inside⟩)
  rw [(shaped n member).faultPosition?, position?, first]
  rfl

/-- A text below another is a program of the statements of both, unless it is nested too deeply. -/
theorem parseSource_lines {upper lower : String} {ns ms : List Node}
    (parsed : parseSource upper = .ok (.branch .program ns))
    (parsed' : parseSource lower = .ok (.branch .program ms))
    (ends : ∀ tokens, scan upper = .ok tokens → Phrase.Sealed (Phrase.beforeEnd tokens)) :
    parseSource (upper ++ "\n" ++ lower) =
        .ok (.branch .program (ns ++ ms.map (changed (.moving (.below upper.toList))))) ∨
      ∃ found, parseSource (upper ++ "\n" ++ lower) = .error (.parse (.tooDeep found)) := by
  obtain ⟨ts, segmented, program, stand⟩ := program_of_parseSource parsed
  obtain ⟨us, segmented', program', stand'⟩ := program_of_parseSource parsed'
  have whole : Phrase.Sealed ts := by
    have tokens := ends _ (scan_eq_ok_iff.mpr segmented)
    rwa [Phrase.beforeEnd_append (fun t member => (stand t member).1.kind_ne_end) rfl] at tokens
  let last : Token := ⟨.endOfInput, "", (Position.origin.after lower.toList).below upper.toList⟩
  have scanned : scan (upper ++ "\n" ++ lower) =
      .ok (ts ++ us.map (.moved (.below upper.toList)) ++ [last]) := by
    rw [scan_eq_ok_iff]
    simpa [Token.moved, last] using Lexical.segmented_lines segmented segmented'
  have inside : ∀ t ∈ ts ++ us.map (.moved (.below upper.toList)), t.kind ≠ .endOfInput :=
    List.forall_mem_append.mpr ⟨fun t member => (stand t member).1.kind_ne_end,
      List.forall_mem_map.mpr fun t member => (stand' t member).1.kind_ne_end⟩
  have cut := Phrase.beforeEnd_append inside (show last.kind = .endOfInput from rfl)
  have phrase := program.append whole (program'.moved (.below upper.toList))
  rw [← map_changed, ← cut] at phrase
  rcases Grammar.parse_of_program phrase with accepted | ⟨found, refused⟩
  · left
    simp only [parseSource, scanned, accepted]
  · right
    exact ⟨found, by simp only [parseSource, scanned, refused]⟩

/-- Running a text that stands below another, without a cancel signal, is running the upper text and
    then, if that does not fail, the lower one. A failure of the lower text is further down by the
    length of the upper one and the line feed, and by its lines. -/
theorem run_lines {settings : Settings} (signal : settings.cancelAfter = none) (scope : Scope)
    {upper lower : String} {tree other : Node} (parsed : parseSource upper = .ok tree)
    (parsed' : parseSource lower = .ok other)
    (ends : ∀ tokens, scan upper = .ok tokens → Phrase.Sealed (Phrase.beforeEnd tokens))
    (shallow : ∀ found, parseSource (upper ++ "\n" ++ lower) ≠ .error (.parse (.tooDeep found))) :
    parseSource (upper ++ "\n" ++ lower) =
      .ok (.branch .program (tree.children ++
        other.children.map (changed (.moving (.below upper.toList))))) ∧
    run settings scope (upper ++ "\n" ++ lower) =
      (run settings scope upper).followedBy
        ((run settings (run settings scope upper).scope lower).moved (.below upper.toList)) := by
  have program := isProgram_of_parseSource parsed
  have program' := isProgram_of_parseSource parsed'
  obtain ⟨-⟩ := program
  obtain ⟨shaped⟩ := program'
  have joined := (parseSource_lines parsed parsed' ends).resolve_right (not_exists.mpr shallow)
  refine ⟨joined, ?_⟩
  rw [run_of_parseSource joined, run_of_parseSource parsed, run_of_parseSource parsed']
  exact execute_append signal _ (statements_placed parsed) (statements_placed parsed') shaped

theorem run_lines_comment :
    let upper := "print(x); // begin"
    let lower := "if (x) \x7b\n  print(x - x);\n\x7d"
    let settings : Settings := { blockScoped := true }
    let scope : Scope := [[("x", .string "a")]]
    settings.cancelAfter = none ∧
    (∃ tree, parseSource upper = .ok tree) ∧ (∃ tree, parseSource lower = .ok tree) ∧
    (∀ tokens, scan upper = .ok tokens → Phrase.Sealed (Phrase.beforeEnd tokens)) ∧
    (∀ found, parseSource (upper ++ "\n" ++ lower) ≠ .error (.parse (.tooDeep found))) ∧
    run settings scope (upper ++ "\n" ++ lower) =
      (run settings scope upper).followedBy
        ((run settings (run settings scope upper).scope lower).moved (.below upper.toList)) ∧
    (run settings scope lower).failure =
      some (.halt (.fault (.typeMismatch "-" [.string, .string]) (some ⟨19, 2, 11⟩))) ∧
    (run settings scope (upper ++ "\n" ++ lower)).failure =
      some (.halt (.fault (.typeMismatch "-" [.string, .string]) (some ⟨38, 3, 11⟩))) := by
  intro upper lower settings scope
  obtain ⟨tree, parsed⟩ := exists_of_isOk upper (by decide +kernel)
  obtain ⟨other, parsed'⟩ := exists_of_isOk lower (by decide +kernel)
  obtain ⟨joined, accepted⟩ := exists_of_isOk (upper ++ "\n" ++ lower) (by decide +kernel)
  have scanned : scan upper = .ok
      [⟨.kwPrint, "print", ⟨0, 1, 1⟩⟩, ⟨.openParen, "(", ⟨5, 1, 6⟩⟩, ⟨.identifier, "x", ⟨6, 1, 7⟩⟩,
       ⟨.closeParen, ")", ⟨7, 1, 8⟩⟩, ⟨.semicolon, ";", ⟨8, 1, 9⟩⟩,
       ⟨.endOfInput, "", ⟨18, 1, 19⟩⟩] := by
    decide +kernel
  have ends : ∀ tokens, scan upper = .ok tokens → Phrase.Sealed (Phrase.beforeEnd tokens) := by
    intro tokens found
    rw [scanned] at found
    obtain ⟨⟩ := found
    rintro t ⟨⟩
    exact .inl rfl
  have shallow :
      ∀ found, parseSource (upper ++ "\n" ++ lower) ≠ .error (.parse (.tooDeep found)) := by
    rw [accepted]
    simp
  refine ⟨rfl, ⟨tree, parsed⟩, ⟨other, parsed'⟩, ends, shallow,
    (run_lines rfl scope parsed parsed' ends shallow).2, ?_, ?_⟩
  · decide +kernel
  · decide +kernel

end BraceScript

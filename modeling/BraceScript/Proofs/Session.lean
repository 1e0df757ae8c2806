import BraceScript.Proofs.Report
import BraceScript.Session
import Mathlib.Data.List.Basic

/-!
# Sessions

The inputs of a session are answered one after another, each from the session that the inputs
before it left. Inputs that should have no effect have none: an idle input leaves the session as it
was, so that taking any of them out of a script changes neither what the other inputs write nor the
session at the end.
-/

namespace BraceScript.Session

/-- The session after inputs. -/
def after (session : Session) (inputs : List Input) : Session :=
  inputs.foldl (fun session input => (session.step input).1) session

/-- Whether a command only shows something, or cannot be carried out. -/
def Slash.isIdle : Slash → Bool
  | .clear | .environment | .unknown _ => true
  | .traceback argument | .scoping argument => argument ≠ "" && (Flag.read? argument).isNone
  | .reset => false

/-- Whether an input should have no effect: it is blank, an interrupt, an idle command or a text
    that cannot be scanned or parsed. -/
def Input.isIdle : Input → Bool
  | .interrupt => true
  | .submit text _ =>
    (normalize text).toList.all Text.isBlank ||
      match Slash.read? (normalize text) with
      | some command => command.isIdle
      | none => !(parseSource (normalize text)).isOk

/-- The members of a list that are marked. -/
def marked {α : Type} (marks : List Bool) (members : List α) : List α :=
  ((members.zip marks).filter (·.2)).map (·.1)

@[simp]
theorem marked_cons {α : Type} (mark : Bool) (marks : List Bool) (member : α) (members : List α) :
    marked (mark :: marks) (member :: members) =
      if mark then member :: marked marks members else marked marks members := by
  cases mark <;> simp [marked]

/-! ### What an input does -/

/-- An argument that makes no sense asks for no setting. -/
theorem toggle?_of_idle {argument : String} {current : Bool}
    (idle : (argument ≠ "" && (Flag.read? argument).isNone) = true) :
    toggle? argument current = none := by
  simp only [ne_eq, decide_not, Bool.and_eq_true, Bool.not_eq_eq_eq_not, Bool.not_true,
    decide_eq_false_iff_not, Option.isNone_iff_eq_none] at idle
  rw [toggle?, if_neg idle.1, idle.2]

theorem obey_of_idle (session : Session) {command : Slash} (idle : command.isIdle = true) :
    (session.obey command).1 = session := by
  cases command with
  | clear => rfl
  | environment => rfl
  | traceback argument => rw [obey, toggle?_of_idle idle]
  | scoping argument => rw [obey, toggle?_of_idle idle]
  | reset => cases idle
  | unknown word => rfl

/-- A text that cannot be parsed leaves the scope as it was. -/
theorem submit_of_refused (session : Session) {text : String} (interrupted : Bool)
    (refused : (!(parseSource text).isOk) = true) :
    (session.submit text interrupted).1 = session := by
  unfold submit run
  split
  · rfl
  · next parsed => simp [parsed, Except.isOk, Except.toBool] at refused

theorem step_of_idle (session : Session) {input : Input} (idle : input.isIdle = true) :
    (session.step input).1 = session := by
  cases input with
  | interrupt => rfl
  | submit text interrupted =>
    simp only [step]
    split
    · rfl
    · next nonblank =>
      have idle := (Bool.or_eq_true_iff.1 idle).resolve_left nonblank
      split
      · next command read =>
        rw [read] at idle
        exact session.obey_of_idle idle
      · next read =>
        rw [read] at idle
        exact session.submit_of_refused interrupted idle

/-- The first character that is not blank stays the first when a text is trimmed. -/
theorem head?_trim {text : List Char} {c : Char} (first : text.find? (!Text.isBlank ·) = some c) :
    (Text.trim text).head? = some c := by
  obtain ⟨visible, before, rest, rfl, blanks⟩ := List.find?_eq_some_iff_append.1 first
  have left : Text.trimLeft (before ++ c :: rest) = c :: rest := by
    rw [Text.trimLeft, List.dropWhile_append_of_pos (by simpa using blanks),
      List.dropWhile_cons_of_neg (by simpa using visible)]
  rw [Text.trim, left, List.head?_reverse, List.reverse_cons, List.dropWhile_append]
  split
  · rw [List.dropWhile_cons_of_neg (by simpa using visible)]
    rfl
  · simp

/-- A text whose first visible character is no slash is no command. -/
theorem Slash.read?_of_plain {text : String} {c : Char}
    (first : text.toList.find? (!Text.isBlank ·) = some c) (plain : c ≠ '/') :
    Slash.read? text = none := by
  have head := head?_trim first
  unfold Slash.read?
  split
  · next rest same =>
    rw [same] at head
    exact absurd (Option.some.inj head).symm plain
  · rfl

/-- A text with a visible character is not blank. -/
theorem not_blank_of_visible {text : String} {c : Char}
    (first : text.toList.find? (!Text.isBlank ·) = some c) :
    ¬ text.toList.all Text.isBlank := by
  have found := List.find?_some first
  have member := List.mem_of_find?_eq_some first
  simp only [List.all_eq_true, not_forall]
  exact ⟨c, member, by simpa using found⟩

/-- A text whose first visible character is no slash is run as a program. -/
theorem step_of_program (session : Session) {text : String} {c : Char} (interrupted : Bool)
    (first : (normalize text).toList.find? (!Text.isBlank ·) = some c) (plain : c ≠ '/') :
    session.step (.submit text interrupted) = session.submit (normalize text) interrupted := by
  rw [step]
  simp only [not_blank_of_visible first, Bool.false_eq_true, if_false,
    Slash.read?_of_plain first plain]

/-- What a report shows: a line for each value that was printed, and then the failure. -/
theorem showReport_eq (trace : Option String) (report : Report) :
    Console.showReport trace report =
      report.output.map (fun value => Emission.out (value.text ++ "\n")) ++
        report.failure.elim [] (Console.reportFailure trace) := by
  rw [Console.showReport, Report.lines, List.map_map]
  cases report.failure <;> rfl

/-! ### Scripts -/

theorem after_cons (session : Session) (input : Input) (inputs : List Input) :
    session.after (input :: inputs) = (session.step input).1.after inputs := rfl

theorem length_play (session : Session) (inputs : List Input) :
    (session.play inputs).length = inputs.length := by
  induction inputs generalizing session with
  | nil => rfl
  | cons input inputs ih => simp [play, ih]

/-- The answer to an input is that of the session after the inputs before it. -/
theorem getElem?_play (session : Session) (before : List Input) (input : Input)
    (rest : List Input) :
    (session.play (before ++ input :: rest))[before.length]? =
      some ((session.after before).step input) := by
  induction before generalizing session with
  | nil => rfl
  | cons first before ih => exact ih (session.step first).1

/-- Idle inputs can be taken out of a script. -/
theorem play_marked (session : Session) {marks : List Bool} {inputs : List Input}
    (same : marks.length = inputs.length)
    (idle : ∀ entry ∈ inputs.zip marks, entry.2 = true ∨ entry.1.isIdle = true) :
    session.play (marked marks inputs) = marked marks (session.play inputs) ∧
      session.after (marked marks inputs) = session.after inputs := by
  induction inputs generalizing session marks with
  | nil =>
    obtain rfl := List.length_eq_zero_iff.1 same
    exact ⟨rfl, rfl⟩
  | cons input inputs ih =>
    obtain ⟨mark, marks, rfl⟩ := List.exists_cons_of_length_eq_add_one same
    obtain ⟨first, idle⟩ := List.forall_mem_cons.1 idle
    have rest := ih (session.step input).1 (Nat.succ.inj same) idle
    cases mark with
    | true =>
      simp only [marked_cons, if_true, play, after_cons, rest, and_self]
    | false =>
      have kept := session.step_of_idle (first.resolve_left Bool.false_ne_true)
      rw [kept] at rest
      simp only [marked_cons, Bool.false_eq_true, if_false, play, after_cons, kept, rest, and_self]

/-- Every input of a script is answered, from the session that the inputs before it left. A program
    acts on the frames of that session as a run with its scoping does, and writes the values that
    were printed and then what made it fail. Whichever idle inputs are taken out of the script, the
    others get the same answers and the session ends the same. -/
theorem play_answers (session : Session) (inputs : List Input) :
    (session.play inputs).length = inputs.length ∧
    (∀ before input rest, inputs = before ++ input :: rest →
      (session.play inputs)[before.length]? = some ((session.after before).step input)) ∧
    (∀ (current : Session) text interrupted c,
      (normalize text).toList.find? (!Text.isBlank ·) = some c → c ≠ '/' →
      let cancelAfter := if interrupted then some 0 else none
      let report :=
        run { blockScoped := current.blockScoped, cancelAfter } current.scope (normalize text)
      current.step (.submit text interrupted) =
        ({ current with scope := report.scope },
          report.output.map (fun value => Emission.out (value.text ++ "\n")) ++
            report.failure.elim [] fun failure =>
              .err ("Error: " ++ failure.notice.text ++ "\n") ::
                if failure.isRuntime && Flag.isTraceOn current.trace then
                  [.err "\nPython traceback:\n", .hostTrace]
                else [])) ∧
    ∀ marks, marks.length = inputs.length →
      (∀ entry ∈ inputs.zip marks, entry.2 = true ∨ entry.1.isIdle = true) →
      session.play (marked marks inputs) = marked marks (session.play inputs) ∧
        session.after (marked marks inputs) = session.after inputs := by
  refine ⟨session.length_play inputs, ?_, ?_, ?_⟩
  · rintro before input rest rfl
    exact session.getElem?_play before input rest
  · intro current text interrupted c first plain
    rw [current.step_of_program interrupted first plain, submit, showReport_eq]
    rfl
  · intro marks same idle
    exact session.play_marked same idle

/-- Half of this script is idle: a setting that makes no sense, an interrupt, a blank line, and a
    text that ends too early. -/
theorem play_answers_settings :
    let inputs : List Input :=
      [.submit "var x = 1;" false, .submit "/scoped maybe" false, .interrupt,
        .submit "/scoped on" false, .submit " " false, .submit "x +" false,
        .submit "if (1) { var x = 2; print(x); } print(x); print(y);" false]
    let marks := [true, false, false, true, false, false, true]
    (∀ entry ∈ inputs.zip marks, entry.2 = true ∨ entry.1.isIdle = true) ∧
      ({} : Session).play (marked marks inputs) = marked marks (({} : Session).play inputs) ∧
      (({} : Session).play (marked marks inputs)).map Prod.snd =
        [[], [.out "Block scoping: on\n"],
          [.out "2\n", .out "1\n", .err "Error: Undefined variable 'y' at line 1, col 49\n"]] :=
  ⟨by decide +kernel, ((play_answers {} _).2.2.2 _ rfl (by decide +kernel)).1, by decide +kernel⟩

end BraceScript.Session

import BraceScript.Proofs.Grammar.Sequence
import BraceScript.Proofs.Grammar.Shape
import BraceScript.Proofs.Scanner.Spaced
import BraceScript.Proofs.Session
import Mathlib.Data.List.TakeWhile

/-!
# Programs and commands

An input that starts with a slash is a command to the session. No program has a slash for its first
token, so that a program is told from a command by its first character, unless it starts with a
comment: then the mark of the comment is taken for the word of a command that does not exist, and
the program is not run.
-/

namespace BraceScript

namespace Text

/-- The code points of a table, one by one. -/
def Spans.codes (spans : Spans) : List Nat :=
  spans.flatMap fun span => List.range' span.1 (span.2 + 1 - span.1)

theorem Spans.mem_codes {spans : Spans} {code : Nat} (covered : spans.covers code = true) :
    code ∈ spans.codes := by
  induction spans with
  | nil => simp [covers] at covered
  | cons span spans ih =>
    rw [codes, List.flatMap_cons, List.mem_append, List.mem_range'_1]
    rw [covers] at covered
    split at covered
    · contradiction
    · rcases Bool.or_eq_true_iff.mp covered with inside | later
      · rw [decide_eq_true_eq] at inside
        omega
      · exact .inr (ih later)

end Text

namespace Lexical

open Scanner

/-- Words start with a character that is not blank in any script. -/
theorem visible_of_wordStart {c : Char} (start : isWordStart c = true) :
    Text.isBlank c = false := by
  have none : ∀ code ∈ Text.blankSpans.codes, isWordStart (Char.ofNat code) = false := by
    decide +kernel
  rw [Bool.eq_false_iff]
  intro blank
  have apart := none _ (Text.Spans.mem_codes blank)
  rw [Char.ofNat_toNat, start] at apart
  cases apart

/-- Lexemes start with a character that is not blank in any script, and only the slash itself starts
    with a slash. -/
theorem Lexeme.front {kind : Kind} {c : Char} {cs : List Char} (lexeme : Lexeme kind (c :: cs)) :
    Text.isBlank c = false ∧ (c = '/' → kind = .slash) := by
  generalize whole : c :: cs = text at lexeme
  cases lexeme with
  | string =>
    obtain ⟨rfl, -⟩ := List.cons.inj whole
    exact ⟨by decide, by decide⟩
  | plain plain =>
    subst whole
    rcases plain.of_front (List.prefix_refl _) with ⟨digit, -⟩ | ⟨start, -⟩ | ⟨-, -, operator⟩
    · have digits : ("0123456789".toList.all fun d => !Text.isBlank d && d ≠ '/') = true := by
        decide
      have facts := List.all_eq_true.mp digits c (digit_mem digit)
      simp only [Bool.and_eq_true, Bool.not_eq_true', decide_eq_true_eq] at facts
      exact ⟨facts.1, fun same => absurd same facts.2⟩
    · refine ⟨visible_of_wordStart start, ?_⟩
      rintro rfl
      exact absurd start (by decide)
    · have operators : ∀ entry ∈ Kind.operators, entry.1.toList.head?.all (fun d =>
          !Text.isBlank d && (d ≠ '/' || entry.2 = .slash)) = true := by
        decide
      have facts := operators _ operator
      simp only [String.toList_ofList, List.head?_cons, Option.all_some, Bool.and_eq_true,
        Bool.not_eq_true', Bool.or_eq_true, decide_eq_true_eq] at facts
      exact ⟨facts.1, fun same => facts.2.resolve_left fun other => other same⟩

variable {here : Position} {cs : List Char} {t : Token} {tokens : List Token}

/-- Layout at the start of a text leaves no token. -/
theorem Segmented.dropLayout (segmented : Segmented here cs tokens) :
    ∃ there, Segmented there (cs.dropWhile isLayout) tokens := by
  have solid : ∀ {c rest}, cs = c :: rest → isLayout c = false →
      ∃ there, Segmented there (cs.dropWhile isLayout) tokens := by
    rintro c rest rfl other
    exact ⟨here, by rwa [List.dropWhile_cons_of_neg (by simp [other])]⟩
  cases segmented with
  | done => exact ⟨here, .done⟩
  | @skip _ text rest _ item more =>
    cases item with
    | layout _ blank stops =>
      refine ⟨here.after text, ?_⟩
      rw [List.dropWhile_append_of_pos fun c member => isLayout_iff.mpr (blank c member)]
      cases rest with
      | nil => exact more
      | cons c rest =>
        have other := stops c rfl
        rwa [List.dropWhile_cons_of_neg (by rwa [isLayout_iff])]
    | lineComment => exact solid rfl (by decide)
    | blockComment => exact solid rfl (by decide)
  | take item more =>
    obtain ⟨c, text, rfl, other⟩ := item.lexeme.first
    exact solid rfl other

/-- The first token of a text that starts with neither layout nor a comment stands at its front. -/
theorem Segmented.front (segmented : Segmented here cs (t :: tokens))
    (solid : ∀ c, cs.head? = some c → isLayout c = false) (plain : ¬ StartsComment cs)
    (before : t.kind ≠ .endOfInput) : Lexeme t.kind t.text.toList ∧ t.text.toList <+: cs := by
  cases segmented with
  | done => exact absurd rfl before
  | skip item =>
    cases item with
    | @layout text rest some blank =>
      obtain ⟨c, text, rfl⟩ := List.exists_cons_of_ne_nil some
      have layout := isLayout_iff.mpr (blank c List.mem_cons_self)
      rw [solid c rfl] at layout
      contradiction
    | lineComment => exact absurd (.inl ⟨_, rfl⟩) plain
    | blockComment => exact absurd (.inr ⟨_, rfl⟩) plain
  | take item =>
    rw [String.toList_ofList]
    exact ⟨item.lexeme, List.prefix_append _ _⟩

end Lexical

namespace Session

open Lexical Phrase Scanner

/-- A text starts with a comment, layout aside. -/
def OpensWithComment (text : String) : Prop := StartsComment (text.toList.dropWhile isLayout)

instance (text : String) : Decidable (OpensWithComment text) :=
  inferInstanceAs (Decidable (StartsComment _))

variable {text : String} {ns : List Node}

/-! ### Where no comment stands first -/

theorem isBlank_of_isLayout {c : Char} (layout : isLayout c = true) : Text.isBlank c = true := by
  have all : [' ', '\t', '\r', '\n'].all Text.isBlank = true := by decide
  exact List.all_eq_true.mp all c (isLayout_iff.mp layout)

/-- The first character after layout is the first visible one, unless it is blank. -/
theorem find?_visible {cs rest : List Char} {c : Char} (after : cs.dropWhile isLayout = c :: rest)
    (visible : Text.isBlank c = false) : cs.find? (!Text.isBlank ·) = some c := by
  rw [← List.takeWhile_append_dropWhile (p := isLayout) (l := cs), after, List.find?_append]
  have blanks : (cs.takeWhile isLayout).find? (!Text.isBlank ·) = none := by
    rw [List.find?_eq_none]
    intro d member
    simp [isBlank_of_isLayout (List.all_eq_true.mp List.all_takeWhile d member)]
  rw [blanks, Option.none_or, List.find?_cons_of_pos (by simp [visible])]

/-- The first visible character of a program with a statement is no slash, unless the program starts
    with a comment. -/
theorem first_visible (parsed : parseSource text = .ok (.branch .program ns)) (some : ns ≠ [])
    (plain : ¬ OpensWithComment text) :
    ∃ c, text.toList.find? (!Text.isBlank ·) = .some c ∧ c ≠ '/' := by
  obtain ⟨tokens, scanned, accepted⟩ := parseSource_eq_ok.mp parsed
  obtain ⟨last, whole, -, -⟩ := beforeEnd_of_scan scanned
  obtain ⟨statements⟩ := Grammar.program_of_parse accepted
  cases front : beforeEnd tokens with
  | nil =>
    rw [front] at statements
    exact absurd statements.eq_nil some
  | cons t ts =>
    rw [front] at statements whole
    have starts := statements.first
    obtain ⟨there, segmented⟩ := (scan_eq_ok_iff.mp scanned).dropLayout
    rw [whole, List.cons_append] at segmented
    obtain ⟨lexeme, stands⟩ := segmented.front (fun c => head_dropWhile) plain (by
      intro ends
      rw [ends] at starts
      exact absurd starts (by decide))
    obtain ⟨c, cs, spelled, -⟩ := lexeme.first
    rw [spelled] at lexeme stands
    obtain ⟨rest, after⟩ := stands
    obtain ⟨visible, slash⟩ := lexeme.front
    refine ⟨c, find?_visible after.symm visible, fun same => ?_⟩
    rw [slash same] at starts
    exact absurd starts (by decide)

/-! ### Where a comment stands first -/

/-- Trimming keeps visible characters that only blanks come before. -/
theorem prefix_trim {before front : List Char} (rest : List Char)
    (blank : ∀ c ∈ before, Text.isBlank c = true)
    (visible : ∀ c ∈ front, Text.isBlank c = false) (some : front ≠ []) :
    front <+: Text.trim (before ++ (front ++ rest)) := by
  have left : Text.trimLeft (before ++ (front ++ rest)) = front ++ rest := by
    obtain ⟨c, front, rfl⟩ := List.exists_cons_of_ne_nil some
    rw [Text.trimLeft, List.dropWhile_append_of_pos blank, List.cons_append,
      List.dropWhile_cons_of_neg (by simp [visible c])]
  have kept : front.reverse.dropWhile Text.isBlank = front.reverse := by
    rw [List.dropWhile_eq_self_iff]
    intro inside
    rw [visible _ (List.mem_reverse.mp (List.getElem_mem inside))]
    exact Bool.false_ne_true
  rw [Text.trim, left, List.reverse_append, List.dropWhile_append]
  split
  · exact ⟨[], by rw [kept, List.reverse_reverse, List.append_nil]⟩
  · rw [List.reverse_append, List.reverse_reverse]
    exact List.prefix_append _ _

theorem OpensWithComment.first (comment : OpensWithComment text) :
    text.toList.find? (!Text.isBlank ·) = some '/' := by
  rcases comment with ⟨rest, after⟩ | ⟨rest, after⟩
  · exact find?_visible after.symm (by decide)
  · exact find?_visible after.symm (by decide)

/-- A word that is not in the catalogue is no command. -/
theorem Slash.ofWords_of_other {word : String} (argument : String)
    (other : ∀ entry ∈ catalogue, entry.1 ≠ word) : ofWords word argument = .unknown word := by
  simp only [catalogue, List.forall_mem_cons, ne_eq] at other
  simp only [ofWords, eq_comm (a := word), other, if_false]

/-- A comment at the start of a text is taken for a command, with the mark of the comment at the
    start of its word. -/
theorem Slash.read?_of_comment (comment : OpensWithComment text) :
    ∃ word, StartsComment word.toList ∧ Slash.read? text = some (.unknown word) := by
  obtain ⟨mark, visible, rest, after, starts⟩ :
      ∃ mark, Text.isBlank mark = false ∧ ∃ rest,
        text.toList.dropWhile isLayout = ['/', mark] ++ rest ∧
        ∀ more, StartsComment ('/' :: mark :: more) := by
    rcases comment with ⟨rest, after⟩ | ⟨rest, after⟩
    · exact ⟨'/', by decide, rest, after.symm, fun more => .inl ⟨more, rfl⟩⟩
    · exact ⟨'*', by decide, rest, after.symm, fun more => .inr ⟨more, rfl⟩⟩
  have whole : text.toList = text.toList.takeWhile isLayout ++ (['/', mark] ++ rest) := by
    rw [← after, List.takeWhile_append_dropWhile]
  have visibles : ∀ c ∈ ['/', mark], Text.isBlank c = false := by
    simp only [List.forall_mem_cons]
    exact ⟨by decide, visible, by simp⟩
  have blanks : ∀ c ∈ text.toList.takeWhile isLayout, Text.isBlank c = true := fun c member =>
    isBlank_of_isLayout (List.all_eq_true.mp List.all_takeWhile c member)
  obtain ⟨more, trimmed⟩ := prefix_trim rest blanks visibles (by simp)
  rw [← whole] at trimmed
  have split : (Text.splitWord ('/' :: mark :: more)).1 =
      '/' :: mark :: more.takeWhile (!Text.isBlank ·) := by
    rw [Text.splitWord, List.takeWhile_cons_of_pos (by decide),
      List.takeWhile_cons_of_pos (by simp [visible])]
  have other : ∀ entry ∈ catalogue, ¬ StartsComment entry.1.toList := by decide
  have word := starts (more.takeWhile (!Text.isBlank ·))
  refine ⟨_, by rwa [String.toList_ofList], ?_⟩
  rw [Slash.read?, ← trimmed]
  change Option.some (Slash.ofWords (String.ofList (Text.splitWord ('/' :: mark :: more)).1) _) = _
  rw [split, Slash.ofWords_of_other]
  rintro entry member same
  refine other entry member ?_
  rwa [same, String.toList_ofList]

/-! ### Programs -/

/-- A text that parses to statements is run as a program in the frames of the session and writes the
    values that were printed and then what made it fail, unless it starts with a comment. With a
    comment first it is taken for a command that does not exist and is not run. -/
theorem step_of_statements (session : Session) {text : String} {ns : List Node}
    (interrupted : Bool) (parsed : parseSource (normalize text) = .ok (.branch .program ns))
    (some : ns ≠ []) :
    (¬ OpensWithComment (normalize text) →
      Slash.read? (normalize text) = none ∧
      let report := execute (session.settings interrupted) session.scope (.branch .program ns)
      session.step (.submit text interrupted) =
        ({ session with scope := report.scope },
          report.output.map (fun value => Emission.out (value.text ++ "\n")) ++
            report.failure.elim [] (Console.reportFailure session.trace))) ∧
    (OpensWithComment (normalize text) →
      ∃ word, StartsComment word.toList ∧
        Slash.read? (normalize text) = .some (.unknown word) ∧
        session.step (.submit text interrupted) =
          (session, [.err ("Unknown command: " ++ word ++ "\n")])) := by
  constructor
  · intro plain
    obtain ⟨c, first, other⟩ := first_visible parsed some plain
    refine ⟨Slash.read?_of_plain first other, ?_⟩
    rw [session.step_of_program interrupted first other, submit, showReport_eq,
      run_of_parseSource parsed]
  · intro comment
    obtain ⟨word, starts, read⟩ := Slash.read?_of_comment comment
    refine ⟨word, starts, read, ?_⟩
    rw [step]
    simp only [not_blank_of_visible comment.first, Bool.false_eq_true, if_false, read]
    rfl

/-- A text whose tree has children is a program with statements. -/
theorem exists_statements (text : String)
    (some : (parseSource text).toOption.any (!·.children.isEmpty) = true) :
    ∃ ns, parseSource text = .ok (.branch .program ns) ∧ ns ≠ [] := by
  cases parsed : parseSource text with
  | error failure => simp [parsed, Except.toOption] at some
  | ok tree =>
    obtain ⟨-⟩ := isProgram_of_parseSource parsed
    exact ⟨_, rfl, by simpa [parsed, Except.toOption, Node.children] using some⟩

/-- A program after a blank line, with a comment at its end. -/
theorem step_of_statements_trailing :
    let text := "\n print(1); // one"
    ∃ ns, parseSource (normalize text) = .ok (.branch .program ns) ∧ ns ≠ [] ∧
      ¬ OpensWithComment (normalize text) ∧ Slash.read? (normalize text) = none ∧
      (({} : Session).step (.submit text false)).2 = [.out "1\n"] := by
  intro text
  obtain ⟨ns, parsed, some⟩ := exists_statements (normalize text) (by decide +kernel)
  have plain : ¬ OpensWithComment (normalize text) := by decide +kernel
  have shown := (step_of_statements {} false parsed some).1 plain
  exact ⟨ns, parsed, some, plain, shown.1, by decide +kernel⟩

/-- A program after a comment has a statement, but is taken for a command and not run. -/
theorem comment_before_program_is_command :
    let text := "// c\nprint(1);"
    (∃ ns, parseSource (normalize text) = .ok (.branch .program ns) ∧ ns ≠ []) ∧
      Slash.read? (normalize text) = some (.unknown "//") ∧
      (({} : Session).step (.submit text false)).2 = [.err "Unknown command: //\n"] :=
  ⟨exists_statements _ (by decide +kernel), by decide +kernel, by decide +kernel⟩

end Session

end BraceScript

import BraceScript.Proofs.Grammar.Pairing
import BraceScript.Proofs.Pieces
import BraceScript.Proofs.Printing

/-!
# Layout

Layout and comments do not matter. Two texts whose tokens have the same kinds and texts either both
fail to parse, for the same reason and at tokens of the same index, or have trees that are the same
but for the places of their leaves. Then they run the same: they print the same values, poll as
often, leave the same bindings, and if they fail, they fail for the same reason at places of tokens
of the same index.

The tokens of a text start at different places. So there is a map of places that takes the tokens of
the one text to those of the other, and all else is moved along with them.
-/

namespace BraceScript

open Node

/-! ## Tokens of the same index -/

/-- What a token is without its place. -/
def Token.content (t : Token) : Kind × String := (t.kind, t.text)

/-- Tokens that have the same index in two lists. -/
def SameIndex (ts ts' : List Token) (t t' : Token) : Prop :=
  ∃ index : Nat, ts[index]? = some t ∧ ts'[index]? = some t'

section

variable {ts ts' : List Token} {move : Position → Position}

/-- Tokens with the same contents are the same tokens at other places, if no two of them start at
    the same place. -/
theorem exists_move (distinct : (ts.map Token.start).Nodup)
    (same : ts'.map Token.content = ts.map Token.content) : ∃ move, ts' = ts.map (.moved move) := by
  induction ts generalizing ts' with
  | nil => exact ⟨id, by simpa using same⟩
  | cons t ts ih =>
    obtain ⟨t', ts', rfl, here, later⟩ := List.map_eq_cons_iff.mp same
    obtain ⟨fresh, rest⟩ := List.nodup_cons.mp distinct
    obtain ⟨move, rfl⟩ := ih rest later
    have kept : ∀ u ∈ ts, u.moved (Function.update move t.start t'.start) = u.moved move := by
      intro u member
      have other : u.start ≠ t.start := fun equal => fresh (equal ▸ List.mem_map_of_mem member)
      rw [Token.moved, Function.update_of_ne other]
      rfl
    refine ⟨Function.update move t.start t'.start, ?_⟩
    rw [List.map_cons, List.map_congr_left kept, Token.moved, Function.update_self]
    obtain ⟨kind, text⟩ := Prod.ext_iff.mp here
    simp only [Token.content] at kind text
    rw [← kind, ← text]

/-- The tokens of one index in a list and in the same list at other places. -/
def movedPairing (ts : List Token) (move : Position → Position) : Pairing where
  same := SameIndex ts (ts.map (.moved move))
  move := move
  moved := by
    rintro t t' ⟨index, found, found'⟩
    rw [List.getElem?_map, found] at found'
    exact (Option.some.inj found').symm

theorem sameIndex_of_mem {t : Token} (member : t ∈ ts) :
    SameIndex ts (ts.map (.moved move)) t (t.moved move) := by
  obtain ⟨index, found⟩ := List.mem_iff_getElem?.mp member
  exact ⟨index, found, by rw [List.getElem?_map, found]; rfl⟩

/-! ## Parsing -/

theorem movedPairing_cursors (closed : Cursor.close ts = ts)
    (closed' : Cursor.close (ts.map (.moved move)) = ts.map (.moved move)) :
    (movedPairing ts move).Cursors (.ofTokens ts) (.ofTokens (ts.map (.moved move))) := by
  have all : List.Forall₂ (movedPairing ts move).same
      ((Cursor.ofTokens ts).current :: (Cursor.ofTokens ts).after)
      ((Cursor.ofTokens (ts.map (.moved move))).current ::
        (Cursor.ofTokens (ts.map (.moved move))).after) := by
    rw [Cursor.ofTokens_tokens, Cursor.ofTokens_tokens, closed, closed', List.forall₂_map_right_iff]
    exact List.forall₂_same.mpr fun _ member => sameIndex_of_mem member
  obtain ⟨current, after⟩ := List.forall₂_cons.mp all
  exact ⟨current, after⟩

/-- The same tokens at other places have the same tree, moved, or the same error. -/
theorem parse_moved (closed : Cursor.close ts = ts)
    (closed' : Cursor.close (ts.map (.moved move)) = ts.map (.moved move)) :
    (∃ e e', parse ts = .error e ∧ parse (ts.map (.moved move)) = .error e' ∧
      e.Alike (movedPairing ts move).same e') ∨
    ∃ tree, parse ts = .ok tree ∧
      parse (ts.map (.moved move)) = .ok (tree.changed (.moving move)) := by
  have outcome := Grammar.program_tracks (movedPairing ts move) _ _
    (movedPairing_cursors closed closed')
  unfold parse
  generalize Grammar.program (.ofTokens ts) = result at outcome
  generalize Grammar.program (.ofTokens (ts.map (.moved move))) = result' at outcome
  cases outcome with
  | value corresponds _ => exact .inr ⟨_, rfl, congrArg Except.ok corresponds⟩
  | error alike => exact .inl ⟨_, _, rfl, rfl, alike⟩

end

/-- What the user is told about errors that are alike differs in the place only. -/
theorem ParseError.Alike.message {π : Pairing} {e e' : ParseError} (alike : e.Alike π.same e') :
    e'.notice.message = e.notice.message := by
  cases alike with
  | expected kind paired | unexpected context paired | unexpectedEnd paired | tooDeep paired =>
    rw [π.moved paired]
    rfl

namespace Node

variable {move : Position → Position}

mutual

theorem unplaced_moving : ∀ n : Node, (n.changed (.moving move)).unplaced = n.unplaced
  | leaf _ => rfl
  | branch _ children => by
    rw [changed, mapLeaves, unplaced, unplaced, forestUnplaced_moving children]

theorem forestUnplaced_moving : ∀ ns : List Node,
    forestUnplaced (forestMap (LeafChange.moving move).apply ns) = forestUnplaced ns
  | [] => rfl
  | n :: rest => by
    rw [forestMap, forestUnplaced, forestUnplaced, forestUnplaced_moving rest]
    exact congrArg (· :: _) (unplaced_moving n)

end

end Node

/-! ## Running -/

/-- The same halt, which is located at tokens that are paired if it is located. -/
inductive Halt.Alike (same : Token → Token → Prop) : Halt → Halt → Prop
  | located (cause : Fault) {t t' : Token} :
    same t t' → Alike same (.fault cause (some t.start)) (.fault cause (some t'.start))
  | unlocated (cause : Fault) : Alike same (.fault cause none) (.fault cause none)
  | tooDeep : Alike same .tooDeep .tooDeep
  | outOfFuel : Alike same .outOfFuel .outOfFuel

/-- Two runs end alike: they both succeed or halt alike. -/
inductive EndsAlike (same : Token → Token → Prop) : Option Failure → Option Failure → Prop
  | success : EndsAlike same none none
  | halt {reason reason' : Halt} :
    reason.Alike same reason' → EndsAlike same (some (.halt reason)) (some (.halt reason'))

/-- The same run, which fails at tokens that are paired if it fails. -/
structure Report.Alike (same : Token → Token → Prop) (report report' : Report) : Prop where
  output : report'.output = report.output
  polls : report'.polls = report.polls
  scope : report'.scope = report.scope
  failure : EndsAlike same report.failure report'.failure

section

variable {settings : Settings} {scope : Scope} {tree : Node} {ts : List Token}
  {move : Position → Position}

theorem EndsAlike.message {same : Token → Token → Prop} {failure failure' : Option Failure}
    (ends : EndsAlike same failure failure') :
    failure'.map (·.notice.message) = failure.map (·.notice.message) := by
  cases ends with
  | success => rfl
  | halt alike => cases alike <;> rfl

/-- Before its first statement a run has nothing to report. -/
theorem followedBy_start (scope : Scope) (report : Report) :
    (Report.ofResult (.ok .unit ⟨scope, #[], 0⟩)).followedBy report = report := by
  simp [Report.ofResult, Report.followedBy]

/-- A program whose leaves are moved runs the same, and its failure is moved. -/
theorem execute_moving (program : tree.IsProgram) (move : Position → Position) :
    execute settings scope (tree.changed (.moving move)) =
      (execute settings scope tree).moved move := by
  let start : Machine := ⟨scope, #[], 0⟩
  let carrying : Eval.Carrying settings := .moving move start.output start.polls (.inl rfl)
  have couples := carrying.coupling.program Eval.depthLimit program (fun _ _ => trivial)
    (allows_of_leaves tree 0 fun _ _ _ _ => trivial)
  have reports := Eval.ofResult_moving (couples start start ⟨trivial, rfl⟩)
  rw [execute_eq, execute_eq]
  exact reports.trans (followedBy_start scope _)

/-- A failure of a program made of tokens is located at one of them. -/
theorem exists_token_of_failure (program : tree.IsProgram)
    (made : ∀ l ∈ tree.leaves, ∃ t ∈ ts, l = .ofToken t) {cause : Fault} {place : Position}
    (failed : (execute settings scope tree).failure =
      some (.halt (.fault cause (some place)))) : ∃ t ∈ ts, t.start = place := by
  -- A map that moves all places but those of the tokens moves neither the program nor, therefore,
  -- the place of its failure.
  let move : Position → Position := fun p =>
    if p ∈ ts.map Token.start then p else { p with offset := p.offset + 1 }
  have fixed : tree.changed (.moving move) = tree := by
    refine mapLeaves_of_fixed tree fun l member => ?_
    obtain ⟨t, inside, rfl⟩ := made l member
    have kept : move t.start = t.start := if_pos (List.mem_map_of_mem inside)
    change Leaf.ofToken (t.moved move) = _
    rw [Token.moved, kept]
  have same := @execute_moving settings scope tree program move
  rw [fixed] at same
  have stays : move place = place := by
    have reported := congrArg Report.failure same
    rw [Report.moved, failed] at reported
    simpa [Failure.moved, Halt.moved] using reported.symm
  by_contra foreign
  have outside : place ∉ ts.map Token.start := by simpa using foreign
  have offset := congrArg Position.offset stays
  simp only [move, if_neg outside] at offset
  omega

/-- A program made of tokens and the program made of them at other places run alike. -/
theorem execute_alike (program : tree.IsProgram)
    (made : ∀ l ∈ tree.leaves, ∃ t ∈ ts, l = .ofToken t) :
    (execute settings scope tree).Alike (SameIndex ts (ts.map (.moved move)))
      (execute settings scope (tree.changed (.moving move))) := by
  rw [execute_moving program]
  refine ⟨rfl, rfl, rfl, ?_⟩
  have located := @exists_token_of_failure settings scope tree ts program made
  rw [execute_eq] at located ⊢
  generalize Eval.eval settings Eval.depthLimit tree ⟨scope, #[], 0⟩ = result at located ⊢
  cases result with
  | ok v m => exact .success
  | error reason m =>
    refine .halt ?_
    match reason with
    | .fault cause none => exact .unlocated cause
    | .fault cause (some place) =>
      obtain ⟨t, member, rfl⟩ := located rfl
      exact .located cause (sameIndex_of_mem member)
    | .tooDeep => exact .tooDeep
    | .outOfFuel => exact .outOfFuel

end

/-- Texts whose tokens have the same kinds and texts fail to parse alike, or have trees that differ
    in places only and run alike. -/
theorem run_layout {source source' : String} {ts ts' : List Token} (scanned : scan source = .ok ts)
    (scanned' : scan source' = .ok ts') (same : ts'.map Token.content = ts.map Token.content)
    (settings : Settings) (scope : Scope) :
    (∃ e e', parseSource source = .error (.parse e) ∧ parseSource source' = .error (.parse e') ∧
      e.Alike (SameIndex ts ts') e' ∧ e'.notice.message = e.notice.message) ∨
    ∃ tree tree', parseSource source = .ok tree ∧ parseSource source' = .ok tree' ∧
      tree'.unplaced = tree.unplaced ∧
      (run settings scope source).Alike (SameIndex ts ts') (run settings scope source') ∧
      (run settings scope source').failure.map (·.notice.message) =
        (run settings scope source).failure.map (·.notice.message) := by
  have segmented := scan_eq_ok_iff.mp scanned
  have segmented' := scan_eq_ok_iff.mp scanned'
  have closed : ∀ {text : List Char} {us : List Token}, Lexical.Segmented .origin text us →
      Cursor.close us = us := by
    intro text us cut
    obtain ⟨front, rfl, -⟩ := cut.tokens
    exact Cursor.close_of_end rfl
  obtain ⟨move, rfl⟩ := exists_move segmented.nodup_starts same
  rcases parse_moved (closed segmented) (closed segmented') with
    ⟨e, e', refused, refused', alike⟩ | ⟨tree, accepted, accepted'⟩
  · refine .inl ⟨e, e', ?_, ?_, alike, alike.message⟩
    · simp only [parseSource, scanned, refused]
    · simp only [parseSource, scanned', refused']
  · have parsed : parseSource source = .ok tree := by simp only [parseSource, scanned, accepted]
    have parsed' : parseSource source' = .ok (tree.changed (.moving move)) := by
      simp only [parseSource, scanned', accepted']
    have runs := @execute_alike settings scope tree ts move (isProgram_of_parseSource parsed)
      (leaves_of_parse accepted)
    rw [run_of_parseSource parsed, run_of_parseSource parsed']
    exact .inr ⟨tree, _, parsed, parsed', unplaced_moving tree, runs, runs.failure.message⟩

/-- The fault of a subtraction is reported at its operator, the fourth token of both texts. -/
theorem run_layout_subtraction :
    let source := "print(x-x)"
    let spread := "print ( // twice\n  x - x\n)"
    let ts : List Token :=
      [⟨.kwPrint, "print", ⟨0, 1, 1⟩⟩, ⟨.openParen, "(", ⟨5, 1, 6⟩⟩, ⟨.identifier, "x", ⟨6, 1, 7⟩⟩,
       ⟨.minus, "-", ⟨7, 1, 8⟩⟩, ⟨.identifier, "x", ⟨8, 1, 9⟩⟩, ⟨.closeParen, ")", ⟨9, 1, 10⟩⟩,
       ⟨.endOfInput, "", ⟨10, 1, 11⟩⟩]
    let ts' : List Token :=
      [⟨.kwPrint, "print", ⟨0, 1, 1⟩⟩, ⟨.openParen, "(", ⟨6, 1, 7⟩⟩,
       ⟨.identifier, "x", ⟨19, 2, 3⟩⟩, ⟨.minus, "-", ⟨21, 2, 5⟩⟩, ⟨.identifier, "x", ⟨23, 2, 7⟩⟩,
       ⟨.closeParen, ")", ⟨25, 3, 1⟩⟩, ⟨.endOfInput, "", ⟨26, 3, 2⟩⟩]
    let scope : Scope := [[("x", .string "a")]]
    scan source = .ok ts ∧ scan spread = .ok ts' ∧
    ts'.map Token.content = ts.map Token.content ∧
    (run {} scope source).failure =
      some (.halt (.fault (.typeMismatch "-" [.string, .string]) (some ⟨7, 1, 8⟩))) ∧
    (run {} scope spread).failure =
      some (.halt (.fault (.typeMismatch "-" [.string, .string]) (some ⟨21, 2, 5⟩))) ∧
    (run {} scope source).Alike (SameIndex ts ts') (run {} scope spread) := by
  intro source spread ts ts' scope
  have scanned : scan source = .ok ts := by decide +kernel
  have scanned' : scan spread = .ok ts' := by decide +kernel
  have same : ts'.map Token.content = ts.map Token.content := by decide
  have accepted : (parseSource source).isOk = true := by decide +kernel
  refine ⟨scanned, scanned', same, by decide +kernel, by decide +kernel, ?_⟩
  rcases run_layout scanned scanned' same {} scope with
    ⟨e, -, refused, -⟩ | ⟨-, -, -, -, -, runs, -⟩
  · rw [refused] at accepted
    cases accepted
  · exact runs

end BraceScript

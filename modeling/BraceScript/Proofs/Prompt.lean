import BraceScript.Proofs.Grammar.Brackets
import BraceScript.Proofs.Grammar.Viable

/-!
# Texts that are to be continued

The prompt asks for another line while brackets are open. It never does so after a program, and
where a program ends too early it knows the brackets that are still open: no closing bracket was
ignored on the way, so that the depth is the number of brackets opened less that of brackets closed.
-/

namespace BraceScript

/-- The token that no program has at its place, if that is what a parse error is about. -/
def ParseError.found? : ParseError → Option Token
  | expected _ found | unexpected found _ | unexpectedEnd found => some found
  | tooDeep _ => none

theorem ParseError.Blames.found? {e : ParseError} {t : Token} (blames : e.Blames t) :
    e.found? = some t := by
  cases blames <;> rfl

namespace Prompt

open Phrase Grammar

variable {text : String} {tokens ts : List Token} {depth : Nat} {e : ParseError} {t : Token}

/-- The end of the input is no bracket. -/
theorem walk?_beforeEnd (scanned : scan text = .ok tokens)
    (walked : walk? 0 (beforeEnd tokens) = some depth) : walk? 0 tokens = some depth := by
  obtain ⟨last, whole, ends, -⟩ := beforeEnd_of_scan scanned
  have plain : last.kind.isBracket = false := by rw [ends]; rfl
  rw [whole, walk?_append, walked, Option.bind_some, walk?_cons, enter?_other plain]
  rfl

theorem openDepth_of_walk? (scanned : scan text = .ok tokens)
    (walked : walk? 0 tokens = some depth) : openDepth text = depth := by
  rw [openDepth, scanned]
  simp only [(walk?_count walked).1]

/-- Nothing is ignored in tokens that a program begins with. -/
theorem walk?_of_viable (viable : Viable ts) : ∃ depth, walk? 0 ts = some depth := by
  obtain ⟨more, tree, program⟩ := viable
  obtain ⟨depth, walked, -⟩ := Option.bind_eq_some_iff.mp (walk?_append.symm.trans
    (program.balanced 0))
  exact ⟨depth, walked⟩

/-- Before a closing bracket that a program goes on with, a bracket is open. -/
theorem depth_pos_of_viable {closing : Token} (closes : closing.kind.isClosing = true)
    (viable : Viable (ts ++ [closing])) : 0 < ts.foldl depthAfter 0 := by
  obtain ⟨_, walked⟩ := walk?_of_viable viable
  exact depth_pos_of_walk? closes walked

/-- What is known of the tokens of a text that ends too early. -/
theorem awaited_of_refused (refused : parse tokens = .error e) (found : e.found? = some t)
    (ends : t.kind = .endOfInput) : Awaited e (beforeEnd tokens) := by
  have enough : ∀ t, e ≠ .tooDeep t := by
    rintro _ rfl
    cases found
  unfold parse at refused
  split at refused
  · cases refused
  · next c failed =>
    obtain ⟨⟩ := refused
    obtain ⟨ts, moved, blames, awaited⟩ := program_passes failed enough
    obtain rfl : c.current = t := Option.some.inj (blames.found?.symm.trans found)
    have whole := moved.eq_beforeEnd ends
    rw [Cursor.ofTokens_tokens, Cursor.beforeEnd_close] at whole
    rwa [← whole]

/-- Where a closing bracket is expected at the end of a text, a bracket is open. -/
theorem depth_pos_of_awaited {kind : Kind}
    (awaited : Awaited (.expected kind t) ts) (closes : kind.isClosing = true) :
    0 < ts.foldl depthAfter 0 := by
  simp only [Kind.isClosing, Bool.or_eq_true, decide_eq_true_eq] at closes
  rcases closes with rfl | rfl
  · exact depth_pos_of_viable rfl
      (awaited.expected _ _ (sample .closeParen) rfl rfl (by simp))
  · -- The statement before the brace may lack its semicolon, which opens no bracket.
    have viable : Viable (ts ++ [sample .semicolon] ++ [sample .closeBrace]) := by
      simpa using awaited.brace _ (sample .semicolon) (sample .closeBrace) rfl rfl rfl
    have open' := depth_pos_of_viable rfl viable
    rwa [List.foldl_append] at open'

/-- The depth of a program is zero. That of a text which is refused at its end is the number of
    opening brackets less that of closing ones, none of which was ignored, and it is not zero if a
    closing bracket was expected there. So no text that is to be continued is a program. -/
theorem openDepth_tells_programs (text : String) :
    (∀ tree, parseSource text = .ok tree → openDepth text = 0) ∧
    (∀ tokens e t, scan text = .ok tokens → parseSource text = .error (.parse e) →
      e.found? = some t → t.kind = .endOfInput →
      (∀ front closing, front ++ [closing] <+: tokens → closing.kind.isClosing = true →
        0 < front.foldl depthAfter 0) ∧
      openDepth text =
        tokens.countP (·.kind.isOpening) - (tokens.countP (·.kind.isClosing) : Int) ∧
      ∀ kind, e = .expected kind t → kind.isClosing = true → needsMore text = true) ∧
    (needsMore text = true → ∀ tree, parseSource text ≠ .ok tree) := by
  have complete : ∀ tree, parseSource text = .ok tree → openDepth text = 0 := by
    intro tree parsed
    obtain ⟨tokens, scanned, accepted⟩ := parseSource_eq_ok.mp parsed
    have balanced := (program_of_parse accepted).balanced
    exact openDepth_of_walk? scanned (walk?_beforeEnd scanned (balanced 0))
  refine ⟨complete, ?_, fun more tree parsed => ?_⟩
  · intro tokens e t scanned refused found ends
    have refused : parse tokens = .error e := by
      rw [parseSource, scanned] at refused
      cases outcome : parse tokens <;> simp_all
    have awaited := awaited_of_refused refused found ends
    obtain ⟨depth, walked⟩ := walk?_of_viable awaited.viable
    have counted := (walk?_count walked).1
    have walked := walk?_beforeEnd scanned walked
    have isDepth := openDepth_of_walk? scanned walked
    refine ⟨?_, ?_, ?_⟩
    · rintro front closing ⟨rest, rfl⟩ closes
      obtain ⟨_, through, -⟩ := Option.bind_eq_some_iff.mp (walk?_append.symm.trans walked)
      exact depth_pos_of_walk? closes through
    · have count := (walk?_count walked).2
      rw [isDepth]
      omega
    · rintro kind rfl closes
      have positive := depth_pos_of_awaited awaited closes
      rw [needsMore, isDepth]
      simp only [decide_eq_true_eq]
      omega
  · have none := complete tree parsed
    simp [needsMore, none] at more

/-- A print statement in a block, with neither its parenthesis nor the brace closed. -/
theorem openDepth_tells_programs_unclosed :
    let text := "while (x) \x7b print(2"
    let ending : Token := ⟨.endOfInput, "", ⟨19, 1, 20⟩⟩
    parseSource text = .error (.parse (.expected .closeParen ending)) ∧
      openDepth text = 2 ∧ needsMore text = true ∧ ∀ tree, parseSource text ≠ .ok tree := by
  intro text ending
  let tokens : List Token :=
    [⟨.kwWhile, "while", ⟨0, 1, 1⟩⟩, ⟨.openParen, "(", ⟨6, 1, 7⟩⟩, ⟨.identifier, "x", ⟨7, 1, 8⟩⟩,
     ⟨.closeParen, ")", ⟨8, 1, 9⟩⟩, ⟨.openBrace, "\x7b", ⟨10, 1, 11⟩⟩,
     ⟨.kwPrint, "print", ⟨12, 1, 13⟩⟩, ⟨.openParen, "(", ⟨17, 1, 18⟩⟩,
     ⟨.number, "2", ⟨18, 1, 19⟩⟩, ending]
  have scanned : scan text = .ok tokens := by decide +kernel
  have failed : parse tokens = .error (.expected .closeParen ending) := rfl
  have refused : parseSource text = .error (.parse (.expected .closeParen ending)) := by
    rw [parseSource, scanned]
    simp only [failed]
  obtain ⟨-, unfinished, incomplete⟩ := openDepth_tells_programs text
  obtain ⟨-, counted, asks⟩ := unfinished tokens _ ending scanned refused rfl rfl
  have more := asks .closeParen rfl rfl
  exact ⟨refused, counted, more, incomplete more⟩

end Prompt

end BraceScript

import BraceScript.Proofs.Grammar.Sequence

/-!
# Braces in programs

A block is closed only after its opening brace or the end of a statement in it, which is a semicolon
or a brace: the end of the input, before which a statement may lack its semicolon, is never in a
block. So in every program a closing brace comes after one of these three tokens.
-/

namespace BraceScript.Phrase

variable {atEnd : Bool} {level : Nat} {ts us : List Token} {n : Node}

/-- Tokens after which a block can be closed: they end a statement or open the block. -/
def AdmitsBrace (ts : List Token) : Prop :=
  ∃ last, ts.getLast? = some last ∧ last.kind ∈ [.semicolon, .openBrace, .closeBrace]

theorem AdmitsBrace.append (admits : AdmitsBrace us) (ts : List Token) :
    AdmitsBrace (ts ++ us) := by
  obtain ⟨last, isLast, kind⟩ := admits
  exact ⟨last, by rw [List.getLast?_append, isLast, Option.some_or], kind⟩

theorem admitsBrace_single {t : Token} (kind : t.kind ∈ [.semicolon, .openBrace, .closeBrace]) :
    AdmitsBrace [t] := ⟨t, rfl, kind⟩

theorem not_admitsBrace (ends : EndsExpression ts) : ¬ AdmitsBrace ts := by
  rintro ⟨last, isLast, admitted⟩
  obtain ⟨_, same, ended⟩ := ends
  obtain rfl := Option.some.inj (isLast.symm.trans same)
  revert admitted ended
  cases last.kind <;> decide

theorem Terminator.admitsBrace (phrase : Terminator false ts) : AdmitsBrace ts := by
  cases phrase with
  | semicolon semicolon => exact admitsBrace_single (by simp [semicolon])
  | omitted ends => cases ends

theorem Block.admitsBrace (phrase : Block ts n) : AdmitsBrace ts := by
  obtain ⟨-, -, closes⟩ := phrase
  exact ((admitsBrace_single (by simp [closes])).append _).append [_]

theorem Statement.admitsBrace (phrase : Statement false ts n) : AdmitsBrace ts := by
  cases phrase with
  | declaration _ _ _ _ ends => exact (ends.admitsBrace.append _).append [_, _, _]
  | print _ _ ends => exact (ends.admitsBrace.append _).append [_]
  | conditional _ _ body => exact (body.admitsBrace.append _).append [_]
  | alternative _ _ _ _ other =>
    exact (((other.admitsBrace.append [_]).append _).append _).append [_]
  | loop _ _ body => exact (body.admitsBrace.append _).append [_]
  | assignment _ _ _ ends => exact (ends.admitsBrace.append _).append [_, _]
  | expression _ ends => exact ends.admitsBrace.append _

theorem Statements.admitsBrace : ∀ {ts : List Token} {ns : List Node}, Statements false ts ns →
    ∀ {front : List Token}, AdmitsBrace front → AdmitsBrace (front ++ ts)
  | _, _, .nil, _, admits => by rwa [List.append_nil]
  | _, _, .empty semicolon rest, front, _ => by
    rw [List.append_cons]
    exact rest.admitsBrace ((admitsBrace_single (by simp [semicolon])).append front)
  | _, _, .cons first rest, front, _ => by
    rw [← List.append_assoc]
    exact rest.admitsBrace (first.admitsBrace.append front)

/-- After the tokens before them, no token of some is the end of the input, or a closing brace where
    it cannot be. -/
def Orderly (before : List Token) : List Token → Prop
  | [] => True
  | t :: ts =>
    t.kind ≠ .endOfInput ∧ (t.kind = .closeBrace → AdmitsBrace before) ∧
      Orderly (before ++ [t]) ts

theorem orderly_append {before : List Token} :
    Orderly before (ts ++ us) ↔ Orderly before ts ∧ Orderly (before ++ ts) us := by
  induction ts generalizing before with
  | nil => simp [Orderly]
  | cons t ts ih => simp [Orderly, ih, and_assoc]

theorem orderly_plain {before : List Token} {t : Token} {kind : Kind} (same : t.kind = kind)
    (plain : kind ≠ .endOfInput ∧ kind ≠ .closeBrace) (rest : Orderly (before ++ [t]) ts) :
    Orderly before (t :: ts) := by
  subst same
  exact ⟨plain.1, fun closes => absurd closes plain.2, rest⟩

theorem Orderly.inside {before : List Token} (orderly : Orderly before ts) :
    ∀ t ∈ ts, t.kind ≠ .endOfInput := by
  induction ts generalizing before with
  | nil => simp
  | cons t ts ih =>
    obtain ⟨inside, -, rest⟩ := orderly
    exact List.forall_mem_cons.mpr ⟨inside, ih rest⟩

theorem Expression.orderly (phrase : Expression level ts n) :
    ∀ before, Orderly before ts := by
  induction phrase with
  | tighter _ ih => exact ih
  | @binary _ _ _ op _ _ operator _ _ ihl ihr =>
    intro before
    have plain : op.kind ≠ .endOfInput ∧ op.kind ≠ .closeBrace := by
      rw [mem_operatorsAt_iff] at operator
      constructor <;> intro same <;> simp [same, Kind.level?] at operator
    exact orderly_append.mpr ⟨ihl _, orderly_plain rfl plain (ihr _)⟩
  | @unary _ op _ operator _ ih =>
    intro before
    have plain : op.kind ≠ .endOfInput ∧ op.kind ≠ .closeBrace := by
      constructor <;> intro same <;> simp [same, unaryOperators] at operator
    exact orderly_plain rfl plain (ih _)
  | @atom t atom =>
    intro before
    have plain : t.kind ≠ .endOfInput ∧ t.kind ≠ .closeBrace := by
      constructor <;> intro same <;> simp [same, atoms] at atom
    exact orderly_plain rfl plain trivial
  | parentheses opens _ closes ih =>
    intro before
    refine orderly_plain opens (by decide) (orderly_append.mpr ⟨ih _, ?_⟩)
    exact orderly_plain closes (by decide) trivial

theorem Parenthesized.orderly (phrase : Parenthesized ts n) (before : List Token) :
    Orderly before ts := by
  obtain ⟨opens, value, closes⟩ := phrase
  exact (Expression.parentheses opens value closes).orderly before

theorem Terminator.orderly (phrase : Terminator atEnd ts) (before : List Token) :
    Orderly before ts := by
  cases phrase with
  | semicolon semicolon => exact orderly_plain semicolon (by decide) trivial
  | omitted => trivial

mutual

theorem Statement.orderly : ∀ {atEnd : Bool} {ts : List Token} {n : Node},
    Statement atEnd ts n → ∀ before, Orderly before ts
  | _, _, _, .declaration isVar isName isSign value ends, before =>
    orderly_plain isVar (by decide) <|
      orderly_plain isName (by decide) <|
        orderly_plain isSign (by decide) <|
          orderly_append.mpr ⟨value.orderly _, ends.orderly _⟩
  | _, _, _, .print isPrint value ends, before =>
    orderly_plain isPrint (by decide) <|
      orderly_append.mpr ⟨value.orderly _, ends.orderly _⟩
  | _, _, _, .conditional isIf test body, before =>
    orderly_plain isIf (by decide) <|
      orderly_append.mpr ⟨test.orderly _, body.orderly _⟩
  | _, _, _, .alternative isIf test body isElse other, before =>
    orderly_plain isIf (by decide) <|
      orderly_append.mpr ⟨test.orderly _, orderly_append.mpr ⟨body.orderly _,
        orderly_plain isElse (by decide) (other.orderly _)⟩⟩
  | _, _, _, .loop isWhile test body, before =>
    orderly_plain isWhile (by decide) <|
      orderly_append.mpr ⟨test.orderly _, body.orderly _⟩
  | _, _, _, .assignment isName isSign value ends, before =>
    orderly_plain isName (by decide) <|
      orderly_plain isSign (by decide) <|
        orderly_append.mpr ⟨value.orderly _, ends.orderly _⟩
  | _, _, _, .expression value ends, before =>
    orderly_append.mpr ⟨value.orderly _, ends.orderly _⟩

theorem Statements.orderly : ∀ {atEnd : Bool} {ts : List Token} {ns : List Node},
    Statements atEnd ts ns → ∀ before, Orderly before ts
  | _, _, _, .nil, _ => trivial
  | _, _, _, .empty semicolon rest, before =>
    orderly_plain semicolon (by decide) (rest.orderly _)
  | _, _, _, .cons first rest, before => orderly_append.mpr ⟨first.orderly _, rest.orderly _⟩

theorem Block.orderly : ∀ {ts : List Token} {n : Node}, Block ts n → ∀ before, Orderly before ts
  | _, _, @Block.intro _ opening _ _ opens body closes, before => by
    have admits : AdmitsBrace (before ++ [opening]) :=
      (admitsBrace_single (by simp [opens])).append before
    refine orderly_plain opens (by decide) ?_
    exact orderly_append.mpr
      ⟨body.orderly _, by simp [closes], fun _ => body.admitsBrace admits, trivial⟩

end

theorem Program.orderly (phrase : Program ts n) : Orderly [] ts := by
  obtain ⟨list⟩ := phrase
  exact list.orderly []

end BraceScript.Phrase

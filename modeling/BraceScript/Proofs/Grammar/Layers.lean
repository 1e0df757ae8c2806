import BraceScript.Proofs.Grammar.Progress

/-!
# Operators in layers

The rule for operators climbs: one loop takes operators of several levels, and its threshold moves.
The *layered* reading of expressions has a loop for each level instead. A layer reads an operand of
the next tighter layer and then, as long as the current token is an operator of its level, that
operator and another operand. From every closed cursor both readings give the same tree or the same
error, and stop at the same token.

What a climb does after its first operand is a *cascade*, the loops of the layers one after the
other, from the tightest to the loosest. An operator that the climb takes falls to the loop of its
level. The tighter loops let it pass, and have nothing to do after its right operand either, because
that ends before an operator that is too loose for them.
-/

namespace BraceScript.Grammar

open Outcome Phrase

/-! ## The layered reading -/

/-- Reads operators of one level with their right operands, and folds them to the left. A round for
    each of the tokens after the current one is enough. -/
def foldLevel (level : Nat) (operand : ParseM Node) : List Token → Node → ParseM Node
  | [], left => return left
  | _ :: rounds, left => do
    if (← current).kind.level? = some level then
      let op ← advance
      let right ← operand
      foldLevel level operand rounds (.branch .binary [left, .ofToken op, right])
    else
      return left

/-- The tightest of the six layers of operators, as many as are asked for, over an operand. -/
def layers (operand : ParseM Node) : Nat → ParseM Node
  | 0 => operand
  | count + 1 => do
    let left ← layers operand count
    foldLevel (6 - count) (layers operand count) (← get).after left

/-- Prefix operators and what they apply to. What is in parentheses has all the layers. -/
def layeredOperand : Nat → ParseM Node
  | 0 => giveUp
  | depth + 1 => do
    let token ← current
    if token.kind.isUnary then
      let op ← advance
      let inner ← layeredOperand depth
      return .branch .unary [.ofToken op, inner]
    else if token.kind.isAtom then
      return .ofToken (← advance)
    else if ← accept [.openParen] then
      let inner ← layers (layeredOperand depth) 6
      discard (expect .closeParen)
      return inner
    else if token.kind = .endOfInput then
      throw (.unexpectedEnd token)
    else
      throw (.unexpected token .expression)

/-- The layered reading of an expression with operators of a level or tighter, level seven being
    that of the operand. Prefix operators and parentheses take a token each, so that they are never
    nested more deeply than there are tokens. -/
def layered (level : Nat) : ParseM Node := do
  layers (layeredOperand ((← get).after.length + 1)) (7 - level)

/-! ## The loop of a layer -/

section Loops

variable {level count : Nat} {operand : ParseM Node} {c c' : Cursor} {left n : Node}
  {rounds rounds' : List Token}

theorem foldLevel_stops (other : c.current.kind.level? ≠ some level) (rounds : List Token) :
    foldLevel level operand rounds left c = .ok left c := by
  cases rounds with
  | nil => rfl
  | cons _ rounds =>
    rw [foldLevel, bind_ok (current_run c), if_neg other]
    rfl

theorem foldLevel_goes (isLevel : c.current.kind.level? = some level) (t : Token)
    (rounds : List Token) :
    foldLevel level operand (t :: rounds) left c =
      (do
        let right ← operand
        foldLevel level operand rounds (.branch .binary [left, .ofToken c.current, right])
        : ParseM Node) c.next := by
  rw [foldLevel, bind_ok (current_run c), if_pos isLevel, bind_ok (advance_run c)]

/-- More rounds than there are tokens make no difference to the loop of a layer. -/
theorem foldLevel_rounds (takes : Takes operand) (closed : c.Closed)
    (enough : c.after.length ≤ rounds.length) (enough' : c.after.length ≤ rounds'.length) :
    foldLevel level operand rounds left c = foldLevel level operand rounds' left c := by
  induction rounds generalizing c left rounds' with
  | nil =>
    have ends := closed.kind_of_after_nil (by simpa using enough)
    have other : c.current.kind.level? ≠ some level := by simp [ends, Kind.level?]
    rw [foldLevel_stops other, foldLevel_stops other]
  | cons t rounds ih =>
    by_cases isLevel : c.current.kind.level? = some level
    · have shorter := after_next_lt closed (kind_ne_end_of_level isLevel)
      cases rounds' with
      | nil =>
        simp only [List.length_nil] at enough'
        omega
      | cons t' rounds' =>
        rw [foldLevel_goes isLevel, foldLevel_goes isLevel]
        cases read : operand c.next with
        | error e mid => rw [bind_error read, bind_error read]
        | ok right mid =>
          obtain ⟨closed, fewer⟩ := takes closed.next read
          simp only [List.length_cons] at enough enough'
          rw [bind_ok read, bind_ok read]
          exact ih closed (by omega) (by omega)
    · rw [foldLevel_stops isLevel, foldLevel_stops isLevel]

/-- The loop of a layer, the rounds counted where it starts. -/
abbrev folding (level : Nat) (operand : ParseM Node) (left : Node) : ParseM Node := do
  foldLevel level operand (← get).after left

theorem folding_run (level : Nat) (operand : ParseM Node) (left : Node) (c : Cursor) :
    folding level operand left c = foldLevel level operand c.after left c := bind_ok (get_ok c)

theorem folding_stops (other : c.current.kind.level? ≠ some level) :
    folding level operand left c = .ok left c := by
  rw [folding_run, foldLevel_stops other]

/-- The loop of a layer takes an operator of its level and goes on from the joined tree. -/
theorem folding_goes (takes : Takes operand) (closed : c.Closed)
    (isLevel : c.current.kind.level? = some level) :
    folding level operand left c =
      (do
        let right ← operand
        folding level operand (.branch .binary [left, .ofToken c.current, right])
        : ParseM Node) c.next := by
  have inside := kind_ne_end_of_level isLevel
  have shorter := after_next_lt closed inside
  obtain ⟨t, rounds, rest⟩ := List.exists_cons_of_ne_nil (closed.after_ne_nil inside)
  rw [folding_run, rest, foldLevel_goes isLevel]
  cases read : operand c.next with
  | error e mid => rw [bind_error read, bind_error read]
  | ok right mid =>
    obtain ⟨closed, fewer⟩ := takes closed.next read
    rw [rest, List.length_cons] at shorter
    rw [bind_ok read, bind_ok read, folding_run]
    exact foldLevel_rounds takes closed (by omega) (Nat.le_refl _)

/-- Where the loop of a layer ends there is no operator of its level, and all holds that holds where
    it starts and after its operands. -/
theorem foldLevel_ends {P : Cursor → Prop} (takes : Takes operand)
    (each : ∀ {c n c'}, c.Closed → operand c = .ok n c' → P c') (closed : c.Closed)
    (enough : c.after.length ≤ rounds.length) (start : P c)
    (done : foldLevel level operand rounds left c = .ok n c') :
    (c'.Closed ∧ c'.after.length ≤ c.after.length) ∧ P c' ∧
      c'.current.kind.level? ≠ some level := by
  induction rounds generalizing c left with
  | nil =>
    have ends := closed.kind_of_after_nil (by simpa using enough)
    obtain ⟨-, rfl⟩ := pure_eq_ok.mp done
    exact ⟨⟨closed, Nat.le_refl _⟩, start, by simp [ends, Kind.level?]⟩
  | cons t rounds ih =>
    by_cases isLevel : c.current.kind.level? = some level
    · rw [foldLevel_goes isLevel, bind_eq_ok] at done
      obtain ⟨right, mid, read, rest⟩ := done
      have shorter := after_next_lt closed (kind_ne_end_of_level isLevel)
      obtain ⟨closed', fewer⟩ := takes closed.next read
      rw [List.length_cons] at enough
      obtain ⟨⟨closed', less⟩, there⟩ := ih closed' (by omega) (each closed.next read) rest
      exact ⟨⟨closed', by omega⟩, there⟩
    · rw [foldLevel_stops isLevel] at done
      obtain ⟨-, rfl⟩ := EStateM.Result.ok.inj done
      exact ⟨⟨closed, Nat.le_refl _⟩, start, isLevel⟩

/-! ## Layers and cascades -/

/-- Layers take tokens where their operand does, and leave no operator of their levels. -/
theorem layers_ends (takes : Takes operand) (few : count ≤ 6) (closed : c.Closed)
    (done : layers operand count c = .ok n c') :
    (c'.Closed ∧ c'.after.length < c.after.length) ∧ c'.OperatorBelow (7 - count) := by
  induction count generalizing c c' n with
  | zero => exact ⟨takes closed done, operatorBelow_of_le (Nat.le_refl _)⟩
  | succ count ih =>
    have inner {c n c'} := @ih c c' n (by omega)
    simp only [layers, bind_eq_ok, get_eq_ok] at done
    obtain ⟨first, mid, read, _, _, ⟨rfl, rfl⟩, rest⟩ := done
    obtain ⟨⟨closed', fewer⟩, below⟩ := inner closed read
    have each : ∀ {c n c'}, c.Closed → layers operand count c = .ok n c' →
        c'.OperatorBelow (7 - count) := fun closed done => (inner closed done).2
    obtain ⟨⟨closed', less⟩, below, other⟩ := foldLevel_ends
      (fun closed done => (inner closed done).1) each closed' (Nat.le_refl _) below rest
    refine ⟨⟨closed', by omega⟩, fun found isFound => ?_⟩
    have near := below found isFound
    have apart : found ≠ 6 - count := fun same => other (same ▸ isFound)
    omega

theorem layers_takes (takes : Takes operand) (few : count ≤ 6) : Takes (layers operand count) :=
  fun closed done => (layers_ends takes few closed done).1

/-- The loops of the layers one after the other, the tightest first. -/
def cascade (operand : ParseM Node) : Nat → Node → ParseM Node
  | 0, left => return left
  | count + 1, left => do
    let joined ← cascade operand count left
    folding (6 - count) (layers operand count) joined

/-- Layers are their operand and what cascades from it. -/
theorem layers_eq_cascade (operand : ParseM Node) (count : Nat) :
    layers operand count = operand >>= cascade operand count := by
  induction count with
  | zero => exact (bind_pure operand).symm
  | succ count ih =>
    calc layers operand count >>= folding (6 - count) (layers operand count)
      _ = (operand >>= cascade operand count) >>= folding (6 - count) (layers operand count) :=
        congrArg (· >>= folding (6 - count) (layers operand count)) ih
      _ = operand >>= cascade operand (count + 1) := bind_assoc _ _ _

/-- A cascade lets pass what is looser than all its layers. -/
theorem cascade_stops (few : count ≤ 6) (below : c.OperatorBelow (7 - count)) :
    cascade operand count left c = .ok left c := by
  induction count with
  | zero => rfl
  | succ count ih =>
    have other : c.current.kind.level? ≠ some (6 - count) := by
      intro isLevel
      have near := below _ isLevel
      omega
    rw [cascade, bind_ok (ih (by omega) fun found isFound => ?_), folding_stops other]
    have near := below found isFound
    omega

/-- A cascade takes an operator of one of its layers with its right operand, and starts again. -/
theorem cascade_goes (takes : Takes operand) (few : count ≤ 6) (closed : c.Closed)
    (isLevel : c.current.kind.level? = some level) (among : 7 - count ≤ level) :
    cascade operand count left c =
      (do
        let right ← layers operand (6 - level)
        cascade operand count (.branch .binary [left, .ofToken c.current, right])
        : ParseM Node) c.next := by
  have range := level_range isLevel
  induction count with
  | zero => omega
  | succ count ih =>
    by_cases tighter : 7 - count ≤ level
    · -- A tighter loop takes the operator, and the loop of this layer comes after it.
      have started := ih (by omega) tighter
      simp only [cascade, bind, EStateM.bind] at started ⊢
      rw [started]
      cases layers operand (6 - level) c.next <;> rfl
    · obtain rfl : count = 6 - level := by omega
      have stopped : cascade operand (6 - level) left c = .ok left c := by
        refine cascade_stops (by omega) (operatorBelow_of_some isLevel ?_)
        omega
      have same : 6 - (6 - level) = level := by omega
      rw [cascade, bind_ok stopped, same,
        folding_goes (layers_takes takes (by omega)) closed isLevel]
      cases read : layers operand (6 - level) c.next with
      | error e mid => rw [bind_error read, bind_error read]
      | ok right mid =>
        have below := (layers_ends takes (by omega) closed.next read).2
        rw [bind_ok read, bind_ok read, cascade, bind_ok (cascade_stops (by omega) below), same]

end Loops

/-! ## Climbing -/

/-- At a cursor, a rule does what another does or has too little room. -/
def FollowsAt {α : Type} (c : Cursor) (narrow wide : ParseM α) : Prop :=
  narrow c = wide c ∨ ∃ c', narrow c = .error (.tooDeep c'.current) c'

namespace FollowsAt

variable {α β : Type} {x y : ParseM α} {f g : α → ParseM β} {c : Cursor}

theorem bind (first : FollowsAt c x y)
    (second : ∀ {a mid}, y c = .ok a mid → FollowsAt mid (f a) (g a)) :
    FollowsAt c (x >>= f) (y >>= g) := by
  rcases first with same | ⟨c', deep⟩
  · cases read : y c with
    | ok a mid =>
      rw [FollowsAt, bind_ok (same.trans read), bind_ok read]
      exact second read
    | error e mid =>
      left
      rw [bind_error (same.trans read), bind_error read]
  · exact .inr ⟨c', bind_error deep⟩

theorem bind_same (first : FollowsAt c x y) : FollowsAt c (x >>= f) (y >>= f) :=
  first.bind fun _ => .inl rfl

end FollowsAt

section Rules

variable {room depth least : Nat} {operand : ParseM Node} {c : Cursor}

/-- A climb does what the loops of its layers do one after the other, where its right operands are
    read as in layers. -/
theorem climbing_follows (takes : Takes operand)
    (operands : ∀ least c, c.Closed → c.after.length < depth →
      FollowsAt c (binary room least) (layers operand (7 - max 1 least)))
    (left : Node) (closed : c.Closed) (inside : c.after.length < depth) :
    FollowsAt c (climbing least (binary room) left) (cascade operand (7 - max 1 least) left) := by
  -- Every operator that is taken leaves fewer tokens after the cursor.
  induction tokens : c.after.length using Nat.strongRecOn generalizing c left with
  | ind count ih =>
    by_cases loose : c.OperatorBelow least
    · left
      rw [climbing_run, climb_stops loose, cascade_stops (by omega)]
      intro found isFound
      have near := loose found isFound
      have range := level_range isFound
      omega
    · obtain ⟨level, isLevel, tight⟩ := exists_operator loose
      have range := level_range isLevel
      have shorter := after_next_lt closed (kind_ne_end_of_level isLevel)
      have goes : climbing least (binary room) left c = _ :=
        climbing_goes (shortSightedExpressions room).binary closed isLevel tight
      rw [bind_ok (advance_run c)] at goes
      rw [FollowsAt, goes, cascade_goes takes (by omega) closed isLevel (by omega)]
      have right := operands (level + 1) c.next closed.next (by omega)
      have same : 7 - max 1 (level + 1) = 6 - level := by omega
      rw [same] at right
      refine right.bind fun {right mid} read => ?_
      obtain ⟨closed', fewer⟩ := layers_takes takes (by omega) closed.next read
      exact ih mid.after.length (by omega) _ closed' (by omega) rfl

/-- The rule for operators reads layers, where its operands are read as in layers. -/
theorem binary_follows (takes : Takes operand)
    (operands : ∀ room c, c.Closed → c.after.length < depth → FollowsAt c (unary room) operand)
    (room least : Nat) (c : Cursor) (closed : c.Closed) (inside : c.after.length < depth) :
    FollowsAt c (binary room least) (layers operand (7 - max 1 least)) := by
  induction room generalizing least c with
  | zero => exact .inr ⟨c, rfl⟩
  | succ room ih =>
    rw [layers_eq_cascade]
    refine (operands room c closed inside).bind fun {left mid} read => ?_
    obtain ⟨closed', fewer⟩ := takes closed read
    exact climbing_follows takes ih left closed' (by omega)

theorem layeredOperand_run (depth : Nat) (c : Cursor) :
    layeredOperand (depth + 1) c =
      if c.current.kind.isUnary then
        (do
          let inner ← layeredOperand depth
          return .branch .unary [.ofToken c.current, inner] : ParseM Node) c.next
      else if c.current.kind.isAtom then .ok (.ofToken c.current) c.next
      else if c.current.kind = .openParen then
        (do
          let inner ← layers (layeredOperand depth) 6
          discard (expect .closeParen)
          return inner : ParseM Node) c.next
      else if c.current.kind = .endOfInput then .error (.unexpectedEnd c.current) c
      else .error (.unexpected c.current .expression) c := by
  rw [layeredOperand, bind_ok (current_run c)]
  have accepted := accept_run [.openParen] c
  by_cases operator : c.current.kind.isUnary
  · rw [if_pos operator, if_pos operator, bind_ok (advance_run c)]
  rw [if_neg operator, if_neg operator]
  by_cases atom : c.current.kind.isAtom
  · rw [if_pos atom, if_pos atom, bind_ok (advance_run c)]
    rfl
  rw [if_neg atom, if_neg atom]
  by_cases opens : c.current.kind = .openParen
  · rw [if_pos (by simp [opens])] at accepted
    rw [bind_ok accepted, if_pos rfl, if_pos opens]
  · rw [if_neg (by simpa using opens)] at accepted
    rw [bind_ok accepted, if_neg (by simp), if_neg opens]
    split <;> rfl

theorem layeredOperand_takes (depth : Nat) : Takes (layeredOperand depth) := by
  induction depth with
  | zero =>
    intro c n c' closed done
    exact (throw_eq_ok.mp done).elim
  | succ depth ih =>
    intro c n c' closed done
    rw [layeredOperand_run] at done
    split at done
    · next operator =>
      have shorter := after_next_lt closed (kind_ne_end_of_isUnary operator)
      simp only [bind_eq_ok, pure_eq_ok] at done
      obtain ⟨inner, _, read, rfl, rfl⟩ := done
      obtain ⟨closed', fewer⟩ := ih closed.next read
      exact ⟨closed', by omega⟩
    split at done
    · next atom =>
      obtain ⟨-, rfl⟩ := EStateM.Result.ok.inj done
      exact ⟨closed.next, after_next_lt closed (kind_ne_end_of_isAtom atom)⟩
    split at done
    · next opens =>
      have shorter := after_next_lt closed (by simp [opens])
      simp only [bind_eq_ok, discard_eq_ok, pure_eq_ok] at done
      obtain ⟨inner, mid, read, _, _, ⟨closing, taken⟩, rfl, rfl⟩ := done
      obtain ⟨closed', fewer⟩ := layers_takes ih (by decide) closed.next read
      have last := (expect_passes closed' (by decide) taken).2
      have fewest := last.length_after
      exact ⟨last.closed closed', by omega⟩
    split at done <;> cases done

/-- Prefix operators and their operands are read as in layers: by induction on the depth, since what
    they apply to and what is in parentheses is less deep. -/
theorem unary_follows (depth room : Nat) (c : Cursor) (closed : c.Closed)
    (inside : c.after.length < depth) : FollowsAt c (unary room) (layeredOperand depth) := by
  induction depth generalizing room c with
  | zero => omega
  | succ depth ih =>
    have step (taken : c.current.kind ≠ .endOfInput) : c.next.after.length < depth := by
      have shorter := after_next_lt closed taken
      omega
    match room with
    | 0 => exact .inr ⟨c, rfl⟩
    | room + 1 =>
      rw [FollowsAt, unary_run, layeredOperand_run]
      split
      · next operator =>
        have shorter := step (kind_ne_end_of_isUnary operator)
        exact (ih room c.next closed.next shorter).bind_same
      match room with
      | 0 => exact .inr ⟨c, rfl⟩
      | room + 1 =>
        rw [primary_run]
        split
        · exact .inl rfl
        split
        · next opens =>
          have shorter := step (by simp [opens])
          refine FollowsAt.bind_same ?_
          match room with
          | 0 => exact .inr ⟨c.next, rfl⟩
          | room + 1 =>
            exact binary_follows (layeredOperand_takes depth) ih room 1 c.next closed.next shorter
        · exact .inl rfl

end Rules

/-! ## Climbing is reading in layers -/

section Results

variable {room depth least level : Nat} {c c' : Cursor} {n : Node}

/-- With room enough, operators are read in layers, however deep those may be. -/
theorem binary_eq_layers (closed : c.Closed) (inside : c.after.length < depth)
    (enough : 4 * c.after.length + 3 ≤ room) :
    binary room least c = layers (layeredOperand depth) (7 - max 1 least) c := by
  have follows := binary_follows (layeredOperand_takes depth) (unary_follows depth) room least c
    closed inside
  exact follows.resolve_right fun ⟨c', deep⟩ =>
    ((advancingRules room).binary least c).fits closed enough c'.current c' deep

theorem layered_run (level : Nat) (c : Cursor) :
    layered level c = layers (layeredOperand (c.after.length + 1)) (7 - level) c :=
  bind_ok (get_ok c)

/-- The depth of the layered reading makes no difference. -/
theorem layers_eq_layered (closed : c.Closed) (inside : c.after.length < depth)
    (range : 1 ≤ level ∧ level ≤ 7) :
    layers (layeredOperand depth) (7 - level) c = layered level c := by
  have same : 7 - max 1 level = 7 - level := by omega
  calc layers (layeredOperand depth) (7 - level) c
    _ = binary (4 * c.after.length + 3) level c := by
      rw [binary_eq_layers closed inside (Nat.le_refl _), same]
    _ = layered level c := by
      rw [binary_eq_layers closed (Nat.lt_succ_self _) (Nat.le_refl _), same, layered_run]

theorem foldLevel_congr {x y : ParseM Node} (takes : Takes x)
    (same : ∀ {c}, c.Closed → c.after.length < depth → x c = y c) (rounds : List Token)
    {left : Node} (closed : c.Closed) (inside : c.after.length < depth) :
    foldLevel level x rounds left c = foldLevel level y rounds left c := by
  induction rounds generalizing c left with
  | nil => rfl
  | cons t rounds ih =>
    by_cases isLevel : c.current.kind.level? = some level
    · have shorter := after_next_lt closed (kind_ne_end_of_level isLevel)
      rw [foldLevel_goes isLevel, foldLevel_goes isLevel]
      have read := same closed.next (by omega)
      cases found : x c.next with
      | error e mid => rw [bind_error found, bind_error (read.symm.trans found)]
      | ok right mid =>
        obtain ⟨closed', fewer⟩ := takes closed.next found
        rw [bind_ok found, bind_ok (read.symm.trans found)]
        exact ih closed' (by omega)
    · rw [foldLevel_stops isLevel, foldLevel_stops isLevel]

/-- A layer reads an operand of the next one, and then the operators of its level. -/
theorem layered_loop (closed : c.Closed) (range : 1 ≤ level ∧ level ≤ 6) :
    layered level c =
      (do
        let left ← layered (level + 1)
        folding level (layered (level + 1)) left) c := by
  have count : 7 - level = 7 - (level + 1) + 1 := by omega
  have same : 6 - (7 - (level + 1)) = level := by omega
  have first := layered_run (level + 1) c
  have takes : Takes (layers (layeredOperand (c.after.length + 1)) (7 - (level + 1))) :=
    layers_takes (layeredOperand_takes _) (by omega)
  rw [layered_run, count, layers, same]
  cases read : layers (layeredOperand (c.after.length + 1)) (7 - (level + 1)) c with
  | error e mid => rw [bind_error read, bind_error (first.trans read)]
  | ok left mid =>
    obtain ⟨closed', fewer⟩ := takes closed read
    rw [bind_ok read, bind_ok (first.trans read), folding_run]
    refine foldLevel_congr takes (fun closed inside => ?_) _ closed' (Nat.lt_succ_of_lt fewer)
    exact layers_eq_layered closed inside (by omega)

/-- The last layer reads prefix operators and operands, and all the layers in parentheses. -/
theorem layered_operand (closed : c.Closed) :
    layered 7 c =
      if c.current.kind.isUnary then
        (do
          let inner ← layered 7
          return .branch .unary [.ofToken c.current, inner] : ParseM Node) c.next
      else if c.current.kind.isAtom then .ok (.ofToken c.current) c.next
      else if c.current.kind = .openParen then
        (do
          let inner ← layered 1
          discard (expect .closeParen)
          return inner : ParseM Node) c.next
      else if c.current.kind = .endOfInput then .error (.unexpectedEnd c.current) c
      else .error (.unexpected c.current .expression) c := by
  have step (level : Nat) (range : 1 ≤ level ∧ level ≤ 7) (inside : c.current.kind ≠ .endOfInput) :
      layers (layeredOperand c.after.length) (7 - level) c.next = layered level c.next := by
    have shorter := after_next_lt closed inside
    exact layers_eq_layered closed.next (by omega) range
  rw [layered_run, layers, layeredOperand_run]
  split
  · next operator =>
    have same := step 7 (by decide) (kind_ne_end_of_isUnary operator)
    rw [layers] at same
    simp only [bind, EStateM.bind, same]
  split
  · rfl
  split
  · next opens =>
    have same := step 1 (by decide) (by simp [opens])
    simp only [bind, EStateM.bind, same]
  · rfl

/-- Where a climb ends there is no operator that it would have taken. -/
theorem binary_ends (closed : c.Closed) (done : binary room least c = .ok n c') :
    c'.OperatorBelow least := by
  by_cases bound : least ≤ 7
  · obtain ⟨-, -, -, below⟩ := (soundRules room).binary least bound closed done
    exact below
  · exact operatorBelow_of_le (by omega)

end Results

/-- Climbing is reading in layers, wherever the cursor stands among tokens and whatever the least
    level: both give the same tree or the same error and leave the same cursor, unless the climb has
    too little room. With room enough it never has, and neither has the layered reading. Where a
    climb succeeds, no operator of the least level or tighter comes next. -/
theorem binary_eq_layered (tokens : List Token) (c : Cursor)
    (whole : c.tokens = Cursor.close tokens) (room : Nat) (least : Int) :
    (binary room least.toNat c = layered (max 1 (min least 7)).toNat c ∨
      ∃ c', binary room least.toNat c = .error (.tooDeep c'.current) c') ∧
    (4 * c.after.length + 3 ≤ room →
      binary room least.toNat c = layered (max 1 (min least 7)).toNat c ∧
        ∀ found c', layered (max 1 (min least 7)).toNat c ≠ .error (.tooDeep found) c') ∧
    ∀ n c', binary room least.toNat c = .ok n c' →
      ∀ level, c'.current.kind.level? = some level → (level : Int) < least := by
  have closed := Cursor.closed_of_tokens whole
  have count : 7 - max 1 least.toNat = 7 - (max 1 (min least 7)).toNat := by omega
  refine ⟨?_, fun enough => ?_, fun n c' done level isLevel => ?_⟩
  · have follows := binary_follows (layeredOperand_takes _) (unary_follows (c.after.length + 1))
      room least.toNat c closed (Nat.lt_succ_self _)
    rwa [count, FollowsAt, ← layered_run] at follows
  · have same : binary room least.toNat c = _ :=
      binary_eq_layers closed (Nat.lt_succ_self _) enough
    rw [count, ← layered_run] at same
    refine ⟨same, ?_⟩
    rw [← same]
    exact ((advancingRules room).binary _ c).fits closed enough
  · have below := binary_ends closed done level isLevel
    have range := level_range isLevel
    omega

/-- A sum and a product before a comparison, which is too loose for level five. -/
theorem binary_eq_layered_difference :
    let kinds := [.number, .minus, .number, .star, .number, .minus, .number, .less, .number]
    let tokens := kinds.map fun kind => (⟨kind, "2", .nowhere⟩ : Token)
    ∃ n c', binary 50 5 (.ofTokens tokens) = .ok n c' ∧
      layered 5 (.ofTokens tokens) = .ok n c' ∧ c'.index = 7 := by
  intro kinds tokens
  obtain ⟨same, -⟩ := (binary_eq_layered tokens (.ofTokens tokens) rfl 50 5).2.1 (by decide)
  exact ⟨_, _, rfl, same.symm.trans rfl, rfl⟩

end BraceScript.Grammar

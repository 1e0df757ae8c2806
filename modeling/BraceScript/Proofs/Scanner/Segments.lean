import BraceScript.Proofs.Outcome
import BraceScript.Proofs.Scanner.Lexeme

/-!
# Scanning cuts a text into items

`Takes act s text kind` says that an action of a scanner reads a text and emits a token of the kind
for it, or none. Every item of the lexical grammar is taken by `scanItem`, and where `scanItem`
succeeds the text starts with such an item. By induction over the items, scanning a whole text
succeeds just when the text is segmented into items, and gives the tokens of the segments.
-/

namespace BraceScript

open Lexical Outcome

namespace Scanner

/-! ## Taking a text -/

/-- The second scanner has read a text that the first has before it, and has emitted a token of
    the given kind for it, or none. -/
structure Took (s : Scanner) (text : List Char) (kind : Option Kind) (s' : Scanner) : Prop where
  rest : s.rest = text ++ s'.rest
  here : s'.here = s.here.after text
  tokens : s'.tokens.toList = s.tokens.toList ++ tokenOf kind text s.here

/-- An action succeeds and takes a text. -/
def Takes (act : ScanM Unit) (s : Scanner) (text : List Char) (kind : Option Kind) : Prop :=
  ∃ s', act s = .ok () s' ∧ Took s text kind s'

/-- A scanner whose next token starts at the current place. -/
def marked (s : Scanner) : Scanner := { s with start := s.here }

/-- A scanner past a text, with another one left. -/
def past (s : Scanner) (text rest : List Char) : Scanner :=
  { s with rest, here := s.here.after text }

/-- A scanner that has emitted a token. -/
def emitting (s : Scanner) (kind : Kind) (text : List Char) : Scanner :=
  { s with tokens := s.tokens.push ⟨kind, String.ofList text, s.start⟩ }

variable {s : Scanner} {text rest : List Char} {kind : Kind}

@[simp] theorem past_rest : (s.past text rest).rest = rest := rfl

theorem markStart_run : markStart s = .ok () s.marked := rfl

theorem emit_run : emit kind text s = .ok () (s.emitting kind text) := rfl

theorem advance_run {n : Nat} (cut : s.rest = text ++ rest) (length : text.length = n) :
    advance n s = .ok text (s.past text rest) := by
  have taken : s.ahead n = text := by simp [ahead, cut, length.symm]
  have dropped : s.rest.drop n = rest := by simp [cut, length.symm]
  change EStateM.Result.ok (s.ahead n) (s.pass n) = _
  rw [pass, taken, dropped, past]

theorem took_past (cut : s.rest = text ++ rest) : Took s text none (s.past text rest) :=
  ⟨cut, rfl, by simp [past, tokenOf]⟩

theorem took_emitting (marked : s.start = s.here) (cut : s.rest = text ++ rest) :
    Took s text (some kind) ((s.past text rest).emitting kind text) :=
  ⟨cut, rfl, by simp [emitting, past, marked, tokenOf]⟩

/-! ## Single items -/

theorem skipLayout_run (cut : s.rest = text ++ rest) (measured : s.rest.takeWhile isLayout = text) :
    skipLayout s = .ok (!text.isEmpty) (s.past text rest) := by
  unfold skipLayout
  rw [bind_ok (get_ok _), measured, bind_ok (advance_run cut rfl)]
  rfl

theorem skipLineComment_takes (cut : s.rest = text ++ rest)
    (measured : s.rest.takeWhile isCommentPart = text) : Takes skipLineComment s text none := by
  refine ⟨s.past text rest, ?_, took_past cut⟩
  unfold skipLineComment
  rw [bind_ok (get_ok _), measured]
  exact discard_ok (advance_run cut rfl)

theorem skipBlockComment_takes {body : List Char} (first : ¬ ['*', '/'] <:+: body ++ ['*'])
    (cut : s.rest = '/' :: '*' :: (body ++ ['*', '/']) ++ rest) :
    Takes skipBlockComment s ('/' :: '*' :: (body ++ ['*', '/'])) none := by
  refine ⟨s.past ('/' :: '*' :: (body ++ ['*', '/'])) rest, ?_, took_past cut⟩
  unfold skipBlockComment
  have opened : s.rest = ['/', '*'] ++ (body ++ '*' :: '/' :: rest) := by simp [cut]
  rw [bind_ok (discard_ok (advance_run (n := 2) opened rfl)), bind_ok (get_ok _)]
  have measured : commentEnd? 0 (s.past ['/', '*'] (body ++ '*' :: '/' :: rest)).rest =
      some body.length := by
    rw [past_rest, commentEnd?_complete first rest, Nat.zero_add]
  simp only [measured]
  have closed : (s.past ['/', '*'] (body ++ '*' :: '/' :: rest)).rest =
      (body ++ ['*', '/']) ++ rest := by
    simp
  exact discard_ok (advance_run closed (by simp))

theorem scanString_takes {body : List Char} (marked : s.start = s.here) (valid : StringBody body)
    (cut : s.rest = '"' :: (body ++ ['"']) ++ rest) :
    Takes scanString s ('"' :: (body ++ ['"'])) (some .string) := by
  refine ⟨_, ?_, took_emitting marked cut⟩
  unfold scanString
  have opened : s.rest = ['"'] ++ (body ++ '"' :: rest) := by simp [cut]
  rw [bind_ok (advance_run (n := 1) opened rfl), bind_ok (get_ok _)]
  have measured : closingQuote? 0 (s.past ['"'] (body ++ '"' :: rest)).rest =
      some body.length := by
    rw [past_rest, closingQuote?_complete valid rest, Nat.zero_add]
  have closed : (s.past ['"'] (body ++ '"' :: rest)).rest = (body ++ ['"']) ++ rest := by
    simp
  simp only [measured]
  rw [bind_ok (advance_run closed (by simp)), emit_run]
  rfl

theorem scanNumber_takes (marked : s.start = s.here) (cut : s.rest = text ++ rest)
    (measured : numeral s.rest = text) : Takes scanNumber s text (some .number) := by
  refine ⟨_, ?_, took_emitting marked cut⟩
  unfold scanNumber
  rw [bind_ok (get_ok _), measured, bind_ok (advance_run cut rfl), emit_run]

theorem scanWord_takes (marked : s.start = s.here) (cut : s.rest = text ++ rest)
    (measured : s.rest.takeWhile isWordPart = text) :
    Takes scanWord s text (some (.ofWord (String.ofList text))) := by
  refine ⟨_, ?_, took_emitting marked cut⟩
  unfold scanWord
  rw [bind_ok (get_ok _), measured, bind_ok (advance_run cut rfl), emit_run]

theorem scanOperator_takes (marked : s.start = s.here) {spelling : String}
    (cut : s.rest = spelling.toList ++ rest)
    (measured : operator? s.rest = some (spelling, kind)) :
    Takes scanOperator s spelling.toList (some kind) := by
  refine ⟨_, ?_, took_emitting marked cut⟩
  unfold scanOperator
  rw [bind_ok (get_ok _)]
  simp only [measured]
  rw [bind_ok (advance_run cut rfl), emit_run]

/-! ## Which item is read -/

theorem isLayout_iff {c : Char} : isLayout c = true ↔ c ∈ [' ', '\t', '\r', '\n'] := by
  simp [isLayout, or_assoc]

theorem scanItem_layout (cut : s.rest = text ++ rest) (some : text ≠ [])
    (measured : s.rest.takeWhile isLayout = text) : Takes scanItem s text none := by
  refine ⟨s.past text rest, ?_, took_past cut⟩
  unfold scanItem
  rw [bind_ok (skipLayout_run cut measured)]
  simp [some, pure, EStateM.pure]

/-- Where no layout stands, `scanItem` marks the place and chooses by the first characters. -/
theorem scanItem_inside (solid : ∀ c, s.rest.head? = some c → isLayout c = false) :
    scanItem s = (match s.rest with
      | '/' :: '/' :: _ => skipLineComment
      | '/' :: '*' :: _ => skipBlockComment
      | '"' :: _ => scanString
      | c :: _ =>
        if c.isDigit then scanNumber
        else if isWordStart c then scanWord
        else scanOperator
      | [] => scanOperator) s.marked := by
  have measured : ([] ++ s.rest).takeWhile isLayout = [] := takeWhile_eq (by simp) solid
  have stays : skipLayout s = .ok false (s.past [] s.rest) := skipLayout_run rfl measured
  unfold scanItem
  rw [bind_ok stays]
  change (markStart >>= _) s = _
  rw [bind_ok markStart_run, bind_ok (get_ok _)]
  rfl

theorem Takes.of_marked {act : ScanM Unit} {kind : Option Kind} (run : scanItem s = act s.marked)
    (takes : Takes act s.marked text kind) : Takes scanItem s text kind := by
  obtain ⟨s', done, took⟩ := takes
  exact ⟨s', run.trans done, took.rest, took.here, took.tokens⟩

theorem scanItem_plain {c : Char} {cs : List Char} (front : s.rest = c :: cs)
    (solid : isLayout c = false) (quote : c ≠ '"') (line : ¬ ['/', '/'] <+: s.rest)
    (block : ¬ ['/', '*'] <+: s.rest) :
    scanItem s = (if c.isDigit then scanNumber else if isWordStart c then scanWord
      else scanOperator) s.marked := by
  rw [scanItem_inside (by simpa [front] using solid)]
  rw [front] at line block ⊢
  generalize chosen : (if c.isDigit then scanNumber else if isWordStart c then scanWord
    else scanOperator) = act
  refine congrFun ?_ s.marked
  split
  · next same => simp [same] at line
  · next same => simp [same] at block
  · next same =>
    obtain ⟨rfl, -⟩ := List.cons.inj same
    contradiction
  · next same =>
    obtain ⟨rfl, -⟩ := List.cons.inj same
    rw [chosen]
  · next same => simp at same

theorem isCommentPart_iff {c : Char} : isCommentPart c = true ↔ c ≠ '\n' ∧ c ≠ '\x00' := by
  simp [isCommentPart]

/-- The longest numeral, word or operator is taken. -/
theorem scanItem_takes_longest (line : ¬ ['/', '/'] <+: text ++ rest)
    (block : ¬ ['/', '*'] <+: text ++ rest) (longest : Longest kind text (text ++ rest))
    (cut : s.rest = text ++ rest) : Takes scanItem s text (some kind) := by
  obtain ⟨c, text, rfl⟩ := List.exists_cons_of_ne_nil longest.plain.ne_nil
  obtain ⟨solid, quote⟩ := not_separator_of_plain longest.plain
  have run := scanItem_plain cut solid quote (cut ▸ line) (cut ▸ block)
  rcases longest.plain.of_front (List.prefix_refl _) with
    ⟨digit, rfl, -⟩ | ⟨start, rfl, -⟩ | ⟨digit, start, operator⟩
  · rw [if_pos digit] at run
    refine .of_marked run (scanNumber_takes rfl cut ?_)
    rw [marked, cut]
    exact ((longest_number _ digit).unique longest).1
  · rw [if_neg (by simp [not_digit_of_wordStart start]), if_pos start] at run
    refine .of_marked run (scanWord_takes rfl cut ?_)
    rw [marked, cut]
    exact ((longest_word _ start).unique longest).1
  · rw [if_neg (by simp [digit]), if_neg (by simp [start])] at run
    have front : (String.ofList (c :: text)).toList <+: c :: text ++ rest := by simp
    obtain ⟨best, bestKind, found, -⟩ := operator?_longest operator front
    obtain ⟨same, rfl⟩ := (longest_operator digit start found).unique longest
    rw [← cut] at found
    rw [← same] at cut ⊢
    exact .of_marked run (scanOperator_takes rfl cut found)

/-- Every item is taken. -/
theorem scanItem_takes {kind : Option Kind} (item : Item text rest kind)
    (cut : s.rest = text ++ rest) : Takes scanItem s text kind := by
  cases item with
  | layout nonempty blank stops =>
    refine scanItem_layout cut nonempty ?_
    rw [cut]
    refine takeWhile_eq (fun c member => isLayout_iff.mpr (blank c member)) fun c head => ?_
    exact Bool.eq_false_iff.mpr fun layout => stops c head (isLayout_iff.mp layout)
  | @lineComment body rest inside stops =>
    have run : scanItem s = skipLineComment s.marked := by
      rw [scanItem_inside (by simp [cut]; decide), cut]
      rfl
    refine .of_marked run (skipLineComment_takes cut ?_)
    rw [marked, cut]
    refine takeWhile_eq (fun c member => isCommentPart_iff.mpr ?_) fun c head => ?_
    · rcases List.mem_cons.mp member with rfl | member
      · decide
      rcases List.mem_cons.mp member with rfl | member
      · decide
      · exact inside c member
    · rcases stops c head with rfl | rfl <;> decide
  | @blockComment body rest first =>
    have run : scanItem s = skipBlockComment s.marked := by
      rw [scanItem_inside (by simp [cut]; decide), cut]
      rfl
    exact .of_marked run (skipBlockComment_takes first cut)
  | @string body rest valid =>
    have run : scanItem s = scanString s.marked := by
      rw [scanItem_inside (by simp [cut]; decide), cut]
      rfl
    exact .of_marked run (scanString_takes rfl valid cut)
  | longest line block longest => exact scanItem_takes_longest line block longest cut

/-! ## What stands where an item was read -/

end Scanner

namespace Lexical

open Scanner

/-- Layout at the front of a text is an item. -/
theorem Item.of_layout {c : Char} (cs : List Char) (layout : isLayout c = true) :
    Item ((c :: cs).takeWhile isLayout) ((c :: cs).dropWhile isLayout) none := by
  refine .layout ?_ ?_ ?_
  · simp [layout]
  · exact fun d member => isLayout_iff.mp (List.all_eq_true.mp List.all_takeWhile d member)
  · intro d head member
    have other := head_dropWhile head
    rw [isLayout_iff.mpr member] at other
    contradiction

/-- Two slashes at the front of a text start an item. -/
theorem Item.of_lineComment (cs : List Char) :
    Item ('/' :: '/' :: cs.takeWhile isCommentPart) (cs.dropWhile isCommentPart) none := by
  refine .lineComment ?_ ?_
  · exact fun d member => isCommentPart_iff.mp (List.all_eq_true.mp List.all_takeWhile d member)
  · intro d head
    have other : d ≠ '\n' → d = '\x00' := by simpa [isCommentPart] using head_dropWhile head
    exact Decidable.or_iff_not_imp_left.mpr other

end Lexical

namespace Scanner

variable {s : Scanner} {text rest : List Char} {kind : Kind}

theorem blockComment_of_run {s' : Scanner} {cs : List Char} (front : s.rest = '/' :: '*' :: cs)
    (run : skipBlockComment s = .ok () s') :
    ∃ text rest, s.rest = text ++ rest ∧ Item text rest none := by
  unfold skipBlockComment at run
  have opened : s.rest = ['/', '*'] ++ cs := front
  rw [bind_ok (discard_ok (advance_run (n := 2) opened rfl)),
    bind_ok (get_ok _)] at run
  cases found : commentEnd? 0 cs with
  | some count =>
    obtain ⟨body, rest, first, rfl, -⟩ := commentEnd?_eq_some found
    exact ⟨_, rest, by simp [front], .blockComment first⟩
  | none =>
    simp only [past_rest, found] at run
    obtain ⟨_, _, -, failed⟩ := bind_eq_ok.mp run
    exact absurd failed (by simp [throw_eq_ok])

theorem string_of_run {s' : Scanner} {cs : List Char} (front : s.rest = '"' :: cs)
    (run : scanString s = .ok () s') :
    ∃ text rest, s.rest = text ++ rest ∧ Item text rest (some .string) := by
  unfold scanString at run
  have opened : s.rest = ['"'] ++ cs := front
  rw [bind_ok (advance_run (n := 1) opened rfl), bind_ok (get_ok _)] at run
  cases found : closingQuote? 0 cs with
  | some count =>
    obtain ⟨body, rest, valid, rfl, -⟩ := closingQuote?_eq_some found
    exact ⟨_, rest, by simp [front], .string valid⟩
  | none =>
    simp only [past_rest, found] at run
    obtain ⟨_, _, -, failed⟩ := bind_eq_ok.mp run
    exact absurd failed (by simp [throw_eq_ok])

theorem operator_of_run {s' : Scanner} (run : scanOperator s = .ok () s') :
    ∃ spelling kind, operator? s.rest = some (spelling, kind) := by
  unfold scanOperator at run
  rw [bind_ok (get_ok _)] at run
  cases found : operator? s.rest with
  | some entry => exact ⟨entry.1, entry.2, rfl⟩
  | none =>
    simp only [found] at run
    exact absurd run (by simp [throw_eq_ok])

/-- Where the first characters start neither layout, a comment nor a string, and something is read,
    the longest of the other lexemes stands. -/
theorem longest_of_run {s' : Scanner} {c : Char} {cs : List Char} (front : s.rest = c :: cs)
    (run : (if c.isDigit then scanNumber else if isWordStart c then scanWord
      else scanOperator) s = .ok () s') :
    ∃ text kind, Longest kind text (c :: cs) := by
  cases digit : c.isDigit with
  | true => exact ⟨_, _, longest_number cs digit⟩
  | false =>
    cases start : isWordStart c with
    | true => exact ⟨_, _, longest_word cs start⟩
    | false =>
      simp only [digit, start, Bool.false_eq_true, if_false] at run
      obtain ⟨spelling, kind, found⟩ := operator_of_run run
      rw [front] at found
      exact ⟨_, _, longest_operator digit start found⟩

/-- Where something is read, an item stands. -/
theorem item_of_run {s' : Scanner} (left : s.rest ≠ []) (run : scanItem s = .ok () s') :
    ∃ text rest kind, s.rest = text ++ rest ∧ Item text rest kind := by
  obtain ⟨c, cs, front⟩ := List.exists_cons_of_ne_nil left
  cases layout : isLayout c with
  | true =>
    rw [front]
    exact ⟨_, _, none, List.takeWhile_append_dropWhile.symm, .of_layout cs layout⟩
  | false =>
    by_cases line : ['/', '/'] <+: s.rest
    · obtain ⟨more, split⟩ := line
      refine ⟨_, _, none, ?_, .of_lineComment more⟩
      rw [List.cons_append, List.cons_append, List.takeWhile_append_dropWhile, ← split]
      rfl
    by_cases block : ['/', '*'] <+: s.rest
    · obtain ⟨more, split⟩ := block
      rw [scanItem_inside (by simpa [front] using layout), ← split] at run
      obtain ⟨text, rest, cut, item⟩ := blockComment_of_run (s := s.marked) split.symm run
      exact ⟨text, rest, none, cut, item⟩
    by_cases quote : c = '"'
    · subst quote
      rw [scanItem_inside (by simpa [front] using layout), front] at run
      obtain ⟨text, rest, cut, item⟩ := string_of_run (s := s.marked) front run
      exact ⟨text, rest, some .string, cut, item⟩
    · rw [scanItem_plain front layout quote line block] at run
      obtain ⟨text, kind, longest⟩ := longest_of_run (s := s.marked) front run
      rw [← front] at longest
      obtain ⟨rest, cut⟩ := longest.front
      rw [← cut] at line block longest
      exact ⟨text, rest, some kind, cut.symm, .longest line block longest⟩

theorem scanItem_eq_ok {s' : Scanner} (left : s.rest ≠ []) (run : scanItem s = .ok () s') :
    ∃ text kind, Item text s'.rest kind ∧ Took s text kind s' := by
  obtain ⟨text, rest, kind, cut, item⟩ := item_of_run left run
  obtain ⟨mid, again, took⟩ := scanItem_takes item cut
  rw [run] at again
  obtain ⟨⟩ := again
  rw [took.rest, List.append_cancel_left_eq] at cut
  rw [← cut] at item
  exact ⟨text, kind, item, took⟩

/-! ## Whole texts -/

theorem scanItems_done {count : Nat} (done : s.rest = []) : scanItems count s = .ok () s := by
  cases count with
  | zero => rfl
  | succ count =>
    rw [scanItems, bind_ok (get_ok _), done]
    rfl

theorem scanItems_step {count : Nat} (left : s.rest ≠ []) :
    scanItems (count + 1) s = (scanItem >>= fun _ => scanItems count) s := by
  rw [scanItems, bind_ok (get_ok _), if_neg (by simpa using left)]

/-- An item that was read leaves fewer characters. -/
theorem Took.length_lt {kind : Option Kind} {s' : Scanner} (took : Took s text kind s')
    (item : Item text rest kind) : s'.rest.length < s.rest.length := by
  have some : 0 < text.length := List.length_pos_iff.mpr item.ne_nil
  rw [took.rest, List.length_append]
  omega

/-- A text that is read to its end is segmented into the items that were read. -/
theorem segmented_of_run {count : Nat} {s' : Scanner} (enough : s.rest.length ≤ count)
    (run : scanItems count s = .ok () s') :
    ∃ tokens, Segmented s.here s.rest (tokens ++ [⟨.endOfInput, "", s'.here⟩]) ∧
      s'.tokens.toList = s.tokens.toList ++ tokens := by
  induction count generalizing s with
  | zero =>
    have done : s.rest = [] := List.eq_nil_of_length_eq_zero (by omega)
    obtain ⟨⟩ := (scanItems_done done).symm.trans run
    exact ⟨[], done ▸ .done, by simp⟩
  | succ count ih =>
    by_cases done : s.rest = []
    · obtain ⟨⟩ := (scanItems_done done).symm.trans run
      exact ⟨[], done ▸ .done, by simp⟩
    rw [scanItems_step done] at run
    obtain ⟨⟨⟩, mid, first, others⟩ := bind_eq_ok.mp run
    obtain ⟨text, kind, item, took⟩ := scanItem_eq_ok done first
    have shorter := took.length_lt item
    obtain ⟨tokens, segmented, emitted⟩ := ih (by omega) others
    refine ⟨tokenOf kind text s.here ++ tokens, ?_, ?_⟩
    · rw [took.here] at segmented
      rw [took.rest, List.append_assoc]
      exact .item item segmented
    · rw [emitted, took.tokens, List.append_assoc]

/-- A scanner reads its text to the end, and the tokens with the end after them are these. -/
def Reaches (s : Scanner) (all : List Token) : Prop :=
  ∀ count, s.rest.length ≤ count → ∃ tokens s', scanItems count s = .ok () s' ∧
    all = tokens ++ [⟨.endOfInput, "", s'.here⟩] ∧
    s'.tokens.toList = s.tokens.toList ++ tokens

theorem Reaches.item {kind : Option Kind} {all : List Token} (item : Item text rest kind)
    (cut : s.rest = text ++ rest) (more : ∀ s', Took s text kind s' → Reaches s' all) :
    Reaches s (tokenOf kind text s.here ++ all) := by
  intro count enough
  obtain ⟨mid, first, took⟩ := scanItem_takes item cut
  have shorter := took.length_lt item
  have left : s.rest ≠ [] := by
    rw [cut]
    exact List.append_ne_nil_of_left_ne_nil item.ne_nil rest
  obtain ⟨count, rfl⟩ : ∃ fewer, count = fewer + 1 := ⟨count - 1, by omega⟩
  obtain ⟨tokens, s', others, rfl, emitted⟩ := more mid took count (by omega)
  refine ⟨tokenOf kind text s.here ++ tokens, s', ?_, ?_, ?_⟩
  · rw [scanItems_step left, bind_ok first, others]
  · rw [List.append_assoc]
  · rw [emitted, took.tokens, List.append_assoc]

/-- A segmented text is read to its end. -/
theorem reaches_of_segmented {here : Position} {cs : List Char} {all : List Token}
    (segmented : Segmented here cs all) :
    ∀ s : Scanner, s.here = here → s.rest = cs → Reaches s all := by
  induction segmented with
  | done =>
    rintro s rfl done count -
    exact ⟨[], s, scanItems_done done, rfl, by simp⟩
  | skip item _ ih =>
    rintro s rfl cut
    refine .item item cut fun s' took => ih s' took.here ?_
    exact List.append_cancel_left (took.rest.symm.trans cut)
  | take item _ ih =>
    rintro s rfl cut
    refine .item item cut fun s' took => ih s' took.here ?_
    exact List.append_cancel_left (took.rest.symm.trans cut)

theorem finish_run {s' : Scanner} (run : scanItems s.rest.length s = .ok () s') :
    finish s = .ok (s'.tokens.toList ++ [⟨.endOfInput, "", s'.here⟩])
      (s'.marked.emitting .endOfInput []) := by
  unfold finish
  rw [bind_ok (get_ok _), bind_ok run, bind_ok markStart_run, bind_ok emit_run,
    bind_ok (get_ok _)]
  simp [pure, EStateM.pure, emitting, marked]

theorem finish_eq_ok {s' : Scanner} {all : List Token} (run : finish s = .ok all s') :
    ∃ mid, scanItems s.rest.length s = .ok () mid ∧
      all = mid.tokens.toList ++ [⟨.endOfInput, "", mid.here⟩] := by
  have first := run
  unfold finish at first
  rw [bind_ok (get_ok _)] at first
  obtain ⟨⟨⟩, mid, items, -⟩ := bind_eq_ok.mp first
  rw [finish_run items] at run
  obtain ⟨⟩ := run
  exact ⟨mid, items, rfl⟩

end Scanner

/-- A text has tokens just when it is segmented, and they are those of the segments. -/
theorem scan_eq_ok_iff {source : String} {tokens : List Token} :
    scan source = .ok tokens ↔ Segmented .origin source.toList tokens := by
  have start : (Scanner.ofSource source).tokens.toList = [] := rfl
  constructor
  · intro scanned
    unfold scan at scanned
    split at scanned
    · next all s' run =>
      obtain ⟨⟩ := scanned
      obtain ⟨mid, items, rfl⟩ := Scanner.finish_eq_ok run
      obtain ⟨new, segmented, emitted⟩ := Scanner.segmented_of_run (Nat.le_refl _) items
      rw [emitted, start, List.nil_append]
      exact segmented
    · simp at scanned
  · intro segmented
    obtain ⟨new, s', items, rfl, emitted⟩ :=
      Scanner.reaches_of_segmented segmented (.ofSource source) rfl rfl _ (Nat.le_refl _)
    rw [scan, Scanner.finish_run items, emitted, start, List.nil_append]

namespace Lexical

/-! ## Tokens and the text they stand in -/

theorem Plain.kind_ne_end {kind : Kind} {text : List Char} (plain : Plain kind text) :
    kind ≠ .endOfInput := by
  have keywords : ∀ entry ∈ Kind.keywords, entry.2 ≠ .endOfInput := by decide
  have operators : ∀ entry ∈ Kind.operators, entry.2 ≠ .endOfInput := by decide
  cases plain with
  | number => decide
  | keyword _ member => exact keywords _ member
  | identifier => decide
  | operator member => exact operators _ member

theorem Item.lexeme {kind : Kind} {text rest : List Char} (item : Item text rest (some kind)) :
    Lexeme kind text := by
  cases item with
  | string valid => exact .string valid
  | longest _ _ longest => exact .plain longest.plain

theorem Lexeme.kind_ne_end {kind : Kind} {text : List Char} (lexeme : Lexeme kind text) :
    kind ≠ .endOfInput := by
  cases lexeme with
  | plain plain => exact plain.kind_ne_end
  | string => decide

/-- A token is a lexeme that stands in a text, at its place as counted from the start. -/
def StandsIn (t : Token) (here : Position) (cs : List Char) : Prop :=
  Lexeme t.kind t.text.toList ∧
    ∃ before after, cs = before ++ t.text.toList ++ after ∧ t.start = here.after before

theorem after_append (here : Position) (xs ys : List Char) :
    here.after (xs ++ ys) = (here.after xs).after ys := by
  rw [Position.after, List.foldl_append]
  rfl

theorem StandsIn.later {t : Token} {here : Position} {text rest : List Char}
    (stands : StandsIn t (here.after text) rest) : StandsIn t here (text ++ rest) := by
  obtain ⟨lexeme, before, after, rfl, place⟩ := stands
  refine ⟨lexeme, text ++ before, after, by simp, ?_⟩
  rw [place, after_append]

/-- The tokens of a segmented text stand in it, and its end comes after them. -/
theorem Segmented.tokens {here : Position} {cs : List Char} {all : List Token}
    (segmented : Segmented here cs all) :
    ∃ tokens, all = tokens ++ [⟨.endOfInput, "", here.after cs⟩] ∧
      ∀ t ∈ tokens, StandsIn t here cs := by
  induction segmented with
  | done => exact ⟨[], rfl, by simp⟩
  | skip item _ ih =>
    obtain ⟨tokens, rfl, stand⟩ := ih
    exact ⟨tokens, by rw [after_append], fun t member => (stand t member).later⟩
  | @take here text rest kind _ item _ ih =>
    obtain ⟨tokens, rfl, stand⟩ := ih
    refine ⟨_ :: tokens, by rw [after_append, List.cons_append], fun t member => ?_⟩
    rcases List.mem_cons.mp member with rfl | later
    · exact ⟨by simpa using item.lexeme, [], rest, by simp, rfl⟩
    · exact (stand t later).later

theorem after_offset (here : Position) (cs : List Char) :
    (here.after cs).offset = here.offset + cs.length := by
  induction cs generalizing here with
  | nil => simp [Position.after]
  | cons c cs ih =>
    have step : (here.next c).offset = here.offset + 1 := by
      unfold Position.next
      split <;> rfl
    change ((here.next c).after cs).offset = _
    rw [ih, step, List.length_cons]
    omega

theorem Segmented.offset_le {here : Position} {cs : List Char} {all : List Token}
    (segmented : Segmented here cs all) : ∀ t ∈ all, here.offset ≤ t.start.offset := by
  induction segmented with
  | done => simp
  | skip _ _ ih =>
    intro t member
    have later := ih t member
    rw [after_offset] at later
    omega
  | take _ _ ih =>
    refine List.forall_mem_cons.mpr ⟨Int.le_refl _, fun t member => ?_⟩
    have later := ih t member
    rw [after_offset] at later
    omega

/-- The tokens of a segmented text come one after the other in it. -/
theorem Segmented.ordered {here : Position} {cs : List Char} {all : List Token}
    (segmented : Segmented here cs all) :
    all.Pairwise fun t u => t.start.offset < u.start.offset := by
  induction segmented with
  | done => exact List.pairwise_singleton _ _
  | skip _ _ ih => exact ih
  | @take here text rest kind tokens item others ih =>
    refine List.pairwise_cons.mpr ⟨fun t member => ?_, ih⟩
    have some : 0 < text.length := List.length_pos_iff.mpr item.ne_nil
    have later := others.offset_le t member
    rw [after_offset] at later
    show here.offset < t.start.offset
    omega

theorem Segmented.nodup_starts {here : Position} {cs : List Char} {all : List Token}
    (segmented : Segmented here cs all) : (all.map Token.start).Nodup := by
  refine List.pairwise_map.mpr (segmented.ordered.imp fun before same => ?_)
  rw [same] at before
  omega

/-- A token that stands in a whole text is the slice of it that starts at the token's offset. -/
theorem StandsIn.slice {t : Token} {source : String}
    (stands : StandsIn t .origin source.toList) :
    ∃ offset : Nat, t.start.offset = offset ∧
      t.text.toList = (source.toList.drop offset).take t.text.length := by
  obtain ⟨-, before, after, whole, place⟩ := stands
  refine ⟨before.length, ?_, ?_⟩
  · rw [place, after_offset]
    exact Int.zero_add _
  · rw [whole, List.append_assoc, List.drop_left, ← String.length_toList, List.take_left]

end Lexical

/-- Scanning gives tokens just for the texts that are made of items, each the one that has to be
    chosen at its place. The tokens are those of the items, in their order and with the slices of
    the text that they stand for, and then one end of the input where the text ends. -/
theorem scan_cuts_longest_items (source : String) (tokens : List Token) :
    (scan source = .ok tokens ↔ Segmented .origin source.toList tokens) ∧
    (scan source = .ok tokens → ∃ (front : List Token) (last : Token),
      tokens = front ++ [last] ∧ last.kind = .endOfInput ∧ last.text = "" ∧
      last.start.offset = source.length ∧
      ∀ t ∈ front, t.kind ≠ .endOfInput ∧ ∃ offset : Nat, t.start.offset = offset ∧
        t.text.toList = (source.toList.drop offset).take t.text.length) := by
  refine ⟨scan_eq_ok_iff, fun scanned => ?_⟩
  obtain ⟨front, whole, stand⟩ := (scan_eq_ok_iff.mp scanned).tokens
  refine ⟨front, _, whole, rfl, rfl, ?_, fun t member => ?_⟩
  · rw [after_offset, String.length_toList]
    exact Int.zero_add _
  · exact ⟨(stand t member).1.kind_ne_end, (stand t member).slice⟩

end BraceScript

import BraceScript.Highlight
import BraceScript.Proofs.Scanner.Places

/-!
# Highlighting repaints a line

A line that can be scanned is cut into segments: its tokens, its comments and the layout between
them. `paint` colours segments one after the other and gathers what stands between two tokens in a
gap; it gives the fragments of a line. So the fragments spell out the line, each token is a
fragment of its own, and a gap is plain up to its first comment and coloured as a comment from
there on.
-/

namespace BraceScript

namespace Lexical

/-- An item of a text, with the kind of its token if it has one. -/
structure Segment where
  kind : Option Kind
  text : List Char

/-- A text cut into items. -/
inductive Cut : List Char → List Segment → Prop
  | done : Cut [] []
  | item {text rest : List Char} {kind : Option Kind} {segments : List Segment} :
    Item text rest kind → Cut rest segments → Cut (text ++ rest) (⟨kind, text⟩ :: segments)

/-- The text of segments. -/
def spelled (segments : List Segment) : List Char := segments.flatMap Segment.text

/-- The tokens of segments from a place on, with the end of the input after them. -/
def placed (here : Position) : List Segment → List Token
  | [] => [⟨.endOfInput, "", here⟩]
  | p :: segments => tokenOf p.kind p.text here ++ placed (here.after p.text) segments

variable {here : Position} {cs : List Char} {segments : List Segment} {tokens : List Token}

theorem Cut.segmented (cut : Cut cs segments) (here : Position) :
    Segmented here cs (placed here segments) := by
  induction cut generalizing here with
  | done => exact .done
  | item item _ ih => exact .item item (ih _)

theorem Segmented.exists_cut (segmented : Segmented here cs tokens) :
    ∃ segments, Cut cs segments := by
  induction segmented with
  | done => exact ⟨[], .done⟩
  | skip item _ ih | take item _ ih =>
    obtain ⟨segments, cut⟩ := ih
    exact ⟨_, .item item cut⟩

theorem Cut.spelled_eq (cut : Cut cs segments) : spelled segments = cs := by
  induction cut with
  | done => rfl
  | item _ _ ih => rw [spelled, List.flatMap_cons, ← spelled, ih]

theorem Cut.items (cut : Cut cs segments) : ∀ p ∈ segments, ∃ rest, Item p.text rest p.kind := by
  induction cut with
  | done => simp
  | item item _ ih => exact List.forall_mem_cons.mpr ⟨⟨_, item⟩, ih⟩

theorem Cut.eq_nil (cut : Cut [] segments) : segments = [] := by
  cases segments with
  | nil => rfl
  | cons p segments =>
    obtain ⟨rest, item⟩ := cut.items p List.mem_cons_self
    have spells := cut.spelled_eq
    rw [spelled, List.flatMap_cons] at spells
    exact absurd (List.append_eq_nil_iff.mp spells).1 item.ne_nil

/-- What has no token and does not start a comment is layout. -/
theorem Item.layout_of_plain {text rest : List Char} (item : Item text rest none)
    (plain : ¬ StartsComment text) : ∀ c ∈ text, c ∈ [' ', '\t', '\r', '\n'] := by
  cases item with
  | layout _ blank _ => exact blank
  | lineComment => exact absurd (.inl ⟨_, rfl⟩) plain
  | blockComment => exact absurd (.inr ⟨_, rfl⟩) plain

end Lexical

namespace Highlight

open Lexical

/-- The text of fragments. -/
def shown (fragments : List Fragment) : List Char := fragments.flatMap (·.text.toList)

/-- The characters of fragments, each with the group that it is coloured by. -/
def painted (fragments : List Fragment) : List (Char × Group) :=
  fragments.flatMap fun fragment => fragment.text.toList.map (·, fragment.group)

/-- Characters in one colour. -/
def inGroup (group : Group) (cs : List Char) : List (Char × Group) := cs.map (·, group)

theorem shown_append (xs ys : List Fragment) : shown (xs ++ ys) = shown xs ++ shown ys :=
  List.flatMap_append

theorem painted_append (xs ys : List Fragment) : painted (xs ++ ys) = painted xs ++ painted ys :=
  List.flatMap_append

theorem length_painted (fragments : List Fragment) :
    (painted fragments).length = (shown fragments).length := by
  simp [painted, shown, List.length_flatMap]

theorem inGroup_append (group : Group) (xs ys : List Char) :
    inGroup group (xs ++ ys) = inGroup group xs ++ inGroup group ys :=
  List.map_append

/-! ## Gaps -/

theorem shown_gapFragments (gap : List Char) : shown (gapFragments gap) = gap := by
  have parts : gap.takeWhile (· ≠ '/') ++ gap.dropWhile (· ≠ '/') = gap :=
    List.takeWhile_append_dropWhile
  unfold gapFragments
  generalize gap.takeWhile (· ≠ '/') = blanks at parts ⊢
  generalize gap.dropWhile (· ≠ '/') = comments at parts ⊢
  subst parts
  cases blanks <;> cases comments <;> simp [shown]

theorem painted_gapFragments (gap : List Char) :
    painted (gapFragments gap) =
      inGroup .plain (gap.takeWhile (· ≠ '/')) ++ inGroup .comment (gap.dropWhile (· ≠ '/')) := by
  unfold gapFragments
  generalize gap.takeWhile (· ≠ '/') = blanks
  generalize gap.dropWhile (· ≠ '/') = comments
  cases blanks <;> cases comments <;> simp [painted, inGroup]

/-- From the first slash on a gap has the colour of comments. -/
theorem painted_gap_comment (gap more : List Char) :
    ∃ front, painted (gapFragments (gap ++ '/' :: more)) =
      front ++ inGroup .comment ('/' :: more) ∧ front.length = gap.length := by
  have split : (gap ++ '/' :: more).takeWhile (· ≠ '/') = gap.takeWhile (· ≠ '/') ∧
      (gap ++ '/' :: more).dropWhile (· ≠ '/') = gap.dropWhile (· ≠ '/') ++ '/' :: more := by
    induction gap with
    | nil => simp
    | cons c gap ih =>
      by_cases slash : c = '/'
      · simp [slash]
      · simpa [slash] using ih
  refine ⟨painted (gapFragments gap), ?_, ?_⟩
  · rw [painted_gapFragments, painted_gapFragments, split.1, split.2, inGroup_append,
      List.append_assoc]
  · rw [length_painted, shown_gapFragments]

/-- Before its first slash a gap is plain. -/
theorem painted_gap_plain {blanks : List Char} (blank : ∀ c ∈ blanks, c ≠ '/') (more : List Char) :
    ∃ back, painted (gapFragments (blanks ++ more)) = inGroup .plain blanks ++ back := by
  have taken : (blanks ++ more).takeWhile (· ≠ '/') = blanks ++ more.takeWhile (· ≠ '/') :=
    List.takeWhile_append_of_pos (by simpa using blank)
  exact ⟨_, by rw [painted_gapFragments, taken, inGroup_append, List.append_assoc]⟩

/-! ## Segments -/

/-- The fragments of segments, where `gap` stands between the last token and them. -/
def paint (gap : List Char) : List Segment → List Fragment
  | [] => gapFragments gap
  | ⟨none, text⟩ :: segments => paint (gap ++ text) segments
  | ⟨some kind, text⟩ :: segments =>
    gapFragments gap ++ ⟨groupOf kind, String.ofList text⟩ :: paint [] segments

/-- What stands between the last token and the end of segments. -/
def gapAfter (gap : List Char) : List Segment → List Char
  | [] => gap
  | ⟨none, text⟩ :: segments => gapAfter (gap ++ text) segments
  | ⟨some _, _⟩ :: segments => gapAfter [] segments

variable {segments before after : List Segment} {text : String} {tokens : List Token}

/-- The fragments of a cut text are those of its segments: the places of the tokens are counted
    through the segments. -/
theorem tokenFragments_placed (real : ∀ p ∈ segments, p.kind ≠ some .endOfInput) (gap : List Char)
    {offset : Nat} {here : Position} (counted : here.offset = offset + gap.length) :
    tokenFragments offset (gap ++ spelled segments)
      ((placed here segments).filter fun token => token.kind ≠ .endOfInput) =
        paint gap segments := by
  induction segments generalizing gap offset here with
  | nil => simp [placed, spelled, tokenFragments, paint]
  | cons p segments ih =>
    obtain ⟨kind, word⟩ := p
    obtain ⟨here_real, others⟩ := List.forall_mem_cons.mp real
    have spelling : spelled (⟨kind, word⟩ :: segments) = word ++ spelled segments := by
      rw [spelled, List.flatMap_cons, ← spelled]
    rw [spelling]
    cases kind with
    | none =>
      have further : (here.after word).offset = offset + (gap ++ word).length := by
        rw [after_offset, counted, List.length_append]
        omega
      rw [paint, ← ih others (gap ++ word) further, List.append_assoc]
      rfl
    | some kind =>
      have further : (here.after word).offset =
          (offset + gap.length + word.length : Nat) + ([] : List Char).length := by
        rw [after_offset, counted, List.length_nil]
        omega
      have next := ih others [] further
      have kept : kind ≠ .endOfInput := fun same => here_real (congrArg some same)
      have first : (placed here (⟨some kind, word⟩ :: segments)).filter
          (fun token => token.kind ≠ .endOfInput) = ⟨kind, String.ofList word, here⟩ ::
            (placed (here.after word) segments).filter fun token => token.kind ≠ .endOfInput := by
        simp [placed, tokenOf, kept]
      have gapLength : here.offset.toNat - offset = gap.length := by omega
      have width : (String.ofList word).length = word.length := by simp
      rw [first, tokenFragments]
      simp only [gapLength, width]
      rw [paint, List.take_left, ← List.drop_drop, List.drop_left, List.drop_left, ← next]
      rfl

theorem shown_paint (gap : List Char) : shown (paint gap segments) = gap ++ spelled segments := by
  induction segments generalizing gap with
  | nil => simp [paint, shown_gapFragments, spelled]
  | cons p segments ih =>
    obtain ⟨kind, word⟩ := p
    cases kind with
    | none =>
      rw [paint, ih, spelled, spelled, List.flatMap_cons, List.append_assoc]
    | some kind =>
      rw [paint, shown_append, shown_gapFragments, shown, List.flatMap_cons, ← shown, ih]
      simp [spelled]

/-- The fragments of the tokens among the first segments come first, and what is left of these
    segments is the gap for those that follow. -/
theorem paint_append (gap : List Char) (before : List Segment) :
    ∃ front, (∀ after, paint gap (before ++ after) = front ++ paint (gapAfter gap before) after) ∧
      shown front ++ gapAfter gap before = gap ++ spelled before := by
  induction before generalizing gap with
  | nil => exact ⟨[], fun after => rfl, by simp [shown, gapAfter, spelled]⟩
  | cons p before ih =>
    obtain ⟨kind, word⟩ := p
    cases kind with
    | none =>
      obtain ⟨front, fragments, spells⟩ := ih (gap ++ word)
      refine ⟨front, fragments, ?_⟩
      rw [gapAfter, spells, spelled, spelled, List.flatMap_cons, List.append_assoc]
    | some kind =>
      obtain ⟨front, fragments, spells⟩ := ih []
      refine ⟨gapFragments gap ++ ⟨groupOf kind, String.ofList word⟩ :: front, fun after => ?_, ?_⟩
      · rw [List.cons_append, paint, fragments, gapAfter, List.append_assoc, List.cons_append]
      · rw [shown_append, shown_gapFragments, gapAfter, shown, List.flatMap_cons, ← shown,
          List.append_assoc, List.append_assoc, spells]
        simp [spelled]

/-- The first fragments are those of the first gap. -/
theorem paint_gap (gap : List Char) (segments : List Segment) :
    ∃ more rest, paint gap segments = gapFragments (gap ++ more) ++ rest := by
  induction segments generalizing gap with
  | nil => exact ⟨[], [], by simp [paint]⟩
  | cons p segments ih =>
    obtain ⟨kind, word⟩ := p
    cases kind with
    | none =>
      obtain ⟨more, rest, split⟩ := ih (gap ++ word)
      exact ⟨word ++ more, rest, by rw [paint, split, List.append_assoc]⟩
    | some kind =>
      refine ⟨[], ⟨groupOf kind, String.ofList word⟩ :: paint [] segments, ?_⟩
      rw [paint, List.append_nil]

/-- Right after a token there is no gap. -/
theorem gapAfter_eq_nil {gap : List Char} (starts : before = [] → gap = [])
    (ends : ∀ p, before.getLast? = some p → p.kind ≠ none) : gapAfter gap before = [] := by
  induction before generalizing gap with
  | nil => exact starts rfl
  | cons p before ih =>
    obtain ⟨kind, word⟩ := p
    have later : ∀ q, before.getLast? = some q → q.kind ≠ none := by
      intro q last
      refine ends q ?_
      rw [List.getLast?_cons, last, Option.getD_some]
    cases kind with
    | none =>
      refine ih (fun alone => ?_) later
      subst alone
      exact absurd rfl (ends _ rfl)
    | some kind => exact ih (fun _ => rfl) later

theorem paint_token (gap : List Char) {kind : Kind} {word : List Char} :
    ∃ front back, paint gap (before ++ ⟨some kind, word⟩ :: after) =
      front ++ ⟨groupOf kind, String.ofList word⟩ :: back ∧
        shown front = gap ++ spelled before := by
  obtain ⟨front, fragments, spells⟩ := paint_append gap before
  refine ⟨front ++ gapFragments (gapAfter gap before), paint [] after, ?_, ?_⟩
  · rw [fragments, paint, List.append_assoc]
  · rw [shown_append, shown_gapFragments, spells]

theorem painted_comment {word : List Char} (comment : StartsComment word) :
    ∃ front back, painted (paint [] (before ++ ⟨none, word⟩ :: after)) =
      front ++ inGroup .comment word ++ back ∧ front.length = (spelled before).length := by
  obtain ⟨word, rfl⟩ : ∃ tail, word = '/' :: tail := by
    rcases comment with ⟨tail, rfl⟩ | ⟨tail, rfl⟩ <;> exact ⟨_, rfl⟩
  obtain ⟨front, fragments, spells⟩ := paint_append [] before
  obtain ⟨more, rest, split⟩ := paint_gap (gapAfter [] before ++ '/' :: word) after
  obtain ⟨inside, coloured, length⟩ := painted_gap_comment (gapAfter [] before) (word ++ more)
  refine ⟨painted front ++ inside, inGroup .comment more ++ painted rest, ?_, ?_⟩
  · have gap : gapAfter [] before ++ '/' :: word ++ more =
        gapAfter [] before ++ '/' :: (word ++ more) := by
      simp
    rw [fragments, paint, split, gap, painted_append, painted_append, coloured, ← List.cons_append,
      inGroup_append]
    simp only [List.append_assoc]
  · rw [List.length_append, length, length_painted, ← List.length_append, spells, List.nil_append]

theorem painted_blanks {blanks : List Segment}
    (starts : ∀ p, before.getLast? = some p → p.kind ≠ none)
    (layout : ∀ p ∈ blanks, p.kind = none ∧ ∀ c ∈ p.text, c ≠ '/') :
    ∃ front back, painted (paint [] (before ++ (blanks ++ after))) =
      front ++ inGroup .plain (spelled blanks) ++ back ∧
        front.length = (spelled before).length := by
  have gather : ∀ gap, paint gap (blanks ++ after) = paint (gap ++ spelled blanks) after := by
    induction blanks with
    | nil => intro gap; simp [spelled]
    | cons p blanks ih =>
      obtain ⟨⟨kind, -⟩, others⟩ := List.forall_mem_cons.mp layout
      obtain ⟨_, word⟩ := p
      obtain rfl : _ = none := kind
      intro gap
      rw [List.cons_append, paint, ih others, spelled, spelled, List.flatMap_cons,
        List.append_assoc]
  have solid : ∀ c ∈ spelled blanks, c ≠ '/' := by
    intro c member
    obtain ⟨p, inside, mem⟩ := List.mem_flatMap.mp member
    exact (layout p inside).2 c mem
  obtain ⟨front, fragments, spells⟩ := paint_append [] before
  rw [gapAfter_eq_nil (fun _ => rfl) starts] at fragments spells
  obtain ⟨more, rest, split⟩ := paint_gap (spelled blanks) after
  obtain ⟨back, coloured⟩ := painted_gap_plain solid more
  refine ⟨painted front, back ++ painted rest, ?_, ?_⟩
  · rw [fragments, gather, List.nil_append, split, painted_append, painted_append, coloured]
    simp only [List.append_assoc]
  · rw [length_painted, ← List.append_nil (shown front), spells, List.nil_append]

/-! ## Lines -/

theorem line_of_error {e : ScanError} (failed : scan text = .error e) :
    line text = [⟨.plain, text⟩] := by
  unfold line
  split
  · next empty => rw [empty]
  · rw [failed]

/-- The fragments of a line that is not empty are those of its segments. -/
theorem line_of_cut (some : text ≠ "") (cut : Cut text.toList segments) :
    line text = paint [] segments := by
  have real : ∀ p ∈ segments, p.kind ≠ .some .endOfInput := by
    intro p member same
    obtain ⟨rest, item⟩ := cut.items p member
    rw [same] at item
    exact item.lexeme.kind_ne_end rfl
  have start : Position.origin.offset = 0 + ([] : List Char).length := rfl
  have fragments := tokenFragments_placed real [] start
  rw [line, if_neg some, scan_eq_ok_iff.mpr (cut.segmented .origin)]
  rwa [List.nil_append, cut.spelled_eq] at fragments

theorem painted_line (cut : Cut text.toList segments) :
    painted (line text) = painted (paint [] segments) := by
  by_cases some : text = ""
  · subst some
    rw [cut.eq_nil]
    rfl
  · rw [line_of_cut some cut]

theorem shown_line (text : String) : shown (line text) = text.toList := by
  by_cases some : text = ""
  · subst some
    rfl
  cases scanned : scan text with
  | error e => simp [line_of_error scanned, shown]
  | ok tokens =>
    obtain ⟨segments, cut⟩ := (scan_eq_ok_iff.mp scanned).exists_cut
    rw [line_of_cut some cut, shown_paint, cut.spelled_eq, List.nil_append]

/-- How fragments colour segments. -/
structure Repaints (segments : List Segment) (fragments : List Fragment) : Prop where
  /-- A token is one fragment, with the colour of its kind. -/
  token : ∀ before kind word after, segments = before ++ ⟨some kind, word⟩ :: after →
    ∃ front back, fragments = front ++ ⟨groupOf kind, String.ofList word⟩ :: back ∧
      shown front = spelled before
  /-- All of a comment has the colour of comments. -/
  comment : ∀ before word after, segments = before ++ ⟨none, word⟩ :: after → StartsComment word →
    ∃ front back, painted fragments = front ++ inGroup .comment word ++ back ∧
      front.length = (spelled before).length
  /-- Between a token or the start and the first comment after it all is plain. -/
  blanks : ∀ before blanks after, segments = before ++ (blanks ++ after) →
    (∀ p, before.getLast? = some p → p.kind ≠ none) →
    (∀ p ∈ blanks, p.kind = none ∧ ¬ StartsComment p.text) →
    ∃ front back, painted fragments = front ++ inGroup .plain (spelled blanks) ++ back ∧
      front.length = (spelled before).length

theorem repaints_of_cut (cut : Cut text.toList segments) : Repaints segments (line text) where
  token := by
    rintro before kind word after rfl
    have some : text ≠ "" := by
      rintro rfl
      simpa using cut.eq_nil
    rw [line_of_cut some cut]
    exact paint_token []
  comment := by
    rintro before word after rfl comment
    rw [painted_line cut]
    exact painted_comment comment
  blanks := by
    rintro before blanks after rfl starts layout
    rw [painted_line cut]
    refine painted_blanks starts fun p member => ⟨(layout p member).1, fun c inside slash => ?_⟩
    obtain ⟨rest, item⟩ := cut.items p (by simp [member])
    rw [(layout p member).1] at item
    have blank := item.layout_of_plain (layout p member).2 c inside
    rw [slash] at blank
    exact absurd blank (by decide)

/-- Highlighting leaves the text of a line as it is. A line that cannot be scanned is one plain
    fragment. Any other line can be cut into segments, and however it is cut, these have its tokens
    and are coloured each as it has to be. -/
theorem line_repaints (text : String) :
    shown (line text) = text.toList ∧
    (∀ e, scan text = .error e → line text = [⟨.plain, text⟩]) ∧
    ∀ tokens, scan text = .ok tokens →
      (∃ segments, Cut text.toList segments) ∧
      ∀ segments, Cut text.toList segments →
        tokens = placed .origin segments ∧ Repaints segments (line text) := by
  refine ⟨shown_line text, fun e => line_of_error, fun tokens scanned => ?_⟩
  refine ⟨(scan_eq_ok_iff.mp scanned).exists_cut, fun segments cut => ⟨?_, repaints_of_cut cut⟩⟩
  have again := scan_eq_ok_iff.mpr (cut.segmented .origin)
  exact Except.ok.inj (scanned.symm.trans again)

/-- A keyword, a name and a comment with a slash in it at the end, and a string that is not
    closed. -/
theorem line_repaints_trailing :
    let text := "if x // y/"
    let tokens : List Token := [⟨.kwIf, "if", ⟨0, 1, 1⟩⟩, ⟨.identifier, "x", ⟨3, 1, 4⟩⟩,
      ⟨.endOfInput, "", ⟨10, 1, 11⟩⟩]
    scan text = .ok tokens ∧
    line text =
      [⟨.keyword, "if"⟩, ⟨.plain, " "⟩, ⟨.plain, "x"⟩, ⟨.plain, " "⟩, ⟨.comment, "// y/"⟩] ∧
    shown (line text) = text.toList ∧
    (∃ segments, Cut text.toList segments ∧ tokens = placed .origin segments ∧
      Repaints segments (line text)) ∧
    scan "x \"y" = .error (.unterminatedString ⟨2, 1, 3⟩) ∧
    line "x \"y" = [⟨.plain, "x \"y"⟩] := by
  intro text tokens
  have scanned : scan text = .ok tokens := by decide +kernel
  have failed : scan "x \"y" = .error (.unterminatedString ⟨2, 1, 3⟩) := by decide +kernel
  obtain ⟨same, -, painted⟩ := line_repaints text
  obtain ⟨⟨segments, cut⟩, repaints⟩ := painted tokens scanned
  refine ⟨scanned, by decide +kernel, same, ⟨segments, cut, repaints segments cut⟩, failed, ?_⟩
  exact (line_repaints "x \"y").2.1 _ failed

end Highlight

end BraceScript

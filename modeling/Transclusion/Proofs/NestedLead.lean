import Transclusion.Proofs.ClosingLine

/-! What may stand in front of a nested fence, and what the walk over its containers makes
of a later line. The optional space behind a quote marker is the only thing the walk and
the continued lead can disagree on: a marker without it takes the next space of the line,
and from then on the walk is one space short until it is lost at a quote marker. -/
namespace Transclusion
open Text Container

/-- A bullet, or at most nine digits and a dot or parenthesis. -/
def IsListMarker (marker : Text) : Prop :=
  marker = ['-'] ∨ marker = ['*'] ∨ marker = ['+'] ∨
    ∃ digits close, marker = digits ++ [close] ∧ digits ≠ [] ∧ digits.length ≤ 9 ∧
      (∀ c ∈ digits, c.isDigit = true) ∧ (close = '.' ∨ close = ')')

/-- A marker in front of a fence, with the spaces before it and those it takes behind it. -/
inductive Mark where
  | quote (indent : Nat) (spaced : Bool)
  | item (indent : Nat) (marker : Text) (gap : Nat)

namespace Mark

def indent : Mark → Nat
  | quote indent _ => indent
  | item indent _ _ => indent

def text : Mark → Text
  | quote indent spaced => List.replicate indent ' ' ++ '>' :: if spaced then [' '] else []
  | item indent marker gap => List.replicate indent ' ' ++ (marker ++ List.replicate gap ' ')

/-- The container the marker opens. -/
def container : Mark → Container
  | quote _ _ => Container.quote
  | item indent marker gap => Container.item (indent + marker.length + gap)

/-- What the marker becomes on later lines. -/
def continued : Mark → Text
  | quote indent spaced => List.replicate indent ' ' ++ '>' :: if spaced then [' '] else []
  | item indent marker gap => List.replicate (indent + marker.length + gap) ' '

/-- A marker that takes all spaces behind it, so that what follows has no indentation. -/
def takesSpaces : Mark → Bool
  | quote _ spaced => !spaced
  | item _ _ _ => true

/-- The marker is one of its kind, and between one and four spaces belong to a list item. -/
def Valid : Mark → Prop
  | quote indent _ => indent ≤ 3
  | item indent marker gap => indent ≤ 3 ∧ IsListMarker marker ∧ 1 ≤ gap ∧ gap ≤ 4

end Mark

/-- Everything in front of a fence on its line. -/
structure Lead where
  marks : List Mark
  /-- The indentation of the fence itself. -/
  indent : Nat

/-- Marks may follow one another with the indentation of a fence behind them; `tight` says
that the spaces here belong to what stands before. -/
def Allowed (tight : Bool) : List Mark → Nat → Prop
  | [], indent => indent ≤ 3 ∧ (tight → indent = 0)
  | mark :: marks, indent =>
    mark.Valid ∧ (tight → mark.indent = 0) ∧ Allowed mark.takesSpaces marks indent

namespace Lead

def text (lead : Lead) : Text :=
  (lead.marks.map Mark.text).flatten ++ List.replicate lead.indent ' '

/-- The lead stands in front of a fence. -/
def Valid (lead : Lead) : Prop := Allowed false lead.marks lead.indent

end Lead

theorem IsListMarker.cons {marker : Text} (valid : IsListMarker marker) :
    ∃ c more, marker = c :: more ∧ c ≠ ' ' ∧ c ≠ '>' := by
  rcases valid with rfl | rfl | rfl | ⟨digits, close, rfl, nonempty, -, digit, -⟩
  · exact ⟨'-', [], rfl, by decide, by decide⟩
  · exact ⟨'*', [], rfl, by decide, by decide⟩
  · exact ⟨'+', [], rfl, by decide, by decide⟩
  · obtain ⟨c, more, rfl⟩ := List.exists_cons_of_ne_nil nonempty
    have isDigit := digit c (by simp)
    refine ⟨c, more ++ [close], rfl, ?_, ?_⟩
    · rintro rfl
      exact absurd isDigit (by decide)
    · rintro rfl
      exact absurd isDigit (by decide)

/-- A list marker is read in front of whatever follows it. -/
theorem markerLength?_append {marker : Text} (valid : IsListMarker marker) (rest : Text) :
    markerLength? (marker ++ rest) = some marker.length := by
  rcases valid with rfl | rfl | rfl | ⟨digits, close, rfl, nonempty, few, digit, isClose⟩
  · rfl
  · rfl
  · rfl
  · obtain ⟨c, more, rfl⟩ := List.exists_cons_of_ne_nil nonempty
    have isDigit := digit c (by simp)
    have noBullet : ¬ (decide (c = '-') || decide (c = '*') || decide (c = '+')) = true := by
      simp only [Bool.or_eq_true, decide_eq_true_eq]
      rintro ((rfl | rfl) | rfl) <;> exact absurd isDigit (by decide)
    have stops : close.isDigit = false := by rcases isClose with rfl | rfl <;> decide
    have run : Text.countWhile Char.isDigit ((c :: more) ++ (close :: rest)) = (c :: more).length :=
      countWhile_append digit (by simp [stops])
    have behind : ((c :: more) ++ (close :: rest)).drop (c :: more).length = close :: rest :=
      List.drop_left
    have whole : (c :: more) ++ [close] ++ rest = (c :: more) ++ (close :: rest) := by simp
    have counted :
        ¬ ((decide ((c :: more).length = 0) || decide (9 < (c :: more).length)) = true) := by
      simp only [Bool.or_eq_true, decide_eq_true_eq]
      simp only [List.length_cons] at few ⊢
      omega
    rw [whole]
    unfold markerLength?
    simp only [List.cons_append] at run behind ⊢
    simp only [noBullet, run, behind, counted, Bool.false_eq_true, ↓reduceIte]
    simp [Text.startsWith, isClose]

/-- A mark is read off the front of a lead. -/
theorem first?_mark {mark : Mark} {rest : Text} (valid : mark.Valid)
    (tight : mark.takesSpaces → rest.head? ≠ some ' ') :
    first? (mark.text ++ rest) = some (mark.container, rest) := by
  cases mark with
  | quote indent spaced =>
    have spaces : Text.leadingSpaces ((Mark.quote indent spaced).text ++ rest) = indent := by
      rw [Mark.text, List.append_assoc, leadingSpaces_replicate, leadingSpaces_eq_zero (by simp),
        Nat.add_zero]
    have behind : ((Mark.quote indent spaced).text ++ rest).drop indent =
        '>' :: ((if spaced then [' '] else []) ++ rest) := by
      rw [Mark.text, List.append_assoc]
      exact drop_spaces _ _
    unfold first?
    simp only [spaces, behind, Mark.container]
    cases spaced with
    | true => rfl
    | false => simp [dropSpace_of_head? (tight rfl)]
  | item indent marker gap =>
    obtain ⟨-, isMarker, some, -⟩ := valid
    obtain ⟨c, more, cons, notSpace, notQuote⟩ := isMarker.cons
    have spaces : Text.leadingSpaces ((Mark.item indent marker gap).text ++ rest) = indent := by
      rw [Mark.text, List.append_assoc, leadingSpaces_replicate,
        leadingSpaces_eq_zero (by simp [cons, notSpace]), Nat.add_zero]
    have behind : ((Mark.item indent marker gap).text ++ rest).drop indent =
        marker ++ (List.replicate gap ' ' ++ rest) := by
      rw [Mark.text, List.append_assoc, drop_spaces, List.append_assoc]
    have own :
        Text.leadingSpaces ((marker ++ (List.replicate gap ' ' ++ rest)).drop marker.length) =
          gap := by
      rw [List.drop_left, leadingSpaces_replicate, leadingSpaces_eq_zero (tight rfl), Nat.add_zero]
    have after :
        (marker ++ (List.replicate gap ' ' ++ rest)).drop (marker.length + gap) = rest := by
      rw [← List.drop_drop, List.drop_left, drop_spaces]
    unfold first?
    simp only [spaces, behind]
    split
    · next tail quoted =>
      rw [cons] at quoted
      exact absurd (List.cons.inj quoted).1 notQuote
    · rw [markerLength?_append isMarker]
      simp only [own]
      split
      · omega
      · rw [after]
        rfl

/-- What follows a mark that takes the spaces behind it does not start with one. -/
private theorem head?_allowed {marks : List Mark} {indent : Nat}
    (allowed : Allowed true marks indent) :
    (Lead.text ⟨marks, indent⟩).head? ≠ some ' ' := by
  cases marks with
  | nil => simp [Lead.text, allowed.2 rfl]
  | cons mark marks =>
    obtain ⟨valid, tight, -⟩ := allowed
    have noIndent := tight rfl
    cases mark with
    | quote indent spaced =>
      obtain rfl : indent = 0 := noIndent
      simp [Lead.text, Mark.text]
    | item indent marker gap =>
      obtain rfl : indent = 0 := noIndent
      obtain ⟨c, more, rfl, notSpace, -⟩ := valid.2.1.cons
      simp [Lead.text, Mark.text, notSpace]

theorem Lead.text_cons (mark : Mark) (marks : List Mark) (indent : Nat) :
    Lead.text ⟨mark :: marks, indent⟩ = mark.text ++ Lead.text ⟨marks, indent⟩ := by
  simp [Lead.text]

private theorem ofLead_allowed {tight : Bool} {marks : List Mark} {indent : Nat}
    (allowed : Allowed tight marks indent) :
    ofLead (Lead.text ⟨marks, indent⟩) = marks.map Mark.container := by
  induction marks generalizing tight with
  | nil =>
    have spaces : Text.leadingSpaces (List.replicate indent ' ') = indent := by
      have counted := leadingSpaces_replicate indent []
      rw [List.append_nil] at counted
      exact counted
    have none : first? (Lead.text ⟨[], indent⟩) = none := by
      simp [first?, Lead.text, spaces, markerLength?]
    exact ofLead_of_none none
  | cons mark marks ih =>
    obtain ⟨own, -, rest⟩ := allowed
    have first : first? (mark.text ++ Lead.text ⟨marks, indent⟩) = _ := first?_mark own (by
      intro takes
      rw [takes] at rest
      exact head?_allowed rest)
    rw [Lead.text_cons, ofLead_of_some first, ih rest, List.map_cons]

/-- The containers of a lead are those of its marks. -/
theorem Lead.ofLead_eq {lead : Lead} (valid : lead.Valid) :
    ofLead lead.text = lead.marks.map Mark.container :=
  ofLead_allowed valid

theorem continuation_append (front back : Text) :
    continuation (front ++ back) = continuation front ++ continuation back :=
  List.map_append

/-- Text without quote markers and tabs becomes spaces. -/
theorem continuation_of_plain {text : Text} (plain : ∀ c ∈ text, c ≠ '>' ∧ c ≠ '\t') :
    continuation text = List.replicate text.length ' ' := by
  refine List.eq_replicate_iff.mpr ⟨List.length_map _, ?_⟩
  intro c member
  obtain ⟨d, inText, rfl⟩ := List.mem_map.mp member
  simp [plain d inText]

theorem continuation_spaces (n : Nat) :
    continuation (List.replicate n ' ') = List.replicate n ' ' := by
  have plain : continuation (List.replicate n ' ') = _ :=
    continuation_of_plain (by simp [List.mem_replicate])
  rwa [List.length_replicate] at plain

theorem IsListMarker.plain {marker : Text} (valid : IsListMarker marker) :
    ∀ c ∈ marker, c ≠ '>' ∧ c ≠ '\t' := by
  rcases valid with rfl | rfl | rfl | ⟨digits, close, rfl, -, -, digit, isClose⟩
  · simp
  · simp
  · simp
  · intro c member
    rcases List.mem_append.mp member with inDigits | inClose
    · have isDigit := digit c inDigits
      constructor <;> rintro rfl <;> exact absurd isDigit (by decide)
    · rw [List.mem_singleton.mp inClose]
      rcases isClose with rfl | rfl <;> decide

theorem Mark.Valid.continuation_eq {mark : Mark} (valid : mark.Valid) :
    continuation mark.text = mark.continued := by
  cases mark with
  | quote indent spaced =>
    rw [Mark.text, continuation_append, continuation_spaces]
    cases spaced <;> rfl
  | item indent marker gap =>
    rw [Mark.text, continuation_append, continuation_append, continuation_spaces,
      continuation_of_plain valid.2.1.plain, continuation_spaces, Mark.continued,
      List.replicate_append_replicate, List.replicate_append_replicate, Nat.add_assoc]

/-- What the lead becomes on later lines. -/
def Lead.continued (lead : Lead) : Text :=
  (lead.marks.map Mark.continued).flatten ++ List.replicate lead.indent ' '

private theorem continuation_allowed {tight : Bool} {marks : List Mark} {indent : Nat}
    (allowed : Allowed tight marks indent) :
    continuation (Lead.text ⟨marks, indent⟩) = Lead.continued ⟨marks, indent⟩ := by
  induction marks generalizing tight with
  | nil => simpa [Lead.text, Lead.continued] using continuation_spaces indent
  | cons mark marks ih =>
    obtain ⟨own, -, rest⟩ := allowed
    rw [Lead.text_cons, continuation_append, own.continuation_eq, ih rest]
    simp [Lead.continued]

/-- Later lines are continued with what the marks become. -/
theorem Lead.continuation_eq {lead : Lead} (valid : lead.Valid) :
    continuation lead.text = lead.continued :=
  continuation_allowed valid

/-- What the walk over the containers owes to a line after some marks. -/
inductive Debt where
  /-- The walk is where the line is. -/
  | settled
  /-- A quote marker was read, and a space behind it will be taken as its own. -/
  | bare
  /-- A space of the line was taken that the walk is still short of. -/
  | owed
  /-- A quote marker stood where the missing space should have been. -/
  | lost
deriving DecidableEq, Repr

namespace Debt

/-- The debt once another mark is behind the walk. -/
def after : Debt → Mark → Debt
  | lost, _ | owed, .quote _ _ => lost
  | _, .quote _ true => settled
  | _, .quote _ false => bare
  | settled, .item _ _ _ => settled
  | _, .item _ _ _ => owed

/-- What the walk leaves of the rest of a line. -/
def leaves : Debt → Text → Option Text
  | settled, rest => some rest
  | bare, rest => some (dropSpace rest)
  | owed, ' ' :: rest => some rest
  | owed, _ | lost, _ => none

end Debt

/-- The debt at the fence. -/
def Lead.debt (lead : Lead) : Debt := lead.marks.foldl Debt.after .settled

theorem enter?_quote {indent : Nat} (few : indent ≤ 3) (tail : Text) :
    enter? (List.replicate indent ' ' ++ '>' :: tail) quote = some (dropSpace tail) :=
  enter?_quote_iff.mpr ⟨indent, tail, few, rfl, rfl⟩

theorem Debt.leaves_owed {rest more : Text} :
    Debt.owed.leaves rest = some more ↔ rest = ' ' :: more := by
  constructor
  · intro left
    unfold Debt.leaves at left
    split at left
    · next other => cases other
    · next other => cases other
    · rw [Option.some.inj left]
    · cases left
    · cases left
  · rintro rfl
    rfl

/-- With one space missing, a list item is entered if the line has one to give. -/
private theorem enter?_item_short (width : Nat) (rest : Text) :
    enter? (List.replicate width ' ' ++ rest) (item (width + 1)) = Debt.owed.leaves rest := by
  by_cases space : rest.head? = some ' '
  · obtain ⟨more, rfl⟩ := List.head?_eq_some_iff.mp space
    refine enter?_item_iff.mpr ?_
    rw [List.replicate_succ', List.append_assoc]
    rfl
  · have short : leadingSpaces (List.replicate width ' ' ++ rest) < width + 1 := by
      rw [leadingSpaces_replicate, leadingSpaces_eq_zero space]
      exact Nat.lt_succ_self width
    have nothing : Debt.owed.leaves rest = none := by
      unfold Debt.leaves
      split <;> simp_all
    rw [nothing]
    simp only [enter?, short, ↓reduceIte]

/-- One mark of a continued line, read by the walk. -/
private theorem leaves_after {debt : Debt} {mark : Mark} (valid : mark.Valid)
    (tight : debt = .bare ∨ debt = .owed → mark.indent = 0) (rest : Text) :
    (debt.leaves (mark.continued ++ rest)).bind (enter? · mark.container) =
      (debt.after mark).leaves rest := by
  cases mark with
  | quote indent spaced =>
    have entered : enter? ((Mark.quote indent spaced).continued ++ rest) quote =
        some (dropSpace ((if spaced then [' '] else []) ++ rest)) := by
      rw [Mark.continued, List.append_assoc]
      exact enter?_quote valid _
    have taken : some (dropSpace ((if spaced then [' '] else []) ++ rest)) =
        (Debt.settled.after (.quote indent spaced)).leaves rest := by
      cases spaced <;> rfl
    cases debt with
    | settled => exact entered.trans taken
    | bare =>
      obtain rfl : indent = 0 := tight (Or.inl rfl)
      have same : dropSpace ((Mark.quote 0 spaced).continued ++ rest) =
          (Mark.quote 0 spaced).continued ++ rest := dropSpace_of_head? (by simp [Mark.continued])
      rw [Debt.leaves, same]
      refine (entered.trans taken).trans ?_
      cases spaced <;> rfl
    | owed =>
      obtain rfl : indent = 0 := tight (Or.inr rfl)
      rfl
    | lost => rfl
  | item indent marker gap =>
    obtain ⟨width, isWidth⟩ : ∃ width, indent + marker.length + gap = width + 1 :=
      ⟨indent + marker.length + gap - 1, by have := valid.2.2.1; omega⟩
    rw [Mark.continued, Mark.container, isWidth]
    cases debt with
    | settled => exact enter?_item_iff.mpr rfl
    | bare => exact enter?_item_short width rest
    | owed => exact enter?_item_short width rest
    | lost => rfl

/-- The walk falls short only behind a mark that takes the spaces there. -/
private theorem takesSpaces_of_after {debt : Debt} {mark : Mark}
    (short : debt.after mark = .bare ∨ debt.after mark = .owed) : mark.takesSpaces = true := by
  cases mark with
  | quote indent spaced =>
    cases spaced with
    | true => cases debt <;> simp [Debt.after] at short
    | false => rfl
  | item indent marker gap => rfl

/-- All marks of a continued line. -/
private theorem leaves_foldl {tight : Bool} {marks : List Mark} {indent : Nat} {debt : Debt}
    (allowed : Allowed tight marks indent) (short : debt = .bare ∨ debt = .owed → tight = true)
    (rest : Text) :
    (debt.leaves ((marks.map Mark.continued).flatten ++ rest)).bind
        (enterAll? (marks.map Mark.container)) =
      (marks.foldl Debt.after debt).leaves rest := by
  induction marks generalizing tight debt with
  | nil =>
    have entered : enterAll? [] = some := rfl
    simp [entered]
  | cons mark marks ih =>
    obtain ⟨own, indentation, later⟩ := allowed
    have first := leaves_after own (fun isShort => indentation (short isShort))
      ((marks.map Mark.continued).flatten ++ rest)
    have others := @ih mark.takesSpaces (debt.after mark) later takesSpaces_of_after
    calc (debt.leaves (((mark :: marks).map Mark.continued).flatten ++ rest)).bind
          (enterAll? ((mark :: marks).map Mark.container))
        = ((debt.leaves (mark.continued ++ ((marks.map Mark.continued).flatten ++ rest))).bind
            (enter? · mark.container)).bind (enterAll? (marks.map Mark.container)) := by
          rw [Option.bind_assoc, List.map_cons, List.flatten_cons, List.append_assoc]
          rfl
      _ = ((debt.after mark).leaves ((marks.map Mark.continued).flatten ++ rest)).bind
            (enterAll? (marks.map Mark.container)) := by rw [first]
      _ = (marks.foldl Debt.after (debt.after mark)).leaves rest := others

/-- The walk over a continued line leaves what the debt at the fence says. -/
theorem Lead.enterAll?_continued {lead : Lead} (valid : lead.Valid) (line : Text) :
    enterAll? (ofLead lead.text) (continuation lead.text ++ line) =
      lead.debt.leaves (List.replicate lead.indent ' ' ++ line) := by
  have walked : (Debt.settled.leaves _).bind _ = _ :=
    leaves_foldl valid (by simp) (List.replicate lead.indent ' ' ++ line)
  rw [Lead.continuation_eq valid, Lead.ofLead_eq valid, Lead.continued, List.append_assoc]
  exact walked

private theorem indent_eq_zero_of_allowed {tight : Bool} {marks : List Mark} {indent : Nat}
    {debt : Debt} (allowed : Allowed tight marks indent)
    (short : debt = .bare ∨ debt = .owed → tight = true) :
    marks.foldl Debt.after debt = .bare ∨ marks.foldl Debt.after debt = .owed → indent = 0 := by
  induction marks generalizing tight debt with
  | nil => exact fun isShort => allowed.2 (short isShort)
  | cons mark marks ih => exact ih allowed.2.2 takesSpaces_of_after

/-- Nothing stands between the last mark and the fence where the walk falls short. -/
theorem Lead.Valid.indent_eq_zero {lead : Lead} (valid : lead.Valid)
    (short : lead.debt = .bare ∨ lead.debt = .owed) : lead.indent = 0 :=
  indent_eq_zero_of_allowed valid (by simp) short

end Transclusion

import Transclusion.Proofs.ByteWalks

/-! The grammar of closing lines. The walk over the containers and the count of the run accept
the lines that are put together from the same parts, and no others. What may stand behind the
run is any white space, which is more than the spaces and tabs that may stand behind a closing
fence of CommonMark. -/
namespace Transclusion
open Text Container

variable {fence : Fence} {containers : List Container} {line : Text} {start run : Nat}

/-- A line that begins with containers, in order, and what it has behind them. A quote takes
the space behind its marker if there is one. -/
inductive Container.Begins : List Container → (line rest : Text) → Prop where
  | nil (rest : Text) : Begins [] rest rest
  | spacedQuote {n : Nat} {containers : List Container} {line rest : Text} (few : n ≤ 3)
      (inner : Begins containers line rest) :
    Begins (.quote :: containers) (List.replicate n ' ' ++ '>' :: ' ' :: line) rest
  | bareQuote {n : Nat} {containers : List Container} {line rest : Text} (few : n ≤ 3)
      (noSpace : line.head? ≠ some ' ') (inner : Begins containers line rest) :
    Begins (.quote :: containers) (List.replicate n ' ' ++ '>' :: line) rest
  | item {width : Nat} {containers : List Container} {line rest : Text}
      (inner : Begins containers line rest) :
    Begins (.item width :: containers) (List.replicate width ' ' ++ line) rest

/-- A line with a closing run of this length at this place: the containers, at most three
spaces, a run as long as the fence or longer, and blanks to the end. -/
def Fence.ClosesAt (blank : Char → Bool) (fence : Fence) (containers : List Container)
    (line : Text) (start run : Nat) : Prop :=
  ∃ indent behind, indent ≤ 3 ∧ fence.length ≤ run ∧ (∀ c ∈ behind, blank c = true) ∧
    Begins containers line
      (List.replicate indent ' ' ++ (List.replicate run fence.marker ++ behind)) ∧
    start + run + behind.length = line.length

/-- The walk over the containers leaves what a line has behind them. -/
theorem Container.enterAll?_eq_some_iff {rest : Text} :
    enterAll? containers line = some rest ↔ Begins containers line rest := by
  constructor
  · intro entered
    induction containers generalizing line with
    | nil =>
      cases entered
      exact .nil rest
    | cons container containers ih =>
      rw [enterAll?_cons] at entered
      obtain ⟨middle, first, later⟩ := Option.bind_eq_some_iff.mp entered
      have inner := ih later
      cases container with
      | quote =>
        obtain ⟨n, tail, few, rfl, rfl⟩ := enter?_quote_iff.mp first
        rcases eq_of_dropSpace tail with space | ⟨same, noSpace⟩
        · rw [space]
          exact .spacedQuote few inner
        · rw [← same] at inner
          exact .bareQuote few noSpace inner
      | item width =>
        rw [enter?_item_iff.mp first]
        exact .item inner
  · intro begins
    induction begins with
    | nil rest => rfl
    | spacedQuote few inner ih =>
      rw [enterAll?_cons, enter?_quote_iff.mpr ⟨_, _, few, rfl, rfl⟩]
      exact ih
    | bareQuote few noSpace inner ih =>
      rw [enterAll?_cons, enter?_quote_iff.mpr ⟨_, _, few, rfl, (dropSpace_of_head? noSpace).symm⟩]
      exact ih
    | item inner ih =>
      rw [enterAll?_cons, enter?_item_iff.mpr rfl]
      exact ih

namespace Fence

/-- What ends a closing line is all that stands behind its run. -/
private theorem drop_begins {indent : Nat} {behind : Text}
    (begins : Begins containers line
      (List.replicate indent ' ' ++ (List.replicate run fence.marker ++ behind)))
    (total : start + run + behind.length = line.length) : line.drop (start + run) = behind := by
  obtain ⟨front, rfl, -⟩ := enterAll?_front (enterAll?_eq_some_iff.mpr begins)
  simp only [← List.append_assoc]
  apply List.drop_left'
  simp only [List.length_append, List.length_replicate] at total ⊢
  omega

/-- Whether a line closes depends on the kind of its blanks only behind the run. -/
theorem ClosesAt.congr_iff {blank other : Char → Bool}
    (closes : fence.ClosesAt blank containers line start run) :
    fence.ClosesAt other containers line start run ↔
      ∀ c ∈ line.drop (start + run), other c = true := by
  constructor
  · rintro ⟨indent, behind, -, -, others, begins, total⟩
    rw [drop_begins begins total]
    exact others
  · intro others
    obtain ⟨indent, behind, few, enough, -, begins, total⟩ := closes
    rw [drop_begins begins total] at others
    exact ⟨indent, behind, few, enough, others, begins, total⟩

theorem ClosesAt.imp {blank other : Char → Bool}
    (closes : fence.ClosesAt blank containers line start run)
    (included : ∀ c, blank c = true → other c = true) :
    fence.ClosesAt other containers line start run :=
  closes.congr_iff.mpr fun c member => included c (closes.congr_iff.mp closes c member)

/-- A block is closed by the run of a line that is put together from the parts of a closing
line, its blanks being any white space. -/
theorem closing?_eq_some_iff (marker : FencedBlock.isMarker fence.marker = true)
    (positive : 0 < fence.length) :
    fence.closing? containers line = some (start, run) ↔
      fence.ClosesAt isWhiteSpace containers line start run := by
  constructor
  · intro found
    obtain ⟨front, blanks, n, few, -, blank, enough, rfl, rfl, entered⟩ := closing?_eq_some found
    refine ⟨n, blanks, few, enough, blank, enterAll?_eq_some_iff.mp (entered _ rfl), ?_⟩
    simp only [List.length_append, List.length_replicate]
    omega
  · rintro ⟨indent, behind, few, enough, blank, begins, total⟩
    have entered := enterAll?_eq_some_iff.mpr begins
    obtain ⟨front, rfl, -⟩ := enterAll?_front entered
    have closes := closing?_of_run front marker few (Nat.lt_of_lt_of_le positive enough) enough
      blank entered
    have place : start = front.length + indent := by
      simp only [List.length_append, List.length_replicate] at total
      omega
    rw [closes, place]

/-- The bytes of a line give the run its characters do, and one is given exactly for a line that
is put together from the parts of a closing line, with any white space for its blanks. The lines
are those that close a block in CommonMark as long as nothing but spaces and tabs stands behind
the run. -/
theorem closing_commonMark_iff (marker : FencedBlock.isMarker fence.marker = true)
    (positive : 0 < fence.length) (containers : List Container) (line : Text) :
    fence.closingFrom? containers line = .ok (fence.closing? containers line) ∧
    (∀ start run, fence.closing? containers line = some (start, run) ↔
      fence.ClosesAt isWhiteSpace containers line start run) ∧
    ((∀ start run, fence.closing? containers line = some (start, run) ↔
        fence.ClosesAt isSpaceOrTab containers line start run) ↔
      ∀ start run, fence.closing? containers line = some (start, run) →
        ∀ c ∈ line.drop (start + run), isSpaceOrTab c = true) := by
  have closes : ∀ start run, fence.closing? containers line = some (start, run) ↔
      fence.ClosesAt isWhiteSpace containers line start run :=
    fun _ _ => closing?_eq_some_iff marker positive
  refine ⟨closingFrom?_eq marker containers line, closes, ?_⟩
  constructor
  · intro commonMark start run found
    exact ((closes start run).mp found).congr_iff.mp ((commonMark start run).mp found)
  · intro blanks start run
    constructor
    · intro found
      exact ((closes start run).mp found).congr_iff.mpr (blanks start run found)
    · intro commonMark
      exact (closes start run).mpr (commonMark.imp fun _ => isWhiteSpace_of_isSpaceOrTab)

/-- A no-break space behind the run of a quoted line makes it no closing line of CommonMark,
and closes the block all the same. -/
theorem closing_commonMark_iff_noBreakSpace :
    let fence : Fence := ⟨'`', 3⟩
    let line : Text := " > ```\u00a0".toList
    fence.closing? [.quote] line = some (3, 3) ∧
      ¬ ∀ start run, fence.closing? [.quote] line = some (start, run) ↔
        fence.ClosesAt isSpaceOrTab [.quote] line start run := by
  intro fence line
  have found : fence.closing? [.quote] line = some (3, 3) := by decide +kernel
  refine ⟨found, fun commonMark => ?_⟩
  have marker : FencedBlock.isMarker fence.marker = true := rfl
  have blanks := (closing_commonMark_iff marker (by decide) [.quote] line).2.2.mp commonMark 3 3 found
  have member : '\u00a0' ∈ line.drop (3 + 3) := List.mem_singleton_self _
  exact absurd (blanks _ member) (by decide)

end Fence
end Transclusion

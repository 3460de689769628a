import Transclusion.Proofs.DirectiveTokens

/-! Registered keywords as a finite map. Whatever was registered before, a keyword has one
entry, that of its last registration, and the entries stand in the order of these. A token
shows its keyword by its first equals sign, so their order has no part in what is stripped. -/
namespace Transclusion.Prefixes

/-- What was registered, from first to last. -/
abbrev History := List (Text × SourceKind)

/-- The prefixes that a history of registrations leaves. It starts from no keyword or from the
standard ones, which were registered themselves. -/
inductive Arises : History → Prefixes → Prop where
  | empty : Arises [] .empty
  | standard : Arises [("url".toList, .web), ("file".toList, .file)] .standard
  | register {history : History} {prefixes : Prefixes} (earlier : Arises history prefixes)
      (keyword : Text) (kind : SourceKind) :
    Arises (history ++ [(keyword, kind)]) (prefixes.register keyword kind)

/-- The last registration of a keyword is one for this kind. -/
def LastFor (history : History) (keyword : Text) (kind : SourceKind) : Prop :=
  ∃ before after, history = before ++ (keyword, kind) :: after ∧
    ∀ later ∈ after, later.1 ≠ keyword

/-- The last registration of a keyword comes before that of another. -/
def LastBefore (history : History) (keyword other : Text) : Prop :=
  ∃ kind before after, history = before ++ (keyword, kind) :: after ∧
    (∀ later ∈ after, later.1 ≠ keyword) ∧ ∃ later ∈ after, later.1 = other

/-- One entry for each keyword, that of its last registration, in the order of these. -/
structure Mirrors (prefixes : Prefixes) (history : History) : Prop where
  members : ∀ keyword, keyword ∈ prefixes.keywords ↔ ∃ kind, (keyword, kind) ∈ history
  kinds : ∀ keyword kind, prefixes.kind? keyword = some kind ↔ LastFor history keyword kind
  order : prefixes.keywords.Pairwise (LastBefore history)

variable {prefixes : Prefixes} {history other : History} {keyword asked : Text}
  {kind found : SourceKind}

theorem keywords_register (prefixes : Prefixes) (keyword : Text) (kind : SourceKind) :
    (prefixes.register keyword kind).keywords =
      prefixes.keywords.filter (· ≠ keyword) ++ [keyword] := by
  simp only [keywords, register, List.map_append, List.map_cons, List.map_nil, List.filter_map]
  rfl

/-- A keyword's last registration is the last of those that name it. -/
theorem lastFor_iff :
    LastFor history keyword kind ↔
      (history.filter (·.1 = keyword)).getLast? = some (keyword, kind) := by
  constructor
  · rintro ⟨before, after, rfl, others⟩
    have gone : after.filter (·.1 = keyword) = [] :=
      List.filter_eq_nil_iff.mpr fun later member => by simpa using others later member
    simp [List.filter_append, gone]
  · intro last
    obtain ⟨front, split⟩ := List.getLast?_eq_some_iff.mp last
    obtain ⟨before, rest, rfl, -, behind⟩ := List.filter_eq_append_iff.mp split
    obtain ⟨passed, after, rfl, -, -, gone⟩ := List.filter_eq_cons_iff.mp behind
    refine ⟨before ++ passed, after, by simp, fun later member => ?_⟩
    simpa using List.filter_eq_nil_iff.mp gone later member

/-- A registration is the last of its keyword, and changes no other's last one. -/
theorem lastFor_register (history : History) (keyword : Text) (kind : SourceKind) (asked : Text)
    (found : SourceKind) :
    LastFor (history ++ [(keyword, kind)]) asked found ↔
      if asked = keyword then kind = found else LastFor history asked found := by
  rw [lastFor_iff, List.filter_append]
  split
  · next same =>
    subst same
    simp
  · next other =>
    rw [lastFor_iff]
    simp [Ne.symm other]

section Order

theorem LastBefore.ne (before : LastBefore history keyword asked) : keyword ≠ asked := by
  obtain ⟨-, -, after, -, others, later, member, rfl⟩ := before
  exact (others later member).symm

/-- Registering another keyword keeps the order of last registrations. -/
theorem LastBefore.register (before : LastBefore history asked keyword) {added : Text}
    (other : asked ≠ added) (kind : SourceKind) :
    LastBefore (history ++ [(added, kind)]) asked keyword := by
  obtain ⟨first, front, after, rfl, others, later, member, same⟩ := before
  refine ⟨first, front, after ++ [(added, kind)], by simp, ?_, later, by simp [member], same⟩
  intro entry inAfter
  rcases List.mem_append.mp inAfter with old | new
  · exact others entry old
  · rw [List.mem_singleton.mp new]
    exact Ne.symm other

/-- Every other keyword was registered for the last time before. -/
theorem LastFor.before (last : LastFor history asked found) (other : asked ≠ keyword)
    (kind : SourceKind) : LastBefore (history ++ [(keyword, kind)]) asked keyword := by
  obtain ⟨front, after, rfl, others⟩ := last
  refine ⟨found, front, after ++ [(keyword, kind)], by simp, ?_, (keyword, kind), by simp, rfl⟩
  intro entry inAfter
  rcases List.mem_append.mp inAfter with old | new
  · exact others entry old
  · rw [List.mem_singleton.mp new]
    exact Ne.symm other

end Order

theorem mem_keywords_iff : keyword ∈ prefixes.keywords ↔ ∃ kind, prefixes.kind? keyword = some kind := by
  constructor
  · intro member
    obtain ⟨entry, inEntries, same⟩ := List.mem_map.mp member
    have isSome : (prefixes.entries.find? (·.1 = keyword)).isSome = true :=
      List.find?_isSome.mpr ⟨entry, inEntries, by simpa using same⟩
    obtain ⟨first, isFirst⟩ := Option.isSome_iff_exists.mp isSome
    exact ⟨first.2, by rw [kind?, isFirst]; rfl⟩
  · rintro ⟨kind, registered⟩
    exact mem_keywords_of_kind? registered

theorem mirrors_empty : Mirrors .empty [] where
  members keyword := by simp [empty, keywords]
  kinds keyword kind := by simp [empty, kind?, LastFor]
  order := .nil

/-- One registration takes its keyword's entry to the end, and leaves the others in order. -/
theorem Mirrors.register (mirrors : Mirrors prefixes history) (keyword : Text) (kind : SourceKind) :
    Mirrors (prefixes.register keyword kind) (history ++ [(keyword, kind)]) where
  members asked := by
    rw [keywords_register, List.mem_append, List.mem_filter, mirrors.members]
    by_cases same : asked = keyword
    · simp [same]
    · simp [same]
  kinds asked found := by
    rw [kind?_register, lastFor_register, ← mirrors.kinds]
    split
    · exact Option.some_inj
    · exact Iff.rfl
  order := by
    rw [keywords_register]
    refine List.pairwise_append.mpr ⟨?_, List.pairwise_singleton _ _, ?_⟩
    · have kept := mirrors.order.filter (· ≠ keyword)
      refine kept.imp_of_mem fun first _ before => ?_
      exact before.register (by simpa using (List.mem_filter.mp first).2) kind
    · intro asked member last isLast
      rw [List.mem_singleton.mp isLast]
      obtain ⟨registered, other⟩ := List.mem_filter.mp member
      obtain ⟨found, isKind⟩ := mem_keywords_iff.mp registered
      exact ((mirrors.kinds asked found).mp isKind).before (by simpa using other) kind

theorem Arises.mirrors (arises : Arises history prefixes) : Mirrors prefixes history := by
  induction arises with
  | empty => exact mirrors_empty
  | standard => exact (mirrors_empty.register _ _).register _ _
  | register earlier keyword kind ih => exact ih.register keyword kind

/-- The keyword of a token is the one in front of its first equals sign. -/
theorem strip?_eq_some_iff (free : ∀ word ∈ prefixes.keywords, '=' ∉ word) {token rest : Text} :
    prefixes.strip? token = some (kind, rest) ↔
      ∃ keyword, token = keyword ++ '=' :: rest ∧ prefixes.kind? keyword = some kind := by
  constructor
  · intro stripped
    obtain ⟨⟨word, first⟩, member, after⟩ := List.exists_of_findSome?_eq_some stripped
    obtain ⟨behind, cut, same⟩ := Option.map_eq_some_iff.mp after
    cases same
    have whole := afterKeyword?_eq_some_iff.mp cut
    have wordFree : '=' ∉ word := free word (List.mem_map_of_mem (f := Prod.fst) member)
    rw [whole, strip?_append free wordFree] at stripped
    obtain ⟨registered, isKind, same⟩ := Option.map_eq_some_iff.mp stripped
    cases same
    exact ⟨word, whole, isKind⟩
  · rintro ⟨keyword, rfl, isKind⟩
    rw [strip?_append free (free keyword (mem_keywords_of_kind? isKind)), isKind]
    rfl

/-- A keyword is listed once, in the order of last registrations, and a token is stripped for
the kind its keyword was last registered with. Histories that differ only in the order of
different keywords strip alike. -/
theorem registered_as_map (arises : Arises history prefixes) :
    prefixes.keywords.Nodup ∧
    (∀ keyword, keyword ∈ prefixes.keywords ↔ ∃ kind, (keyword, kind) ∈ history) ∧
    prefixes.keywords.Pairwise (LastBefore history) ∧
    ((∀ keyword ∈ prefixes.keywords, '=' ∉ keyword) →
      (∀ token kind rest, prefixes.strip? token = some (kind, rest) ↔
        ∃ keyword, token = keyword ++ '=' :: rest ∧ LastFor history keyword kind) ∧
      ∀ other others, Arises other others →
        (∀ keyword, other.filter (·.1 = keyword) = history.filter (·.1 = keyword)) →
        ∀ token, others.strip? token = prefixes.strip? token) := by
  have mirrors := arises.mirrors
  refine ⟨mirrors.order.imp LastBefore.ne, mirrors.members, mirrors.order, fun free => ⟨?_, ?_⟩⟩
  · intro token kind rest
    rw [strip?_eq_some_iff free]
    exact exists_congr fun keyword => and_congr Iff.rfl (mirrors.kinds keyword kind)
  · intro other others otherArises alike token
    have otherMirrors := otherArises.mirrors
    have sameKinds : ∀ keyword kind,
        others.kind? keyword = some kind ↔ prefixes.kind? keyword = some kind := by
      intro keyword kind
      rw [otherMirrors.kinds, mirrors.kinds, lastFor_iff, lastFor_iff, alike]
    have otherFree : ∀ keyword ∈ others.keywords, '=' ∉ keyword := by
      intro keyword member
      obtain ⟨kind, isKind⟩ := mem_keywords_iff.mp member
      exact free keyword (mem_keywords_of_kind? ((sameKinds keyword kind).mp isKind))
    refine Option.ext fun ⟨kind, rest⟩ => ?_
    rw [strip?_eq_some_iff otherFree, strip?_eq_some_iff free]
    exact exists_congr fun keyword => and_congr Iff.rfl (sameKinds keyword kind)

/-- A keyword that begins like another may be registered before or behind it. -/
theorem registered_as_map_alikeBegun :
    let before := (standard.register "urls".toList .web).register "url".toList .file
    let behind := (standard.register "url".toList .file).register "urls".toList .web
    before.keywords.Nodup ∧ before.strip? "urls=a=b".toList = some (.web, "a=b".toList) ∧
      behind.strip? "url=a=b".toList = before.strip? "url=a=b".toList := by
  intro before behind
  have arises : Arises _ before := (Arises.standard.register _ _).register _ _
  have others : Arises _ behind := (Arises.standard.register _ _).register _ _
  obtain ⟨once, -, -, strips⟩ := registered_as_map arises
  obtain ⟨exactly, alike⟩ := strips (by decide)
  refine ⟨once, ?_, alike _ behind others ?_ _⟩
  · refine (exactly _ _ _).mpr ⟨"urls".toList, rfl, [("url".toList, .web), ("file".toList, .file)],
      [("url".toList, .file)], rfl, by decide⟩
  · intro keyword
    by_cases longer : "urls".toList = keyword
    · subst longer
      rfl
    · have other : decide ("urls".toList = keyword) = false := decide_eq_false longer
      simp only [List.cons_append, List.nil_append, List.filter_cons, other, Bool.false_eq_true,
        ↓reduceIte]

end Transclusion.Prefixes

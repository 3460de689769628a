import Transclusion.Proofs.FileTreeWriting

/-! Real paths. What the pieces of a path mean is said here one piece at a time, with links
followed however many there are; a walk that arrives has found this place, and there is no
other. From a real folder it is a real path: no link and no `.` or `..` is left in it. -/
namespace Transclusion
open Text

namespace FileTree
variable {tree : FileTree} {here real : RealPath} {pieces : List Text}

/-- A name that stands for a place of its own in a folder. -/
structure IsName (name : Text) : Prop where
  notIdle : Path.isIdle name = false
  notUp : name ≠ ['.', '.']
  noSlash : '/' ∉ name

/-- The pieces of a path lead from one place to another. -/
inductive Leads (tree : FileTree) : RealPath → List Text → RealPath → Prop where
  | here (place : RealPath) : Leads tree place [] place
  | idle {place real : RealPath} {piece : Text} {pieces : List Text}
      (folder : tree.node? place = some .folder) (idle : Path.isIdle piece = true)
      (rest : Leads tree place pieces real) : Leads tree place (piece :: pieces) real
  | up {place real : RealPath} {pieces : List Text} (folder : tree.node? place = some .folder)
      (rest : Leads tree place.dropLast pieces real) :
      Leads tree place (['.', '.'] :: pieces) real
  | down {place real : RealPath} {piece : Text} {pieces : List Text} {node : Node}
      (folder : tree.node? place = some .folder) (named : IsName piece)
      (stands : tree.node? (place ++ [piece]) = some node) (noLink : ∀ target, node ≠ .link target)
      (rest : Leads tree (place ++ [piece]) pieces real) : Leads tree place (piece :: pieces) real
  | link {place real : RealPath} {piece target : Text} {pieces : List Text}
      (folder : tree.node? place = some .folder) (named : IsName piece)
      (stands : tree.node? (place ++ [piece]) = some (.link target))
      (rest : Leads tree (startOf place target) (Path.pieces target ++ pieces) real) :
      Leads tree place (piece :: pieces) real

/-- A path of names from folder to folder, with no link on it or at its end. -/
inductive IsReal (tree : FileTree) : RealPath → Prop where
  | root : IsReal tree []
  | child {above : RealPath} {name : Text} {node : Node} (isReal : IsReal tree above)
      (folder : tree.node? above = some .folder) (named : IsName name)
      (stands : tree.node? (above ++ [name]) = some node)
      (noLink : ∀ target, node ≠ .link target) : IsReal tree (above ++ [name])

/-- What a written path means from the folder `here`. -/
def Means (tree : FileTree) (here : RealPath) (path : Text) (real : RealPath) : Prop :=
  Leads tree (startOf here path) (Path.pieces path) real

theorem IsReal.dropLast {path : RealPath} (isReal : IsReal tree path) :
    IsReal tree path.dropLast := by
  cases isReal with
  | root => exact .root
  | child above => rwa [List.dropLast_concat]

theorem IsReal.startOf (isReal : IsReal tree here) (path : Text) :
    IsReal tree (startOf here path) := by
  unfold FileTree.startOf
  split
  · exact .root
  · exact isReal

/-- Only real paths are reached from real folders. -/
theorem Leads.isReal (leads : Leads tree here pieces real) (isReal : IsReal tree here) :
    IsReal tree real := by
  induction leads with
  | here place => exact isReal
  | idle folder idle rest ih => exact ih isReal
  | up folder rest ih => exact ih isReal.dropLast
  | down folder named stands noLink rest ih => exact ih (isReal.child folder named stands noLink)
  | link folder named stands rest ih => exact ih (isReal.startOf _)

theorem isIdle_up : Path.isIdle ['.', '.'] = false := rfl

/-- A path leads to one place. -/
theorem Leads.unique {other : RealPath} (leads : Leads tree here pieces real)
    (again : Leads tree here pieces other) : real = other := by
  induction leads with
  | here place =>
    cases again
    rfl
  | idle folder idle rest ih =>
    cases again with
    | idle _ _ rest => exact ih rest
    | up _ _ => cases isIdle_up.symm.trans idle
    | down _ named _ _ _ => cases named.notIdle.symm.trans idle
    | link _ named _ _ => cases named.notIdle.symm.trans idle
  | up folder rest ih =>
    cases again with
    | idle _ idle _ => cases isIdle_up.symm.trans idle
    | up _ rest => exact ih rest
    | down _ named _ _ _ => exact absurd rfl named.notUp
    | link _ named _ _ => exact absurd rfl named.notUp
  | down folder named stands noLink rest ih =>
    cases again with
    | idle _ idle _ => cases named.notIdle.symm.trans idle
    | up _ _ => exact absurd rfl named.notUp
    | down _ _ _ _ rest => exact ih rest
    | link _ _ isLink _ => exact absurd (Option.some.inj (stands.symm.trans isLink)) (noLink _)
  | link folder named stands rest ih =>
    cases again with
    | idle _ idle _ => cases named.notIdle.symm.trans idle
    | up _ _ => exact absurd rfl named.notUp
    | down _ _ other noLink _ => exact absurd (Option.some.inj (other.symm.trans stands)) (noLink _)
    | link _ _ other rest =>
      obtain rfl := Node.link.inj (Option.some.inj (stands.symm.trans other))
      exact ih rest

/-- A walk that stops here ends at a place, after the link that it stopped at if there is one. -/
def EndsAt (tree : FileTree) (real : RealPath) : Stop → Prop
  | .arrived (.taken place) => place = real
  | .arrived (.vacant _) | .failed _ => False
  | .atLink folder target left =>
    Leads tree (startOf folder target) (Path.pieces target ++ left) real

theorem leads_of_advance (free : ∀ piece ∈ pieces, '/' ∉ piece)
    (ends : EndsAt tree real (tree.advance here pieces)) : Leads tree here pieces real := by
  induction pieces generalizing here with
  | nil =>
    obtain rfl : here = real := ends
    exact .here here
  | cons piece pieces ih =>
    have later := fun other member => free other (List.mem_cons_of_mem piece member)
    unfold advance at ends
    split at ends
    · exact ends.elim
    next notElsewhere =>
    have folder : tree.node? here = some .folder := not_not.mp notElsewhere
    split at ends
    · next idle => exact .idle folder idle (ih later ends)
    next notIdle =>
    split at ends
    · next up =>
      subst up
      exact .up folder (ih later ends)
    next notUp =>
    have named : IsName piece := ⟨by simpa using notIdle, notUp, free piece List.mem_cons_self⟩
    split at ends
    · exact ends.elim
    split at ends
    · split at ends <;> exact ends.elim
    · next target stands => exact .link folder named stands ends
    · next node noLink stands => exact .down folder named stands noLink (ih later ends)

/-- What is left behind a link are the last pieces of the path. -/
theorem suffix_of_atLink {folder : RealPath} {target : Text} {left : List Text}
    (stopped : tree.advance here pieces = .atLink folder target left) : left <:+ pieces := by
  induction pieces generalizing here with
  | nil => cases stopped
  | cons piece pieces ih =>
    unfold advance at stopped
    split at stopped
    · cases stopped
    split at stopped
    · exact (ih stopped).trans (List.suffix_cons piece pieces)
    split at stopped
    · exact (ih stopped).trans (List.suffix_cons piece pieces)
    split at stopped
    · cases stopped
    split at stopped
    · split at stopped <;> cases stopped
    · cases stopped
      exact List.suffix_cons piece _
    · exact (ih stopped).trans (List.suffix_cons piece pieces)

/-- A walk that arrives has gone where the pieces lead. -/
theorem leads_of_walk {links : Nat} (free : ∀ piece ∈ pieces, '/' ∉ piece)
    (walked : tree.walk links here pieces = .ok (.taken real)) : Leads tree here pieces real := by
  -- What is behind a link can be longer than the path, but fewer links may then be followed.
  induction links using Nat.strongRecOn generalizing here pieces with
  | ind links ih =>
    rw [walk_eq_follow] at walked
    refine leads_of_advance free ?_
    cases stop : tree.advance here pieces with
    | arrived arrival =>
      rw [stop] at walked
      cases walked
      rfl
    | failed e =>
      rw [stop] at walked
      cases walked
    | atLink folder target left =>
      rw [stop] at walked
      cases links with
      | zero => cases walked
      | succ links =>
        refine ih links (Nat.lt_succ_self links) (fun piece member => ?_) walked
        rcases List.mem_append.mp member with inTarget | inLeft
        · exact not_mem_of_mem_splitOn inTarget
        · exact free piece ((suffix_of_atLink stop).subset inLeft)

/-- The real path of a written path is what it means. -/
theorem means_of_realPath {path : Text} (found : tree.realPath here path = .ok real) :
    Means tree here path real := by
  obtain ⟨-, walked⟩ := realPath_eq_ok_iff.mp found
  exact leads_of_walk (fun _ member => not_mem_of_mem_splitOn member) walked

end FileTree
end Transclusion

import Transclusion.FileTree.Writing

/-! Walks through a file system. A walk goes through folders and links alone, so it does
not see what files hold: writing a file that stands already moves nothing. -/
namespace Transclusion.FileTree
variable {tree other : FileTree} {here real : RealPath} {links : Nat} {pieces : List Text}
  {place : Place}

/-- What is found at a real path once a node was put somewhere. -/
theorem node?_put (tree : FileTree) (path : RealPath) (node : Node) (nonempty : path ≠ [])
    (asked : RealPath) :
    (tree.put path node).node? asked = if asked = path then some node else tree.node? asked := by
  cases asked with
  | nil => simp [node?, Ne.symm nonempty]
  | cons name names =>
    by_cases same : name :: names = path
    · subst same
      simp [node?, put]
    · have others : ∀ entries : List (RealPath × Node),
          (entries.filter fun entry => decide (entry.1 ≠ path)).find?
              (fun entry => decide (entry.1 = name :: names)) =
            entries.find? fun entry => decide (entry.1 = name :: names) := by
        intro entries
        rw [List.find?_filter]
        congr 1
        funext entry
        by_cases asked : entry.1 = name :: names
        · simp [asked, same]
        · simp [asked]
      simp only [node?, put, if_neg same]
      rw [List.find?_cons_of_neg (by simpa using Ne.symm same), others]

/-- The text of a file is what stands there. -/
theorem textAt_eq_ok_iff {text : Text} :
    tree.textAt real = .ok text ↔ tree.node? real = some (.file (.text text)) := by
  unfold textAt
  split <;> simp_all

/-- Two file systems with the same folders and links, and files in the same places. -/
def SameShape (tree other : FileTree) : Prop :=
  ∀ path, tree.node? path = other.node? path ∨
    ∃ content written, tree.node? path = some (.file content) ∧
      other.node? path = some (.file written)

namespace SameShape

theorem refl (tree : FileTree) : SameShape tree tree := fun _ => Or.inl rfl

theorem trans {third : FileTree} (first : SameShape tree other) (second : SameShape other third) :
    SameShape tree third := by
  intro path
  rcases first path with same | ⟨content, written, old, new⟩
  · rw [same]
    exact second path
  · rcases second path with same | ⟨again, rewritten, before, after⟩
    · exact Or.inr ⟨content, written, old, same.symm.trans new⟩
    · exact Or.inr ⟨content, rewritten, old, after⟩

/-- A file can be written without changing the shape. -/
theorem put {content : Content} (isFile : tree.node? real = some (.file content))
    (written : Content) : SameShape tree (tree.put real (.file written)) := by
  have nonempty : real ≠ [] := by
    rintro rfl
    cases isFile
  intro path
  rw [node?_put tree real _ nonempty]
  split
  · next same => exact Or.inr ⟨content, written, same ▸ isFile, rfl⟩
  · exact Or.inl rfl

theorem folder_iff (same : SameShape tree other) (path : RealPath) :
    tree.node? path = some .folder ↔ other.node? path = some .folder := by
  rcases same path with same | ⟨content, written, old, new⟩
  · rw [same]
  · simp [old, new]

/-- A walk sees no difference. -/
theorem advance_eq (same : SameShape tree other) (here : RealPath) (pieces : List Text) :
    tree.advance here pieces = other.advance here pieces := by
  induction pieces generalizing here with
  | nil => rfl
  | cons piece pieces ih =>
    have folder := same.folder_iff here
    unfold advance
    simp only [ne_eq, folder, ih]
    rcases same (here ++ [piece]) with next | ⟨content, written, old, new⟩
    · rw [next]
    · rw [old, new]

theorem walk_eq (same : SameShape tree other) (links : Nat) (here : RealPath)
    (pieces : List Text) : tree.walk links here pieces = other.walk links here pieces := by
  induction links generalizing here pieces with
  | zero =>
    unfold walk
    rw [same.advance_eq]
    cases other.advance here pieces <;> rfl
  | succ links ih =>
    unfold walk
    rw [same.advance_eq]
    cases other.advance here pieces with
    | arrived place => rfl
    | failed e => rfl
    | atLink folder target left => exact ih _ _

theorem realPath_eq (same : SameShape tree other) (here : RealPath) (path : Text) :
    tree.realPath here path = other.realPath here path := by
  unfold realPath locate
  simp only [same.walk_eq]

end SameShape

/-- A walk over two stretches of a path fails where one of them does, and goes on from the
place or the link that the first one leads to. -/
theorem advance_append (tree : FileTree) (here : RealPath) (front : List Text) {back : List Text}
    (more : back ≠ []) : tree.advance here (front ++ back) =
      match tree.advance here front with
      | .arrived (.taken middle) => tree.advance middle back
      | .arrived (.vacant _) => .failed .notFound
      | .failed e => .failed e
      | .atLink folder target left => .atLink folder target (left ++ back) := by
  induction front generalizing here with
  | nil => rfl
  | cons piece front ih =>
    simp only [List.cons_append, advance, ih]
    split
    · rfl
    split
    · rfl
    split
    · rfl
    split
    · rfl
    split
    · cases front with
      | nil => simp [more]
      | cons next front => simp
    · rfl
    · rfl

/-- What becomes of a walk where it stops. -/
def follow (tree : FileTree) (links : Nat) : Stop → Except FileError Place
  | .arrived place => .ok place
  | .failed e => .error e
  | .atLink folder target left =>
    match links with
    | 0 => .error .tooManyLinks
    | links + 1 => tree.walk links (startOf folder target) (Path.pieces target ++ left)

theorem walk_eq_follow (tree : FileTree) (links : Nat) (here : RealPath) (pieces : List Text) :
    tree.walk links here pieces = tree.follow links (tree.advance here pieces) := by
  unfold walk follow
  cases tree.advance here pieces with
  | arrived place => rfl
  | failed e => rfl
  | atLink folder target left => cases links <;> rfl

/-- A walk goes past its first piece only from a folder. -/
theorem folder_of_walk (more : pieces ≠ []) (walked : tree.walk links here pieces = .ok place) :
    tree.node? here = some .folder := by
  obtain ⟨piece, rest, rfl⟩ := List.exists_cons_of_ne_nil more
  by_cases folder : tree.node? here = some .folder
  · exact folder
  · rw [walk_eq_follow, advance, if_pos folder] at walked
    cases walked

/-- The first stretch of a walk leads to a folder, from where the second goes on. -/
theorem exists_walk_append {front back : List Text} (more : back ≠ [])
    (walked : tree.walk links here (front ++ back) = .ok place) :
    ∃ middle left, tree.walk links here front = .ok (.taken middle) ∧
      tree.node? middle = some .folder ∧ tree.walk left middle back = .ok place := by
  induction links using Nat.strongRecOn generalizing here front with
  | ind links ih =>
    rw [walk_eq_follow, advance_append tree here front more] at walked
    rw [walk_eq_follow]
    cases stop : tree.advance here front with
    | arrived arrival =>
      rw [stop] at walked
      cases arrival with
      | taken middle =>
        have second : tree.walk links middle back = .ok place := by
          rw [walk_eq_follow]
          exact walked
        exact ⟨middle, links, rfl, folder_of_walk more second, second⟩
      | vacant path => cases walked
    | failed e =>
      rw [stop] at walked
      cases walked
    | atLink folder target left =>
      rw [stop] at walked
      cases links with
      | zero => cases walked
      | succ links =>
        have followed : tree.walk links (startOf folder target)
            ((Path.pieces target ++ left) ++ back) = .ok place := by
          rw [List.append_assoc]
          exact walked
        exact ih links (Nat.lt_succ_self links) followed

/-- A walk that ends with a slash ends in a folder. -/
theorem folder_of_trailing_slash (walked : tree.walk links here pieces = .ok (.taken real))
    (slash : pieces.getLast? = some []) : tree.node? real = some .folder := by
  obtain ⟨front, rfl⟩ := List.getLast?_eq_some_iff.mp slash
  obtain ⟨middle, left, -, folder, last⟩ := exists_walk_append (by simp) walked
  have stays : tree.advance middle [[]] = .arrived (.taken middle) := by
    rw [advance, if_neg (by simpa using folder)]
    rfl
  rw [walk_eq_follow, stays] at last
  cases last
  exact folder

/-- The place to write a file that stands already is where it stands. -/
theorem walkToFile_eq {content : Content} (walked : tree.walk links here pieces = .ok (.taken real))
    (isFile : tree.node? real = some (.file content)) :
    tree.walkToFile links here pieces = .ok real := by
  induction links using Nat.strongRecOn generalizing here pieces with
  | ind links ih =>
    have named : ¬ pieces.getLast? = some [] := by
      intro slash
      rw [folder_of_trailing_slash walked slash] at isFile
      cases isFile
    rw [walk_eq_follow] at walked
    unfold walkToFile
    cases stop : tree.advance here pieces with
    | arrived arrival =>
      rw [stop] at walked
      obtain rfl : arrival = .taken real := Except.ok.inj walked
      simp [named, isFile]
    | failed e =>
      rw [stop] at walked
      cases walked
    | atLink folder target left =>
      rw [stop] at walked
      cases links with
      | zero => cases walked
      | succ links =>
        simp only [if_neg named]
        exact ih links (Nat.lt_succ_self links) walked

end Transclusion.FileTree

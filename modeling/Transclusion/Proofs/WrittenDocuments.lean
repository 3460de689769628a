import Mathlib.Data.List.Nodup
import Transclusion.Proofs.FileTreeWriting
import Transclusion.Proofs.Surroundings

/-! Documents written one after another. Each is a file that stands already, so no write
fails and none moves what the others lead to. -/
namespace Transclusion

namespace World

/-- What writing leaves: each text in its document, and all else as it was. -/
structure Written (world : World) (writes : List (Text × Text)) (after : World) : Prop where
  alike : Alike world after
  texts : ∀ write ∈ writes, ∀ real, world.tree.realPath world.here write.1 = .ok real →
    after.tree.textAt real = .ok write.2
  kept : ∀ real, (∀ write ∈ writes, world.tree.realPath world.here write.1 ≠ .ok real) →
    after.tree.node? real = world.tree.node? real

theorem Written.others {world after : World} {writes : List (Text × Text)}
    (written : Written world writes after) (real : RealPath)
    (elsewhere : ∀ write ∈ writes, world.tree.realPath world.here write.1 ≠ .ok real) :
    after.tree.textAt real = world.tree.textAt real := by
  unfold FileTree.textAt
  rw [written.kept real elsewhere]

/-- No two of the paths lead to the same file. -/
def Distinct (world : World) (paths : List Text) : Prop :=
  (paths.map (world.tree.realPath world.here)).Nodup

instance (world : World) (paths : List Text) : Decidable (Distinct world paths) :=
  inferInstanceAs (Decidable (List.Nodup _))

/-- No two of the paths lead to the same file; those that lead nowhere do not count. -/
def Apart (world : World) (paths : List Text) : Prop :=
  paths.Pairwise fun path other => world.tree.isThere world.here path = true →
    world.tree.realPath world.here path ≠ world.tree.realPath world.here other

instance (world : World) (paths : List Text) : Decidable (Apart world paths) :=
  inferInstanceAs (Decidable (List.Pairwise _ _))

/-- A path leads to a file. -/
def NamesFile (world : World) (path : Text) : Prop :=
  ∃ real content, world.tree.realPath world.here path = .ok real ∧
    world.tree.node? real = some (.file content)

/-- Writes of the same documents leave the same files, in whatever order they were made. -/
theorem Written.node?_eq {world after other : World} {writes others : List (Text × Text)}
    (written : Written world writes after) (again : Written world others other)
    (same : ∀ write, write ∈ writes ↔ write ∈ others) :
    after.tree.node? = other.tree.node? := by
  funext real
  by_cases hit : ∃ write ∈ writes, world.tree.realPath world.here write.1 = .ok real
  · obtain ⟨write, member, leads⟩ := hit
    rw [FileTree.textAt_eq_ok_iff.mp (written.texts write member real leads),
      FileTree.textAt_eq_ok_iff.mp (again.texts write ((same write).mp member) real leads)]
  · have missed : ∀ write ∈ writes, world.tree.realPath world.here write.1 ≠ .ok real :=
      fun write member leads => hit ⟨write, member, leads⟩
    rw [written.kept real missed,
      again.kept real fun write member => missed write ((same write).mpr member)]

namespace Alike
variable {world other : World}

theorem refl (world : World) : Alike world world := ⟨rfl, rfl, .refl _⟩

theorem trans {third : World} (first : Alike world other) (second : Alike other third) :
    Alike world third :=
  ⟨second.here_eq.trans first.here_eq, second.environment_eq.trans first.environment_eq,
    first.shape.trans second.shape⟩

theorem distinct (alike : Alike world other) {paths : List Text} (distinct : Distinct world paths) :
    Distinct other paths := by
  have same : other.tree.realPath other.here = world.tree.realPath world.here :=
    funext alike.realPath_eq
  unfold Distinct
  rw [same]
  exact distinct

theorem namesFile (alike : Alike world other) {path : Text} (file : NamesFile world path) :
    NamesFile other path := by
  obtain ⟨real, content, found, isFile⟩ := file
  rw [← alike.realPath_eq] at found
  rcases alike.shape real with same | ⟨old, new, before, after⟩
  · exact ⟨real, content, found, same ▸ isFile⟩
  · exact ⟨real, new, found, after⟩

end Alike

/-- Documents that can be read can be written, one after another. -/
theorem exists_written {world : World} {writes : List (Text × Text)}
    (distinct : Distinct world (writes.map Prod.fst))
    (files : ∀ write ∈ writes, NamesFile world write.1) :
    ∃ after, Run.writeAll world writes = (none, after) ∧ Written world writes after := by
  induction writes generalizing world with
  | nil => exact ⟨world, rfl, .refl world, by simp, fun _ _ => rfl⟩
  | cons write writes ih =>
    obtain ⟨path, text⟩ := write
    obtain ⟨real, content, found, isFile⟩ := files _ List.mem_cons_self
    obtain ⟨apart, distinct⟩ := List.nodup_cons.mp distinct
    have wrote := write_of_file found isFile text
    let middle : World := { world with tree := world.tree.put real (.file (.text text)) }
    have alike : Alike world middle := ⟨rfl, rfl, .put isFile _⟩
    obtain ⟨after, wroteAll, written⟩ := ih (alike.distinct distinct)
      fun write member => alike.namesFile (files write (List.mem_cons_of_mem _ member))
    have nonempty : real ≠ [] := by
      rintro rfl
      cases isFile
    have put := FileTree.node?_put world.tree real (.file (.text text)) nonempty
    refine ⟨after, ?_, alike.trans written.alike, ?_, ?_⟩
    · rw [Run.writeAll, wrote]
      exact wroteAll
    · intro write member own foundOwn
      rcases List.mem_cons.mp member with rfl | later
      · obtain rfl : real = own := Except.ok.inj (found.symm.trans foundOwn)
        have kept : after.tree.textAt real = middle.tree.textAt real := by
          refine written.others real fun write later same => ?_
          rw [alike.realPath_eq] at same
          rw [found, ← same] at apart
          exact apart (List.mem_map_of_mem (List.mem_map_of_mem later))
        rw [kept]
        simp [middle, FileTree.textAt, put]
      · exact written.texts write later own (by rw [alike.realPath_eq, foundOwn])
    · intro other untouched
      rw [written.kept other fun write later => by
        rw [alike.realPath_eq]
        exact untouched write (List.mem_cons_of_mem _ later)]
      have elsewhere : other ≠ real := by
        rintro rfl
        exact untouched _ List.mem_cons_self found
      simp [middle, put, elsewhere]

end World

end Transclusion

import Mathlib.Data.List.Basic
import PlanArchive.Files.Disk
import PlanArchive.Proofs.Result

/-!
# What is written is read back

Writing a file changes no folder, so its path leads to the same place afterwards
(`read_of_write`).
-/

namespace PlanArchive.Disk

open Files

variable {disk : Disk} {place : List String} {content : Bytes}

theorem lookup_filter {other : List String} (h : other ≠ place)
    (nodes : List (List String × Node)) :
    (nodes.filter (·.1 != place)).lookup other = nodes.lookup other := by
  induction nodes with
  | nil => rfl
  | cons entry nodes ih =>
    obtain ⟨at_, node⟩ := entry
    by_cases hat : at_ = place
    · subst hat
      have hother : (other == at_) = false := beq_false_of_ne h
      simp [List.lookup_cons, hother, ih]
    · have hkeep : (at_ != place) = true := bne_iff_ne.mpr hat
      simp only [List.filter_cons, hkeep, if_true, List.lookup_cons, ih]

theorem find?_set (disk : Disk) (place other : List String) (node : Node) :
    (disk.set place node).find? other =
      if isAbove other then some .folder
      else if other = place then some node else disk.find? other := by
  unfold find? set
  by_cases habove : isAbove other = true
  · simp only [habove, if_true]
  · rw [if_neg habove, if_neg habove]
    by_cases hplace : other = place
    · simp [hplace]
    · have hother : (other == place) = false := beq_false_of_ne hplace
      simp [hplace, habove, List.lookup_cons, hother, lookup_filter hplace]

/-- A folder stays one when a file is put elsewhere. -/
theorem folder_set {other : List String} (hplace : disk.find? place ≠ some .folder)
    (h : disk.find? other = some .folder) :
    (disk.set place (.file content)).find? other = some .folder := by
  rw [find?_set]
  split
  · rfl
  split
  · rename_i heq
    exact absurd (heq ▸ h) hplace
  · exact h

theorem look_set {folder : List String} {name : String}
    (hplace : disk.find? place ≠ some .folder) (h : disk.look folder name = .ok (some .folder)) :
    (disk.set place (.file content)).look folder name = .ok (some .folder) := by
  unfold look at h ⊢
  split at h
  · cases h
  · rename_i hlength
    rw [if_neg hlength, folder_set hplace (Except.ok.inj h)]

/-- Only folders are passed through, so a file that is put elsewhere changes nothing. -/
theorem enter_set (hplace : disk.find? place ≠ some .folder) {start folder : List String}
    {pieces : List String} (h : disk.enter start pieces = .ok folder) :
    (disk.set place (.file content)).enter start pieces = .ok folder := by
  induction pieces generalizing start with
  | nil => exact h
  | cons piece pieces ih =>
    unfold enter at h ⊢
    split
    · rename_i hdot
      rw [if_pos hdot] at h
      exact ih h
    split
    · rename_i hdot hdots
      rw [if_neg hdot, if_pos hdots] at h
      exact ih h
    · rename_i hdot hdots
      rw [if_neg hdot, if_neg hdots] at h
      obtain ⟨found, hlook, h⟩ := Result.bind_eq_ok.mp h
      match found with
      | some .folder =>
        exact Result.bind_eq_ok.mpr ⟨_, look_set hplace hlook, ih h⟩
      | some (.file _) => cases h
      | none => cases h

/-- The same path leads to the same place. -/
theorem target_set (hplace : disk.find? place ≠ some .folder) {path : String} {target : Target}
    (h : disk.target path = .ok target) :
    (disk.set place (.file content)).target path = .ok target := by
  simp only [Disk.target] at h ⊢
  by_cases hnul : path.toList.contains '\x00' = true
  · rw [if_pos hnul] at h
    cases h
  by_cases hempty : path.toList.isEmpty = true
  · rw [if_neg hnul, if_pos hempty] at h
    cases h
  by_cases hlength : maxPath < path.utf8ByteSize
  · rw [if_neg hnul, if_neg hempty, if_pos hlength] at h
    cases h
  rw [if_neg hnul, if_neg hempty, if_neg hlength] at h ⊢
  obtain ⟨folder, hfolder, h⟩ := Result.bind_eq_ok.mp h
  exact Result.bind_eq_ok.mpr ⟨folder, enter_set hplace hfolder, h⟩

/-- What a write that succeeds changes. -/
theorem write_eq_ok {path : String} {after : Disk} (h : disk.write path content = .ok after) :
    ∃ folder name, disk.target path = .ok (.name folder name false) ∧
      ¬maxName < name.utf8ByteSize ∧ disk.find? (folder ++ [name]) ≠ some .folder ∧
      after = disk.set (folder ++ [name]) (.file content) := by
  obtain ⟨target, htarget, h⟩ := Result.bind_eq_ok.mp h
  match target with
  | .folder => cases h
  | .name _ _ true => cases h
  | .name folder name false =>
    obtain ⟨found, hlook, h⟩ := Result.bind_eq_ok.mp h
    unfold look at hlook
    split at hlook
    · cases hlook
    · rename_i hlength
      obtain rfl := Except.ok.inj hlook
      refine ⟨folder, name, htarget, hlength, ?_, ?_⟩
      · intro hfolder
        simp only [hfolder] at h
        cases h
      · split at h
        · cases h
        · exact (Except.ok.inj h).symm
        · exact (Except.ok.inj h).symm

theorem read_of_write {path : String} {after : Disk} (h : disk.write path content = .ok after) :
    after.read path = .ok content := by
  obtain ⟨folder, name, htarget, hlength, hplace, rfl⟩ := write_eq_ok h
  have habove : isAbove (folder ++ [name]) ≠ true := fun habove => hplace (if_pos habove)
  have hfound : (disk.set (folder ++ [name]) (.file content)).find? (folder ++ [name]) =
      some (.file content) := by
    rw [find?_set, if_neg habove, if_pos rfl]
  have hopen : (disk.set (folder ++ [name]) (.file content)).open? path = .ok (.file content) := by
    refine Result.bind_eq_ok.mpr ⟨_, target_set hplace htarget, ?_⟩
    refine Result.bind_eq_ok.mpr ⟨some (.file content), ?_, rfl⟩
    rw [look, if_neg hlength, hfound]
  rw [read, hopen]

end PlanArchive.Disk

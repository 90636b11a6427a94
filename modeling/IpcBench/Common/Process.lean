import IpcBench.Common.CommandLine
import Mathlib.Order.Bounds.Basic

/-!
# Starting the programs

The program of a benchmark starts two others, named after itself, and hands them its own
arguments: `start_children` writes the names into buffers of a hundred characters and the
arguments into an array of eight cells. `find_build_path` belongs to an older way of naming
the programs: it searches the path of the source file, from the right, for the directory of
the project.
-/

namespace IpcBench

open Lib

/-- Whether the calls of `start_process` succeed. -/
structure Calls where
  fork : Bool
  setpgid : Bool
  execv : Bool
  deriving DecidableEq, Repr

/-- The name of the project. -/
def project : List Char := "ipc-bench".toList

/-- `BUILD_PATH`, up to its first null character. -/
def buildPath : List Char := "/build/source".toList

/-- The loop of `find_build_path`, with `left` in front of the given index and `right` on the
given one. Where it ends, `right` is on the last character of the project or, if it is not
found, on the eighth character of the path. -/
def searchLoop (file : List Char) : ℕ → ℤ → ℤ
  | 0, right => right
  | left + 1, right =>
      if file[left]? = some 'i' ∧ file[right.toNat]? = some 'h' ∧
          (file.drop left).take 9 = project then right
      else searchLoop file left (right - 1)

/-- `find_build_path`, for the value of `__FILE__`; `none` when `strcpy` writes past the end
of the block. -/
def findBuildPath (file : List Char) : Option (List Char) :=
  let right := searchLoop file (file.length - 8) (file.length - 1) + 1
  if right + (buildPath.length + 1) ≤ file.length + buildPath.length then
    some (file.take right.toNat ++ buildPath)
  else none

/-- The project is found at an index of the path. -/
def FoundAt (file : List Char) (i : ℕ) : Prop := project <+: file.drop i

/-- The comparison of the first and of the last character changes nothing. -/
theorem guard_iff_foundAt (file : List Char) (left : ℕ) :
    (file[left]? = some 'i' ∧ file[left + 8]? = some 'h' ∧ (file.drop left).take 9 = project) ↔
      FoundAt file left := by
  rw [FoundAt, List.prefix_iff_eq_take]
  constructor
  · rintro ⟨_, _, hequal⟩
    exact hequal.symm
  · intro hequal
    have hchar : ∀ k < 9, file[left + k]? = project[k]? := by
      intro k hk
      rw [hequal, List.getElem?_take, if_pos (show k < project.length from hk),
        List.getElem?_drop]
    exact ⟨hchar 0 (by decide), hchar 8 (by decide), hequal.symm⟩

/-- The loop finds the last index in front of it. -/
theorem searchLoop_spec (file : List Char) (n : ℕ) :
    (∃ i < n, FoundAt file i ∧ (∀ j < n, FoundAt file j → j ≤ i) ∧
        searchLoop file n (n + 7) = i + 8) ∨
      (∀ j < n, ¬FoundAt file j) ∧ searchLoop file n (n + 7) = 7 := by
  induction n with
  | zero => exact Or.inr ⟨by simp, rfl⟩
  | succ left ih =>
    have hright : ((left + 1 : ℕ) : ℤ) + 7 = ((left + 8 : ℕ) : ℤ) := by omega
    rw [hright, searchLoop, Int.toNat_natCast]
    by_cases hfound : FoundAt file left
    · refine Or.inl ⟨left, Nat.lt_succ_self _, hfound, fun j hj _ => Nat.le_of_lt_succ hj, ?_⟩
      rw [if_pos ((guard_iff_foundAt file left).mpr hfound)]
      push_cast
      rfl
    · have hback : ((left + 8 : ℕ) : ℤ) - 1 = left + 7 := by omega
      rw [if_neg (mt (guard_iff_foundAt file left).mp hfound), hback]
      rcases ih with ⟨i, hi, hat, hlast, hvalue⟩ | ⟨hnone, hvalue⟩
      · refine Or.inl ⟨i, Nat.lt_succ_of_lt hi, hat, fun j hj hj' => ?_, hvalue⟩
        rcases Nat.lt_succ_iff_lt_or_eq.mp hj with hless | rfl
        · exact hlast j hless hj'
        · exact absurd hj' hfound
      · refine Or.inr ⟨fun j hj => ?_, hvalue⟩
        rcases Nat.lt_succ_iff_lt_or_eq.mp hj with hless | rfl
        · exact hnone j hless
        · exact hfound

/-- The project has nine characters. -/
theorem FoundAt.add_le {file : List Char} {i : ℕ} (h : FoundAt file i) :
    i + 9 ≤ file.length := by
  have hle := List.IsPrefix.length_le h
  rw [List.length_drop] at hle
  have hnine : project.length = 9 := rfl
  omega

/-- A path shorter than the project ends where the result would begin, and there is no room
for it. -/
theorem findBuildPath_short {file : List Char} (h : file.length < 9) :
    findBuildPath file = none := by
  have hnone : file.length - 8 = 0 := by omega
  rw [findBuildPath, hnone]
  refine if_neg ?_
  rw [searchLoop]
  omega

/-- The first characters that are kept, when the path is long enough. -/
theorem findBuildPath_long {file : List Char} (right : ℕ) (h : 9 ≤ file.length)
    (hsearch : searchLoop file (file.length - 8) (((file.length - 8 : ℕ) : ℤ) + 7) = right) :
    findBuildPath file =
      if right + 1 < file.length then some (file.take (right + 1) ++ buildPath) else none := by
  have hstart : ((file.length - 8 : ℕ) : ℤ) + 7 = file.length - 1 := by omega
  rw [hstart] at hsearch
  rw [findBuildPath, hsearch]
  by_cases hroom : right + 1 < file.length
  · rw [if_pos hroom, if_pos (by omega)]
    rfl
  · rw [if_neg hroom, if_neg (by omega)]

/-- For every path, the result of `find_build_path` is the path up to the last occurrence of
the project, followed by the path to the programs, provided that something comes after this
occurrence: otherwise the last character is written past the end of the block. Without an
occurrence the first eight characters are kept, if there are more than eight. -/
theorem findBuildPath_eq_some_iff (file path : List Char) :
    findBuildPath file = some path ↔
      (∃ i, IsGreatest {i | FoundAt file i} i ∧ i + 9 < file.length ∧
          path = file.take (i + 9) ++ buildPath) ∨
        (∀ i, ¬FoundAt file i) ∧ 9 ≤ file.length ∧ path = file.take 8 ++ buildPath := by
  rcases Nat.lt_or_ge file.length 9 with hshort | hlong
  · rw [findBuildPath_short hshort]
    constructor
    · intro h
      cases h
    · rintro (⟨i, _, hroom, _⟩ | ⟨_, hlong, _⟩) <;> omega
  · have hbefore : ∀ j, FoundAt file j → j < file.length - 8 := by
      intro j hj
      have hle := hj.add_le
      omega
    rcases searchLoop_spec file (file.length - 8) with
      ⟨i, _, hat, hlast, hvalue⟩ | ⟨hnone, hvalue⟩
    · have hgreatest : IsGreatest {i | FoundAt file i} i :=
        ⟨hat, fun j hj => hlast j (hbefore j hj) hj⟩
      rw [findBuildPath_long (i + 8) hlong hvalue, Option.ite_none_right_eq_some,
        Option.some.injEq]
      constructor
      · rintro ⟨hroom, rfl⟩
        exact Or.inl ⟨i, hgreatest, hroom, rfl⟩
      · rintro (⟨j, hj, hroom, rfl⟩ | ⟨hnone, _⟩)
        · obtain rfl := hj.unique hgreatest
          exact ⟨hroom, rfl⟩
        · exact absurd hat (hnone i)
    · have hnone' : ∀ j, ¬FoundAt file j := fun j hj => hnone j (hbefore j hj) hj
      rw [findBuildPath_long 7 hlong hvalue, Option.ite_none_right_eq_some,
        Option.some.injEq]
      constructor
      · rintro ⟨hroom, rfl⟩
        exact Or.inr ⟨hnone', hlong, rfl⟩
      · rintro (⟨j, hj, _⟩ | ⟨_, _, rfl⟩)
        · exact absurd hj.1 (hnone' j)
        · exact ⟨hlong, rfl⟩

example : findBuildPath "/ipc-bench/ipc-bench/a.c".toList =
    some "/ipc-bench/ipc-bench/build/source".toList := by decide

end IpcBench

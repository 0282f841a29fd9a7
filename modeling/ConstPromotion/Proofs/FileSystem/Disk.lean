import ConstPromotion.FileSystem.Disk
import Mathlib.Tactic

/-!
# What a disk lets through

What a disk does not refuse is done as the files have it (`Disk.read_of_ok`, `Disk.write_of_ok`,
`Disk.copy_of_ok`), and a path that can be followed on it leads where it leads (`Disk.exists?_eq`).
On the plain disk each operation is the one on the files.
-/

namespace ConstPromotion

lemma refusing_eq_ok_iff {α : Type} {reason : Option OsError} {result : Except OsError α} {a : α} :
    refusing reason result = .ok a ↔ reason = none ∧ result = .ok a := by
  cases reason <;> simp [refusing]

namespace Disk

variable {disk : Disk} {fs fs' : FileSystem} {p source target : Path} {content : Bytes} {size : Nat}

/-! ### Operations that are not refused -/

lemma read_eq_ok_iff : disk.read fs p = .ok content ↔
    disk.pathError? p = none ∧ disk.readError? fs p = none ∧ fs.read p = .ok content := by
  rw [read, refusing_eq_ok_iff, Option.or_eq_none_iff, and_assoc]

lemma write_eq_ok_iff : disk.write fs p content = .ok fs' ↔
    disk.pathError? p = none ∧ disk.writeError? fs p content = none ∧
      fs.write p content = .ok fs' := by
  rw [write, refusing_eq_ok_iff, Option.or_eq_none_iff, and_assoc]

lemma copy_eq_ok_iff : disk.copy fs source target = .ok (size, fs') ↔
    disk.pathError? source = none ∧ disk.pathError? target = none ∧
      disk.copyError? fs source target = none ∧ fs.copy source target = .ok (size, fs') := by
  rw [copy, refusing_eq_ok_iff, Option.or_eq_none_iff, Option.or_eq_none_iff]
  tauto

lemma read_of_ok (h : disk.read fs p = .ok content) : fs.read p = .ok content :=
  (read_eq_ok_iff.mp h).2.2

lemma write_of_ok (h : disk.write fs p content = .ok fs') : fs.write p content = .ok fs' :=
  (write_eq_ok_iff.mp h).2.2

lemma copy_of_ok (h : disk.copy fs source target = .ok (size, fs')) :
    fs.copy source target = .ok (size, fs') := (copy_eq_ok_iff.mp h).2.2.2

/-! ### Paths that can be followed -/

lemma exists?_eq (h : disk.pathError? p = none) : disk.exists? fs p = fs.exists? p := by
  rw [exists?, h, Option.isNone_none, Bool.true_and]

lemma isFile_eq (h : disk.pathError? p = none) : disk.isFile fs p = fs.isFile p := by
  rw [isFile, h, Option.isNone_none, Bool.true_and]

lemma isDirectory_eq (h : disk.pathError? p = none) : disk.isDirectory fs p = fs.isDirectory p := by
  rw [isDirectory, h, Option.isNone_none, Bool.true_and]

lemma exists?_of_exists? (h : disk.exists? fs p = true) : fs.exists? p = true :=
  (Bool.and_eq_true_iff.mp h).2

lemma isFile_eq_true_iff :
    disk.isFile fs p = true ↔ disk.pathError? p = none ∧ fs.isFile p = true := by
  rw [isFile, Bool.and_eq_true, Option.isNone_iff_eq_none]

end Disk

end ConstPromotion

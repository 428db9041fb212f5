import Mathlib.Data.UInt
import RobotCtl.Library.Number

/-! # Space on a filesystem

What a status report says of a filesystem. Sizes are 64-bit numbers of bytes.
A product that does not fit is a panic in a build that checks for overflow, and
wraps around in one that does not.
-/

namespace RobotCtl.Status

open Text

section Machine

/-- A product of 64-bit numbers, or a panic. -/
def mul (overflowChecks : Bool) (a b : UInt64) : Option UInt64 :=
  if overflowChecks && decide (2 ^ 64 ≤ a.toNat * b.toNat) then none else some (a * b)

def saturatingSub (a b : UInt64) : UInt64 := if b ≤ a then a - b else 0

def checkedDiv (a b : UInt64) : Option UInt64 := if b = 0 then none else some (a / b)

/-- The nearest integer to a quotient, and the even one of two that are as near. -/
def roundEven (n d : ℕ) : ℕ :=
  let rest := 2 * (n % d)
  if rest < d ∨ (rest = d ∧ n / d % 2 = 0) then n / d else n / d + 1

/-- A number as a floating-point number with 53 binary digits. -/
def toF64 (n : ℕ) : ℕ :=
  let unit := 2 ^ (Nat.log2 n + 1 - 53)
  roundEven n unit * unit

/-- A quotient of floating-point numbers with one decimal place. The divisor is a power of two, so
the quotient is exact and only its rendering rounds. -/
def oneDecimal (n scale : ℕ) : Str :=
  let tenths := roundEven (10 * toF64 n) scale
  decimal (tenths / 10) ++ '.' :: decimal (tenths % 10)

theorem toNat_saturatingSub (a b : UInt64) :
    (saturatingSub a b).toNat = a.toNat - b.toNat := by
  unfold saturatingSub
  split
  · next h => exact UInt64.toNat_sub_of_le a b h
  · next h =>
    have hlt : a.toNat < b.toNat := UInt64.lt_iff_toNat_lt.mp (UInt64.not_le.mp h)
    rw [Nat.sub_eq_zero_of_le hlt.le]
    rfl

end Machine

structure Filesystem where
  mount : Str
  totalBytes : UInt64
  availableBytes : UInt64
  deriving DecidableEq, Repr

/-- The counts of `statvfs` that are read. -/
structure Counts where
  frsize : UInt64
  blocks : UInt64
  bavail : UInt64

/-- Space on one mount point, if it can be asked for. Only the available blocks count, since not
every free block can be used. -/
def statvfs (overflowChecks : Bool) (mount : Str) (raw : Option Counts) :
    Option (Option Filesystem) :=
  match raw with
  | none => some none
  | some raw => do
    let totalBytes ← mul overflowChecks raw.blocks raw.frsize
    let availableBytes ← mul overflowChecks raw.bavail raw.frsize
    pure (some ⟨mount, totalBytes, availableBytes⟩)

/-- Binary units, largest first. -/
def units : List (Str × ℕ) :=
  [("T".toList, 2 ^ 40), ("G".toList, 2 ^ 30), ("M".toList, 2 ^ 20), ("K".toList, 2 ^ 10)]

/-- A number of bytes with one decimal place, in the largest unit that it reaches. -/
def formatBytes (bytes : UInt64) : Str :=
  match units.find? fun unit => unit.2 ≤ bytes.toNat with
  | some (suffix, scale) => oneDecimal bytes.toNat scale ++ suffix
  | none => decimal bytes.toNat ++ ['B']

namespace Filesystem

/-- The share that is used, in percent. -/
def percent (overflowChecks : Bool) (filesystem : Filesystem) : Option UInt64 := do
  let used := saturatingSub filesystem.totalBytes filesystem.availableBytes
  let scaled ← mul overflowChecks used 100
  pure ((checkedDiv scaled filesystem.totalBytes).getD 0)

/-- The line of a report on a filesystem, with a given share. -/
def line (filesystem : Filesystem) (percent : ℕ) : Str :=
  formatBytes filesystem.availableBytes ++ " free of ".toList ++
    formatBytes filesystem.totalBytes ++ " (".toList ++ decimal percent ++ "% used)".toList

end Filesystem

def describeFilesystem (overflowChecks : Bool) (filesystem : Filesystem) : Option Str := do
  let percent ← filesystem.percent overflowChecks
  pure (filesystem.line percent.toNat)

section Share

variable {overflowChecks : Bool} {filesystem : Filesystem}

/-- The quotient of a number that wrapped around is too small. -/
theorem wrapped_div_lt {n total size : ℕ} (hn : size ≤ n) (ht : total ≤ size) (hp : 0 < total) :
    n % size / total < n / total := by
  have hle : n % size + total ≤ n := by
    have hmod := Nat.mod_le (n - size) size
    rw [← Nat.mod_eq_sub_mod hn] at hmod
    omega
  calc n % size / total < n % size / total + 1 := Nat.lt_succ_self _
    _ = (n % size + total) / total := (Nat.add_div_right _ hp).symm
    _ ≤ n / total := Nat.div_le_div_right hle

theorem toNat_mul {a b c : UInt64} (h : mul overflowChecks a b = some c) :
    c.toNat = a.toNat * b.toNat % 2 ^ 64 := by
  obtain ⟨-, hc⟩ := Option.ite_none_left_eq_some.mp h
  rw [← Option.some.inj hc]
  exact UInt64.toNat_mul a b

/-- A product that fits is computed in every build. -/
theorem mul_of_lt {a b : UInt64} (h : a.toNat * b.toNat < 2 ^ 64) :
    mul overflowChecks a b = some (a * b) := by
  unfold mul
  rw [decide_eq_false (Nat.not_le.mpr h), Bool.and_false]
  rfl

namespace Filesystem

/-- The number of bytes that are not available. -/
def used (filesystem : Filesystem) : ℕ :=
  filesystem.totalBytes.toNat - filesystem.availableBytes.toNat

/-- The share that is used, in percent and rounded down. -/
def usedShare (filesystem : Filesystem) : ℕ :=
  if filesystem.totalBytes.toNat = 0 ∨
    filesystem.totalBytes.toNat ≤ filesystem.availableBytes.toNat then 0
  else 100 * filesystem.used / filesystem.totalBytes.toNat

theorem usedShare_le (filesystem : Filesystem) : filesystem.usedShare ≤ 100 := by
  unfold usedShare
  split
  · exact Nat.zero_le _
  · apply Nat.div_le_of_le_mul
    rw [Nat.mul_comm]
    exact Nat.mul_le_mul_right 100 (Nat.sub_le _ _)

/-- Both special cases are cases of the quotient. -/
theorem usedShare_eq (filesystem : Filesystem) :
    filesystem.usedShare = filesystem.used * 100 / filesystem.totalBytes.toNat := by
  unfold usedShare
  split
  · next h =>
    rcases h with h | h
    · rw [h, Nat.div_zero]
    · rw [used, Nat.sub_eq_zero_of_le h, Nat.zero_mul, Nat.zero_div]
  · rw [Nat.mul_comm]

/-- A share that is computed is the quotient of a product that may have wrapped around. -/
theorem toNat_percent {p : UInt64} (h : filesystem.percent overflowChecks = some p) :
    p.toNat = filesystem.used * 100 % 2 ^ 64 / filesystem.totalBytes.toNat := by
  obtain ⟨scaled, hm, hp⟩ := Option.bind_eq_some_iff.mp h
  have hs := toNat_mul hm
  rw [toNat_saturatingSub] at hs
  rw [← Option.some.inj hp, checkedDiv]
  split
  · next hz => rw [hz, UInt64.toNat_zero, Nat.div_zero, Option.getD_none, UInt64.toNat_zero]
  · rw [Option.getD_some, UInt64.toNat_div, hs]
    rfl

theorem exists_percent (overflowChecks : Bool) (h : filesystem.used * 100 < 2 ^ 64) :
    ∃ p, filesystem.percent overflowChecks = some p := by
  have hlt : (saturatingSub filesystem.totalBytes filesystem.availableBytes).toNat *
      (100 : UInt64).toNat < 2 ^ 64 := by
    rw [toNat_saturatingSub]
    exact h
  exact ⟨_, Option.bind_eq_some_iff.mpr ⟨_, mul_of_lt hlt, rfl⟩⟩

/-- The line shows which share it was given. -/
theorem line_inj {p q : ℕ} (h : filesystem.line p = filesystem.line q) : p = q := by
  have hd := List.append_cancel_left (List.append_cancel_right h)
  simpa using congrArg digitsValue hd

end Filesystem

/-- The report on a filesystem names the share that is used, and that is a percentage. -/
structure Describes (overflowChecks : Bool) (filesystem : Filesystem) : Prop where
  text : describeFilesystem overflowChecks filesystem = some (filesystem.line filesystem.usedShare)
  bound : filesystem.usedShare ≤ 100

theorem describes_of_lt (overflowChecks : Bool) (h : filesystem.used * 100 < 2 ^ 64) :
    Describes overflowChecks filesystem := by
  obtain ⟨p, hp⟩ := Filesystem.exists_percent overflowChecks h
  have hshare := Filesystem.toNat_percent hp
  rw [Nat.mod_eq_of_lt h, ← Filesystem.usedShare_eq] at hshare
  refine ⟨?_, filesystem.usedShare_le⟩
  rw [describeFilesystem, hp, ← hshare]
  rfl

/-- A product that wrapped around never gives the right share by chance. -/
theorem Describes.lt (h : Describes overflowChecks filesystem) :
    filesystem.used * 100 < 2 ^ 64 := by
  obtain ⟨p, hp, hl⟩ := Option.bind_eq_some_iff.mp h.text
  have hshare := Filesystem.line_inj (Option.some.inj hl)
  rw [Filesystem.toNat_percent hp, Filesystem.usedShare_eq] at hshare
  by_contra hge
  have hused : filesystem.used ≤ filesystem.totalBytes.toNat := Nat.sub_le _ _
  have hlt := filesystem.totalBytes.toNat_lt
  have hwrap := wrapped_div_lt (Nat.le_of_not_lt hge) hlt.le (by omega)
  omega

/-- A filesystem whose size is far from the limit is reported as it is. -/
theorem describes_of_statvfs {mount : Str} {raw : Counts}
    (h : raw.blocks.toNat * raw.frsize.toNat * 100 < 2 ^ 64)
    (hs : statvfs overflowChecks mount (some raw) = some (some filesystem)) :
    Describes overflowChecks filesystem := by
  obtain ⟨totalBytes, ht, hs'⟩ := Option.bind_eq_some_iff.mp hs
  obtain ⟨availableBytes, -, hf⟩ := Option.bind_eq_some_iff.mp hs'
  have htotal : filesystem.totalBytes = totalBytes := by
    rw [← Option.some.inj (Option.some.inj hf)]
  have hle : filesystem.used ≤ raw.blocks.toNat * raw.frsize.toNat := by
    rw [Filesystem.used, htotal, toNat_mul ht]
    exact (Nat.sub_le _ _).trans (Nat.mod_le _ _)
  exact describes_of_lt overflowChecks (by omega)

/-- In every build a report is right exactly if a hundred times the used bytes fit into 64 bits. -/
theorem describes_iff (overflowChecks : Bool) (filesystem : Filesystem) :
    Describes overflowChecks filesystem ↔ filesystem.used * 100 < 2 ^ 64 :=
  ⟨Describes.lt, describes_of_lt overflowChecks⟩

/-- A filesystem of eight exbibytes is half full, and the report says that nothing is used, or
panics. -/
theorem not_describes :
    statvfs true "/data".toList (some ⟨4096, 2 ^ 51, 2 ^ 50⟩) =
        some (some ⟨"/data".toList, 2 ^ 63, 2 ^ 62⟩) ∧
      describeFilesystem true ⟨"/data".toList, 2 ^ 63, 2 ^ 62⟩ = none ∧
      describeFilesystem false ⟨"/data".toList, 2 ^ 63, 2 ^ 62⟩ =
        some "4194304.0T free of 8388608.0T (0% used)".toList ∧
      ∀ overflowChecks, ¬ Describes overflowChecks ⟨"/data".toList, 2 ^ 63, 2 ^ 62⟩ := by
  refine ⟨by decide, by decide, by decide, Bool.forall_bool.mpr ⟨fun h => ?_, fun h => ?_⟩⟩
  · exact absurd h.text (by decide)
  · exact absurd h.text (by decide)

example : describeFilesystem true ⟨"/data".toList, 4 * 2 ^ 30, 2 ^ 30⟩ =
    some "1.0G free of 4.0G (75% used)".toList := by decide

end Share

end RobotCtl.Status

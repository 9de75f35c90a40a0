/-
CriteriaSql/Wire/BigEndian.lean

Integers as a fixed number of bytes, the most significant byte first; signed
integers in two's complement.

Main statements: what is written reads back, modulo the range of the width
(`read_write`) and exactly for signed integers in range (`readInt_writeInt`),
also in front of other bytes (`takeInt_writeInt_append`).
-/
import CriteriaSql.Number.Power

namespace CriteriaSql.Wire.BigEndian

/-- The number of values of `width` bytes. -/
def span (width : Nat) : Nat := pow2 (8 * width)

/-- The low `width` bytes of a number. -/
def write : (width : Nat) → Nat → List UInt8
  | 0, _ => []
  | width + 1, n => write width (n / 256) ++ [UInt8.ofNat n]

/-- The number that bytes stand for. -/
def read (bytes : List UInt8) : Nat :=
  bytes.foldl (fun n b => n * 256 + b.toNat) 0

/-- An integer in two's complement. -/
def writeInt (width : Nat) (n : Int) : List UInt8 :=
  write width (n % span width).toNat

/-- The integer that bytes stand for in two's complement. -/
def readInt (bytes : List UInt8) : Int :=
  let n := read bytes
  if 2 * n < span bytes.length then n else (n : Int) - span bytes.length

/-- Whether an integer fits a signed word of a number of bytes. -/
def fitsSigned (width : Nat) (n : Int) : Bool :=
  -(span width : Int) ≤ 2 * n && 2 * n < span width

/-- Whether an integer fits an unsigned word of a number of bytes. -/
def fitsUnsigned (width : Nat) (n : Int) : Bool :=
  0 ≤ n && n < span width

/-- Take an integer of `width` bytes from the front. -/
def takeInt (width : Nat) (bytes : List UInt8) : Option (Int × List UInt8) :=
  if width ≤ bytes.length then some (readInt (bytes.take width), bytes.drop width) else none

/-! ### Reading back -/

theorem span_succ (width : Nat) : span (width + 1) = 256 * span width := by
  have h : span (width + 1) = pow2 (8 * width) * pow2 8 := pow2_add (8 * width) 8
  rw [h, Nat.mul_comm]
  rfl

theorem span_pos (width : Nat) : 0 < span width := pow2_pos _

@[simp] theorem length_write (width n : Nat) : (write width n).length = width := by
  induction width generalizing n with
  | zero => rfl
  | succ width ih => simp [write, ih]

theorem read_append_singleton (bytes : List UInt8) (b : UInt8) :
    read (bytes ++ [b]) = read bytes * 256 + b.toNat := by
  simp [read, List.foldl_append]

theorem read_write (width n : Nat) : read (write width n) = n % span width := by
  induction width generalizing n with
  | zero =>
    have h : n % span 0 = 0 := Nat.mod_one n
    rw [h]
    rfl
  | succ width ih =>
    have hb : (UInt8.ofNat n).toNat = n % 256 := by simp
    rw [write, read_append_singleton, ih, hb, span_succ, Nat.mod_mul]
    omega

theorem readInt_writeInt {width : Nat} {n : Int} (h : fitsSigned width n = true) :
    readInt (writeInt width n) = n := by
  simp only [fitsSigned, Bool.and_eq_true, decide_eq_true_eq] at h
  have hpos : (0 : Int) < span width := by
    exact_mod_cast span_pos width
  have hread : read (writeInt width n) = (n % span width).toNat := by
    rw [writeInt, read_write, Nat.mod_eq_of_lt]
    have := Int.emod_lt_of_pos n hpos
    omega
  have hlen : (writeInt width n).length = width := length_write _ _
  unfold readInt
  simp only [hread, hlen]
  generalize span width = m at *
  by_cases hn : 0 ≤ n
  · rw [Int.emod_eq_of_lt hn (by omega)]
    split <;> omega
  · have he : n % (m : Int) = n + m := by
      rw [← Int.add_emod_right]
      exact Int.emod_eq_of_lt (by omega) (by omega)
    rw [he]
    split <;> omega

@[simp] theorem length_writeInt (width : Nat) (n : Int) : (writeInt width n).length = width :=
  length_write width _

/-- A natural number below half the range has the form of a signed integer. -/
theorem writeInt_natCast {width n : Nat} (h : 2 * n < span width) :
    writeInt width n = write width n := by
  rw [writeInt, Int.emod_eq_of_lt (by omega) (by omega), Int.toNat_natCast]

theorem fitsSigned_natCast {width n : Nat} (h : 2 * n < span width) :
    fitsSigned width n = true := by
  simp only [fitsSigned, Bool.and_eq_true, decide_eq_true_eq]
  omega

/-! ### Integers in front of other bytes -/

theorem takeInt_append {width : Nat} {bytes : List UInt8} (h : bytes.length = width)
    (rest : List UInt8) : takeInt width (bytes ++ rest) = some (readInt bytes, rest) := by
  rw [takeInt, if_pos (by simp [h]), List.take_left' h, List.drop_left' h]

theorem takeInt_writeInt_append {width : Nat} {n : Int} (h : fitsSigned width n = true)
    (rest : List UInt8) : takeInt width (writeInt width n ++ rest) = some (n, rest) := by
  rw [takeInt_append (length_writeInt width n), readInt_writeInt h]

theorem takeInt_write_append {width n : Nat} (h : 2 * n < span width) (rest : List UInt8) :
    takeInt width (write width n ++ rest) = some ((n : Int), rest) := by
  rw [← writeInt_natCast h, takeInt_writeInt_append (fitsSigned_natCast h)]

/-! ### Ranges -/

theorem span_le_span {width width' : Nat} (h : width ≤ width') : span width ≤ span width' :=
  Nat.pow_le_pow_right (by decide) (Nat.mul_le_mul_left 8 h)

theorem foldl_lt (n : Nat) (bytes : List UInt8) :
    bytes.foldl (fun n b => n * 256 + b.toNat) n < (n + 1) * span bytes.length := by
  induction bytes generalizing n with
  | nil => exact Nat.lt_of_lt_of_eq n.lt_succ_self (Nat.mul_one _).symm
  | cons b bs ih =>
    have hb : b.toNat < 256 := b.toNat_lt
    rw [List.foldl_cons, List.length_cons, span_succ, ← Nat.mul_assoc]
    exact Nat.lt_of_lt_of_le (ih _) (Nat.mul_le_mul_right _ (by omega))

theorem read_lt (bytes : List UInt8) : read bytes < span bytes.length :=
  Nat.lt_of_lt_of_eq (foldl_lt 0 bytes) (Nat.one_mul _)

/-- The integer that bytes stand for fits a word of that many bytes. -/
theorem fitsSigned_readInt (bytes : List UInt8) :
    fitsSigned bytes.length (readInt bytes) = true := by
  have hread := read_lt bytes
  rw [fitsSigned, Bool.and_eq_true, decide_eq_true_eq, decide_eq_true_eq]
  unfold readInt
  dsimp only
  split <;> omega

/-- A wider word holds what a narrower one does. -/
theorem fitsSigned_of_le {width width' : Nat} (hwidth : width ≤ width') {n : Int}
    (h : fitsSigned width n = true) : fitsSigned width' n = true := by
  have hspan := span_le_span hwidth
  simp only [fitsSigned, Bool.and_eq_true, decide_eq_true_eq] at h ⊢
  omega

end CriteriaSql.Wire.BigEndian

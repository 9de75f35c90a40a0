/-
CriteriaSql/Text/Hex.lean

Bytes as pairs of hexadecimal digits.

Main statement: the bytes read back from their digits (`parse?_write`).
-/
import CriteriaSql.Json.Parser
import CriteriaSql.Json.Printer

namespace CriteriaSql.Text.Hex

open Json (hexDigit hexValue?)

/-- Two lower-case digits for each byte. -/
def write : List UInt8 → List Char
  | [] => []
  | b :: bs => hexDigit (b.toNat / 16) :: hexDigit (b.toNat % 16) :: write bs

/-- The bytes that pairs of digits in either case stand for. -/
def parse? : List Char → Option (List UInt8)
  | [] => some []
  | a :: b :: cs => do
    let high ← hexValue? a
    let low ← hexValue? b
    let bytes ← parse? cs
    return UInt8.ofNat (high * 16 + low) :: bytes
  | [_] => none

theorem hexValue?_hexDigit {n : Nat} (h : n < 16) : hexValue? (hexDigit n) = some n := by
  have all : ∀ m ∈ List.range 16, hexValue? (hexDigit m) = some m := by decide
  exact all n (List.mem_range.mpr h)

theorem length_write (bytes : List UInt8) : (write bytes).length = 2 * bytes.length := by
  induction bytes with
  | nil => rfl
  | cons b bs ih => rw [write, List.length_cons, List.length_cons, ih, List.length_cons]; omega

/-- The digits of bytes read back as the bytes. -/
theorem parse?_write (bytes : List UInt8) : parse? (write bytes) = some bytes := by
  induction bytes with
  | nil => rfl
  | cons b bs ih =>
    have hb : b.toNat < 256 := b.toNat_lt
    have high : b.toNat / 16 < 16 := by omega
    have low : b.toNat % 16 < 16 := by omega
    have sum : UInt8.ofNat (b.toNat / 16 * 16 + b.toNat % 16) = b := by
      rw [show b.toNat / 16 * 16 + b.toNat % 16 = b.toNat by omega]
      exact UInt8.ofNat_toNat
    simp only [write, parse?, hexValue?_hexDigit high, hexValue?_hexDigit low, ih]
    exact congrArg (fun x => some (x :: bs)) sum

end CriteriaSql.Text.Hex

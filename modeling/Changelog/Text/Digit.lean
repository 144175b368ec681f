import Changelog.Text.Basic

/-! # Decimal digits

Digits of every script come in groups of ten consecutive code points, from zero to nine. A number is
written and read only up to a fixed number of digits.
-/

namespace Changelog

/-- The digit zero of every script. -/
def digitZeros : List Nat := [
    0x30, 0x660, 0x6f0, 0x7c0, 0x966, 0x9e6, 0xa66, 0xae6, 0xb66, 0xbe6, 0xc66, 0xce6, 0xd66, 0xde6, 0xe50, 0xed0,
    0xf20, 0x1040, 0x1090, 0x17e0, 0x1810, 0x1946, 0x19d0, 0x1a80, 0x1a90, 0x1b50, 0x1bb0, 0x1c40, 0x1c50, 0xa620,
    0xa8d0, 0xa900, 0xa9d0, 0xa9f0, 0xaa50, 0xabf0, 0xff10, 0x104a0, 0x10d30, 0x11066, 0x110f0, 0x11136, 0x111d0,
    0x112f0, 0x11450, 0x114d0, 0x11650, 0x116c0, 0x11730, 0x118e0, 0x11950, 0x11c50, 0x11d50, 0x11da0, 0x16a60,
    0x16ac0, 0x16b50, 0x1d7ce, 0x1d7d8, 0x1d7e2, 0x1d7ec, 0x1d7f6, 0x1e140, 0x1e2f0, 0x1e950, 0x1fbf0]

def digitValue? (c : Char) : Option Nat :=
  (digitZeros.find? fun first => first ≤ c.toNat && c.toNat ≤ first + 9).map (c.toNat - ·)

def isDecimalDigit (c : Char) : Bool := (digitValue? c).isSome

/-- One of the digits `0` to `9`. -/
def isPlainDigit (c : Char) : Bool := '0'.toNat ≤ c.toNat && c.toNat ≤ '9'.toNat

/-- The largest number of digits with which a number is read or written, be it in a version, a log or a data file.
    Prerelease identifiers that are only compared may be longer. -/
def maxNumberDigits : Nat := 4300

namespace Text

/-- The number that a run of digits stands for; other characters count as zero. -/
def digitsValue (digits : Text) : Nat := digits.foldl (fun n c => 10 * n + (digitValue? c).getD 0) 0

end Text

theorem isDecimalDigit_of_isPlainDigit {c : Char} (h : isPlainDigit c) : isDecimalDigit c := by
  simp only [isPlainDigit, Bool.and_eq_true, decide_eq_true_eq] at h
  have : (0x30 ≤ c.toNat && c.toNat ≤ 0x30 + 9) = true := by
    simp only [Bool.and_eq_true, decide_eq_true_eq]
    exact ⟨h.1, h.2⟩
  simp [isDecimalDigit, digitValue?, digitZeros, this]

end Changelog

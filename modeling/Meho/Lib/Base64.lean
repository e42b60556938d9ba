import Mathlib.Data.List.Basic
import Mathlib.Tactic.IntervalCases

/- The base64 alphabet that is safe in a URL.

Three bytes are four digits of six bits; a last group of one or two bytes is
padded with `=`. The reader is strict: digits and complete groups only, and
nothing behind the padding. It takes the digits of either alphabet. -/
namespace Meho.Lib

/-- The digit of six bits. -/
def base64Digit (v : Nat) : Char :=
  if v < 26 then Char.ofNat (65 + v)
  else if v < 52 then Char.ofNat (97 + (v - 26))
  else if v < 62 then Char.ofNat (48 + (v - 52))
  else if v = 62 then '-'
  else '_'

def base64Value (c : Char) : Option Nat :=
  if 'A' ≤ c ∧ c ≤ 'Z' then some (c.toNat - 65)
  else if 'a' ≤ c ∧ c ≤ 'z' then some (c.toNat - 97 + 26)
  else if '0' ≤ c ∧ c ≤ '9' then some (c.toNat - 48 + 52)
  else if c = '-' ∨ c = '+' then some 62
  else if c = '_' ∨ c = '/' then some 63
  else none

def base64Encode : List UInt8 → List Char
  | a :: b :: c :: rest =>
    base64Digit (a.toNat / 4) :: base64Digit (a.toNat % 4 * 16 + b.toNat / 16) ::
      base64Digit (b.toNat % 16 * 4 + c.toNat / 64) :: base64Digit (c.toNat % 64) ::
      base64Encode rest
  | [a, b] =>
    [base64Digit (a.toNat / 4), base64Digit (a.toNat % 4 * 16 + b.toNat / 16),
      base64Digit (b.toNat % 16 * 4), '=']
  | [a] => [base64Digit (a.toNat / 4), base64Digit (a.toNat % 4 * 16), '=', '=']
  | [] => []

/-- The first byte of a group, from its first two digits. -/
def firstByte (a b : Nat) : UInt8 := UInt8.ofNat (a * 4 + b / 16)

def secondByte (b c : Nat) : UInt8 := UInt8.ofNat (b % 16 * 16 + c / 4)

def thirdByte (c d : Nat) : UInt8 := UInt8.ofNat (c % 4 * 64 + d)

def base64Decode : List Char → Option (List UInt8)
  | [] => some []
  | a :: b :: c :: d :: rest =>
    match base64Value a, base64Value b with
    | some a, some b =>
      if c = '=' ∧ d = '=' ∧ rest = [] then some [firstByte a b]
      else
        match base64Value c with
        | none => none
        | some c =>
          if d = '=' ∧ rest = [] then some [firstByte a b, secondByte b c]
          else
            match base64Value d, base64Decode rest with
            | some d, some bytes => some (firstByte a b :: secondByte b c :: thirdByte c d :: bytes)
            | _, _ => none
    | _, _ => none
  | _ => none

/-! ## Reading back -/

theorem base64Value_digit {v : Nat} (h : v < 64) : base64Value (base64Digit v) = some v := by
  interval_cases v <;> rfl

/-- A digit is not the padding. -/
theorem base64Digit_ne_pad {v : Nat} (h : v < 64) : base64Digit v ≠ '=' := by
  intro heq
  have hvalue := base64Value_digit h
  rw [heq] at hvalue
  cases hvalue

theorem firstByte_digits (a : UInt8) {low : Nat} (h : low < 16) :
    firstByte (a.toNat / 4) (a.toNat % 4 * 16 + low) = a := by
  have hbyte : a.toNat / 4 * 4 + (a.toNat % 4 * 16 + low) / 16 = a.toNat := by omega
  rw [firstByte, hbyte, UInt8.ofNat_toNat]

theorem secondByte_digits (b : UInt8) {high low : Nat} (h : low < 4) :
    secondByte (high * 16 + b.toNat / 16) (b.toNat % 16 * 4 + low) = b := by
  have hlt : b.toNat < 256 := b.toNat_lt
  have hbyte : (high * 16 + b.toNat / 16) % 16 * 16 + (b.toNat % 16 * 4 + low) / 4 = b.toNat := by
    omega
  rw [secondByte, hbyte, UInt8.ofNat_toNat]

theorem thirdByte_digits (c : UInt8) {high : Nat} :
    thirdByte (high * 4 + c.toNat / 64) (c.toNat % 64) = c := by
  have hlt : c.toNat < 256 := c.toNat_lt
  have hbyte : (high * 4 + c.toNat / 64) % 4 * 64 + c.toNat % 64 = c.toNat := by omega
  rw [thirdByte, hbyte, UInt8.ofNat_toNat]

/-- What was encoded reads back. -/
theorem base64Decode_encode (bytes : List UInt8) :
    base64Decode (base64Encode bytes) = some bytes := by
  induction bytes using base64Encode.induct with
  | case1 a b c rest ih =>
    have ha : a.toNat < 256 := a.toNat_lt
    have hb : b.toNat < 256 := b.toNat_lt
    have hc : c.toNat < 256 := c.toNat_lt
    have hthird := base64Digit_ne_pad (v := b.toNat % 16 * 4 + c.toNat / 64) (by omega)
    have hfourth := base64Digit_ne_pad (v := c.toNat % 64) (by omega)
    simp only [base64Encode, base64Decode, ih, hthird, hfourth, false_and, if_false]
    rw [base64Value_digit (by omega), base64Value_digit (by omega), base64Value_digit (by omega),
      base64Value_digit (by omega)]
    simp only [firstByte_digits a (show b.toNat / 16 < 16 by omega),
      secondByte_digits b (show c.toNat / 64 < 4 by omega), thirdByte_digits]
  | case2 a b =>
    have ha : a.toNat < 256 := a.toNat_lt
    have hb : b.toNat < 256 := b.toNat_lt
    have hthird := base64Digit_ne_pad (v := b.toNat % 16 * 4) (by omega)
    simp only [base64Encode, base64Decode, hthird, false_and, if_false, true_and, if_true]
    rw [base64Value_digit (by omega), base64Value_digit (by omega), base64Value_digit (by omega)]
    simp only [firstByte_digits a (show b.toNat / 16 < 16 by omega)]
    exact congrArg (fun byte => some [a, byte]) (secondByte_digits b (show 0 < 4 by decide))
  | case3 a =>
    have ha : a.toNat < 256 := a.toNat_lt
    simp only [base64Encode, base64Decode, true_and, if_true]
    rw [base64Value_digit (by omega), base64Value_digit (by omega)]
    exact congrArg (fun byte => some [byte]) (firstByte_digits a (show 0 < 16 by decide))
  | case4 => rfl

end Meho.Lib

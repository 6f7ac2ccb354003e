import Mathlib.Data.List.DropRight
import Mathlib.Data.List.Infix
import Byter.Sketch.Eeprom

/-!
# Strings as the web server sees them

The server works on the bytes of an Arduino `String`. The functions of `String` that it
calls are given here under their names; `-1`, which `indexOf` returns for a missing
character and which is read as a great `unsigned int` where it is passed on, is `none`. The
texts of the sketch are strings of Lean, with one character for each byte.
-/

namespace Byter

abbrev Bytes := List UInt8

/-- The bytes of a text whose characters are bytes. -/
def bytes (text : String) : Bytes := text.toList.map fun c => UInt8.ofNat c.toNat

def text (bs : Bytes) : String := String.ofList (bs.map fun b => Char.ofNat b.toNat)

def CR : UInt8 := 13

def LF : UInt8 := 10

/-! ## `String` -/

/-- What a function that stops at a `NUL` sees. -/
def cstr (s : Bytes) : Bytes := s.takeWhile (· ≠ 0)

def indexOf (s : Bytes) (c : UInt8) (start : ℕ) : Option ℕ :=
  if start ≥ s.length then none else ((cstr (s.drop start)).idxOf? c).map (· + start)

/-- The end may lie behind the string, and stand before the start. -/
def substring (s : Bytes) (left : ℕ) (right : Option ℕ) : Bytes :=
  let right := right.getD (max left s.length)
  let (left, right) := if left > right then (right, left) else (left, right)
  (s.drop left).take (right - left)

def isspace (c : UInt8) : Bool := c = 32 ∨ 9 ≤ c ∧ c ≤ 13

def trim (s : Bytes) : Bytes := (s.dropWhile isspace).rdropWhile isspace

def startsWith (s pre : Bytes) : Bool := pre.isPrefixOf s

def endsWith (s suf : Bytes) : Bool := suf.isSuffixOf s

def tolower (c : UInt8) : UInt8 := if 65 ≤ c ∧ c ≤ 90 then c + 32 else c

/-- The lengths are compared, and then the characters up to the first `NUL`. -/
def equalsIgnoreCase (s t : Bytes) : Bool :=
  s.length = t.length ∧ (cstr s).map tolower = (t.take (cstr s).length).map tolower

/-- `==` of a `String` and a literal, which has no `NUL`. -/
def isLiteral (s literal : Bytes) : Bool := cstr s = literal

/-- `atoi`, read as a `size_t`. -/
def atoi (s : Bytes) : ℕ := (atol (text s).toList % 4294967296).toNat

/-- The value of a hexadecimal digit. -/
def hexDigit (c : UInt8) : Option UInt8 :=
  if 48 ≤ c ∧ c ≤ 57 then some (c - 48)
  else if 97 ≤ c ∧ c ≤ 102 then some (c - 87)
  else if 65 ≤ c ∧ c ≤ 70 then some (c - 55)
  else none

/-- `strtol` to the base 16 of `0x` and two more characters. -/
def strtol (c d : UInt8) : UInt8 :=
  match hexDigit c with
  | none => 0
  | some h =>
      match hexDigit d with
      | none => h
      | some l => 16 * h + l

theorem cstr_of_not_mem {s : Bytes} (h : 0 ∉ s) : cstr s = s :=
  List.takeWhile_eq_self_iff.2 fun _ hb => decide_eq_true fun hzero => h (hzero ▸ hb)

theorem isLiteral_of_not_mem {s : Bytes} (h : 0 ∉ s) (literal : Bytes) :
    isLiteral s literal = decide (s = literal) := by
  rw [isLiteral, cstr_of_not_mem h]

/-! ## Texts and their bytes -/

@[simp] theorem bytes_append (s t : String) : bytes (s ++ t) = bytes s ++ bytes t := by
  simp [bytes]

end Byter

import Byter.Sketch.Memory

/-!
# The EEPROM object of the ESP8266 core

The core keeps one flash sector as an EEPROM: `begin` loads its first bytes into
a buffer, `put`, `get` and `write` work on the buffer, `commit` writes a changed
buffer to the sector, and `end` commits and drops the buffer. A commit takes its
outcome from a list of what the flash will do, and succeeds when that list is
used up. `esp` is what the sketch finds on the real chip; nothing general about
the sketch rests on it.
-/

namespace Byter

structure Eeprom where
  sector : List UInt8
  data : Option (List UInt8) := none
  dirty : Bool := false
  outcomes : List Bool := []
deriving DecidableEq, Repr

/-- The four bytes of a word, the lowest first. -/
def littleEndian (n : UInt32) : List UInt8 :=
  [UInt8.ofNat n.toNat, UInt8.ofNat (n.toNat / 256), UInt8.ofNat (n.toNat / 65536),
    UInt8.ofNat (n.toNat / 16777216)]

def wordOf : List UInt8 → UInt32
  | [b₀, b₁, b₂, b₃] =>
      UInt32.ofNat (b₀.toNat + 256 * b₁.toNat + 65536 * b₂.toNat + 16777216 * b₃.toNat)
  | _ => 0

theorem wordOf_littleEndian (n : UInt32) : wordOf (littleEndian n) = n := by
  have hlt := n.toNat_lt
  apply UInt32.toNat_inj.1
  simp only [littleEndian, wordOf, UInt8.toNat_ofNat', UInt32.toNat_ofNat']
  omega

theorem littleEndian_wordOf (b₀ b₁ b₂ b₃ : UInt8) :
    littleEndian (wordOf [b₀, b₁, b₂, b₃]) = [b₀, b₁, b₂, b₃] := by
  have h₀ := b₀.toNat_lt
  have h₁ := b₁.toNat_lt
  have h₂ := b₂.toNat_lt
  have h₃ := b₃.toNat_lt
  simp only [littleEndian, wordOf, List.cons.injEq, and_true, ← UInt8.toNat_inj,
    UInt8.toNat_ofNat', UInt32.toNat_ofNat']
  omega

/-- Four bytes are the bytes of a word exactly when they make up that word. -/
theorem wordOf_eq_iff (b₀ b₁ b₂ b₃ : UInt8) (n : UInt32) :
    wordOf [b₀, b₁, b₂, b₃] = n ↔ [b₀, b₁, b₂, b₃] = littleEndian n := by
  constructor
  · rintro rfl
    exact (littleEndian_wordOf b₀ b₁ b₂ b₃).symm
  · intro h
    rw [h, wordOf_littleEndian]

namespace Eeprom

/-- `begin`: the size is rounded up to whole words. Erased flash reads `FF`. -/
def load (size : ℕ) (e : Eeprom) : Eeprom :=
  if size = 0 then e
  else
    let size := (min size 4096 + 3) / 4 * 4
    { e with
      data := some ((List.range size).map fun i => e.sector.getD i 0xFF)
      dirty := false }

def put (addr : ℕ) (t : UInt32) (e : Eeprom) : Eeprom :=
  match e.data with
  | none => e
  | some data =>
      if addr + 4 ≤ data.length ∧ (data.drop addr).take 4 ≠ littleEndian t then
        { e with
          data := some (data.take addr ++ littleEndian t ++ data.drop (addr + 4))
          dirty := true }
      else e

def get (addr : ℕ) (e : Eeprom) : UInt32 :=
  match e.data with
  | none => 0
  | some data => wordOf ((data.drop addr).take 4)

def write (addr : ℕ) (val : UInt8) (e : Eeprom) : Eeprom :=
  match e.data with
  | none => e
  | some data =>
      if addr < data.length ∧ data.getD addr 0 ≠ val then
        { e with data := some (data.set addr val), dirty := true }
      else e

def commit (e : Eeprom) : Bool × Eeprom :=
  match e.data with
  | none => (false, e)
  | some data =>
      if e.dirty then
        match e.outcomes with
        | false :: outcomes => (false, { e with outcomes := outcomes })
        | outcomes =>
            (true,
              { e with
                sector := data ++ e.sector.drop data.length
                dirty := false
                outcomes := outcomes.tail })
      else (true, e)

/-- `end` -/
def close (e : Eeprom) : Bool × Eeprom :=
  let r := e.commit
  (r.1, { r.2 with data := none, dirty := false })

end Eeprom

/-- `atol` with saturation: blanks, a sign, and the digits that follow. -/
def atol (s : List Char) : Int :=
  let s := s.dropWhile fun c => c.toNat = 32 ∨ 9 ≤ c.toNat ∧ c.toNat ≤ 13
  let digits := fun s : List Char =>
    (s.takeWhile Char.isDigit).foldl (fun n c => 10 * n + ((c.toNat : Int) - 48)) 0
  let n :=
    match s with
    | '-' :: s => -digits s
    | '+' :: s => digits s
    | s => digits s
  max (-2147483648) (min 2147483647 n)

/-- The ESP8266 core. -/
def esp : Esp Eeprom where
  eepromBegin e size := e.load size
  eepromPut e addr t := e.put addr t
  eepromGet e addr := e.get addr
  eepromWrite e addr val := e.write addr val
  eepromCommit := Eeprom.commit
  eepromEnd := Eeprom.close
  toInt s := Int32.ofInt (atol s.toList)

/-- A flash sector that holds the count `n`. -/
def stored (n : UInt32) : Eeprom := ⟨0 :: littleEndian n ++ [0, 0, 0], none, false, []⟩

end Byter

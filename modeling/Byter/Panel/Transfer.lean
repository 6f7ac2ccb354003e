import Byter.Packet.Basic
import Byter.Panel.Picture

/-!
# The buffer on the wire

`display` sends the buffer over I2C in transmissions of at most `WIRE_MAX` bytes, each of
them behind a byte that says what follows. The `Wire` library keeps a transmission in a
buffer of its own and leaves out what does not fit. The panel is sent the commands that
set its address window and then the whole buffer, byte for byte.
-/

namespace Byter

open Raster Packet

/-- The calls of the `Wire` library. -/
inductive WireOp
  | beginTransmission (address : UInt8)
  | write (b : BitVec 8)
  | endTransmission
deriving DecidableEq, Repr

/-- What goes over the bus: the transmissions that have been ended, without the bytes for which
there was no room. -/
def bus (room : ℕ) : Option (UInt8 × List (BitVec 8)) → List WireOp →
    List (UInt8 × List (BitVec 8))
  | _, [] => []
  | _, .beginTransmission address :: ops => bus room (some (address, [])) ops
  | none, .write _ :: ops => bus room none ops
  | some (address, current), .write b :: ops =>
      bus room (some (address, if current.length < room then current ++ [b] else current)) ops
  | none, .endTransmission :: ops => bus room none ops
  | some t, .endTransmission :: ops => t :: bus room none ops

/-! ## The functions -/

/-- The loops of `ssd1306_commandList` and `display`, with the byte that begins a
transmission. -/
def sendLoop (wireMax : ℕ) (address : UInt8) (control : BitVec 8) :
    ℕ → List (BitVec 8) → List WireOp
  | _, [] => []
  | bytesOut, b :: bs =>
      if bytesOut ≥ wireMax then
        [.endTransmission, .beginTransmission address, .write control, .write b] ++
          sendLoop wireMax address control 2 bs
      else
        .write b :: sendLoop wireMax address control (bytesOut + 1) bs

def sendList (wireMax : ℕ) (address : UInt8) (control : BitVec 8) (bs : List (BitVec 8)) :
    List WireOp :=
  [.beginTransmission address, .write control] ++ sendLoop wireMax address control 1 bs ++
    [.endTransmission]

def ssd1306_commandList (wireMax : ℕ) (i2caddr : UInt8) (c : List (BitVec 8)) : List WireOp :=
  sendList wireMax i2caddr 0x00 c

def ssd1306_command1 (i2caddr : UInt8) (c : BitVec 8) : List WireOp :=
  [.beginTransmission i2caddr, .write 0x00, .write c, .endTransmission]

def SSD1306_COLUMNADDR : BitVec 8 := 0x21

def SSD1306_PAGEADDR : BitVec 8 := 0x22

def dlist1 : List (BitVec 8) := [SSD1306_PAGEADDR, 0, 0xFF, SSD1306_COLUMNADDR, 0]

variable {p : Panel}

/-- `display()` on an I2C bus. -/
def displayOps (wireMax : ℕ) (i2caddr : UInt8) (buffer : Buffer p) : List WireOp :=
  ssd1306_commandList wireMax i2caddr dlist1 ++
    ssd1306_command1 i2caddr (BitVec.ofNat 8 p.WIDTH - 1) ++
      sendList wireMax i2caddr 0x40 buffer.toList

/-! ## What goes over the bus -/

variable {wireMax room : ℕ} {address : UInt8} {control : BitVec 8}

theorem bus_sendLoop (hmax : 2 ≤ wireMax) (hroom : wireMax ≤ room) {current : List (BitVec 8)}
    (hcurrent : current.length ≤ wireMax) (bs : List (BitVec 8)) (ops : List WireOp) :
    bus room (some (address, current))
        (sendLoop wireMax address control current.length bs ++ .endTransmission :: ops) =
      (fill wireMax control current bs).map (fun t => (address, t)) ++ bus room none ops := by
  induction bs generalizing current with
  | nil => rfl
  | cons b bs ih =>
      rw [sendLoop, fill]
      by_cases hfull : wireMax ≤ current.length
      · have h0 : ([] : List (BitVec 8)).length < room := by
          rw [List.length_nil]
          omega
        have h1 : ([control] : List (BitVec 8)).length < room := by
          rw [List.length_singleton]
          omega
        rw [if_pos hfull, if_pos hfull]
        simp only [List.cons_append, List.nil_append, bus, if_pos h0, if_pos h1, List.map_cons]
        have hnext : [control, b].length ≤ wireMax := hmax
        exact congrArg _ (ih hnext)
      · have hlt : current.length < room := by omega
        have hnext : (current ++ [b]).length = current.length + 1 := by simp
        rw [if_neg hfull, if_neg hfull, List.cons_append, bus, if_pos hlt, ← hnext]
        exact ih (by omega)

theorem bus_sendList (hmax : 2 ≤ wireMax) (hroom : wireMax ≤ room) (address : UInt8)
    (control : BitVec 8) (bs : List (BitVec 8)) (ops : List WireOp) :
    bus room none (sendList wireMax address control bs ++ ops) =
      (fill wireMax control [control] bs).map (fun t => (address, t)) ++ bus room none ops := by
  have h0 : ([] : List (BitVec 8)).length < room := by
    rw [List.length_nil]
    omega
  simp only [sendList, List.cons_append, List.nil_append, List.append_assoc, bus, if_pos h0]
  exact bus_sendLoop hmax hroom (by simp; omega) bs ops

/-- What a list of transmissions carries behind a control byte. -/
def payload (control : BitVec 8) (ts : List (UInt8 × List (BitVec 8))) : List (BitVec 8) :=
  (ts.filter fun t => t.2.head? = some control).flatMap fun t => t.2.tail

theorem payload_append (ts ts' : List (UInt8 × List (BitVec 8))) :
    payload control (ts ++ ts') = payload control ts ++ payload control ts' := by
  rw [payload, List.filter_append, List.flatMap_append]
  rfl

theorem payload_fill_self (bs : List (BitVec 8)) :
    payload control ((fill wireMax control [control] bs).map fun t => (address, t)) = bs := by
  have hall : ((fill wireMax control [control] bs).map fun t => (address, t)).filter
      (fun t => t.2.head? = some control) =
        (fill wireMax control [control] bs).map fun t => (address, t) := by
    rw [List.filter_eq_self]
    intro t ht
    obtain ⟨u, hu, rfl⟩ := List.mem_map.1 ht
    exact decide_eq_true (head_of_mem_fill rfl hu)
  rw [payload, hall, List.flatMap_map]
  exact flatMap_tail_fill (List.cons_ne_nil _ _)

theorem payload_fill_of_ne {control' : BitVec 8} (hne : control ≠ control')
    (bs : List (BitVec 8)) :
    payload control' ((fill wireMax control [control] bs).map fun t => (address, t)) = [] := by
  have hnone : ((fill wireMax control [control] bs).map fun t => (address, t)).filter
      (fun t => t.2.head? = some control') = [] := by
    rw [List.filter_eq_nil_iff]
    intro t ht
    obtain ⟨u, hu, rfl⟩ := List.mem_map.1 ht
    rw [decide_eq_true_eq, head_of_mem_fill rfl hu, Option.some_inj]
    exact hne
  rw [payload, hnone]
  rfl

/-- `display()` sends the panel the window commands and then every byte of the buffer once and
in order, in transmissions that the `Wire` library has room for. -/
theorem display_transfer (hmax : 2 ≤ wireMax) (hroom : wireMax ≤ room) (buffer : Buffer p) :
    payload 0x00 (bus room none (displayOps wireMax address buffer)) =
        dlist1 ++ [BitVec.ofNat 8 p.WIDTH - 1] ∧
      payload 0x40 (bus room none (displayOps wireMax address buffer)) = buffer.toList ∧
      ∀ t ∈ bus room none (displayOps wireMax address buffer),
        t.1 = address ∧ t.2.length ≤ wireMax := by
  have hsplit : bus room none (displayOps wireMax address buffer) =
      (fill wireMax 0x00 [0x00] dlist1).map (fun t => (address, t)) ++
        ([(address, [0x00, BitVec.ofNat 8 p.WIDTH - 1])] ++
          (fill wireMax 0x40 [0x40] buffer.toList).map fun t => (address, t)) := by
    have h0 : ([] : List (BitVec 8)).length < room := by
      rw [List.length_nil]
      omega
    have h1 : ([0x00] : List (BitVec 8)).length < room := by
      rw [List.length_singleton]
      omega
    have hdata := bus_sendList hmax hroom address 0x40 buffer.toList []
    rw [List.append_nil, bus, List.append_nil] at hdata
    rw [displayOps, ssd1306_commandList, List.append_assoc, bus_sendList hmax hroom]
    congr 1
    simp only [ssd1306_command1, List.cons_append, List.nil_append, bus, if_pos h0, if_pos h1,
      hdata]
  rw [hsplit]
  refine ⟨?_, ?_, ?_⟩
  · rw [payload_append, payload_append, payload_fill_self, payload_fill_of_ne (by decide),
      List.append_nil]
    rfl
  · rw [payload_append, payload_append, payload_fill_self, payload_fill_of_ne (by decide)]
    rfl
  · intro t ht
    have hfill : ∀ {c : BitVec 8} {bs}, t ∈ (fill wireMax c [c] bs).map (fun t => (address, t)) →
        t.1 = address ∧ t.2.length ≤ wireMax := by
      intro c bs ht
      obtain ⟨u, hu, rfl⟩ := List.mem_map.1 ht
      refine ⟨rfl, length_le_of_mem_fill hmax ?_ hu⟩
      rw [List.length_singleton]
      omega
    obtain ht | ht := List.mem_append.1 ht
    · exact hfill ht
    · obtain ht | ht := List.mem_append.1 ht
      · obtain rfl := List.mem_singleton.1 ht
        exact ⟨rfl, hmax⟩
      · exact hfill ht

theorem display_transfer_cleared :
    payload 0x40 (bus 128 none (displayOps 32 0x3C (clearDisplay oled))) =
      (clearDisplay oled).toList :=
  (display_transfer (by decide) (by decide) (clearDisplay oled)).2.1

end Byter

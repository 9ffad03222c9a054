import Mathlib.Data.List.GetD
import IqrfDaemon.Serializer.Hex

/-!
# Tasks of the DPA library

The serializers create task objects of the DPA library and set their request.
The library is a parameter: its constants, its fresh objects and its setters.
`Documented` collects what the serializers rely on.
-/

namespace IqrfDaemon.Serializer

open Json

abbrev Word := BitVec 16

/-- A DPA message: the memory of its packet and the length of the packet. -/
structure DpaMessage where
  buffer : ℕ → Byte
  length : ℤ

namespace DpaMessage

def bytes (m : DpaMessage) : List Byte := (List.range m.length.toNat).map m.buffer

/-- Bytes stored from an offset on. -/
def store (m : DpaMessage) (offset : ℕ) (stored : List Byte) : DpaMessage :=
  { m with
    buffer := fun i ↦
      if i < offset then m.buffer i else stored.getD (i - offset) (m.buffer i) }

theorem store_buffer_lt (m : DpaMessage) {offset i : ℕ} (stored : List Byte) (h : i < offset) :
    (m.store offset stored).buffer i = m.buffer i := if_pos h

theorem store_buffer_add (m : DpaMessage) (offset : ℕ) {stored : List Byte} {i : ℕ}
    (h : i < stored.length) : (m.store offset stored).buffer (offset + i) = stored[i] := by
  have hge : ¬offset + i < offset := by omega
  simp only [store, if_neg hge, Nat.add_sub_cancel_left, List.getD_eq_getElem _ _ h]

end DpaMessage

/-- A task object, as far as the serializers read it back. -/
structure DpaTask (Rest : Type) where
  request : DpaMessage
  timeout : ℤ
  rest : Rest

structure DpaLibrary where
  Rest : Type
  maxDpaBuffer : ℤ
  dpaMaxDataLength : ℤ
  rawName : String
  thermometerName : String
  ledGName : String
  ledRName : String
  frcName : String
  ioName : String
  osName : String
  dpaRaw : DpaTask Rest
  prfThermometer : DpaTask Rest
  prfLedG : DpaTask Rest
  prfLedR : DpaTask Rest
  setAddress : Word → DpaTask Rest → DpaTask Rest
  setHwpid : Word → DpaTask Rest → DpaTask Rest
  parseCommand : String → DpaTask Rest → Except Failure (DpaTask Rest)
  setTimeout : ℤ → DpaTask Rest → DpaTask Rest
  setClid : String → DpaTask Rest → DpaTask Rest
  setLength : ℤ → DpaMessage → DpaMessage

/-! ## The layout of a packet -/

def nadrOffset : ℕ := 0
def pnumOffset : ℕ := 2
def pcmdOffset : ℕ := 3
def hwpidOffset : ℕ := 4

/-- `sizeof(TDpaIFaceHeader)`, where the data of a request starts. -/
def headerSize : ℕ := 6

/-- The two bytes of a word, the lower first. -/
def littleEndian (w : Word) : List Byte := [w.setWidth 8, (w >>> 8).setWidth 8]

/-- What the serializers rely on.  The names are distinct, as the factory refuses to
register one twice. -/
structure DpaLibrary.Documented (lib : DpaLibrary) : Prop where
  raw_name : lib.rawName = "raw"
  names_nodup : [lib.rawName, "raw-hdp", lib.thermometerName, lib.ledGName, lib.ledRName,
    lib.frcName, lib.ioName, lib.osName].Nodup
  buffer_nonneg : 0 ≤ lib.maxDpaBuffer
  data_fits : headerSize + lib.dpaMaxDataLength ≤ lib.maxDpaBuffer
  setAddress_request : ∀ nadr task, (lib.setAddress nadr task).request =
    task.request.store nadrOffset (littleEndian nadr)
  setHwpid_request : ∀ hwpid task, (lib.setHwpid hwpid task).request =
    task.request.store hwpidOffset (littleEndian hwpid)
  setTimeout_request : ∀ t task, (lib.setTimeout t task).request = task.request
  setTimeout_timeout : ∀ t task, (lib.setTimeout t task).timeout = t
  setLength_buffer : ∀ n m, (lib.setLength n m).buffer = m.buffer
  setLength_length : ∀ n m, 0 ≤ n → n ≤ lib.maxDpaBuffer → (lib.setLength n m).length = n

/-- A library that keeps nothing beyond the request and the timeout. -/
def plainLibrary : DpaLibrary where
  Rest := Unit
  maxDpaBuffer := 64
  dpaMaxDataLength := 56
  rawName := "raw"
  thermometerName := "thermometer"
  ledGName := "ledg"
  ledRName := "ledr"
  frcName := "frc"
  ioName := "io"
  osName := "os"
  dpaRaw := ⟨⟨fun _ ↦ 0, 0⟩, -1, ()⟩
  prfThermometer := ⟨⟨fun _ ↦ 0, 0⟩, -1, ()⟩
  prfLedG := ⟨⟨fun _ ↦ 0, 0⟩, -1, ()⟩
  prfLedR := ⟨⟨fun _ ↦ 0, 0⟩, -1, ()⟩
  setAddress nadr task :=
    { task with request := task.request.store nadrOffset (littleEndian nadr) }
  setHwpid hwpid task :=
    { task with request := task.request.store hwpidOffset (littleEndian hwpid) }
  parseCommand _ task := .ok task
  setTimeout t task := { task with timeout := t }
  setClid _ task := task
  setLength n m := { m with length := n }

theorem plainLibrary_documented : plainLibrary.Documented where
  raw_name := rfl
  names_nodup := by decide
  buffer_nonneg := by decide
  data_fits := by decide
  setAddress_request _ _ := rfl
  setHwpid_request _ _ := rfl
  setTimeout_request _ _ := rfl
  setTimeout_timeout _ _ := rfl
  setLength_buffer _ _ := rfl
  setLength_length _ _ _ _ := rfl

end IqrfDaemon.Serializer

import Mathlib.Data.BitVec
import IqrfDaemon.Serializer.DpaTask

/-!
# Pulse meters

The requests to a pulse meter and what `PrfPulseMeter` keeps of its responses.
A response is read at fixed places, and its own length byte says how far the
check sum of the counters goes, so every read is recorded.
-/

namespace IqrfDaemon.PulseMeter

open Serializer

inductive Cmd
  | readCounters
  | storeCounter
  | disableAutoSleep
  deriving DecidableEq

def Cmd.pcmd : Cmd → Byte
  | readCounters => 0
  | storeCounter => 1
  | disableAutoSleep => 2

inductive CntNum
  | cnt1
  | cnt2
  deriving DecidableEq

def CntNum.toByte : CntNum → Byte
  | cnt1 => 1
  | cnt2 => 2

/-- The request with its `PData`, and what is kept of the responses.  Temperature and voltages are
not scaled, and there are none before the first response. -/
structure PrfPulseMeter where
  cmd : Cmd := .readCounters
  pData : List Byte := []
  thermometerType : Byte := 1
  temperature : Option Word := none
  powerVoltageType : Byte := 1
  powerVoltage : Option Word := none
  iqrfSuplyVoltage : Option Byte := none
  rssi : ℤ := 0
  cntlen : ℤ := 0
  cnts : ℤ := 0
  cnt1 : BitVec 32 := 0
  cnt2 : BitVec 32 := 0
  cntsum : Byte := 0xff
  datasum : Byte := 0xff
  storeCounterResult : Bool := false
  disableAutosleepResult : Bool := false

namespace PrfPulseMeter

/-! ## Requests -/

/-- A command sets `PData` up to the length of the request. -/
def command (cmd : Cmd) (pData : List Byte) (m : PrfPulseMeter) : PrfPulseMeter :=
  { m with cmd := cmd, pData := pData }

/-- The time is sent in units of 2.097 seconds. -/
def commandReadCounters (sec : ℕ) : PrfPulseMeter → PrfPulseMeter :=
  let tm : Word := BitVec.ofNat 16 (sec * 1000 / 2097)
  command .readCounters [tm.setWidth 8, (tm >>> 8).setWidth 8]

def commandStoreCounter (cntNum : CntNum) (value : BitVec 32) : PrfPulseMeter → PrfPulseMeter :=
  let p₄ : Byte := (value &&& 0xff).setWidth 8
  let value := value >>> 8
  let p₃ : Byte := (value &&& 0xff).setWidth 8
  let value := value >>> 8
  let p₂ : Byte := (value &&& 0xff).setWidth 8
  let value := value >>> 8
  let p₁ : Byte := (value &&& 0xff).setWidth 8
  let sum : Byte := 0xff - (p₁ + 0x01) - (p₁ + 0x01) - (p₁ + 0x01) - (p₁ + 0x01)
  command .storeCounter [cntNum.toByte, p₁, p₂, p₃, p₄, sum]

def commandDisableAutosleep (enable : Bool) : PrfPulseMeter → PrfPulseMeter :=
  command .disableAutoSleep [if enable then 0 else 1]

end PrfPulseMeter

/-! ## Responses -/

/-- What is read of the payload of a response is recorded by its index. -/
abbrev Reading := StateM (List ℕ)

@[simp]
theorem reading_pure_apply {α : Type} (a : α) (log : List ℕ) :
    (pure a : Reading α) log = (a, log) := rfl

@[simp]
theorem reading_bind_apply {α β : Type} (x : Reading α) (f : α → Reading β) (log : List ℕ) :
    (x >>= f) log = f (x log).1 (x log).2 := rfl

section Parsers

variable (p : ℕ → Byte)

def load (i : ℕ) : Reading Byte := fun log ↦ (p i, log ++ [i])

@[simp]
theorem load_apply (i : ℕ) (log : List ℕ) : load p i log = (p i, log ++ [i]) := rfl

/-- A byte is shifted into an `int`; what leaves it is dropped. -/
def shiftIn (cnt : BitVec 32) (b : Byte) : BitVec 32 := (cnt <<< 8) ||| b.setWidth 32

/-- The four bytes of `m_cnt1` or `m_cnt2`, the last one first. -/
def readCounter (offset : ℕ) : Reading (BitVec 32) := do
  let cnt := (← load p (offset + 3)).setWidth 32
  let cnt := shiftIn cnt (← load p (offset + 2))
  let cnt := shiftIn cnt (← load p (offset + 1))
  return shiftIn cnt (← load p offset)

def sumLoop : List ℕ → Byte → Reading Byte
  | [], sum => return sum
  | i :: rest, sum => do
      let b ← load p i
      sumLoop rest (sum - (b - 1))

/-- The case `READ_COUNTERS` of `parseResponse`. -/
def parseCounters (m : PrfPulseMeter) : Reading PrfPulseMeter := do
  let thermometerType ← load p 0
  let temperature : Word := (← load p 1) ++ (← load p 2)
  let powerVoltageType ← load p 3
  let powerVoltage : Word := (← load p 4) ++ (← load p 5)
  let iqrfSuplyVoltage ← load p 6
  let rssi := -130 + ((← load p 7).toNat : ℤ)
  let cntlen ← load p 8
  let cnts ← load p 9
  let cnt1 ← readCounter p 10
  let cnt2 ← readCounter p 14
  let cntsum ← load p 18
  let datasum ← load p 19
  let countedCntsum ← sumLoop p (List.range' 9 (cntlen.toNat - 1)) 0xff
  let countedDatasum ← sumLoop p (List.range 19) 0xff
  return { m with
    thermometerType, temperature := some temperature, powerVoltageType
    powerVoltage := some powerVoltage, iqrfSuplyVoltage := some iqrfSuplyVoltage, rssi
    cntlen := cntlen.toNat, cnts := cnts.toNat, cnt1, cnt2
    cntsum := cntsum ^^^ countedCntsum, datasum := datasum ^^^ countedDatasum }

/-- `parseResponse`, by the command of the last request.  The length of the response is not looked
at. -/
def PrfPulseMeter.parseResponse (m : PrfPulseMeter) : Reading PrfPulseMeter :=
  match m.cmd with
  | .readCounters => parseCounters p m
  | .storeCounter => do
      let result ← load p 0
      return { m with storeCounterResult := result ≠ 0 }
  | .disableAutoSleep => do
      let result ← load p 0
      return { m with disableAutosleepResult := result ≠ 0 }

end Parsers

/-- `getCounter` returns an `int`. -/
def PrfPulseMeter.getCounter (m : PrfPulseMeter) : CntNum → ℤ
  | .cnt1 => m.cnt1.toInt
  | .cnt2 => m.cnt2.toInt

end IqrfDaemon.PulseMeter

import IqrfDaemon.Rapidjson.Reader

/-!
# The pretty writer of rapidjson

`PrettyWriter` over a string buffer with the default flags and format, and
`GenericValue::Accept`, which sends it the events of a value.  An event is declined
when a number is not finite; what was put before it stays in the buffer.  A violated
assertion aborts.
-/

namespace IqrfDaemon.Rapidjson

open Json Grammar Text

/-- `rapidjson::Type`. -/
inductive Kind
  | null
  | false_
  | true_
  | object
  | array
  | string
  | number
  deriving DecidableEq, Repr

/-- The number of values in a level, names included, and whether it is an array. -/
structure Level where
  valueCount : ℕ
  inArray : Bool
  deriving DecidableEq, Repr

structure PrettyWriter where
  os : List Char
  levelStack : List Level
  hasRoot : Bool
  deriving DecidableEq, Repr

/-- An event that is declined, with the writer as it is left, or a violated assertion. -/
inductive Stop
  | declined (w : PrettyWriter)
  | abort
  deriving DecidableEq, Repr

abbrev Handled := Except Stop PrettyWriter

namespace PrettyWriter

def put (w : PrettyWriter) (s : List Char) : PrettyWriter := { w with os := w.os ++ s }

@[simp] theorem put_put (w : PrettyWriter) (s t : List Char) :
    (w.put s).put t = w.put (s ++ t) := by
  simp [put]

@[simp] theorem put_nil (w : PrettyWriter) : w.put [] = w := by
  simp [put]

@[simp] theorem put_os (w : PrettyWriter) (s : List Char) : (w.put s).os = w.os ++ s := rfl

@[simp] theorem put_levelStack (w : PrettyWriter) (s : List Char) :
    (w.put s).levelStack = w.levelStack := rfl

@[simp] theorem put_hasRoot (w : PrettyWriter) (s : List Char) :
    (w.put s).hasRoot = w.hasRoot := rfl

def indent (depth : ℕ) : List Char := List.replicate (depth * 4) ' '

def writeIndent (w : PrettyWriter) : PrettyWriter := w.put (indent w.levelStack.length)

def prettyPrefix (w : PrettyWriter) (type : Kind) : Handled :=
  match w.levelStack with
  | level :: levels =>
      let w :=
        if level.inArray then
          let w := if 0 < level.valueCount then w.put [','] else w
          (w.put ['\n']).writeIndent
        else
          let w :=
            if 0 < level.valueCount then
              if level.valueCount % 2 = 0 then (w.put [',']).put ['\n']
              else (w.put [':']).put [' ']
            else w.put ['\n']
          if level.valueCount % 2 = 0 then w.writeIndent else w
      -- the even values of an object are its names
      if level.inArray = false ∧ level.valueCount % 2 = 0 ∧ type ≠ .string then .error .abort
      else .ok { w with levelStack := { level with valueCount := level.valueCount + 1 } :: levels }
  | [] => if w.hasRoot then .error .abort else .ok { w with hasRoot := true }

/-! ## Writing values -/

def writeNull (w : PrettyWriter) : PrettyWriter := w.put ['n', 'u', 'l', 'l']

def writeBool (w : PrettyWriter) (b : Bool) : PrettyWriter :=
  if b then w.put ['t', 'r', 'u', 'e'] else w.put ['f', 'a', 'l', 's', 'e']

/-- `WriteInt`, `WriteUint`, `WriteInt64` and `WriteUint64`, which print the same digits. -/
def writeInteger (w : PrettyWriter) (n : ℤ) : PrettyWriter := w.put (toString n).toList

/-- A double, by the text it was read from. -/
def writeDouble (dbl : Doubles) (w : PrettyWriter) (text : String) : Handled :=
  match dbl.dtoa text with
  | some buffer => .ok (w.put buffer)
  | none => .error (.declined w)

def hexDigits : List Char :=
  ['0', '1', '2', '3', '4', '5', '6', '7', '8', '9', 'A', 'B', 'C', 'D', 'E', 'F']

/-- The table `escape`, whose zeros are the characters that stand for themselves. -/
def escape (c : Char) : Option Char :=
  if c = '\x08' then some 'b'
  else if c = '\t' then some 't'
  else if c = '\n' then some 'n'
  else if c = '\x0c' then some 'f'
  else if c = '\r' then some 'r'
  else if c.toNat < 0x20 then some 'u'
  else if c = '"' then some '"'
  else if c = '\\' then some '\\'
  else none

def escapedText (c : Char) : List Char :=
  match escape c with
  | some e =>
      '\\' :: e :: if e = 'u' then
        ['0', '0', hexDigits.getD (c.toNat >>> 4) '0', hexDigits.getD (c.toNat &&& 0xF) '0']
      else []
  | none => [c]

def writeString (w : PrettyWriter) (str : String) : PrettyWriter :=
  w.put ('"' :: str.toList.flatMap escapedText ++ ['"'])

/-! ## Events -/

def null (w : PrettyWriter) : Handled := (w.prettyPrefix .null).map writeNull

def bool (w : PrettyWriter) (b : Bool) : Handled :=
  (w.prettyPrefix (if b then .true_ else .false_)).map (·.writeBool b)

/-- `Int`, `Uint`, `Int64` and `Uint64`. -/
def integer (w : PrettyWriter) (n : ℤ) : Handled := (w.prettyPrefix .number).map (·.writeInteger n)

def double (dbl : Doubles) (w : PrettyWriter) (text : String) : Handled := do
  let w ← w.prettyPrefix .number
  w.writeDouble dbl text

def string (w : PrettyWriter) (str : String) : Handled :=
  (w.prettyPrefix .string).map (·.writeString str)

def key (w : PrettyWriter) (str : String) : Handled := w.string str

def push (w : PrettyWriter) (inArray : Bool) : PrettyWriter :=
  { w with levelStack := ⟨0, inArray⟩ :: w.levelStack }

def startObject (w : PrettyWriter) : Handled :=
  (w.prettyPrefix .object).map fun w ↦ (w.push false).put ['{']

def startArray (w : PrettyWriter) : Handled :=
  (w.prettyPrefix .array).map fun w ↦ (w.push true).put ['[']

/-- `EndObject` and `EndArray`: the level goes, and what is not empty is closed on a new line. -/
def endLevel (w : PrettyWriter) (inArray : Bool) (bracket : Char) : Handled :=
  match w.levelStack with
  | level :: levels =>
      if level.inArray = inArray then
        let w := { w with levelStack := levels }
        let w := if level.valueCount = 0 then w else (w.put ['\n']).writeIndent
        .ok (w.put [bracket])
      else .error .abort
  | [] => .error .abort

def endObject (w : PrettyWriter) : Handled := w.endLevel false '}'

def endArray (w : PrettyWriter) : Handled := w.endLevel true ']'

end PrettyWriter

open PrettyWriter

/-! ## Accepting -/

mutual

/-- `Accept` of a pretty writer. -/
def accept (dbl : Doubles) : Value → PrettyWriter → Handled
  | .null, w => w.null
  | .bool b, w => w.bool b
  | .object members, w => do
      let w ← w.startObject
      let w ← acceptMembers dbl members w
      w.endObject
  | .array items, w => do
      let w ← w.startArray
      let w ← acceptItems dbl items w
      w.endArray
  | .string str, w => w.string str
  | .real text, w => w.double dbl text
  | .int n, w => w.integer n

def acceptMembers (dbl : Doubles) : List (String × Value) → PrettyWriter → Handled
  | [], w => .ok w
  | (name, v) :: members, w => do
      let w ← w.key name
      let w ← accept dbl v w
      acceptMembers dbl members w

def acceptItems (dbl : Doubles) : List Value → PrettyWriter → Handled
  | [], w => .ok w
  | v :: items, w => do
      let w ← accept dbl v w
      acceptItems dbl items w

end

def emptyWriter : PrettyWriter := ⟨[], [], false⟩

/-- The text in the buffer after `Accept`, whose result nobody looks at.  It is read up to the
first NUL character. -/
def prettyWriter (dbl : Doubles) (v : Value) : Except Failure String :=
  match accept dbl v emptyWriter with
  | .ok w => .ok (cString (String.ofList w.os))
  | .error (.declined w) => .ok (cString (String.ofList w.os))
  | .error .abort => .error .abort

end IqrfDaemon.Rapidjson

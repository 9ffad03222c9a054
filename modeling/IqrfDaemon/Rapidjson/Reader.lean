import IqrfDaemon.Json.Grammar

/-!
# The reader of rapidjson

`GenericReader` with the default flags over a text of bytes, each function by the
characters that are left of the text.  A parse error keeps the characters left
where it is reported, so that its offset is counted from the text.  The handler is
the document, which builds the value and never declines an event.  Recursion on
values is bounded by a fuel, which `parse` supplies; running out of it would be
reported as a termination.
-/

namespace IqrfDaemon.Rapidjson

open Json Grammar Text

/-! ## Errors -/

inductive ParseErrorCode
  | none
  | documentEmpty
  | documentRootNotSingular
  | valueInvalid
  | objectMissName
  | objectMissColon
  | objectMissCommaOrCurlyBracket
  | arrayMissCommaOrSquareBracket
  | stringUnicodeEscapeInvalidHex
  | stringUnicodeSurrogateInvalid
  | stringEscapeInvalid
  | stringMissQuotationMark
  | stringInvalidEncoding
  | numberTooBig
  | numberMissFraction
  | numberMissExponent
  | termination
  | unspecificSyntaxError
  deriving DecidableEq, Repr

/-- An error and what is left of the text from where it is reported. -/
structure ParseError where
  code : ParseErrorCode
  left : List Char
  deriving DecidableEq, Repr

abbrev Result : Type → Type := Except ParseError

def fail {α : Type} (code : ParseErrorCode) (left : List Char) : Result α :=
  .error ⟨code, left⟩

/-! ## Blanks and literals -/

def skipWhitespace (is : List Char) : List Char := is.dropWhile isBlank

/-- `ParseNull`, `ParseTrue` and `ParseFalse` behind their first character. -/
def parseLiteral (v : Value) : List Char → List Char → Result (Value × List Char)
  | [], is => .ok (v, is)
  | _ :: _, [] => fail .valueInvalid []
  | c :: expected, d :: is =>
      if d = c then parseLiteral v expected is else fail .valueInvalid (d :: is)

def parseNull : List Char → Result (Value × List Char) := parseLiteral .null ['u', 'l', 'l']

def parseTrue : List Char → Result (Value × List Char) :=
  parseLiteral (.bool true) ['r', 'u', 'e']

def parseFalse : List Char → Result (Value × List Char) :=
  parseLiteral (.bool false) ['a', 'l', 's', 'e']

/-! ## Strings -/

/-- `UTF8::Encode`. -/
def encode (codepoint : ℕ) : List Char :=
  List.map Char.ofNat <|
    if codepoint ≤ 0x7F then [codepoint &&& 0xFF]
    else if codepoint ≤ 0x7FF then
      [0xC0 ||| ((codepoint >>> 6) &&& 0xFF), 0x80 ||| (codepoint &&& 0x3F)]
    else if codepoint ≤ 0xFFFF then
      [0xE0 ||| ((codepoint >>> 12) &&& 0xFF), 0x80 ||| ((codepoint >>> 6) &&& 0x3F),
        0x80 ||| (codepoint &&& 0x3F)]
    else
      [0xF0 ||| ((codepoint >>> 18) &&& 0xFF), 0x80 ||| ((codepoint >>> 12) &&& 0x3F),
        0x80 ||| ((codepoint >>> 6) &&& 0x3F), 0x80 ||| (codepoint &&& 0x3F)]

/-- The loop of `ParseHex4`.  Errors are reported at the backslash. -/
def parseHex (escape : List Char) : ℕ → ℕ → List Char → Result (ℕ × List Char)
  | 0, codepoint, is => .ok (codepoint, is)
  | _ + 1, _, [] => fail .stringUnicodeEscapeInvalidHex escape
  | i + 1, codepoint, c :: is =>
      match hexValue c with
      | some d => parseHex escape i (16 * codepoint + d) is
      | none => fail .stringUnicodeEscapeInvalidHex escape

def parseHex4 (escape : List Char) : List Char → Result (ℕ × List Char) := parseHex escape 4 0

/-- Behind the first half of a surrogate pair. -/
def parseTrail (escape : List Char) (codepoint : ℕ) :
    List Char → Result (List Char × List Char)
  | '\\' :: 'u' :: is => do
      let (codepoint2, is) ← parseHex4 escape is
      if codepoint2 < 0xDC00 ∨ 0xDFFF < codepoint2 then
        fail .stringUnicodeSurrogateInvalid escape
      else
        return (encode ((((codepoint - 0xD800) <<< 10) ||| (codepoint2 - 0xDC00)) + 0x10000), is)
  | _ => fail .stringUnicodeSurrogateInvalid escape

/-- Behind a backslash. -/
def parseEscape (escape : List Char) : List Char → Result (List Char × List Char)
  | [] => fail .stringEscapeInvalid escape
  | e :: is =>
      match escaped e with
      | some c => .ok ([c], is)
      | none =>
          if e = 'u' then do
            let (codepoint, is) ← parseHex4 escape is
            if 0xD800 ≤ codepoint ∧ codepoint ≤ 0xDBFF then parseTrail escape codepoint is
            else return (encode codepoint, is)
          else fail .stringEscapeInvalid escape

/-- `ParseStringToStream` behind the opening quotation mark, for at most so many pieces. -/
def parseStringToStream : ℕ → List Char → Result (List Char × List Char)
  | 0, is => fail .stringMissQuotationMark is
  | _ + 1, [] => fail .stringMissQuotationMark []
  | fuel + 1, c :: is =>
      if c = '\\' then do
        let (put, is) ← parseEscape (c :: is) is
        let (str, is) ← parseStringToStream fuel is
        return (put ++ str, is)
      else if c = '"' then .ok ([], is)
      else if c.toNat < 0x20 then
        fail (if c = '\x00' then .stringMissQuotationMark else .stringEscapeInvalid) (c :: is)
      else do
        let (str, is) ← parseStringToStream fuel is
        return (c :: str, is)

/-- `ParseString`; a piece has a character at least, and so has the closing quotation mark. -/
def parseString (is : List Char) : Result (String × List Char) := do
  let (str, is) ← parseStringToStream is.length is
  return (String.ofList str, is)

/-! ## Numbers -/

/-- What the reader asks of `double`: whether the one it has accumulated from the digits of an
integer (behind a minus sign or not) is at `DBL_MAX / 10`, and how `dtoa` prints the one that a
number stands for, if it is finite. -/
structure Doubles where
  atLimit : Bool → ℕ → Bool
  dtoa : String → Option (List Char)

/-- The digits that were read: their number, how many there were, whether the next one is one
too many, and what is left. -/
structure Scanned where
  value : ℕ
  count : ℕ
  full : Bool
  left : List Char

/-- The loops for integers of 32 and 64 bits, with the largest value but for its last digit, and
this digit. -/
def scanInteger (limit : ℕ) (last : Char) : ℕ → ℕ → List Char → Scanned
  | value, count, [] => ⟨value, count, false, []⟩
  | value, count, c :: s =>
      if c.isDigit then
        if limit ≤ value ∧ (value ≠ limit ∨ last < c) then ⟨value, count, true, c :: s⟩
        else scanInteger limit last (value * 10 + decimalDigit c) (count + 1) s
      else ⟨value, count, false, c :: s⟩

def scan32 (minus : Bool) : ℕ → ℕ → List Char → Scanned :=
  if minus then scanInteger 214748364 '8' else scanInteger 429496729 '5'

def scan64 (minus : Bool) : ℕ → ℕ → List Char → Scanned :=
  if minus then scanInteger 0x0CCCCCCCCCCCCCCC '8' else scanInteger 0x1999999999999999 '5'

/-- The integers that do not fit become doubles. -/
def scanDouble (atLimit : ℕ → Bool) : ℕ → List Char → Option (ℕ × List Char)
  | value, [] => some (value, [])
  | value, c :: s =>
      if c.isDigit then
        if atLimit value then none else scanDouble atLimit (value * 10 + decimalDigit c) s
      else some (value, c :: s)

/-- The integer of a number: whether it has become a double, its value, the digits behind its
first one that were counted, and what is left. -/
structure Integer where
  useDouble : Bool
  value : ℕ
  significandDigit : ℕ
  left : List Char

/-- Behind the first digit of an integer, which is not zero. -/
def parseDigits (dbl : Doubles) (minus : Bool) (start : List Char) (first : ℕ) (s : List Char) :
    Result Integer :=
  let i := scan32 minus first 0 s
  if i.full then
    let i64 := scan64 minus i.value i.count i.left
    if i64.full then
      match scanDouble (dbl.atLimit minus) i64.value i64.left with
      | some (value, s) => .ok ⟨true, value, i64.count, s⟩
      | none => fail .numberTooBig start
    else .ok ⟨false, i64.value, i64.count, i64.left⟩
  else .ok ⟨false, i.value, i.count, i.left⟩

def parseInteger (dbl : Doubles) (minus : Bool) (start : List Char) : List Char → Result Integer
  | [] => fail .valueInvalid []
  | c :: s =>
      if c = '0' then .ok ⟨false, 0, 0, s⟩
      else if c.isDigit then parseDigits dbl minus start (decimalDigit c) s
      else fail .valueInvalid (c :: s)

/-- A fraction as far as 53 bits hold the number: the value, `-expFrac`, the counted digits and
what is left. -/
def scanFraction64 : ℕ → ℕ → ℕ → List Char → ℕ × ℕ × ℕ × List Char
  | i64, expFrac, significandDigit, [] => (i64, expFrac, significandDigit, [])
  | i64, expFrac, significandDigit, c :: s =>
      if c.isDigit ∧ i64 ≤ 0x1FFFFFFFFFFFFF then
        let i64 := i64 * 10 + decimalDigit c
        scanFraction64 i64 (expFrac + 1)
          (if i64 ≠ 0 then significandDigit + 1 else significandDigit) s
      else (i64, expFrac, significandDigit, c :: s)

/-- The rest of a fraction, of which 17 significant digits count. -/
def scanFraction : Bool → ℕ → ℕ → List Char → ℕ × List Char
  | _, expFrac, _, [] => (expFrac, [])
  | positive, expFrac, significandDigit, c :: s =>
      if c.isDigit then
        if significandDigit < 17 then
          let positive := positive || decimalDigit c ≠ 0
          scanFraction positive (expFrac + 1)
            (if positive then significandDigit + 1 else significandDigit) s
        else scanFraction positive expFrac significandDigit s
      else (expFrac, c :: s)

/-- Whether there is a fraction, and `-expFrac`. -/
def parseFraction (i : Integer) : List Char → Result (Bool × ℕ × List Char)
  | [] => .ok (false, 0, [])
  | c :: s =>
      if c = '.' then
        if (s.head?.any Char.isDigit) = false then fail .numberMissFraction s
        else if i.useDouble then
          let (expFrac, s) := scanFraction true 0 i.significandDigit s
          .ok (true, expFrac, s)
        else
          let (i64, expFrac, significandDigit, s) :=
            scanFraction64 i.value 0 i.significandDigit s
          let (expFrac, s) := scanFraction (i64 ≠ 0) expFrac significandDigit s
          .ok (true, expFrac, s)
      else .ok (false, 0, c :: s)

/-- A positive exponent behind its first digit. -/
def scanExponent (maxExp : ℕ) : ℕ → List Char → Option (List Char)
  | _, [] => some []
  | exp, c :: s =>
      if c.isDigit then
        let exp := exp * 10 + decimalDigit c
        if maxExp < exp then none else scanExponent maxExp exp s
      else some (c :: s)

def expSign : List Char → Bool × List Char
  | '+' :: s => (false, s)
  | '-' :: s => (true, s)
  | s => (false, s)

/-- Whether there is an exponent.  The digits of a negative one are taken, however many. -/
def parseExponent (start : List Char) (expFrac : ℕ) : List Char → Result (Bool × List Char)
  | [] => .ok (false, [])
  | c :: s =>
      if c = 'e' ∨ c = 'E' then
        match expSign s with
        | (_, []) => fail .numberMissExponent []
        | (expMinus, d :: s) =>
            if d.isDigit = false then fail .numberMissExponent (d :: s)
            else if expMinus then .ok (true, s.dropWhile Char.isDigit)
            else
              match scanExponent (308 + expFrac) (decimalDigit d) s with
              | some s => .ok (true, s)
              | none => fail .numberTooBig start
      else .ok (false, c :: s)

def signOf : List Char → Bool × List Char
  | '-' :: s => (true, s)
  | s => (false, s)

/-- A number that is neither a double nor has a fraction or an exponent is an integer; any other
is kept as its text. -/
def parseNumber (dbl : Doubles) (start : List Char) : Result (Value × List Char) := do
  let (minus, s) := signOf start
  let i ← parseInteger dbl minus start s
  let (isFraction, expFrac, s) ← parseFraction i i.left
  let (isExponent, s) ← parseExponent start expFrac s
  if i.useDouble || isFraction || isExponent then
    return (.real (String.ofList (start.take (start.length - s.length))), s)
  else return (.int (if minus then -(i.value : ℤ) else i.value), s)

/-! ## Values -/

/-- Behind an opening square bracket. -/
def parseArray (elements : List Char → Result (List Value × List Char)) (is : List Char) :
    Result (Value × List Char) :=
  match skipWhitespace is with
  | ']' :: is => .ok (.array [], is)
  | is => do
      let (items, is) ← elements is
      return (.array items, is)

/-- Behind an opening curly bracket. -/
def parseObject (members : List Char → Result (List (String × Value) × List Char))
    (is : List Char) : Result (Value × List Char) :=
  match skipWhitespace is with
  | '}' :: is => .ok (.object [], is)
  | is => do
      let (entries, is) ← members is
      return (.object entries, is)

/-- Behind a value of an array. -/
def continueElements (elements : List Char → Result (List Value × List Char)) (v : Value)
    (is : List Char) : Result (List Value × List Char) :=
  match skipWhitespace is with
  | ',' :: is => do
      let (items, is) ← elements (skipWhitespace is)
      return (v :: items, is)
  | ']' :: is => .ok ([v], is)
  | is => fail .arrayMissCommaOrSquareBracket is

/-- Behind a member of an object. -/
def continueMembers (members : List Char → Result (List (String × Value) × List Char))
    (entry : String × Value) (is : List Char) : Result (List (String × Value) × List Char) :=
  match skipWhitespace is with
  | ',' :: is => do
      let (entries, is) ← members (skipWhitespace is)
      return (entry :: entries, is)
  | '}' :: is => .ok ([entry], is)
  | is => fail .objectMissCommaOrCurlyBracket is

/-- The name of a member and its colon. -/
def parseName : List Char → Result (String × List Char)
  | '"' :: is => do
      let (name, is) ← parseString is
      match skipWhitespace is with
      | ':' :: is => return (name, skipWhitespace is)
      | is => fail .objectMissColon is
  | is => fail .objectMissName is

mutual

def parseValue (dbl : Doubles) : ℕ → List Char → Result (Value × List Char)
  | 0, is => fail .termination is
  | fuel + 1, is =>
      match is with
      | 'n' :: is => parseNull is
      | 't' :: is => parseTrue is
      | 'f' :: is => parseFalse is
      | '"' :: is => do
          let (s, is) ← parseString is
          return (.string s, is)
      | '{' :: is => parseObject (parseMembers dbl fuel) is
      | '[' :: is => parseArray (parseElements dbl fuel) is
      | is => parseNumber dbl is

/-- The loop of `ParseArray`. -/
def parseElements (dbl : Doubles) : ℕ → List Char → Result (List Value × List Char)
  | 0, is => fail .termination is
  | fuel + 1, is => do
      let (v, is) ← parseValue dbl fuel is
      continueElements (parseElements dbl fuel) v is

/-- The loop of `ParseObject`. -/
def parseMembers (dbl : Doubles) : ℕ → List Char → Result (List (String × Value) × List Char)
  | 0, is => fail .termination is
  | fuel + 1, is => do
      let (name, is) ← parseName is
      let (v, is) ← parseValue dbl fuel is
      continueMembers (parseMembers dbl fuel) (name, v) is

end

/-- The fuel for a text: a bracket takes two. -/
def fuelFor (is : List Char) : ℕ := 2 * is.length + 1

/-- `Parse` without the count of the offset. -/
def parseText (dbl : Doubles) (text : List Char) : Result Value :=
  let is := skipWhitespace text
  if is = [] then fail .documentEmpty []
  else do
    let (v, is) ← parseValue dbl (fuelFor is) is
    let is := skipWhitespace is
    if is = [] then return v else fail .documentRootNotSingular is

/-- `Parse` with `GetErrorOffset`. -/
def parse (dbl : Doubles) (text : List Char) : Except (ParseErrorCode × ℕ) Value :=
  match parseText dbl text with
  | .ok v => .ok v
  | .error e => .error (e.code, text.length - e.left.length)

/-- `jutils::parseString`, which reads up to the first NUL character. -/
def parseDocument (dbl : Doubles) (par : String → String → String) (str : String) :
    Except Failure Value :=
  match parse dbl (cString str).toList with
  | .ok v => .ok v
  | .error (code, offset) => .error (.logicError ("Json parse error: " ++
      par "emsg" (toString code.ctorIdx) ++ par "eoffset" (toString offset)))

end IqrfDaemon.Rapidjson

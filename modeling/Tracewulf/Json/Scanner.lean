import Tracewulf.Base.Layout
import Tracewulf.Base.Run

/-! The scanner of `encoding/json`: a machine with a stack that reads a text byte by byte and says
of every byte what it is. A text is valid when the machine gets through it and the value it has
begun is complete. Bytes are numbers here; the comments say which characters they are. -/
namespace Tracewulf.Json
open Tracewulf.Base

/-- What the value being read is a part of. -/
inductive Frame
  | objectKey
  | objectValue
  | arrayValue
  deriving DecidableEq

inductive Word
  | true
  | false
  | null
  deriving DecidableEq

def Word.letters : Word → Bytes
  | .true => [116,114,117,101]
  | .false => [102,97,108,115,101]
  | .null => [110,117,108,108]

/-- The state functions of the scanner. Inside `\uXXXX` a state has the number of digits that are
missing, inside a word the number of letters read. -/
inductive State
  | beginValueOrEmpty
  | beginValue
  | beginStringOrEmpty
  | beginString
  | endValue
  | endTop
  | inString
  | inStringEsc
  | inStringEscU (missing : ℕ)
  | neg
  | one
  | zero
  | dot
  | dot0
  | e
  | eSign
  | e0
  | word (w : Word) (read : ℕ)
  deriving DecidableEq

/-- What a state function says of a byte. -/
inductive Op
  | continued
  | beginLiteral
  | beginObject
  | objectKey
  | objectValue
  | endObject
  | beginArray
  | arrayValue
  | endArray
  | skipSpace
  | endTop
  deriving DecidableEq

/-- The frames have the innermost one first. -/
structure Scanner where
  state : State
  parseState : List Frame
  deriving DecidableEq

/-- The scanner before the first byte. -/
def Scanner.reset : Scanner := ⟨.beginValue,[]⟩

def maxNestingDepth : ℕ := 10000

/-- Blank, tab, carriage return and newline. -/
def isSpace (c : UInt8) : Bool := c = 32 || c = 9 || c = 13 || c = 10

def isDigit (c : UInt8) : Bool := 48 ≤ c && c ≤ 57

def isHex (c : UInt8) : Bool := isDigit c || (97 ≤ c && c ≤ 102) || (65 ≤ c && c ≤ 70)

section States

variable (stack : List Frame) (c : UInt8)

def pushParseState (frame : Frame) (next : State) (op : Op) : Option (Scanner × Op) :=
  if (frame::stack).length ≤ maxNestingDepth then some (⟨next,frame::stack⟩,op) else none

/-- Where a value ends that was read inside `stack`. -/
def popParseState : Scanner := ⟨if stack = [] then .endTop else .endValue,stack⟩

/-- The scanner reports what follows the top-level value one byte late; it is an error in any
case. -/
def stateEndTop : Option (Scanner × Op) :=
  if isSpace c then some (⟨.endTop,stack⟩,.endTop) else none

def stateEndValue : Option (Scanner × Op) :=
  match stack with
  | [] => stateEndTop [] c
  | frame::outer =>
    if isSpace c then some (⟨.endValue,stack⟩,.skipSpace)
    else match frame with
      | .objectKey =>
        -- a colon
        if c = 58 then some (⟨.beginValue,.objectValue::outer⟩,.objectKey) else none
      | .objectValue =>
        -- a comma, a closing brace
        if c = 44 then some (⟨.beginString,.objectKey::outer⟩,.objectValue)
        else if c = 125 then some (popParseState outer,.endObject)
        else none
      | .arrayValue =>
        -- a comma, a closing bracket
        if c = 44 then some (⟨.beginValue,stack⟩,.arrayValue)
        else if c = 93 then some (popParseState outer,.endArray)
        else none

def stateBeginValue : Option (Scanner × Op) :=
  if isSpace c then some (⟨.beginValue,stack⟩,.skipSpace)
  -- the opening brace and bracket
  else if c = 123 then pushParseState stack .objectKey .beginStringOrEmpty .beginObject
  else if c = 91 then pushParseState stack .arrayValue .beginValueOrEmpty .beginArray
  -- a double quote, a minus, a zero
  else if c = 34 then some (⟨.inString,stack⟩,.beginLiteral)
  else if c = 45 then some (⟨.neg,stack⟩,.beginLiteral)
  else if c = 48 then some (⟨.zero,stack⟩,.beginLiteral)
  -- the first letters of `true`, `false` and `null`
  else if c = 116 then some (⟨.word .true 1,stack⟩,.beginLiteral)
  else if c = 102 then some (⟨.word .false 1,stack⟩,.beginLiteral)
  else if c = 110 then some (⟨.word .null 1,stack⟩,.beginLiteral)
  else if isDigit c then some (⟨.one,stack⟩,.beginLiteral)
  else none

def stateBeginString : Option (Scanner × Op) :=
  if isSpace c then some (⟨.beginString,stack⟩,.skipSpace)
  else if c = 34 then some (⟨.inString,stack⟩,.beginLiteral)
  else none

def stateInString : Option (Scanner × Op) :=
  -- a double quote, a backslash, the control characters
  if c = 34 then some (⟨.endValue,stack⟩,.continued)
  else if c = 92 then some (⟨.inStringEsc,stack⟩,.continued)
  else if c < 32 then none
  else some (⟨.inString,stack⟩,.continued)

/-- The characters of `bfnrt\/"` and `u`. -/
def stateInStringEsc : Option (Scanner × Op) :=
  if c = 98 || c = 102 || c = 110 || c = 114 || c = 116 || c = 92 || c = 47 || c = 34 then
    some (⟨.inString,stack⟩,.continued)
  else if c = 117 then some (⟨.inStringEscU 4,stack⟩,.continued)
  else none

def stateInStringEscU (missing : ℕ) : Option (Scanner × Op) :=
  if isHex c then
    some (⟨if missing = 1 then .inString else .inStringEscU (missing - 1),stack⟩,.continued)
  else none

def stateZero : Option (Scanner × Op) :=
  -- a point, an exponent
  if c = 46 then some (⟨.dot,stack⟩,.continued)
  else if c = 101 || c = 69 then some (⟨.e,stack⟩,.continued)
  else stateEndValue stack c

def stateESign : Option (Scanner × Op) :=
  if isDigit c then some (⟨.e0,stack⟩,.continued) else none

end States

/-- One byte. -/
def Scanner.step (s : Scanner) (c : UInt8) : Option (Scanner × Op) :=
  match s.state with
  | .beginValueOrEmpty =>
    if isSpace c then some (s,.skipSpace)
    else if c = 93 then stateEndValue s.parseState c
    else stateBeginValue s.parseState c
  | .beginValue => stateBeginValue s.parseState c
  | .beginStringOrEmpty =>
    if isSpace c then some (s,.skipSpace)
    else if c = 125 then stateEndValue (.objectValue::s.parseState.tail) c
    else stateBeginString s.parseState c
  | .beginString => stateBeginString s.parseState c
  | .endValue => stateEndValue s.parseState c
  | .endTop => stateEndTop s.parseState c
  | .inString => stateInString s.parseState c
  | .inStringEsc => stateInStringEsc s.parseState c
  | .inStringEscU missing => stateInStringEscU s.parseState c missing
  | .neg =>
    if c = 48 then some (⟨.zero,s.parseState⟩,.continued)
    else if isDigit c then some (⟨.one,s.parseState⟩,.continued)
    else none
  | .one =>
    if isDigit c then some (⟨.one,s.parseState⟩,.continued) else stateZero s.parseState c
  | .zero => stateZero s.parseState c
  | .dot => if isDigit c then some (⟨.dot0,s.parseState⟩,.continued) else none
  | .dot0 =>
    if isDigit c then some (⟨.dot0,s.parseState⟩,.continued)
    else if c = 101 || c = 69 then some (⟨.e,s.parseState⟩,.continued)
    else stateEndValue s.parseState c
  | .e =>
    -- a sign
    if c = 43 || c = 45 then some (⟨.eSign,s.parseState⟩,.continued)
    else stateESign s.parseState c
  | .eSign => stateESign s.parseState c
  | .e0 =>
    if isDigit c then some (⟨.e0,s.parseState⟩,.continued) else stateEndValue s.parseState c
  | .word w read =>
    if w.letters[read]? = some c then
      some (⟨if read + 1 = w.letters.length then .endValue else .word w (read + 1),s.parseState⟩,
        .continued)
    else none

/-- One byte, with what is said of it. -/
def Scanner.next (s : Scanner) (c : UInt8) : Option (Scanner × List (Op × UInt8)) :=
  (s.step c).map fun r => (r.1,[(r.2,c)])

/-- At the end of the text a blank is tried: it ends a number. -/
def Scanner.eof (s : Scanner) : Bool :=
  s.state = .endTop || (s.step 32).any fun r => r.1.state = .endTop

/-- What a text is made of, blanks apart. -/
inductive Token
  | literal (text : Bytes)
  | mark (op : Op)
  deriving DecidableEq

/-- The bytes of a literal are those it begins with and those that continue it; what continues the
literal before is handed back. -/
def group : List (Op × UInt8) → Bytes × List Token
  | [] => ([],[])
  | (.continued,c)::ops => (c::(group ops).1,(group ops).2)
  | (.beginLiteral,c)::ops => ([],.literal (c::(group ops).1)::(group ops).2)
  | (.skipSpace,_)::ops => ([],(group ops).2)
  | (.endTop,_)::ops => ([],(group ops).2)
  | (op,_)::ops => ([],.mark op::(group ops).2)

/-- The tokens of a text, `none` where it is not valid. -/
def checkValid (text : Bytes) : Option (List Token) :=
  match run Scanner.next .reset text with
  | some (s,ops) => if s.eof then some (group ops).2 else none
  | none => none

end Tracewulf.Json

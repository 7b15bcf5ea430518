import ComplyLayer.Dsl.Grammar
import ComplyLayer.Dsl.Parser

/-!
# The token stream of Python

What CPython's tokenizer makes of a text, as far as brackets and operators go. The literal parts of
an f-string are text, and its replacement fields are code. Everything is over the text that is left,
with the frames of the f-strings that are open.
-/

namespace ComplyLayer.Tokenizer

inductive PyToken where
  | opener
  | closer
  /-- `-`, `+` or `~`. -/
  | sign
  | word (word : String)
  | number
  | string
  /-- Any other operator. -/
  | symbol
  /-- The brace that opens a replacement field. -/
  | fieldOpener
  /-- A comment, and whether a carriage return ends it that no line feed follows. -/
  | comment (loneReturn : Bool)
  /-- A backslash at the end of a line. -/
  | continuation
  deriving DecidableEq

/-! ## Characters -/

def isLineEnd (c : Char) : Bool := c == '\n' || c == '\r'

def isBlank (c : Char) : Bool := c == ' ' || c == '\t' || c == '\x0c' || isLineEnd c

def isNameStart (c : Char) : Bool :=
  RuleValidator.isAsciiLetter c || c == '_' || 128 ≤ c.toNat

def isNameChar (c : Char) : Bool := isNameStart c || c.isDigit

def symbols : List Char := "%&*,/:;<=>@^|.!".toList

/-! ## Strings -/

/-- The quotes that a string opens with, of a text that starts with a quote. -/
def delimiterOf (quote : Char) (source : List Char) : List Char :=
  if [quote, quote, quote].isPrefixOf source then [quote, quote, quote] else [quote]

/-- What follows a string that is no f-string, of the text after its opening quotes. -/
def afterString (delimiter : List Char) : List Char → Option (List Char)
  | [] => none
  | ['\\'] => none
  | '\\' :: '\r' :: '\n' :: rest => afterString delimiter rest
  | '\\' :: _ :: rest => afterString delimiter rest
  | c :: rest =>
    if delimiter.isPrefixOf (c :: rest) then some ((c :: rest).drop delimiter.length)
    else if delimiter.length = 1 && isLineEnd c then none
    else afterString delimiter rest

def stringPrefixes : List (List Char) :=
  ["r", "u", "b", "br", "rb", "f", "fr", "rf"].map String.toList

def lowercase (word : List Char) : List Char := word.map Char.toLower

/-- A backslash in the text of an f-string: whether it starts the name of a character, and what
follows. A brace after a backslash is a brace. -/
def afterBackslash (raw : Bool) : List Char → Bool × List Char
  | '\r' :: '\n' :: rest => (false, rest)
  | '{' :: rest => (false, '{' :: rest)
  | '}' :: rest => (false, '}' :: rest)
  | 'N' :: '{' :: rest => if raw then (false, '{' :: rest) else (true, rest)
  | _ :: rest => (false, rest)
  | [] => (false, [])

/-! ## Numbers -/

def isDecimal (c : Char) : Bool := c.isDigit || c == '_'

def isHex (c : Char) : Bool :=
  isDecimal c || ('a' ≤ c && c ≤ 'f') || ('A' ≤ c && c ≤ 'F')

def startsWithDigit (cs : List Char) : Bool := cs.head?.any Char.isDigit

def afterFraction : List Char → List Char
  | '.' :: rest => rest.dropWhile isDecimal
  | cs => cs

/-- What follows an exponent. An `e` that no digit follows is none. -/
def afterExponent : List Char → List Char
  | [] => []
  | e :: rest =>
    if e == 'e' || e == 'E' then
      match rest with
      | [] => [e]
      | sign :: digits =>
        if (sign == '+' || sign == '-') && startsWithDigit digits then digits.dropWhile isDecimal
        else if sign.isDigit then (sign :: digits).dropWhile isDecimal
        else e :: sign :: digits
    else e :: rest

def afterImaginary : List Char → List Char
  | [] => []
  | j :: rest => if j == 'j' || j == 'J' then rest else j :: rest

def afterDecimal (cs : List Char) : List Char :=
  afterImaginary (afterExponent (afterFraction (cs.dropWhile isDecimal)))

/-- What follows a number. -/
def afterNumber : List Char → List Char
  | '0' :: x :: rest =>
    if x == 'x' || x == 'X' then rest.dropWhile isHex
    else if x == 'o' || x == 'O' || x == 'b' || x == 'B' then rest.dropWhile isDecimal
    else afterDecimal ('0' :: x :: rest)
  | cs => afterDecimal cs

/-! ## The stream -/

/-- What is open around a place in the text: the text of an f-string, or of the format of a field
in one, or a field with as many brackets open within it. -/
inductive Frame where
  | text (delimiter : List Char) (raw named format : Bool)
  | field (depth : Nat)

/-- The frames after an opening bracket. -/
def opened : List Frame → List Frame
  | .field depth :: stack => .field (depth + 1) :: stack
  | stack => stack

/-- The frames after a closing bracket. -/
def closed (c : Char) : List Frame → List Frame
  | .field 0 :: stack => if c = '}' then stack else .field 0 :: stack
  | .field (depth + 1) :: stack => .field depth :: stack
  | stack => stack

/-- A colon of a field, outside all brackets in it, starts a format. -/
def startsFormat (c : Char) : List Frame → Option (List Frame)
  | .field 0 :: .text delimiter raw named format :: stack =>
    if c = ':' then
      some (.text delimiter raw false true :: .text delimiter raw named format :: stack)
    else none
  | _ => none

def loneReturn : List Char → Bool
  | '\r' :: '\n' :: _ => false
  | '\r' :: _ => true
  | _ => false

/-- The tokens of the text that is left, `none` where the tokenizer refuses it. -/
def lex : Nat → List Frame → List Char → Option (List PyToken)
  | 0, _, _ => none
  | _ + 1, [], [] => some []
  | _ + 1, _ :: _, [] => none
  | fuel + 1, .text delimiter raw named format :: stack, c :: cs =>
    if delimiter.isPrefixOf (c :: cs) then
      if format then none
      else (lex fuel stack ((c :: cs).drop delimiter.length)).map (.string :: ·)
    else if c = '\\' then
      lex fuel (.text delimiter raw (named || (afterBackslash raw cs).1) format :: stack)
        (afterBackslash raw cs).2
    else if c = '{' then
      if !format && cs.head? = some '{' then
        lex fuel (.text delimiter raw named format :: stack) cs.tail
      else
        (lex fuel (.field 0 :: .text delimiter raw named format :: stack) cs).map
          (.fieldOpener :: ·)
    else if c = '}' then
      if named then lex fuel (.text delimiter raw false format :: stack) cs
      else if format then (lex fuel stack cs).map (.closer :: ·)
      else if cs.head? = some '}' then
        lex fuel (.text delimiter raw named format :: stack) cs.tail
      else none
    else if delimiter.length = 1 && isLineEnd c then none
    else lex fuel (.text delimiter raw named format :: stack) cs
  | fuel + 1, stack, c :: cs =>
    if isBlank c then lex fuel stack cs
    else if c = '#' then
      let rest := cs.dropWhile fun d => !isLineEnd d
      (lex fuel stack rest).map (.comment (loneReturn rest) :: ·)
    else if c = '\\' then
      if cs.head?.any isLineEnd then (lex fuel stack cs.tail).map (.continuation :: ·) else none
    else if isQuote c then
      let delimiter := delimiterOf c (c :: cs)
      (afterString delimiter ((c :: cs).drop delimiter.length)).bind fun rest =>
        (lex fuel stack rest).map (.string :: ·)
    else if isNameStart c then
      let word := c :: cs.takeWhile isNameChar
      let rest := cs.dropWhile isNameChar
      let quote := rest.headD ' '
      if isQuote quote && lowercase word ∈ stringPrefixes then
        let delimiter := delimiterOf quote rest
        if 'f' ∈ lowercase word then
          lex fuel (.text delimiter ('r' ∈ lowercase word) false false :: stack)
            (rest.drop delimiter.length)
        else
          (afterString delimiter (rest.drop delimiter.length)).bind fun rest =>
            (lex fuel stack rest).map (.string :: ·)
      else (lex fuel stack rest).map (.word (String.ofList word) :: ·)
    else if c.isDigit || (c == '.' && startsWithDigit cs) then
      (lex fuel stack (afterNumber (c :: cs))).map (.number :: ·)
    else if isOpener c then (lex fuel (opened stack) cs).map (.opener :: ·)
    else if isCloser c then (lex fuel (closed c stack) cs).map (.closer :: ·)
    else if isUnaryChar c then (lex fuel stack cs).map (.sign :: ·)
    else if c ∈ symbols then
      (lex fuel ((startsFormat c stack).getD stack) cs).map (.symbol :: ·)
    else none

/-- The token stream of a text. -/
def tokens (source : String) : Option (List PyToken) := lex (source.length + 1) [] source.toList

/-! ## Depth and runs -/

/-- What is known after some tokens: how many brackets are open, whether an operand ends here, how
many prefix operators stand in a row, and how many of them since a comment or a continuation. -/
structure Position where
  depth : Nat := 0
  operand : Bool := false
  run : Nat := 0
  unbroken : Nat := 0
  deriving DecidableEq

/-- The words that are operators or start a construct, and end no operand. -/
def isOperandWord (word : String) : Bool :=
  word ∉ kwlist || word ∈ ["True", "False", "None"]

namespace Position

/-- After an operator that is a prefix where no operand stands before it. -/
def operator (p : Position) : Position :=
  if p.operand then { depth := p.depth }
  else { depth := p.depth, run := p.run + 1, unbroken := p.unbroken + 1 }

def next (p : Position) : PyToken → Position
  | .opener | .fieldOpener => { depth := p.depth + 1 }
  | .closer => { depth := p.depth - 1, operand := true }
  | .sign => p.operator
  | .word word =>
    if word = "not" then p.operator else { depth := p.depth, operand := isOperandWord word }
  | .number | .string => { depth := p.depth, operand := true }
  | .symbol => { depth := p.depth }
  | .comment _ | .continuation => { p with unbroken := 0 }

end Position

/-- The position after each beginning of the stream satisfies `P`. -/
def Always (P : Position → Prop) (p : Position) (ts : List PyToken) : Prop :=
  ∀ before, before <+: ts → P (before.foldl Position.next p)

/-- Brackets nest no deeper, and prefix operators stand in no longer row, than the limits. -/
def WithinLimits (ts : List PyToken) : Prop :=
  Always (fun p => p.depth ≤ maxNestingDepth ∧ p.run ≤ maxUnaryRun) {} ts

end ComplyLayer.Tokenizer

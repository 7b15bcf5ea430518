import ComplyLayer.Dsl.Ast

/-!
# The Python runtime

The standard library functions the code calls and the model does not fix: the parser, the Unicode
tables behind the `str` predicates, `repr`, and the ISO 8601 conversions. Everything below is
stated for an arbitrary `Python`.
-/

namespace ComplyLayer

/-- What `ast.parse(source, mode="eval")` ends in. -/
inductive Parsed where
  | tree (body : Node)
  /-- `SyntaxError` or `ValueError`. -/
  | refused
  | recursionError
  /-- The parser's own stack is full, as it is within an f-string of a thousand characters. -/
  | memoryError

structure Python where
  astParse : String → Parsed
  /-- Whether `ast.parse(source, mode="exec")` returns. -/
  parsesAsStatements : String → Bool
  unparse : Node → Option String
  /-- `difflib.get_close_matches(name, candidates, n=1, cutoff=0.75)`. -/
  closeMatch : String → List String → Option String
  repr : Value → String
  isalnum : Char → Bool
  isalpha : String → Bool
  upper : String → String
  /-- `datetime.fromisoformat`, `none` where it raises `ValueError`. -/
  fromisoformat : String → Option Datetime
  isoformat : Instant → String
  /-- `float(text)`, `none` where it raises `ValueError`. -/
  float : String → Option ℚ

def epochText : String := "1970-01-01T00:00:00+00:00"

/-- A runtime whose parser reads one text, whose `str` predicates are those of the ASCII range,
and whose one moment is the epoch. -/
def Python.reading (source : String) (body : Node) : Python where
  astParse text := if text = source then .tree body else .refused
  parsesAsStatements _ := false
  unparse _ := none
  closeMatch _ _ := none
  repr
    | .str s => "'" ++ s ++ "'"
    | value => value.typeName
  isalnum c := c.isAlphanum
  isalpha s := s.toList.all Char.isAlpha && !s.isEmpty
  upper s := String.ofList (s.toList.map Char.toUpper)
  fromisoformat text := if text = epochText then some ⟨0, some 0⟩ else none
  isoformat _ := epochText
  float _ := none

/-- `str.isspace` of one character. -/
def isspace (c : Char) : Bool :=
  c.toNat ∈ [0x09, 0x0a, 0x0b, 0x0c, 0x0d, 0x1c, 0x1d, 0x1e, 0x1f, 0x20, 0x85, 0xa0, 0x1680,
    0x2000, 0x2001, 0x2002, 0x2003, 0x2004, 0x2005, 0x2006, 0x2007, 0x2008, 0x2009, 0x200a,
    0x2028, 0x2029, 0x202f, 0x205f, 0x3000]

/-- `str.strip`. -/
def strip (s : String) : String :=
  String.ofList (((s.toList.dropWhile isspace).reverse.dropWhile isspace).reverse)

def isascii (s : String) : Bool := s.toList.all fun c => c.toNat < 128

end ComplyLayer

import ComplyLayer.Dsl.Validator
import ComplyLayer.Theory.Decimal
import ComplyLayer.Theory.Parsing

/-!
# The part of Python's grammar a built rule uses

`ast.parse(text, mode="eval")` on texts without arithmetic, subscripts, attributes, conditional
expressions, lambdas and comprehensions: names, whole numbers, single-quoted strings, lists, calls,
comparisons, `not`, `and`, `or` and brackets. Each level of the grammar is a parser of its own,
given the parser of the level below it, under Python's name for the rule. A text outside of this
part is not read.
-/

namespace ComplyLayer

open Theory Parser

/-- `keyword.kwlist`. -/
def kwlist : List String :=
  ["False", "None", "True", "and", "as", "assert", "async", "await", "break", "class", "continue",
    "def", "del", "elif", "else", "except", "finally", "for", "from", "global", "if", "import",
    "in", "is", "lambda", "nonlocal", "not", "or", "pass", "raise", "return", "try", "while",
    "with", "yield"]

inductive Token where
  | name (id : String)
  | and | or | not | in | true | false | none
  /-- A keyword that starts or continues none of the expressions read here. -/
  | reserved (word : String)
  | number (n : Nat)
  | text (s : String)
  | cmp (op : CmpOp)
  | leftParen | rightParen | leftBracket | rightBracket | comma | equal | minus
  deriving DecidableEq

namespace Grammar

/-! ## Tokens -/

def isWordStart (c : Char) : Bool := RuleValidator.isAsciiLetter c || c == '_'

def isWordChar (c : Char) : Bool := isWordStart c || c.isDigit

/-- A character that stands for itself in a single-quoted string. -/
def isTextChar (c : Char) : Bool := ' ' ≤ c && c ≤ '~' && c != '\'' && c != '\\'

def wordToken (word : String) : Token :=
  match word with
  | "and" => .and
  | "or" => .or
  | "not" => .not
  | "in" => .in
  | "True" => .true
  | "False" => .false
  | "None" => .none
  | word => if word ∈ kwlist then .reserved word else .name word

/-- An identifier or a keyword. A quote right after it would make it the prefix of a string. -/
def word? (cs : List Char) : Option (Token × List Char) :=
  if (cs.dropWhile isWordChar).head?.any isQuote then none
  else some (wordToken (String.ofList (cs.takeWhile isWordChar)), cs.dropWhile isWordChar)
where
  isQuote (c : Char) : Bool := c == '\'' || c == '"'

/-- A decimal number without leading zeros. -/
def number? (cs : List Char) : Option (Token × List Char) := do
  let n ← natOfDigits? (cs.takeWhile Char.isDigit)
  if n.repr.toList ≠ cs.takeWhile Char.isDigit ∨ (cs.dropWhile Char.isDigit).head?.any continues then none
  else some (.number n, cs.dropWhile Char.isDigit)
where
  continues (c : Char) : Bool := isWordChar c || c == '.'

/-- A string, after its opening quote. Two quotes and a third would open a longer one. -/
def text? (cs : List Char) : Option (Token × List Char) :=
  match cs.dropWhile isTextChar with
  | '\'' :: rest =>
    if (cs.takeWhile isTextChar).isEmpty && rest.head? == some '\'' then none
    else some (.text (String.ofList (cs.takeWhile isTextChar)), rest)
  | _ => none

/-- An operator or a delimiter. A longer operator that starts like one of these is not read. -/
def symbol? : List Char → Option (Token × List Char)
  | '(' :: cs => some (.leftParen, cs)
  | ')' :: cs => some (.rightParen, cs)
  | '[' :: cs => some (.leftBracket, cs)
  | ']' :: cs => some (.rightBracket, cs)
  | ',' :: cs => some (.comma, cs)
  | '=' :: '=' :: cs => some (.cmp .eq, cs)
  | '=' :: cs => some (.equal, cs)
  | '!' :: '=' :: cs => some (.cmp .notEq, cs)
  | '<' :: '=' :: cs => some (.cmp .ltE, cs)
  | '<' :: '<' :: _ | '<' :: '>' :: _ | '>' :: '>' :: _ => none
  | '<' :: cs => some (.cmp .lt, cs)
  | '>' :: '=' :: cs => some (.cmp .gtE, cs)
  | '>' :: cs => some (.cmp .gt, cs)
  | '-' :: '=' :: _ | '-' :: '>' :: _ => none
  | '-' :: cs => some (.minus, cs)
  | _ => none

/-- The first token of a text that does not start with a space, and what follows it. -/
def nextToken : List Char → Option (Token × List Char)
  | [] => none
  | c :: cs =>
    if isWordStart c then word? (c :: cs)
    else if c.isDigit then number? (c :: cs)
    else if c = '\'' then text? cs
    else symbol? (c :: cs)

/-- Each turn drops at least one character, so a fuel of the text's length is enough. -/
def tokenizeFrom : Nat → List Char → Option (List Token)
  | _, [] => some []
  | 0, _ :: _ => none
  | fuel + 1, c :: cs =>
    if c = ' ' then tokenizeFrom fuel cs
    else do
      let (t, rest) ← nextToken (c :: cs)
      let ts ← tokenizeFrom fuel rest
      some (t :: ts)

def tokenize (cs : List Char) : Option (List Token) := tokenizeFrom cs.length cs

/-! ## Expressions -/

/-- An element of the list, or the operation on all of them. -/
def joined (op : BoolOperator) : List Node → Node
  | [node] => node
  | nodes => .boolOp op nodes

section
variable (expression : Parser Token Node)

/-- `NAME | 'True' | 'False' | 'None' | NUMBER | STRING | '(' expression ')' |
'[' [expression (',' expression)*] ']'`. -/
def atom : Parser Token Node
  | .name id :: ts => some (.name id, ts)
  | .true :: ts => some (.constant (.bool true), ts)
  | .false :: ts => some (.constant (.bool false), ts)
  | .none :: ts => some (.constant .none, ts)
  | .number n :: ts => some (.constant (.int n), ts)
  | .text s :: ts => some (.constant (.str s), ts)
  | .leftParen :: ts =>
    match expression ts with
    | some (node, .rightParen :: ts) => some (node, ts)
    | _ => none
  | .leftBracket :: .rightBracket :: ts => some (.list [], ts)
  | .leftBracket :: ts =>
    match sepBy .comma expression ts with
    | some (nodes, .rightBracket :: ts) => some (.list nodes, ts)
    | _ => none
  | _ => none

/-- `[NAME '='] expression`. -/
def argument : Parser Token (Option String × Node)
  | .name id :: .equal :: ts => Parser.map (fun node => (some id, node)) expression ts
  | ts => Parser.map (fun node => (none, node)) expression ts

/-- The arguments of a call, after its opening bracket and with the closing one. No positional
argument follows a keyword. -/
def arguments : Parser Token (List Node × List (Option String × Node))
  | .rightParen :: ts => some (([], []), ts)
  | ts =>
    match sepBy .comma (argument expression) ts with
    | some (args, .rightParen :: ts) =>
      let positional := args.takeWhile fun a => a.1.isNone
      let named := args.dropWhile fun a => a.1.isNone
      if named.all fun a => a.1.isSome then some ((positional.map Prod.snd, named), ts) else none
    | _ => none

/-- The calls after an atom. -/
def calls : Nat → Node → Parser Token Node
  | fuel + 1, func, .leftParen :: ts => do
    let ((args, named), ts) ← arguments expression ts
    calls fuel (.call func args named) ts
  | _, node, ts => some (node, ts)

/-- `atom ('(' arguments ')')*`. -/
def primary : Parser Token Node := fun ts => do
  let (node, ts) ← atom expression ts
  calls expression ts.length node ts

end

section
variable (operand : Parser Token Node)

/-- `'-'* primary`. -/
def factor : Parser Token Node := fun ts => minuses ts.length ts
where
  minuses : Nat → Parser Token Node
    | fuel + 1, .minus :: ts => Parser.map (.unaryOp .uSub) (minuses fuel) ts
    | _, ts => operand ts

def cmpOperator : List Token → Option (CmpOp × List Token)
  | .cmp op :: ts => some (op, ts)
  | .in :: ts => some (.in, ts)
  | .not :: .in :: ts => some (.notIn, ts)
  | _ => none

/-- `factor (operator factor)*`. -/
def comparison : Parser Token Node := fun ts => do
  let (left, ts) ← operand ts
  let (comparators, ts) ← chain ts.length ts
  some (if comparators.isEmpty then left else .compare left comparators, ts)
where
  chain : Nat → Parser Token (List (CmpOp × Node))
    | 0, ts => some ([], ts)
    | fuel + 1, ts =>
      match cmpOperator ts with
      | none => some ([], ts)
      | some (op, ts) => do
        let (node, ts) ← operand ts
        let (more, ts) ← chain fuel ts
        some ((op, node) :: more, ts)

/-- `'not'* comparison`. -/
def inversion : Parser Token Node := fun ts => nots ts.length ts
where
  nots : Nat → Parser Token Node
    | fuel + 1, .not :: ts => Parser.map (.unaryOp .not) (nots fuel) ts
    | _, ts => operand ts

def conjunction : Parser Token Node := Parser.map (joined .and) (sepBy .and operand)

def disjunction : Parser Token Node := Parser.map (joined .or) (sepBy .or operand)

end

/-- An expression with brackets at most as deep as the fuel. -/
def expression : Nat → Parser Token Node
  | 0 => fun _ => none
  | fuel + 1 =>
    disjunction (conjunction (inversion (comparison (factor (primary (expression fuel))))))

end Grammar

/-- The tree of a text in this part of the grammar. -/
def readExpression (text : String) : Option Node := do
  let ts ← Grammar.tokenize text.toList
  match Grammar.expression (ts.length + 1) ts with
  | some (node, []) => some node
  | _ => none

example : (readExpression "a in [1, -2] and not (f(x, k='v') == True or b)").isSome := by
  decide +kernel

end ComplyLayer

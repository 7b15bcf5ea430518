import Mathlib.Data.Rat.Defs
import Mathlib.Data.List.Infix

/-!
# Run-time values

The values a fact, a constant or an intermediate result can hold, with the Python operations the
interpreter performs on them: truth, equality, membership, and the two orderings it allows. A
float is the rational it denotes, but for the negative zero, which equals zero and is written apart
from it. There is no infinity and no NaN: what a column refuses of those is a failed insert.
-/

namespace ComplyLayer

/-- A `datetime`: the wall clock in microseconds since the epoch, and the UTC offset in
microseconds when it is aware. -/
structure Datetime where
  wall : Int
  utcoffset : Option Int
  deriving DecidableEq, Repr

/-- An aware `datetime`. -/
structure Instant where
  wall : Int
  utcoffset : Int
  deriving DecidableEq, Repr

/-- Microseconds since the epoch, in UTC. -/
def Instant.micros (t : Instant) : Int := t.wall - t.utcoffset

/-- `moment.replace(tzinfo=UTC)` for a naive moment, and the moment itself otherwise. -/
def Datetime.assumeUtc (d : Datetime) : Instant := ⟨d.wall, d.utcoffset.getD 0⟩

inductive Value where
  | none
  | bool (b : Bool)
  | int (n : Int)
  | float (q : ℚ)
  /-- `-0.0`. -/
  | negativeZero
  | complex (re im : ℚ)
  | str (s : String)
  | bytes (b : List UInt8)
  | ellipsis
  | list (xs : List Value)
  | tuple (xs : List Value)
  | dict (entries : List (String × Value))
  | datetime (d : Datetime)

instance : Inhabited Value := ⟨.none⟩

namespace Value

/-- `type(value).__name__`. -/
def typeName : Value → String
  | none => "NoneType"
  | bool _ => "bool"
  | int _ => "int"
  | float _ | negativeZero => "float"
  | complex _ _ => "complex"
  | str _ => "str"
  | bytes _ => "bytes"
  | ellipsis => "ellipsis"
  | list _ => "list"
  | tuple _ => "tuple"
  | dict _ => "dict"
  | datetime _ => "datetime"

/-- `bool(value)`. -/
def truthy : Value → Bool
  | none => false
  | bool b => b
  | int n => n != 0
  | float q => q != 0
  | negativeZero => false
  | complex re im => re != 0 || im != 0
  | str s => s != ""
  | bytes b => !b.isEmpty
  | ellipsis => true
  | list xs | tuple xs => !xs.isEmpty
  | dict entries => !entries.isEmpty
  | datetime _ => true

/-- The number a value compares as, with its imaginary part. A bool is a number to `==`. -/
def number? : Value → Option (ℚ × ℚ)
  | bool b => some (if b then 1 else 0, 0)
  | int n => some (n, 0)
  | float q => some (q, 0)
  | negativeZero => some (0, 0)
  | complex re im => some (re, im)
  | _ => Option.none

/-- The number a value is ordered as. A complex number has no order. -/
def real? : Value → Option ℚ
  | bool b => some (if b then 1 else 0)
  | int n => some n
  | float q => some q
  | negativeZero => some 0
  | _ => Option.none

/-- Aware moments are equal as instants, naive ones by the wall clock, and a mixed pair never. -/
def eqDatetime (a b : Datetime) : Bool :=
  a.utcoffset.isSome == b.utcoffset.isSome && a.assumeUtc.micros == b.assumeUtc.micros

mutual
/-- Python's `==`. -/
def pyEq : Value → Value → Bool
  | none, none => true
  | str a, str b => a == b
  | bytes a, bytes b => a == b
  | ellipsis, ellipsis => true
  | list xs, list ys => pyEqList xs ys
  | tuple xs, tuple ys => pyEqList xs ys
  | dict ds, dict es => ds.length == es.length && pyEqEntries ds es
  | datetime a, datetime b => eqDatetime a b
  | a, b =>
    match a.number?, b.number? with
    | some x, some y => x == y
    | _, _ => false

def pyEqList : List Value → List Value → Bool
  | [], [] => true
  | x :: xs, y :: ys => x.pyEq y && pyEqList xs ys
  | _, _ => false

/-- Every entry of the first dictionary has an equal value in the second. -/
def pyEqEntries : List (String × Value) → List (String × Value) → Bool
  | [], _ => true
  | (k, v) :: ds, es =>
    (match es.lookup k with
      | some w => v.pyEq w
      | Option.none => false) && pyEqEntries ds es
end

def isText : Value → Bool
  | str _ => true
  | _ => false

/-- The types `left in right` is evaluated for. -/
def isContainer : Value → Bool
  | str _ | tuple _ => true
  | _ => false

/-- `_is_number`: a whole number, and a bool is not one. -/
def isNumber : Value → Bool
  | int _ => true
  | _ => false

/-- `_same_orderable_kind`: two whole numbers or two texts. -/
def sameOrderableKind (left right : Value) : Bool :=
  (left.isNumber && right.isNumber) || (left.isText && right.isText)

/-- `<` on the two kinds `sameOrderableKind` lets through. -/
def lt : Value → Value → Bool
  | int a, int b => Decidable.decide (a < b)
  | str a, str b => Decidable.decide (a < b)
  | _, _ => false

/-- `<=` on the two kinds `sameOrderableKind` lets through. -/
def le : Value → Value → Bool
  | int a, int b => Decidable.decide (a ≤ b)
  | str a, str b => Decidable.decide (a ≤ b)
  | _, _ => false

/-- Python's `in`: a tuple is searched by `==`, and a text only for a text. The result is `none`
where Python raises `TypeError`. -/
def isIn? : Value → Value → Option Bool
  | left, tuple xs => some (xs.any fun x => x.pyEq left)
  | str a, str b => some (Decidable.decide (a.toList <:+: b.toList))
  | _, _ => Option.none

theorem isIn?_eq_none_iff {left right : Value} (h : right.isContainer) :
    left.isIn? right = Option.none ↔ right.isText ∧ ¬ left.isText := by
  cases right <;> simp [isContainer] at h
  · cases left <;> simp [isIn?, isText]
  · simp [isIn?, isText]

/-- A whole number against a filter's bound; `none` where Python raises `TypeError`. -/
def intLt? (a : Int) (bound : Value) : Option Bool := bound.real?.map fun q => Decidable.decide ((a : ℚ) < q)

def intGt? (a : Int) (bound : Value) : Option Bool := bound.real?.map fun q => Decidable.decide (q < (a : ℚ))

/-- `int.bit_length`. -/
def bitLength (n : Int) : Nat := if n = 0 then 0 else n.natAbs.log2 + 1

end Value

end ComplyLayer

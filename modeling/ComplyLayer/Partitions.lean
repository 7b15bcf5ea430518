import ComplyLayer.Theory.Calendar
import ComplyLayer.Theory.Decimal
import ComplyLayer.Theory.Table
import Mathlib.Algebra.Group.Nat.Defs

/-!
# Monthly partitions

`partitions.py` over the partitioned table of decisions. PostgreSQL puts a row into the partition
that holds its date, or else into the default partition, and creates no partition for rows the
default partition has. Each statement commits by itself.
-/

namespace ComplyLayer

open Theory

def decisionTable : String := "complylayer_decision"

structure Partition where
  name : String
  start : Date
  stop : Date

/-- The rows a partition is for, `FROM` and `TO`. -/
def Partition.Holds (p : Partition) (d : Date) : Prop := p.start ≤ d ∧ d < p.stop

instance (p : Partition) (d : Date) : Decidable (p.Holds d) := inferInstanceAs (Decidable (_ ∧ _))

/-- What keeps a partition from being created. -/
inductive MaintenanceError where
  | valueError (message : String)
  | overlaps
  | defaultRows
  | relationExists

/-- The decimal digits of a number, zero-padded. -/
def padded (width n : Nat) : String :=
  String.ofList ((List.range width).reverse.map fun k => Nat.digitChar (n / 10 ^ k % 10))

/-- `_SAFE_NAME`. -/
def safeName (name : String) : Bool :=
  match name.toList with
  | [] => false
  | c :: cs =>
    let letter (c : Char) : Bool := ('a' ≤ c && c ≤ 'z') || c = '_'
    letter c && cs.all fun c => letter c || ('0' ≤ c && c ≤ '9')

/-- `_identifier`. -/
def identifier (name : String) : Except MaintenanceError String :=
  if safeName name then .ok name
  else .error (.valueError ("unsafe partition identifier: '" ++ name ++ "'"))

/-- `_month_start`. -/
def monthStart (moment : Date) : Date where
  year := moment.year
  month := moment.month
  day := 1
  year_mem := moment.year_mem
  month_mem := moment.month_mem
  day_mem := ⟨Nat.le_refl 1, one_le_daysInMonth moment.year moment.month⟩

/-- `_next_month`. -/
def nextMonth (moment : Date) : Except MaintenanceError Date :=
  let following :=
    if moment.month = 12 then Date.new? (moment.year + 1) 1 1
    else Date.new? moment.year (moment.month + 1) 1
  following.elim (.error (.valueError "year 10000 is out of range")) .ok

/-- The name of the partition of a month. -/
def partitionName (d : Date) : String :=
  decisionTable ++ "_" ++ padded 4 d.year ++ "_" ++ padded 2 d.month

/-- The loop of `partitions_for`. -/
def partitionsFrom (current : Date) : Nat → Except MaintenanceError (List Partition)
  | 0 => .ok []
  | months + 1 => do
    let following ← nextMonth current
    let rest ← partitionsFrom following months
    pure (⟨partitionName current, current, following⟩ :: rest)

/-- `partitions_for`. -/
def partitionsFor (start : Date) (months : Int) : Except MaintenanceError (List Partition) :=
  partitionsFrom (monthStart start) months.toNat

/-- The table of decisions: its monthly partitions, and the date of every row with the partition the
row is in, `none` for the default one. -/
structure DecisionTable where
  partitions : Table Partition.name := ∅
  rows : List (Option String × Date) := []

namespace DecisionTable

/-- The partition a row of a date is put into. -/
def routed (t : DecisionTable) (d : Date) : Option String :=
  (t.partitions.rows.find? fun p => p.Holds d).map Partition.name

def insert (t : DecisionTable) (d : Date) : DecisionTable :=
  { t with rows := t.rows ++ [(t.routed d, d)] }

/-- The dates in the default partition, which `rows_in_default_partition` counts. -/
def inDefault (t : DecisionTable) : List Date :=
  (t.rows.filter fun row => row.1 = none).map Prod.snd

/-- `CREATE TABLE … PARTITION OF …`. -/
def createPartition (t : DecisionTable) (p : Partition) : Except MaintenanceError DecisionTable := do
  let name ← identifier p.name
  if t.partitions.rows.any fun q => p.start < q.stop ∧ q.start < p.stop then .error .overlaps
  else if t.inDefault.any fun d => p.Holds d then .error .defaultRows
  else
    match t.partitions.insert? ⟨name, p.start, p.stop⟩ with
    | some partitions => .ok { t with partitions := partitions }
    | none => .error .relationExists

/-- The loop of `ensure_partitions`, and the names it has created where it ends. -/
def createMissing (t : DecisionTable) :
    List Partition → DecisionTable × Except MaintenanceError (List String)
  | [] => (t, .ok [])
  | p :: rest =>
    if (t.partitions.find? p.name).isSome then t.createMissing rest
    else
      match t.createPartition p with
      | .error e => (t, .error e)
      | .ok t' =>
        let (t'', created) := t'.createMissing rest
        (t'', created.map (p.name :: ·))

/-- `ensure_partitions`. -/
def ensurePartitions (t : DecisionTable) (today : Date) (monthsAhead : Int) :
    DecisionTable × Except MaintenanceError (List String) :=
  match partitionsFor today (monthsAhead + 1) with
  | .ok partitions => t.createMissing partitions
  | .error e => (t, .error e)

end DecisionTable

end ComplyLayer

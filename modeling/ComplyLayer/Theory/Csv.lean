import Mathlib.Data.List.Basic

/-!
# Comma separated values

Rows of cells as text: a cell with a character that would end it is quoted. The text of a list of
rows is read back as these rows (`read_write`).
-/

namespace ComplyLayer.Theory.Csv

abbrev Cell := List Char

/-- A character that a cell can only have in quotes. -/
def Special (c : Char) : Prop := c = ',' ∨ c = '"' ∨ c = '\r' ∨ c = '\n'

instance : DecidablePred Special := fun _ => inferInstanceAs (Decidable (_ ∨ _))

/-- Inside quotes a quote is written twice. -/
def doubled : Cell → List Char
  | [] => []
  | '"' :: cs => '"' :: '"' :: doubled cs
  | c :: cs => c :: doubled cs

def quoted (cell : Cell) : List Char := '"' :: (doubled cell ++ ['"'])

def writeCell (cell : Cell) : List Char :=
  if cell.any fun c => Special c then quoted cell else cell

def writeCells : List Cell → List Char
  | [] => []
  | cell :: cells => writeCell cell ++ cells.flatMap fun more => ',' :: writeCell more

def writeRow (row : List Cell) : List Char :=
  -- a row of one cell without a character would be the row of no cells
  (if row = [[]] then quoted [] else writeCells row) ++ ['\r', '\n']

def write (rows : List (List Cell)) : List Char := rows.flatMap writeRow

/-! ## Reading -/

/-- Where a reader is in a row. -/
inductive Place where
  | rowStart | cellStart | plain | inQuotes | quoteSeen | returnSeen
  deriving DecidableEq

structure Reader where
  place : Place := .rowStart
  cell : Cell := []
  cells : List Cell := []
  rows : List (List Cell) := []

namespace Reader

def add (r : Reader) (place : Place) (c : Char) : Reader :=
  { r with place := place, cell := r.cell ++ [c] }

def endCell (r : Reader) (place : Place) : Reader :=
  { r with place := place, cell := [], cells := r.cells ++ [r.cell] }

def endRow (r : Reader) : Reader := { rows := r.rows ++ [r.cells] }

/-- A character that may end the cell. -/
def separate (r : Reader) (c : Char) : Option Reader :=
  if c = ',' then some (r.endCell .cellStart)
  else if c = '\r' then
    some (if r.place = .rowStart then { r with place := .returnSeen } else r.endCell .returnSeen)
  else if c = '\n' then
    some (if r.place = .rowStart then r.endRow else (r.endCell .returnSeen).endRow)
  else none

def step (r : Reader) (c : Char) : Option Reader :=
  match r.place with
  | .rowStart | .cellStart =>
    if c = '"' then some { r with place := .inQuotes } else (r.separate c).or (r.add .plain c)
  | .plain => (r.separate c).or (r.add .plain c)
  | .inQuotes => some (if c = '"' then { r with place := .quoteSeen } else r.add .inQuotes c)
  | .quoteSeen => if c = '"' then some (r.add .inQuotes '"') else r.separate c
  | .returnSeen => if c = '\n' then some r.endRow else none

def run (r : Reader) (cs : List Char) : Option Reader := cs.foldlM step r

end Reader

/-- The rows of a text, which every row of it has to end. -/
def read (cs : List Char) : Option (List (List Cell)) :=
  (Reader.run {} cs).bind fun r => if r.place = .rowStart then some r.rows else none

/-! ## What is written is read back -/

namespace Reader

section
variable (r : Reader) {text : Cell} {texts : List Cell}

theorem run_append (cs cs' : List Char) : r.run (cs ++ cs') = (r.run cs).bind (·.run cs') :=
  List.foldlM_append

theorem run_cons (c : Char) (cs : List Char) : r.run (c :: cs) = (r.step c).bind (·.run cs) :=
  List.foldlM_cons

@[simp] theorem run_nil : r.run [] = some r := rfl

theorem run_singleton (c : Char) : r.run [c] = r.step c := by
  rw [run_cons]
  exact Option.bind_fun_some _

theorem separate_of_not_special (hc : ¬Special c) : r.separate c = none := by
  simp only [Special, not_or] at hc
  simp [separate, hc]

theorem run_plain (hplace : r.place = .plain) (hcs : ∀ c ∈ cs, ¬Special c) :
    r.run cs = some { r with cell := r.cell ++ cs } := by
  induction cs generalizing r with
  | nil => simp
  | cons c cs ih =>
    obtain ⟨hc, hcs⟩ := List.forall_mem_cons.mp hcs
    have hstep : r.step c = some (r.add .plain c) := by
      simp [step, hplace, r.separate_of_not_special hc]
    rw [run_cons, hstep, Option.bind_some, ih (r.add .plain c) rfl hcs]
    simp [add, hplace]

theorem run_doubled (hplace : r.place = .inQuotes) (text : Cell) :
    r.run (doubled text) = some { r with cell := r.cell ++ text } := by
  induction text generalizing r with
  | nil => simp [doubled]
  | cons c cs ih =>
    by_cases hc : c = '"'
    · subst hc
      have hstep : r.step '"' = some { r with place := .quoteSeen } := by simp [step, hplace]
      have hagain : Reader.step { r with place := .quoteSeen } '"' =
          some (r.add .inQuotes '"') := by
        simp [step, add]
      simp only [doubled]
      rw [run_cons, hstep, Option.bind_some, run_cons, hagain, Option.bind_some,
        ih (r.add .inQuotes '"') rfl]
      simp [add, hplace]
    · have hdoubled : doubled (c :: cs) = c :: doubled cs := by
        rw [doubled]
        exact hc
      have hstep : r.step c = some (r.add .inQuotes c) := by simp [step, hplace, hc]
      rw [hdoubled, run_cons, hstep, Option.bind_some, ih (r.add .inQuotes c) rfl]
      simp [add, hplace]

/-- A cell may start. -/
def Starts : Prop := r.cell = [] ∧ (r.place = .rowStart ∨ r.place = .cellStart)

theorem run_quoted (h : r.Starts) (text : Cell) :
    r.run (quoted text) = some { r with place := .quoteSeen, cell := text } := by
  have hopen : r.step '"' = some { r with place := .inQuotes } := by
    obtain hplace | hplace := h.2 <;> simp [step, hplace]
  have hclose : Reader.step { r with place := .inQuotes, cell := text } '"' =
      some { r with place := .quoteSeen, cell := text } := by
    simp [step]
  rw [quoted, run_cons, hopen, Option.bind_some, run_append, run_doubled _ rfl, Option.bind_some,
    run_singleton, h.1]
  exact hclose

/-- A cell that is not written as nothing. -/
theorem run_writeCell (h : r.Starts) (hne : text ≠ []) :
    ∃ place, (place = .plain ∨ place = .quoteSeen) ∧
      r.run (writeCell text) = some { r with place := place, cell := text } := by
  rw [writeCell]
  split
  case isTrue => exact ⟨.quoteSeen, .inr rfl, r.run_quoted h text⟩
  case isFalse hspecial =>
    obtain ⟨c, cs, rfl⟩ := List.exists_cons_of_ne_nil hne
    have hplain : ∀ d ∈ c :: cs, ¬Special d := fun d hd hd' =>
      hspecial (List.any_eq_true.mpr ⟨d, hd, decide_eq_true hd'⟩)
    obtain ⟨hc, hcs⟩ := List.forall_mem_cons.mp hplain
    have hquote : c ≠ '"' := fun heq => hc (.inr (.inl heq))
    have hstep : r.step c = some (r.add .plain c) := by
      obtain hplace | hplace := h.2 <;>
        simp [step, hplace, hquote, r.separate_of_not_special hc]
    refine ⟨.plain, .inl rfl, ?_⟩
    rw [run_cons, hstep, Option.bind_some, run_plain _ rfl hcs]
    simp [add, h.1]

theorem writeCell_nil : writeCell [] = [] := if_neg (by simp)

theorem run_writeCell_comma (h : r.Starts) (text : Cell) :
    r.run (writeCell text ++ [',']) =
      some { r with place := .cellStart, cell := [], cells := r.cells ++ [text] } := by
  rw [run_append]
  by_cases htext : text = []
  · subst htext
    rw [writeCell_nil, run_nil, Option.bind_some, run_singleton]
    obtain hplace | hplace := h.2 <;> simp [step, hplace, separate, endCell, h.1]
  · obtain ⟨place, hplace, hrun⟩ := r.run_writeCell h htext
    rw [hrun, Option.bind_some, run_singleton]
    obtain rfl | rfl := hplace <;> simp [step, separate, endCell]

/-- The last cell of a row; where it is the only one as well, it is written as something. -/
theorem run_writeCell_return (h : r.Starts) (hne : text ≠ [] ∨ r.place = .cellStart) :
    r.run (writeCell text ++ ['\r']) =
      some { r with place := .returnSeen, cell := [], cells := r.cells ++ [text] } := by
  rw [run_append]
  by_cases htext : text = []
  · have hplace := hne.resolve_left fun hne => hne htext
    subst htext
    rw [writeCell_nil, run_nil, Option.bind_some, run_singleton]
    simp [step, hplace, separate, endCell, h.1]
  · obtain ⟨place, hplace, hrun⟩ := r.run_writeCell h htext
    rw [hrun, Option.bind_some, run_singleton]
    obtain rfl | rfl := hplace <;> simp [step, separate, endCell]

theorem run_writeCells (h : r.Starts) (hfirst : text :: texts ≠ [[]] ∨ r.place = .cellStart) :
    r.run (writeCells (text :: texts) ++ ['\r']) =
      some { r with place := .returnSeen, cell := [], cells := r.cells ++ text :: texts } := by
  induction texts generalizing r text with
  | nil =>
    have hcells : writeCells [text] = writeCell text := by simp [writeCells]
    rw [hcells]
    refine r.run_writeCell_return h (hfirst.imp_left fun hfirst htext => hfirst ?_)
    rw [htext]
  | cons next texts ih =>
    have hcells : writeCells (text :: next :: texts) =
        (writeCell text ++ [',']) ++ writeCells (next :: texts) := by
      rw [writeCells, writeCells, List.flatMap_cons, List.append_assoc, List.singleton_append,
        List.cons_append]
    rw [hcells, List.append_assoc, run_append, r.run_writeCell_comma h text, Option.bind_some,
      ih _ ⟨rfl, .inr rfl⟩ (.inr rfl), List.append_assoc, List.singleton_append]

end

/-- A row, from where one may start. -/
theorem run_writeRow (rows : List (List Cell)) (row : List Cell) :
    Reader.run { rows := rows } (writeRow row) = some { rows := rows ++ [row] } := by
  have hreturn : ∀ cells, Reader.step { place := .returnSeen, cells := cells, rows := rows } '\n' =
      some { rows := rows ++ [cells] } := fun _ => by simp [step, endRow]
  have hstarts : Reader.Starts { rows := rows } := ⟨rfl, .inl rfl⟩
  have hends : ∀ text : List Char,
      Reader.run { rows := rows } (text ++ ['\r']) =
        some { place := .returnSeen, cells := row, rows := rows } →
      Reader.run { rows := rows } (text ++ ['\r', '\n']) = some { rows := rows ++ [row] } := by
    intro text hrun
    have happ : text ++ ['\r', '\n'] = (text ++ ['\r']) ++ ['\n'] := by simp
    rw [happ, run_append, hrun, Option.bind_some, run_singleton]
    exact hreturn row
  apply hends
  split
  case isTrue hrow =>
    rw [run_append, run_quoted _ hstarts, Option.bind_some, run_singleton, hrow]
    simp [step, separate, endCell]
  case isFalse hrow =>
    cases row with
    | nil => simp [writeCells, run_singleton, step, separate]
    | cons text texts =>
      rw [run_writeCells _ hstarts (.inl hrow)]
      rfl

theorem run_write (rows rows' : List (List Cell)) :
    Reader.run { rows := rows } (write rows') = some { rows := rows ++ rows' } := by
  induction rows' generalizing rows with
  | nil => simp [write]
  | cons row rows' ih =>
    have hwrite : write (row :: rows') = writeRow row ++ write rows' := List.flatMap_cons
    rw [hwrite, run_append, run_writeRow, Option.bind_some, ih, List.append_assoc,
      List.singleton_append]

end Reader

theorem read_write (rows : List (List Cell)) : read (write rows) = some rows := by
  rw [read, Reader.run_write, Option.bind_some]
  rfl

end ComplyLayer.Theory.Csv

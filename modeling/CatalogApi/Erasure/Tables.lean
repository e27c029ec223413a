import Mathlib.Data.List.Sort
import Mathlib.Data.Rat.Defs

/-!
# Personal data in PostgreSQL

The tables that erasure and export of `api/routers/activity.py` touch, as lists of rows in table order.
Rows are kept by column name, so that a statement is the table, the key column and the columns that its
text names.
-/

namespace CatalogApi.Erasure

abbrev Column := String
abbrev UserId := String
abbrev SubjectId := String

inductive Table where
  | events
  | impressions
  | eventIdempotency
  | userSubjects
  | consentGrants
  | erasures
  | catalogItemMoves
  | observations
  | collectionSnapshots
  | ownedCopies
  | userCollections
  | userWantlists
  | syncHistory
  | appTokens
  | oauthTokens
  | users
  deriving DecidableEq

/-- A column value as psycopg loads it; `time` counts microseconds. -/
inductive Value where
  | null
  | bool (value : Bool)
  | int (value : Int)
  | float (value : ℚ)
  | text (value : String)
  | uuid (value : String)
  | decimal (value : ℚ)
  | time (value : Int)
  | list (items : List Value)
  | dict (entries : List (String × Value))

/-- The order of the columns that the export sorts by. -/
def Value.lt : Value → Value → Bool
  | .int a, .int b => a < b
  | .time a, .time b => a < b
  | .uuid a, .uuid b => a < b
  | _, _ => false

/-- A row by column; of two entries of one column the first holds. -/
abbrev Row := List (Column × Value)

namespace Row

/-- A column of the row; one that it lacks is null. -/
def get (row : Row) (column : Column) : Value :=
  (row.lookup column).getD .null

/-- `column = id`. -/
def keyed (column : Column) (id : String) (row : Row) : Bool :=
  match row.get column with
  | .uuid value => value = id
  | _ => false

/-- The text in a column. -/
def text (row : Row) (column : Column) : Option String :=
  match row.get column with
  | .text value => some value
  | _ => none

/-- `SET column = value`. -/
def set (row : Row) (column : Column) (value : Value) : Row :=
  (column, value) :: row

/-- A column that is not the key is set. -/
@[simp] theorem keyed_set {row : Row} {column other : Column} {id : String} {value : Value}
    (h : other ≠ column) : (row.set column value).keyed other id = row.keyed other id := by
  have hne : (other == column) = false := beq_eq_false_iff_ne.mpr h
  simp [keyed, get, set, List.lookup_cons, hne]

/-- The row is before the other in `ORDER BY columns`. -/
def before : List Column → Row → Row → Bool
  | [], _, _ => false
  | column :: columns, row, other =>
      (row.get column).lt (other.get column) ||
        (!((other.get column).lt (row.get column)) && before columns row other)

end Row

/-- All tables. -/
abbrev Database := Table → List Row

namespace Database

variable (db : Database)

/-- `DELETE FROM table WHERE column = id`. -/
def delete (table : Table) (column : Column) (id : String) : Database :=
  Function.update db table ((db table).filter fun row => ¬row.keyed column id)

/-- `SELECT columns FROM table WHERE column = id ORDER BY order`. -/
def select (columns : List Column) (table : Table) (column : Column) (id : String)
    (order : List Column) : List Row :=
  (((db table).filter fun row => row.keyed column id).insertionSort fun row other =>
    ¬other.before order row).map fun row => columns.map fun name => (name, row.get name)

/-- `UPDATE table SET ... WHERE column = id`. -/
def update (table : Table) (column : Column) (id : String) (change : Row → Row) : Database :=
  Function.update db table
    ((db table).map fun row => if row.keyed column id then change row else row)

/-- `INSERT INTO table`. -/
def insert (table : Table) (row : Row) : Database :=
  Function.update db table (db table ++ [row])

section Lemmas

variable {table other : Table} {column : Column} {id : String}

@[simp] theorem delete_same :
    db.delete table column id table = (db table).filter fun row => ¬row.keyed column id :=
  Function.update_self ..

@[simp] theorem delete_other (h : other ≠ table) : db.delete table column id other = db other :=
  Function.update_of_ne h ..

@[simp] theorem update_same {change : Row → Row} :
    db.update table column id change table =
      (db table).map fun row => if row.keyed column id then change row else row :=
  Function.update_self ..

@[simp] theorem update_other {change : Row → Row} (h : other ≠ table) :
    db.update table column id change other = db other :=
  Function.update_of_ne h ..

@[simp] theorem insert_same {row : Row} : db.insert table row table = db table ++ [row] :=
  Function.update_self ..

@[simp] theorem insert_other {row : Row} (h : other ≠ table) :
    db.insert table row other = db other :=
  Function.update_of_ne h ..

/-- A selection is empty when no row has the key. -/
theorem select_eq_nil {columns order : List Column} :
    db.select columns table column id order = [] ↔ ∀ row ∈ db table, ¬row.keyed column id := by
  rw [select, List.map_eq_nil_iff, ← List.length_eq_zero_iff, List.length_insertionSort,
    List.length_eq_zero_iff, List.filter_eq_nil_iff]

end Lemmas

end Database

end CatalogApi.Erasure

/-
From exported columns to a DataFrame (`tools/parsers/parser.rs`).

`toDataframe` reads the type of a column off its first value and refuses any value of
another one.  The columns come out of a `HashMap`, in any order.  What Polars makes of
a list of columns is a parameter.
-/
import Ra2m.Sim.History

namespace Ra2m

/-- What a column of values of one type becomes. -/
inductive Column where
  | text (values : List String)
  | scalar (values : List Nat)
  | array (values : List (List Nat))
  | null
  deriving DecidableEq, Repr

inductive ParserError (PolarsError : Type) where
  | mixedTypes (name : String)
  | polars (err : PolarsError)

variable {PolarsError DataFrame : Type}

def Traceable.text? : Traceable → Option String
  | text s => some s
  | _ => none

def Traceable.scalar? : Traceable → Option Nat
  | scalar v => some v
  | _ => none

def Traceable.array? : Traceable → Option (List Nat)
  | array data => some data
  | _ => none

/-- The values of a column, all of one type. -/
def collectAs {β : Type} (pick : Traceable → Option β) (name : String)
    (traceables : List Traceable) : Except (ParserError PolarsError) (List β) :=
  traceables.mapM fun t =>
    match pick t with
    | some v => .ok v
    | none => .error (.mixedTypes name)

/-- The column of the values, whose type is that of the first one. -/
def toColumn (name : String) (traceables : List Traceable) :
    Except (ParserError PolarsError) Column :=
  match traceables.head? with
  | some (.text _) => (collectAs Traceable.text? name traceables).map .text
  | some (.scalar _) => (collectAs Traceable.scalar? name traceables).map .scalar
  | some (.array _) => (collectAs Traceable.array? name traceables).map .array
  | none => .ok .null

/-- The columns, and the DataFrame Polars makes of them. -/
def toDataframe (newFrame : List (String × Column) → Except PolarsError DataFrame)
    (data : List (String × List Traceable)) : Except (ParserError PolarsError) DataFrame := do
  let column ← data.mapM fun col => (toColumn col.1 col.2).map fun values => (col.1, values)
  match newFrame column with
  | .ok frame => .ok frame
  | .error err => .error (.polars err)

end Ra2m

-- SUMMARY: The values of a TOML document, with how each table came about.
import DocLint.Decimal.Binary64

/-! # TOML values -/

namespace DocLint.Toml

/-- How a table came about. This decides what may still be added to it. -/
inductive Origin where
  /-- By a header of its own, or as the document itself. -/
  | explicit
  /-- By the header of a table inside it. -/
  | implied
  /-- By a dotted key. -/
  | dotted
  /-- By braces. -/
  | inline
  deriving DecidableEq, Repr

/-- The table has no header and no braces of its own. -/
def Origin.isImplicit : Origin → Bool
  | .implied | .dotted => true
  | .explicit | .inline => false

/-- A value. A table keeps its entries in order. -/
inductive Value where
  | string (text : String)
  | integer (n : Int)
  | float (x : Binary64)
  | boolean (b : Bool)
  /-- A date, a time, or both, as it is written. -/
  | dateTime (literal : String)
  | array (elements : List Value)
  | table (origin : Origin) (entries : List (String × Value))
  /-- The tables that headers in double brackets make. -/
  | tables (elements : List Value)
  deriving Repr

end DocLint.Toml

/-!
SQL flavors: how each writes placeholders, truth values and the mark in front of a string, and
whether a backslash in a string escapes the next character by default. The default flavor is
state of the program that renders.
-/

namespace DynamicSql

inductive Flavor where
  | mySql
  | postgreSql
  | sqlite
  | sqlServer
  | cql
  | clickHouse
  | oracle
  | doris
  deriving DecidableEq, Repr, Inhabited

namespace Flavor

def all : List Flavor :=
  [.mySql, .postgreSql, .sqlite, .sqlServer, .cql, .clickHouse, .oracle, .doris]

def name : Flavor → String
  | .mySql => "MySQL"
  | .postgreSql => "PostgreSQL"
  | .sqlite => "SQLite"
  | .sqlServer => "SQLServer"
  | .cql => "CQL"
  | .clickHouse => "ClickHouse"
  | .oracle => "Oracle"
  | .doris => "Doris"

/-- The placeholder of the `n`-th bind, counted from one. -/
def placeholder (f : Flavor) (n : Nat) : String :=
  match f with
  | .mySql | .sqlite | .cql | .clickHouse | .doris => "?"
  | .postgreSql => "$" ++ toString n
  | .sqlServer => "@p" ++ toString n
  | .oracle => ":" ++ toString n

def truth (f : Flavor) (b : Bool) : String :=
  match f with
  | .oracle => if b then "1" else "0"
  | _ => if b then "TRUE" else "FALSE"

def backslashEscapes : Flavor → Bool
  | .mySql | .clickHouse | .doris => true
  | _ => false

/-- What stands in front of the opening quote. -/
def stringMark (f : Flavor) (backslash : Bool) : String :=
  match f with
  | .postgreSql => if backslash then "E" else ""
  | .sqlServer => "N"
  | _ => ""

end Flavor

abbrev WithDefault := StateM Flavor

/-- Changes the default and gives the old one. -/
def setDefaultFlavor (f : Flavor) : WithDefault Flavor := do
  let old ← get
  set f
  return old

/-- Runs something under another default; at the end the old one is the default again. -/
def withDefaultFlavor (f : Flavor) (run : WithDefault α) : WithDefault α := do
  let old ← setDefaultFlavor f
  let a ← run
  set old
  return a

end DynamicSql

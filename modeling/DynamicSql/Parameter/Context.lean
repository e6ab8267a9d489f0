import DynamicSql.Parameter.Path
import DynamicSql.Parameter.Value

/-!
What a path means where a template is rendered. A name is looked up in the scopes from the
innermost one outwards, then in the scope of bound names, then in the root value, and `_parameter`
is the root value itself where nothing else has that name.
-/

namespace DynamicSql

abbrev Scope := Entries Value

inductive ResolveError where
  | notFound (path : String)
  | typeMismatch (path : String) (found : Kind)
  deriving DecidableEq, Repr

def ResolveError.message : ResolveError → String
  | .notFound path => "property path `" ++ path ++ "` not found"
  | .typeMismatch path found =>
    "property path `" ++ path ++ "` indexes into a " ++ found.name ++ " value"

/-- The scopes are listed from the innermost one outwards; the scope of bound names, which is
never popped, is kept apart. -/
structure Context where
  root : Value
  bound : Scope
  scopes : List Scope

namespace Context

def rootName : String := "_parameter"

def ofRoot (root : Value) : Context :=
  ⟨root, [], []⟩

/-- The scope of bound names counts. -/
def depth (c : Context) : Nat :=
  c.scopes.length + 1

def push (c : Context) (s : Scope) : Context :=
  { c with scopes := s :: c.scopes }

def pop? (c : Context) : Option (Scope × Context) :=
  match c.scopes with
  | [] => none
  | s :: outer => some (s, { c with scopes := outer })

/-- Binds a name for everything that is rendered from here on. -/
def define (c : Context) (name : String) (value : Value) : Context :=
  { c with bound := c.bound.insert name value }

/-- Drops the innermost scopes until at most `depth` are left, the scope of bound names
included. -/
def truncate (c : Context) (depth : Nat) : Context :=
  { c with scopes := c.scopes.drop (c.depth - depth) }

/-- Runs something under one more scope, and afterwards drops whatever scopes it left above the
ones that were there before. -/
def withScope (c : Context) (s : Scope) (run : Context → α × Context) : α × Context :=
  let (a, after) := run (c.push s)
  (a, after.truncate c.depth)

def ofRootName? (root : Value) (name : String) : Option Value :=
  match root with
  | .map es => (Entries.get? es name).or (if name = rootName then some root else none)
  | _ => if name = rootName then some root else none

def lookup? (c : Context) (name : String) : Option Value :=
  (c.scopes.findSome? (Entries.get? · name)).or
    ((c.bound.get? name).or (ofRootName? c.root name))

/-- One step of a path. A null has no parts, so every step into it finds nothing. -/
def step (p : Path) : Value → Segment → Except ResolveError Value
  | .map es, .key k =>
    match Entries.get? es k with
    | some v => .ok v
    | none => .error (.notFound p.source)
  | .list items, .index i =>
    match items[i]? with
    | some v => .ok v
    | none => .error (.notFound p.source)
  | .null, _ => .error (.notFound p.source)
  | v, _ => .error (.typeMismatch p.source v.kind)

def resolve (c : Context) (p : Path) : Except ResolveError Value :=
  match c.lookup? p.head with
  | none => .error (.notFound p.source)
  | some v => p.rest.foldlM (step p) v

end Context

end DynamicSql

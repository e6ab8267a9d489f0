import DynamicSql.Expression.Evaluation
import DynamicSql.Sql.Literal
import DynamicSql.Template.Fragment

/-!
Rendering a fragment tree. Two texts are built side by side, one with the literals of the bound
values and one with placeholders in their stead, and the bound values are listed in order. The
context and the list survive an error.
-/

namespace DynamicSql

/-- The two texts of one rendered piece. -/
structure Texts where
  sql : String
  parameterized : String
  deriving DecidableEq, Repr

namespace Texts

def both (s : String) : Texts := ⟨s, s⟩

def empty : Texts := both ""

def append (a b : Texts) : Texts :=
  ⟨a.sql ++ b.sql, a.parameterized ++ b.parameterized⟩

instance : Append Texts := ⟨append⟩

def map (f : String → String) (t : Texts) : Texts :=
  ⟨f t.sql, f t.parameterized⟩

/-- Only the text with literals decides. -/
def isBlank (t : Texts) : Bool :=
  Text.isBlank t.sql

/-- The pieces with a separator between them. -/
def separated (separator : Texts) : List Texts → Texts
  | [] => empty
  | [t] => t
  | t :: ts => t ++ separator ++ separated separator ts

/-- Blank pieces leave no separator behind. -/
def joined (separator : Texts) (pieces : List Texts) : Texts :=
  separated separator (pieces.filter fun t => !t.isBlank)

end Texts

structure Rendered where
  sql : String
  parameterized : String
  binds : List Value

def Rendered.empty : Rendered := ⟨"", "", []⟩

inductive RenderError where
  | resolve (e : ResolveError)
  | eval (source : String) (e : EvalError)
  | nonScalar (path : String) (found : Kind)
  | nonFinite (path shown : String)
  | notCollection (path : String) (found : Kind)

def RenderError.message : RenderError → String
  | .resolve e => e.message
  | .eval source e => "failed to evaluate `" ++ source ++ "`: " ++ e.message
  | .nonScalar path found => "`" ++ path ++ "` is a " ++ found.name ++ " value, expected a scalar"
  | .nonFinite path shown => "`" ++ path ++ "` is a non-finite number (" ++ shown ++ ")"
  | .notCollection path found =>
    "foreach collection `" ++ path ++ "` is a " ++ found.name ++ " value, expected a list or map"

/-- Names the path whose value has no literal. -/
def LiteralError.at (p : Path) : LiteralError → RenderError
  | .nonScalar found => .nonScalar p.source found
  | .nonFinite shown => .nonFinite p.source shown

structure RenderState where
  context : Context
  binds : Array Value

abbrev Render := ExceptT RenderError (StateM RenderState)

namespace Render

def resolve (p : Path) : Render Value := do
  match (← get).context.resolve p with
  | .ok v => return v
  | .error e => throw (.resolve e)

/-- A path error in a test is an error of the path, not of the test. -/
def test (e : Expression) : Render Bool := do
  match e.test (← get).context with
  | .ok b => return b
  | .error (.resolve err) => throw (.resolve err)
  | .error err => throw (.eval e.source err)

/-- Adds a bound value and gives its number, counted from one. -/
def record (v : Value) : Render Nat :=
  modifyGet fun ⟨context, binds⟩ => (binds.size + 1, ⟨context, binds.push v⟩)

def placeholder (o : Options) (p : Path) : Render Texts := do
  let v ← resolve p
  match o.literal v with
  | .error e => throw (e.at p)
  | .ok sql => return ⟨sql, o.flavor.placeholder (← record v)⟩

def raw (p : Path) : Render Texts := do
  match (← resolve p).raw with
  | .ok s => return .both s
  | .error e => throw (e.at p)

def bind (name : String) (e : Expression) : Render Texts := do
  let s ← get
  match e.value s.context with
  | .ok v =>
    set { s with context := s.context.define name v }
    return .empty
  | .error err => throw (.eval e.source err)

/-- Whatever happens inside, the scopes are as before afterwards. -/
def withScope (scope : Scope) (run : Render α) : Render α :=
  ExceptT.mk fun ⟨context, binds⟩ =>
    let ((a, binds), context) := context.withScope scope fun c =>
      let (a, ⟨context, binds⟩) := run.run ⟨c, binds⟩
      ((a, binds), context)
    (a, ⟨context, binds⟩)

/-- The entries of a collection with their indices; nothing for a missing one or a null. -/
def entries (p : Path) : Render (List (Value × Value)) := do
  match (← get).context.resolve p with
  | .error (.notFound _) => return []
  | .error e => throw (.resolve e)
  | .ok .null => return []
  | .ok (.list items) =>
    return items.zipIdx.map fun (v, i) => (.number (.uint (UInt64.ofNat i)), v)
  | .ok (.map es) => return es.map fun (k, v) => (.text k, v)
  | .ok v => throw (.notCollection p.source v.kind)

/-- Where item and index have one name, the index wins. -/
def entryScope (spec : Loop) (index item : Value) : Scope :=
  let scope : Scope := [(spec.item, item)]
  match spec.index with
  | some name => scope.insert name index
  | none => scope

def eachEntry (spec : Loop) (body : Render Texts) : List (Value × Value) → Render (List Texts)
  | [] => return []
  | (index, item) :: es => do
    let piece ← withScope (entryScope spec index item) body
    return piece :: (← eachEntry spec body es)

def loop (spec : Loop) (body : Render Texts) : Render Texts := do
  match ← eachEntry spec body (← entries spec.collection) with
  | [] => return .empty
  | pieces =>
    return .both (spec.before.getD "") ++
      Texts.joined (.both (spec.separator.getD "")) pieces ++ .both (spec.after.getD "")

end Render

namespace Fragment

mutual

def render (o : Options) : Fragment → Render Texts
  | .text s => return .both s
  | .placeholder p => Render.placeholder o p
  | .raw p => Render.raw p
  | .conditional t body => do if ← Render.test t then body.render o else return .empty
  | .choose branches otherwise => renderChoice o (renderOption o otherwise) branches
  | .loop spec body => Render.loop spec (body.render o)
  | .trim spec body => return (← body.render o).map spec.apply
  | .bind name e => Render.bind name e
  | .seq items => renderAll o items

def renderAll (o : Options) : List Fragment → Render Texts
  | [] => return .empty
  | f :: fs => do
    let t ← f.render o
    return t ++ (← renderAll o fs)

def renderOption (o : Options) : Option Fragment → Render Texts
  | none => return .empty
  | some f => f.render o

def renderChoice (o : Options) (otherwise : Render Texts) :
    List (Expression × Fragment) → Render Texts
  | [] => otherwise
  | (t, body) :: branches => do
    if ← Render.test t then body.render o else renderChoice o otherwise branches

end

/-- Renders under a context, and gives the context as it is afterwards. -/
def renderUnder (f : Fragment) (o : Options) (c : Context) :
    Except RenderError Rendered × Context :=
  let (r, s) := (f.render o).run ⟨c, #[]⟩
  (r.map fun t => ⟨t.sql, t.parameterized, s.binds.toList⟩, s.context)

end Fragment

end DynamicSql

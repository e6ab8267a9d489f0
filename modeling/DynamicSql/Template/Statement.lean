import DynamicSql.Template.Body
import DynamicSql.Template.Rendering

/-!
Statements: fragment trees with an id and the text they were made from. A script is made from a
template of its own, the other kinds are children of a mapper element.
-/

namespace DynamicSql

open Markup

inductive StatementKind where
  | select
  | insert
  | update
  | delete
  | script
  deriving DecidableEq, Repr

def StatementKind.name : StatementKind → String
  | .select => "select"
  | .insert => "insert"
  | .update => "update"
  | .delete => "delete"
  | .script => "script"

/-- The kinds that a mapper has tags for. -/
def StatementKind.ofTag? : String → Option StatementKind
  | "select" => some .select
  | "insert" => some .insert
  | "update" => some .update
  | "delete" => some .delete
  | _ => none

structure Statement where
  id : String
  kind : StatementKind
  source : String
  root : Fragment

def readMarkup (source : String) : Except TemplateError Element :=
  match Markup.read source with
  | .ok e => .ok e
  | .error e => .error (.xml e)

/-- A template is an element of its own if it starts like one, else the content of one. -/
def scriptElement (template : String) : Except TemplateError Element :=
  let trimmed := Text.trimStart template
  if "<script".toList.isPrefixOf trimmed.toList then readMarkup trimmed
  else readMarkup ("<script>" ++ template ++ "</script>")

def scriptFragment (template : String) : Except TemplateError Fragment := do
  let e ← scriptElement template
  return .seq (← bodyFragments [] [] e.children)

def Statement.script (id template : String) : Except TemplateError Statement := do
  return ⟨id, .script, template, ← scriptFragment template⟩

namespace Mapper

def qualified (space id : String) : String :=
  space ++ "." ++ id

/-- A snippet is known by its id and by its qualified id; a later one takes over both names. -/
def snippetsFrom (space : String) (table : Snippets) :
    List Content → Except TemplateError Snippets
  | [] => .ok table
  | .text _ :: cs => snippetsFrom space table cs
  | .element tag children :: cs =>
    if tag.name = "sql" then do
      let id ← tag.required "id"
      let snippet : Snippet := ⟨id, children⟩
      snippetsFrom space
        (Entries.insert (Entries.insert table id snippet) (qualified space id) snippet) cs
    else snippetsFrom space table cs

def statementsFrom (space : String) (table : Snippets) (done : Entries Statement) :
    List Content → Except TemplateError (Entries Statement)
  | [] => .ok done
  | .text _ :: cs => statementsFrom space table done cs
  | .element tag children :: cs =>
    match StatementKind.ofTag? tag.name with
    | none => statementsFrom space table done cs
    | some kind => do
      let id := qualified space (← tag.required "id")
      if done.contains id then .error (.duplicateStatement id)
      else
        let body ← bodyFragments table [] children
        statementsFrom space table (done ++ [(id, ⟨id, kind, tag.inner, .seq body⟩)]) cs

/-- The statements among the children of an element by their ids, in order. Other children are
skipped. -/
def statements (space : String) (children : List Content) :
    Except TemplateError (Entries Statement) := do
  let table ← snippetsFrom space [] children
  statementsFrom space table [] children

def ofElement (e : Element) : Except TemplateError (Entries Statement) :=
  if e.tag.name = "mapper" then do
    statements (← e.tag.required "namespace") e.children
  else .error (.unexpectedRoot e.tag.name)

def ofSource (source : String) : Except TemplateError (Entries Statement) := do
  ofElement (← readMarkup source)

end Mapper

end DynamicSql

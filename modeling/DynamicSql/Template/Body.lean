import DynamicSql.Template.Error

/-!
The content of a template element as fragments. An include stands for the content of the snippet
it names; a snippet that is being included cannot be included again inside itself, so the number
of snippets that are not open bounds the depth.
-/

namespace DynamicSql

namespace Markup.Tag

/-- A required attribute must not be blank. -/
def required (t : Tag) (name : String) : Except TemplateError String :=
  match t.attributes.get? name with
  | some v => if Text.isBlank v then .error (.missingAttribute t.name name t.line) else .ok v
  | none => .error (.missingAttribute t.name name t.line)

/-- An optional attribute that is empty is not there. -/
def optional (t : Tag) (name : String) : Option String :=
  (t.attributes.get? name).filter fun v => !v.isEmpty

def expression (t : Tag) (name : String) : Except TemplateError Expression := do
  match Expression.read (← t.required name) with
  | .ok e => .ok e
  | .error e => .error (.invalidExpression t.name t.line e)

def path (t : Tag) (name : String) : Except TemplateError Path := do
  match Path.read (← t.required name) with
  | .ok p => .ok p
  | .error e => .error (.invalidPath e)

def splitBars : List Char → List (List Char)
  | [] => [[]]
  | '|' :: cs => [] :: splitBars cs
  | c :: cs =>
    match splitBars cs with
    | w :: ws => (c :: w) :: ws
    | [] => [[c]]

/-- Words with bars between them; blanks belong to the words, and empty words are none. -/
def words (t : Tag) (name : String) : List String :=
  match t.optional name with
  | some v => ((splitBars v.toList).filter (· ≠ [])).map String.ofList
  | none => []

def endsBlank (s : String) : Bool :=
  s.toList.getLast?.any Text.isBlankChar

def startsBlank (s : String) : Bool :=
  s.toList.head?.any Text.isBlankChar

/-- Decorations are set off by a space unless they bring a blank of their own. -/
def trim (t : Tag) : Trim where
  leading := (t.optional "prefix").map fun p => if endsBlank p then p else p ++ " "
  leadingOverrides := t.words "prefixOverrides"
  trailing := (t.optional "suffix").map fun s => if startsBlank s then s else " " ++ s
  trailingOverrides := t.words "suffixOverrides"

def loop (t : Tag) : Except TemplateError Loop := do
  let collection ← t.path "collection"
  let item ← t.required "item"
  return {
    collection
    item := Text.trim item
    index := (t.optional "index").map Text.trim
    before := t.optional "open"
    after := t.optional "close"
    separator := t.optional "separator" }

end Markup.Tag

open Markup

/-- A named piece of markup to be included elsewhere. -/
structure Snippet where
  id : String
  children : List Content

abbrev Snippets := Entries Snippet

/-- The snippets of the table that are not open, counted with repetitions. -/
def Snippets.unopened (table : Snippets) (opened : List String) : Nat :=
  ((table.map fun e => e.2.id).filter fun id => id ∉ opened).length

theorem Snippets.id_mem_of_get? {table : Snippets} {name : String} {s : Snippet}
    (h : Entries.get? table name = some s) : s.id ∈ table.map fun e => e.2.id := by
  induction table with
  | nil => simp [Entries.get?] at h
  | cons e es ih =>
    simp only [Entries.get?] at h
    split at h
    · simp only [Option.some.injEq] at h
      simp [← h]
    · exact List.mem_cons_of_mem _ (ih h)

theorem Snippets.unopened_lt {table : Snippets} {name : String} {s : Snippet}
    {opened : List String} (h : Entries.get? table name = some s) (ho : s.id ∉ opened) :
    unopened table (s.id :: opened) < unopened table opened := by
  have hm := id_mem_of_get? h
  have hf : (table.map fun e => e.2.id).filter (fun id => id ∉ s.id :: opened) =
      ((table.map fun e => e.2.id).filter fun id => id ∉ opened).filter (· ≠ s.id) := by
    rw [List.filter_filter]
    congr 1
    funext id
    simp
  rw [unopened, unopened, hf]
  exact List.length_filter_lt_length_iff_exists.2
    ⟨s.id, List.mem_filter.2 ⟨hm, by simpa using ho⟩, by simp⟩

/-- The path of a marker ends at the first comma; options behind it do not count. -/
def TextPart.fragment (source : String) : TextPart → Except TemplateError Fragment
  | .text cs => .ok (.text (String.ofList cs))
  | .unclosed mark => .error (.unclosedMarker mark source)
  | .marker mark content =>
    match Path.read (String.ofList (content.takeWhile (· != ','))) with
    | .error e => .error (.invalidPath e)
    | .ok p =>
      match mark with
      | .bound => .ok (.placeholder p)
      | .raw => .ok (.raw p)

/-- The fragments of a text; the first marker that is no good gives the error. -/
def textFragments (s : String) : Except TemplateError (List Fragment) :=
  (TextPart.ofChars none s.toList).mapM (TextPart.fragment s)

/-- The parts of a choice: its branches and what is rendered where none of them holds. -/
abbrev Choice := List (Expression × Fragment) × Option Fragment

def isBlankText : Content → Bool
  | .text s => Text.isBlank s
  | .element _ _ => false

mutual

def bodyFragments (table : Snippets) (opened : List String) (children : List Content) :
    Except TemplateError (List Fragment) :=
  match children with
  | [] => .ok []
  | .text s :: cs => do
    let fs ← textFragments s
    return fs ++ (← bodyFragments table opened cs)
  | .element tag children :: cs => do
    let f ← elementFragment table opened tag children
    return f :: (← bodyFragments table opened cs)
termination_by (table.unopened opened, sizeOf children)

def elementFragment (table : Snippets) (opened : List String) (tag : Tag)
    (children : List Content) : Except TemplateError Fragment :=
  match tag.name with
  | "if" => do
    let test ← tag.expression "test"
    return .conditional test (.seq (← bodyFragments table opened children))
  | "choose" => do
    let (branches, otherwise) ← choiceFragments table opened tag.line children
    return .choose branches otherwise
  | "foreach" => do
    let spec ← tag.loop
    return .loop spec (.seq (← bodyFragments table opened children))
  | "trim" => do
    return .trim tag.trim (.seq (← bodyFragments table opened children))
  | "set" => do
    return .trim .setClause (.seq (← bodyFragments table opened children))
  | "where" => do
    return .trim .whereClause (.seq (← bodyFragments table opened children))
  | "bind" => do
    let name ← tag.required "name"
    return .bind (Text.trim name) (← tag.expression "value")
  | "include" => do
    let refid := Text.trim (← tag.required "refid")
    match _ : Entries.get? table refid with
    | none => .error (.unknownInclude refid)
    | some snippet =>
      if snippet.id ∈ opened then .error (.circularInclude refid)
      else return .seq (← bodyFragments table (snippet.id :: opened) snippet.children)
  | "when" | "otherwise" => .error (.misplacedTag tag.name tag.line)
  | _ => .error (.unknownTag tag.name tag.line)
termination_by (table.unopened opened, sizeOf children + 1)
decreasing_by
  all_goals try (simp [Prod.lex_def]; done)
  exact Prod.Lex.left _ _ (Snippets.unopened_lt ‹_› ‹_›)

/-- Blank texts between the branches do not count, and nothing comes after `otherwise`. -/
def choiceFragments (table : Snippets) (opened : List String) (line : Nat)
    (children : List Content) : Except TemplateError Choice :=
  match children with
  | [] => .ok ([], none)
  | .text s :: cs =>
    if Text.isBlank s then choiceFragments table opened line cs else .error (.invalidChoose line)
  | .element tag children :: cs =>
    if tag.name = "when" then do
      let test ← tag.expression "test"
      let body ← bodyFragments table opened children
      let (branches, otherwise) ← choiceFragments table opened line cs
      return ((test, .seq body) :: branches, otherwise)
    else if tag.name = "otherwise" then do
      let body ← bodyFragments table opened children
      if cs.all isBlankText then return ([], some (.seq body)) else .error (.invalidChoose line)
    else .error (.invalidChoose line)
termination_by (table.unopened opened, sizeOf children)

end

end DynamicSql

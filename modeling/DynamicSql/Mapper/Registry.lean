import DynamicSql.Mapper.Discovery
import DynamicSql.Template.Statement

/-!
A registry of statements by id and of the providers that render them. Loading is all or nothing:
where one of the sources has a fault or an id comes twice, no statement is added.
-/

namespace DynamicSql

/-- A way to turn a statement and a parameter bag into SQL. -/
structure Provider where
  render : Statement → Value → Except RenderError Rendered

/-- Renders the fragments of the statement. -/
def Provider.ofOptions (o : Options) : Provider where
  render s params := (s.root.renderUnder o (Context.ofRoot params)).1

/-- The name of the provider that is used where none is named. -/
def builtinProvider : String := "mybatis"

/-- Why nothing was loaded. A pattern of file names is never the reason, since `Location.discoverIn`
has no limit on the size of one. -/
inductive LoadError where
  | unreadable (path : String) (e : ReadError)
  | template (name : String) (e : TemplateError)
  | duplicateStatement (id : String)

def LoadError.message : LoadError → String
  | .unreadable path e => "failed to read `" ++ path ++ "`: " ++ e.message
  | .template name e => "failed to compile `" ++ name ++ "`: " ++ e.message
  | .duplicateStatement id => "duplicate statement id `" ++ id ++ "`"

inductive RegistryError where
  | unknownProvider (name : String)
  | unknownStatement (id : String)
  | load (e : LoadError)
  | render (e : RenderError)

def RegistryError.message : RegistryError → String
  | .unknownProvider name => "unknown sql provider `" ++ name ++ "`"
  | .unknownStatement id => "unknown statement `" ++ id ++ "`"
  | .load e => e.message
  | .render e => e.message

/-- A mapper document and the name that errors give it. -/
structure Source where
  name : String
  text : String

structure Registry where
  statements : Entries Statement := []
  providers : Entries Provider

namespace Registry

def ofProvider (p : Provider) : Registry where
  providers := [(builtinProvider, p)]

/-- A registry whose one provider renders with the default options. -/
def new : WithDefault Registry :=
  return ofProvider (.ofOptions (← defaultOptions))

def register (r : Registry) (name : String) (p : Provider) : Registry :=
  { r with providers := r.providers.insert name p }

/-- Adds the statements of one source to those staged so far. -/
def stageAll (staged : Entries Statement) : Entries Statement → Except LoadError (Entries Statement)
  | [] => .ok staged
  | (id, s) :: ss =>
    if staged.contains id then .error (.duplicateStatement id)
    else stageAll (staged ++ [(id, s)]) ss

def stage (staged : Entries Statement) : List Source → Except LoadError (Entries Statement)
  | [] => .ok staged
  | source :: sources =>
    match Mapper.ofSource source.text with
    | .error e => .error (.template source.name e)
    | .ok statements => do stage (← stageAll staged statements) sources

/-- What adds statements may fail, and whatever it has changed until then stays changed. -/
abbrev Change := ExceptT LoadError (StateM Registry)

/-- Gives the number of statements added. Ids that clash with each other are found before those
that clash with the registry. -/
def loadSources (sources : List Source) : Change Nat := do
  let staged ← liftExcept (stage [] sources)
  let r ← get
  match staged.keys.find? r.statements.contains with
  | some id => throw (.duplicateStatement id)
  | none =>
    set { r with statements := r.statements.extend staged }
    return staged.length

def loadSource (s : Source) : Change Nat :=
  loadSources [s]

/-- Loads a source that comes as bytes, if they come at all. -/
def loadBytes (name : String) (bytes : Except ReadError ByteArray) : Change Nat :=
  match bytes.bind FileTree.decodeText with
  | .ok text => loadSource ⟨name, text⟩
  | .error e => throw (.unreadable name e)

def readSource (t : FileTree) (path : String) : Except LoadError Source :=
  match t.readText path with
  | .ok text => .ok ⟨path, text⟩
  | .error e => .error (.unreadable path e)

/-- Loads all files at a location; all of them are read before the first one is looked into. -/
def load (t : FileTree) (location : String) : Change Nat := do
  loadSources (← liftExcept ((Location.discover t location).mapM (readSource t)))

def addTemplate (id template : String) : Change Unit := do
  match Statement.script id template with
  | .error e => throw (.template id e)
  | .ok s =>
    let r ← get
    if r.statements.contains id then throw (.duplicateStatement id)
    else set { r with statements := r.statements.insert id s }

def statement? (r : Registry) (id : String) : Option Statement :=
  r.statements.get? id

/-- The text a statement was made from. -/
def template? (r : Registry) (id : String) : Option String :=
  (r.statement? id).map Statement.source

def contains (r : Registry) (id : String) : Bool :=
  r.statements.contains id

def size (r : Registry) : Nat :=
  r.statements.length

/-- The ids in the order of their characters. -/
def ids (r : Registry) : List String :=
  r.statements.keys.mergeSort fun a b => !decide (b < a)

def provider (r : Registry) (name : String) : Except RegistryError Provider :=
  match r.providers.get? name with
  | some p => .ok p
  | none => .error (.unknownProvider name)

def runProvider (p : Provider) (s : Statement) (params : Value) : Except RegistryError Rendered :=
  match p.render s params with
  | .ok rendered => .ok rendered
  | .error e => .error (.render e)

/-- A blank id renders to nothing, whatever the provider. -/
def renderStatement (r : Registry) (id : String) (params : Value)
    (providerName : String := builtinProvider) : Except RegistryError Rendered :=
  if Text.isBlank id then .ok .empty
  else do
    let p ← r.provider providerName
    match r.statement? id with
    | none => .error (.unknownStatement id)
    | some s => runProvider p s params

/-- Renders a template without registering it. -/
def renderTemplate (r : Registry) (template : String) (params : Value)
    (providerName : String := builtinProvider) : Except RegistryError Rendered :=
  if Text.isBlank template then .ok .empty
  else do
    let p ← r.provider providerName
    match Statement.script "" template with
    | .error e => .error (.load (.template "<template>" e))
    | .ok s => runProvider p s params

end Registry

end DynamicSql

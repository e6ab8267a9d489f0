import DynamicSql.Mapper.FileTree
import DynamicSql.Text.Blank

/-!
Finding files by a location with wildcards. The parts before the first one with a wildcard name
the directory to search, at any depth, and the last part is the pattern of the file names.

Every pattern can be matched here. Where file names are matched by a compiled regular expression, a
pattern can be too large for the limit on the size of one, and the search then ends with an error
that names the pattern. That limit and that error are left out.
-/

namespace DynamicSql

/-- One character that is admitted, and then what the rest of a pattern makes of the suffix behind
it. Both lists are about the suffixes of a name, the name itself first and the empty one last. -/
def matchesOne (admits : Char → Bool) : List Char → List Bool → List Bool
  | c :: cs, _ :: bs => (admits c && bs.headD false) :: matchesOne admits cs bs
  | _, _ => [false]

/-- Any number of characters on one line, and then the rest of a pattern. -/
def matchesMany : List Char → List Bool → List Bool
  | c :: cs, b :: bs =>
    let rest := matchesMany cs bs
    (b || (c != '\n' && rest.headD false)) :: rest
  | _, bs => bs

/-- Which suffixes of a name a pattern matches. -/
def matchingSuffixes (pattern name : List Char) : List Bool :=
  match pattern with
  | [] => name.map (fun _ => false) ++ [true]
  | '*' :: ps => matchesMany name (matchingSuffixes ps name)
  | '?' :: ps => matchesOne (· != '\n') name (matchingSuffixes ps name)
  | p :: ps => matchesOne (· == p) name (matchingSuffixes ps name)

/-- `*` stands for any characters on one line and `?` for one of them. -/
def matchesPattern (pattern name : List Char) : Bool :=
  (matchingSuffixes pattern name).headD false

namespace Location

def defaultLocation : String := "mapper/*.xml"

def hasWildcard (s : String) : Bool :=
  s.toList.any fun c => c == '*' || c == '?'

/-- The parts of a path that count: a slash or point at the very start is one, and other points
and repeated slashes are none. -/
def components (path : String) : List String :=
  let parts := pathParts path
  let kept := parts.filter fun p => p ≠ "" ∧ p ≠ "."
  match parts with
  | "" :: _ :: _ => "/" :: kept
  | "." :: _ => "." :: kept
  | _ => kept

def isName (component : String) : Bool :=
  component != "/" && component != "." && component != ".."

def isWild (component : String) : Bool :=
  isName component && hasWildcard component

/-- The components of the directory to search, and the pattern. -/
def split (path : String) : List String × String :=
  let cs := components path
  let wild := cs.dropWhile fun c => !isWild c
  (cs.takeWhile fun c => !isWild c, ((wild.filter isName).getLast?).getD "")

/-- Components as a path again. -/
def joined : List String → String
  | [] => ""
  | [c] => c
  | "/" :: cs => "/" ++ joined cs
  | c :: cs => c ++ "/" ++ joined cs

/-- Names are compared one after the other by their characters. -/
def pathLe : List String → List String → Bool
  | [], _ => true
  | _ :: _, [] => false
  | a :: as, b :: bs => if a = b then pathLe as bs else decide (a < b)

def searchBase (base : List String) : List String :=
  if base = [] then ["."] else base

/-- The files below a directory whose names match a pattern, sorted by their components. -/
def search (fs : FileSystem) (base : List String) (pattern : String) : List String :=
  match fs (joined base) with
  | .ok (.directory entries) =>
    let found := (File.plainFilesIn entries).filter fun names =>
      names.getLast?.any fun name => matchesPattern pattern.toList name.toList
    (found.mergeSort pathLe).map fun names => joined (base ++ names)
  | _ => []

/-- A location without wildcards is the file itself, whether it exists or not. -/
def discoverIn (fs : FileSystem) (location : String) : List String :=
  let trimmed := Text.trim location
  let path := if trimmed = "" then defaultLocation else trimmed
  if hasWildcard path then
    let (base, pattern) := split path
    search fs (searchBase base) pattern
  else [path]

def discover (t : FileTree) (location : String) : List String :=
  discoverIn t.lookup location

end Location

end DynamicSql

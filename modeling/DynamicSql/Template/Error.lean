import DynamicSql.Expression.Parser
import DynamicSql.Markup.Element
import DynamicSql.Template.Marker

/-!
Why a document makes no templates.
-/

namespace DynamicSql

inductive TemplateError where
  | xml (e : Markup.XmlError)
  | unexpectedRoot (name : String)
  | unknownTag (tag : String) (line : Nat)
  | misplacedTag (tag : String) (line : Nat)
  | invalidChoose (line : Nat)
  | missingAttribute (tag name : String) (line : Nat)
  | duplicateStatement (id : String)
  | invalidExpression (tag : String) (line : Nat) (e : Expression.ParseError)
  | invalidPath (e : PathError)
  | unclosedMarker (mark : Mark) (text : String)
  | unknownInclude (refid : String)
  | circularInclude (refid : String)

def atLine (tag : String) (line : Nat) : String :=
  "<" ++ tag ++ "> at line " ++ toString line

def TemplateError.message : TemplateError → String
  | .xml e => e.message
  | .unexpectedRoot name => "expected a <mapper> root element, found <" ++ name ++ ">"
  | .unknownTag tag line => "unknown tag " ++ atLine tag line
  | .misplacedTag tag line => atLine tag line ++ " is only allowed directly inside <choose>"
  | .invalidChoose line =>
    atLine "choose" line ++ " may only contain <when> and a single <otherwise>"
  | .missingAttribute tag name line =>
    atLine tag line ++ " is missing required attribute `" ++ name ++ "`"
  | .duplicateStatement id => "duplicate statement id `" ++ id ++ "`"
  | .invalidExpression tag line e =>
    "invalid expression in " ++ atLine tag line ++ ": " ++ e.message
  | .invalidPath e => e.message
  | .unclosedMarker mark text => "unclosed `" ++ mark.opening ++ "` in text `" ++ text ++ "`"
  | .unknownInclude refid =>
    "<include refid=\"" ++ refid ++ "\"> refers to an unknown <sql> fragment"
  | .circularInclude refid => "circular <include> of `" ++ refid ++ "`"

end DynamicSql

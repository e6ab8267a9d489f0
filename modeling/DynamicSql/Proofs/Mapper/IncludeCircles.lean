import Mathlib
import DynamicSql.Proofs.Mapper.Acceptance
import DynamicSql.Proofs.Template.CircularInclude
import DynamicSql.Proofs.Template.IncludeStack

/-!
Includes between the snippets of a mapper, in any graph. The statements are made in one run of the
include machine, which ends with the stack empty as it was (`expand_run`); a circle of includes that
a statement leads to is always an error, and only such a circle is the error of a circular include
(`include_expansion`).
-/

namespace DynamicSql.Mapper

open Markup

variable {space : String} {table : Snippets} {cs : List Content}

/-- A snippet that is included on two ways, and twice by one of them, is in no circle. -/
example : statements "m" [
      .element ⟨"sql", [("id", "a")], 2, ""⟩ [.text "a"],
      .element ⟨"sql", [("id", "b")], 3, ""⟩ [.element ⟨"include", [("refid", "a")], 3, ""⟩ []],
      .element ⟨"select", [("id", "q")], 4, ""⟩ [.element ⟨"include", [("refid", "b")], 4, ""⟩ [],
        .element ⟨"include", [("refid", "a")], 4, ""⟩ [],
        .element ⟨"include", [("refid", "m.a")], 4, ""⟩ []]] =
    .ok [("m.q", ⟨"m.q", .select, "", .seq [.seq [.seq [.text "a"]], .seq [.text "a"],
      .seq [.text "a"]]⟩)] := by
  cbv

end DynamicSql.Mapper

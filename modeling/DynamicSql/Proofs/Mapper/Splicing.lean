import DynamicSql.Proofs.Mapper.Elements
import DynamicSql.Proofs.Template.Splice

/-!
A mapper whose statements have their snippets in place makes the same statements as the mapper that
includes them, as far as rendering can tell (`statements_spliced`).
-/

namespace DynamicSql

open Markup

namespace Mapper

/-- The snippets of a mapper under all their names. -/
def snippetTable (space : String) (children : List Content) : Snippets :=
  (snippets children).foldl (addSnippet space) []

def spliceStatement (table : Snippets) : Content → Content
  | .text s => .text s
  | .element tag children =>
    match StatementKind.ofTag? tag.name with
    | some _ => .element tag (splice table [] children)
    | none => .element tag children

/-- The children of a mapper, with the snippets in place in its statements. -/
def spliced (space : String) (children : List Content) : List Content :=
  children.map (spliceStatement (snippetTable space children))

def StatementElement.spliced (table : Snippets) (e : StatementElement) : StatementElement :=
  { e with children := splice table [] e.children }

variable {space : String} {table : Snippets}

theorem snippetElement?_spliceStatement (c : Content) :
    snippetElement? (spliceStatement table c) = snippetElement? c := by
  cases c with
  | text s => rfl
  | element tag children =>
    rw [spliceStatement]
    split
    · next kind hkind =>
      have hname : tag.name ≠ "sql" := by
        intro hname
        rw [hname] at hkind
        cases hkind
      exact (if_neg hname).trans (if_neg hname).symm
    · rfl

theorem statementElement?_spliceStatement (c : Content) :
    statementElement? (spliceStatement table c) =
      (statementElement? c).map (StatementElement.spliced table) := by
  cases c with
  | text s => rfl
  | element tag children =>
    rw [spliceStatement]
    split
    · next kind hkind =>
      rw [statementElement?, statementElement?, hkind]
      rfl
    · next hkind =>
      rw [statementElement?, hkind]
      rfl

theorem snippetElements_spliced (cs : List Content) :
    snippetElements (spliced space cs) = snippetElements cs := by
  rw [snippetElements, spliced, List.filterMap_map]
  exact List.filterMap_congr fun c _ => snippetElement?_spliceStatement c

theorem statementElements_spliced (cs : List Content) :
    statementElements (spliced space cs) =
      (statementElements cs).map (StatementElement.spliced (snippetTable space cs)) := by
  rw [statementElements, spliced, List.filterMap_map, statementElements, List.map_filterMap]
  exact List.filterMap_congr fun c _ => statementElement?_spliceStatement c

/-- One statement under the same id as another, that renders as the other does. -/
def StandsFor (entry other : String × Statement) : Prop :=
  entry.1 = other.1 ∧ entry.2.root.RendersAs other.2.root

theorem Enters.spliced {e : StatementElement} {entry : String × Statement}
    (h : Enters space table e entry) :
    ∃ entry', (∀ table', Enters space table' (e.spliced table) entry') ∧
      StandsFor entry' entry := by
  rcases h with ⟨id, fs, hid, hfs, rfl⟩
  rcases (splice_renders table [] e.children).1 fs hfs with ⟨fs', hfs', hrenders⟩
  exact ⟨_, fun table' => ⟨id, fs', hid, hfs' table' [], rfl⟩, rfl, hrenders⟩

theorem enters_spliced {elements : List StatementElement} {es : Entries Statement}
    (h : List.Forall₂ (Enters space table) elements es) :
    ∃ es', (∀ table', List.Forall₂ (Enters space table')
        (elements.map (StatementElement.spliced table)) es') ∧
      List.Forall₂ StandsFor es' es := by
  induction h with
  | nil => exact ⟨[], fun _ => .nil, .nil⟩
  | cons hentry _ ih =>
    rcases hentry.spliced with ⟨entry', hentry', hstands⟩
    rcases ih with ⟨es', hes', hall⟩
    exact ⟨entry' :: es', fun table' => .cons (hentry' table') (hes' table'), .cons hstands hall⟩

theorem keys_of_standsFor {es es' : Entries Statement} (h : List.Forall₂ StandsFor es' es) :
    es'.keys = es.keys := by
  induction h with
  | nil => rfl
  | cons hentry _ ih => exact congrArg₂ List.cons hentry.1 ih

theorem get?_of_standsFor {es es' : Entries Statement} (h : List.Forall₂ StandsFor es' es)
    {id : String} {s : Statement} (hs : es.get? id = some s) :
    ∃ s', es'.get? id = some s' ∧ s'.root.RendersAs s.root := by
  induction h with
  | nil => cases hs
  | @cons entry' entry _ _ hentry _ ih =>
    rw [Entries.get?] at hs ⊢
    rw [hentry.1]
    split at hs
    · next hid =>
      cases hs
      exact ⟨entry'.2, if_pos hid, hentry.2⟩
    · next hid =>
      rw [if_neg hid]
      exact ih hs

/-- Where a mapper makes statements, so it does with all snippets in place, and then without looking
up any. The statements have the same ids in the same order, and each renders to the same or fails
alike. -/
theorem statements_spliced {space : String} {cs : List Content} {es : Entries Statement}
    (h : statements space cs = .ok es) :
    ∃ es', statements space (spliced space cs) = .ok es' ∧
      (∀ table, statementsFrom space table [] (spliced space cs) = .ok es') ∧
      es'.keys = es.keys ∧
      ∀ id s, es.get? id = some s → ∃ s', es'.get? id = some s' ∧
        ∀ o params, s'.root.renderUnder o (.ofRoot params) =
          s.root.renderUnder o (.ofRoot params) := by
  rcases statements_eq_ok.1 h with ⟨table, htable, hes, hnodup⟩
  rcases snippetsFrom_eq_ok.1 htable with ⟨hids, rfl⟩
  rcases enters_spliced hes with ⟨es', hes', hstands⟩
  have hkeys := keys_of_standsFor hstands
  rw [← hkeys] at hnodup
  have hentries (table : Snippets) :
      List.Forall₂ (Enters space table) (statementElements (spliced space cs)) es' := by
    rw [statementElements_spliced]
    exact hes' table
  have hsnippets : ∀ e ∈ snippetElements (spliced space cs), e.1.HasText "id" := by
    rw [snippetElements_spliced]
    exact hids
  refine ⟨es', ?_, ?_, hkeys, ?_⟩
  · exact statements_eq_ok.2
      ⟨_, snippetsFrom_eq_ok.2 ⟨hsnippets, rfl⟩, hentries _, hnodup⟩
  · intro table
    exact statementsFrom_eq_ok.2
      ⟨es', hentries table, ⟨hnodup, List.disjoint_nil_left _⟩, rfl⟩
  · intro id s hs
    rcases get?_of_standsFor hstands hs with ⟨s', hs', hrenders⟩
    refine ⟨s', hs', fun o params => ?_⟩
    rw [Fragment.renderUnder, Fragment.renderUnder, hrenders o]

/-- A snippet that includes another one, inside of a clause. -/
theorem statements_spliced_nested :
    let cs : List Content := [
      .element ⟨"sql", [("id", "a")], 1, ""⟩ [.text "x"],
      .element ⟨"sql", [("id", "b")], 2, ""⟩
        [.element ⟨"include", [("refid", "a")], 2, ""⟩ [], .text "y"],
      .element ⟨"select", [("id", "q")], 3, ""⟩
        [.element ⟨"where", [], 3, ""⟩ [.element ⟨"include", [("refid", "b")], 3, ""⟩ []]]]
    let es : Entries Statement := [("m.q", ⟨"m.q", .select, "",
      .seq [.trim .whereClause (.seq [.seq [.seq [.text "x"], .text "y"]])]⟩)]
    statements "m" cs = .ok es ∧
      ∃ es', statements "m" (spliced "m" cs) = .ok es' ∧
        (∀ table, statementsFrom "m" table [] (spliced "m" cs) = .ok es') ∧
        es'.keys = ["m.q"] ∧
        ∀ id s, es.get? id = some s → ∃ s', es'.get? id = some s' ∧
          ∀ o params, s'.root.renderUnder o (.ofRoot params) =
            s.root.renderUnder o (.ofRoot params) := by
  intro cs es
  have h : statements "m" cs = .ok es := by cbv
  exact ⟨h, statements_spliced h⟩

end Mapper

end DynamicSql

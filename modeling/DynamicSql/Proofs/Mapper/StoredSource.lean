import Mathlib
import DynamicSql.Proofs.Mapper.Acceptance
import DynamicSql.Proofs.Mapper.RegistryRun
import DynamicSql.Proofs.Template.ScriptContent

/-!
The source that a statement keeps, against the text between the tags of its element
(`Mapper.stored_source`). That text is always a template with the same fragments; the source is
only where no text pieces are left out at its end, or where these stand for nothing.
-/

namespace DynamicSql

open Markup

/-! Where a statement comes from -/

/-- No name in the document has a prefix. -/
def IsUnprefixed (source : String) : Prop :=
  ∀ ls, documentLexemes? source = some ls → ∀ l ∈ ls, l.token.IsUnprefixed

/-- The element of a statement, and the lexemes and parts between its tags. -/
structure Origin (source id : String) (s : Statement) (e : Mapper.StatementElement)
    (content : List Lexeme) (parts : List Piece) : Prop where
  enters : ∃ root space table, readMarkup source = .ok root ∧
    root.tag.attributes.get? "namespace" = some space ∧
    e ∈ Mapper.statementElements root.children ∧ Mapper.Enters space table e (id, s)
  encloses : ∃ ls, documentLexemes? source = some ls ∧ Encloses e.tag ls content
  text_infix : sourceOf content <:+: source.toList
  reads : Reads content parts
  children_eq : e.children = contents parts
  source_eq : s.source = innerSource parts

theorem readMarkup_eq_ok {source : String} {e : Element} :
    readMarkup source = .ok e ↔ Markup.read source = .ok e := by
  unfold readMarkup
  cases Markup.read source <;> simp

/-- A document from its lexemes. -/
theorem readMarkup_of_reads {source : String} {ls : List Lexeme} {ps : List Piece} {e : Element}
    (hlexemes : documentLexemes? source = some ls) (hreads : Reads ls ps)
    (hroot : rootOf? ps = some e) : readMarkup source = .ok e := by
  have hstops : Stops [] := nofun
  have hpieces := hreads.pieces?_eq hstops
  rw [List.append_nil] at hpieces
  exact readMarkup_eq_ok.2 (read_eq_ok.2 ⟨ls, ps, hlexemes, hpieces, hroot⟩)

theorem exists_mem_of_forall₂ {α β : Type} {R : α → β → Prop} {as : List α} {bs : List β}
    (h : List.Forall₂ R as bs) {b : β} (hb : b ∈ bs) : ∃ a ∈ as, R a b := by
  induction h with
  | nil => cases hb
  | cons hab _ ih =>
    obtain rfl | hb := List.mem_cons.1 hb
    · exact ⟨_, List.mem_cons_self, hab⟩
    · obtain ⟨a, ha, hab⟩ := ih hb
      exact ⟨a, List.mem_cons_of_mem _ ha, hab⟩

theorem Mapper.mem_statementElements {e : StatementElement} {cs : List Content}
    (h : e ∈ statementElements cs) : .element e.tag e.children ∈ cs := by
  obtain ⟨c, hc, he⟩ := List.mem_filterMap.1 h
  cases c with
  | text s => cases he
  | element tag children =>
    obtain ⟨kind, _, rfl⟩ := Option.map_eq_some_iff.1 he
    exact hc

theorem Mapper.mem_of_snippetNamed {space name : String} {cs : List Content} {s : Snippet}
    (h : snippetNamed space cs name = some s) : ∃ tag, .element tag s.children ∈ cs := by
  have hmem : s ∈ snippets cs := (List.mem_filter.1 (List.mem_of_getLast? h)).1
  obtain ⟨⟨tag, inner⟩, he, hid⟩ := List.mem_filterMap.1 hmem
  obtain ⟨id, _, rfl⟩ := Option.map_eq_some_iff.1 hid
  obtain ⟨c, hc, hsnippet⟩ := List.mem_filterMap.1 he
  cases c with
  | text => cases hsnippet
  | element =>
    rw [snippetElement?] at hsnippet
    split at hsnippet
    · cases hsnippet
      exact ⟨tag, hc⟩
    · cases hsnippet

/-- Every statement of a document without prefixes comes from an element of it. -/
theorem Mapper.exists_origin {source id : String} {es : Entries Statement} {s : Statement}
    (hes : ofSource source = .ok es) (hplain : IsUnprefixed source) (hs : es.get? id = some s) :
    ∃ e content parts, Origin source id s e content parts := by
  obtain ⟨root, hroot, h⟩ := bind_eq_ok.1 hes
  obtain ⟨space, table, hwell, _, henters, _⟩ := isWellFormed_of_ofElement h
  obtain ⟨e, he, hentry⟩ := exists_mem_of_forall₂ henters (Entries.mem_of_get? hs)
  obtain ⟨ls, ps, hls, hps, hrootOf⟩ := read_eq_ok.1 (readMarkup_eq_ok.1 hroot)
  obtain ⟨document, hdocument, hreads⟩ := reads_of_pieces? (hplain ls hls) hps
  rw [List.append_nil] at hdocument
  subst hdocument
  obtain ⟨middle, rootParts, houter, hmiddle, _, hchildren⟩ :=
    hreads.exists_encloses (mem_contents_of_rootOf? hrootOf)
  have hmem := mem_statementElements he
  rw [hchildren] at hmem
  obtain ⟨content, parts, hinner, hcontent, hsource, hparts⟩ := hmiddle.exists_encloses hmem
  have hencloses := houter.trans hinner
  obtain ⟨head, line, body, hbody, hlexemes⟩ := exists_body hls
  obtain ⟨before, rest, next, more, rfl, hrest⟩ := hencloses.exists_text hlexemes
  obtain ⟨after, _, rfl, _⟩ := lexemes?_append hrest
  refine ⟨e, content, parts, ?_⟩
  exact {
    enters := ⟨root, space, table, hroot, hwell.namespace_eq, he, hentry⟩
    encloses := ⟨ls, hls, hencloses⟩
    text_infix := ⟨head ++ before, after, by simp [hbody]⟩
    reads := hcontent
    children_eq := hparts
    source_eq := by
      obtain ⟨_, _, _, _, heq⟩ := hentry
      cases heq
      exact hsource }

namespace Origin

variable {source id : String} {s : Statement} {e : Mapper.StatementElement}
  {content : List Lexeme} {parts : List Piece}

theorem exists_fragments (h : Origin source id s e content parts) :
    ∃ table fs, s.root = .seq fs ∧ bodyFragments table [] (contents parts) = .ok fs := by
  obtain ⟨_, _, table, _, _, _, _, fs, _, hfs, hentry⟩ := h.enters
  rw [h.children_eq] at hfs
  cases hentry
  exact ⟨table, fs, rfl, hfs⟩

theorem isTemplate (h : Origin source id s e content parts) (hunprefixed : IsUnprefixed source)
    (hplain : anyInclude e.children = false) : IsTemplate content parts := by
  obtain ⟨ls, hls, hencloses⟩ := h.encloses
  obtain ⟨_, _, _, _, hdocument⟩ := exists_body hls
  obtain ⟨_, cs, line, more, _, hlexemes⟩ := hencloses.exists_text hdocument
  obtain ⟨table, fs, _, hfs⟩ := h.exists_fragments
  exact {
    exists_lexemes := ⟨line, cs, more, hlexemes⟩
    unprefixed := fun l hl => hunprefixed ls hls l (hencloses.subset hl)
    reads := h.reads
    no_include := h.children_eq ▸ hplain
    no_script := by
      intro tag children hmem
      obtain ⟨_, hfragments⟩ := bodyFragments_isOk_iff.1 ⟨fs, hfs⟩ _ hmem
      obtain ⟨f, hmakes, _⟩ := contentFragments_element_eq_ok.1 hfragments
      exact hmakes.not_script }

end Origin

/-! The source as a template -/

theorem Registry.exec_addTemplate_iff {r : Registry} {id template : String} {s : Statement}
    (h : r.contains id = false) :
    exec (addTemplate id template) r = (.ok (), r.adding [(id, s)]) ↔
      Statement.script id template = .ok s := by
  rw [exec_addTemplate h]
  cases Statement.script id template with
  | error e => simp
  | ok t => simp [adding]

namespace Mapper

/-- How the source that a statement keeps compares with the text between the tags of its element:
that text as a template, whether it is the text fetched under the statement's id, and whether the
source gives the fragments of the statement again, alone and added to a registry. -/
structure Stored (id : String) (s : Statement) (content : List Lexeme) (parts : List Piece)
    (key : String) : Prop where
  whole : Statement.script key (sourceText content) =
    .ok ⟨key, .script, sourceText content, s.root⟩
  fetched : ∀ r : Registry, r.statement? id = some s →
    (r.template? id = some (sourceText content) ↔ textTail parts = [])
  script : Statement.script key s.source = .ok ⟨key, .script, s.source, s.root⟩ ↔
    tailText parts = ""
  added : ∀ r : Registry, r.contains key = false →
    (exec (Registry.addTemplate key s.source) r =
        (.ok (), r.adding [(key, ⟨key, .script, s.source, s.root⟩)]) ↔
      tailText parts = "")

/-- The text between the tags of a statement's element, as a template, gives the same fragments.
The source that the statement keeps is that text up to the first of the text pieces at its end; it
gives the same fragments exactly if the pieces behind that one stand for no text. -/
theorem stored_source {source id : String} {es : Entries Statement} {s : Statement}
    (hes : ofSource source = .ok es) (hunprefixed : IsUnprefixed source)
    (hs : es.get? id = some s) :
    (∃ e content parts, Origin source id s e content parts) ∧
      ∀ e content parts, Origin source id s e content parts → anyInclude e.children = false →
        ∀ key, Stored id s content parts key := by
  refine ⟨exists_origin hes hunprefixed hs, ?_⟩
  intro e content parts horigin hplain key
  have htemplate := horigin.isTemplate hunprefixed hplain
  obtain ⟨table, fs, hroot, hfs⟩ := horigin.exists_fragments
  have hscript := htemplate.script_innerSource_iff hfs key
  rw [← hroot, ← horigin.source_eq] at hscript
  exact {
    whole := by
      rw [hroot]
      exact (htemplate.script_iff key).2 hfs
    fetched := by
      intro r hr
      rw [Registry.template?, hr, Option.map_some, Option.some.injEq, horigin.source_eq]
      exact htemplate.innerSource_eq_iff
    script := hscript
    added := by
      intro r hr
      rw [Registry.exec_addTemplate_iff hr]
      exact hscript }

/-! A statement whose text ends in character data -/

def cdataSource : String :=
  "<mapper namespace='m'><select id='q'>a <![CDATA[< 5]]></select></mapper>"

def cdataStatement : Statement :=
  ⟨"m.q", .select, "a ", .seq [.text "a < 5"]⟩

def cdataLexemes : List Lexeme :=
  [⟨.startTag ⟨[], ['m', 'a', 'p', 'p', 'e', 'r']⟩
      [⟨⟨[], ['n', 'a', 'm', 'e', 's', 'p', 'a', 'c', 'e']⟩, "m"⟩] false,
      "<mapper namespace='m'>".toList, 1⟩,
    ⟨.startTag ⟨[], ['s', 'e', 'l', 'e', 'c', 't']⟩ [⟨⟨[], ['i', 'd']⟩, "q"⟩] false,
      "<select id='q'>".toList, 1⟩,
    ⟨.text "a ", "a ".toList, 1⟩,
    ⟨.cdata "< 5", "<![CDATA[< 5]]>".toList, 1⟩,
    ⟨.endTag ⟨[], ['s', 'e', 'l', 'e', 'c', 't']⟩, "</select>".toList, 1⟩,
    ⟨.endTag ⟨[], ['m', 'a', 'p', 'p', 'e', 'r']⟩, "</mapper>".toList, 1⟩]

theorem documentLexemes?_cdataSource : documentLexemes? cdataSource = some cdataLexemes := by
  rw [documentLexemes?_of_start (by decide)]
  decide +kernel

theorem isUnprefixed_cdataSource : IsUnprefixed cdataSource := by
  intro ls hls
  rw [documentLexemes?_cdataSource] at hls
  cases hls
  decide

theorem readMarkup_cdataSource :
    readMarkup cdataSource = .ok ⟨⟨"mapper", [("namespace", "m")], 1,
      "<select id='q'>a <![CDATA[< 5]]></select>"⟩,
      [.element ⟨"select", [("id", "q")], 1, "a "⟩ [.text "a < 5"]]⟩ := by
  have hreads : Reads cdataLexemes _ :=
    .element rfl rfl (.element rfl rfl (.text (.inl rfl) (.text (.inr rfl) .nil)) rfl .nil) rfl .nil
  exact readMarkup_of_reads documentLexemes?_cdataSource hreads rfl

theorem ofSource_cdataSource : ofSource cdataSource = .ok [("m.q", cdataStatement)] := by
  rw [ofSource, readMarkup_cdataSource]
  cbv

def cdataElement : StatementElement :=
  ⟨.select, ⟨"select", [("id", "q")], 1, "a "⟩, [.text "a < 5"]⟩

def cdataContent : List Lexeme :=
  [⟨.text "a ", "a ".toList, 1⟩, ⟨.cdata "< 5", "<![CDATA[< 5]]>".toList, 1⟩]

def cdataParts : List Piece :=
  [textPiece "a ".toList "a ", textPiece "<![CDATA[< 5]]>".toList "< 5"]

theorem origin_cdataStatement :
    Origin cdataSource "m.q" cdataStatement cdataElement cdataContent cdataParts where
  enters := by
    have hbody : bodyFragments [] [] cdataElement.children = .ok [.text "a < 5"] := by cbv
    exact ⟨_, "m", [], readMarkup_cdataSource, rfl, List.mem_singleton.2 rfl,
      "q", _, Tag.required_eq_ok.2 ⟨rfl, by decide⟩, hbody, rfl⟩
  encloses := ⟨cdataLexemes, documentLexemes?_cdataSource,
    .pair (cdataLexemes.take 1) (cdataLexemes.drop 5) rfl rfl rfl rfl rfl rfl⟩
  text_infix := ⟨"<mapper namespace='m'><select id='q'>".toList, "</select></mapper>".toList,
    by decide⟩
  reads := .text (.inl rfl) (.text (.inr rfl) .nil)
  children_eq := rfl
  source_eq := rfl

theorem script_cdataStatement :
    Statement.script "m.q" cdataStatement.source =
      .ok ⟨"m.q", .script, "a ", .seq [.text "a "]⟩ := by
  have hlexemes : documentLexemes? "<script>a </script>" = some
      [⟨.startTag scriptName [] false, scriptStart, 1⟩, ⟨.text "a ", "a ".toList, 1⟩,
        ⟨.endTag scriptName, scriptEnd, 1⟩] := by
    rw [documentLexemes?_of_start (by decide)]
    decide +kernel
  have hreads : Reads [⟨.startTag scriptName [] false, scriptStart, 1⟩,
      ⟨.text "a ", "a ".toList, 1⟩, ⟨.endTag scriptName, scriptEnd, 1⟩] _ :=
    .element rfl rfl (.text (.inl rfl) .nil) rfl .nil
  have hread := readMarkup_of_reads hlexemes hreads rfl
  have helement : scriptElement "a " = readMarkup "<script>a </script>" :=
    scriptElement_of_content (by decide)
  rw [Statement.script, scriptFragment, cdataStatement, helement, hread]
  cbv

/-- The source of this statement ends before the character data, and gives other fragments. -/
theorem stored_source_cut_at_cdata :
    (∃ e, readMarkup cdataSource = .ok e ∧ anyInclude e.children = false) ∧
      IsUnprefixed cdataSource ∧ ofSource cdataSource = .ok [("m.q", cdataStatement)] ∧
      ¬∃ t, Statement.script "m.q" cdataStatement.source = .ok t ∧ t.root = cdataStatement.root := by
  refine ⟨⟨_, readMarkup_cdataSource, by decide⟩, isUnprefixed_cdataSource, ofSource_cdataSource, ?_⟩
  intro ⟨t, ht, hroot⟩
  rw [script_cdataStatement] at ht
  cases ht
  have htexts : "a " = "a < 5" := by
    injection hroot with hitems
    injection hitems with htext
    injection htext
  exact absurd htexts (by decide)

/-- What is left out of the source stands for text here. -/
theorem stored_source_cdata :
    Origin cdataSource "m.q" cdataStatement cdataElement cdataContent cdataParts ∧
      tailText cdataParts = "< 5" ∧
      ∀ key, Stored "m.q" cdataStatement cdataContent cdataParts key :=
  ⟨origin_cdataStatement, rfl,
    (stored_source ofSource_cdataSource isUnprefixed_cdataSource rfl).2 cdataElement cdataContent
      cdataParts origin_cdataStatement rfl⟩

end Mapper

end DynamicSql

import DynamicSql.Proofs.Mapper.StoredSource
import DynamicSql.Proofs.Template.Pruning

/-!
Elements whose names have no meaning. Wherever a statement or a template is looked into they make it
fail (`accepted_tags`), but what stands inside a `bind` or an `include` could as well be left out,
and so could the name of the element that a template brings along.
-/

namespace DynamicSql

namespace Markup

/-! The name of the root -/

theorem name_of_rootOf? {l : Lexeme} {name : Name} {attributes : Entries String}
    {inner ps : List Piece} {finish : List Char} {e : Element}
    (h : rootOf? (elementPiece l name attributes inner finish :: ps) = some e) :
    e.tag.name = name.localText := by
  have hinside : isOutside (elementPiece l name attributes inner finish) = false := rfl
  rw [rootOf?, List.dropWhile_cons_of_neg (by simp [hinside]), elementPiece] at h
  dsimp only at h
  split at h
  · cases h
    rfl
  · cases h

theorem name_of_startTag {bindings : Bindings} {l : Lexeme} {name : Name} {as : List Attribute}
    {isEmpty : Bool} {ls rest : List Lexeme} {ps : List Piece} {e : Element}
    (htoken : l.token = .startTag name as isEmpty)
    (h : pieces? bindings (l :: ls) = some (ps, rest)) (hroot : rootOf? ps = some e) :
    e.tag.name = name.localText := by
  cases isEmpty with
  | true =>
    rw [pieces?_empty htoken] at h
    obtain ⟨o, _, h⟩ := Option.bind_eq_some_iff.1 h
    obtain ⟨p, _, heq⟩ := Option.map_eq_some_iff.1 h
    cases heq
    exact name_of_rootOf? hroot
  | false =>
    rw [pieces?_element htoken] at h
    obtain ⟨o, _, h⟩ := Option.bind_eq_some_iff.1 h
    obtain ⟨p, _, h⟩ := Option.bind_eq_some_iff.1 h
    split at h
    · cases h
    · split at h
      · obtain ⟨q, _, heq⟩ := Option.map_eq_some_iff.1 h
        cases heq
        exact name_of_rootOf? hroot
      · cases h

/-- A document that starts with a name behind an opening bracket has its root of that name. -/
theorem name_of_read {source : String} {e : Element} {c : Char} {cs : List Char}
    (h : read source = .ok e) (hsource : source.toList = '<' :: c :: cs)
    (hc : isRunChar c = true) :
    ∃ name, Name.ofRun? ((c :: cs).takeWhile isRunChar) = some name ∧
      e.tag.name = name.localText := by
  obtain ⟨ls, ps, hls, hps, hroot⟩ := read_eq_ok.1 h
  have hstart : readStart? source.toList = some source.toList := by
    rw [hsource]
    unfold readStart?
    dsimp only
    split
    · next heq =>
      cases heq
      contradiction
    · rfl
  rw [documentLexemes?_of_start hstart, hsource] at hls
  cases ls with
  | nil =>
    rw [pieces?_nil] at hps
    cases hps
    cases hroot
  | cons l ls =>
    obtain ⟨_, _, _, _, heq, ht, _⟩ := lexemes?_eq_cons hls
    rw [← heq, readToken?_of_name hc] at ht
    obtain ⟨⟨name, _⟩, hname, ht⟩ := Option.bind_eq_some_iff.1 ht
    obtain ⟨⟨⟨as, isEmpty⟩, _⟩, _, ht⟩ := Option.bind_eq_some_iff.1 ht
    have htoken : Token.startTag name as isEmpty = l.token :=
      (Prod.mk.inj (Option.some.inj ht)).1
    obtain ⟨found, hfound, hp⟩ := Option.map_eq_some_iff.1 hname
    cases hp
    exact ⟨name, hfound, name_of_startTag htoken.symm hps hroot⟩

end Markup

open Markup

/-! Mappers without what is not looked at -/

namespace Mapper

theorem not_hides_of_sql {tag : Tag} (hname : tag.name = "sql") : ¬tag.Hides := by
  simp [Tag.Hides, hname]

theorem not_hides_of_statement {tag : Tag} {kind : StatementKind}
    (hkind : StatementKind.ofTag? tag.name = some kind) : ¬tag.Hides := by
  rintro (hname | hname)
  · rw [hname] at hkind
    cases hkind
  · rw [hname] at hkind
    cases hkind

theorem pruned_insert (table : Snippets) (name : String) (s : Snippet) :
    Entries.insert table.pruned name s.pruned = Snippets.pruned (Entries.insert table name s) := by
  induction table with
  | nil => rfl
  | cons e es ih =>
    rw [Snippets.pruned, List.map_cons, Entries.insert, Entries.insert]
    split
    · rfl
    · exact congrArg _ ih

theorem snippetsFrom_prunedAll (space : String) (table : Snippets) (cs : List Content) :
    snippetsFrom space table.pruned (prunedAll cs) =
      (snippetsFrom space table cs).map Snippets.pruned := by
  induction cs generalizing table with
  | nil =>
    rw [prunedAll, snippetsFrom, snippetsFrom]
    rfl
  | cons c cs ih =>
    cases c with
    | text s =>
      rw [prunedAll_text_cons, snippetsFrom, snippetsFrom]
      exact ih table
    | element tag children =>
      rw [prunedAll_element_cons, snippetsFrom, snippetsFrom]
      split
      · next hname =>
        rw [if_neg (not_hides_of_sql hname)]
        cases tag.required "id" with
        | error e => rfl
        | ok id =>
          have hinsert (name : String) (table : Snippets) :=
            pruned_insert table name ⟨id, children⟩
          simp only [Snippet.pruned] at hinsert
          dsimp only [bind, Except.bind]
          rw [hinsert, hinsert, ih]
      · exact ih table

theorem statementsFrom_prunedAll (space : String) (table : Snippets) (done : Entries Statement)
    (cs : List Content) :
    statementsFrom space table.pruned done (prunedAll cs) = statementsFrom space table done cs := by
  induction cs generalizing done with
  | nil =>
    rw [prunedAll, statementsFrom, statementsFrom]
  | cons c cs ih =>
    cases c with
    | text s =>
      rw [prunedAll_text_cons, statementsFrom, statementsFrom]
      exact ih done
    | element tag children =>
      rw [prunedAll_element_cons, statementsFrom, statementsFrom]
      cases hkind : StatementKind.ofTag? tag.name with
      | none => exact ih done
      | some kind =>
        simp only [if_neg (not_hides_of_statement hkind), bodyFragments_prunedAll, ih]

theorem hidesNothing_statement {cs : List Content} (h : HidesNothing cs) {e : StatementElement}
    (he : e ∈ statementElements cs) : HidesNothing e.children :=
  (hidesNothing_of_pruned_eq (h.pruned_eq (mem_statementElements he))).1

theorem hidesNothing_snippet {space name : String} {cs : List Content} (h : HidesNothing cs)
    {s : Snippet} (hs : snippetNamed space cs name = some s) : HidesNothing s.children := by
  obtain ⟨tag, hmem⟩ := mem_of_snippetNamed hs
  exact (hidesNothing_of_pruned_eq (h.pruned_eq hmem)).1

/-- What stands inside a `bind` or an `include` changes nothing. -/
theorem ofElement_pruned (e : Element) : ofElement ⟨e.tag, prunedAll e.children⟩ = ofElement e := by
  have hstatements (space : String) :
      statements space (prunedAll e.children) = statements space e.children := by
    have hsnippets := snippetsFrom_prunedAll space [] e.children
    have hempty : Snippets.pruned [] = [] := rfl
    rw [hempty] at hsnippets
    rw [statements, statements, hsnippets]
    cases snippetsFrom space [] e.children with
    | error e => rfl
    | ok table => exact statementsFrom_prunedAll space table [] e.children
  simp only [ofElement, hstatements]

end Mapper

/-! Templates -/

/-- A template that brings an element along whose name goes on behind the one that is looked for. -/
def IsLonger (template : String) : Prop :=
  ∃ c rest, (Text.trimStart template).toList = scriptOpening ++ c :: rest ∧ isRunChar c = true

theorem name_of_scriptOpening {source : String} {e : Element} {cs : List Char}
    (h : Markup.read source = .ok e) (hsource : source.toList = scriptOpening ++ cs)
    (hcs : ∀ c ∈ cs.head?, isRunChar c = false) : e.tag.name = "script" := by
  obtain ⟨name, hname, htag⟩ := name_of_read h hsource (by decide)
  have hrun : (scriptName.localName ++ cs).takeWhile isRunChar = scriptName.localName :=
    (span_append (List.all_eq_true.1 (by decide)) hcs).1
  have hscript : Name.ofRun? ((scriptName.localName ++ cs).takeWhile isRunChar) = some name := hname
  rw [hrun] at hscript
  cases hscript
  exact htag

theorem name_of_scriptElement {template : String} {e : Element}
    (h : scriptElement template = .ok e) (hlonger : ¬IsLonger template) :
    e.tag.name = "script" := by
  rw [scriptElement] at h
  split at h
  · next hprefix =>
    obtain ⟨cs, hcs⟩ := List.isPrefixOf_iff_prefix.1 hprefix
    refine name_of_scriptOpening (readMarkup_eq_ok.1 h) hcs.symm fun c hc => ?_
    obtain ⟨rest, rfl⟩ := List.head?_eq_some_iff.1 hc
    exact Bool.eq_false_iff.2 fun hrun => hlonger ⟨c, rest, hcs.symm, hrun⟩
  · have htext : ("<script>" ++ template ++ "</script>").toList =
        scriptOpening ++ '>' :: (template.toList ++ "</script>".toList) := by
      simp only [String.toList_append, List.append_assoc]
      rfl
    refine name_of_scriptOpening (readMarkup_eq_ok.1 h) htext fun c hc => ?_
    cases hc
    decide

/-- A mapper or a template is accepted only if every element that is looked at in its statements and
in the snippets that they include has a name with a meaning; where nothing is hidden, these are all
elements at any depth. What stands inside a `bind` or an `include` changes nothing, neither the
statements nor the error, and the element that a template brings along is a script unless its name
goes on behind that word. -/
theorem accepted_tags (source template : String) :
    (∀ es, Mapper.ofSource source = .ok es → ∃ root space, readMarkup source = .ok root ∧
      root.tag.attributes.get? "namespace" = some space ∧
      ∀ s ∈ Mapper.statementElements root.children, ∀ c ∈ s.children,
        HasKnownTags (Mapper.snippetNamed space root.children) root.children c) ∧
    (∀ f, scriptFragment template = .ok f → ∃ root, scriptElement template = .ok root ∧
      (∀ c ∈ root.children, HasKnownTags (fun _ => none) root.children c) ∧
      (¬IsLonger template → root.tag.name = "script")) ∧
    ∀ root : Element, Mapper.ofElement ⟨root.tag, prunedAll root.children⟩ = Mapper.ofElement root ∧
      bodyFragments [] [] (prunedAll root.children) = bodyFragments [] [] root.children := by
  refine ⟨fun es h => ?_, fun f h => ?_, fun root => ?_⟩
  · obtain ⟨root, hroot, h⟩ := bind_eq_ok.1 h
    obtain ⟨space, _, hwell, _⟩ := Mapper.isWellFormed_of_ofElement h
    refine ⟨root, space, hroot, hwell.namespace_eq, fun s hs c hc => ?_⟩
    exact (hwell.bodies s hs c hc).hasKnownTags
      (fun hall => (Mapper.hidesNothing_statement hall hs).pruned_eq hc)
      fun hall _ _ hfound => Mapper.hidesNothing_snippet hall hfound
  · obtain ⟨root, hroot, h⟩ := bind_eq_ok.1 h
    obtain ⟨fs, hfs, _⟩ := bind_eq_ok.1 h
    have hwell := (wellFormed_of_isOk [] [] root.children).1 fs hfs
    refine ⟨root, hroot, fun c hc => ?_, name_of_scriptElement hroot⟩
    exact (hwell c hc).hasKnownTags (fun hall => hall.pruned_eq hc) fun _ _ _ => nofun
  · exact ⟨Mapper.ofElement_pruned root, (fragments_prunedAll [] [] root.children).1⟩

/-! Documents with names that have no meaning -/

def loopSource : String :=
  "<mapper namespace='m'><sql id='a'><loop/></sql>" ++
    "<select id='q'><include refid='a'/></select></mapper>"

def bindTemplate : String :=
  "<bind name='a' value='1'><loop/></bind>"

def loopLexemes : List Lexeme :=
  [⟨.startTag ⟨[], "mapper".toList⟩ [⟨⟨[], "namespace".toList⟩, "m"⟩] false,
      "<mapper namespace='m'>".toList, 1⟩,
    ⟨.startTag ⟨[], "sql".toList⟩ [⟨⟨[], "id".toList⟩, "a"⟩] false, "<sql id='a'>".toList, 1⟩,
    ⟨.startTag ⟨[], "loop".toList⟩ [] true, "<loop/>".toList, 1⟩,
    ⟨.endTag ⟨[], "sql".toList⟩, "</sql>".toList, 1⟩,
    ⟨.startTag ⟨[], "select".toList⟩ [⟨⟨[], "id".toList⟩, "q"⟩] false,
      "<select id='q'>".toList, 1⟩,
    ⟨.startTag ⟨[], "include".toList⟩ [⟨⟨[], "refid".toList⟩, "a"⟩] true,
      "<include refid='a'/>".toList, 1⟩,
    ⟨.endTag ⟨[], "select".toList⟩, "</select>".toList, 1⟩,
    ⟨.endTag ⟨[], "mapper".toList⟩, "</mapper>".toList, 1⟩]

theorem readMarkup_loopSource :
    ∃ inner, readMarkup loopSource = .ok ⟨⟨"mapper", [("namespace", "m")], 1, inner⟩,
      [.element ⟨"sql", [("id", "a")], 1, "<loop/>"⟩ [.element ⟨"loop", [], 1, ""⟩ []],
        .element ⟨"select", [("id", "q")], 1, "<include refid='a'/>"⟩
          [.element ⟨"include", [("refid", "a")], 1, ""⟩ []]]⟩ := by
  have hlexemes : documentLexemes? loopSource = some loopLexemes := by
    rw [documentLexemes?_of_start (by decide)]
    decide +kernel
  have hreads : Reads loopLexemes _ :=
    .element rfl rfl (.element rfl rfl (.empty rfl rfl .nil) rfl
      (.element rfl rfl (.empty rfl rfl .nil) rfl .nil)) rfl .nil
  exact ⟨_, readMarkup_of_reads hlexemes hreads rfl⟩

/-- An element without a meaning in a snippet that a statement includes. -/
theorem accepted_tags_of_snippet : ¬∃ es, Mapper.ofSource loopSource = .ok es := by
  rintro ⟨es, h⟩
  obtain ⟨root, space, hroot, hspace, hknown⟩ := (accepted_tags loopSource bindTemplate).1 es h
  obtain ⟨inner, hread⟩ := readMarkup_loopSource
  rw [hread] at hroot
  cases hroot
  cases hspace
  have hloop := (hknown _ List.mem_cons_self _ List.mem_cons_self).shown ⟨"loop", [], 1, ""⟩
    (.included rfl rfl rfl List.mem_cons_self .here)
  revert hloop
  decide

def hiddenLoop : Content :=
  .element ⟨"bind", [("name", "a"), ("value", "1")], 1, "<loop/>"⟩
    [.element ⟨"loop", [], 1, ""⟩ []]

def bindLexemes : List Lexeme :=
  [⟨.startTag scriptName [] false, scriptStart, 1⟩,
    ⟨.startTag ⟨[], "bind".toList⟩ [⟨⟨[], "name".toList⟩, "a"⟩, ⟨⟨[], "value".toList⟩, "1"⟩] false,
      "<bind name='a' value='1'>".toList, 1⟩,
    ⟨.startTag ⟨[], "loop".toList⟩ [] true, "<loop/>".toList, 1⟩,
    ⟨.endTag ⟨[], "bind".toList⟩, "</bind>".toList, 1⟩,
    ⟨.endTag scriptName, scriptEnd, 1⟩]

theorem scriptElement_bindTemplate :
    ∃ inner, scriptElement bindTemplate = .ok ⟨⟨"script", [], 1, inner⟩, [hiddenLoop]⟩ := by
  have helement : scriptElement bindTemplate =
      readMarkup "<script><bind name='a' value='1'><loop/></bind></script>" :=
    scriptElement_of_content (by decide)
  have hlexemes : documentLexemes? "<script><bind name='a' value='1'><loop/></bind></script>" =
      some bindLexemes := by
    rw [documentLexemes?_of_start (by decide)]
    decide +kernel
  have hreads : Reads bindLexemes _ :=
    .element rfl rfl (.element rfl rfl (.empty rfl rfl .nil) rfl .nil) rfl .nil
  rw [helement]
  exact ⟨_, readMarkup_of_reads hlexemes hreads rfl⟩

def scriptsTemplate : String :=
  "<scripts>1</scripts>"

def scriptsLexemes : List Lexeme :=
  [⟨.startTag ⟨[], "scripts".toList⟩ [] false, "<scripts>".toList, 1⟩,
    ⟨.text "1", "1".toList, 1⟩, ⟨.endTag ⟨[], "scripts".toList⟩, "</scripts>".toList, 1⟩]

theorem scriptElement_scriptsTemplate :
    scriptElement scriptsTemplate = .ok ⟨⟨"scripts", [], 1, "1"⟩, [.text "1"]⟩ := by
  have helement : scriptElement scriptsTemplate = readMarkup scriptsTemplate := by
    have htrim : Text.trimStart scriptsTemplate = scriptsTemplate := by decide
    rw [scriptElement, htrim]
    exact if_pos (by decide)
  have hlexemes : documentLexemes? scriptsTemplate = some scriptsLexemes := by
    rw [documentLexemes?_of_start (by decide)]
    decide +kernel
  have hreads : Reads scriptsLexemes _ := .element rfl rfl (.text (.inl rfl) .nil) rfl .nil
  rw [helement]
  exact readMarkup_of_reads hlexemes hreads rfl

/-- An element without a meaning is accepted inside a `bind`, and as the one that a template brings
along. -/
theorem accepted_unknown_tags :
    ((∃ inner, scriptElement bindTemplate = .ok ⟨⟨"script", [], 1, inner⟩, [hiddenLoop]⟩) ∧
      Contains (fun _ => none) hiddenLoop ⟨"loop", [], 1, ""⟩ ∧ "loop" ∉ bodyTags ∧
      ∃ f, scriptFragment bindTemplate = .ok f) ∧
    (scriptElement scriptsTemplate = .ok ⟨⟨"scripts", [], 1, "1"⟩, [.text "1"]⟩ ∧
      ∃ f, scriptFragment scriptsTemplate = .ok f) := by
  obtain ⟨inner, hbind⟩ := scriptElement_bindTemplate
  have hbindBody : bodyFragments [] [] [hiddenLoop] =
      .ok [.bind "a" ⟨"1", .literal (.number (.int 1))⟩] := by cbv
  have hscripts := scriptElement_scriptsTemplate
  have hscriptsBody : bodyFragments [] [] [.text "1"] = .ok [.text "1"] := by cbv
  refine ⟨⟨⟨inner, hbind⟩, .inside trivial List.mem_cons_self .here, by decide, ?_⟩, hscripts, ?_⟩
  · exact ⟨_, bind_eq_ok.2 ⟨_, hbind, bind_eq_ok.2 ⟨_, hbindBody, rfl⟩⟩⟩
  · exact ⟨_, bind_eq_ok.2 ⟨_, hscripts, bind_eq_ok.2 ⟨_, hscriptsBody, rfl⟩⟩⟩

end DynamicSql

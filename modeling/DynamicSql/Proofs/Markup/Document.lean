import DynamicSql.Proofs.Markup.Content

/-!
Documents by their lexemes. The elements of a document have lexemes of their own between their tags
(`Reads.exists_encloses`), and such lexemes between two tags make a document again, whose root has
the same content (`read_wrapped`).
-/

namespace DynamicSql.Markup

/-- The lexemes of a document, behind its declaration. -/
def documentLexemes? (source : String) : Option (List Lexeme) :=
  (readStart? source.toList).bind fun body =>
    lexemes? (1 + (source.toList.take (source.toList.length - body.length)).count '\n') body

theorem documentLexemes?_of_start {source : String}
    (h : readStart? source.toList = some source.toList) :
    documentLexemes? source = lexemes? 1 source.toList := by
  rw [documentLexemes?, h, Option.bind_some, Nat.sub_self, List.take_zero, List.count_nil]

theorem readPair?_suffix {cs rest : List Char} {p : Name × List Char}
    (h : readPair? cs = some (p, rest)) : rest <:+ cs := by
  obtain ⟨front, _, hcs, _⟩ := isClosed_readPair? h
  exact ⟨front, hcs.symm⟩

theorem readDeclaration?_suffix {cs rest : List Char} (h : readDeclaration? cs = some rest) :
    rest <:+ cs := by
  unfold readDeclaration? at h
  extract_lets spaced? pair? standalone? at h
  have hspaced {cs rest : List Char} (h : spaced? cs = some rest) : rest <:+ cs := by
    unfold spaced? at h
    split at h
    · cases h
      exact List.dropWhile_suffix isSpace
    · cases h
  have hpair {word cs rest : List Char} (h : pair? word cs = some rest) : rest <:+ cs := by
    unfold pair? at h
    split at h
    · obtain ⟨⟨p, r⟩, hp, hr⟩ := Option.map_eq_some_iff.1 h
      cases hr
      exact readPair?_suffix hp
    · cases h
  have hstandalone {cs rest : List Char} (h : standalone? cs = some rest) : rest <:+ cs := by
    unfold standalone? at h
    dsimp only at h
    split at h
    · next hend =>
      cases h
      have hskipped : (pair? ['s', 't', 'a', 'n', 'd', 'a', 'l', 'o', 'n', 'e'] cs).getD cs <:+
          cs := by
        cases hp : pair? ['s', 't', 'a', 'n', 'd', 'a', 'l', 'o', 'n', 'e'] cs with
        | none => exact List.suffix_rfl
        | some rest => exact hpair hp
      have hspaces := List.dropWhile_suffix isSpace
        (l := (pair? ['s', 't', 'a', 'n', 'd', 'a', 'l', 'o', 'n', 'e'] cs).getD cs)
      rw [hend] at hspaces
      exact (List.suffix_append ['?', '>'] rest).trans (hspaces.trans hskipped)
    · cases h
  obtain ⟨version, hversion, h⟩ := Option.bind_eq_some_iff.1 h
  obtain ⟨afterVersion, hafter, h⟩ := Option.bind_eq_some_iff.1 h
  have hfront : afterVersion <:+ cs :=
    (hspaced hafter).trans ((hpair hversion).trans (List.dropWhile_suffix isSpace))
  split at h
  · next encoding hencoding =>
    obtain ⟨afterEncoding, hspaces, h⟩ := Option.bind_eq_some_iff.1 h
    exact (hstandalone h).trans ((hspaced hspaces).trans ((hpair hencoding).trans hfront))
  · exact (hstandalone h).trans hfront

theorem readStart?_suffix {cs rest : List Char} (h : readStart? cs = some rest) : rest <:+ cs := by
  unfold readStart? at h
  extract_lets body at h
  have hbody : body <:+ cs := by
    unfold body
    split
    · exact List.suffix_cons _ _
    · exact List.suffix_rfl
  clear_value body
  split at h
  · next r =>
    have hword : r <:+ '<' :: '?' :: 'x' :: 'm' :: 'l' :: ' ' :: r :=
      List.suffix_append ['<', '?', 'x', 'm', 'l', ' '] r
    exact (readDeclaration?_suffix h).trans (hword.trans hbody)
  · cases h
    exact hbody

/-- The lexemes of a document are those of the end of its text. -/
theorem exists_body {source : String} {ls : List Lexeme} (h : documentLexemes? source = some ls) :
    ∃ head line body, source.toList = head ++ body ∧ lexemes? line body = some ls := by
  obtain ⟨body, hstart, hls⟩ := Option.bind_eq_some_iff.1 h
  obtain ⟨head, hhead⟩ := readStart?_suffix hstart
  exact ⟨head, _, body, hhead.symm, hls⟩

theorem read_eq_ok {source : String} {e : Element} :
    read source = .ok e ↔
      ∃ ls ps, documentLexemes? source = some ls ∧ pieces? [] ls = some (ps, []) ∧
        rootOf? ps = some e := by
  have hread : readElement? source.toList = (documentLexemes? source).bind fun ls =>
      (pieces? [] ls).bind fun p => if p.2 = [] then rootOf? p.1 else none := by
    unfold readElement? documentLexemes? pieces?
    cases readStart? source.toList with
    | none => rfl
    | some body =>
      dsimp only [Option.bind_eq_bind, Option.bind_some]
      congr
      funext ls
      cases readPieces? [] ls with
      | none => rfl
      | some p => obtain ⟨ps, ⟨_ | _, _⟩⟩ := p <;> rfl
  have hok : read source = .ok e ↔ readElement? source.toList = some e := by
    unfold read
    cases readElement? source.toList <;> simp
  rw [hok, hread]
  constructor
  · intro h
    obtain ⟨ls, hls, h⟩ := Option.bind_eq_some_iff.1 h
    obtain ⟨⟨ps, rest⟩, hps, h⟩ := Option.bind_eq_some_iff.1 h
    dsimp only at h
    split at h
    · next hrest =>
      cases hrest
      exact ⟨ls, ps, hls, hps, h⟩
    · cases h
  · intro ⟨ls, ps, hls, hps, hroot⟩
    rw [hls, Option.bind_some, hps, Option.bind_some, if_pos rfl, hroot]

/-! Elements and their lexemes -/

theorem element_mem_joinTexts {tag : Tag} {children cs : List Content} :
    .element tag children ∈ joinTexts cs ↔ .element tag children ∈ cs := by
  induction cs with
  | nil => rfl
  | cons c cs ih =>
    cases c with
    | element other others => rw [joinTexts, List.mem_cons, List.mem_cons, ih]
    | text s =>
      have hrest : Content.element tag children ∈ joinTexts (.text s :: cs) ↔
          .element tag children ∈ joinTexts cs := by
        rw [joinTexts]
        generalize joinTexts cs = ds
        split
        · simp
        · split <;> simp
      rw [hrest, ih]
      simp

theorem mem_contents {tag : Tag} {children : List Content} {ps : List Piece} :
    .element tag children ∈ contents ps ↔ ∃ p ∈ ps, p.content = some (.element tag children) := by
  rw [contents, element_mem_joinTexts, List.mem_filterMap]

/-- The lexemes between the tags of an element; an element of one tag has none. -/
inductive Encloses (tag : Tag) (ls : List Lexeme) : List Lexeme → Prop where
  | single (before after : List Lexeme) {start : Lexeme} {name : Name} {as : List Attribute}
      (hls : ls = before ++ start :: after) (hstart : start.token = .startTag name as true)
      (hopen : openTag? [] name as = some ([], tag.attributes)) (hname : tag.name = name.localText)
      (hline : tag.line = start.line) : Encloses tag ls []
  | pair (before after : List Lexeme) {content : List Lexeme} {start finish : Lexeme} {name : Name}
      {as : List Attribute} (hls : ls = before ++ start :: (content ++ finish :: after))
      (hstart : start.token = .startTag name as false) (hfinish : finish.token = .endTag name)
      (hopen : openTag? [] name as = some ([], tag.attributes)) (hname : tag.name = name.localText)
      (hline : tag.line = start.line) : Encloses tag ls content

theorem Encloses.mono {tag : Tag} {ls content : List Lexeme} (h : Encloses tag ls content)
    (front back : List Lexeme) : Encloses tag (front ++ ls ++ back) content := by
  cases h with
  | single before after hls hstart hopen hname hline =>
    subst hls
    exact .single (front ++ before) (after ++ back) (by simp) hstart hopen hname hline
  | pair before after hls hstart hfinish hopen hname hline =>
    subst hls
    exact .pair (front ++ before) (after ++ back) (by simp) hstart hfinish hopen hname hline

theorem Encloses.trans {tag outer : Tag} {ls middle content : List Lexeme}
    (houter : Encloses outer ls middle) (h : Encloses tag middle content) :
    Encloses tag ls content := by
  cases houter with
  | single => simpa using h.mono ls []
  | @pair before after _ start finish _ _ hls =>
    subst hls
    simpa using h.mono (before ++ [start]) (finish :: after)

theorem Encloses.subset {tag : Tag} {ls content : List Lexeme} (h : Encloses tag ls content) :
    content ⊆ ls := by
  cases h with
  | single => exact List.nil_subset _
  | pair before after hls =>
    subst hls
    intro l hl
    simp [hl]

/-- The text of an element's content, and how it is read. -/
theorem Encloses.exists_text {tag : Tag} {ls content : List Lexeme} (h : Encloses tag ls content)
    {line : Nat} {cs : List Char} (hls : lexemes? line cs = some ls) :
    ∃ before rest next more, cs = before ++ rest ∧ lexemes? next rest = some (content ++ more) := by
  cases h with
  | single => exact ⟨cs, [], line, [], (List.append_nil cs).symm, lexemes?_nil line⟩
  | @pair before after _ start finish _ _ hsplit =>
    rw [hsplit, List.append_cons] at hls
    obtain ⟨rest, next, hcs, hrest, _⟩ := lexemes?_append hls
    exact ⟨_, rest, next, finish :: after, hcs, hrest⟩

/-- An element among some parts has lexemes and parts of its own. -/
theorem Reads.exists_encloses {ls : List Lexeme} {ps : List Piece} (h : Reads ls ps) {tag : Tag}
    {children : List Content} (hmem : .element tag children ∈ contents ps) :
    ∃ content inner, Encloses tag ls content ∧ Reads content inner ∧
      tag.inner = innerSource inner ∧ children = contents inner := by
  obtain ⟨p, hp, hcontent⟩ := mem_contents.1 hmem
  clear hmem
  have hlater (front : List Lexeme) {ls : List Lexeme}
      (h : ∃ content inner, Encloses tag ls content ∧ Reads content inner ∧
        tag.inner = innerSource inner ∧ children = contents inner) :
      ∃ content inner, Encloses tag (front ++ ls) content ∧ Reads content inner ∧
        tag.inner = innerSource inner ∧ children = contents inner := by
    obtain ⟨content, inner, hencloses, hinner⟩ := h
    have hmono := hencloses.mono front []
    rw [List.append_nil] at hmono
    exact ⟨content, inner, hmono, hinner⟩
  induction h with
  | nil => cases hp
  | @text l _ _ _ _ _ ih | @dropped l _ _ _ _ ih =>
    obtain rfl | hp := List.mem_cons.1 hp
    · cases hcontent
    · exact hlater [l] (ih hp)
  | @empty l _ _ _ ls _ htoken hopen _ ih =>
    obtain rfl | hp := List.mem_cons.1 hp
    · cases hcontent
      exact ⟨[], [], .single [] ls rfl htoken hopen rfl rfl, .nil, rfl, rfl⟩
    · exact hlater [l] (ih hp)
  | @element start finish _ _ _ content ls inner _ hstart hopen hinner hfinish _ _ ih =>
    obtain rfl | hp := List.mem_cons.1 hp
    · cases hcontent
      exact ⟨content, inner, .pair [] ls rfl hstart hfinish hopen rfl rfl, hinner, rfl, rfl⟩
    · have hfound := hlater (start :: (content ++ [finish])) (ih hp)
      rw [List.cons_append, List.append_assoc] at hfound
      exact hfound

theorem mem_contents_of_rootOf? {ps : List Piece} {e : Element} (h : rootOf? ps = some e) :
    .element e.tag e.children ∈ contents ps := by
  unfold rootOf? at h
  split at h
  · next source tag children isText rest hdrop =>
    split at h
    · cases h
      have hmem : (⟨source, some (.element tag children), isText⟩ : Piece) ∈
          ps.dropWhile isOutside := by
        rw [hdrop]
        exact List.mem_cons_self
      exact mem_contents.2 ⟨_, (List.dropWhile_sublist _).mem hmem, rfl⟩
    · cases h
  · cases h

/-! Content between the tags of a document of its own -/

def scriptName : Name :=
  ⟨[], ['s', 'c', 'r', 'i', 'p', 't']⟩

def scriptStart : List Char :=
  ['<', 's', 'c', 'r', 'i', 'p', 't', '>']

def scriptEnd : List Char :=
  ['<', '/', 's', 'c', 'r', 'i', 'p', 't', '>']

theorem readToken?_scriptStart (cs : List Char) :
    readToken? (scriptStart ++ cs) = some (.startTag scriptName [] false, cs) := by
  have hstart : readToken? scriptStart = some (.startTag scriptName [] false, []) := by
    decide +kernel
  obtain ⟨front, _, hfront, hagain⟩ := readToken?_bracket hstart
  rw [List.append_nil] at hfront
  have heq : scriptStart = front := hfront
  rw [heq]
  exact hagain cs

theorem lexemes?_scriptEnd (line : Nat) :
    lexemes? line scriptEnd = some [⟨.endTag scriptName, scriptEnd, line⟩] := by
  have hend : readToken? scriptEnd = some (.endTag scriptName, []) := by
    decide +kernel
  have hread := lexemes?_again hend (List.append_nil scriptEnd).symm line (.inl rfl)
  rw [List.append_nil, lexemes?_nil] at hread
  exact hread

/-- Lexemes that stand in some text are there again between the tags of a script. -/
theorem lexemes?_wrapped {line : Nat} {cs : List Char} {content ls : List Lexeme}
    (h : lexemes? line cs = some (content ++ ls)) (first : Nat) :
    ∃ content' last, SameTokens content content' ∧
      lexemes? first (scriptStart ++ (sourceOf content ++ scriptEnd)) =
        some (⟨.startTag scriptName [] false, scriptStart, first⟩ ::
          (content' ++ [⟨.endTag scriptName, scriptEnd, last⟩])) := by
  obtain ⟨_, _, _, _, _, hagain⟩ := lexemes?_append h
  obtain ⟨content', hsame, hcontent⟩ := hagain (first + scriptStart.count '\n') scriptEnd rfl
  rw [lexemes?_scriptEnd, Option.map_some] at hcontent
  refine ⟨content', first + scriptStart.count '\n' + (sourceOf content).count '\n', hsame, ?_⟩
  have hstart := readToken?_scriptStart (sourceOf content ++ scriptEnd)
  have hread := lexemes?_of_token hstart (Eq.refl (scriptStart ++ _)) first
  rw [hcontent] at hread
  exact hread

/-- Such lexemes are the content of a document of their own. -/
theorem read_wrapped {line : Nat} {cs : List Char} {content ls : List Lexeme} {ps : List Piece}
    (hlexemes : lexemes? line cs = some (content ++ ls)) (hreads : Reads content ps) :
    ∃ e, read ("<script>" ++ sourceText content ++ "</script>") = .ok e ∧
      SameContent (contents ps) e.children := by
  have htext : ("<script>" ++ sourceText content ++ "</script>").toList =
      scriptStart ++ (sourceOf content ++ scriptEnd) := by
    simp only [String.toList_append, toList_sourceText, List.append_assoc]
    rfl
  have hstart : readStart? (scriptStart ++ (sourceOf content ++ scriptEnd)) =
      some (scriptStart ++ (sourceOf content ++ scriptEnd)) := rfl
  obtain ⟨content', last, hsame, hwrapped⟩ := lexemes?_wrapped hlexemes 1
  obtain ⟨inner, hinner, hsameContent⟩ := hreads.sameTokens hsame
  have hdocument : Reads
      (⟨.startTag scriptName [] false, scriptStart, 1⟩ ::
        (content' ++ [⟨.endTag scriptName, scriptEnd, last⟩]))
      [elementPiece ⟨.startTag scriptName [] false, scriptStart, 1⟩ scriptName [] inner
        scriptEnd] :=
    .element rfl rfl hinner rfl .nil
  have hstops : Stops [] := nofun
  have hpieces := hdocument.pieces?_eq hstops
  rw [List.append_nil] at hpieces
  refine ⟨_, read_eq_ok.2 ⟨_, _, ?_, hpieces, rfl⟩, hsameContent.joinTexts⟩
  rw [documentLexemes?_of_start (by rw [htext, hstart]), htext]
  exact hwrapped

/-! Content that begins like a script -/

def scriptOpening : List Char :=
  '<' :: scriptName.localName

theorem name_of_script {cs rest : List Char} {name : Name}
    (h : readName? (scriptName.localName ++ cs) = some (name, rest)) (hplain : name.IsUnprefixed) :
    scriptName.localName <+: name.localName := by
  have hrun : (scriptName.localName ++ cs).takeWhile isRunChar =
      scriptName.localName ++ cs.takeWhile isRunChar :=
    List.takeWhile_append_of_pos (List.all_eq_true.1 rfl)
  rw [readName?, hrun] at h
  obtain ⟨n, hn, hp⟩ := Option.map_eq_some_iff.1 h
  cases hp
  rw [Name.ofRun?] at hn
  dsimp only at hn
  split at hn
  · split at hn
    · cases hn
      exact List.prefix_append _ _
    · cases hn
  · split at hn
    · cases hn
      -- The prefix would be what stands before the colon, and that is not empty.
      cases hplain
    · cases hn

theorem startTag_of_script {line : Nat} {cs : List Char} {l : Lexeme} {ls : List Lexeme}
    (h : lexemes? line cs = some (l :: ls)) (hplain : l.token.IsUnprefixed)
    (hscript : scriptOpening <+: cs) :
    ∃ name as isEmpty, l.token = .startTag name as isEmpty ∧
      scriptName.localName <+: name.localName := by
  obtain ⟨c, r, rest, _, rfl, ht, _⟩ := lexemes?_eq_cons h
  obtain ⟨tail, htail⟩ := hscript
  have hread : readToken? (scriptOpening ++ tail) =
      readStartTag? (scriptName.localName ++ tail) :=
    readToken?_of_name (by decide) _
  rw [← htail, hread] at ht
  obtain ⟨⟨name, r'⟩, hname, ht⟩ := Option.bind_eq_some_iff.1 ht
  obtain ⟨⟨⟨as, isEmpty⟩, r''⟩, _, ht⟩ := Option.bind_eq_some_iff.1 ht
  have htoken : Token.startTag name as isEmpty = l.token :=
    (Prod.mk.inj (Option.some.inj ht)).1
  rw [← htoken] at hplain
  exact ⟨name, as, isEmpty, htoken.symm, name_of_script hname hplain.1⟩

theorem text_of_readText? {cs rest source : List Char} {t : Token}
    (h : readText? cs = some (t, rest)) (hsource : cs = source ++ rest) :
    (∃ value, t = .text value) ∧ ∀ c ∈ source, (c != '<') = true := by
  unfold readText? at h
  dsimp only at h
  split at h
  · cases h
  · obtain ⟨ws, _, h⟩ := Option.bind_eq_some_iff.1 h
    cases h
    refine ⟨⟨_, rfl⟩, ?_⟩
    have hspan := List.takeWhile_append_dropWhile (p := (· != '<')) (l := cs)
    have heq : cs.takeWhile (· != '<') = source := List.append_cancel_right (hspan.trans hsource)
    rw [← heq]
    exact List.all_eq_true.1 List.all_takeWhile

/-- Content whose first tag begins like that of a script has an element with such a name. -/
theorem Reads.exists_script {content : List Lexeme} {ps : List Piece} (hreads : Reads content ps)
    {line : Nat} {cs : List Char} {ls : List Lexeme}
    (hlexemes : lexemes? line cs = some (content ++ ls))
    (hplain : ∀ l ∈ content, l.token.IsUnprefixed)
    (hscript : scriptOpening <+: (sourceOf content).dropWhile (· != '<')) :
    ∃ tag children, .element tag children ∈ contents ps ∧
      scriptName.localName <+: tag.name.toList := by
  have hlater (p : Piece) {ps : List Piece}
      (h : ∃ tag children, .element tag children ∈ contents ps ∧
        scriptName.localName <+: tag.name.toList) :
      ∃ tag children, .element tag children ∈ contents (p :: ps) ∧
        scriptName.localName <+: tag.name.toList := by
    obtain ⟨tag, children, hmem, hname⟩ := h
    obtain ⟨q, hq, hcontent⟩ := mem_contents.1 hmem
    exact ⟨tag, children, mem_contents.2 ⟨q, List.mem_cons_of_mem p hq, hcontent⟩, hname⟩
  induction content generalizing ps line cs with
  | nil =>
    obtain ⟨_, h⟩ := hscript
    cases h
  | cons l content ih =>
    obtain ⟨hl, hplain⟩ := List.forall_mem_cons.1 hplain
    obtain ⟨_, _, htext, _⟩ := lexemes?_append hlexemes
    obtain ⟨c, r, rest, next, rfl, ht, hsource, hne, hrest⟩ := lexemes?_eq_cons hlexemes
    by_cases hc : c = '<'
    · have hhead : (sourceOf (l :: content)).dropWhile (· != '<') = sourceOf (l :: content) := by
        cases hl : l.source with
        | nil => contradiction
        | cons d source =>
          rw [hl] at hsource
          cases hsource
          rw [sourceOf_cons, hl, hc]
          rfl
      rw [hhead] at hscript
      obtain ⟨name, as, isEmpty, htoken, hname⟩ := startTag_of_script hlexemes hl
        (htext ▸ hscript.trans (List.prefix_append _ _))
      have hlocal : name.localText.toList = name.localName := String.toList_ofList
      rw [← hlocal] at hname
      cases hreads with
      | text hother | dropped hother =>
        rw [htoken] at hother
        simp at hother
      | empty hstart | element hstart =>
        rw [hstart] at htoken
        cases htoken
        exact ⟨_, _, mem_contents.2 ⟨_, List.mem_cons_self, rfl⟩, hname⟩
    · rw [readToken?_of_text hc] at ht
      obtain ⟨⟨value, hvalue⟩, htext⟩ := text_of_readText? ht hsource
      rw [sourceOf_cons, List.dropWhile_append_of_pos htext] at hscript
      cases hreads with
      | text _ htail => exact hlater _ (ih htail hrest hplain hscript)
      | dropped htoken | empty htoken | element htoken =>
        rw [hvalue] at htoken
        simp at htoken

end DynamicSql.Markup

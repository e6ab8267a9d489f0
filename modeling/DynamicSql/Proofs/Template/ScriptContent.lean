import DynamicSql.Proofs.Markup.Document
import DynamicSql.Proofs.Markup.TextTail
import DynamicSql.Proofs.Template.SameContent
import DynamicSql.Proofs.Template.TextWidth
import DynamicSql.Proofs.Template.WellFormed
import DynamicSql.Template.Statement

/-!
Content of a document as a template of its own. Content that can be a body never begins like a
script, so it is read between the tags of one, and it has the same fragments there
(`IsTemplate.script_iff`). The source of an element has them exactly if what it leaves out stands
for no text (`IsTemplate.script_innerSource_iff`).
-/

namespace DynamicSql

open Markup

variable {table : Snippets} {opened : List String}

theorem bodyFragments_append_iff {cs ds : List Content} {fs : List Fragment} :
    bodyFragments table opened (cs ++ ds) = .ok fs ↔
      ∃ front back, bodyFragments table opened cs = .ok front ∧
        bodyFragments table opened ds = .ok back ∧ fs = front ++ back := by
  constructor
  · intro h
    have hparts := bodyFragments_isOk_iff.1 ⟨fs, h⟩
    obtain ⟨front, hfront⟩ := bodyFragments_isOk_iff.2 fun c hc =>
      hparts c (List.mem_append_left ds hc)
    obtain ⟨back, hback⟩ := bodyFragments_isOk_iff.2 fun c hc =>
      hparts c (List.mem_append_right cs hc)
    rw [bodyFragments_append_eq_ok hfront hback] at h
    cases h
    exact ⟨front, back, hfront, hback, rfl⟩
  · intro ⟨front, back, hfront, hback, hfs⟩
    rw [hfs]
    exact bodyFragments_append_eq_ok hfront hback

theorem bodyFragments_textContent (s : String) :
    bodyFragments table opened (textContent s) = textFragments s := by
  by_cases hs : s = ""
  · subst hs
    have hnone : textContent "" = [] := rfl
    have hparts : TextPart.ofChars none "".toList = [] := by
      rw [String.toList_empty, TextPart.ofChars]
    rw [hnone, bodyFragments_nil, textFragments, hparts]
    rfl
  · rw [textContent, if_neg (by simpa using hs), bodyFragments_cons, bodyFragments_nil,
      contentFragments]
    cases textFragments s with
    | error e => rfl
    | ok fs => exact congrArg Except.ok (List.append_nil fs)

/-- A body whose last text is shorter has the same fragments only if it is the same text. -/
theorem bodyFragments_text_iff {cs : List Content} {s t : String} {fs : List Fragment}
    (h : bodyFragments table opened (cs ++ textContent (s ++ t)) = .ok fs) :
    bodyFragments table opened (cs ++ textContent s) = .ok fs ↔ t = "" := by
  constructor
  · intro hshort
    obtain ⟨front, back, hfront, hback, rfl⟩ := bodyFragments_append_iff.1 h
    obtain ⟨front', back', hfront', hback', heq⟩ := bodyFragments_append_iff.1 hshort
    rw [hfront] at hfront'
    cases hfront'
    cases List.append_cancel_left heq
    rw [bodyFragments_textContent] at hback hback'
    exact eq_empty_of_textFragments_append hback' hback
  · rintro rfl
    rwa [String.append_empty] at h

theorem anyInclude_textContent (s : String) : anyInclude (textContent s) = false := by
  unfold textContent
  split <;> rfl

theorem Makes.name_mem {tag : Tag} {children : List Content} {f : Fragment}
    (h : Makes table opened tag children f) :
    tag.name ∈ ["if", "choose", "foreach", "trim", "set", "where", "bind", "include"] := by
  cases h with
  | conditional hname | choose hname | loop hname | bind hname | included hname => simp [hname]
  | trim hspec =>
    have hname := Tag.trimming?_isSome_iff.1 ⟨_, hspec⟩
    simp only [List.mem_cons, List.not_mem_nil, or_false] at hname ⊢
    tauto

theorem Makes.not_script {tag : Tag} {children : List Content} {f : Fragment}
    (h : Makes table opened tag children f) : ¬scriptName.localName <+: tag.name.toList := by
  have hnames : ∀ name ∈ ["if", "choose", "foreach", "trim", "set", "where", "bind", "include"],
      ¬scriptName.localName <+: name.toList := by
    decide
  exact hnames tag.name h.name_mem

/-! Templates that are not scripts of their own -/

theorem dropWhile_of_imp {α : Type} {p q : α → Bool} {cs r : List α} {c : α}
    (h : cs.dropWhile p = c :: r) (himp : ∀ a, p a = true → q a = true) (hc : q c = false) :
    cs.dropWhile q = c :: r := by
  have hcs := List.takeWhile_append_dropWhile (p := p) (l := cs)
  rw [h] at hcs
  have hfront := List.all_eq_true.1 (List.all_takeWhile (p := p) (l := cs))
  rw [← hcs, List.dropWhile_append_of_pos fun a ha => himp a (hfront a ha)]
  exact List.dropWhile_cons_of_neg (by simp [hc])

/-- A template in which a script tag cannot be the first tag is the content of a script. -/
theorem scriptElement_of_content {template : String}
    (h : ¬scriptOpening <+: template.toList.dropWhile (· != '<')) :
    scriptElement template = readMarkup ("<script>" ++ template ++ "</script>") := by
  rw [scriptElement, if_neg]
  intro hprefix
  have htrim : (Text.trimStart template).toList = template.toList.dropWhile Text.isBlankChar :=
    String.toList_ofList
  have hword : "<script".toList = scriptOpening := rfl
  rw [htrim, hword] at hprefix
  obtain ⟨tail, htail⟩ := List.isPrefixOf_iff_prefix.1 hprefix
  have hblank (c : Char) (hc : Text.isBlankChar c = true) : (c != '<') = true := by
    rw [bne_iff_ne]
    rintro rfl
    exact absurd hc (by decide)
  exact h ⟨tail, (dropWhile_of_imp htail.symm hblank (by decide)).symm⟩

/-- Parts that can stand as a template: they were read from some text, nothing is included in them,
and none of their elements is named like a script. -/
structure IsTemplate (content : List Lexeme) (ps : List Piece) : Prop where
  exists_lexemes : ∃ line cs more, lexemes? line cs = some (content ++ more)
  unprefixed : ∀ l ∈ content, l.token.IsUnprefixed
  reads : Reads content ps
  no_include : anyInclude (contents ps) = false
  no_script : ∀ tag children, .element tag children ∈ contents ps →
    ¬scriptName.localName <+: tag.name.toList

namespace IsTemplate

variable {content : List Lexeme} {ps : List Piece} {fs : List Fragment}

/-- As a template the parts have the fragments that they have as a body, whatever the snippets
are. -/
theorem script_iff (h : IsTemplate content ps) (key : String) :
    Statement.script key (sourceText content) =
        .ok ⟨key, .script, sourceText content, .seq fs⟩ ↔
      bodyFragments table opened (contents ps) = .ok fs := by
  obtain ⟨line, cs, more, hlexemes⟩ := h.exists_lexemes
  have hcontent : ¬scriptOpening <+: (sourceText content).toList.dropWhile (· != '<') := by
    rw [toList_sourceText]
    intro hscript
    obtain ⟨tag, children, hmem, hname⟩ := h.reads.exists_script hlexemes h.unprefixed hscript
    exact h.no_script tag children hmem hname
  obtain ⟨e, he, hsame⟩ := read_wrapped hlexemes h.reads
  have helement : scriptElement (sourceText content) = .ok e := by
    rw [scriptElement_of_content hcontent, readMarkup, he]
  have hbody : bodyFragments table opened (contents ps) = .ok fs ↔
      bodyFragments [] [] e.children = .ok fs :=
    hsame.bodyFragments_iff h.no_include
  have hscript : Statement.script key (sourceText content) = do
      return ⟨key, .script, sourceText content, .seq (← bodyFragments [] [] e.children)⟩ := by
    rw [Statement.script, scriptFragment, helement]
    dsimp only [bind, Except.bind]
    cases bodyFragments [] [] e.children <;> rfl
  rw [hbody, hscript, bind_eq_ok]
  constructor
  · intro ⟨gs, hgs, heq⟩
    cases heq
    exact hgs
  · intro hfs
    exact ⟨fs, hfs, rfl⟩

/-- What an element's source leaves out is not needed for a template. -/
theorem exists_front (h : IsTemplate content ps) :
    ∃ front, innerSource ps = sourceText front ∧ IsTemplate front (dropTextTail ps) := by
  obtain ⟨line, cs, more, hlexemes⟩ := h.exists_lexemes
  obtain ⟨front, back, hcontent, hfront, _, hsource⟩ := h.reads.exists_front
  refine ⟨front, hsource, ?_⟩
  obtain ⟨same, text, hshort, hlong⟩ := h.reads.contents_dropTextTail
  exact {
    exists_lexemes := ⟨line, cs, back ++ more, by rw [hlexemes, hcontent, List.append_assoc]⟩
    unprefixed := by
      intro l hl
      apply h.unprefixed
      rw [hcontent]
      exact List.mem_append_left back hl
    reads := hfront
    no_include := by
      have hplain := h.no_include
      rw [hlong, anyInclude_append, Bool.or_eq_false_iff] at hplain
      rw [hshort, anyInclude_append, hplain.1, anyInclude_textContent]
      rfl
    no_script := by
      intro tag children hmem
      obtain ⟨p, hp, hp'⟩ := mem_contents.1 hmem
      apply h.no_script tag children (mem_contents.2 ⟨p, _, hp'⟩)
      rw [← dropTextTail_append_textTail ps]
      exact List.mem_append_left _ hp }

/-- An element's source has the fragments of its content exactly if what it leaves out stands for no
text. -/
theorem script_innerSource_iff (h : IsTemplate content ps)
    (hfs : bodyFragments table opened (contents ps) = .ok fs) (key : String) :
    Statement.script key (innerSource ps) = .ok ⟨key, .script, innerSource ps, .seq fs⟩ ↔
      tailText ps = "" := by
  obtain ⟨front, hsource, hfront⟩ := h.exists_front
  obtain ⟨same, text, hshort, hlong⟩ := h.reads.contents_dropTextTail
  rw [hlong] at hfs
  have hfragments := bodyFragments_text_iff hfs
  rw [← hshort] at hfragments
  rw [hsource, ← hfragments]
  exact hfront.script_iff key

theorem innerSource_eq_iff (h : IsTemplate content ps) :
    innerSource ps = sourceText content ↔ textTail ps = [] := by
  obtain ⟨line, cs, more, hlexemes⟩ := h.exists_lexemes
  obtain ⟨_, _, _, _, hsources, _⟩ := lexemes?_append hlexemes
  obtain ⟨front, back, hcontent, _, hback, hsource⟩ := h.reads.exists_front
  have hnil : sourceOf back = [] ↔ back = [] := by
    apply sourceOf_eq_nil
    intro l hl
    apply hsources
    rw [hcontent]
    exact List.mem_append_right front hl
  rw [← hback.eq_nil_iff, ← hnil, hsource, hcontent, ← String.toList_inj]
  simp

end IsTemplate

end DynamicSql

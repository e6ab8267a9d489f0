import DynamicSql.Proofs.Template.Execution
import DynamicSql.Proofs.Template.QuotedRuns
import DynamicSql.Proofs.Template.ScriptContent

/-!
Templates of nothing but text. Text that is written as itself in a document is read as it is
(`scriptFragment_of_isPlain`), and where no marker starts outside of its quotes it is rendered as it
is (`renderUnder_plain`).
-/

namespace DynamicSql

open Markup

/-- The characters that the XML standard allows in a document. -/
def IsLegal (c : Char) : Prop :=
  c = '\t' ∨ c = '\n' ∨ c = '\r' ∨ (0x20 ≤ c.toNat ∧ c.toNat ≤ 0xD7FF) ∨
    (0xE000 ≤ c.toNat ∧ c.toNat ≤ 0xFFFD) ∨ (0x10000 ≤ c.toNat ∧ c.toNat ≤ 0x10FFFF)

instance (c : Char) : Decidable (IsLegal c) :=
  inferInstanceAs (Decidable (_ ∨ _))

/-- Text that is written as itself between the tags of a document. -/
structure IsPlain (s : String) : Prop where
  legal : ∀ c ∈ s.toList, IsLegal c
  no_tag : '<' ∉ s.toList
  no_reference : '&' ∉ s.toList
  no_return : '\r' ∉ s.toList
  no_end : ¬[']', ']', '>'] <:+: s.toList

namespace Markup

theorem isXmlChar_of_isLegal {c : Char} (h : IsLegal c) : isXmlChar c = true := by
  rcases h with rfl | rfl | rfl | h | h | h
  · decide
  · decide
  · decide
  all_goals
    have hcontrol : ¬c.toNat < 0x20 := by omega
    have hlarge : c.toNat ≠ 0xFFFE ∧ c.toNat ≠ 0xFFFF := by omega
    simp [isXmlChar, hcontrol, hlarge]

theorem holds_iff {word cs : List Char} : holds word cs = true ↔ word <:+: cs := by
  induction cs with
  | nil => simp [holds]
  | cons c cs ih =>
    rw [holds, Bool.or_eq_true, List.isPrefixOf_iff_prefix, ih, List.infix_cons_iff]

theorem written?_plain {cs : List Char} (h : '&' ∉ cs) :
    written? cs = some (cs.map .plain) := by
  induction cs with
  | nil => rw [written?, List.map_nil]
  | cons c cs ih =>
    rw [List.mem_cons, not_or] at h
    rw [written?, ih h.2]
    · rfl
    · exact fun hc => h.1 hc.symm

theorem textValue_plain {cs : List Char} (h : '\r' ∉ cs) :
    textValue false (cs.map .plain) = cs := by
  induction cs with
  | nil => rw [List.map_nil, textValue]
  | cons c cs ih =>
    rw [List.mem_cons, not_or] at h
    rw [List.map_cons, textValue, ih h.2]
    all_goals
      intros
      simp_all

end Markup

namespace IsPlain

variable {s : String}

theorem readText? (h : IsPlain s) : readText? s.toList = some (.text s, []) := by
  have hfront : s.toList.takeWhile (· != '<') = s.toList := by
    rw [List.takeWhile_eq_self_iff]
    intro c hc
    rw [bne_iff_ne]
    rintro rfl
    exact h.no_tag hc
  have hrest : s.toList.dropWhile (· != '<') = [] := by
    have hspan := List.takeWhile_append_dropWhile (p := (· != '<')) (l := s.toList)
    rw [hfront] at hspan
    exact List.append_right_eq_self.1 hspan
  have hlegal : s.toList.all isXmlChar = true :=
    List.all_eq_true.2 fun c hc => isXmlChar_of_isLegal (h.legal c hc)
  have hend : holds [']', ']', '>'] s.toList = false := by
    rw [Bool.eq_false_iff]
    exact mt holds_iff.1 h.no_end
  simp [Markup.readText?, hfront, hrest, hlegal, hend, written?_plain h.no_reference,
    textValue_plain h.no_return]

/-- The text is one lexeme and one part, unless there is nothing of it. -/
theorem exists_lexemes (h : IsPlain s) :
    ∃ content ps, lexemes? 1 s.toList = some content ∧ sourceText content = s ∧
      Reads content ps ∧ contents ps = textContent s := by
  cases hs : s.toList with
  | nil =>
    have hempty : s = "" := by simpa using hs
    subst hempty
    exact ⟨[], [], lexemes?_nil 1, rfl, .nil, rfl⟩
  | cons c cs =>
    have hc : c ≠ '<' := by
      rintro rfl
      exact h.no_tag (hs ▸ List.mem_cons_self)
    have htoken : readToken? (c :: cs) = some (.text s, []) := by
      rw [readToken?_of_text hc, ← hs]
      exact h.readText?
    refine ⟨[⟨.text s, c :: cs, 1⟩], [textPiece (c :: cs) s], ?_, ?_, .text (.inl rfl) .nil, rfl⟩
    · rw [lexemes?_of_token htoken (List.append_nil _).symm, lexemes?_nil]
      rfl
    · rw [sourceText, sourceOf_cons, sourceOf_nil, List.append_nil, ← hs, String.ofList_toList]

end IsPlain

theorem Markup.SameContent.eq_textContent {s : String} {cs : List Content}
    (h : SameContent (textContent s) cs) : cs = textContent s := by
  unfold textContent at h ⊢
  split
  · next hs =>
    rw [if_pos hs] at h
    cases h
    rfl
  · next hs =>
    rw [if_neg hs] at h
    cases h with
    | text _ hrest =>
      cases hrest
      rfl

/-- The fragments of a template of plain text are those of the text. -/
theorem scriptFragment_of_isPlain {s : String} (h : IsPlain s) :
    scriptFragment s = (textFragments s).map .seq := by
  obtain ⟨content, ps, hlexemes, hsource, hreads, hcontents⟩ := h.exists_lexemes
  rw [← List.append_nil content] at hlexemes
  obtain ⟨e, he, hsame⟩ := read_wrapped hlexemes hreads
  rw [hsource] at he
  rw [hcontents] at hsame
  have hcontent : ¬scriptOpening <+: s.toList.dropWhile (· != '<') := by
    rw [List.dropWhile_eq_nil_iff.2]
    · decide
    · intro c hc
      rw [bne_iff_ne]
      rintro rfl
      exact h.no_tag hc
  have helement : scriptElement s = .ok e := by
    rw [scriptElement_of_content hcontent, readMarkup, he]
  rw [scriptFragment, helement]
  dsimp only [bind, Except.bind]
  rw [hsame.eq_textContent, bodyFragments_textContent]
  cases textFragments s <;> rfl

/-! Trees of texts -/

namespace Fragment

mutual

/-- The texts of a tree, one after the other. -/
def staticText : Fragment → String
  | .text s => s
  | .seq items => staticTexts items
  | _ => ""

def staticTexts : List Fragment → String
  | [] => ""
  | f :: fs => f.staticText ++ staticTexts fs

end

mutual

/-- A tree of texts writes them into both texts and changes nothing. -/
theorem exec_render_of_isStatic (o : Options) (s : RenderState) :
    ∀ {f : Fragment}, f.isStatic = true → exec (f.render o) s = (.ok (.both f.staticText), s)
  | .text _, _ => rfl
  | .seq _, h => exec_renderAll_of_areStatic o s h

theorem exec_renderAll_of_areStatic (o : Options) (s : RenderState) :
    ∀ {fs : List Fragment}, areStatic fs = true →
      exec (renderAll o fs) s = (.ok (.both (staticTexts fs)), s)
  | [], _ => rfl
  | f :: fs, h => by
    rw [areStatic, Bool.and_eq_true] at h
    rw [renderAll, exec_bind, exec_render_of_isStatic o s h.1]
    dsimp only
    rw [exec_bind, exec_renderAll_of_areStatic o s h.2]
    rfl

end

theorem renderUnder_of_isStatic {f : Fragment} (h : f.isStatic = true) (o : Options)
    (c : Context) : f.renderUnder o c = (.ok ⟨f.staticText, f.staticText, []⟩, c) := by
  rw [renderUnder_eq, exec_render_of_isStatic o _ h]
  rfl

end Fragment

/-- Plain text in which no marker starts outside of quotes is a template without anything dynamic in
it, and renders to itself, whatever the options and the context, which stays as it is. -/
theorem renderUnder_plain {s : String} (hplain : IsPlain s)
    (hunmarked : IsUnmarked .outside s.toList) :
    ∃ f, scriptFragment s = .ok f ∧ f.isStatic = true ∧
      ∀ o c, f.renderUnder o c = (.ok ⟨s, s, []⟩, c) := by
  have hfragment : scriptFragment s = .ok (.seq (if s.isEmpty then [] else [.text s])) := by
    rw [scriptFragment_of_isPlain hplain, textFragments_of_isUnmarked hunmarked]
    rfl
  refine ⟨_, hfragment, ?_, ?_⟩
  · split <;> rfl
  · intro o c
    rw [Fragment.renderUnder_of_isStatic]
    · split <;> simp_all [Fragment.staticText, Fragment.staticTexts]
    · split <;> rfl

/-- Markers inside of quotes, a quote behind a backslash, and a hash without a brace. -/
theorem renderUnder_plain_quoted :
    let s := "SELECT '#\x7ba\x7d \\' $\x7bb\x7d', \"`\", `$\x7bc\x7d` #x > 1"
    IsPlain s ∧ IsUnmarked .outside s.toList ∧
      ∃ f, scriptFragment s = .ok f ∧ f.isStatic = true ∧
        ∀ o c, f.renderUnder o c = (.ok ⟨s, s, []⟩, c) := by
  intro s
  have hlegal : s.toList.all (fun c => decide (IsLegal c)) = true := by decide
  have hplain : IsPlain s :=
    ⟨fun c hc => of_decide_eq_true (List.all_eq_true.1 hlegal c hc), by decide, by decide,
      by decide, by decide⟩
  have hunmarked : IsUnmarked .outside s.toList := by decide
  exact ⟨hplain, hunmarked, renderUnder_plain hplain hunmarked⟩

end DynamicSql

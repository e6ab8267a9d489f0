import Mathlib.Data.List.Forall2
import DynamicSql.Proofs.Mapper.Splicing
import DynamicSql.Proofs.Template.SameContent

/-!
The order of the snippets of a mapper. All that the statements see of it is what an include of a
name stands for, and of two snippets that share a name the later one takes it. Where no name is
shared, any order of the snippets makes the same statements (`statements_reordered`).
-/

namespace DynamicSql

open Markup

variable {table table' : Snippets} {opened opened' : List String} {f : Fragment}

/-! Bodies and their includes -/

/-- Of an element that includes something only the name counts that it refers to. -/
theorem Makes.of_refid {tag other : Tag} {children others : List Content}
    (h : Makes table opened tag children f) (hname : tag.name = "include")
    (hother : other.name = "include")
    (hrefid : other.attributes.get? "refid" = tag.attributes.get? "refid") :
    Makes table opened other others f := by
  have hmade := elementFragment_eq_ok.2 h
  rw [elementFragment_include hname] at hmade
  obtain ⟨refid, htag, hmade⟩ := bind_eq_ok.1 hmade
  have htext : other.required "refid" = .ok refid := by
    rw [Tag.required_eq_ok] at htag ⊢
    rw [hrefid]
    exact htag
  apply elementFragment_eq_ok.1
  rw [elementFragment_include hother]
  exact bind_eq_ok.2 ⟨refid, htext, hmade⟩

/-- What an include has with the one table, it has with the other. -/
def SameIncludes (table table' : Snippets) (opened : List String) : Prop :=
  ∀ tag children f, tag.name = "include" → Makes table opened tag children f →
    Makes table' opened tag children f

/-- Includes are all that a body has from its table. -/
theorem SameIncludes.sameBody (h : SameIncludes table table' opened) (cs : List Content) :
    SameBody table table' opened opened cs cs := by
  have hboth : SameBody table table' opened opened cs cs ∧
      ∀ choice, Chooses table opened cs choice → Chooses table' opened cs choice := by
    -- No table is needed to go through the content, so the induction is over an empty one.
    induction ([] : List String), cs using body_induction [] with
    | nil =>
      refine ⟨fun fs hfs => ?_, fun choice hchoice => ?_⟩
      · rw [bodyFragments_nil] at hfs ⊢
        exact hfs
      · cases hchoice
        exact .done
    | text _ s cs ih =>
      refine ⟨fun fs hfs => ?_, fun choice hchoice => ?_⟩
      · obtain ⟨first, rest, hfirst, hrest, rfl⟩ := bodyFragments_cons_eq_ok.1 hfs
        exact bodyFragments_cons_eq_ok.2 ⟨first, rest, hfirst, ih.1 rest hrest, rfl⟩
      · rw [Chooses.text_cons] at hchoice ⊢
        exact ⟨hchoice.1, ih.2 choice hchoice.2⟩
    | element _ tag children cs hchildren _ ih =>
      refine ⟨fun fs hfs => ?_, fun choice hchoice => ?_⟩
      · obtain ⟨_, rest, hfirst, hrest, rfl⟩ := bodyFragments_cons_eq_ok.1 hfs
        obtain ⟨f, hf, rfl⟩ := contentFragments_element_eq_ok.1 hfirst
        have hmade : Makes table' opened tag children f := by
          by_cases hname : tag.name = "include"
          · exact h tag children f hname hf
          · exact hf.of_same rfl rfl hname hchildren.1 hchildren.2
        exact bodyFragments_cons_eq_ok.2
          ⟨[f], rest, contentFragments_element_eq_ok.2 ⟨f, hmade, rfl⟩, ih.1 rest hrest, rfl⟩
      · cases hchoice with
        | when hname htest hbody hrest =>
          exact .when hname htest (hchildren.1 _ hbody) (ih.2 _ hrest)
        | otherwise hname hbody hrest =>
          exact .otherwise hname (hchildren.1 _ hbody) hrest
  exact hboth.1

/-- Tables in which the same snippets are found. -/
theorem sameIncludes_of_get? (hget : Entries.get? table = Entries.get? table')
    (opened : List String) : SameIncludes table table' opened := by
  induction hn : table.unopened opened using Nat.strong_induction_on generalizing opened with
  | h n ih =>
    subst hn
    intro tag children f hname h
    have hmade := elementFragment_eq_ok.2 h
    rw [elementFragment_include hname] at hmade
    obtain ⟨refid, hrefid, hmade⟩ := bind_eq_ok.1 hmade
    split at hmade
    · cases hmade
    · next snippet hfound =>
      split at hmade
      · cases hmade
      · next hopened =>
        obtain ⟨fs, hfs, ⟨⟩⟩ := bind_eq_ok.1 hmade
        have hinner := ih _ (Snippets.unopened_lt hfound hopened) _ rfl
        rw [hget] at hfound
        exact .included hname hrefid hfound hopened (hinner.sameBody _ fs hfs)

namespace Mapper

/-- An element that includes the name. -/
def includeTag (refid : String) : Tag :=
  ⟨"include", [("refid", refid)], 0, ""⟩

/-- What an include of the name stands for in a body. -/
def included (table : Snippets) (refid : String) : Except TemplateError Fragment :=
  elementFragment table [] (includeTag refid) []

theorem sameIncludes_of_included
    (h : ∀ refid f, included table refid = .ok f → included table' refid = .ok f) :
    SameIncludes table table' [] := by
  intro tag children f hname hmade
  have hmade' := elementFragment_eq_ok.2 hmade
  rw [elementFragment_include hname] at hmade'
  obtain ⟨refid, hrefid, _⟩ := bind_eq_ok.1 hmade'
  have hattribute : (includeTag refid).attributes.get? "refid" = tag.attributes.get? "refid" :=
    (Tag.required_eq_ok.1 hrefid).1.symm
  have htag : Makes table [] (includeTag refid) [] f := hmade.of_refid hname rfl hattribute
  have hother := elementFragment_eq_ok.1 (h refid f (elementFragment_eq_ok.2 htag))
  exact hother.of_refid rfl hname hattribute.symm

/-! The order of snippets -/

/-- The children of a mapper with its snippets in another order, and everything else in place. -/
structure Reordered (cs ds : List Content) : Prop where
  snippets : (snippetElements cs).Perm (snippetElements ds)
  others : List.Forall₂
    (fun c d => c = d ∨ (snippetElement? c).isSome ∧ (snippetElement? d).isSome) cs ds

/-- No two snippets share a name: their ids differ, and none is the qualified id of another. -/
def NamesApart (space : String) (cs : List Content) : Prop :=
  (snippets cs).Pairwise fun s t =>
    s.id ≠ t.id ∧ s.id ≠ qualified space t.id ∧ qualified space s.id ≠ t.id

/-- Both make the same statements, or neither makes any. -/
def SameStatements (space : String) (cs ds : List Content) : Prop :=
  ∀ es, statements space cs = .ok es ↔ statements space ds = .ok es

variable {space : String} {cs ds : List Content}

theorem statementElement?_of_snippet {c : Content} (h : (snippetElement? c).isSome) :
    statementElement? c = none := by
  cases c with
  | text s => rfl
  | element tag inner =>
    rw [snippetElement?] at h
    split at h
    · next hname =>
      rw [statementElement?, hname]
      rfl
    · cases h

theorem Reordered.statementElements_eq (h : Reordered cs ds) :
    statementElements cs = statementElements ds := by
  have hothers := h.others
  clear h
  induction hothers with
  | nil => rfl
  | cons hcd _ ih =>
    rw [statementElements, statementElements, List.filterMap_cons, List.filterMap_cons]
    rw [statementElements, statementElements] at ih
    obtain rfl | ⟨hc, hd⟩ := hcd
    · rw [ih]
    · rw [statementElement?_of_snippet hc, statementElement?_of_snippet hd, ih]

theorem Reordered.symm (h : Reordered cs ds) : Reordered ds cs where
  snippets := h.snippets.symm
  others := h.others.flip.imp fun _ _ hcd => hcd.imp Eq.symm And.symm

theorem snippetTable_congr (h : snippetElements cs = snippetElements ds) :
    snippetTable space cs = snippetTable space ds := by
  rw [snippetTable, snippetTable, snippets, snippets, h]

theorem snippetsFrom_eq_snippetTable (hids : ∀ e ∈ snippetElements cs, e.1.HasText "id") :
    snippetsFrom space [] cs = .ok (snippetTable space cs) :=
  snippetsFrom_eq_ok.2 ⟨hids, rfl⟩

theorem Reordered.hasIds (h : Reordered cs ds)
    (hids : ∀ e ∈ snippetElements cs, e.1.HasText "id") :
    ∀ e ∈ snippetElements ds, e.1.HasText "id" :=
  fun e he => hids e (h.snippets.mem_iff.2 he)

/-- Where the includes stand for the same, the same statements are made. -/
theorem Reordered.statements_of_included (h : Reordered cs ds)
    (hincluded : ∀ refid f, included (snippetTable space cs) refid = .ok f →
      included (snippetTable space ds) refid = .ok f) {es : Entries Statement}
    (hes : statements space cs = .ok es) : statements space ds = .ok es := by
  obtain ⟨table, htable, henters, hnodup⟩ := statements_eq_ok.1 hes
  obtain ⟨hids, rfl⟩ := snippetsFrom_eq_ok.1 htable
  refine statements_eq_ok.2
    ⟨_, snippetsFrom_eq_snippetTable (h.hasIds hids), ?_, hnodup⟩
  rw [← h.statementElements_eq]
  refine henters.imp fun e entry => ?_
  rintro ⟨id, fs, hid, hfs, rfl⟩
  exact ⟨id, fs, hid, (sameIncludes_of_included hincluded).sameBody e.children fs hfs, rfl⟩

theorem Reordered.sameStatements (h : Reordered cs ds)
    (hincluded : ∀ refid f, included (snippetTable space cs) refid = .ok f ↔
      included (snippetTable space ds) refid = .ok f) : SameStatements space cs ds :=
  fun _ => ⟨h.statements_of_included fun refid f => (hincluded refid f).1,
    h.symm.statements_of_included fun refid f => (hincluded refid f).2⟩

/-! Names of one snippet -/

theorem not_isNamed_of_apart {s t : Snippet}
    (h : s.id ≠ t.id ∧ s.id ≠ qualified space t.id ∧ qualified space s.id ≠ t.id)
    (name : String) : ¬(isNamed space name s ∧ isNamed space name t) := by
  simp only [isNamed, Bool.or_eq_true, decide_eq_true_eq]
  rintro ⟨rfl | hs, ht | ht⟩
  · exact h.1 ht.symm
  · exact h.2.1 ht.symm
  · exact h.2.2 (hs.trans ht.symm)
  · have hid : qualified space s.id = qualified space t.id := hs.trans ht.symm
    rw [qualified, qualified, String.append_right_inj] at hid
    exact h.1 hid

/-- Where at most one element is selected, the order of the list does not matter. -/
theorem filter_perm_of_pairwise {α : Type} {p : α → Bool} {l l' : List α} (h : l.Perm l')
    (hp : l.Pairwise fun a b => ¬(p a ∧ p b)) : l.filter p = l'.filter p := by
  have hfilter := h.filter p
  cases hl : l.filter p with
  | nil =>
    rw [hl] at hfilter
    exact hfilter.nil_eq
  | cons a rest =>
    cases rest with
    | nil =>
      rw [hl] at hfilter
      exact hfilter.singleton_eq
    | cons b rest =>
      have ha : a ∈ l.filter p := by simp [hl]
      have hb : b ∈ l.filter p := by simp [hl]
      have hpair := hp.filter p
      rw [hl] at hpair
      exact absurd ⟨(List.mem_filter.1 ha).2, (List.mem_filter.1 hb).2⟩
        (List.rel_of_pairwise_cons hpair List.mem_cons_self)

theorem Reordered.snippetNamed_eq (h : Reordered cs ds) (hapart : NamesApart space cs) :
    snippetNamed space cs = snippetNamed space ds := by
  funext name
  have hsnippets : (Mapper.snippets cs).Perm (Mapper.snippets ds) := h.snippets.filterMap _
  have hnamed := hapart.imp fun hst => not_isNamed_of_apart hst name
  rw [snippetNamed, snippetNamed, filter_perm_of_pairwise hsnippets hnamed]

theorem get?_snippetTable (space : String) (cs : List Content) :
    Entries.get? (snippetTable space cs) = snippetNamed space cs := by
  funext name
  exact (get?_foldl_addSnippet _).trans Option.or_none

theorem Reordered.included_of_apart (h : Reordered cs ds) (hapart : NamesApart space cs)
    (refid : String) (f : Fragment) :
    included (snippetTable space cs) refid = .ok f ↔
      included (snippetTable space ds) refid = .ok f := by
  have hget : Entries.get? (snippetTable space cs) = Entries.get? (snippetTable space ds) := by
    rw [get?_snippetTable, get?_snippetTable, h.snippetNamed_eq hapart]
  rw [included, included, elementFragment_eq_ok, elementFragment_eq_ok]
  exact ⟨sameIncludes_of_get? hget [] _ [] f rfl, sameIncludes_of_get? hget.symm [] _ [] f rfl⟩

/-! Orders that can be told apart -/

/-- The snippets of a mapper beside one statement that includes a name. -/
def askingFor (refid : String) (cs : List Content) : List Content :=
  cs.filter (fun c => (snippetElement? c).isSome) ++
    [.element ⟨"select", [("id", "q")], 0, ""⟩ [.element (includeTag refid) []]]

def answer (space : String) (f : Fragment) : Entries Statement :=
  [(qualified space "q", ⟨qualified space "q", .select, "", .seq [f]⟩)]

theorem snippetElements_askingFor (refid : String) (cs : List Content) :
    snippetElements (askingFor refid cs) = snippetElements cs := by
  rw [askingFor, snippetElements, List.filterMap_append, List.filterMap_filter]
  have hnone : List.filterMap snippetElement?
      [.element ⟨"select", [("id", "q")], 0, ""⟩ [.element (includeTag refid) []]] = [] := rfl
  rw [hnone, List.append_nil]
  refine List.filterMap_congr fun c _ => ?_
  cases snippetElement? c <;> rfl

theorem statementElements_askingFor (refid : String) (cs : List Content) :
    statementElements (askingFor refid cs) =
      [⟨.select, ⟨"select", [("id", "q")], 0, ""⟩, [.element (includeTag refid) []]⟩] := by
  have hnone : (cs.filter fun c => (snippetElement? c).isSome).filterMap statementElement? = [] :=
    List.filterMap_eq_nil_iff.2 fun c hc => statementElement?_of_snippet (List.mem_filter.1 hc).2
  rw [askingFor, statementElements, List.filterMap_append, hnone]
  rfl

theorem reordered_askingFor (h : Reordered cs ds) (refid : String) :
    Reordered (askingFor refid cs) (askingFor refid ds) where
  snippets := by
    rw [snippetElements_askingFor, snippetElements_askingFor]
    exact h.snippets
  others := by
    have hothers := h.others
    clear h
    refine List.rel_append ?_ (.cons (.inl rfl) .nil)
    induction hothers with
    | nil => exact .nil
    | @cons c d _ _ hcd _ ih =>
      obtain rfl | ⟨hc, hd⟩ := hcd
      · rw [List.filter_cons, List.filter_cons]
        split
        · exact .cons (.inl rfl) ih
        · exact ih
      · rw [List.filter_cons, List.filter_cons, if_pos hc, if_pos hd]
        exact .cons (.inr ⟨hc, hd⟩) ih

/-- The answer to an include of a name is what the include stands for. -/
theorem statements_askingFor (hids : ∀ e ∈ snippetElements cs, e.1.HasText "id") (refid : String)
    (f : Fragment) :
    statements space (askingFor refid cs) = .ok (answer space f) ↔
      included (snippetTable space cs) refid = .ok f := by
  have htable : snippetsFrom space [] (askingFor refid cs) = .ok (snippetTable space cs) := by
    rw [← snippetElements_askingFor refid cs] at hids
    rw [snippetsFrom_eq_snippetTable hids, snippetTable_congr (snippetElements_askingFor refid cs)]
  rw [included, elementFragment_eq_ok, statements_eq_ok, statementElements_askingFor]
  constructor
  · rintro ⟨table, htable', henters, _⟩
    rw [htable] at htable'
    cases htable'
    obtain ⟨_, fs, _, hfs, heq⟩ := (List.forall₂_cons.1 henters).1
    obtain ⟨_, rest, hfirst, hrest, rfl⟩ := bodyFragments_cons_eq_ok.1 hfs
    obtain ⟨g, hg, rfl⟩ := contentFragments_element_eq_ok.1 hfirst
    injection heq with _ hstatement
    injection hstatement with _ _ _ hroot
    injection hroot with hitems
    injection hitems with hfg
    rw [hfg]
    exact hg
  · intro hf
    have hfs : bodyFragments (snippetTable space cs) [] [.element (includeTag refid) []] =
        .ok [f] :=
      bodyFragments_cons_eq_ok.2 ⟨[f], [], contentFragments_element_eq_ok.2 ⟨f, hf, rfl⟩,
        bodyFragments_nil, rfl⟩
    have hid : Tag.required ⟨"select", [("id", "q")], 0, ""⟩ "id" = .ok "q" :=
      Tag.required_eq_ok.2 ⟨rfl, by decide⟩
    exact ⟨_, htable, .cons ⟨"q", [f], hid, hfs, rfl⟩ .nil, List.nodup_singleton _⟩

/-- Where no two snippets of a mapper share a name, any order of them makes the same statements, or
none in any order. In general two orders are the same, whatever else is in the mapper, exactly if
every include stands for the same in both of them. -/
theorem statements_reordered (space : String) {cs ds : List Content} (h : Reordered cs ds) :
    (NamesApart space cs → SameStatements space cs ds) ∧
    ((∀ e ∈ snippetElements cs, e.1.HasText "id") →
      ((∀ cs' ds', Reordered cs' ds' → snippetElements cs' = snippetElements cs →
          snippetElements ds' = snippetElements ds → SameStatements space cs' ds') ↔
        ∀ refid f, included (snippetTable space cs) refid = .ok f ↔
          included (snippetTable space ds) refid = .ok f)) := by
  refine ⟨fun hapart => h.sameStatements (h.included_of_apart hapart), fun hids => ⟨?_, ?_⟩⟩
  · intro hsame refid f
    have hasked := hsame _ _ (reordered_askingFor h refid) (snippetElements_askingFor refid cs)
      (snippetElements_askingFor refid ds) (answer space f)
    rw [statements_askingFor hids, statements_askingFor (h.hasIds hids)] at hasked
    exact hasked
  · intro hincluded cs' ds' h' hcs hds
    apply h'.sameStatements
    rw [snippetTable_congr hcs, snippetTable_congr hds]
    exact hincluded

/-- A snippet before and behind the one that it includes. -/
theorem statements_reordered_apart :
    let a : Content := .element ⟨"sql", [("id", "a")], 1, ""⟩ [.text "x"]
    let b : Content :=
      .element ⟨"sql", [("id", "b")], 2, ""⟩ [.element ⟨"include", [("refid", "m.a")], 2, ""⟩ []]
    let q : Content := .element ⟨"select", [("id", "q")], 3, ""⟩
      [.element ⟨"include", [("refid", "b")], 3, ""⟩ []]
    let es : Entries Statement := [("m.q", ⟨"m.q", .select, "", .seq [.seq [.seq [.text "x"]]]⟩)]
    (Reordered [a, q, b] [b, q, a] ∧ NamesApart "m" [a, q, b]) ∧
      SameStatements "m" [a, q, b] [b, q, a] ∧ statements "m" [b, q, a] = .ok es := by
  intro a b q es
  have h : Reordered [a, q, b] [b, q, a] :=
    ⟨.swap _ _ _, .cons (.inr ⟨rfl, rfl⟩) (.cons (.inl rfl) (.cons (.inr ⟨rfl, rfl⟩) .nil))⟩
  have hapart : NamesApart "m" [a, q, b] := by
    unfold NamesApart
    decide
  have hsame := (statements_reordered "m" h).1 hapart
  exact ⟨⟨h, hapart⟩, hsame, (hsame es).1 (by cbv)⟩

/-- Of two snippets with one id the later one is taken, in silence. -/
theorem statements_shadowed :
    let a : Content := .element ⟨"sql", [("id", "c")], 1, ""⟩ [.text "x"]
    let b : Content := .element ⟨"sql", [("id", "c")], 2, ""⟩ [.text "y"]
    let q : Content := .element ⟨"select", [("id", "q")], 3, ""⟩
      [.element ⟨"include", [("refid", "c")], 3, ""⟩ []]
    Reordered [a, b, q] [b, a, q] ∧
      statements "m" [a, b, q] = .ok [("m.q", ⟨"m.q", .select, "", .seq [.seq [.text "y"]]⟩)] ∧
      statements "m" [b, a, q] = .ok [("m.q", ⟨"m.q", .select, "", .seq [.seq [.text "x"]]⟩)] ∧
      ¬SameStatements "m" [a, b, q] [b, a, q] := by
  intro a b q
  have hab : statements "m" [a, b, q] =
      .ok [("m.q", ⟨"m.q", .select, "", .seq [.seq [.text "y"]]⟩)] := by cbv
  have hba : statements "m" [b, a, q] =
      .ok [("m.q", ⟨"m.q", .select, "", .seq [.seq [.text "x"]]⟩)] := by cbv
  refine ⟨⟨.swap _ _ _, ?_⟩, hab, hba, ?_⟩
  · exact .cons (.inr ⟨rfl, rfl⟩) (.cons (.inr ⟨rfl, rfl⟩) (.cons (.inl rfl) .nil))
  · intro hsame
    have hother := (hsame _).1 hab
    rw [hba] at hother
    simp at hother

end Mapper

end DynamicSql

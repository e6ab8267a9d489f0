import Mathlib.Data.List.TakeWhile
import DynamicSql.Proofs.Template.BodyFragments

/-!
Which bodies have fragments. Whether a part of a body is well formed is said by the names and
attributes of elements alone, and by the snippets that includes refer to: `WellFormed` is inductive,
so includes cannot go in a circle. A body has fragments exactly if all its parts are well formed
(`bodyFragments_isOk_iff_wellFormed`).
-/

namespace DynamicSql

open Markup

theorem Path.not_isBlank_of_read {s : String} {p : Path} (h : Path.read s = .ok p) :
    Text.isBlank s = false := by
  rw [Bool.eq_false_iff]
  intro hblank
  have hdrop : Text.dropBlanks s.toList = [] :=
    List.dropWhile_eq_nil_iff.2 (List.all_eq_true.1 hblank)
  have htrim : Text.trimChars s.toList = [] := by
    rw [Text.trimChars, hdrop]
    rfl
  rw [Path.read, htrim] at h
  cases h

namespace Markup.Tag

def HasText (t : Tag) (name : String) : Prop :=
  ∃ v, t.attributes.get? name = some v ∧ Text.isBlank v = false

def HasExpression (t : Tag) (name : String) : Prop :=
  ∃ v e, t.attributes.get? name = some v ∧ Text.isBlank v = false ∧ Expression.read v = .ok e

def HasPath (t : Tag) (name : String) : Prop :=
  ∃ v p, t.attributes.get? name = some v ∧ Path.read v = .ok p

theorem hasText_iff {t : Tag} {name : String} : t.HasText name ↔ ∃ v, t.required name = .ok v := by
  simp only [HasText, required_eq_ok]

theorem hasExpression_iff {t : Tag} {name : String} :
    t.HasExpression name ↔ ∃ e, t.expression name = .ok e := by
  simp only [HasExpression, expression_eq_ok]
  exact exists_comm

theorem hasPath_iff {t : Tag} {name : String} : t.HasPath name ↔ ∃ p, t.path name = .ok p := by
  simp only [HasPath, path_eq_ok]
  constructor
  · rintro ⟨v, p, hv, hp⟩
    exact ⟨p, v, hv, Path.not_isBlank_of_read hp, hp⟩
  · rintro ⟨p, v, hv, _, hp⟩
    exact ⟨v, p, hv, hp⟩

theorem loop_isOk_iff {t : Tag} :
    (∃ spec, t.loop = .ok spec) ↔ t.HasPath "collection" ∧ t.HasText "item" := by
  rw [hasPath_iff, hasText_iff]
  constructor
  · rintro ⟨spec, h⟩
    rcases bind_eq_ok.1 h with ⟨p, hp, h⟩
    rcases bind_eq_ok.1 h with ⟨item, hitem, _⟩
    exact ⟨⟨p, hp⟩, item, hitem⟩
  · rintro ⟨⟨p, hp⟩, item, hitem⟩
    exact ⟨_, bind_eq_ok.2 ⟨p, hp, bind_eq_ok.2 ⟨item, hitem, rfl⟩⟩⟩

theorem trimming?_isSome_iff {t : Tag} :
    (∃ spec, t.trimming? = some spec) ↔ t.name ∈ ["trim", "set", "where"] := by
  rw [trimming?]
  split <;> simp_all

end Markup.Tag

/-- The parts of a choice, blank texts apart: elements with a test, and behind them at most one
without. -/
structure Branching (children : List Content) (whens : List (Tag × List Content))
    (otherwise : Option (Tag × List Content)) : Prop where
  parts : (children.filter fun c => !isBlankText c) =
    (whens ++ otherwise.toList).map fun w => .element w.1 w.2
  whens : ∀ w ∈ whens, w.1.name = "when" ∧ w.1.HasExpression "test"
  otherwise : ∀ w ∈ otherwise, w.1.name = "otherwise"

/-- Parts of a body that are well formed where `find` gives the snippets. The children of `bind` and
`include` do not count. -/
inductive WellFormed (find : String → Option Snippet) : Content → Prop where
  | text {s : String} {fs : List Fragment} (h : textFragments s = .ok fs) :
      WellFormed find (.text s)
  | conditional {tag : Tag} {children : List Content} (hname : tag.name = "if")
      (htest : tag.HasExpression "test") (hbody : ∀ c ∈ children, WellFormed find c) :
      WellFormed find (.element tag children)
  | choose {tag : Tag} {children : List Content} {whens : List (Tag × List Content)}
      {otherwise : Option (Tag × List Content)} (hname : tag.name = "choose")
      (hparts : Branching children whens otherwise)
      (hbodies : ∀ w ∈ whens ++ otherwise.toList, ∀ c ∈ w.2, WellFormed find c) :
      WellFormed find (.element tag children)
  | loop {tag : Tag} {children : List Content} (hname : tag.name = "foreach")
      (hcollection : tag.HasPath "collection") (hitem : tag.HasText "item")
      (hbody : ∀ c ∈ children, WellFormed find c) : WellFormed find (.element tag children)
  | trim {tag : Tag} {children : List Content} (hname : tag.name ∈ ["trim", "set", "where"])
      (hbody : ∀ c ∈ children, WellFormed find c) : WellFormed find (.element tag children)
  | bind {tag : Tag} {children : List Content} (hname : tag.name = "bind")
      (htext : tag.HasText "name") (hvalue : tag.HasExpression "value") :
      WellFormed find (.element tag children)
  | included {tag : Tag} {children : List Content} {refid : String} {snippet : Snippet}
      (hname : tag.name = "include") (hrefid : tag.attributes.get? "refid" = some refid)
      (htext : Text.isBlank refid = false) (hfound : find (Text.trim refid) = some snippet)
      (hbody : ∀ c ∈ snippet.children, WellFormed find c) : WellFormed find (.element tag children)

/-- A part of a body comes to a snippet through includes, in the part itself or in a snippet that it
comes to. -/
inductive Reaches (find : String → Option Snippet) : Content → Snippet → Prop where
  | here {tag : Tag} {children : List Content} {refid : String} {snippet : Snippet}
      (hname : tag.name = "include") (hrefid : tag.attributes.get? "refid" = some refid)
      (hfound : find (Text.trim refid) = some snippet) :
      Reaches find (.element tag children) snippet
  | beyond {tag : Tag} {children : List Content} {refid : String} {next snippet : Snippet}
      {c : Content} (hname : tag.name = "include")
      (hrefid : tag.attributes.get? "refid" = some refid)
      (hfound : find (Text.trim refid) = some next) (hc : c ∈ next.children)
      (hreaches : Reaches find c snippet) : Reaches find (.element tag children) snippet
  | inside {tag : Tag} {children : List Content} {snippet : Snippet} {c : Content}
      (hname : tag.name ≠ "include") (hbind : tag.name ≠ "bind") (hc : c ∈ children)
      (hreaches : Reaches find c snippet) : Reaches find (.element tag children) snippet

variable {find : String → Option Snippet}

theorem Reaches.found {c : Content} {s : Snippet} (h : Reaches find c s) :
    ∃ name, find name = some s := by
  induction h with
  | here _ _ hfound => exact ⟨_, hfound⟩
  | beyond _ _ _ _ _ ih => exact ih
  | inside _ _ _ _ ih => exact ih

theorem Reaches.of_include {tag : Tag} {children : List Content} {refid : String}
    {next snippet : Snippet} (h : Reaches find (.element tag children) snippet)
    (hname : tag.name = "include") (hrefid : tag.attributes.get? "refid" = some refid)
    (hfound : find (Text.trim refid) = some next) :
    snippet = next ∨ ∃ c ∈ next.children, Reaches find c snippet := by
  cases h with
  | here _ hrefid' hfound' =>
    rw [hrefid] at hrefid'
    cases hrefid'
    rw [hfound] at hfound'
    cases hfound'
    exact .inl rfl
  | beyond _ hrefid' hfound' hc hreaches =>
    rw [hrefid] at hrefid'
    cases hrefid'
    rw [hfound] at hfound'
    cases hfound'
    exact .inr ⟨_, hc, hreaches⟩
  | inside hother => contradiction

theorem Reaches.of_ne_include {tag : Tag} {children : List Content} {snippet : Snippet}
    (h : Reaches find (.element tag children) snippet) (hname : tag.name ≠ "include") :
    tag.name ≠ "bind" ∧ ∃ c ∈ children, Reaches find c snippet := by
  cases h with
  | here hinclude => contradiction
  | beyond hinclude => contradiction
  | inside _ hbind hc hreaches => exact ⟨hbind, _, hc, hreaches⟩

namespace Branching

variable {cs : List Content} {whens : List (Tag × List Content)}
  {otherwise : Option (Tag × List Content)}

theorem nil : Branching [] [] none :=
  ⟨rfl, nofun, nofun⟩

theorem text_cons {s : String} :
    Branching (.text s :: cs) whens otherwise ↔
      Text.isBlank s = true ∧ Branching cs whens otherwise := by
  constructor
  · intro h
    have hparts := h.parts
    rw [List.filter_cons] at hparts
    split at hparts
    · cases whens <;> cases otherwise <;> cases hparts
    · next hblank => exact ⟨by simpa [isBlankText] using hblank, hparts, h.whens, h.otherwise⟩
  · rintro ⟨hblank, h⟩
    refine ⟨?_, h.whens, h.otherwise⟩
    rw [List.filter_cons_of_neg (by simpa [isBlankText] using hblank), h.parts]

theorem element_cons {tag : Tag} {children : List Content} :
    Branching (.element tag children :: cs) whens otherwise ↔
      (∃ rest, whens = (tag, children) :: rest ∧ tag.name = "when" ∧ tag.HasExpression "test" ∧
        Branching cs rest otherwise) ∨
      (whens = [] ∧ otherwise = some (tag, children) ∧ tag.name = "otherwise" ∧
        cs.all isBlankText = true) := by
  constructor
  · intro h
    have hparts := h.parts
    rw [List.filter_cons_of_pos rfl] at hparts
    cases whens with
    | cons w rest =>
      rcases List.cons_eq_cons.1 hparts with ⟨hw, hrest⟩
      cases hw
      rcases List.forall_mem_cons.1 h.whens with ⟨⟨hname, htest⟩, hwhens⟩
      exact .inl ⟨rest, rfl, hname, htest, hrest, hwhens, h.otherwise⟩
    | nil =>
      cases otherwise with
      | none => cases hparts
      | some w =>
        rcases List.cons_eq_cons.1 hparts with ⟨hw, hrest⟩
        cases hw
        refine .inr ⟨rfl, rfl, h.otherwise _ rfl, List.all_eq_true.2 ?_⟩
        intro c hc
        simpa using List.filter_eq_nil_iff.1 hrest c hc
  · rintro (⟨rest, rfl, hname, htest, h⟩ | ⟨rfl, rfl, hname, hblank⟩)
    · refine ⟨?_, List.forall_mem_cons.2 ⟨⟨hname, htest⟩, h.whens⟩, h.otherwise⟩
      rw [List.filter_cons_of_pos rfl, h.parts]
      rfl
    · refine ⟨?_, nofun, ?_⟩
      · rw [List.filter_cons_of_pos rfl, List.filter_eq_nil_iff.2]
        · rfl
        · intro c hc
          simpa using List.all_eq_true.1 hblank c hc
      · rintro _ ⟨⟩
        exact hname

theorem mem (h : Branching cs whens otherwise) {w : Tag × List Content}
    (hw : w ∈ whens ++ otherwise.toList) : .element w.1 w.2 ∈ cs := by
  have hmem : Content.element w.1 w.2 ∈ cs.filter fun c => !isBlankText c := by
    rw [h.parts]
    exact List.mem_map_of_mem hw
  exact (List.mem_filter.1 hmem).1

theorem of_mem (h : Branching cs whens otherwise) {tag : Tag} {inner : List Content}
    (hmem : .element tag inner ∈ cs) : (tag, inner) ∈ whens ++ otherwise.toList := by
  have hfilter : Content.element tag inner ∈ cs.filter fun c => !isBlankText c :=
    List.mem_filter.2 ⟨hmem, rfl⟩
  rw [h.parts] at hfilter
  rcases List.mem_map.1 hfilter with ⟨w, hw, heq⟩
  cases heq
  exact hw

theorem name_mem (h : Branching cs whens otherwise) {w : Tag × List Content}
    (hw : w ∈ whens ++ otherwise.toList) : w.1.name ∈ ["when", "otherwise"] := by
  rcases List.mem_append.1 hw with hw | hw
  · simp [(h.whens w hw).1]
  · simp [h.otherwise w (Option.mem_toList.1 hw)]

/-- What a choice comes to, it comes to in one of its bodies. -/
theorem reaches (h : Branching cs whens otherwise) {c : Content} (hc : c ∈ cs) {s : Snippet}
    (hs : Reaches find c s) : ∃ w ∈ whens ++ otherwise.toList, ∃ d ∈ w.2, Reaches find d s := by
  cases c with
  | text => cases hs
  | element tag inner =>
    have hw := h.of_mem hc
    have hne : tag.name ≠ "include" := by
      intro hinclude
      have hname := h.name_mem hw
      simp [hinclude] at hname
    exact ⟨_, hw, (hs.of_ne_include hne).2⟩

theorem reaches_of_mem (h : Branching cs whens otherwise) {w : Tag × List Content}
    (hw : w ∈ whens ++ otherwise.toList) {d : Content} (hd : d ∈ w.2) {s : Snippet}
    (hs : Reaches find d s) : ∃ c ∈ cs, Reaches find c s := by
  have hname := h.name_mem hw
  refine ⟨_, h.mem hw, .inside ?_ ?_ hd hs⟩
  · intro hinclude
    simp [hinclude] at hname
  · intro hbind
    simp [hbind] at hname

end Branching

/-- A snippet that a well formed part comes to does not come to itself. -/
theorem WellFormed.acyclic {c : Content} (h : WellFormed find c) {s : Snippet}
    (hs : Reaches find c s) : ∀ d ∈ s.children, ¬Reaches find d s := by
  induction h generalizing s with
  | text => cases hs
  | conditional hname _ _ ih =>
    rcases hs.of_ne_include (by simp [hname]) with ⟨_, c, hc, hs⟩
    exact ih c hc hs
  | choose hname hparts _ ih =>
    rcases hs.of_ne_include (by simp [hname]) with ⟨_, c, hc, hs⟩
    rcases hparts.reaches hc hs with ⟨w, hw, d, hd, hs⟩
    exact ih w hw d hd hs
  | loop hname _ _ _ ih =>
    rcases hs.of_ne_include (by simp [hname]) with ⟨_, c, hc, hs⟩
    exact ih c hc hs
  | trim hname _ ih =>
    rcases hs.of_ne_include (fun h => by simp [h] at hname) with ⟨_, c, hc, hs⟩
    exact ih c hc hs
  | bind hname _ _ => exact absurd hname (hs.of_ne_include (by simp [hname])).1
  | included hname hrefid _ hfound _ ih =>
    rcases hs.of_include hname hrefid hfound with rfl | ⟨c, hc, hs⟩
    · intro d hd hs
      exact ih d hd hs d hd hs
    · exact ih c hc hs

variable {table : Snippets} {opened : List String}

theorem Branching.exists_chooses {cs : List Content} {whens : List (Tag × List Content)}
    {otherwise : Option (Tag × List Content)} (h : Branching cs whens otherwise)
    (hbodies : ∀ w ∈ whens ++ otherwise.toList, ∃ fs, bodyFragments table opened w.2 = .ok fs) :
    ∃ choice, Chooses table opened cs choice := by
  induction cs generalizing whens with
  | nil => exact ⟨_, .done⟩
  | cons c cs ih =>
    cases c with
    | text s =>
      rcases text_cons.1 h with ⟨hblank, h⟩
      rcases ih h hbodies with ⟨choice, hchoice⟩
      exact ⟨choice, .blank hblank hchoice⟩
    | element tag children =>
      rcases element_cons.1 h with ⟨rest, rfl, hname, htest, h⟩ | ⟨rfl, rfl, hname, hblank⟩
      · rcases List.forall_mem_cons.1 hbodies with ⟨⟨fs, hbody⟩, hrest⟩
        rcases Tag.hasExpression_iff.1 htest with ⟨test, htest⟩
        rcases ih h hrest with ⟨⟨branches, otherwise'⟩, hchoice⟩
        exact ⟨_, .when hname htest hbody hchoice⟩
      · rcases hbodies _ (List.mem_singleton_self _) with ⟨fs, hbody⟩
        exact ⟨_, .otherwise hname hbody hblank⟩

/-- Different snippets that can be found have different ids. -/
def Apart (find : String → Option Snippet) : Prop :=
  ∀ name other s t, find name = some s → find other = some t → s.id = t.id → s = t

/-- What an element comes to includes what its children come to. -/
theorem body_isOk_of_inside {tag : Tag} {children : List Content} (hinclude : tag.name ≠ "include")
    (hbind : tag.name ≠ "bind")
    (hopened : ∀ s, Reaches find (.element tag children) s → s.id ∉ opened)
    (hchildren : ∀ c ∈ children, (∀ s, Reaches find c s → s.id ∉ opened) →
      ∃ fs, contentFragments table opened c = .ok fs) :
    ∃ fs, bodyFragments table opened children = .ok fs := by
  refine bodyFragments_isOk_iff.2 fun c hc => hchildren c hc fun s hs => ?_
  exact hopened s (.inside hinclude hbind hc hs)

/-- A well formed part has fragments as long as no snippet that it comes to is open. -/
theorem WellFormed.isOk {c : Content} (h : WellFormed table.get? c) (hapart : Apart table.get?)
    (hopened : ∀ s, Reaches table.get? c s → s.id ∉ opened) :
    ∃ fs, contentFragments table opened c = .ok fs := by
  induction h generalizing opened with
  | text h => exact ⟨_, h⟩
  | conditional hname htest _ ih =>
    rcases body_isOk_of_inside (by simp [hname]) (by simp [hname]) hopened
      (fun c hc => ih c hc) with ⟨fs, hbody⟩
    rcases Tag.hasExpression_iff.1 htest with ⟨test, htest⟩
    exact ⟨_, contentFragments_element_eq_ok.2 ⟨_, .conditional hname htest hbody, rfl⟩⟩
  | @choose tag children whens otherwise hname hparts _ ih =>
    have hbodies : ∀ w ∈ whens ++ otherwise.toList,
        ∃ fs, bodyFragments table opened w.2 = .ok fs := by
      refine fun w hw => bodyFragments_isOk_iff.2 fun d hd => ih w hw d hd fun s hs => ?_
      rcases hparts.reaches_of_mem hw hd hs with ⟨c, hc, hs⟩
      exact hopened s (.inside (by simp [hname]) (by simp [hname]) hc hs)
    rcases hparts.exists_chooses hbodies with ⟨⟨branches, otherwise'⟩, hchoice⟩
    exact ⟨_, contentFragments_element_eq_ok.2
      ⟨_, .choose hname (choiceFragments_eq_ok.2 hchoice), rfl⟩⟩
  | loop hname hcollection hitem _ ih =>
    rcases body_isOk_of_inside (by simp [hname]) (by simp [hname]) hopened
      (fun c hc => ih c hc) with ⟨fs, hbody⟩
    rcases Tag.loop_isOk_iff.2 ⟨hcollection, hitem⟩ with ⟨spec, hspec⟩
    exact ⟨_, contentFragments_element_eq_ok.2 ⟨_, .loop hname hspec hbody, rfl⟩⟩
  | trim hname _ ih =>
    rcases body_isOk_of_inside (fun h => by simp [h] at hname) (fun h => by simp [h] at hname)
      hopened (fun c hc => ih c hc) with ⟨fs, hbody⟩
    rcases Tag.trimming?_isSome_iff.2 hname with ⟨spec, hspec⟩
    exact ⟨_, contentFragments_element_eq_ok.2 ⟨_, .trim hspec hbody, rfl⟩⟩
  | bind hname htext hvalue =>
    rcases Tag.hasText_iff.1 htext with ⟨name, htext⟩
    rcases Tag.hasExpression_iff.1 hvalue with ⟨value, hvalue⟩
    exact ⟨_, contentFragments_element_eq_ok.2 ⟨_, .bind hname htext hvalue, rfl⟩⟩
  | @included tag children refid snippet hname hrefid htext hfound hbody ih =>
    have hsnippet : Reaches table.get? (.element tag children) snippet := .here hname hrefid hfound
    have hbody : ∃ fs, bodyFragments table (snippet.id :: opened) snippet.children = .ok fs := by
      refine bodyFragments_isOk_iff.2 fun c hc => ih c hc fun s hs => ?_
      rw [List.mem_cons, not_or]
      refine ⟨?_, hopened s (.beyond hname hrefid hfound hc hs)⟩
      -- A snippet in it with the same id would be the snippet itself.
      intro hid
      rcases hs.found with ⟨name, hname'⟩
      cases hapart _ _ _ _ hname' hfound hid
      exact (WellFormed.included hname hrefid htext hfound hbody).acyclic hsnippet c hc hs
    rcases hbody with ⟨fs, hbody⟩
    have hrefid := Tag.required_eq_ok.2 ⟨hrefid, htext⟩
    exact ⟨_, contentFragments_element_eq_ok.2
      ⟨_, .included hname hrefid hfound (hopened _ hsnippet) hbody, rfl⟩⟩

/-- What has fragments is well formed, as a body and as the parts of a choice. -/
theorem wellFormed_of_isOk (table : Snippets) (opened : List String) (cs : List Content) :
    (∀ fs, bodyFragments table opened cs = .ok fs → ∀ c ∈ cs, WellFormed table.get? c) ∧
      ∀ choice, Chooses table opened cs choice →
        ∃ whens otherwise, Branching cs whens otherwise ∧
          ∀ w ∈ whens ++ otherwise.toList, ∀ c ∈ w.2, WellFormed table.get? c := by
  induction opened, cs using body_induction table with
  | nil opened =>
    refine ⟨fun _ _ => nofun, ?_⟩
    intro choice h
    exact ⟨[], none, .nil, nofun⟩
  | text opened s cs ih =>
    refine ⟨?_, ?_⟩
    · intro fs h
      rcases bodyFragments_cons_eq_ok.1 h with ⟨first, rest, hfirst, hrest, _⟩
      exact List.forall_mem_cons.2 ⟨.text hfirst, ih.1 rest hrest⟩
    · intro choice h
      cases h with
      | blank hblank hrest =>
        rcases ih.2 choice hrest with ⟨whens, otherwise, hparts, hbodies⟩
        exact ⟨whens, otherwise, Branching.text_cons.2 ⟨hblank, hparts⟩, hbodies⟩
  | element opened tag children cs hchildren hsnippet ih =>
    refine ⟨?_, ?_⟩
    · intro fs h
      rcases bodyFragments_cons_eq_ok.1 h with ⟨first, rest, hfirst, hrest, _⟩
      refine List.forall_mem_cons.2 ⟨?_, ih.1 rest hrest⟩
      rcases contentFragments_element_eq_ok.1 hfirst with ⟨f, hf, _⟩
      cases hf with
      | conditional hname htest hbody =>
        exact .conditional hname (Tag.hasExpression_iff.2 ⟨_, htest⟩) (hchildren.1 _ hbody)
      | choose hname hchoice =>
        rcases hchildren.2 _ (choiceFragments_eq_ok.1 hchoice) with ⟨_, _, hparts, hbodies⟩
        exact .choose hname hparts hbodies
      | loop hname hspec hbody =>
        rcases Tag.loop_isOk_iff.1 ⟨_, hspec⟩ with ⟨hcollection, hitem⟩
        exact .loop hname hcollection hitem (hchildren.1 _ hbody)
      | trim hspec hbody =>
        exact .trim (Tag.trimming?_isSome_iff.1 ⟨_, hspec⟩) (hchildren.1 _ hbody)
      | bind hname htext hvalue =>
        exact .bind hname (Tag.hasText_iff.2 ⟨_, htext⟩) (Tag.hasExpression_iff.2 ⟨_, hvalue⟩)
      | included hname hrefid hfound hopened hbody =>
        rcases Tag.required_eq_ok.1 hrefid with ⟨hrefid, htext⟩
        exact .included hname hrefid htext hfound ((hsnippet _ _ hfound hopened).1 _ hbody)
    · intro choice h
      cases h with
      | when hname htest hbody hrest =>
        rcases ih.2 _ hrest with ⟨whens, otherwise, hparts, hbodies⟩
        refine ⟨(tag, children) :: whens, otherwise, ?_, ?_⟩
        · exact Branching.element_cons.2
            (.inl ⟨whens, rfl, hname, Tag.hasExpression_iff.2 ⟨_, htest⟩, hparts⟩)
        · exact List.forall_mem_cons.2 ⟨hchildren.1 _ hbody, hbodies⟩
      | otherwise hname hbody hrest =>
        have hparts : Branching (.element tag children :: cs) [] (some (tag, children)) :=
          Branching.element_cons.2 (.inr ⟨rfl, rfl, hname, hrest⟩)
        refine ⟨[], some (tag, children), hparts, ?_⟩
        intro w hw
        cases List.mem_singleton.1 hw
        exact hchildren.1 _ hbody

/-- A body has fragments exactly if all its parts are well formed. -/
theorem bodyFragments_isOk_iff_wellFormed {cs : List Content} (hapart : Apart table.get?) :
    (∃ fs, bodyFragments table [] cs = .ok fs) ↔ ∀ c ∈ cs, WellFormed table.get? c := by
  constructor
  · rintro ⟨fs, h⟩
    exact (wellFormed_of_isOk table [] cs).1 fs h
  · intro h
    exact bodyFragments_isOk_iff.2 fun c hc => (h c hc).isOk hapart fun _ _ => List.not_mem_nil

end DynamicSql

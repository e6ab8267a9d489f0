import DynamicSql.Proofs.Template.WellFormed

/-!
What is never looked at in a body. Nothing but the attributes of a `bind` or an `include` counts, so
a body without the content of these elements has the same fragments, or the same error
(`bodyFragments_prunedAll`). In what is looked at, every element has one of the names that have a
meaning (`WellFormed.name_mem`).
-/

namespace DynamicSql

namespace Markup

/-- What stands inside the element is not looked at. -/
def Tag.Hides (t : Tag) : Prop :=
  t.name = "bind" ∨ t.name = "include"

instance (t : Tag) : Decidable t.Hides :=
  inferInstanceAs (Decidable (_ ∨ _))

mutual

/-- The content without what is not looked at. -/
def Content.pruned : Content → Content
  | .text s => .text s
  | .element tag children => .element tag (if tag.Hides then [] else prunedAll children)

def prunedAll : List Content → List Content
  | [] => []
  | c :: cs => c.pruned :: prunedAll cs

end

theorem prunedAll_eq_map (cs : List Content) : prunedAll cs = cs.map Content.pruned := by
  induction cs with
  | nil => rw [prunedAll, List.map_nil]
  | cons c cs ih => rw [prunedAll, List.map_cons, ih]

/-- Nothing at all stands where it is not looked at. -/
def HidesNothing (cs : List Content) : Prop :=
  prunedAll cs = cs

theorem HidesNothing.pruned_eq {cs : List Content} (h : HidesNothing cs) {c : Content}
    (hc : c ∈ cs) : c.pruned = c := by
  have hmap : cs.map Content.pruned = cs.map id := by
    rw [← prunedAll_eq_map, List.map_id]
    exact h
  exact List.map_inj_left.1 hmap c hc

theorem hidesNothing_of_pruned_eq {tag : Tag} {children : List Content}
    (h : (Content.element tag children).pruned = .element tag children) :
    HidesNothing children ∧ (tag.Hides → children = []) := by
  rw [Content.pruned] at h
  injection h with _ hchildren
  split at hchildren
  · next hhides =>
    subst hchildren
    refine ⟨?_, fun _ => rfl⟩
    rw [HidesNothing, prunedAll]
  · next hhides => exact ⟨hchildren, fun hother => absurd hother hhides⟩

theorem prunedAll_text_cons (s : String) (cs : List Content) :
    prunedAll (.text s :: cs) = .text s :: prunedAll cs := by
  rw [prunedAll, Content.pruned]

theorem prunedAll_element_cons (tag : Tag) (children cs : List Content) :
    prunedAll (.element tag children :: cs) =
      .element tag (if tag.Hides then [] else prunedAll children) :: prunedAll cs := by
  rw [prunedAll, Content.pruned]

end Markup

open Markup

theorem all_isBlankText_prunedAll (cs : List Content) :
    (prunedAll cs).all isBlankText = cs.all isBlankText := by
  induction cs with
  | nil => rw [prunedAll]
  | cons c cs ih =>
    rw [prunedAll, List.all_cons, List.all_cons, ih]
    cases c with
    | text => rw [Content.pruned]
    | element => rw [Content.pruned, isBlankText, isBlankText]

def Snippet.pruned (s : Snippet) : Snippet :=
  ⟨s.id, prunedAll s.children⟩

def Snippets.pruned (table : Snippets) : Snippets :=
  table.map fun e => (e.1, e.2.pruned)

theorem Snippets.get?_pruned (table : Snippets) (name : String) :
    Entries.get? table.pruned name = (Entries.get? table name).map Snippet.pruned := by
  induction table with
  | nil => rfl
  | cons e es ih =>
    rw [pruned, List.map_cons, Entries.get?, Entries.get?]
    split
    · rfl
    · exact ih

variable {table : Snippets} {opened : List String}

/-- An element other than an include has its fragment from its body, as a body or as a choice. -/
theorem elementFragment_congr {table' : Snippets} {tag : Tag} {children others : List Content}
    (hinclude : tag.name ≠ "include")
    (hbody : tag.name ≠ "bind" →
      bodyFragments table' opened others = bodyFragments table opened children)
    (hchoice : tag.name ≠ "bind" →
      choiceFragments table' opened tag.line others =
        choiceFragments table opened tag.line children) :
    elementFragment table' opened tag others = elementFragment table opened tag children := by
  by_cases hbind : tag.name = "bind"
  · rw [elementFragment, elementFragment, hbind]
    rfl
  · rw [elementFragment, elementFragment, hbody hbind, hchoice hbind]
    split <;> simp_all

theorem elementFragment_pruned {tag : Tag} {children : List Content}
    (hbody : bodyFragments table.pruned opened (prunedAll children) =
      bodyFragments table opened children)
    (hchoice : choiceFragments table.pruned opened tag.line (prunedAll children) =
      choiceFragments table opened tag.line children)
    (hsnippet : ∀ name s, Entries.get? table name = some s → s.id ∉ opened →
      bodyFragments table.pruned (s.id :: opened) (prunedAll s.children) =
        bodyFragments table (s.id :: opened) s.children) :
    elementFragment table.pruned opened tag (if tag.Hides then [] else prunedAll children) =
      elementFragment table opened tag children := by
  by_cases hinclude : tag.name = "include"
  · rw [elementFragment_include hinclude, elementFragment_include hinclude]
    refine congrArg _ (funext fun refid => ?_)
    rw [Snippets.get?_pruned]
    cases hfound : Entries.get? table (Text.trim refid) with
    | none => rfl
    | some s =>
      dsimp only [Option.map_some, Snippet.pruned]
      split
      · rfl
      · next hopened => rw [hsnippet _ s hfound hopened]
  · have hshown (hbind : tag.name ≠ "bind") : ¬tag.Hides := not_or.2 ⟨hbind, hinclude⟩
    refine elementFragment_congr hinclude (fun hbind => ?_) fun hbind => ?_
    · rw [if_neg (hshown hbind), hbody]
    · rw [if_neg (hshown hbind), hchoice]

/-- Without what is not looked at, content has the same fragments or the same error, as a body and
as the parts of a choice. -/
theorem fragments_prunedAll (table : Snippets) (opened : List String) (cs : List Content) :
    bodyFragments table.pruned opened (prunedAll cs) = bodyFragments table opened cs ∧
      ∀ line, choiceFragments table.pruned opened line (prunedAll cs) =
        choiceFragments table opened line cs := by
  induction opened, cs using body_induction table with
  | nil opened =>
    rw [prunedAll, bodyFragments_nil, bodyFragments_nil]
    refine ⟨rfl, fun line => ?_⟩
    rw [choiceFragments, choiceFragments]
  | text opened s cs ih =>
    rw [prunedAll_text_cons]
    refine ⟨?_, fun line => ?_⟩
    · rw [bodyFragments, bodyFragments, ih.1]
    · rw [choiceFragments, choiceFragments, ih.2]
  | element opened tag children cs hchildren hsnippet ih =>
    rw [prunedAll_element_cons]
    refine ⟨?_, fun line => ?_⟩
    · have helement := elementFragment_pruned hchildren.1 (hchildren.2 tag.line)
        fun name s hfound hopened => (hsnippet name s hfound hopened).1
      rw [bodyFragments, bodyFragments, helement, ih.1]
    · rw [choiceFragments, choiceFragments, ih.2, all_isBlankText_prunedAll]
      by_cases hhides : tag.Hides
      · have hwhen : tag.name ≠ "when" := by
          rintro hname
          simp [Tag.Hides, hname] at hhides
        have hotherwise : tag.name ≠ "otherwise" := by
          rintro hname
          simp [Tag.Hides, hname] at hhides
        rw [if_neg hwhen, if_neg hwhen, if_neg hotherwise, if_neg hotherwise]
      · rw [if_neg hhides, hchildren.1]

theorem bodyFragments_prunedAll (cs : List Content) :
    bodyFragments table.pruned opened (prunedAll cs) = bodyFragments table opened cs :=
  (fragments_prunedAll table opened cs).1

/-! Names that have a meaning -/

def bodyTags : List String :=
  ["if", "choose", "when", "otherwise", "foreach", "trim", "set", "where", "bind", "include"]

/-- The tag of an element in the content at any depth, inside elements that are open to be looked
into, and in the snippets that are included there. -/
inductive Occurs (find : String → Option Snippet) (opens : Tag → Prop) : Content → Tag → Prop where
  | here {tag : Tag} {children : List Content} : Occurs find opens (.element tag children) tag
  | inside {tag other : Tag} {children : List Content} {c : Content} (hopens : opens tag)
      (hc : c ∈ children) (hother : Occurs find opens c other) :
      Occurs find opens (.element tag children) other
  | included {tag other : Tag} {children : List Content} {refid : String} {snippet : Snippet}
      {c : Content} (hname : tag.name = "include")
      (hrefid : tag.attributes.get? "refid" = some refid)
      (hfound : find (Text.trim refid) = some snippet) (hc : c ∈ snippet.children)
      (hother : Occurs find opens c other) : Occurs find opens (.element tag children) other

/-- The tag of any element in the content. -/
abbrev Contains (find : String → Option Snippet) : Content → Tag → Prop :=
  Occurs find fun _ => True

/-- The tag of an element that is looked at. -/
abbrev Shows (find : String → Option Snippet) : Content → Tag → Prop :=
  Occurs find fun tag => ¬tag.Hides

variable {find : String → Option Snippet}

theorem Occurs.of_ne_include {opens : Tag → Prop} {tag other : Tag} {children : List Content}
    (h : Occurs find opens (.element tag children) other) (hname : tag.name ≠ "include") :
    other = tag ∨ ∃ c ∈ children, Occurs find opens c other := by
  cases h with
  | here => exact .inl rfl
  | inside _ hc hother => exact .inr ⟨_, hc, hother⟩
  | included hinclude => contradiction

/-- Where nothing is hidden, everything is looked at. -/
theorem Occurs.shows {opens : Tag → Prop} {c : Content} {tag : Tag} (h : Occurs find opens c tag)
    (hc : c.pruned = c) (hfind : ∀ name s, find name = some s → HidesNothing s.children) :
    Shows find c tag := by
  induction h with
  | here => exact .here
  | inside _ hmem _ ih =>
    obtain ⟨hchildren, hempty⟩ := hidesNothing_of_pruned_eq hc
    have hshown := fun hhides => List.ne_nil_of_mem hmem (hempty hhides)
    exact .inside hshown hmem (ih (hchildren.pruned_eq hmem))
  | included hname hrefid hfound hmem _ ih =>
    exact .included hname hrefid hfound hmem (ih ((hfind _ _ hfound).pruned_eq hmem))

/-- In what is looked at, no element of a well formed part has a name without a meaning. -/
theorem WellFormed.name_mem {c : Content} (h : WellFormed find c) {tag : Tag}
    (htag : Shows find c tag) : tag.name ∈ bodyTags := by
  have htrim : ∀ name ∈ ["trim", "set", "where"], name ∈ bodyTags := by decide
  have hchoice : ∀ name ∈ ["when", "otherwise"], name ∈ bodyTags := by decide
  induction h with
  | text => cases htag
  | conditional hname _ _ ih | loop hname _ _ _ ih =>
    obtain rfl | ⟨c, hc, hother⟩ := htag.of_ne_include (by simp [hname])
    · simp [bodyTags, hname]
    · exact ih c hc hother
  | trim hname _ ih =>
    obtain rfl | ⟨c, hc, hother⟩ := htag.of_ne_include (fun h => by simp [h] at hname)
    · exact htrim _ hname
    · exact ih c hc hother
  | choose hname hparts _ ih =>
    obtain rfl | ⟨c, hc, hother⟩ := htag.of_ne_include (by simp [hname])
    · simp [bodyTags, hname]
    · cases c with
      | text => cases hother
      | element inner children =>
        have hw := hparts.of_mem hc
        have hinner := hparts.name_mem hw
        obtain rfl | ⟨d, hd, hother⟩ := hother.of_ne_include fun h => by simp [h] at hinner
        · exact hchoice _ hinner
        · exact ih _ hw d hd hother
  | bind hname =>
    cases htag with
    | here => simp [bodyTags, hname]
    | inside hopens => exact absurd (.inl hname) hopens
    | included hinclude => simp [hname] at hinclude
  | included hname hrefid _ hfound _ ih =>
    cases htag with
    | here => simp [bodyTags, hname]
    | inside hopens => exact absurd (.inr hname) hopens
    | included _ hrefid' hfound' hc hother =>
      rw [hrefid] at hrefid'
      cases hrefid'
      rw [hfound] at hfound'
      cases hfound'
      exact ih _ hc hother

/-- Every element has a name with a meaning if it is looked at, or if nothing is hidden in the whole
of the document. -/
structure HasKnownTags (find : String → Option Snippet) (document : List Content) (c : Content) :
    Prop where
  shown : ∀ tag, Shows find c tag → tag.name ∈ bodyTags
  contained : HidesNothing document → ∀ tag, Contains find c tag → tag.name ∈ bodyTags

theorem WellFormed.hasKnownTags {document : List Content} {c : Content} (h : WellFormed find c)
    (hc : HidesNothing document → c.pruned = c)
    (hfind : HidesNothing document → ∀ name s, find name = some s → HidesNothing s.children) :
    HasKnownTags find document c where
  shown _ htag := h.name_mem htag
  contained hdocument _ htag := h.name_mem (htag.shows (hc hdocument) (hfind hdocument))

end DynamicSql

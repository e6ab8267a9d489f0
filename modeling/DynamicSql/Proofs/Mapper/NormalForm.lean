import DynamicSql.Proofs.Mapper.StoredSource
import DynamicSql.Proofs.Markup.JoinedTexts
import DynamicSql.Proofs.Template.FragmentTree
import DynamicSql.Proofs.Template.MarkerSplit

/-!
The texts in the fragment trees that are made from documents. The texts of a document are joined, a
text gives no empty and no two neighbouring text fragments, and an element gives none at all: in no
sequence of a tree is there an empty text, or one text beside another (`compiled_isNormal`).
-/

namespace DynamicSql

open Markup

namespace Fragment

def text? : Fragment → Option String
  | .text s => some s
  | _ => none

/-- The texts are joined in every sequence of the tree. -/
def IsNormal (f : Fragment) : Prop :=
  ∀ items, .seq items ∈ f.nodes → TextsJoined text? items

structure AreNormal (fs : List Fragment) : Prop where
  here : TextsJoined text? fs
  below : ∀ f ∈ fs, f.IsNormal

variable {f : Fragment} {fs gs : List Fragment}

theorem isNormal_of_children (hseq : ∀ items, f = .seq items → TextsJoined text? items)
    (h : ∀ g ∈ f.children, g.IsNormal) : f.IsNormal := by
  intro items hitems
  rw [nodes_eq, List.mem_cons, List.mem_flatMap] at hitems
  obtain hself | ⟨g, hg, hitems⟩ := hitems
  · exact hseq items hself.symm
  · exact h g hg items hitems

theorem AreNormal.seq (h : AreNormal fs) : (Fragment.seq fs).IsNormal := by
  refine isNormal_of_children ?_ h.below
  intro items hitems
  cases hitems
  exact h.here

/-- What is no sequence itself is normal if everything directly below it is. -/
theorem isNormal_of_not_seq (hseq : ∀ items, f ≠ .seq items) (h : ∀ g ∈ f.children, g.IsNormal) :
    f.IsNormal :=
  isNormal_of_children (fun items hitems => absurd hitems (hseq items)) h

theorem AreNormal.nil : AreNormal [] :=
  ⟨.nil, List.forall_mem_nil _⟩

theorem AreNormal.cons_other (htext : f.text? = none) (hf : f.IsNormal) (h : AreNormal fs) :
    AreNormal (f :: fs) :=
  ⟨.cons_other htext h.here, List.forall_mem_cons.2 ⟨hf, h.below⟩⟩

theorem AreNormal.append (hfs : AreNormal fs) (hgs : AreNormal gs)
    (hhead : ∀ g ∈ gs.head?, g.text? = none) : AreNormal (fs ++ gs) :=
  ⟨hfs.here.append hgs.here hhead,
    List.forall_mem_append.2 ⟨hfs.below, hgs.below⟩⟩

end Fragment

open Fragment

/-! The fragments of a text -/

theorem Mark.fragment_isNormal (m : Mark) (p : Path) :
    (m.fragment p).text? = none ∧ (m.fragment p).IsNormal := by
  cases m with
  | bound => exact ⟨rfl, isNormal_of_not_seq nofun (List.forall_mem_nil _)⟩
  | raw => exact ⟨rfl, isNormal_of_not_seq nofun (List.forall_mem_nil _)⟩

theorem Marked.areNormal_staticFragments (cs : List Char) : AreNormal (staticFragments cs) := by
  cases cs with
  | nil => exact .nil
  | cons c cs =>
    have hne : String.ofList (c :: cs) ≠ "" := by simp
    exact {
      here := TextsJoined.cons_iff.2 ⟨mt Option.some.inj hne, nofun, .nil⟩
      below := by
        intro f hf
        rw [List.mem_singleton.1 hf]
        exact isNormal_of_not_seq nofun (List.forall_mem_nil _) }

theorem Marked.areNormal_fragments (front : List Char) (found : List (Marked × Path)) :
    AreNormal (fragments front found) := by
  induction found generalizing front with
  | nil =>
    rw [fragments, List.flatMap_nil, List.append_nil]
    exact areNormal_staticFragments front
  | cons m found ih =>
    obtain ⟨htext, hnormal⟩ := m.1.mark.fragment_isNormal m.2
    have hmore : AreNormal (m.1.mark.fragment m.2 :: fragments m.1.behind found) :=
      .cons_other htext hnormal (ih m.1.behind)
    refine (areNormal_staticFragments front).append hmore ?_
    rintro _ ⟨⟩
    exact htext

theorem areNormal_textFragments {s : String} {fs : List Fragment}
    (h : textFragments s = .ok fs) : AreNormal fs := by
  obtain ⟨gs, hgs⟩ | ⟨e, he⟩ := exists_outcome s
  · rw [hgs.textFragments] at h
    cases h
    obtain ⟨front, ms, ps, _, _, _, rfl⟩ := hgs
    exact Marked.areNormal_fragments front _
  · rw [he.textFragments] at h
    cases h

/-! The fragments of a body -/

variable {table : Snippets} {opened : List String}

theorem Makes.text?_eq_none {tag : Tag} {children : List Content} {f : Fragment}
    (h : Makes table opened tag children f) : f.text? = none := by
  cases h <;> rfl

/-- A body that does not start with a text has fragments that do not. -/
theorem text?_head_of_bodyFragments {cs : List Content} {fs : List Fragment}
    (h : bodyFragments table opened cs = .ok fs) (hcs : ∀ c ∈ cs.head?, c.text? = none) :
    ∀ f ∈ fs.head?, f.text? = none := by
  cases cs with
  | nil =>
    rw [bodyFragments_nil] at h
    cases h
    exact nofun
  | cons c cs =>
    obtain ⟨_, rest, hfirst, _, rfl⟩ := bodyFragments_cons_eq_ok.1 h
    cases c with
    | text s => exact absurd (hcs _ rfl) (Option.some_ne_none s)
    | element tag children =>
      obtain ⟨f, hf, rfl⟩ := contentFragments_element_eq_ok.1 hfirst
      rintro _ ⟨⟩
      exact hf.text?_eq_none

structure ChoiceIsNormal (choice : Choice) : Prop where
  branches : ∀ branch ∈ choice.1, branch.2.IsNormal
  otherwise : ∀ f ∈ choice.2, f.IsNormal

theorem ChoiceIsNormal.choose {branches : List (Expression × Fragment)}
    {otherwise : Option Fragment} (h : ChoiceIsNormal (branches, otherwise)) :
    (Fragment.choose branches otherwise).IsNormal := by
  refine isNormal_of_not_seq nofun fun g hg => ?_
  rw [children, List.mem_append, List.mem_map, Option.mem_toList] at hg
  obtain ⟨branch, hbranch, rfl⟩ | hg := hg
  · exact h.branches branch hbranch
  · exact h.otherwise g hg

/-- An element has a normal fragment if what it is made of has. -/
theorem Makes.isNormal {tag : Tag} {children : List Content} {f : Fragment}
    (h : Makes table opened tag children f)
    (hbody : ∀ fs, bodyFragments table opened children = .ok fs → AreNormal fs)
    (hchoice : ∀ choice, Chooses table opened children choice → ChoiceIsNormal choice)
    (hsnippet : ∀ name s, Entries.get? table name = some s → s.id ∉ opened →
      ∀ fs, bodyFragments table (s.id :: opened) s.children = .ok fs → AreNormal fs) :
    f.IsNormal := by
  have hbelow {fs : List Fragment} (hfs : bodyFragments table opened children = .ok fs) :
      ∀ g ∈ [Fragment.seq fs], g.IsNormal :=
    List.forall_mem_singleton.2 (hbody fs hfs).seq
  cases h with
  | conditional _ _ hfs => exact isNormal_of_not_seq nofun (hbelow hfs)
  | choose _ hfs => exact (hchoice _ (choiceFragments_eq_ok.1 hfs)).choose
  | loop _ _ hfs => exact isNormal_of_not_seq nofun (hbelow hfs)
  | trim _ hfs => exact isNormal_of_not_seq nofun (hbelow hfs)
  | bind => exact isNormal_of_not_seq nofun (List.forall_mem_nil _)
  | included _ _ hfound hopened hfs => exact (hsnippet _ _ hfound hopened _ hfs).seq

/-- Joined content has normal fragments, as a body and as the parts of a choice. -/
theorem areNormal_of_areJoined
    (htable : ∀ name s, Entries.get? table name = some s → AreJoined s.children)
    (opened : List String) (cs : List Content) (hcs : AreJoined cs) :
    (∀ fs, bodyFragments table opened cs = .ok fs → AreNormal fs) ∧
      ∀ choice, Chooses table opened cs choice → ChoiceIsNormal choice := by
  induction opened, cs using body_induction table with
  | nil opened =>
    refine ⟨fun fs h => ?_, fun choice h => ?_⟩
    · rw [bodyFragments_nil] at h
      cases h
      exact .nil
    · cases h
      exact ⟨List.forall_mem_nil _, nofun⟩
  | text opened s cs ih =>
    have htail := ih hcs.tail
    refine ⟨fun fs h => ?_, fun choice h => ?_⟩
    · obtain ⟨first, rest, hfirst, hrest, rfl⟩ := bodyFragments_cons_eq_ok.1 h
      have hnext : ∀ c ∈ cs.head?, c.text? = none := fun c hc =>
        ((TextsJoined.cons_iff.1 hcs.here).2.1 c hc).resolve_left (Option.some_ne_none s)
      exact (areNormal_textFragments hfirst).append (htail.1 rest hrest)
        (text?_head_of_bodyFragments hrest hnext)
    · cases h with
      | blank _ hrest => exact htail.2 choice hrest
  | element opened tag children cs hchildren hsnippet ih =>
    have htail := ih hcs.tail
    have hinner := hchildren (hcs.children_of_mem List.mem_cons_self)
    refine ⟨fun fs h => ?_, fun choice h => ?_⟩
    · obtain ⟨_, rest, hfirst, hrest, rfl⟩ := bodyFragments_cons_eq_ok.1 h
      obtain ⟨f, hf, rfl⟩ := contentFragments_element_eq_ok.1 hfirst
      have hnormal : f.IsNormal := hf.isNormal hinner.1 hinner.2 fun name s hfound hopened =>
        (hsnippet name s hfound hopened (htable name s hfound)).1
      exact .cons_other hf.text?_eq_none hnormal (htail.1 rest hrest)
    · cases h with
      | when _ _ hbody hrest =>
        obtain ⟨hbranches, hotherwise⟩ := htail.2 _ hrest
        exact ⟨List.forall_mem_cons.2 ⟨(hinner.1 _ hbody).seq, hbranches⟩, hotherwise⟩
      | otherwise _ hbody _ =>
        refine ⟨List.forall_mem_nil _, ?_⟩
        rintro _ ⟨⟩
        exact (hinner.1 _ hbody).seq

/-! Documents -/

/-- The snippets of joined content are joined. -/
theorem Mapper.areJoined_snippet {space name : String} {cs : List Content} {s : Snippet}
    (hcs : AreJoined cs) (hs : snippetNamed space cs name = some s) : AreJoined s.children := by
  obtain ⟨tag, hmem⟩ := mem_of_snippetNamed hs
  exact hcs.children_of_mem hmem

theorem Mapper.isNormal_of_ofSource {source : String} {es : Entries Statement}
    (h : ofSource source = .ok es) : ∀ e ∈ es, e.2.root.IsNormal := by
  intro entry hentry
  obtain ⟨root, hroot, h⟩ := bind_eq_ok.1 h
  obtain ⟨space, table, _, hfind, henters, _⟩ := isWellFormed_of_ofElement h
  have hjoined := areJoined_of_read (readMarkup_eq_ok.1 hroot)
  obtain ⟨e, he, _, fs, _, hfs, rfl⟩ := exists_mem_of_forall₂ henters hentry
  have htable : ∀ name s, Entries.get? table name = some s → AreJoined s.children := by
    intro name s hs
    rw [hfind] at hs
    exact areJoined_snippet hjoined hs
  have hbody := hjoined.children_of_mem (mem_statementElements he)
  exact ((areNormal_of_areJoined htable [] e.children hbody).1 fs hfs).seq

theorem exists_read_of_scriptElement {template : String} {e : Element}
    (h : scriptElement template = .ok e) : ∃ source, Markup.read source = .ok e := by
  rw [scriptElement] at h
  split at h
  · exact ⟨_, readMarkup_eq_ok.1 h⟩
  · exact ⟨_, readMarkup_eq_ok.1 h⟩

theorem isNormal_of_scriptFragment {template : String} {f : Fragment}
    (h : scriptFragment template = .ok f) : f.IsNormal := by
  obtain ⟨e, he, h⟩ := bind_eq_ok.1 h
  obtain ⟨fs, hfs, ⟨⟩⟩ := bind_eq_ok.1 h
  obtain ⟨source, hread⟩ := exists_read_of_scriptElement he
  have htable : ∀ name s, Entries.get? ([] : Snippets) name = some s → AreJoined s.children := by
    intro name s hs
    cases hs
  exact ((areNormal_of_areJoined htable [] e.children (areJoined_of_read hread)).1 fs hfs).seq

/-- In no sequence of a tree that was made from a document, or from a template, is there an empty
text or one text beside another. -/
theorem compiled_isNormal :
    (∀ source es, Mapper.ofSource source = .ok es → ∀ id s, (id, s) ∈ es →
      ∀ items, .seq items ∈ s.root.nodes → TextsJoined Fragment.text? items) ∧
    ∀ template f, scriptFragment template = .ok f →
      ∀ items, .seq items ∈ f.nodes → TextsJoined Fragment.text? items :=
  ⟨fun _ _ h id s hs => Mapper.isNormal_of_ofSource h (id, s) hs,
    fun _ _ h => isNormal_of_scriptFragment h⟩

open Mapper in
/-- Text and character data beside each other are one text. -/
theorem compiled_isNormal_cdata :
    ofSource cdataSource = .ok [("m.q", cdataStatement)] ∧
      .seq [.text "a < 5"] ∈ cdataStatement.root.nodes ∧
      ∀ items, .seq items ∈ cdataStatement.root.nodes → TextsJoined Fragment.text? items :=
  ⟨ofSource_cdataSource, List.mem_cons_self,
    compiled_isNormal.1 cdataSource _ ofSource_cdataSource "m.q" cdataStatement
      List.mem_cons_self⟩

end DynamicSql

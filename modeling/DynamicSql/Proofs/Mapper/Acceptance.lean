import DynamicSql.Proofs.Mapper.Elements

/-!
Which mapper elements make statements: exactly the well formed ones (`ofElement_isOk_iff`), and the
statements they make are those of their statement elements, in the same order.
-/

namespace DynamicSql

open Markup

theorem exists_forall₂_iff {α β : Type} {R : α → β → Prop} {as : List α} :
    (∃ bs, List.Forall₂ R as bs) ↔ ∀ a ∈ as, ∃ b, R a b := by
  induction as with
  | nil => exact ⟨fun _ => nofun, fun _ => ⟨[], .nil⟩⟩
  | cons a as ih =>
    rw [List.forall_mem_cons, ← ih]
    constructor
    · rintro ⟨_, h⟩
      cases h with
      | cons hab h => exact ⟨⟨_, hab⟩, _, h⟩
    · rintro ⟨⟨b, hab⟩, bs, h⟩
      exact ⟨b :: bs, .cons hab h⟩

namespace Mapper

/-- The id of a statement, in the namespace of its mapper. -/
def StatementElement.id? (space : String) (e : StatementElement) : Option String :=
  (e.tag.attributes.get? "id").map (qualified space)

/-- A mapper element from which statements can be made. -/
structure IsWellFormed (e : Element) (space : String) : Prop where
  name : e.tag.name = "mapper"
  namespace_eq : e.tag.attributes.get? "namespace" = some space
  namespace_text : Text.isBlank space = false
  snippets : ∀ s ∈ snippetElements e.children, s.1.HasText "id"
  statements : ∀ s ∈ statementElements e.children, s.tag.HasText "id"
  distinct : ((statementElements e.children).map (StatementElement.id? space)).Nodup
  bodies : ∀ s ∈ statementElements e.children, ∀ c ∈ s.children,
    WellFormed (snippetNamed space e.children) c
  acyclic : ∀ s ∈ statementElements e.children, ∀ c ∈ s.children,
    ∀ t, Reaches (snippetNamed space e.children) c t →
      ∀ d ∈ t.children, ¬Reaches (snippetNamed space e.children) d t

variable {space : String} {table : Snippets}

theorem keys_of_enters {elements : List StatementElement} {es : Entries Statement}
    (h : List.Forall₂ (Enters space table) elements es) :
    elements.map (StatementElement.id? space) = es.keys.map some := by
  induction h with
  | nil => rfl
  | cons hentry _ ih =>
    rcases hentry with ⟨id, fs, hid, _, rfl⟩
    rw [List.map_cons, ih, StatementElement.id?, (Tag.required_eq_ok.1 hid).1]
    rfl

theorem nodup_ids_iff {elements : List StatementElement} {es : Entries Statement}
    (h : List.Forall₂ (Enters space table) elements es) :
    (elements.map (StatementElement.id? space)).Nodup ↔ es.keys.Nodup := by
  rw [keys_of_enters h, List.nodup_map_iff (fun _ _ => Option.some.inj)]

/-- What an element needs to have an entry. -/
theorem exists_enters_iff {e : StatementElement} (hapart : Apart table.get?) :
    (∃ entry, Enters space table e entry) ↔
      e.tag.HasText "id" ∧ ∀ c ∈ e.children, WellFormed table.get? c := by
  rw [Tag.hasText_iff, ← bodyFragments_isOk_iff_wellFormed hapart]
  constructor
  · rintro ⟨_, id, fs, hid, hfs, _⟩
    exact ⟨⟨id, hid⟩, fs, hfs⟩
  · rintro ⟨⟨id, hid⟩, fs, hfs⟩
    exact ⟨_, id, fs, hid, hfs, rfl⟩

theorem ofElement_eq_ok {e : Element} {es : Entries Statement} :
    ofElement e = .ok es ↔ e.tag.name = "mapper" ∧
      ∃ space, e.tag.required "namespace" = .ok space ∧ statements space e.children = .ok es := by
  rw [ofElement]
  split
  · next hname =>
    rw [bind_eq_ok]
    exact (and_iff_right hname).symm
  · next hname => exact ⟨nofun, fun h => absurd h.1 hname⟩

/-- The statements of a mapper, and that it is well formed. -/
theorem isWellFormed_of_ofElement {e : Element} {es : Entries Statement}
    (h : ofElement e = .ok es) :
    ∃ space table, IsWellFormed e space ∧ Entries.get? table = snippetNamed space e.children ∧
      List.Forall₂ (Enters space table) (statementElements e.children) es ∧ es.keys.Nodup := by
  rcases ofElement_eq_ok.1 h with ⟨hname, space, hspace, h⟩
  rcases Tag.required_eq_ok.1 hspace with ⟨hspace, htext⟩
  rcases statements_eq_ok.1 h with ⟨table, htable, hes, hnodup⟩
  have hfind := get?_of_snippetsFrom htable
  have hapart : Apart table.get? := by
    rw [hfind]
    exact apart_snippetNamed space e.children
  have hentries (s : StatementElement) (hs : s ∈ statementElements e.children) :=
    (exists_enters_iff hapart).1 (exists_forall₂_iff.1 ⟨es, hes⟩ s hs)
  rw [hfind] at hentries
  refine ⟨space, table, ?_, hfind, hes, hnodup⟩
  exact {
    name := hname
    namespace_eq := hspace
    namespace_text := htext
    snippets := (snippetsFrom_eq_ok.1 htable).1
    statements := fun s hs => (hentries s hs).1
    distinct := (nodup_ids_iff hes).2 hnodup
    bodies := fun s hs => (hentries s hs).2
    acyclic := fun s hs c hc t ht => ((hentries s hs).2 c hc).acyclic ht }

theorem IsWellFormed.exists_statements {e : Element} (h : IsWellFormed e space) :
    ∃ es, ofElement e = .ok es := by
  have htable : ∃ table, snippetsFrom space [] e.children = .ok table :=
    ⟨_, snippetsFrom_eq_ok.2 ⟨h.snippets, rfl⟩⟩
  rcases htable with ⟨table, htable⟩
  have hfind := get?_of_snippetsFrom htable
  have hapart := apart_snippetNamed space e.children
  rw [← hfind] at hapart
  have hentries : ∃ es, List.Forall₂ (Enters space table) (statementElements e.children) es := by
    refine exists_forall₂_iff.2 fun s hs => (exists_enters_iff hapart).2 ?_
    rw [hfind]
    exact ⟨h.statements s hs, h.bodies s hs⟩
  rcases hentries with ⟨es, hes⟩
  have hnodup := (nodup_ids_iff hes).1 h.distinct
  have hspace := Tag.required_eq_ok.2 ⟨h.namespace_eq, h.namespace_text⟩
  exact ⟨es, ofElement_eq_ok.2
    ⟨h.name, space, hspace, statements_eq_ok.2 ⟨table, htable, hes, hnodup⟩⟩⟩

/-- A mapper element makes statements exactly if it is well formed. They are the statements of its
statement elements in order: each is known by its id in the namespace, is of the kind of its tag,
keeps the source of its content and has the fragments of its body. -/
theorem ofElement_isOk_iff (e : Element) :
    ((∃ es, ofElement e = .ok es) ↔ ∃ space, IsWellFormed e space) ∧
    ∀ es, ofElement e = .ok es → ∃ space table, IsWellFormed e space ∧
      Entries.get? table = snippetNamed space e.children ∧
      List.Forall₂ (Enters space table) (statementElements e.children) es ∧ es.keys.Nodup := by
  refine ⟨⟨?_, ?_⟩, fun _ => isWellFormed_of_ofElement⟩
  · rintro ⟨es, h⟩
    rcases isWellFormed_of_ofElement h with ⟨space, _, hwell, _⟩
    exact ⟨space, hwell⟩
  · rintro ⟨space, hwell⟩
    exact hwell.exists_statements

/-- Of two snippets with one id the later one is included, here by its qualified id. -/
theorem ofElement_later_snippet :
    let e : Element := ⟨⟨"mapper", [("namespace", "m")], 1, ""⟩, [
      .element ⟨"sql", [("id", "c")], 2, "a"⟩ [.text "a"],
      .element ⟨"sql", [("id", "c")], 3, "b"⟩ [.text "b"],
      .element ⟨"select", [("id", "all")], 4, "SELECT <include refid='m.c'/>"⟩
        [.text "SELECT ", .element ⟨"include", [("refid", "m.c")], 4, ""⟩ []]]⟩
    let es : Entries Statement := [("m.all", ⟨"m.all", .select, "SELECT <include refid='m.c'/>",
      .seq [.text "SELECT ", .seq [.text "b"]]⟩)]
    ofElement e = .ok es ∧ ∃ space table, IsWellFormed e space ∧
      Entries.get? table = snippetNamed space e.children ∧
      List.Forall₂ (Enters space table) (statementElements e.children) es ∧ es.keys.Nodup := by
  intro e es
  have h : ofElement e = .ok es := by cbv
  exact ⟨h, (ofElement_isOk_iff e).2 es h⟩

end Mapper

end DynamicSql

import Mathlib.Data.List.Forall2
import DynamicSql.Proofs.Parameter.NewEntries
import DynamicSql.Proofs.Template.WellFormed
import DynamicSql.Template.Statement

/-!
What a mapper makes of the elements in it. Its snippets are found under the last element that has
the name (`get?_of_snippetsFrom`), and each of its statement elements gives one entry, in the same
order (`statementsFrom_eq_ok`).
-/

namespace DynamicSql

open Markup

/-- The last of some elements is the last of fewer elements if it is among them. -/
theorem getLast?_filter_of_imp {α : Type} {p q : α → Bool} {l : List α} {a : α}
    (h : (l.filter p).getLast? = some a) (ha : q a = true) (himp : ∀ b, q b = true → p b = true) :
    (l.filter q).getLast? = some a := by
  have hfilter : l.filter q = (l.filter p).filter q := by
    rw [List.filter_filter]
    apply List.filter_congr
    intro b _
    cases hb : q b with
    | false => rfl
    | true => rw [himp b hb]; rfl
  rcases List.getLast?_eq_some_iff.1 h with ⟨front, hfront⟩
  rw [hfilter, hfront, List.filter_append, List.filter_cons_of_pos ha]
  exact List.getLast?_concat

namespace Mapper

def snippetElement? : Content → Option (Tag × List Content)
  | .element tag inner => if tag.name = "sql" then some (tag, inner) else none
  | .text _ => none

def snippetElements (children : List Content) : List (Tag × List Content) :=
  children.filterMap snippetElement?

def snippets (children : List Content) : List Snippet :=
  (snippetElements children).filterMap fun e => (e.1.attributes.get? "id").map fun id => ⟨id, e.2⟩

/-- The names of a snippet: its id, alone and qualified. -/
def isNamed (space name : String) (s : Snippet) : Bool :=
  s.id = name || qualified space s.id = name

/-- The last snippet that has the name. -/
def snippetNamed (space : String) (children : List Content) (name : String) : Option Snippet :=
  ((snippets children).filter (isNamed space name)).getLast?

structure StatementElement where
  kind : StatementKind
  tag : Tag
  children : List Content

def statementElement? : Content → Option StatementElement
  | .element tag inner => (StatementKind.ofTag? tag.name).map fun kind => ⟨kind, tag, inner⟩
  | .text _ => none

def statementElements (children : List Content) : List StatementElement :=
  children.filterMap statementElement?

/-- Adds a snippet under both of its names. -/
def addSnippet (space : String) (table : Snippets) (s : Snippet) : Snippets :=
  Entries.insert (Entries.insert table s.id s) (qualified space s.id) s

variable {space name : String} {table table' : Snippets} {cs : List Content}

theorem get?_addSnippet (s : Snippet) :
    Entries.get? (addSnippet space table s) name =
      if isNamed space name s then some s else Entries.get? table name := by
  rw [addSnippet, Entries.get?_insert, Entries.get?_insert]
  by_cases hid : s.id = name <;> by_cases hqualified : qualified space s.id = name <;>
    simp [isNamed, hid, hqualified]

theorem get?_foldl_addSnippet (ss : List Snippet) :
    Entries.get? (ss.foldl (addSnippet space) table) name =
      ((ss.filter (isNamed space name)).getLast?).or (Entries.get? table name) := by
  induction ss generalizing table with
  | nil => rfl
  | cons s ss ih =>
    rw [List.foldl_cons, ih, get?_addSnippet, List.filter_cons]
    split
    · rw [List.getLast?_cons]
      cases (ss.filter (isNamed space name)).getLast? <;> rfl
    · rfl

theorem snippetElements_cons_sql {tag : Tag} (inner : List Content) (hname : tag.name = "sql") :
    snippetElements (.element tag inner :: cs) = (tag, inner) :: snippetElements cs :=
  List.filterMap_cons_some (if_pos hname)

theorem snippetElements_cons_other {tag : Tag} (inner : List Content) (hname : tag.name ≠ "sql") :
    snippetElements (.element tag inner :: cs) = snippetElements cs :=
  List.filterMap_cons_none (if_neg hname)

theorem snippets_cons_sql {tag : Tag} {id : String} (inner : List Content)
    (hname : tag.name = "sql") (hid : tag.required "id" = .ok id) :
    snippets (.element tag inner :: cs) = ⟨id, inner⟩ :: snippets cs := by
  rw [snippets, snippetElements_cons_sql inner hname, List.filterMap_cons,
    (Tag.required_eq_ok.1 hid).1]
  rfl

theorem snippetsFrom_eq_ok :
    snippetsFrom space table cs = .ok table' ↔
      (∀ e ∈ snippetElements cs, e.1.HasText "id") ∧
        table' = (snippets cs).foldl (addSnippet space) table := by
  induction cs generalizing table table' with
  | nil =>
    rw [snippetsFrom]
    constructor
    · rintro ⟨⟩
      exact ⟨nofun, rfl⟩
    · rintro ⟨_, rfl⟩
      rfl
  | cons c cs ih =>
    cases c with
    | text s => exact ih
    | element tag inner =>
      rw [snippetsFrom]
      split
      · next hname =>
        rw [snippetElements_cons_sql inner hname, List.forall_mem_cons, Tag.hasText_iff]
        constructor
        · intro h
          rcases bind_eq_ok.1 h with ⟨id, hid, h⟩
          rcases ih.1 h with ⟨hall, rfl⟩
          rw [snippets_cons_sql inner hname hid]
          exact ⟨⟨⟨id, hid⟩, hall⟩, rfl⟩
        · rintro ⟨⟨⟨id, hid⟩, hall⟩, rfl⟩
          rw [snippets_cons_sql inner hname hid]
          exact bind_eq_ok.2 ⟨id, hid, ih.2 ⟨hall, rfl⟩⟩
      · next hname =>
        rw [snippets, snippetElements_cons_other inner hname]
        exact ih

theorem get?_of_snippetsFrom (h : snippetsFrom space [] cs = .ok table) :
    table.get? = snippetNamed space cs := by
  funext name
  rw [(snippetsFrom_eq_ok.1 h).2]
  exact (get?_foldl_addSnippet _).trans Option.or_none

theorem apart_snippetNamed (space : String) (cs : List Content) :
    Apart (snippetNamed space cs) := by
  have hlast {name : String} {s : Snippet} (h : snippetNamed space cs name = some s) :
      ((snippets cs).filter fun t => t.id = s.id).getLast? = some s := by
    refine getLast?_filter_of_imp h (decide_eq_true rfl) fun t ht => ?_
    have hs := (List.mem_filter.1 (List.mem_of_getLast? h)).2
    rw [isNamed] at hs ⊢
    rw [of_decide_eq_true ht]
    exact hs
  intro name other s t hs ht hid
  have hs := hlast hs
  rw [hid, hlast ht] at hs
  exact (Option.some.inj hs).symm

/-- The entry of a statement element. -/
def Enters (space : String) (table : Snippets) (e : StatementElement)
    (entry : String × Statement) : Prop :=
  ∃ id fs, e.tag.required "id" = .ok id ∧ bodyFragments table [] e.children = .ok fs ∧
    entry = (qualified space id, ⟨qualified space id, e.kind, e.tag.inner, .seq fs⟩)

theorem statementElements_cons_statement {tag : Tag} {kind : StatementKind} (inner : List Content)
    (hkind : StatementKind.ofTag? tag.name = some kind) :
    statementElements (.element tag inner :: cs) = ⟨kind, tag, inner⟩ :: statementElements cs := by
  apply List.filterMap_cons_some
  rw [statementElement?, hkind]
  rfl

theorem statementElements_cons_other {tag : Tag} (inner : List Content)
    (hkind : StatementKind.ofTag? tag.name = none) :
    statementElements (.element tag inner :: cs) = statementElements cs := by
  apply List.filterMap_cons_none
  rw [statementElement?, hkind]
  rfl

theorem statementsFrom_eq_ok {done es : Entries Statement} :
    statementsFrom space table done cs = .ok es ↔
      ∃ new, List.Forall₂ (Enters space table) (statementElements cs) new ∧ done.IsNew new ∧
        es = done ++ new := by
  induction cs generalizing done with
  | nil =>
    rw [statementsFrom]
    constructor
    · rintro ⟨⟩
      exact ⟨[], .nil, Entries.isNew_nil es, (List.append_nil es).symm⟩
    · rintro ⟨_, ⟨⟩, _, rfl⟩
      rw [List.append_nil]
  | cons c cs ih =>
    cases c with
    | text s => exact ih
    | element tag inner =>
      rw [statementsFrom]
      cases hkind : StatementKind.ofTag? tag.name with
      | none =>
        rw [statementElements_cons_other inner hkind]
        exact ih
      | some kind =>
        rw [statementElements_cons_statement inner hkind]
        constructor
        · intro h
          rcases bind_eq_ok.1 h with ⟨id, hid, h⟩
          dsimp only at h
          split at h
          · cases h
          · next hnew =>
            rcases bind_eq_ok.1 h with ⟨fs, hfs, h⟩
            rcases ih.1 h with ⟨new, hall, hisNew, rfl⟩
            refine ⟨_ :: new, .cons ⟨id, fs, hid, hfs, rfl⟩ hall, ?_, ?_⟩
            · exact Entries.isNew_cons.2 ⟨Bool.eq_false_iff.2 hnew, hisNew⟩
            · exact (List.append_cons done _ new).symm
        · rintro ⟨_, hall, hisNew, rfl⟩
          cases hall with
          | @cons _ entry _ new hentry hall =>
            rcases hentry with ⟨id, fs, hid, hfs, rfl⟩
            rcases Entries.isNew_cons.1 hisNew with ⟨hnew, hisNew⟩
            refine bind_eq_ok.2 ⟨id, hid, ?_⟩
            dsimp only at hnew ⊢
            rw [if_neg (Bool.eq_false_iff.1 hnew)]
            refine bind_eq_ok.2 ⟨fs, hfs, ih.2 ⟨new, hall, hisNew, ?_⟩⟩
            exact List.append_cons done _ new

theorem statements_eq_ok {cs : List Content} {es : Entries Statement} :
    statements space cs = .ok es ↔
      ∃ table, snippetsFrom space [] cs = .ok table ∧
        List.Forall₂ (Enters space table) (statementElements cs) es ∧ es.keys.Nodup := by
  rw [statements, bind_eq_ok]
  constructor
  · rintro ⟨table, htable, h⟩
    rcases statementsFrom_eq_ok.1 h with ⟨new, hnew, hisNew, rfl⟩
    exact ⟨table, htable, hnew, hisNew.1⟩
  · rintro ⟨table, htable, hes, hnodup⟩
    exact ⟨table, htable, statementsFrom_eq_ok.2 ⟨es, hes, ⟨hnodup, List.disjoint_nil_left _⟩, rfl⟩⟩

end Mapper

end DynamicSql

import Mathlib
import DynamicSql.Proofs.Template.TwoRuns

/-!
What a rendering may do to the context it is given, whether it succeeds or fails: it defines some
names that the tree binds, and nothing else (`keeps_render`). Scopes that loops push are gone again
on every way out, because a scope is dropped where it was pushed, and what is bound inside of it is
written below all of them.
-/

namespace DynamicSql

namespace Entries

theorem keys_subset_insert {α : Type} (es : Entries α) (name : String) (value : α) :
    es.keys ⊆ (insert es name value).keys := by
  intro other hother
  rw [keys_insert]
  split
  · exact hother
  · exact List.mem_append_left _ hother

theorem keys_subset_extend {α : Type} (es : Entries α) (new : List (String × α)) :
    es.keys ⊆ (extend es new).keys := by
  induction new generalizing es with
  | nil => exact List.Subset.refl _
  | cons e new ih => exact List.Subset.trans (keys_subset_insert es e.1 e.2) (ih _)

theorem extend_append {α : Type} (es : Entries α) (new new' : List (String × α)) :
    extend es (new ++ new') = extend (extend es new) new' :=
  List.foldl_append

theorem get?_extend_of_forall_ne {α : Type} {es : Entries α} {new : List (String × α)}
    {name : String} (h : ∀ e ∈ new, e.1 ≠ name) : (extend es new).get? name = es.get? name := by
  induction new generalizing es with
  | nil => rfl
  | cons e new ih =>
    obtain ⟨hne, hnew⟩ := List.forall_mem_cons.1 h
    change (extend (insert es e.1 e.2) new).get? name = _
    rw [ih hnew, get?_insert, if_neg hne]

end Entries

namespace Context

theorem truncate_push (c : Context) (scope : Scope) : (c.push scope).truncate c.depth = c := by
  have hdepth : (c.push scope).depth - c.depth = 1 := by
    simp [Context.depth, Context.push]
  unfold truncate
  rw [hdepth]
  rfl

/-- The first context with some of the names defined, one after the other, is the second one. -/
def Defines (names : List String) (c c' : Context) : Prop :=
  ∃ new : List (String × Value), (∀ e ∈ new, e.1 ∈ names) ∧
    c' = { c with bound := c.bound.extend new }

namespace Defines

variable {names : List String} {c c' c'' : Context}

theorem refl (names : List String) (c : Context) : Defines names c c :=
  ⟨[], nofun, rfl⟩

theorem trans (h : Defines names c c') (h' : Defines names c' c'') : Defines names c c'' := by
  obtain ⟨new, hnew, rfl⟩ := h
  obtain ⟨new', hnew', rfl⟩ := h'
  refine ⟨new ++ new', ?_, ?_⟩
  · intro e he
    exact (List.mem_append.1 he).elim (hnew e) (hnew' e)
  · rw [Entries.extend_append]

theorem define {name : String} (hname : name ∈ names) (c : Context) (v : Value) :
    Defines names c (c.define name v) := by
  refine ⟨[(name, v)], ?_, rfl⟩
  intro e he
  rw [List.mem_singleton.1 he]
  exact hname

/-- A scope that was pushed before is dropped, and the definitions stay. -/
theorem truncate {scope : Scope} (h : Defines names (c.push scope) c') :
    Defines names c (c'.truncate c.depth) := by
  obtain ⟨new, hnew, rfl⟩ := h
  exact ⟨new, hnew, truncate_push { c with bound := c.bound.extend new } scope⟩

end Defines

end Context

namespace Render

variable {α β : Type} {names : List String}

/-- A step that, however it ends, only defines some of the names. -/
def Keeps (names : List String) (m : Render α) : Prop :=
  ∀ s, Context.Defines names s.context (exec m s).2.context

namespace Keeps

theorem pure (a : α) : Keeps names (Pure.pure a : Render α) :=
  fun s => .refl names s.context

theorem bind {m : Render α} {k : α → Render β} (hm : Keeps names m)
    (hk : ∀ a, Keeps names (k a)) : Keeps names (m >>= k) := by
  intro s
  have hrun := hm s
  rw [exec_bind]
  cases h : exec m s with
  | mk x t =>
    rw [h] at hrun
    cases x with
    | error e => exact hrun
    | ok a => exact hrun.trans (hk a t)

/-- A step that changes nothing. -/
theorem of_state_eq {m : Render α} (h : ∀ s, (exec m s).2.context = s.context) :
    Keeps names m := by
  intro s
  rw [h]
  exact .refl names s.context

theorem test (t : Expression) : Keeps names (test t) := by
  apply of_state_eq
  intro s
  rw [exec_test]
  cases t.test s.context with
  | ok b => rfl
  | error e => cases e <;> rfl

theorem withScope {m : Render α} (hm : Keeps names m) (scope : Scope) :
    Keeps names (withScope scope m) := by
  intro s
  rw [exec_withScope]
  exact (hm { s with context := s.context.push scope }).truncate

theorem eachEntry {m : Render Texts} (hm : Keeps names m) (spec : Loop)
    (es : List (Value × Value)) : Keeps names (eachEntry spec m es) := by
  induction es with
  | nil => exact pure []
  | cons e es ih => exact (hm.withScope _).bind fun _ => ih.bind fun _ => pure _

theorem loop {m : Render Texts} (hm : Keeps names m) (spec : Loop) :
    Keeps names (loop spec m) := by
  rw [loop_eq]
  apply bind (of_state_eq fun s => congrArg RenderState.context (exec_entries_state _ s))
  exact fun es => (hm.eachEntry spec es).bind fun _ => pure _

theorem leaf (o : Options) {g : Fragment} (hleaf : g.isLeaf = true)
    (hbind : ∀ name e, g = .bind name e → name ∈ names) : Keeps names (g.render o) := by
  cases g with
  | text s => exact pure _
  | placeholder p =>
    apply of_state_eq
    intro s
    rw [Fragment.render, exec_placeholder]
    cases s.context.resolve p with
    | error e => rfl
    | ok v =>
      dsimp only
      cases o.literal v <;> rfl
  | raw p =>
    apply of_state_eq
    intro s
    rw [Fragment.render, exec_raw]
    cases s.context.resolve p with
    | error e => rfl
    | ok v =>
      dsimp only
      cases v.raw <;> rfl
  | bind name e =>
    intro s
    rw [Fragment.render, exec_bind_name]
    cases e.value s.context with
    | error err => exact .refl names s.context
    | ok v => exact .define (hbind name e rfl) s.context v
  | _ => cases hleaf

end Keeps

end Render

namespace Fragment

open Render

/-- The name that a fragment binds. -/
def boundName? : Fragment → Option String
  | .bind name _ => some name
  | _ => none

/-- The names that are bound anywhere in a tree. -/
def boundNames (f : Fragment) : List String :=
  f.nodes.filterMap boundName?

theorem keeps_render (f : Fragment) (o : Options) : Keeps f.boundNames (f.render o) := by
  refine f.render_induction o o (P := fun m _ => Keeps f.boundNames m) ?_ ?_ ?_ ?_ ?_ ?_
  · intro g hg hleaf
    apply Keeps.leaf o hleaf
    rintro name e rfl
    exact List.mem_filterMap.2 ⟨_, hg, rfl⟩
  · exact .pure _
  · exact fun m _ k _ hm hk => hm.bind fun _ => hk.bind fun _ => .pure _
  · exact fun g _ t _ m _ k _ hm hk => (Keeps.test t).bind fun b => by cases b <;> assumption
  · exact fun spec _ _ m _ hm => hm.loop spec
  · exact fun spec _ _ m _ hm => hm.bind fun _ => .pure _

/-- After a rendering, also after one that failed at any depth, the root value and the scopes are
those of before. The bound names are still there and mean the same, but for those that the tree
binds. Where it binds none the context is as before, so a second rendering gives the same. -/
theorem renderUnder_context (f : Fragment) (o : Options) (c : Context) :
    let c' := (f.renderUnder o c).2
    c'.root = c.root ∧ c'.depth = c.depth ∧ c'.scopes = c.scopes ∧
      c.bound.keys ⊆ c'.bound.keys ∧
      (∀ name, name ∉ f.boundNames → c'.bound.get? name = c.bound.get? name) ∧
      (f.boundNames = [] → c' = c ∧ f.renderUnder o c' = f.renderUnder o c) := by
  intro c'
  obtain ⟨new, hnew, hc'⟩ : Context.Defines f.boundNames c c' := f.keeps_render o ⟨c, #[]⟩
  rw [hc']
  refine ⟨rfl, rfl, rfl, Entries.keys_subset_extend _ _, ?_, ?_⟩
  · intro name hname
    apply Entries.get?_extend_of_forall_ne
    rintro e he rfl
    exact hname (hnew e he)
  · intro hnone
    have hempty : new = [] := by
      apply List.eq_nil_iff_forall_not_mem.2
      intro e he
      have hmem := hnew e he
      rw [hnone] at hmem
      cases hmem
    rw [hempty]
    exact ⟨rfl, rfl⟩

/-- A failure inside of two loops, behind a name that was bound in there. -/
theorem renderUnder_context_failed :
    let f : Fragment := .loop { collection := .single "rows", item := "row" }
      (.loop { collection := .single "row", item := "x" }
        (.seq [.bind "n" ⟨"x", .path (.single "x")⟩, .placeholder (.single "y")]))
    let c : Context := ⟨.map [("rows", .list [.list [.text "1"]])], [("m", .bool true)],
      [[("s", .null)]]⟩
    let c' := (f.renderUnder ⟨.mySql, .doubled⟩ c).2
    (f.renderUnder ⟨.mySql, .doubled⟩ c).1 = .error (.resolve (.notFound "y")) ∧
      c'.bound.get? "n" = some (.text "1") ∧
      c'.scopes = c.scopes ∧ c'.bound.get? "m" = c.bound.get? "m" := by
  intro f c c'
  have h := f.renderUnder_context ⟨.mySql, .doubled⟩ c
  exact ⟨by cbv, by cbv, h.2.2.1, h.2.2.2.2.1 "m" (by decide)⟩

end Fragment

end DynamicSql

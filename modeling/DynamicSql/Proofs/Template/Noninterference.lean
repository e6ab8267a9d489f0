import Mathlib
import DynamicSql.Proofs.Expression.HeadNames
import DynamicSql.Proofs.Template.TwoRuns

/-!
Parameters that a template does not mention do not count. The names it looks up are the first names
of its paths; root values under which all of these names mean the same render to the same, or fail
alike (`renderUnder_congr_root`). What the loops and the bound names hold is computed from what the
template mentions, so it is the same in both runs at every step.
-/

namespace DynamicSql

/-- The same context over another root value. -/
def Context.withRoot (c : Context) (root : Value) : Context :=
  { c with root }

namespace Fragment

/-- The names that a fragment looks up by itself, not counting those below it. -/
def ownHeads : Fragment → List String
  | .placeholder p | .raw p => [p.head]
  | .conditional t _ => t.root.heads
  | .choose branches _ => branches.flatMap fun b => b.1.root.heads
  | .loop spec _ => [spec.collection.head]
  | .bind _ e => e.root.heads
  | .text _ | .trim _ _ | .seq _ => []

/-- The names that are looked up anywhere in a tree. -/
def heads (f : Fragment) : List String :=
  f.nodes.flatMap ownHeads

theorem heads_of_mem_tests {g : Fragment} {t : Expression} (ht : t ∈ g.tests) {name : String}
    (hname : name ∈ t.root.heads) : name ∈ g.ownHeads := by
  cases g with
  | conditional u body =>
    rw [List.mem_singleton.1 ht] at hname
    exact hname
  | choose branches otherwise =>
    obtain ⟨b, hb, rfl⟩ := List.mem_map.1 ht
    exact List.mem_flatMap.2 ⟨b, hb, hname⟩
  | _ => cases ht

end Fragment

namespace Render

variable {a b : Value} {names : List String}

/-- The states of two runs that differ in the root value and in nothing else. -/
def OverRoots (a b : Value) (s s' : RenderState) : Prop :=
  s.context.root = a ∧ s' = { s with context := s.context.withRoot b }

theorem OverRoots.keepsScopes (a b : Value) : KeepsScopes (OverRoots a b) where
  push := by
    rintro s _ scope ⟨ha, rfl⟩
    exact ⟨ha, rfl⟩
  truncate := by
    rintro s _ u _ ⟨_, rfl⟩ ⟨hu, rfl⟩
    exact ⟨hu, rfl⟩

/-- Both root values hold the same under these names. -/
def SameRoots (a b : Value) (names : List String) : Prop :=
  ∀ name ∈ names, Context.ofRootName? a name = Context.ofRootName? b name

theorem SameRoots.lookup?_eq (h : SameRoots a b names) {c : Context} (hc : c.root = a)
    {name : String} (hname : name ∈ names) : c.lookup? name = (c.withRoot b).lookup? name := by
  unfold Context.lookup?
  rw [hc, h name hname]
  rfl

theorem SameRoots.resolve_eq (h : SameRoots a b names) {c : Context} (hc : c.root = a) {p : Path}
    (hp : p.head ∈ names) : c.resolve p = (c.withRoot b).resolve p :=
  Context.resolve_congr (h.lookup?_eq hc hp)

theorem SameRoots.simulates_test (h : SameRoots a b names) {t : Expression}
    (ht : ∀ name ∈ t.root.heads, name ∈ names) :
    Simulates (OverRoots a b) Eq (test t) (test t) := by
  rintro s _ ⟨hs, rfl⟩
  have heq : t.test s.context = t.test (s.context.withRoot b) :=
    (Node.meaning_congr t.root fun name hn => h.lookup?_eq hs (ht name hn)).1
  rw [exec_test, exec_test, ← heq]
  cases t.test s.context with
  | ok x => exact ⟨.ok rfl, hs, rfl⟩
  | error e => cases e <;> exact ⟨.error _, hs, rfl⟩

theorem SameRoots.simulates_entries (h : SameRoots a b names) {p : Path} (hp : p.head ∈ names) :
    Simulates (OverRoots a b) Eq (entries p) (entries p) := by
  rintro s _ ⟨hs, rfl⟩
  have houtcome : (exec (entries p) s).1 =
      (exec (entries p) { s with context := s.context.withRoot b }).1 := by
    unfold entries
    rw [exec_bind, exec_bind, exec_get, exec_get]
    dsimp only
    rw [← h.resolve_eq hs hp]
    cases s.context.resolve p with
    | error e => cases e <;> rfl
    | ok v => cases v <;> rfl
  rw [← houtcome, exec_entries_state, exec_entries_state]
  exact ⟨.refl (fun _ => rfl) _, hs, rfl⟩

theorem SameRoots.simulates_leaf (h : SameRoots a b names) (o : Options) {g : Fragment}
    (hleaf : g.isLeaf = true) (hg : ∀ name ∈ g.ownHeads, name ∈ names) :
    Simulates (OverRoots a b) Eq (g.render o) (g.render o) := by
  cases g with
  | text s => exact .pure rfl
  | placeholder p =>
    rintro s _ ⟨hs, rfl⟩
    rw [Fragment.render, exec_placeholder, exec_placeholder,
      ← h.resolve_eq hs (hg p.head List.mem_cons_self)]
    cases s.context.resolve p with
    | error e => exact ⟨.error _, hs, rfl⟩
    | ok v =>
      dsimp only
      cases o.literal v with
      | error e => exact ⟨.error _, hs, rfl⟩
      | ok l => exact ⟨.ok rfl, hs, rfl⟩
  | raw p =>
    rintro s _ ⟨hs, rfl⟩
    rw [Fragment.render, exec_raw, exec_raw, ← h.resolve_eq hs (hg p.head List.mem_cons_self)]
    cases s.context.resolve p with
    | error e => exact ⟨.error _, hs, rfl⟩
    | ok v =>
      dsimp only
      cases v.raw with
      | error e => exact ⟨.error _, hs, rfl⟩
      | ok x => exact ⟨.ok rfl, hs, rfl⟩
  | bind name e =>
    rintro s _ ⟨hs, rfl⟩
    have heq : e.value s.context = e.value (s.context.withRoot b) :=
      Node.value_congr e.root fun name hn => h.lookup?_eq hs (hg name hn)
    rw [Fragment.render, exec_bind_name, exec_bind_name, ← heq]
    cases e.value s.context with
    | error err => exact ⟨.error _, hs, rfl⟩
    | ok v => exact ⟨.ok rfl, hs, rfl⟩
  | _ => cases hleaf

end Render

namespace Fragment

open Render

theorem simulates_over_roots (f : Fragment) (o : Options) {a b : Value}
    (h : SameRoots a b f.heads) : Simulates (OverRoots a b) Eq (f.render o) (f.render o) := by
  have hheads : ∀ g ∈ f.nodes, ∀ name ∈ g.ownHeads, name ∈ f.heads :=
    fun g hg name hname => List.mem_flatMap.2 ⟨g, hg, hname⟩
  apply f.render_induction o o
  · exact fun g hg hleaf => h.simulates_leaf o hleaf (hheads g hg)
  · exact .pure rfl
  · intro m m' k k' hm hk
    exact hm.append (by rintro t _ u _ rfl rfl; rfl) hk
  · intro g hg t ht m m' k k' hm hk
    exact .branch (h.simulates_test fun name hn => hheads g hg name (heads_of_mem_tests ht hn)) hm hk
  · intro spec body hloop m m' hm
    apply hm.loop (OverRoots.keepsScopes a b)
    · intro ts ts' hts
      rw [List.forall₂_eq_eq_eq] at hts
      rw [hts]
    · exact h.simulates_entries (hheads _ hloop _ List.mem_cons_self)
  · intro spec body _ m m' hm
    apply hm.bind
    rintro t _ rfl
    exact .pure rfl

/-- Root values that hold the same under every name in the tree render to the same or fail alike,
whatever else is in them. -/
theorem renderUnder_congr_root (f : Fragment) (o : Options) (a b : Value)
    (h : ∀ name ∈ f.heads, Context.ofRootName? a name = Context.ofRootName? b name) :
    (f.renderUnder o (.ofRoot a)).1 = (f.renderUnder o (.ofRoot b)).1 := by
  obtain ⟨hagree, _, hstate⟩ := f.simulates_over_roots o h ⟨.ofRoot a, #[]⟩ ⟨.ofRoot b, #[]⟩
    ⟨rfl, rfl⟩
  rw [renderUnder_eq, renderUnder_eq]
  apply hagree.map_eq
  rintro t _ rfl
  rw [hstate]

/-- A loop variable hides a parameter, a bound name stands for one, and an entry hides the root
value. The bags differ in their order and in entries that the tree does not mention. -/
theorem renderUnder_congr_root_hidden :
    let f : Fragment := .seq [.bind "n" ⟨"a", .path (.single "a")⟩,
      .loop { collection := .single "ids", item := "a", separator := some "," }
        (.placeholder (.single "a")),
      .placeholder (.single "n"), .raw (.single "_parameter")]
    let ids : Value := .list [.text "x", .null]
    let a : Value := .map [("a", .bool true), ("ids", ids), ("_parameter", .text "p"),
      ("secret", .text "s")]
    let b : Value := .map [("_parameter", .text "p"), ("ids", ids), ("a", .bool true)]
    let r : Rendered := ⟨"'x',NULLTRUEp", "$1,$2$3p", [.text "x", .null, .bool true]⟩
    (∀ name ∈ f.heads, Context.ofRootName? a name = Context.ofRootName? b name) ∧
      (f.renderUnder ⟨.postgreSql, .doubled⟩ (.ofRoot b)).1 = .ok r ∧
      (f.renderUnder ⟨.postgreSql, .doubled⟩ (.ofRoot a)).1 =
        (f.renderUnder ⟨.postgreSql, .doubled⟩ (.ofRoot b)).1 := by
  intro f ids a b r
  have h : ∀ name ∈ f.heads, Context.ofRootName? a name = Context.ofRootName? b name := by
    have hheads : f.heads = ["a", "ids", "a", "n", "_parameter"] := rfl
    rw [hheads]
    simp only [List.forall_mem_cons]
    exact ⟨rfl, rfl, rfl, rfl, rfl, nofun⟩
  have hr : (f.renderUnder ⟨.postgreSql, .doubled⟩ (.ofRoot b)).1 = .ok r := by cbv
  exact ⟨h, hr, renderUnder_congr_root f ⟨.postgreSql, .doubled⟩ a b h⟩

end Fragment

end DynamicSql

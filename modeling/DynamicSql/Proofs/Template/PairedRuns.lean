import DynamicSql.Proofs.Expression.PairedContexts

/-!
Renderings of one tree in two contexts that hold values of different kinds of integers under the
same names. Step by step both write the same texts, or fail alike (`simulates_paired`), where no
pair of values comes apart under an equality of the tree.
-/

namespace DynamicSql

open Value

variable {Q : Value → Value → Prop}

namespace Render

/-- Nothing in the expression takes a pair of values apart. -/
abbrev KeepsPairs (Q : Value → Value → Prop) (e : Expression) : Prop :=
  Node.KeepsPairs Q e.root.constants e.root.equalities

theorem simulates_test (hQ : Pairing Q) {t : Expression} (ht : KeepsPairs Q t) :
    Simulates (StatesPaired Q) Eq (test t) (test t) := by
  intro s s' hs
  have heq : t.test s.context = t.test s'.context :=
    (Node.meaning_paired hQ hs.context t.root ht).1
  rw [exec_test, exec_test, heq]
  cases t.test s'.context with
  | ok b => exact ⟨.ok rfl, hs⟩
  | error e => cases e <;> exact ⟨.error _, hs⟩

theorem loopEntries?_paired (hQ : Pairing Q) {v w : Value} (h : Q v w) :
    Option.Rel (List.Forall₂ (EntriesRelated Q)) (loopEntries? v) (loopEntries? w) := by
  rcases (hQ.twins h).collections with hv | ⟨xs, ys, rfl, rfl⟩ | ⟨es, fs, rfl, rfl⟩
  · rcases (hQ.twins h).number_of_scalar hv with rfl | ⟨m, n, rfl, rfl, -⟩
    · cases v with
      | null => exact .some .nil
      | list xs => cases hv
      | map es => cases hv
      | _ => exact .none
    · exact .none
  · exact .some (zipIdx_related (fun _ => hQ.scalar rfl) (hQ.list h) 0)
  · exact .some (mapEntries_related (fun _ => hQ.scalar rfl) (hQ.twins h).of_map.1 (hQ.map h))

theorem simulates_entries (hQ : Pairing Q) (p : Path) :
    Simulates (StatesPaired Q) (List.Forall₂ (EntriesRelated Q)) (entries p) (entries p) := by
  intro s s' hs
  have hresolve := hs.context.resolve hQ p
  rw [exec_entries, exec_entries]
  generalize s.context.resolve p = x, s'.context.resolve p = y at hresolve
  cases hresolve with
  | error e =>
    cases e with
    | notFound path => exact ⟨.ok .nil, hs⟩
    | typeMismatch path found => exact ⟨.error _, hs⟩
  | @ok v w h =>
    dsimp only
    have hentries := loopEntries?_paired hQ h
    rw [(hQ.twins h).kind_eq]
    generalize loopEntries? v = x, loopEntries? w = y at hentries
    cases hentries with
    | none => exact ⟨.error _, hs⟩
    | some hes => exact ⟨.ok hes, hs⟩

theorem StatesPaired.define {s s' : RenderState} (hs : StatesPaired Q s s') (name : String)
    {v w : Value} (h : Q v w) :
    StatesPaired Q { s with context := s.context.define name v }
      { s' with context := s'.context.define name w } :=
  ⟨⟨hs.context.root, scopesRelated_insert hs.context.bound name h, hs.context.scopes⟩, hs.binds⟩

theorem StatesPaired.record {s s' : RenderState} (hs : StatesPaired Q s s') (v w : Value) :
    StatesPaired Q { s with binds := s.binds.push v } { s' with binds := s'.binds.push w } :=
  ⟨hs.context, by simp [hs.binds]⟩

theorem simulates_placeholder (hQ : Pairing Q) (o : Options) (p : Path) :
    Simulates (StatesPaired Q) Eq (placeholder o p) (placeholder o p) := by
  intro s s' hs
  have hresolve := hs.context.resolve hQ p
  rw [exec_placeholder, exec_placeholder, hs.binds]
  generalize s.context.resolve p = x, s'.context.resolve p = y at hresolve
  cases hresolve with
  | error e => exact ⟨.error _, hs⟩
  | @ok v w h =>
    dsimp only
    rw [(hQ.twins h).literal_eq]
    cases o.literal w with
    | error e => exact ⟨.error _, hs⟩
    | ok l => exact ⟨.ok rfl, hs.record v w⟩

theorem simulates_raw (hQ : Pairing Q) (p : Path) :
    Simulates (StatesPaired Q) Eq (raw p) (raw p) := by
  intro s s' hs
  have hresolve := hs.context.resolve hQ p
  rw [exec_raw, exec_raw]
  generalize s.context.resolve p = x, s'.context.resolve p = y at hresolve
  cases hresolve with
  | error e => exact ⟨.error _, hs⟩
  | @ok v w h =>
    dsimp only
    rw [(hQ.twins h).raw_eq]
    cases w.raw with
    | error e => exact ⟨.error _, hs⟩
    | ok text => exact ⟨.ok rfl, hs⟩

theorem simulates_bind (hQ : Pairing Q) (name : String) {e : Expression} (he : KeepsPairs Q e) :
    Simulates (StatesPaired Q) Eq (bind name e) (bind name e) := by
  intro s s' hs
  have hvalue : Agree Q (e.value s.context) (e.value s'.context) :=
    Node.value_paired hQ hs.context e.root he
  rw [exec_bind_name, exec_bind_name]
  generalize e.value s.context = x, e.value s'.context = y at hvalue
  cases hvalue with
  | error err => exact ⟨.error _, hs⟩
  | ok h => exact ⟨.ok rfl, hs.define name h⟩

end Render

namespace Fragment

open Render

/-- The expressions of a fragment by itself, not counting those of the fragments below it. -/
def ownExpressions : Fragment → List Expression
  | .bind _ e => [e]
  | f => f.tests

/-- The expressions anywhere in a tree. -/
def expressions (f : Fragment) : List Expression :=
  f.nodes.flatMap ownExpressions

theorem mem_expressions_of_tests {f g : Fragment} (hg : g ∈ f.nodes) {t : Expression}
    (ht : t ∈ g.tests) : t ∈ f.expressions := by
  refine List.mem_flatMap.2 ⟨g, hg, ?_⟩
  cases g with
  | bind name e => cases ht
  | _ => exact ht

theorem simulates_paired (hQ : Pairing Q) (f : Fragment) (o : Options)
    (h : ∀ e ∈ f.expressions, KeepsPairs Q e) :
    Simulates (StatesPaired Q) Eq (f.render o) (f.render o) := by
  apply f.render_induction o o
  · intro g hg hleaf
    cases g with
    | text s => exact .pure rfl
    | placeholder p => exact simulates_placeholder hQ o p
    | raw p => exact simulates_raw hQ p
    | bind name e =>
      exact simulates_bind hQ name (h e (List.mem_flatMap.2 ⟨_, hg, List.mem_cons_self⟩))
    | _ => cases hleaf
  · exact .pure rfl
  · intro m m' k k' hm hk
    exact hm.append (by rintro t _ u _ rfl rfl; rfl) hk
  · intro g hg t ht m m' k k' hm hk
    exact .branch (simulates_test hQ (h t (mem_expressions_of_tests hg ht))) hm hk
  · intro spec body _ m m' hm
    apply hm.loop_pairs (statesPaired_keepsScopes Q)
    · intro ts ts' hts
      rw [List.forall₂_eq_eq_eq] at hts
      rw [hts]
    · apply (simulates_entries hQ spec.collection).mono
      exact fun es es' hes => hes.imp fun e e' he => entryScope_related spec he
  · intro spec body _ m m' hm
    apply hm.bind
    rintro t _ rfl
    exact .pure rfl

/-- What a tree renders to over a root value: its two texts, or its error. -/
def outcome (f : Fragment) (o : Options) (root : Value) : Except RenderError (String × String) :=
  (f.renderUnder o (.ofRoot root)).1.map fun r => (r.sql, r.parameterized)

theorem outcome_paired (hQ : Pairing Q) (f : Fragment) (o : Options)
    (h : ∀ e ∈ f.expressions, KeepsPairs Q e) {a b : Value}
    (hroot : ∀ name, Option.Rel Q (Context.ofRootName? a name) (Context.ofRootName? b name)) :
    f.outcome o a = f.outcome o b := by
  have hstart : StatesPaired Q ⟨.ofRoot a, #[]⟩ ⟨.ofRoot b, #[]⟩ :=
    ⟨⟨hroot, fun _ => .none, .nil⟩, rfl⟩
  obtain ⟨hagree, -⟩ := f.simulates_paired hQ o h _ _ hstart
  unfold outcome
  rw [renderUnder_eq, renderUnder_eq]
  generalize (exec (f.render o) ⟨.ofRoot a, #[]⟩).1 = x,
    (exec (f.render o) ⟨.ofRoot b, #[]⟩).1 = y at hagree
  cases hagree with
  | error e => rfl
  | ok ht =>
    cases ht
    rfl

end Fragment

end DynamicSql

import DynamicSql.Proofs.Effects
import DynamicSql.Template.Rendering

/-!
Running the steps of rendering: one equation for each step.
-/

namespace DynamicSql

namespace Render

variable {α : Type}

theorem exec_resolve (p : Path) (s : RenderState) :
    exec (resolve p) s =
      match s.context.resolve p with
      | .ok v => (.ok v, s)
      | .error e => (.error (.resolve e), s) := by
  unfold resolve
  rw [exec_bind, exec_get]
  dsimp only
  cases s.context.resolve p <;> rfl

theorem exec_test (e : Expression) (s : RenderState) :
    exec (test e) s =
      match e.test s.context with
      | .ok b => (.ok b, s)
      | .error (.resolve err) => (.error (.resolve err), s)
      | .error err => (.error (.eval e.source err), s) := by
  unfold test
  rw [exec_bind, exec_get]
  dsimp only
  cases e.test s.context with
  | ok b => rfl
  | error err => cases err <;> rfl

theorem exec_placeholder (o : Options) (p : Path) (s : RenderState) :
    exec (placeholder o p) s =
      match s.context.resolve p with
      | .error e => (.error (.resolve e), s)
      | .ok v =>
        match o.literal v with
        | .error e => (.error (e.at p), s)
        | .ok l =>
          (.ok ⟨l, o.flavor.placeholder (s.binds.size + 1)⟩,
            { s with binds := s.binds.push v }) := by
  unfold placeholder
  rw [exec_bind, exec_resolve]
  cases s.context.resolve p with
  | error e => rfl
  | ok v =>
    dsimp only
    cases o.literal v <;> rfl

theorem exec_raw (p : Path) (s : RenderState) :
    exec (raw p) s =
      match s.context.resolve p with
      | .error e => (.error (.resolve e), s)
      | .ok v =>
        match v.raw with
        | .error e => (.error (e.at p), s)
        | .ok x => (.ok (.both x), s) := by
  unfold raw
  rw [exec_bind, exec_resolve]
  cases s.context.resolve p with
  | error e => rfl
  | ok v =>
    dsimp only
    cases v.raw <;> rfl

theorem exec_bind_name (name : String) (e : Expression) (s : RenderState) :
    exec (bind name e) s =
      match e.value s.context with
      | .ok v => (.ok .empty, { s with context := s.context.define name v })
      | .error err => (.error (.eval e.source err), s) := by
  unfold bind
  rw [exec_bind, exec_get]
  dsimp only
  cases e.value s.context <;> rfl

theorem exec_withScope (scope : Scope) (m : Render α) (s : RenderState) :
    exec (withScope scope m) s =
      ((exec m { s with context := s.context.push scope }).1,
        { (exec m { s with context := s.context.push scope }).2 with
          context := (exec m { s with context := s.context.push scope }).2.context.truncate
            s.context.depth }) := rfl

/-- What a loop runs over for a value that is found, if it runs at all. -/
def loopEntries? : Value → Option (List (Value × Value))
  | .null => some []
  | .list items => some (items.zipIdx.map fun (v, i) => (.number (.uint (UInt64.ofNat i)), v))
  | .map es => some (es.map fun (k, v) => (.text k, v))
  | _ => none

theorem exec_entries (p : Path) (s : RenderState) :
    exec (entries p) s =
      match s.context.resolve p with
      | .error (.notFound _) => (.ok [], s)
      | .error e => (.error (.resolve e), s)
      | .ok v =>
        match loopEntries? v with
        | some es => (.ok es, s)
        | none => (.error (.notCollection p.source v.kind), s) := by
  unfold entries
  rw [exec_bind, exec_get]
  dsimp only
  cases s.context.resolve p with
  | error e => cases e <;> rfl
  | ok v => cases v <;> rfl

/-- The list of entries is found without changing anything. -/
theorem exec_entries_state (p : Path) (s : RenderState) : (exec (entries p) s).2 = s := by
  rw [exec_entries]
  cases s.context.resolve p with
  | error e => cases e <;> rfl
  | ok v =>
    dsimp only
    cases loopEntries? v <;> rfl

end Render

theorem Fragment.renderUnder_eq (f : Fragment) (o : Options) (c : Context) :
    f.renderUnder o c =
      ((exec (f.render o) ⟨c, #[]⟩).1.map fun t =>
          ⟨t.sql, t.parameterized, (exec (f.render o) ⟨c, #[]⟩).2.binds.toList⟩,
        (exec (f.render o) ⟨c, #[]⟩).2.context) := rfl

end DynamicSql

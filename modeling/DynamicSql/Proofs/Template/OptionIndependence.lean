import DynamicSql.Proofs.Template.TwoRuns

/-!
Flavor and escape style decide how values are written, and nothing else. Two renderings of a tree
under different options take the same branches, see the same scopes and record the same binds at
every step, although their texts differ and are looked at on the way: a blank piece of a loop is
dropped and a clause is trimmed, but neither changes the state.
-/

namespace DynamicSql

namespace Options

/-- Which values have literals does not hang on the options, nor does the error of the others. -/
theorem literal_agree (o o' : Options) (v : Value) :
    Agree (fun _ _ => True) (o.literal v) (o'.literal v) := by
  cases v with
  | number n =>
    unfold literal
    dsimp only
    split
    · exact .ok trivial
    · exact .error _
  | null => exact .ok trivial
  | bool b => exact .ok trivial
  | text s => exact .ok trivial
  | list items => exact .error _
  | map es => exact .error _

end Options

namespace Render

/-- From one state, both steps lead to one state and fail alike or not at all. -/
abbrev SameCourse (m m' : Render Texts) : Prop :=
  Simulates Eq (fun _ _ => True) m m'

theorem keepsScopes_eq : KeepsScopes Eq where
  push := by
    rintro s _ scope rfl
    rfl
  truncate := by
    rintro s _ u _ rfl rfl
    rfl

theorem simulates_refl {α : Type} (m : Render α) : Simulates Eq Eq m m := by
  rintro s _ rfl
  exact ⟨.refl (fun _ => rfl) _, rfl⟩

theorem sameCourse_leaf (o o' : Options) {g : Fragment} (hleaf : g.isLeaf = true) :
    SameCourse (g.render o) (g.render o') := by
  rintro s _ rfl
  cases g with
  | placeholder p =>
    rw [Fragment.render, Fragment.render, exec_placeholder, exec_placeholder]
    cases s.context.resolve p with
    | error e => exact ⟨.error _, rfl⟩
    | ok v =>
      dsimp only
      have hliteral := o.literal_agree o' v
      generalize o.literal v = x, o'.literal v = x' at hliteral
      cases hliteral with
      | error e => exact ⟨.error _, rfl⟩
      | ok _ => exact ⟨.ok trivial, rfl⟩
  | text t => exact ⟨.ok trivial, rfl⟩
  | raw p => exact ⟨.refl (fun _ => trivial) _, rfl⟩
  | bind name e => exact ⟨.refl (fun _ => trivial) _, rfl⟩
  | _ => cases hleaf

end Render

namespace Fragment

open Render

theorem sameCourse_render (f : Fragment) (o o' : Options) :
    SameCourse (f.render o) (f.render o') := by
  apply f.render_induction o o'
  · exact fun g _ hleaf => sameCourse_leaf o o' hleaf
  · exact .pure trivial
  · exact fun m m' k k' hm hk => hm.append (fun _ _ _ _ _ _ => trivial) hk
  · exact fun g _ t _ m m' k k' hm hk => .branch (simulates_refl _) hm hk
  · exact fun spec _ _ m m' hm =>
      hm.loop keepsScopes_eq (fun _ _ _ => trivial) (simulates_refl _)
  · exact fun spec _ _ m m' hm => hm.bind fun _ _ _ => .pure trivial

/-- Under any two options a tree fails with the same error or records the same binds, and in both
cases it leaves the same context behind. -/
theorem renderUnder_options (f : Fragment) (o o' : Options) (c : Context) :
    (f.renderUnder o c).1.map Rendered.binds = (f.renderUnder o' c).1.map Rendered.binds ∧
      (f.renderUnder o c).2 = (f.renderUnder o' c).2 := by
  obtain ⟨hagree, hstate⟩ := f.sameCourse_render o o' ⟨c, #[]⟩ ⟨c, #[]⟩ rfl
  rw [renderUnder_eq, renderUnder_eq, hstate]
  generalize (exec (f.render o) ⟨c, #[]⟩).1 = x, (exec (f.render o') ⟨c, #[]⟩).1 = x' at hagree
  cases hagree <;> exact ⟨rfl, rfl⟩

end Fragment

end DynamicSql

import Mathlib
import DynamicSql.Proofs.Mapper.RegistryRun
import DynamicSql.Proofs.Template.PlainText

/-!
Templates that are rendered at once against templates that are registered first. Both are compiled
in the same way, and where the provider renders by options only the fragments count, so the results
are the same as long as the provider stays (`addTemplate_agrees`).
-/

namespace DynamicSql

theorem Statement.script_eq (id template : String) :
    script id template =
      (scriptFragment template).map fun root => ⟨id, .script, template, root⟩ := by
  unfold script
  cases scriptFragment template <;> rfl

namespace Registry

/-- What becomes of fragments under the options of a provider. -/
def rendering (o : Options) (root : Fragment) (params : Value) : Except RenderError Rendered :=
  (root.renderUnder o (Context.ofRoot params)).1

theorem runProvider_ofOptions (o : Options) (s : Statement) (params : Value) :
    runProvider (.ofOptions o) s params = (rendering o s.root params).mapError .render := by
  simp only [runProvider, Provider.ofOptions, rendering]
  cases (s.root.renderUnder o (Context.ofRoot params)).1 <;> rfl

/-- Rendering does not fail to load. -/
theorem mapError_render_ne (x : Except RenderError Rendered) (e : LoadError) :
    x.mapError RegistryError.render ≠ .error (.load e) := by
  cases x <;> simp [Except.mapError]

section Rendering

variable {r : Registry} {o : Options} {id template : String}

theorem renderStatement_eq (hprovider : r.providers.get? builtinProvider = some (.ofOptions o))
    (hid : Text.isBlank id = false) {s : Statement} (hs : r.statement? id = some s)
    (params : Value) :
    r.renderStatement id params = (rendering o s.root params).mapError .render := by
  simp only [renderStatement, hid, provider, hprovider, hs, bind, Except.bind]
  exact runProvider_ofOptions o s params

theorem renderTemplate_eq (hprovider : r.providers.get? builtinProvider = some (.ofOptions o))
    (htemplate : Text.isBlank template = false) (params : Value) :
    r.renderTemplate template params =
      match scriptFragment template with
      | .error e => .error (.load (.template "<template>" e))
      | .ok root => (rendering o root params).mapError .render := by
  simp only [renderTemplate, htemplate, provider, hprovider, Statement.script_eq, bind, Except.bind]
  cases scriptFragment template with
  | error e => rfl
  | ok root => exact runProvider_ofOptions o _ params

theorem statement?_added (s : Statement) (hnew : r.contains id = false) :
    (r.adding [(id, s)]).statement? id = some s := by
  have hnone : r.statement? id = none := by
    rw [← Option.not_isSome_iff_eq_none, Bool.not_eq_true]
    exact hnew
  rw [statement?_adding, hnone, Option.none_or, Entries.get?, if_pos rfl]

end Rendering

/-! A provider stays until another one is registered under its name -/

theorem Added.providers_eq {count : α → Nat} {m : Change α} {r : Registry}
    (h : Added count r (exec m r)) (f : α → Answer) :
    (Change.answer f m r).2.providers = r.providers := by
  change ((Change.answer f m).run r).2.providers = r.providers
  rw [Change.answer, StateT.run_bind]
  change Added count r (m.run.run r) at h
  generalize m.run.run r = x at h
  cases h <;> rfl

theorem run_provider {op : Operation} {name : String} (hop : ∀ p, op ≠ .register name p)
    (r : Registry) : (op.run r).2.providers.get? name = r.providers.get? name := by
  cases op with
  | load t location =>
    rw [Operation.run, (load_added t location r).providers_eq .added]
  | loadSource s =>
    rw [Operation.run, loadSource, (loadSources_added [s] r).providers_eq .added]
  | loadBytes source bytes =>
    rw [Operation.run, (loadBytes_added source bytes r).providers_eq .added]
  | addTemplate id text =>
    rw [Operation.run, (addTemplate_added id text r).providers_eq _]
  | register other p =>
    have hne : other ≠ name := by
      rintro rfl
      exact hop p rfl
    have hget := Entries.get?_insert r.providers other name p
    rw [if_neg hne] at hget
    exact hget
  | _ => rfl

theorem after_provider {later : List Operation} {name : String}
    (hlater : ∀ p, .register name p ∉ later) (r : Registry) :
    (after later r).providers.get? name = r.providers.get? name := by
  induction later generalizing r with
  | nil => rfl
  | cons op later ih =>
    have hop : ∀ p, op ≠ .register name p := by
      rintro p rfl
      exact hlater p List.mem_cons_self
    have hrest : ∀ p, .register name p ∉ later := fun p hp => hlater p (List.mem_cons_of_mem op hp)
    calc (after (op :: later) r).providers.get? name
        = (after later (op.run r).2).providers.get? name := rfl
      _ = (op.run r).2.providers.get? name := ih hrest _
      _ = r.providers.get? name := run_provider hop r

/-- Where the builtin provider renders by options, a template that is not blank can be registered
under a new id exactly if rendering it at once does not fail to load, and otherwise both fail for the
same reason. Once it is registered, its id renders as the template does, whatever is done to the
registry, as long as no other provider takes the place of that one. -/
theorem addTemplate_agrees {r : Registry} {o : Options} {id template : String}
    (hprovider : r.providers.get? builtinProvider = some (.ofOptions o))
    (hid : Text.isBlank id = false) (hnew : r.contains id = false)
    (htemplate : Text.isBlank template = false) :
    (∀ params, (∃ r', exec (addTemplate id template) r = (.ok (), r')) ↔
      ∀ e, r.renderTemplate template params ≠ .error (.load e)) ∧
    (∀ params e, (exec (addTemplate id template) r).1 = .error e ↔
      ∃ why, e = .template id why ∧
        r.renderTemplate template params = .error (.load (.template "<template>" why))) ∧
    ∀ r', exec (addTemplate id template) r = (.ok (), r') →
      ∀ later, (∀ p, .register builtinProvider p ∉ later) →
        ∀ params, ∃ rendered : Except RenderError Rendered,
          (after later r').renderStatement id params = rendered.mapError .render ∧
          (after later r').renderTemplate template params = rendered.mapError .render ∧
          r.renderTemplate template params = rendered.mapError .render := by
  have hrender := renderTemplate_eq hprovider htemplate
  rw [exec_addTemplate hnew, Statement.script_eq]
  simp only [hrender]
  cases hroot : scriptFragment template with
  | error why =>
    dsimp only [Except.map]
    refine ⟨by simp, ?_, by simp⟩
    intro params e
    simp [eq_comm]
  | ok root =>
    dsimp only [Except.map]
    have hload := fun params => mapError_render_ne (rendering o root params)
    refine ⟨by simp [hload], by simp [hload], ?_⟩
    intro r' hr' later hlater params
    cases hr'
    have hstays : (after later (r.adding [(id, ⟨id, .script, template, root⟩)])).providers.get?
        builtinProvider = some (.ofOptions o) := by
      rw [after_provider hlater]
      exact hprovider
    have hknown := after_statement? later (statement?_added ⟨id, .script, template, root⟩ hnew)
    refine ⟨rendering o root params, ?_, ?_, rfl⟩
    · exact renderStatement_eq hstays hid hknown params
    · rw [renderTemplate_eq hstays htemplate, hroot]

theorem isPlain_bound : IsPlain "SELECT #\x7bx\x7d" := by
  have hlegal : "SELECT #\x7bx\x7d".toList.all (fun c => decide (IsLegal c)) = true := by decide
  exact ⟨fun c hc => of_decide_eq_true (List.all_eq_true.1 hlegal c hc), by decide, by decide,
    by decide, by decide⟩

/-- A template with a bound value, another provider and another template for the same id. -/
theorem addTemplate_agrees_bound :
    let o : Options := ⟨.sqlite, .doubled⟩
    let r := ofProvider (.ofOptions o)
    let template := "SELECT #\x7bx\x7d"
    let root : Fragment := .seq [.text "SELECT ", .placeholder ⟨"x", "x", []⟩]
    let r' := r.adding [("q", ⟨"q", .script, template, root⟩)]
    let later : List Operation :=
      [.register "other" (.ofOptions ⟨.mySql, .backslash⟩), .addTemplate "q" "SELECT 2"]
    (r.providers.get? builtinProvider = some (.ofOptions o) ∧ Text.isBlank "q" = false ∧
      r.contains "q" = false ∧ Text.isBlank template = false) ∧
    exec (addTemplate "q" template) r = (.ok (), r') ∧
    (∀ p, .register builtinProvider p ∉ later) ∧
    ∀ params, ∃ rendered : Except RenderError Rendered,
      (after later r').renderStatement "q" params = rendered.mapError .render ∧
      (after later r').renderTemplate template params = rendered.mapError .render ∧
      r.renderTemplate template params = rendered.mapError .render := by
  intro o r template root r' later
  have hprovider : r.providers.get? builtinProvider = some (.ofOptions o) := rfl
  have hid : Text.isBlank "q" = false := by decide
  have hnew : r.contains "q" = false := rfl
  have htemplate : Text.isBlank template = false := by decide
  have hroot : scriptFragment template = .ok root := by
    have htext : textFragments template =
        .ok [.text "SELECT ", .placeholder ⟨"x", "x", []⟩] := by cbv
    rw [scriptFragment_of_isPlain isPlain_bound, htext]
    rfl
  have hadded : exec (addTemplate "q" template) r = (.ok (), r') := by
    rw [exec_addTemplate hnew, Statement.script_eq, hroot]
    rfl
  have hlater : ∀ p, .register builtinProvider p ∉ later := by
    intro p hp
    simp [later, builtinProvider] at hp
  refine ⟨⟨hprovider, hid, hnew, htemplate⟩, hadded, hlater, ?_⟩
  exact (addTemplate_agrees hprovider hid hnew htemplate).2.2 r' hadded later hlater

end Registry

end DynamicSql

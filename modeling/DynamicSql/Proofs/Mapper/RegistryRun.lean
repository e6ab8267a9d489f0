import DynamicSql.Proofs.Mapper.Catalog

/-!
Runs of a registry. An operation leaves the registry as it is, adds statements whose ids are new to
it, or takes in a provider; nothing else can happen (`run_outcome`). So a registered id names the
same statement ever after, and an operation that fails has changed nothing.
-/

namespace DynamicSql

namespace Registry

/-- Statements that can be added: they are a catalog whose ids the registry does not know. -/
structure Fresh (r : Registry) (new : Entries Statement) : Prop where
  catalog : Catalog new
  absent : ∀ id ∈ new.keys, r.contains id = false

def adding (r : Registry) (new : Entries Statement) : Registry :=
  { r with statements := r.statements ++ new }

theorem Fresh.not_mem {r : Registry} {new : Entries Statement} (h : r.Fresh new) :
    ∀ id ∈ new.keys, id ∉ r.statements.keys := by
  intro id hid hmem
  have hcontains := Entries.contains_iff.2 hmem
  rw [show r.statements.contains id = false from h.absent id hid] at hcontains
  contradiction

theorem Fresh.extend_eq {r : Registry} {new : Entries Statement} (h : r.Fresh new) :
    { r with statements := r.statements.extend new } = r.adding new := by
  rw [Entries.extend_eq_append h.catalog.nodup h.not_mem, adding]

/-- What a change gives and leaves behind: a fault and the registry as it was, or a value and
the registry with new statements, as many as `count` finds in that value. -/
inductive Added (count : α → Nat) (r : Registry) : Except LoadError α × Registry → Prop
  | refused (e : LoadError) : Added count r (.error e, r)
  | added (a : α) {new : Entries Statement} (h : r.Fresh new) (hcount : new.length = count a) :
      Added count r (.ok a, r.adding new)

theorem loadSources_added (sources : List Source) (r : Registry) :
    Added id r (exec (loadSources sources) r) := by
  rw [loadSources, exec_bind, exec_liftExcept]
  cases hstage : stage [] sources with
  | error e => exact .refused e
  | ok staged =>
    dsimp only
    rw [exec_bind, exec_get]
    dsimp only
    cases hfind : staged.keys.find? r.statements.contains with
    | some id =>
      dsimp only
      rw [exec_throw]
      exact .refused _
    | none =>
      have hfresh : r.Fresh staged := by
        refine ⟨stage_catalog hstage .nil, ?_⟩
        intro id hid
        exact Bool.eq_false_iff.2 (List.find?_eq_none.1 hfind id hid)
      dsimp only
      rw [exec_bind, exec_set, hfresh.extend_eq]
      exact .added _ hfresh rfl

theorem loadBytes_added (name : String) (bytes : Except ReadError ByteArray) (r : Registry) :
    Added id r (exec (loadBytes name bytes) r) := by
  rw [loadBytes]
  split
  · exact loadSources_added _ r
  · rw [exec_throw]
    exact .refused _

theorem load_added (t : FileTree) (location : String) (r : Registry) :
    Added id r (exec (load t location) r) := by
  rw [load, exec_bind, exec_liftExcept]
  cases (Location.discover t location).mapM (readSource t) with
  | error e => exact .refused e
  | ok sources => exact loadSources_added sources r

theorem script_id {id template : String} {s : Statement}
    (h : Statement.script id template = .ok s) : s.id = id := by
  rcases bind_eq_ok.1 h with ⟨root, _, h⟩
  cases h
  rfl

theorem addTemplate_added (id template : String) (r : Registry) :
    Added (fun _ => 1) r (exec (addTemplate id template) r) := by
  unfold addTemplate
  cases hs : Statement.script id template with
  | error e =>
    dsimp only
    rw [exec_throw]
    exact .refused _
  | ok s =>
    dsimp only
    rw [exec_bind, exec_get]
    dsimp only
    split
    · rw [exec_throw]
      exact .refused _
    · next hid =>
      have hnot : id ∉ r.statements.keys := fun hmem => hid (Entries.contains_iff.2 hmem)
      have hfresh : r.Fresh [(id, s)] := by
        refine ⟨.single (script_id hs), ?_⟩
        intro other hother
        cases List.mem_singleton.1 hother
        exact Bool.eq_false_iff.2 hid
      rw [exec_set, Entries.insert_of_not_mem s hnot]
      exact .added _ hfresh rfl

theorem exec_addTemplate {r : Registry} {id template : String} (hnew : r.contains id = false) :
    exec (addTemplate id template) r =
      match Statement.script id template with
      | .error e => (.error (.template id e), r)
      | .ok s => (.ok (), r.adding [(id, s)]) := by
  have hnot : id ∉ r.statements.keys := by
    intro hmem
    have hcontains : r.contains id = true := Entries.contains_iff.2 hmem
    simp [hnew] at hcontains
  have hfalse : ¬r.statements.contains id = true := Bool.eq_false_iff.1 hnew
  unfold addTemplate
  cases Statement.script id template with
  | error e => rfl
  | ok s =>
    dsimp only
    rw [exec_bind, exec_get]
    dsimp only
    rw [if_neg hfalse, exec_set, Entries.insert_of_not_mem s hnot, adding]

/-- What can be asked of a registry. Files are those that are there when it is asked, and bytes
are what their reader gives. -/
inductive Operation where
  | load (t : FileTree) (location : String)
  | loadSource (s : Source)
  | loadBytes (name : String) (bytes : Except ReadError ByteArray)
  | addTemplate (id template : String)
  | register (name : String) (p : Provider)
  | statement (id : String)
  | template (id : String)
  | ids
  | size
  | contains (id : String)
  | renderStatement (id : String) (params : Value) (provider : String)
  | renderTemplate (template : String) (params : Value) (provider : String)

inductive Answer where
  | added (n : Nat)
  | done
  | statement (s : Option Statement)
  | template (text : Option String)
  | ids (all : List String)
  | size (n : Nat)
  | known (b : Bool)
  | rendered (r : Rendered)
  | refused (e : RegistryError)

namespace Answer

def isRefused : Answer → Bool
  | refused _ => true
  | _ => false

def ofRendering : Except RegistryError Rendered → Answer
  | .ok r => rendered r
  | .error e => refused e

end Answer

def Change.answer (f : α → Answer) (m : Change α) : StateM Registry Answer := do
  match ← m.run with
  | .ok a => return f a
  | .error e => return .refused (.load e)

/-- The answer, with the registry that is there afterwards. -/
def Operation.run : Operation → StateM Registry Answer
  | .load t location => Change.answer .added (Registry.load t location)
  | .loadSource s => Change.answer .added (Registry.loadSource s)
  | .loadBytes name bytes => Change.answer .added (Registry.loadBytes name bytes)
  | .addTemplate id text => Change.answer (fun _ => .done) (Registry.addTemplate id text)
  | .register name p => do
    modify (Registry.register · name p)
    return .done
  | .statement id => return .statement ((← get).statement? id)
  | .template id => return .template ((← get).template? id)
  | .ids => return .ids (← get).ids
  | .size => return .size (← get).size
  | .contains id => return .known ((← get).contains id)
  | .renderStatement id params provider =>
    return .ofRendering ((← get).renderStatement id params provider)
  | .renderTemplate text params provider =>
    return .ofRendering ((← get).renderTemplate text params provider)

/-- The registry after one operation after the other. -/
def after (ops : List Operation) (r : Registry) : Registry :=
  ops.foldl (fun r op => (op.run r).2) r

/-- All that an operation can do. -/
inductive Outcome (r : Registry) : Answer × Registry → Prop
  | unchanged {a : Answer} (h : ∀ n, a ≠ .added n) : Outcome r (a, r)
  | loaded {new : Entries Statement} (h : r.Fresh new) :
      Outcome r (.added new.length, r.adding new)
  | defined {new : Entries Statement} (h : r.Fresh new) (hone : new.length = 1) :
      Outcome r (.done, r.adding new)
  | registered (name : String) (p : Provider) : Outcome r (.done, r.register name p)

theorem Added.outcome {count : α → Nat} {f : α → Answer} {m : Change α} {r : Registry}
    (h : Added count r (exec m r))
    (hf : ∀ a new, r.Fresh new → new.length = count a → Outcome r (f a, r.adding new)) :
    Outcome r ((Change.answer f m).run r) := by
  rw [Change.answer, StateT.run_bind]
  change Added count r (m.run.run r) at h
  generalize m.run.run r = x at h
  cases h with
  | refused e => exact .unchanged (fun _ h => nomatch h)
  | added a hfresh hcount => exact hf a _ hfresh hcount

theorem Added.loaded {m : Change Nat} {r : Registry} (h : Added id r (exec m r)) :
    Outcome r ((Change.answer .added m).run r) := by
  apply h.outcome
  rintro n new hfresh rfl
  exact .loaded hfresh

theorem run_outcome (op : Operation) (r : Registry) : Outcome r (op.run r) := by
  cases op with
  | load t location => exact (load_added t location r).loaded
  | loadSource s => exact (loadSources_added [s] r).loaded
  | loadBytes name bytes => exact (loadBytes_added name bytes r).loaded
  | addTemplate id text =>
    exact (addTemplate_added id text r).outcome fun _ _ => .defined
  | register name p => exact .registered name p
  | renderStatement id params provider =>
    apply Outcome.unchanged
    intro n
    cases r.renderStatement id params provider <;> exact Answer.noConfusion
  | renderTemplate text params provider =>
    apply Outcome.unchanged
    intro n
    cases r.renderTemplate text params provider <;> exact Answer.noConfusion
  | _ => exact .unchanged (fun _ h => nomatch h)

theorem statement?_adding (r : Registry) (new : Entries Statement) (id : String) :
    (r.adding new).statement? id = (r.statement? id).or (Entries.get? new id) :=
  Entries.get?_append r.statements new id

namespace Outcome

variable {r : Registry} {x : Answer × Registry}

theorem catalog (h : Outcome r x) (hr : Catalog r.statements) : Catalog x.2.statements := by
  cases h with
  | unchanged _ => exact hr
  | loaded h => exact hr.append h.catalog h.not_mem
  | defined h _ => exact hr.append h.catalog h.not_mem
  | registered name p => exact hr

theorem statement?_eq_some (h : Outcome r x) {id : String} {s : Statement}
    (hs : r.statement? id = some s) : x.2.statement? id = some s := by
  cases h with
  | unchanged _ => exact hs
  | loaded _ => rw [statement?_adding, hs, Option.some_or]
  | defined _ _ => rw [statement?_adding, hs, Option.some_or]
  | registered name p => exact hs

theorem eq_of_isRefused (h : Outcome r x) (hx : x.1.isRefused = true) : x.2 = r := by
  cases h with
  | unchanged _ => rfl
  | loaded _ => contradiction
  | defined _ _ => contradiction
  | registered name p => contradiction

theorem exists_fresh (h : Outcome r x) {n : Nat} (hx : x.1 = .added n) :
    ∃ new, r.Fresh new ∧ new.length = n ∧ x.2 = r.adding new := by
  cases h with
  | unchanged h => exact absurd hx (h n)
  | loaded h =>
    cases hx
    exact ⟨_, h, rfl, rfl⟩
  | defined _ _ => contradiction
  | registered name p => contradiction

end Outcome

theorem after_catalog (ops : List Operation) {r : Registry} (hr : Catalog r.statements) :
    Catalog (after ops r).statements := by
  induction ops generalizing r with
  | nil => exact hr
  | cons op ops ih => exact ih ((run_outcome op r).catalog hr)

theorem after_statement? (ops : List Operation) {r : Registry} {id : String} {s : Statement}
    (hs : r.statement? id = some s) : (after ops r).statement? id = some s := by
  induction ops generalizing r with
  | nil => exact hs
  | cons op ops ih => exact ih ((run_outcome op r).statement?_eq_some hs)

/-- At every point of a run: each statement is registered under its own id, and stays it whatever
comes later. The next operation changes nothing if it is refused; if it adds `n` statements, these
have `n` ids that were not there, and no other entry changes. -/
theorem statements_only_grow (p : Provider) (before : List Operation) :
    let r := after before (ofProvider p)
    (∀ id s, r.statement? id = some s → s.id = id) ∧
    (∀ later id s, r.statement? id = some s → (after later r).statement? id = some s) ∧
    ∀ op : Operation,
      ((op.run r).1.isRefused = true → (op.run r).2 = r) ∧
      ∀ n, (op.run r).1 = .added n →
        ∃ new : List String, new.length = n ∧ new.Nodup ∧
          (∀ id ∈ new, r.contains id = false ∧ (op.run r).2.contains id = true) ∧
          (∀ id, id ∉ new → (op.run r).2.statement? id = r.statement? id) ∧
          (op.run r).2.size = r.size + n ∧ (op.run r).2.providers = r.providers := by
  intro r
  have hcatalog : Catalog r.statements := after_catalog before .nil
  refine ⟨fun id s hs => hcatalog.id_of_get? hs, fun later id s => after_statement? later, ?_⟩
  intro op
  have houtcome := run_outcome op r
  refine ⟨houtcome.eq_of_isRefused, ?_⟩
  intro n hn
  rcases houtcome.exists_fresh hn with ⟨new, hfresh, hlength, hafter⟩
  refine ⟨new.keys, ?_, hfresh.catalog.nodup, ?_, ?_, ?_, ?_⟩
  · rw [← hlength, Entries.keys, List.length_map]
  · intro id hid
    refine ⟨hfresh.absent id hid, ?_⟩
    apply Entries.contains_iff.2
    rw [hafter, adding, Entries.keys, List.map_append]
    exact List.mem_append_right _ hid
  · intro id hid
    rw [hafter, statement?_adding, Entries.get?_eq_none_iff.2 hid, Option.or_none]
  · rw [hafter, size, adding, List.length_append, hlength, size]
  · rw [hafter, adding]

end Registry

end DynamicSql

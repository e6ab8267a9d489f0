import DynamicSql.Proofs.Template.Scopes

/-!
Runs of operations on a context, and which of them leave the scopes below a temporary one alone.
A run can take scopes off that were there before it and put others in their place; how many it takes
off, and which ones it puts on, hangs on the operations and on the depth alone
(`runAll_stackEffect`). What is put on is dropped at the end of the temporary scope, what was taken
off does not come back.
-/

namespace DynamicSql.Context

/-- What can be asked of a context. -/
inductive Operation where
  | push (scope : Scope)
  | pop
  | define (name : String) (value : Value)
  | resolve (p : Path)
  | render (f : Fragment) (o : Options)
  | withScope (scope : Scope) (inner : List Operation)

inductive Answer where
  | done
  | popped (scope : Option Scope)
  | resolved (r : Except ResolveError Value)
  | rendered (r : Except RenderError Rendered)
  | ran (answers : List Answer)

namespace Operation

mutual

/-- The answer, with the context that is there afterwards. -/
def run : Operation → Context → Answer × Context
  | push scope, c => (.done, c.push scope)
  | pop, c =>
    match c.pop? with
    | some (scope, outer) => (.popped (some scope), outer)
    | none => (.popped none, c)
  | define name value, c => (.done, c.define name value)
  | resolve p, c => (.resolved (c.resolve p), c)
  | render f o, c =>
    let (r, after) := f.renderUnder o c
    (.rendered r, after)
  | withScope scope inner, c =>
    let (answers, after) := c.withScope scope (runAll inner)
    (.ran answers, after)

def runAll : List Operation → Context → List Answer × Context
  | [], c => ([], c)
  | op :: ops, c =>
    let (a, c) := op.run c
    let (as, c) := runAll ops c
    (a :: as, c)

end

mutual

/-- The contexts that an operation goes through, the one that it leaves behind included. -/
def moments : Operation → Context → List Context
  | withScope scope inner, c =>
    c.push scope :: momentsOf inner (c.push scope) ++ [((withScope scope inner).run c).2]
  | op, c => [(op.run c).2]

def momentsOf : List Operation → Context → List Context
  | [], _ => []
  | op :: ops, c => op.moments c ++ momentsOf ops (op.run c).2

end

theorem scopes_pop (c : Context) : (pop.run c).2.scopes = c.scopes.tail := by
  obtain ⟨root, bound, scopes⟩ := c
  cases scopes <;> rfl

theorem scopes_render (f : Fragment) (o : Options) (c : Context) :
    ((render f o).run c).2.scopes = c.scopes := by
  obtain ⟨new, _, h⟩ := f.keeps_render o ⟨c, #[]⟩
  change (f.renderUnder o c).2.scopes = c.scopes
  rw [Fragment.renderUnder_eq, h]

theorem scopes_withScope (scope : Scope) (inner : List Operation) (c : Context) :
    (c.withScope scope (runAll inner)).2.scopes =
      (runAll inner (c.push scope)).2.scopes.drop
        ((runAll inner (c.push scope)).2.scopes.length - c.scopes.length) := by
  rw [← Nat.add_sub_add_right _ 1]
  rfl

/-- With `new` scopes on all but the innermost `gone` of `n` others, a run leaves all but `gone'` of
those, with `new'` on them. No more of them are gone at any moment on the way, and if it takes off
any at all then at some moment nothing stands on the ones that it leaves. -/
structure StackEffect (n gone : Nat) (new : List Scope) (run : Context → Context)
    (moments : Context → List Context) (gone' : Nat) (new' : List Scope) : Prop where
  gone_le : gone ≤ gone'
  le : gone' ≤ n
  lands : ∀ (old : List Scope) (c : Context), old.length = n →
    c.scopes = new ++ old.drop gone →
    (run c).scopes = new' ++ old.drop gone' ∧
      (∀ m ∈ moments c, n - gone' ≤ m.scopes.length) ∧
      (gone < gone' → ∃ m ∈ moments c, m.scopes.length = n - gone')

namespace StackEffect

variable {n gone gone' gone'' : Nat} {new new' new'' : List Scope}

/-- A single step takes off a scope of the others only if none of the new ones is left. -/
theorem step {run : Context → Context} (hle : gone ≤ gone') (hn : gone' ≤ n)
    (hnew : gone < gone' → new' = [])
    (h : ∀ (old : List Scope) (c : Context), old.length = n → c.scopes = new ++ old.drop gone →
      (run c).scopes = new' ++ old.drop gone') :
    StackEffect n gone new run (fun c => [run c]) gone' new' := by
  refine ⟨hle, hn, ?_⟩
  intro old c hold hc
  have hrun := h old c hold hc
  have hlength : (run c).scopes.length = new'.length + (n - gone') := by
    rw [hrun, List.length_append, List.length_drop, hold]
  refine ⟨hrun, ?_, ?_⟩
  · intro m hm
    rw [List.mem_singleton.1 hm, hlength]
    omega
  · intro hlt
    refine ⟨run c, List.mem_singleton_self _, ?_⟩
    rw [hlength, hnew hlt, List.length_nil, Nat.zero_add]

/-- Nothing happens to the scopes. -/
theorem same {run : Context → Context} (hn : gone ≤ n) (h : ∀ c, (run c).scopes = c.scopes) :
    StackEffect n gone new run (fun c => [run c]) gone new :=
  step (Nat.le_refl gone) hn (fun hlt => absurd hlt (Nat.lt_irrefl gone))
    fun _ c _ hc => (h c).trans hc

theorem andThen {run run' : Context → Context} {moments moments' : Context → List Context}
    (h : StackEffect n gone new run moments gone' new')
    (h' : StackEffect n gone' new' run' moments' gone'' new'') :
    StackEffect n gone new (fun c => run' (run c)) (fun c => moments c ++ moments' (run c))
      gone'' new'' := by
  refine ⟨h.gone_le.trans h'.gone_le, h'.le, ?_⟩
  intro old c hold hc
  obtain ⟨hrun, habove, hreached⟩ := h.lands old c hold hc
  obtain ⟨hrun', habove', hreached'⟩ := h'.lands old (run c) hold hrun
  refine ⟨hrun', ?_, ?_⟩
  · intro m hm
    rcases List.mem_append.1 hm with hm | hm
    · exact (Nat.sub_le_sub_left h'.gone_le n).trans (habove m hm)
    · exact habove' m hm
  · intro hlt
    rcases Nat.lt_or_eq_of_le h'.gone_le with hlt' | heq
    · obtain ⟨m, hm, hlow⟩ := hreached' hlt'
      exact ⟨m, List.mem_append_right _ hm, hlow⟩
    · obtain ⟨m, hm, hlow⟩ := hreached (heq ▸ hlt)
      exact ⟨m, List.mem_append_left _ hm, heq ▸ hlow⟩

variable {scope : Scope} {inner : List Operation}

/-- At the end of a temporary scope only new scopes are dropped. -/
theorem withScope_lands
    (h : StackEffect n gone (scope :: new) (fun c => (runAll inner c).2) (momentsOf inner)
      gone' new')
    {old : List Scope} {c : Context} (hold : old.length = n)
    (hc : c.scopes = new ++ old.drop gone) :
    (c.withScope scope (runAll inner)).2.scopes =
      new'.drop (new'.length + (n - gone') - (new.length + (n - gone))) ++ old.drop gone' := by
  have hgone := h.gone_le
  have hrun := (h.lands old (c.push scope) hold (congrArg (scope :: ·) hc)).1
  rw [scopes_withScope, hrun, hc, List.length_append, List.length_append, List.length_drop,
    List.length_drop, hold]
  exact List.drop_append_of_le_length (by omega)

theorem withScope
    (h : StackEffect n gone (scope :: new) (fun c => (runAll inner c).2) (momentsOf inner)
      gone' new') :
    StackEffect n gone new (fun c => ((withScope scope inner).run c).2)
      (withScope scope inner).moments gone'
      (new'.drop (new'.length + (n - gone') - (new.length + (n - gone)))) := by
  have hgone := h.gone_le
  refine ⟨hgone, h.le, ?_⟩
  intro old c hold hc
  have hafter := h.withScope_lands hold hc
  obtain ⟨-, habove, hreached⟩ := h.lands old (c.push scope) hold (congrArg (scope :: ·) hc)
  refine ⟨hafter, ?_, ?_⟩
  · intro m hm
    rw [moments, List.mem_append, List.mem_cons, List.mem_singleton] at hm
    rcases hm with (rfl | hm) | rfl
    · simp only [Context.push, hc, List.length_cons, List.length_append, List.length_drop, hold]
      omega
    · exact habove m hm
    · change n - gone' ≤ (c.withScope scope (runAll inner)).2.scopes.length
      rw [hafter, List.length_append, List.length_drop, List.length_drop, hold]
      omega
  · intro hlt
    obtain ⟨m, hm, hlow⟩ := hreached hlt
    exact ⟨m, List.mem_append_left _ (List.mem_cons_of_mem _ hm), hlow⟩

end StackEffect

mutual

theorem run_stackEffect (op : Operation) {n gone : Nat} (hn : gone ≤ n) (new : List Scope) :
    ∃ gone' new', StackEffect n gone new (fun c => (op.run c).2) op.moments gone' new' := by
  cases op with
  | push scope =>
    refine ⟨gone, scope :: new, .step (Nat.le_refl gone) hn (fun h => by omega) ?_⟩
    exact fun old c _ hc => congrArg (scope :: ·) hc
  | pop =>
    cases new with
    | cons scope new =>
      refine ⟨gone, new, .step (Nat.le_refl gone) hn (fun h => by omega) ?_⟩
      intro old c _ hc
      rw [scopes_pop, hc]
      rfl
    | nil =>
      refine ⟨min (gone + 1) n, [], .step (by omega) (by omega) (fun _ => rfl) ?_⟩
      intro old c hold hc
      rw [scopes_pop, hc, List.nil_append, List.tail_drop, List.nil_append]
      rcases Nat.le_total (gone + 1) n with h | h
      · rw [Nat.min_eq_left h]
      · rw [Nat.min_eq_right h, List.drop_eq_nil_of_le (by omega),
          List.drop_eq_nil_of_le (by omega)]
  | define name value => exact ⟨gone, new, .same hn fun _ => rfl⟩
  | resolve p => exact ⟨gone, new, .same hn fun _ => rfl⟩
  | render f o => exact ⟨gone, new, .same hn (scopes_render f o)⟩
  | withScope scope inner =>
    obtain ⟨gone', new', h⟩ := runAll_stackEffect inner hn (scope :: new)
    exact ⟨gone', _, h.withScope⟩

theorem runAll_stackEffect (ops : List Operation) {n gone : Nat} (hn : gone ≤ n)
    (new : List Scope) :
    ∃ gone' new', StackEffect n gone new (fun c => (runAll ops c).2) (momentsOf ops)
      gone' new' := by
  cases ops with
  | nil =>
    refine ⟨gone, new, Nat.le_refl gone, hn, fun old c _ hc => ⟨hc, nofun, fun h => ?_⟩⟩
    exact absurd h (Nat.lt_irrefl gone)
  | cons op ops =>
    obtain ⟨gone', new', hop⟩ := run_stackEffect op hn new
    obtain ⟨gone'', new'', hops⟩ := runAll_stackEffect ops hop.le new'
    exact ⟨gone'', new'', hop.andThen hops⟩

end

end Operation

open Operation

/-- After a temporary scope some of the scopes below it are gone, with others in their place but not
more of them, and what is gone and what is new is the same whatever the scopes were. None is gone if
the run inside has never been below where it started. -/
theorem exists_scopes_withScope (scope : Scope) (inner : List Operation) (n : Nat) :
    ∃ gone new, gone ≤ n ∧ new.length ≤ gone ∧ ∀ c : Context, c.scopes.length = n →
      (c.withScope scope (runAll inner)).2.scopes = new ++ c.scopes.drop gone ∧
        (gone = 0 ↔ ∀ m ∈ momentsOf inner (c.push scope), c.depth ≤ m.depth) := by
  obtain ⟨gone, new, h⟩ := runAll_stackEffect inner (Nat.zero_le n) [scope]
  have hle := h.le
  refine ⟨gone, _, hle, ?_, fun c hc => ⟨h.withScope_lands hc rfl, ?_⟩⟩
  · rw [List.length_drop, List.length_nil]
    omega
  · obtain ⟨-, habove, hreached⟩ := h.lands c.scopes (c.push scope) hc rfl
    constructor
    · intro hzero m hm
      have hm := habove m hm
      simp only [depth, hc]
      omega
    · intro hstays
      by_contra hne
      obtain ⟨m, hm, hlow⟩ := hreached (Nat.pos_of_ne_zero hne)
      have hm := hstays m hm
      simp only [depth, hc, hlow] at hm
      omega

/-- A temporary scope leaves depth and scopes as they were, in every context as deep as this one,
exactly if the run inside never takes off a scope that was there before: at no moment of it is the
depth less than before. -/
theorem withScope_balanced_iff (c : Context) (scope : Scope) (inner : List Operation) :
    (∀ d : Context, d.depth = c.depth →
      (d.withScope scope (runAll inner)).2.depth = d.depth ∧
        (d.withScope scope (runAll inner)).2.scopes = d.scopes) ↔
      ∀ m ∈ momentsOf inner (c.push scope), c.depth ≤ m.depth := by
  obtain ⟨gone, new, hgone, hnew, h⟩ := exists_scopes_withScope scope inner c.scopes.length
  rw [← (h c rfl).2]
  constructor
  · intro hbalanced
    by_contra hne
    -- Two contexts that differ in the scope that is taken off cannot both have it back.
    have hkept (s : Scope) :
        new ++ (s :: List.replicate (c.scopes.length - 1) []).drop gone =
          s :: List.replicate (c.scopes.length - 1) [] := by
      have hlength : (s :: List.replicate (c.scopes.length - 1) []).length = c.scopes.length := by
        rw [List.length_cons, List.length_replicate]
        omega
      rw [← (h ⟨.null, [], _⟩ hlength).1]
      exact (hbalanced ⟨.null, [], _⟩ (congrArg (· + 1) hlength)).2
    obtain ⟨k, rfl⟩ := Nat.exists_eq_succ_of_ne_zero hne
    have hsame := (hkept []).symm.trans (hkept [("", .null)])
    cases hsame
  · intro hzero d hd
    have hnone : new = [] := List.eq_nil_of_length_eq_zero (by omega)
    have hscopes := (h d (Nat.succ.inj hd)).1
    rw [hzero, hnone, List.drop_zero, List.nil_append] at hscopes
    exact ⟨congrArg (·.length + 1) hscopes, hscopes⟩

/-- Taking off two scopes inside of one is one too many. -/
theorem withScope_outer_popped :
    let c : Context := (ofRoot (.map [("x", .number (.int 0))])).push [("x", .number (.int 1))]
    let after := (c.withScope [("x", .number (.int 2))] (runAll [.pop, .pop])).2
    c.depth = 2 ∧ after.depth = 1 ∧ after.scopes ≠ c.scopes :=
  ⟨rfl, rfl, nofun⟩

end DynamicSql.Context

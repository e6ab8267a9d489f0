import DynamicSql.Parameter.Context

/-!
All scopes of a context in one stack, with the scope of bound names at the bottom. A temporary scope
remembers how deep the stack was with it, and on the way out the stack is cut below that depth
whatever was pushed and popped in between. Nothing that happens takes the scope at the bottom away
or changes it, but for what is defined there (`run?_cons`).
-/

namespace DynamicSql

/-- What happens to the scopes. -/
inductive ScopeEvent where
  | push (scope : Scope)
  | pop
  | define (name : String) (value : Value)
  /-- A temporary scope begins. -/
  | enter (scope : Scope)
  /-- The temporary scope that began last is over. -/
  | leave

/-- The scopes from the outermost one inwards, and how deep the stack was with each temporary scope
that is not over yet, the last of them first. -/
structure ScopeStack where
  scopes : List Scope
  depths : List Nat

namespace ScopeStack

def new : ScopeStack := ⟨[[]], []⟩

/-- The scope on top, and the others. The last one left is never given away. -/
def pop? (scopes : List Scope) : Option (Scope × List Scope) :=
  if 1 < scopes.length then scopes.getLast?.map (·, scopes.dropLast) else none

/-- Nothing comes after an event that needs a scope where there is none, or a depth. -/
def step? (m : ScopeStack) : ScopeEvent → Option ScopeStack
  | .push scope => some { m with scopes := m.scopes ++ [scope] }
  | .pop => some { m with scopes := (pop? m.scopes).elim m.scopes Prod.snd }
  | .define name value =>
    match m.scopes with
    | [] => none
    | bound :: scopes => some { m with scopes := bound.insert name value :: scopes }
  | .enter scope =>
    let scopes := m.scopes ++ [scope]
    some ⟨scopes, scopes.length :: m.depths⟩
  | .leave =>
    match m.depths with
    | [] => none
    | depth :: depths => if 0 < depth then some ⟨m.scopes.take (depth - 1), depths⟩ else none

def run? (m : ScopeStack) (events : List ScopeEvent) : Option ScopeStack :=
  events.foldlM step? m

end ScopeStack

namespace ScopeEvent

/-- What is left of the bound names behind an event. -/
def boundAfter (bound : Scope) : ScopeEvent → Scope
  | define name value => bound.insert name value
  | _ => bound

def defined? (name : String) : ScopeEvent → Option Value
  | define other value => if other = name then some value else none
  | _ => none

/-- The value that a name was defined with most recently. -/
def lastDefined? (name : String) (events : List ScopeEvent) : Option Value :=
  events.reverse.findSome? (defined? name)

theorem get?_boundAfter (bound : Scope) (e : ScopeEvent) (name : String) :
    (boundAfter bound e).get? name = (e.defined? name).or (bound.get? name) := by
  cases e with
  | define other value =>
    rw [boundAfter, Entries.get?_insert, defined?]
    split <;> rfl
  | _ => rfl

theorem get?_foldl_boundAfter (bound : Scope) (events : List ScopeEvent) (name : String) :
    (events.foldl boundAfter bound).get? name = (lastDefined? name events).or (bound.get? name) := by
  induction events generalizing bound with
  | nil => rfl
  | cons e events ih =>
    rw [List.foldl_cons, ih, get?_boundAfter, lastDefined?, lastDefined?, List.reverse_cons,
      List.findSome?_append, List.findSome?_singleton, Option.or_assoc]

end ScopeEvent

namespace ScopeStack

variable {m m' : ScopeStack} {bound : Scope} {scopes : List Scope} {depths : List Nat}

theorem pop?_concat (bound last : Scope) (scopes : List Scope) :
    pop? (bound :: (scopes ++ [last])) = some (last, bound :: scopes) := by
  have hlength : 1 < (bound :: (scopes ++ [last])).length := by
    simp
  rw [pop?, if_pos hlength, ← List.cons_append, List.getLast?_concat, List.dropLast_concat]
  rfl

theorem pop?_eq_none_iff : pop? (bound :: scopes) = none ↔ (bound :: scopes).length = 1 := by
  obtain rfl | ⟨scopes, last, rfl⟩ := List.eq_nil_or_concat scopes
  · exact ⟨fun _ => rfl, fun _ => rfl⟩
  · rw [List.concat_eq_append, pop?_concat]
    simp

/-- The scope at the bottom is there behind every event, and behind the end of a temporary scope
because that scope was not the first one. -/
theorem step?_cons {e : ScopeEvent} (hdepths : ∀ d ∈ depths, 2 ≤ d)
    (h : step? ⟨bound :: scopes, depths⟩ e = some m) :
    ∃ scopes' depths', m = ⟨e.boundAfter bound :: scopes', depths'⟩ ∧ ∀ d ∈ depths', 2 ≤ d := by
  cases e with
  | push scope =>
    cases h
    exact ⟨_, _, rfl, hdepths⟩
  | pop =>
    obtain rfl | ⟨scopes, last, rfl⟩ := List.eq_nil_or_concat scopes
    · cases h
      exact ⟨_, _, rfl, hdepths⟩
    · dsimp only [step?] at h
      rw [List.concat_eq_append, pop?_concat] at h
      cases h
      exact ⟨_, _, rfl, hdepths⟩
  | define name value =>
    cases h
    exact ⟨_, _, rfl, hdepths⟩
  | enter scope =>
    cases h
    refine ⟨_, _, rfl, List.forall_mem_cons.2 ⟨?_, hdepths⟩⟩
    simp
  | leave =>
    cases depths with
    | nil => cases h
    | cons depth depths =>
      obtain ⟨hdepth, hdepths⟩ := List.forall_mem_cons.1 hdepths
      obtain ⟨kept, hkept⟩ : ∃ kept, depth - 1 = kept + 1 := ⟨depth - 2, by omega⟩
      dsimp only [step?] at h
      rw [if_pos (by omega), hkept, List.take_succ_cons] at h
      cases h
      exact ⟨_, _, rfl, hdepths⟩

theorem run?_cons {events : List ScopeEvent} (hdepths : ∀ d ∈ depths, 2 ≤ d)
    (h : run? ⟨bound :: scopes, depths⟩ events = some m) :
    ∃ scopes' depths', m = ⟨events.foldl ScopeEvent.boundAfter bound :: scopes', depths'⟩ := by
  induction events generalizing bound scopes depths with
  | nil =>
    cases h
    exact ⟨_, _, rfl⟩
  | cons e events ih =>
    rw [run?, List.foldlM_cons] at h
    obtain ⟨m', hstep, hrun⟩ := Option.bind_eq_some_iff.1 h
    obtain ⟨scopes', depths', rfl, hdepths'⟩ := step?_cons hdepths hstep
    exact ih hdepths' hrun

theorem run?_singleton (m : ScopeStack) (e : ScopeEvent) : m.run? [e] = m.step? e := by
  rw [run?, List.foldlM_cons]
  exact Option.bind_fun_some (m.step? e)

theorem run?_append (m : ScopeStack) (before after : List ScopeEvent) :
    m.run? (before ++ after) = (m.run? before).bind (run? · after) :=
  List.foldlM_append

end ScopeStack

namespace Context

open ScopeStack

/-- The scopes of a context from the outermost one inwards. -/
def stack (c : Context) : List Scope :=
  c.bound :: c.scopes.reverse

theorem length_stack (c : Context) : c.stack.length = c.depth := by
  rw [stack, List.length_cons, List.length_reverse, depth]

theorem stack_push (c : Context) (scope : Scope) : (c.push scope).stack = c.stack ++ [scope] := by
  rw [stack, push, List.reverse_cons, ← List.cons_append]
  rfl

theorem pop?_stack (c : Context) :
    ScopeStack.pop? c.stack = c.pop?.map fun (scope, outer) => (scope, outer.stack) := by
  obtain ⟨root, bound, scopes⟩ := c
  cases scopes with
  | nil => rfl
  | cons scope scopes =>
    rw [stack, List.reverse_cons, pop?_concat]
    rfl

theorem stack_truncate (c : Context) {depth : Nat} (h : 0 < depth) :
    (c.truncate depth).stack = c.stack.take depth := by
  obtain ⟨kept, rfl⟩ : ∃ kept, depth = kept + 1 := ⟨depth - 1, by omega⟩
  rw [stack, stack, truncate, List.take_succ_cons, List.reverse_drop]
  refine congrArg _ (List.take_eq_take_iff.2 ?_)
  rw [List.length_reverse, depth]
  omega

end Context

end DynamicSql

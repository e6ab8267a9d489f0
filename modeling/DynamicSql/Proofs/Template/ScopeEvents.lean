import DynamicSql.Proofs.Parameter.ScopeStack
import DynamicSql.Proofs.Template.ContextRun
import DynamicSql.Proofs.Template.LoopRun

/-!
What runs do to the scopes, event by event. A rendering defines what its bindings give, and enters
and leaves one temporary scope for each round of a loop, also for one that fails. Whatever is pushed
and popped around it, the stack of scopes has the bound names at its bottom at every moment, each
with the value that it was defined with most recently (`runAll_moments`).
-/

namespace DynamicSql

open ScopeStack

/-- The events of a run lead from the scopes of one context to those of another, with the temporary
scopes around them untouched. -/
structure ScopesFollow (events : List ScopeEvent) (c c' : Context) : Prop where
  root : c'.root = c.root
  run (depths : List Nat) : run? ⟨c.stack, depths⟩ events = some ⟨c'.stack, depths⟩

theorem run?_enter (c : Context) (scope : Scope) (depths : List Nat) :
    run? ⟨c.stack, depths⟩ [.enter scope] =
      some ⟨(c.push scope).stack, (c.push scope).depth :: depths⟩ := by
  rw [run?_singleton, ← Context.length_stack, Context.stack_push]
  rfl

namespace ScopesFollow

variable {before after events : List ScopeEvent} {c c' c'' : Context}

theorem nil (c : Context) : ScopesFollow [] c c :=
  ⟨rfl, fun _ => rfl⟩

theorem append (h : ScopesFollow before c c') (h' : ScopesFollow after c' c'') :
    ScopesFollow (before ++ after) c c'' := by
  refine ⟨h'.root.trans h.root, fun depths => ?_⟩
  rw [run?_append, h.run, Option.bind_some, h'.run]

theorem push (c : Context) (scope : Scope) : ScopesFollow [.push scope] c (c.push scope) := by
  refine ⟨rfl, fun depths => ?_⟩
  rw [Context.stack_push]
  rfl

theorem define (c : Context) (name : String) (value : Value) :
    ScopesFollow [.define name value] c (c.define name value) :=
  ⟨rfl, fun _ => rfl⟩

theorem pop (c : Context) : ScopesFollow [.pop] c (Context.Operation.pop.run c).2 := by
  have hpop := c.pop?_stack
  obtain ⟨root, bound, scopes⟩ := c
  cases scopes with
  | nil => exact ⟨rfl, fun _ => rfl⟩
  | cons scope scopes =>
    refine ⟨rfl, fun depths => ?_⟩
    rw [run?_singleton, step?, hpop]
    rfl

/-- A stack is cut where the temporary scope began, and so are the scopes of the context. -/
theorem under {scope : Scope} (h : ScopesFollow events (c.push scope) c') :
    ScopesFollow (.enter scope :: (events ++ [.leave])) c (c'.truncate c.depth) := by
  refine ⟨h.root, fun depths => ?_⟩
  have hleave : run? ⟨c'.stack, (c.push scope).depth :: depths⟩ [.leave] =
      some ⟨(c'.truncate c.depth).stack, depths⟩ := by
    have hdepth : 0 < c.depth := Nat.succ_pos _
    rw [run?_singleton, c'.stack_truncate hdepth]
    rfl
  rw [← List.singleton_append, run?_append, run?_enter, Option.bind_some, run?_append, h.run,
    Option.bind_some, hleave]

end ScopesFollow

/-- The events lead from the scopes of one context to those of another, which may be inside of
temporary scopes that they enter. -/
structure ScopesReach (events : List ScopeEvent) (c c' : Context) : Prop where
  root : c'.root = c.root
  run (depths : List Nat) : ∃ depths', run? ⟨c.stack, depths⟩ events = some ⟨c'.stack, depths'⟩

theorem ScopesFollow.reach {events : List ScopeEvent} {c c' : Context}
    (h : ScopesFollow events c c') : ScopesReach events c c' :=
  ⟨h.root, fun depths => ⟨depths, h.run depths⟩⟩

namespace ScopesReach

variable {before after : List ScopeEvent} {c c' c'' : Context}

theorem append (h : ScopesReach before c c') (h' : ScopesReach after c' c'') :
    ScopesReach (before ++ after) c c'' := by
  refine ⟨h'.root.trans h.root, fun depths => ?_⟩
  obtain ⟨between, hbefore⟩ := h.run depths
  obtain ⟨depths', hafter⟩ := h'.run between
  refine ⟨depths', ?_⟩
  rw [run?_append, hbefore, Option.bind_some, hafter]

theorem enter (c : Context) (scope : Scope) : ScopesReach [.enter scope] c (c.push scope) :=
  ⟨rfl, fun depths => ⟨_, run?_enter c scope depths⟩⟩

end ScopesReach

/-- The events of a step of rendering, from the state that it starts in. -/
abbrev Trace : Type := RenderState → List ScopeEvent

namespace Trace

variable {α β : Type}

def still : Trace :=
  fun _ => []

/-- Behind a step that failed nothing comes. -/
def andThen (before : Trace) (m : Render α) (after : α → Trace) : Trace := fun s =>
  before s ++
    match exec m s with
    | (.ok a, t) => after a t
    | (.error _, _) => []

def under (scope : Scope) (inner : Trace) : Trace := fun s =>
  .enter scope :: (inner (s.under scope) ++ [.leave])

/-- A name whose value is an error is not defined. -/
def define (name : String) (e : Expression) : Trace := fun s =>
  match e.value s.context with
  | .ok v => [.define name v]
  | .error _ => []

/-- One temporary scope for each entry, up to the first one that fails. -/
def eachEntry (spec : Loop) (body : Render Texts) (inner : Trace) : List (Value × Value) → Trace
  | [] => still
  | (index, item) :: es =>
    let scope := Render.entryScope spec index item
    andThen (under scope inner) (Render.withScope scope body) fun _ => eachEntry spec body inner es

def loop (spec : Loop) (body : Render Texts) (inner : Trace) : Trace :=
  andThen still (Render.entries spec.collection) (eachEntry spec body inner)

end Trace

namespace Fragment

mutual

/-- The events of a rendering, as far as it gets. -/
def trace (o : Options) : Fragment → Trace
  | .text _ | .placeholder _ | .raw _ => .still
  | .conditional t body =>
    .andThen .still (Render.test t) fun b => if b then body.trace o else .still
  | .choose branches otherwise => traceChoice o (traceOption o otherwise) branches
  | .loop spec body => .loop spec (body.render o) (body.trace o)
  | .trim _ body => body.trace o
  | .bind name e => .define name e
  | .seq items => traceAll o items

def traceAll (o : Options) : List Fragment → Trace
  | [] => .still
  | f :: fs => .andThen (f.trace o) (f.render o) fun _ => traceAll o fs

def traceOption (o : Options) : Option Fragment → Trace
  | none => .still
  | some f => f.trace o

def traceChoice (o : Options) (otherwise : Trace) : List (Expression × Fragment) → Trace
  | [] => otherwise
  | (t, body) :: branches =>
    .andThen .still (Render.test t) fun b =>
      if b then body.trace o else traceChoice o otherwise branches

end

end Fragment

namespace Render

variable {α β : Type}

/-- The trace has what the step does to the scopes, however it ends. -/
def Traced (m : Render α) (trace : Trace) : Prop :=
  ∀ s, ScopesFollow (trace s) s.context (exec m s).2.context

namespace Traced

theorem still {m : Render α} (h : ∀ s, (exec m s).2.context = s.context) : Traced m .still := by
  intro s
  rw [h]
  exact .nil s.context

theorem bind {m : Render α} {k : α → Render β} {before : Trace} {after : α → Trace}
    (hm : Traced m before) (hk : ∀ a, Traced (k a) (after a)) :
    Traced (m >>= k) (.andThen before m after) := by
  intro s
  have hbefore := hm s
  rw [exec_bind, Trace.andThen]
  cases h : exec m s with
  | mk r t =>
    rw [h] at hbefore
    cases r with
    | error e => exact hbefore.append (.nil _)
    | ok a => exact hbefore.append (hk a t)

theorem map {m : Render α} {trace : Trace} (hm : Traced m trace) (f : α → β) :
    Traced (m >>= fun a => pure (f a)) trace := by
  intro s
  have hrun := hm s
  rw [exec_bind]
  cases h : exec m s with
  | mk r t =>
    rw [h] at hrun
    cases r <;> exact hrun

/-- A step that defines no name. -/
theorem of_keeps {m : Render α} (h : Keeps [] m) : Traced m .still := by
  apply still
  intro s
  obtain ⟨new, hnew, hcontext⟩ := h s
  cases new with
  | nil => exact hcontext
  | cons e new => exact absurd (hnew e List.mem_cons_self) List.not_mem_nil

theorem onTest {m k : Render α} {yes no : Trace} (hm : Traced m yes) (hk : Traced k no)
    (t : Expression) :
    Traced (test t >>= fun b => if b then m else k)
      (.andThen .still (test t) fun b => if b then yes else no) := by
  refine (of_keeps (.test t)).bind fun b => ?_
  cases b
  · exact hk
  · exact hm

theorem withScope {m : Render α} {trace : Trace} (hm : Traced m trace) (scope : Scope) :
    Traced (Render.withScope scope m) (.under scope trace) := by
  intro s
  rw [exec_withScope]
  exact (hm (s.under scope)).under

theorem bind_name (name : String) (e : Expression) :
    Traced (Render.bind name e) (.define name e) := by
  intro s
  rw [exec_bind_name, Trace.define]
  cases e.value s.context with
  | error err => exact .nil s.context
  | ok v => exact .define s.context name v

variable {body : Render Texts} {inner : Trace}

theorem eachEntry (hbody : Traced body inner) (spec : Loop) (es : List (Value × Value)) :
    Traced (Render.eachEntry spec body es) (.eachEntry spec body inner es) := by
  induction es with
  | nil => exact still fun _ => rfl
  | cons e es ih => exact (hbody.withScope _).bind fun _ => ih.map _

theorem loop (hbody : Traced body inner) (spec : Loop) :
    Traced (Render.loop spec body) (.loop spec body inner) := by
  rw [loop_eq]
  have hentries : Traced (entries spec.collection) .still :=
    still fun s => congrArg RenderState.context (exec_entries_state _ s)
  exact hentries.bind fun es => (hbody.eachEntry spec es).map _

end Traced

end Render

namespace Fragment

open Render

theorem traced_renderChoice {o : Options} {otherwise : Render Texts} {trace : Trace}
    {branches : List (Expression × Fragment)} (hotherwise : Traced otherwise trace)
    (hbranches : ∀ b ∈ branches, Traced (b.2.render o) (b.2.trace o)) :
    Traced (renderChoice o otherwise branches) (traceChoice o trace branches) := by
  induction branches with
  | nil => exact hotherwise
  | cons b branches ih =>
    obtain ⟨hfirst, hbranches⟩ := List.forall_mem_cons.1 hbranches
    exact hfirst.onTest (ih hbranches) b.1

theorem traced_renderAll {o : Options} {items : List Fragment}
    (hitems : ∀ f ∈ items, Traced (f.render o) (f.trace o)) :
    Traced (renderAll o items) (traceAll o items) := by
  induction items with
  | nil => exact .still fun _ => rfl
  | cons f items ih =>
    obtain ⟨hfirst, hitems⟩ := List.forall_mem_cons.1 hitems
    exact hfirst.bind fun t => (ih hitems).map (t ++ ·)

theorem traced_render (f : Fragment) (o : Options) : Traced (f.render o) (f.trace o) := by
  induction f using Fragment.induction with
  | step f ih =>
    cases f with
    | text s => exact .still fun _ => rfl
    | placeholder p => exact .of_keeps (.leaf o rfl nofun)
    | raw p => exact .of_keeps (.leaf o rfl nofun)
    | bind name e => exact .bind_name name e
    | conditional t body => exact (ih body List.mem_cons_self).onTest (.still fun _ => rfl) t
    | choose branches otherwise =>
      rw [render, trace]
      apply traced_renderChoice
      · cases otherwise with
        | none => exact .still fun _ => rfl
        | some g => exact ih g (List.mem_append_right _ List.mem_cons_self)
      · intro b hb
        exact ih b.2 (List.mem_append_left _ (List.mem_map_of_mem hb))
    | loop spec body => exact (ih body List.mem_cons_self).loop spec
    | trim spec body => exact (ih body List.mem_cons_self).map _
    | seq items => exact traced_renderAll ih

end Fragment

namespace Context

namespace Operation

mutual

/-- The events of an operation on a context. Looking up a name is none. -/
def events : Operation → Context → List ScopeEvent
  | push scope, _ => [.push scope]
  | pop, _ => [.pop]
  | define name value, _ => [.define name value]
  | resolve _, _ => []
  | render f o, c => f.trace o ⟨c, #[]⟩
  | withScope scope inner, c => .enter scope :: (eventsAll inner (c.push scope) ++ [.leave])

def eventsAll : List Operation → Context → List ScopeEvent
  | [], _ => []
  | op :: ops, c => op.events c ++ eventsAll ops (op.run c).2

end

mutual

theorem run_follows (op : Operation) (c : Context) :
    ScopesFollow (op.events c) c (op.run c).2 := by
  cases op with
  | push scope => exact .push c scope
  | pop => exact .pop c
  | define name value => exact .define c name value
  | resolve p => exact .nil c
  | render f o => exact f.traced_render o ⟨c, #[]⟩
  | withScope scope inner => exact (runAll_follows inner (c.push scope)).under

theorem runAll_follows (ops : List Operation) (c : Context) :
    ScopesFollow (eventsAll ops c) c (runAll ops c).2 := by
  cases ops with
  | nil => exact .nil c
  | cons op ops => exact (run_follows op c).append (runAll_follows ops (op.run c).2)

end

mutual

/-- A context that an operation goes through is reached by the first events of the operation. -/
theorem moments_reached (op : Operation) {c d : Context} (hd : d ∈ op.moments c) :
    ∃ before, before <+: op.events c ∧ ScopesReach before c d := by
  cases op with
  | withScope scope inner =>
    rw [moments, List.mem_append, List.mem_cons, List.mem_singleton] at hd
    rcases hd with (rfl | hinside) | rfl
    · exact ⟨[.enter scope], ⟨_, rfl⟩, .enter c scope⟩
    · obtain ⟨before, hstart, hreach⟩ := momentsOf_reached inner hinside
      refine ⟨.enter scope :: before, ?_, (ScopesReach.enter c scope).append hreach⟩
      exact (List.prefix_cons_inj _).2 (hstart.trans (List.prefix_append _ _))
    · exact ⟨_, List.prefix_rfl, (run_follows (withScope scope inner) c).reach⟩
  | _ =>
    rw [List.mem_singleton.1 hd]
    exact ⟨_, List.prefix_rfl, (run_follows _ c).reach⟩

theorem momentsOf_reached (ops : List Operation) {c d : Context} (hd : d ∈ momentsOf ops c) :
    ∃ before, before <+: eventsAll ops c ∧ ScopesReach before c d := by
  cases ops with
  | nil => cases hd
  | cons op ops =>
    rcases List.mem_append.1 hd with hfirst | hrest
    · obtain ⟨before, hstart, hreach⟩ := moments_reached op hfirst
      exact ⟨before, hstart.trans (List.prefix_append _ _), hreach⟩
    · obtain ⟨before, hstart, hreach⟩ := momentsOf_reached ops hrest
      exact ⟨op.events c ++ before, (List.prefix_append_right_inj _).2 hstart,
        (run_follows op c).reach.append hreach⟩

end

end Operation

open Operation

/-- A moment of a run: the stack behind these events, and the context with these scopes. -/
structure Moment (root : Value) (events : List ScopeEvent) (m : ScopeStack) (c : Context) :
    Prop where
  reached : run? .new events = some m
  root : c.root = root
  stack : c.stack = m.scopes
  depth : c.depth = m.scopes.length ∧ 1 ≤ c.depth
  pop : ScopeStack.pop? m.scopes = none ↔ c.depth = 1
  popped : ScopeStack.pop? m.scopes = c.pop?.map fun (scope, outer) => (scope, outer.stack)
  define : ∀ name value, ∃ m', m.step? (.define name value) = some m'
  bound : ∀ name, c.bound.get? name = ScopeEvent.lastDefined? name events
  resolve : ∀ name value, ScopeEvent.lastDefined? name events = some value →
    (∀ scope ∈ c.scopes, scope.get? name = none) →
      ∀ p : Path, p.head = name → c.resolve p = p.rest.foldlM (step p) value

theorem moment_of_run {root : Value} {events : List ScopeEvent} {m : ScopeStack} {c : Context}
    (hrun : run? .new events = some m) (hroot : c.root = root) (hstack : c.stack = m.scopes) :
    Moment root events m c := by
  obtain ⟨scopes, depths, rfl⟩ := run?_cons (List.forall_mem_nil _) hrun
  have hbound : c.bound = events.foldl ScopeEvent.boundAfter [] := (List.cons.inj hstack).1
  have hget (name : String) : c.bound.get? name = ScopeEvent.lastDefined? name events := by
    rw [hbound, ScopeEvent.get?_foldl_boundAfter]
    exact Option.or_none
  refine ⟨hrun, hroot, hstack, ?_, ?_, ?_, fun _ _ => ⟨_, rfl⟩, hget, ?_⟩
  · rw [← hstack, length_stack]
    exact ⟨rfl, Nat.succ_pos _⟩
  · rw [pop?_eq_none_iff, ← length_stack, hstack]
  · rw [← hstack, pop?_stack]
  · intro name value hlast hscopes p hp
    have hlookup : c.lookup? p.head = some value := by
      rw [lookup?, hp, List.findSome?_eq_none_iff.2 hscopes, hget, hlast]
      rfl
    rw [Context.resolve, hlookup]

theorem exists_moment (root : Value) {events : List ScopeEvent} {m : ScopeStack}
    (hrun : run? .new events = some m) : ∃ c, Moment root events m c := by
  obtain ⟨scopes, depths, rfl⟩ := run?_cons (List.forall_mem_nil _) hrun
  refine ⟨⟨root, events.foldl ScopeEvent.boundAfter [], scopes.reverse⟩,
    moment_of_run hrun rfl ?_⟩
  rw [stack, List.reverse_reverse]

/-- At every moment of every run on a new context, inside of renderings and temporary scopes too, the
stack has the scope of bound names and no event finds it missing. A name that was defined has its
last value there, and is looked up with it where no scope above has the name, whatever the root has
for it. The last moment is that of the context that the run leaves, and each context that the run
goes through on the way, in a temporary scope too, has its moment. -/
theorem runAll_moments (root : Value) (ops : List Operation) :
    let events := eventsAll ops (ofRoot root)
    (∃ m, Moment root events m (runAll ops (ofRoot root)).2) ∧
      (∀ n, ∃ m c, Moment root (events.take n) m c) ∧
      ∀ c ∈ momentsOf ops (ofRoot root), ∃ n m, Moment root (events.take n) m c := by
  intro events
  have hfollows := runAll_follows ops (ofRoot root)
  have hrun : run? .new events = some ⟨(runAll ops (ofRoot root)).2.stack, []⟩ := hfollows.run []
  refine ⟨⟨_, moment_of_run hrun hfollows.root rfl⟩, fun n => ?_, fun c hc => ?_⟩
  · rw [← List.take_append_drop n events, run?_append] at hrun
    obtain ⟨m, hm, _⟩ := Option.bind_eq_some_iff.1 hrun
    exact ⟨m, exists_moment root hm⟩
  · obtain ⟨before, hstart, hreach⟩ := momentsOf_reached ops hc
    obtain ⟨depths, hbefore⟩ := hreach.run []
    refine ⟨before.length, ⟨c.stack, depths⟩, ?_⟩
    rw [← List.prefix_iff_eq_take.1 hstart]
    exact moment_of_run hbefore hreach.root rfl

/-- One scope too many is taken off, and a rendering fails behind a binding. -/
theorem runAll_moments_failed :
    let root : Value := .map [("n", .number (.int 5)), ("rows", .list [.text "a", .text "b"])]
    let f : Fragment := .loop { collection := .single "rows", item := "row" }
      (.seq [.bind "n" ⟨"row", .path (.single "row")⟩, .placeholder (.single "missing")])
    let ops : List Operation :=
      [.define "n" (.number (.int 1)),
        .withScope [("n", .null)] [.pop, .pop, .push [("n", .bool true)]],
        .render f ⟨.mySql, .doubled⟩]
    let last := (runAll ops (ofRoot root)).2
    ScopeEvent.lastDefined? "n" ((eventsAll ops (ofRoot root)).take 6) = some (.number (.int 1)) ∧
      last.depth = 1 ∧ last.resolve (.single "n") = .ok (.text "a") := by
  intro root f ops last
  obtain ⟨⟨m, h⟩, -⟩ := runAll_moments root ops
  have hlast : ScopeEvent.lastDefined? "n" (eventsAll ops (ofRoot root)) = some (.text "a") := by
    rfl
  have hscopes : last.scopes = [] := by
    rfl
  refine ⟨rfl, congrArg (·.length + 1) hscopes, ?_⟩
  refine h.resolve "n" _ hlast ?_ (.single "n") rfl
  rw [hscopes]
  exact List.forall_mem_nil _

end Context

end DynamicSql

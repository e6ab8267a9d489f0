import DynamicSql.Parameter.Context
import Mathlib.Data.List.Forall2

/-!
Contexts in which the same names stand for related values, and among them those with values of one
shape. These differ in their scalars only, so a path that leads somewhere under the one root value
leads to a value of the same shape under the other (`Paired.resolve_sameShape`).
-/

namespace DynamicSql

namespace Value

/-- Any scalar is like any other; lists and maps are alike part by part, under the same keys. -/
inductive SameShape : Value → Value → Prop where
  | scalar {a b : Value} (ha : a.isScalar = true) (hb : b.isScalar = true) : SameShape a b
  | list {xs ys : List Value} (h : List.Forall₂ SameShape xs ys) : SameShape (.list xs) (.list ys)
  | map {es fs : Entries Value} (hkeys : es.keys = fs.keys)
      (hvalues : List.Forall₂ SameShape (es.map Prod.snd) (fs.map Prod.snd)) :
      SameShape (.map es) (.map fs)

end Value

open Value

/-- Entries whose values are related one by one, under the same keys. -/
theorem Entries.rel_get? {Q : Value → Value → Prop} {es fs : Entries Value}
    (hkeys : es.keys = fs.keys)
    (hvalues : List.Forall₂ Q (es.map Prod.snd) (fs.map Prod.snd)) (name : String) :
    Option.Rel Q (es.get? name) (fs.get? name) := by
  induction es generalizing fs with
  | nil =>
    cases fs with
    | nil => exact .none
    | cons f fs => contradiction
  | cons e es ih =>
    cases fs with
    | nil => contradiction
    | cons f fs =>
      obtain ⟨hkey, hkeys⟩ := List.cons_eq_cons.1 hkeys
      obtain ⟨hvalue, hvalues⟩ := List.forall₂_cons.1 hvalues
      rw [get?, get?, hkey]
      split
      · exact .some hvalue
      · exact ih hkeys hvalues

theorem rel_or {α β : Type} {Q : α → β → Prop} {x x' : Option α} {y y' : Option β}
    (h : Option.Rel Q x y) (h' : Option.Rel Q x' y') : Option.Rel Q (x.or x') (y.or y') := by
  cases h with
  | some h => exact .some h
  | none => exact h'

/-- Two values that are related, or two errors. -/
inductive BothOrNeither {ε α β : Type} (Q : α → β → Prop) : Except ε α → Except ε β → Prop
  | error (e e' : ε) : BothOrNeither Q (.error e) (.error e')
  | ok {a : α} {b : β} (h : Q a b) : BothOrNeither Q (.ok a) (.ok b)

namespace Context

/-- Whatever a name stands for in one scope, it stands for something related in the other. -/
def ScopesRelated (Q : Value → Value → Prop) (s s' : Scope) : Prop :=
  ∀ name, Option.Rel Q (s.get? name) (s'.get? name)

/-- The same names stand for related values, scope by scope. -/
structure Paired (Q : Value → Value → Prop) (c c' : Context) : Prop where
  root : ∀ name, Option.Rel Q (ofRootName? c.root name) (ofRootName? c'.root name)
  bound : ScopesRelated Q c.bound c'.bound
  scopes : List.Forall₂ (ScopesRelated Q) c.scopes c'.scopes

variable {Q : Value → Value → Prop} {c c' : Context}

theorem rel_findSome? {ss ss' : List Scope}
    (h : List.Forall₂ (ScopesRelated Q) ss ss') (name : String) :
    Option.Rel Q (ss.findSome? (Entries.get? · name)) (ss'.findSome? (Entries.get? · name)) := by
  induction h with
  | nil => exact .none
  | @cons s s' ss ss' hs _ ih =>
    have hname := hs name
    rw [List.findSome?_cons, List.findSome?_cons]
    generalize s.get? name = x, s'.get? name = y at hname
    cases hname with
    | some h => exact .some h
    | none => exact ih

theorem Paired.lookup? (h : Paired Q c c') (name : String) :
    Option.Rel Q (c.lookup? name) (c'.lookup? name) :=
  rel_or (rel_findSome? h.scopes name) (rel_or (h.bound name) (h.root name))

/-! Values of one shape -/

theorem ofRootName?_sameShape {a b : Value} (h : SameShape a b) (name : String) :
    Option.Rel SameShape (ofRootName? a name) (ofRootName? b name) := by
  have hroot : Option.Rel SameShape (if name = rootName then some a else none)
      (if name = rootName then some b else none) := by
    split
    · exact .some h
    · exact .none
  cases h with
  | scalar ha hb =>
    cases a <;> cases b <;> first | exact hroot | contradiction
  | list h => exact hroot
  | map hkeys hvalues => exact rel_or (Entries.rel_get? hkeys hvalues name) hroot

theorem paired_ofRoot {a b : Value} (h : SameShape a b) :
    Paired SameShape (.ofRoot a) (.ofRoot b) :=
  ⟨ofRootName?_sameShape h, fun _ => .none, .nil⟩

theorem step_of_scalar (p : Path) {v : Value} (hv : v.isScalar = true) (s : Segment) :
    ∃ e, step p v s = .error e := by
  cases v <;> first | exact ⟨_, rfl⟩ | contradiction

theorem rel_getElem? {xs ys : List Value} (h : List.Forall₂ Q xs ys) (i : Nat) :
    Option.Rel Q xs[i]? ys[i]? := by
  induction h generalizing i with
  | nil => exact .none
  | cons h _ ih =>
    cases i with
    | zero => exact .some h
    | succ i => exact ih i

theorem step_index (p : Path) (items : List Value) (i : Nat) :
    step p (.list items) (.index i) = items[i]?.elim (.error (.notFound p.source)) .ok := by
  cases h : items[i]? <;> simp [step, h]

theorem step_key (p : Path) (es : Entries Value) (k : String) :
    step p (.map es) (.key k) = (Entries.get? es k).elim (.error (.notFound p.source)) .ok := by
  cases h : Entries.get? es k <;> simp [step, h]

theorem found_sameShape (e : ResolveError) {x y : Option Value} (h : Option.Rel SameShape x y) :
    BothOrNeither SameShape (x.elim (.error e) Except.ok) (y.elim (.error e) Except.ok) := by
  cases h with
  | some h => exact .ok h
  | none => exact .error e e

theorem step_sameShape (p : Path) {v w : Value} (h : SameShape v w) (s : Segment) :
    BothOrNeither SameShape (step p v s) (step p w s) := by
  cases h with
  | scalar hv hw =>
    obtain ⟨e, he⟩ := step_of_scalar p hv s
    obtain ⟨e', he'⟩ := step_of_scalar p hw s
    rw [he, he']
    exact .error e e'
  | list h =>
    cases s with
    | key k => exact .error _ _
    | index i =>
      rw [step_index, step_index]
      exact found_sameShape _ (rel_getElem? h i)
  | map hkeys hvalues =>
    cases s with
    | index i => exact .error _ _
    | key k =>
      rw [step_key, step_key]
      exact found_sameShape _ (Entries.rel_get? hkeys hvalues k)

theorem foldlM_sameShape (p : Path) (rest : List Segment) {v w : Value} (h : SameShape v w) :
    BothOrNeither SameShape (rest.foldlM (step p) v) (rest.foldlM (step p) w) := by
  induction rest generalizing v w with
  | nil => exact .ok h
  | cons s rest ih =>
    have hstep := step_sameShape p h s
    rw [List.foldlM_cons, List.foldlM_cons]
    generalize step p v s = x, step p w s = y at hstep
    cases hstep with
    | error e e' => exact .error e e'
    | ok h => exact ih h

/-- A path leads to values of one shape, or nowhere in either context. -/
theorem Paired.resolve_sameShape (h : Paired SameShape c c') (p : Path) :
    BothOrNeither SameShape (c.resolve p) (c'.resolve p) := by
  have hhead := h.lookup? p.head
  unfold Context.resolve
  generalize c.lookup? p.head = x, c'.lookup? p.head = y at hhead
  cases hhead with
  | none => exact .error _ _
  | some hvalue => exact foldlM_sameShape p p.rest hvalue

end Context

end DynamicSql

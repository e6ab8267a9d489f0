import DynamicSql.Expression.Evaluation
import DynamicSql.Proofs.Effects

/-!
Tests for equality that bear missing parameters. A path that leads nowhere is null as an operand, and
null can be compared with any value for equality, so that such tests, put together by `not`, `and` and
`or`, give an answer in every context (`test_of_nullSafe`). What remains is a path into a value that
has no parts.
-/

namespace DynamicSql

namespace Node

/-- An operand that is not put together from others. -/
inductive IsSimple : Node → Prop
  | literal (v : Value) : IsSimple (.literal v)
  | path (p : Path) : IsSimple (.path p)

/-- Literals and paths are only compared for equality. -/
inductive NullSafe : Node → Prop
  | equality {op : Comparison} (hop : op = .eq ∨ op = .ne) {l r : Node} (hl : IsSimple l)
      (hr : IsSimple r) : NullSafe (.compare op l r)
  | not {e : Node} (h : NullSafe e) : NullSafe (.not e)
  | and {l r : Node} (hl : NullSafe l) (hr : NullSafe r) : NullSafe (.and l r)
  | or {l r : Node} (hl : NullSafe l) (hr : NullSafe r) : NullSafe (.or l r)

/-- The second node is the first one with null in the place of some paths that lead nowhere. -/
inductive NullsMissing (c : Context) : Node → Node → Prop
  | refl (e : Node) : NullsMissing c e e
  | path {p : Path} {q : String} (h : c.resolve p = .error (.notFound q)) :
      NullsMissing c (.path p) (.literal .null)
  | not {e e' : Node} (h : NullsMissing c e e') : NullsMissing c (.not e) (.not e')
  | and {l l' r r' : Node} (hl : NullsMissing c l l') (hr : NullsMissing c r r') :
      NullsMissing c (.and l r) (.and l' r')
  | or {l l' r r' : Node} (hl : NullsMissing c l l') (hr : NullsMissing c r r') :
      NullsMissing c (.or l r) (.or l' r')
  | compare (op : Comparison) {l l' r r' : Node} (hl : NullsMissing c l l')
      (hr : NullsMissing c r r') : NullsMissing c (.compare op l r) (.compare op l' r')

/-- There is a result, or a path goes on into a value without parts. -/
inductive BearsMissing {α : Type} : Except EvalError α → Prop
  | ok (a : α) : BearsMissing (.ok a)
  | typeMismatch (path : String) (found : Kind) :
      BearsMissing (.error (.resolve (.typeMismatch path found)))

namespace BearsMissing

variable {α β : Type}

theorem bind {x : Except EvalError α} {f : α → Except EvalError β} (hx : BearsMissing x)
    (hf : ∀ a, BearsMissing (f a)) : BearsMissing (x >>= f) := by
  cases hx with
  | ok a => exact hf a
  | typeMismatch path found => exact .typeMismatch path found

theorem resolveOrNull (c : Context) (p : Path) : BearsMissing (c.resolveOrNull p) := by
  unfold Context.resolveOrNull
  cases c.resolve p with
  | ok v => exact .ok v
  | error e =>
    cases e with
    | notFound q => exact .ok Value.null
    | typeMismatch path found => exact .typeMismatch path found

theorem operand {e : Node} (h : IsSimple e) (c : Context) : BearsMissing (e.operand c) := by
  cases h with
  | literal v => exact .ok v
  | path p => exact resolveOrNull c p

end BearsMissing

variable {c : Context} {e e' : Node}

theorem NullSafe.bearsMissing (h : NullSafe e) (c : Context) : BearsMissing (e.test c) := by
  induction h with
  | equality hop hl hr =>
    apply (BearsMissing.operand hl c).bind
    intro v
    apply (BearsMissing.operand hr c).bind
    intro w
    rcases hop with rfl | rfl
    · exact .ok _
    · exact .ok _
  | not _ ih =>
    rw [test, map_eq_bind]
    exact ih.bind fun b => .ok _
  | and _ _ ihl ihr =>
    apply ihl.bind
    intro b
    split
    · exact ihr
    · exact .ok _
  | or _ _ ihl ihr =>
    apply ihl.bind
    intro b
    split
    · exact .ok _
    · exact ihr

theorem NullsMissing.operand_eq (h : NullsMissing c e e') (hsimple : IsSimple e) :
    e'.operand c = e.operand c := by
  cases h with
  | refl e => rfl
  | path hmissing => rw [operand, operand, Context.resolveOrNull, hmissing]
  | _ => cases hsimple

theorem NullsMissing.test_eq (h : NullsMissing c e e') (hsafe : NullSafe e) :
    e'.test c = e.test c := by
  induction h with
  | refl e => rfl
  | path _ => cases hsafe
  | not _ ih =>
    cases hsafe with
    | not hsafe => rw [test, test, ih hsafe]
  | and _ _ ihl ihr =>
    cases hsafe with
    | and hl hr => rw [test, test, ihl hl, ihr hr]
  | or _ _ ihl ihr =>
    cases hsafe with
    | or hl hr => rw [test, test, ihl hl, ihr hr]
  | compare op hl hr _ _ =>
    cases hsafe with
    | equality hop hl' hr' => rw [test, test, hl.operand_eq hl', hr.operand_eq hr']

end Node

namespace Expression

open Node

/-- A test for equality of literals and paths, under `not`, `and` and `or` at any depth, has a result
in every context, or else a path in it goes on into a value without parts. Written with null for paths
that lead nowhere it gives the same. -/
theorem test_of_nullSafe {x : Expression} (h : NullSafe x.root) (c : Context) :
    ((∃ b, x.test c = .ok b) ∨ ∃ p k, x.test c = .error (.resolve (.typeMismatch p k))) ∧
      ∀ y : Expression, NullsMissing c x.root y.root → y.test c = x.test c := by
  refine ⟨?_, fun y hy => hy.test_eq h⟩
  have hbears := h.bearsMissing c
  unfold Expression.test
  generalize x.root.test c = result at hbears
  cases hbears with
  | ok b => exact .inl ⟨b, rfl⟩
  | typeMismatch p k => exact .inr ⟨p, k, rfl⟩

/-- A key of null and a name that is nowhere, both written as null. -/
theorem test_of_nullSafe_missing :
    let c := Context.ofRoot (.map [("m", .null)])
    let x : Expression := ⟨"m.a == null and not (x == 1)",
      .and (.compare .eq (.path ⟨"m.a", "m", [.key "a"]⟩) (.literal .null))
        (.not (.compare .eq (.path (.single "x")) (.literal (.number (.int 1)))))⟩
    let y : Expression := ⟨"null == null and not (null == 1)",
      .and (.compare .eq (.literal .null) (.literal .null))
        (.not (.compare .eq (.literal .null) (.literal (.number (.int 1)))))⟩
    NullSafe x.root ∧ NullsMissing c x.root y.root ∧ x.test c = .ok true ∧ y.test c = x.test c := by
  intro c x y
  have hsafe : NullSafe x.root :=
    .and (.equality (.inl rfl) (.path _) (.literal _))
      (.not (.equality (.inl rfl) (.path _) (.literal _)))
  have hnulls : NullsMissing c x.root y.root :=
    .and (.compare _ (.path rfl) (.refl _)) (.not (.compare _ (.path rfl) (.refl _)))
  exact ⟨hsafe, hnulls, rfl, (test_of_nullSafe hsafe c).2 y hnulls⟩

end Expression

end DynamicSql

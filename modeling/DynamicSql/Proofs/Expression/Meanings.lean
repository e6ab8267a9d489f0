import DynamicSql.Expression.Evaluation

/-!
The three meanings of a node under a context. Its value is the first of them: as a test the node is
true where its value is, and as an operand it is its value, but null where it is a path that leads
nowhere (`meanings_agree`). The evaluators call each other on the nodes below, each for the meaning
that it needs there, so that every shape of node has to be looked at.
-/

namespace DynamicSql.Node

variable {c : Context}

theorem map_bool_isTruthy (x : Except EvalError Bool) :
    (x.map Value.bool).map Value.isTruthy = x := by
  cases x <;> rfl

theorem test_eq_map_value (e : Node) (c : Context) :
    e.test c = (e.value c).map Value.isTruthy := by
  cases e with
  | literal v => rfl
  | path p => rfl
  | concat parts =>
    rw [test, value]
    cases joined c parts <;> rfl
  | _ => exact (map_bool_isTruthy _).symm

theorem operand_missing {p : Path} {q : String}
    (h : (path p).value c = .error (.resolve (.notFound q))) : (path p).operand c = .ok .null := by
  simp only [value, Context.resolveStrict] at h
  rw [operand, Context.resolveOrNull]
  split at h
  · cases h
  · next e he =>
    cases h
    rw [he]

/-- Only a path that leads nowhere is one thing as an operand and another as a whole. -/
theorem operand_eq_value {e : Node}
    (h : ∀ p q, e = .path p → e.value c ≠ .error (.resolve (.notFound q))) :
    e.operand c = e.value c := by
  cases e with
  | literal v => rfl
  | path p =>
    have hp (q : String) : c.resolveStrict p ≠ .error (.resolve (.notFound q)) := h p q rfl
    rw [operand, value, Context.resolveOrNull]
    unfold Context.resolveStrict at hp ⊢
    cases hr : c.resolve p with
    | ok v => rfl
    | error e =>
      cases e with
      | notFound q => exact absurd (by rw [hr]) (hp q)
      | typeMismatch q found => rfl
  | not e =>
    change (e.test c).map _ = ((e.test c).map _).map _
    cases e.test c <;> rfl
  | and l r => rfl
  | or l r => rfl
  | compare op l r => rfl
  | concat parts => rfl

/-- The nodes that take one of their nodes as an operand. -/
inductive OperandPlace : (Node → Node) → Prop
  | left (op : Comparison) (r : Node) : OperandPlace fun e => .compare op e r
  | right (op : Comparison) (l : Node) : OperandPlace fun e => .compare op l e
  | part (before after : List Node) : OperandPlace fun e => .concat (before ++ e :: after)

theorem joined_congr_part {e e' : Node} (h : e.operand c = e'.operand c)
    (before after : List Node) :
    joined c (before ++ e :: after) = joined c (before ++ e' :: after) := by
  induction before with
  | nil => rw [List.nil_append, List.nil_append, joined, joined, h]
  | cons d before ih => rw [List.cons_append, List.cons_append, joined, joined, ih]

theorem OperandPlace.value_congr {place : Node → Node} (hplace : OperandPlace place) {e e' : Node}
    (h : e.operand c = e'.operand c) : (place e).value c = (place e').value c := by
  cases hplace with
  | left op r => exact congrArg (fun x => (comparison op x (r.operand c)).map Value.bool) h
  | right op l => exact congrArg (fun x => (comparison op (l.operand c) x).map Value.bool) h
  | part before after => rw [value, value, joined_congr_part h]

/-- A node that has a value is true as a test if that value is, and as an operand it is that value:
a comparison or concatenation with it means the same as one with the value as a literal. A node that
has none fails with the same error as a test, and as an operand too, but for a path that leads
nowhere, which is null there. -/
theorem meanings_agree (e : Node) (c : Context) :
    (∀ v, e.value c = .ok v →
      e.test c = .ok v.isTruthy ∧ e.operand c = .ok v ∧
        ∀ place, OperandPlace place → (place e).value c = (place (.literal v)).value c) ∧
    ∀ err, e.value c = .error err →
      e.test c = .error err ∧
        ((∀ p q, e = .path p → err ≠ .resolve (.notFound q)) → e.operand c = .error err) ∧
        ∀ p q, e = .path p → err = .resolve (.notFound q) →
          e.operand c = .ok .null ∧
            ∀ place, OperandPlace place → (place e).value c = (place (.literal .null)).value c := by
  constructor
  · intro v hv
    have hoperand : e.operand c = .ok v := by
      rw [← hv]
      exact operand_eq_value fun p q _ h => nomatch hv.symm.trans h
    refine ⟨?_, hoperand, fun place hplace => hplace.value_congr hoperand⟩
    rw [test_eq_map_value, hv]
    rfl
  · intro err herr
    refine ⟨?_, ?_, ?_⟩
    · rw [test_eq_map_value, herr]
      rfl
    · intro hfound
      rw [← herr]
      exact operand_eq_value fun p q hp h => hfound p q hp (Except.error.inj (herr.symm.trans h))
    · rintro p q rfl rfl
      have hoperand := operand_missing herr
      exact ⟨hoperand, fun place hplace => hplace.value_congr hoperand⟩

/-- A name that is nowhere: an error as a whole and as a test, and null in a comparison. -/
theorem meanings_agree_missing :
    let c := Context.ofRoot .emptyMap
    let e : Node := .path (.single "x")
    let missing : EvalError := .resolve (.notFound "x")
    e.value c = .error missing ∧ e.test c = .error missing ∧
      (compare .eq e (.literal .null)).value c =
        (compare .eq (.literal .null) (.literal .null)).value c := by
  intro c e missing
  have h := (meanings_agree e c).2 missing rfl
  exact ⟨rfl, h.1, (h.2.2 _ "x" rfl rfl).2 _ (.left .eq (.literal .null))⟩

end DynamicSql.Node

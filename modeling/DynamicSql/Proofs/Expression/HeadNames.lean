import DynamicSql.Expression.Evaluation

/-!
The names an expression looks up: the first names of its paths. Contexts that find the same under
all of these names give the expression the same meaning, as a test, as an operand and as a whole.
-/

namespace DynamicSql

namespace Context

variable {c c' : Context}

theorem resolve_congr {p : Path} (h : c.lookup? p.head = c'.lookup? p.head) :
    c.resolve p = c'.resolve p := by
  rw [resolve, resolve, h]

theorem resolveStrict_congr {p : Path} (h : c.lookup? p.head = c'.lookup? p.head) :
    c.resolveStrict p = c'.resolveStrict p := by
  rw [resolveStrict, resolveStrict, resolve_congr h]

theorem resolveOrNull_congr {p : Path} (h : c.lookup? p.head = c'.lookup? p.head) :
    c.resolveOrNull p = c'.resolveOrNull p := by
  rw [resolveOrNull, resolveOrNull, resolve_congr h]

end Context

namespace Node

mutual

def heads : Node → List String
  | .literal _ => []
  | .path p => [p.head]
  | .not e => e.heads
  | .and l r | .or l r | .compare _ l r => l.heads ++ r.heads
  | .concat parts => headsOf parts

def headsOf : List Node → List String
  | [] => []
  | e :: es => e.heads ++ headsOf es

end

variable {c c' : Context}

mutual

theorem meaning_congr (e : Node) (h : ∀ name ∈ e.heads, c.lookup? name = c'.lookup? name) :
    e.test c = e.test c' ∧ e.operand c = e.operand c' := by
  cases e with
  | literal v => exact ⟨rfl, rfl⟩
  | path p =>
    have hp := h p.head List.mem_cons_self
    rw [test, test, operand, operand, Context.resolveStrict_congr hp,
      Context.resolveOrNull_congr hp]
    exact ⟨rfl, rfl⟩
  | not e =>
    have he := meaning_congr e h
    rw [test, test, operand, operand, he.1]
    exact ⟨rfl, rfl⟩
  | and l r =>
    have hl := meaning_congr l fun name hn => h name (List.mem_append_left _ hn)
    have hr := meaning_congr r fun name hn => h name (List.mem_append_right _ hn)
    rw [test, test, operand, operand, hl.1, hr.1]
    exact ⟨rfl, rfl⟩
  | or l r =>
    have hl := meaning_congr l fun name hn => h name (List.mem_append_left _ hn)
    have hr := meaning_congr r fun name hn => h name (List.mem_append_right _ hn)
    rw [test, test, operand, operand, hl.1, hr.1]
    exact ⟨rfl, rfl⟩
  | compare op l r =>
    have hl := meaning_congr l fun name hn => h name (List.mem_append_left _ hn)
    have hr := meaning_congr r fun name hn => h name (List.mem_append_right _ hn)
    rw [test, test, operand, operand, hl.2, hr.2]
    exact ⟨rfl, rfl⟩
  | concat parts =>
    have hparts := joined_congr parts h
    rw [test, test, operand, operand, hparts]
    exact ⟨rfl, rfl⟩

theorem joined_congr (es : List Node)
    (h : ∀ name ∈ headsOf es, c.lookup? name = c'.lookup? name) :
    joined c es = joined c' es := by
  cases es with
  | nil => rfl
  | cons e es =>
    have he := meaning_congr e fun name hn => h name (List.mem_append_left _ hn)
    have hes := joined_congr es fun name hn => h name (List.mem_append_right _ hn)
    rw [joined, joined, he.2, hes]

end

theorem value_congr (e : Node) (h : ∀ name ∈ e.heads, c.lookup? name = c'.lookup? name) :
    e.value c = e.value c' := by
  have he := (meaning_congr e h).1
  cases e with
  | literal v => rfl
  | path p => exact Context.resolveStrict_congr (h p.head List.mem_cons_self)
  | concat parts => rw [value, value, joined_congr parts h]
  | _ => exact congrArg (Except.map Value.bool) he

end Node

end DynamicSql

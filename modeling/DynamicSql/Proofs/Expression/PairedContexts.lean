import DynamicSql.Proofs.Parameter.IntegerKinds
import DynamicSql.Proofs.Template.TwoRuns

/-!
Expressions in two contexts that hold values of different kinds of integers under the same names. An
expression has the same result in both, or fails alike, where the pairs of values that it can meet
in the two contexts do not come apart under equality (`meaning_paired`).
-/

namespace DynamicSql

namespace Value

/-- Pairs of values that differ in kinds of integers only. Every scalar makes a pair with itself,
and the parts of a pair of collections are pairs too. -/
structure Pairing (Q : Value → Value → Prop) : Prop where
  twins : ∀ {v w}, Q v w → v.Twins w
  scalar : ∀ {v}, v.isScalar = true → Q v v
  list : ∀ {xs ys}, Q (.list xs) (.list ys) → List.Forall₂ Q xs ys
  map : ∀ {es fs}, Q (.map es) (.map fs) → List.Forall₂ Q (es.map Prod.snd) (fs.map Prod.snd)

/-- Two pairs are equal on the one side exactly if they are on the other. -/
def KeepsEquality (Q : Value → Value → Prop) : Prop :=
  ∀ v v' w w', Q v v' → Q w w' → v.equals w = v'.equals w'

theorem pairing_twins : Pairing Twins where
  twins := id
  scalar _ := .refl _
  list := Twins.of_list
  map h := h.of_map.2

end Value

open Value

variable {Q : Value → Value → Prop}

namespace Context

variable {c c' : Context} {v w : Value}

theorem found_agree (e : ResolveError) {x y : Option Value} (h : Option.Rel Q x y) :
    Agree Q (x.elim (.error e) Except.ok) (y.elim (.error e) Except.ok) := by
  cases h with
  | some h => exact .ok h
  | none => exact .error e

theorem step_of_twins (p : Path) (h : v.Twins w) (hv : v.isScalar = true) (s : Segment) :
    step p v s = step p w s := by
  rcases h.number_of_scalar hv with rfl | ⟨m, n, rfl, rfl, -⟩
  · rfl
  · cases s <;> rfl

theorem step_agree (hQ : Pairing Q) (p : Path) (h : Q v w) (s : Segment) :
    Agree Q (step p v s) (step p w s) := by
  rcases (hQ.twins h).collections with hv | ⟨xs, ys, rfl, rfl⟩ | ⟨es, fs, rfl, rfl⟩
  · rw [← step_of_twins p (hQ.twins h) hv]
    obtain ⟨e, he⟩ := step_of_scalar p hv s
    rw [he]
    exact .error e
  · cases s with
    | key k => exact .error _
    | index i =>
      rw [step_index, step_index]
      exact found_agree _ (rel_getElem? (hQ.list h) i)
  · cases s with
    | index i => exact .error _
    | key k =>
      rw [step_key, step_key]
      exact found_agree _ (Entries.rel_get? (hQ.twins h).of_map.1 (hQ.map h) k)

theorem foldlM_agree (hQ : Pairing Q) (p : Path) (rest : List Segment) (h : Q v w) :
    Agree Q (rest.foldlM (step p) v) (rest.foldlM (step p) w) := by
  induction rest generalizing v w with
  | nil => exact .ok h
  | cons s rest ih =>
    have hstep := step_agree hQ p h s
    rw [List.foldlM_cons, List.foldlM_cons]
    generalize step p v s = x, step p w s = y at hstep
    cases hstep with
    | error e => exact .error e
    | ok h => exact ih h

theorem Paired.resolve (hQ : Pairing Q) (h : Paired Q c c') (p : Path) :
    Agree Q (c.resolve p) (c'.resolve p) := by
  have hhead := h.lookup? p.head
  unfold Context.resolve
  generalize c.lookup? p.head = x, c'.lookup? p.head = y at hhead
  cases hhead with
  | none => exact .error _
  | some hvalue => exact foldlM_agree hQ p p.rest hvalue

theorem Paired.resolveStrict (hQ : Pairing Q) (h : Paired Q c c') (p : Path) :
    Agree Q (c.resolveStrict p) (c'.resolveStrict p) := by
  have hresolve := h.resolve hQ p
  unfold Context.resolveStrict
  generalize c.resolve p = x, c'.resolve p = y at hresolve
  cases hresolve with
  | error e => exact .error _
  | ok hvalue => exact .ok hvalue

theorem Paired.resolveOrNull (hQ : Pairing Q) (h : Paired Q c c') (p : Path) :
    Agree Q (c.resolveOrNull p) (c'.resolveOrNull p) := by
  have hresolve := h.resolve hQ p
  unfold Context.resolveOrNull
  generalize c.resolve p = x, c'.resolve p = y at hresolve
  cases hresolve with
  | ok hvalue => exact .ok hvalue
  | error e =>
    cases e with
    | notFound path => exact .ok (hQ.scalar rfl)
    | typeMismatch path found => exact .error _

end Context

namespace Node

mutual

/-- The constants of an expression, at any depth. -/
def constants : Node → List Value
  | .literal v => [v]
  | .path _ => []
  | .not e => e.constants
  | .and l r | .or l r | .compare _ l r => l.constants ++ r.constants
  | .concat parts => constantsOf parts

def constantsOf : List Node → List Value
  | [] => []
  | e :: es => e.constants ++ constantsOf es

end

mutual

/-- The two sides of every `==` and `!=` of an expression, at any depth. -/
def equalities : Node → List (Node × Node)
  | .literal _ | .path _ => []
  | .not e => e.equalities
  | .and l r | .or l r => l.equalities ++ r.equalities
  | .compare op l r =>
    (if op = .eq ∨ op = .ne then [(l, r)] else []) ++ (l.equalities ++ r.equalities)
  | .concat parts => equalitiesOf parts

def equalitiesOf : List Node → List (Node × Node)
  | [] => []
  | e :: es => e.equalities ++ equalitiesOf es

end

/-- As an operand it is a scalar, whatever the context is. Only a path can lead to a collection. -/
def givesScalar : Node → Bool
  | .literal v => v.isScalar
  | .path _ => false
  | _ => true

/-- Two sides that are not both collections. -/
def HasScalarSide (sides : Node × Node) : Prop :=
  sides.1.givesScalar = true ∨ sides.2.givesScalar = true

variable {c c' : Context}

theorem isScalar_of_operand {e : Node} {v : Value} (h : e.givesScalar = true)
    (hv : e.operand c = .ok v) : v.isScalar = true := by
  cases e with
  | literal w => cases hv; exact h
  | path p => cases h
  | concat parts => obtain ⟨s, -, rfl⟩ := map_eq_ok.1 hv; rfl
  | _ => obtain ⟨b, -, rfl⟩ := map_eq_ok.1 hv; rfl

theorem comparison_paired {op : Comparison} {x x' y y' : Except EvalError Value}
    (hx : Agree Q x x') (hy : Agree Q y y')
    (h : ∀ v v' w w', x = .ok v → y = .ok w → Q v v' → Q w w' → op.apply v w = op.apply v' w') :
    comparison op x y = comparison op x' y' := by
  cases hx with
  | error e => rfl
  | ok hv =>
    cases hy with
    | error e => rfl
    | ok hw => exact h _ _ _ _ rfl rfl hv hw

theorem pieceText_twins {v w : Value} (h : v.Twins w) : pieceText v = pieceText w := by
  rw [pieceText, pieceText, h.rawText?_eq, h.kind_eq]

theorem agree_scalar {ε α : Type} {f : α → Value} {x : Except ε α} (hQ : Pairing Q)
    (hf : ∀ a, (f a).isScalar = true) : Agree Q (x.map f) (x.map f) := by
  cases x with
  | error e => exact .error e
  | ok a => exact .ok (hQ.scalar (hf a))

/-- Nothing in an expression with these constants and equalities takes a pair of values apart. -/
structure KeepsPairs (Q : Value → Value → Prop) (constants : List Value)
    (equalities : List (Node × Node)) : Prop where
  constants : ∀ v ∈ constants, Q v v
  equalities : KeepsEquality Q ∨ ∀ sides ∈ equalities, HasScalarSide sides

variable {vs ws : List Value} {ps qs : List (Node × Node)}

theorem KeepsPairs.of_subset (h : KeepsPairs Q ws qs) (hvs : vs ⊆ ws) (hps : ps ⊆ qs) :
    KeepsPairs Q vs ps :=
  ⟨fun v hv => h.constants v (hvs hv),
    h.equalities.imp_right fun hsides sides hmem => hsides sides (hps hmem)⟩

theorem KeepsPairs.left (h : KeepsPairs Q (vs ++ ws) (ps ++ qs)) : KeepsPairs Q vs ps :=
  h.of_subset (List.subset_append_left _ _) (List.subset_append_left _ _)

theorem KeepsPairs.right (h : KeepsPairs Q (vs ++ ws) (ps ++ qs)) : KeepsPairs Q ws qs :=
  h.of_subset (List.subset_append_right _ _) (List.subset_append_right _ _)

theorem apply_paired (hQ : Pairing Q) {op : Comparison} {l r : Node}
    (h : KeepsPairs Q (compare op l r).constants (compare op l r).equalities) {v v' w w' : Value}
    (hl : l.operand c = .ok v) (hr : r.operand c = .ok w) (hv : Q v v') (hw : Q w w') :
    op.apply v w = op.apply v' w' := by
  apply apply_twins op (hQ.twins hv) (hQ.twins hw)
  intro hop
  rcases h.equalities with hkeeps | hsides
  · exact hkeeps v v' w w' hv hw
  · have hmem : (l, r) ∈ (compare op l r).equalities := by simp [equalities, hop]
    apply equals_twins (hQ.twins hv) (hQ.twins hw)
    exact (hsides _ hmem).imp (isScalar_of_operand · hl) (isScalar_of_operand · hr)

mutual

theorem meaning_paired (hQ : Pairing Q) (hc : c.Paired Q c') (e : Node)
    (h : KeepsPairs Q e.constants e.equalities) :
    e.test c = e.test c' ∧ Agree Q (e.operand c) (e.operand c') := by
  cases e with
  | literal v => exact ⟨rfl, .ok (h.constants v List.mem_cons_self)⟩
  | path p =>
    refine ⟨?_, hc.resolveOrNull hQ p⟩
    exact (hc.resolveStrict hQ p).map_eq fun v w h => (hQ.twins h).isTruthy_eq
  | not e =>
    have he := meaning_paired hQ hc e h
    rw [test, test, operand, operand, he.1]
    exact ⟨rfl, agree_scalar hQ fun _ => rfl⟩
  | and l r =>
    have hl := meaning_paired hQ hc l h.left
    have hr := meaning_paired hQ hc r h.right
    rw [test, test, operand, operand, hl.1, hr.1]
    exact ⟨rfl, agree_scalar hQ fun _ => rfl⟩
  | or l r =>
    have hl := meaning_paired hQ hc l h.left
    have hr := meaning_paired hQ hc r h.right
    rw [test, test, operand, operand, hl.1, hr.1]
    exact ⟨rfl, agree_scalar hQ fun _ => rfl⟩
  | compare op l r =>
    have hparts : KeepsPairs Q (l.constants ++ r.constants) (l.equalities ++ r.equalities) :=
      h.of_subset (List.Subset.refl _) (List.subset_append_right _ _)
    have hl := meaning_paired hQ hc l hparts.left
    have hr := meaning_paired hQ hc r hparts.right
    have hcompare := comparison_paired hl.2 hr.2 fun v v' w w' => apply_paired hQ h
    rw [test, test, operand, operand, hcompare]
    exact ⟨rfl, agree_scalar hQ fun _ => rfl⟩
  | concat parts =>
    have hparts := joined_paired hQ hc parts h
    rw [test, test, operand, operand, hparts]
    exact ⟨rfl, agree_scalar hQ fun _ => rfl⟩

theorem joined_paired (hQ : Pairing Q) (hc : c.Paired Q c') (es : List Node)
    (h : KeepsPairs Q (constantsOf es) (equalitiesOf es)) : joined c es = joined c' es := by
  cases es with
  | nil => rfl
  | cons e es =>
    have hoperand := (meaning_paired hQ hc e h.left).2
    have hes := joined_paired hQ hc es h.right
    rw [joined, joined, hes]
    generalize e.operand c = x, e.operand c' = y at hoperand
    cases hoperand with
    | error err => rfl
    | ok h => rw [ok_bind, ok_bind, pieceText_twins (hQ.twins h)]

end

theorem value_paired (hQ : Pairing Q) (hc : c.Paired Q c') (e : Node)
    (h : KeepsPairs Q e.constants e.equalities) : Agree Q (e.value c) (e.value c') := by
  have he := meaning_paired hQ hc e h
  cases e with
  | path p => exact hc.resolveStrict hQ p
  | literal v => exact he.2
  | concat parts => exact he.2
  | _ =>
    rw [value, value, he.1]
    · exact agree_scalar hQ fun _ => rfl
    all_goals nofun

end Node

end DynamicSql

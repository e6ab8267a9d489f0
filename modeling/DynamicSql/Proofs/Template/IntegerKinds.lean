import DynamicSql.Proofs.Expression.Composition
import DynamicSql.Proofs.Parameter.NewEntries
import DynamicSql.Proofs.Template.PairedRuns

/-!
What can be seen of the kinds of integers in a rendered tree. Root values that differ in these
kinds only render to the same texts, or fail alike, under every tree without an equality of two
collections. Under all trees they do so exactly if the equalities of collections in the one are
those in the other (`outcome_twins`).
-/

namespace DynamicSql

namespace Value

/-- Every map has each of its keys once, as maps have. -/
inductive HasDistinctKeys : Value → Prop where
  | scalar {v : Value} (h : v.isScalar = true) : HasDistinctKeys v
  | list {xs : List Value} (h : ∀ x ∈ xs, HasDistinctKeys x) : HasDistinctKeys (.list xs)
  | map {es : Entries Value} (hkeys : es.keys.Nodup) (h : ∀ e ∈ es, HasDistinctKeys e.2) :
      HasDistinctKeys (.map es)

/-- Any two collections in the one root value are equal exactly if those in the same places of the
other are. -/
def CollectionsAgree (a b : Value) : Prop :=
  ∀ p q v v' w w', (Context.ofRoot a).resolve p = .ok v → (Context.ofRoot b).resolve p = .ok v' →
    (Context.ofRoot a).resolve q = .ok w → (Context.ofRoot b).resolve q = .ok w' →
      v.isScalar = false → w.isScalar = false → v.same w = v'.same w'

/-- Two scalars, or two collections in one place of the root values. -/
structure Found (a b v w : Value) : Prop where
  twins : v.Twins w
  distinct : v.HasDistinctKeys
  place : v.isScalar = false →
    ∃ p, (Context.ofRoot a).resolve p = .ok v ∧ (Context.ofRoot b).resolve p = .ok w

end Value

open Value

/-- One step further. -/
def Path.extend (p : Path) (s : Segment) : Path :=
  { p with rest := p.rest ++ [s] }

namespace Context

theorem step_extend (p : Path) (s : Segment) : step (p.extend s) = step p := by
  funext v t
  unfold step
  rfl

theorem resolve_extend {c : Context} {p : Path} {v : Value} (h : c.resolve p = .ok v)
    (s : Segment) : c.resolve (p.extend s) = step p v s := by
  unfold resolve at h ⊢
  rw [step_extend]
  dsimp only [Path.extend]
  cases hlookup : c.lookup? p.head with
  | none =>
    rw [hlookup] at h
    cases h
  | some w =>
    rw [hlookup] at h
    dsimp only at h ⊢
    rw [List.foldlM_append, h, ok_bind, List.foldlM_cons]
    cases step p v s <;> rfl

theorem lookup?_ofRoot (root : Value) (name : String) :
    (ofRoot root).lookup? name = ofRootName? root name :=
  rfl

theorem resolve_name {root v : Value} {name : String} (h : ofRootName? root name = some v) :
    (ofRoot root).resolve (.single name) = .ok v := by
  rw [resolve, lookup?_ofRoot, Path.single, h]
  rfl

theorem ofRootName?_of_scalar {root : Value} (h : root.isScalar = true) (name : String) :
    ofRootName? root name = if name = rootName then some root else none := by
  cases root <;> first | rfl | contradiction

theorem rel_ofRootName? {a b : Value} (h : a.Twins b) (name : String) :
    Option.Rel Twins (ofRootName? a name) (ofRootName? b name) := by
  have hroot : Option.Rel Twins (if name = rootName then some a else none)
      (if name = rootName then some b else none) := by
    split
    · exact .some h
    · exact .none
  rcases h.collections with hv | ⟨xs, ys, rfl, rfl⟩ | ⟨es, fs, rfl, rfl⟩
  · rw [ofRootName?_of_scalar hv, ofRootName?_of_scalar (h.isScalar_eq ▸ hv)]
    exact hroot
  · exact hroot
  · obtain ⟨hkeys, hvalues⟩ := h.of_map
    exact rel_or (Entries.rel_get? hkeys hvalues name) hroot

theorem resolve_twins {a b v w : Value} (h : a.Twins b) {p : Path}
    (hv : (ofRoot a).resolve p = .ok v) (hw : (ofRoot b).resolve p = .ok w) : v.Twins w := by
  have hpaired : Paired Twins (ofRoot a) (ofRoot b) := ⟨rel_ofRootName? h, fun _ => .none, .nil⟩
  have hagree := hpaired.resolve pairing_twins p
  rw [hv, hw] at hagree
  cases hagree with
  | ok h => exact h

end Context

namespace Value

theorem forall₂_of_getElem? {α β : Type} {R S : α → β → Prop} {as : List α} {bs : List β}
    (h : List.Forall₂ R as bs)
    (hRS : ∀ (i : Nat) a b, as[i]? = some a → bs[i]? = some b → R a b → S a b) :
    List.Forall₂ S as bs := by
  induction h with
  | nil => exact .nil
  | cons hab _ ih =>
    exact .cons (hRS 0 _ _ rfl rfl hab) (ih fun i a b ha hb => hRS (i + 1) a b ha hb)

theorem HasDistinctKeys.of_mem {xs : List Value} (h : (Value.list xs).HasDistinctKeys) {x : Value}
    (hx : x ∈ xs) : x.HasDistinctKeys := by
  cases h with
  | scalar hv => cases hv
  | list h => exact h x hx

theorem HasDistinctKeys.of_map {es : Entries Value} (h : (Value.map es).HasDistinctKeys) :
    es.keys.Nodup ∧ ∀ e ∈ es, e.2.HasDistinctKeys := by
  cases h with
  | scalar hv => cases hv
  | map hkeys h => exact ⟨hkeys, h⟩

variable {a b : Value}

theorem Found.item {xs ys : List Value} (h : Found a b (.list xs) (.list ys)) :
    List.Forall₂ (Found a b) xs ys := by
  obtain ⟨p, hp, hp'⟩ := h.place rfl
  apply forall₂_of_getElem? h.twins.of_list
  intro i v w hv hw htwins
  refine ⟨htwins, h.distinct.of_mem (List.mem_of_getElem? hv), fun _ => ?_⟩
  refine ⟨p.extend (.index i), ?_, ?_⟩
  · rw [Context.resolve_extend hp, Context.step_index, hv]
    rfl
  · rw [Context.resolve_extend hp', Context.step_index, hw]
    rfl

theorem Found.entry {es fs : Entries Value} (h : Found a b (.map es) (.map fs)) :
    List.Forall₂ (Found a b) (es.map Prod.snd) (fs.map Prod.snd) := by
  obtain ⟨p, hp, hp'⟩ := h.place rfl
  obtain ⟨hkeys, hvalues⟩ := h.twins.of_map
  obtain ⟨hnodup, hdistinct⟩ := h.distinct.of_map
  apply forall₂_of_getElem? hvalues
  intro i v w hv hw htwins
  rw [List.getElem?_map] at hv hw
  obtain ⟨⟨k, v⟩, he, rfl⟩ := Option.map_eq_some_iff.1 hv
  obtain ⟨⟨k', w⟩, hf, rfl⟩ := Option.map_eq_some_iff.1 hw
  obtain rfl : k = k' := Entries.fst_eq_of_keys hkeys he hf
  have hmem := List.mem_of_getElem? he
  have hmem' := List.mem_of_getElem? hf
  refine ⟨htwins, hdistinct _ hmem, fun _ => ⟨p.extend (.key k), ?_, ?_⟩⟩
  · rw [Context.resolve_extend hp, Context.step_key, Entries.get?_of_mem hnodup hmem]
    rfl
  · rw [hkeys] at hnodup
    rw [Context.resolve_extend hp', Context.step_key, Entries.get?_of_mem hnodup hmem']
    rfl

theorem pairing_found (a b : Value) : Pairing (Found a b) where
  twins h := h.twins
  scalar hv := ⟨.refl _, .scalar hv, fun h => by rw [hv] at h; cases h⟩
  list h := h.item
  map h := h.entry

theorem HasDistinctKeys.of_rootName {v : Value} (h : a.HasDistinctKeys) {name : String}
    (hv : Context.ofRootName? a name = some v) : v.HasDistinctKeys := by
  have hself {v : Value} (hv : (if name = Context.rootName then some a else none) = some v) :
      v.HasDistinctKeys := by
    split at hv
    · cases hv
      exact h
    · cases hv
  cases a with
  | map es =>
    rcases Option.or_eq_some_iff.1 hv with hv | ⟨-, hv⟩
    · exact h.of_map.2 _ (Entries.mem_of_get? hv)
    · exact hself hv
  | _ => exact hself hv

theorem found_root (h : a.Twins b) (hkeys : a.HasDistinctKeys) (name : String) :
    Option.Rel (Found a b) (Context.ofRootName? a name) (Context.ofRootName? b name) := by
  have hrel := Context.rel_ofRootName? h name
  generalize hv : Context.ofRootName? a name = x, hw : Context.ofRootName? b name = y at hrel
  cases hrel with
  | none => exact .none
  | some htwins =>
    exact .some ⟨htwins, hkeys.of_rootName hv, fun _ =>
      ⟨.single name, Context.resolve_name hv, Context.resolve_name hw⟩⟩

theorem keepsEquality_found (h : CollectionsAgree a b) : KeepsEquality (Found a b) := by
  intro v v' w w' hv hw
  cases hvs : v.isScalar with
  | true => exact equals_twins hv.twins hw.twins (.inl hvs)
  | false =>
    cases hws : w.isScalar with
    | true => exact equals_twins hv.twins hw.twins (.inr hws)
    | false =>
      obtain ⟨p, hp, hp'⟩ := hv.place hvs
      obtain ⟨q, hq, hq'⟩ := hw.place hws
      have hvs' : v'.isScalar = false := by rw [← hv.twins.isScalar_eq, hvs]
      rw [equals_of_collection hvs, equals_of_collection hvs']
      exact h p q v v' w w' hp hp' hq hq' hvs hws

end Value

namespace Node

/-- No constant in the expression is a collection. -/
def HasScalarConstants (n : Node) : Prop :=
  ∀ v ∈ n.constants, v.isScalar = true

theorem isScalar_of_constant {t : Expression.Token} {v : Value} (h : t.constant? = some v) :
    v.isScalar = true := by
  cases t <;> cases h <;> rfl

theorem hasScalarConstants_concatenation {n : Node} (hn : n.HasScalarConstants) {ns : List Node}
    (hns : ∀ m ∈ ns, m.HasScalarConstants) :
    (Expression.concatenation n ns).HasScalarConstants := by
  have hmore : ∀ v ∈ constantsOf ns, v.isScalar = true := by
    clear hn
    induction ns with
    | nil => nofun
    | cons m ns ih =>
      obtain ⟨hm, hns⟩ := List.forall_mem_cons.1 hns
      exact List.forall_mem_append.2 ⟨hm, ih hns⟩
  unfold Expression.concatenation
  split
  · exact hn
  · exact List.forall_mem_append.2 ⟨hn, hmore⟩

/-- The constants of an expression that is read from a text are scalars. -/
theorem hasScalarConstants_of_derives {level : Expression.Level} {ts : List Expression.Token}
    {n : Node} (h : Expression.Derives level ts n) : n.HasScalarConstants := by
  have hmap {ps : List Expression.Phrase} (hps : ∀ p ∈ ps, p.2.HasScalarConstants) :
      ∀ m ∈ ps.map Prod.snd, m.HasScalarConstants := List.forall_mem_map.2 hps
  have happend (l r : Node) (hl : l.HasScalarConstants) (hr : r.HasScalarConstants) :
      ∀ v ∈ l.constants ++ r.constants, v.isScalar = true := List.forall_mem_append.2 ⟨hl, hr⟩
  induction h with
  | or _ _ hfirst hmore =>
    exact List.foldlRecOn _ _ hfirst fun l hl r hr => happend l r hl (hmap hmore r hr)
  | and _ _ hfirst hmore =>
    exact List.foldlRecOn _ _ hfirst fun l hl r hr => happend l r hl (hmap hmore r hr)
  | not _ ih => exact ih
  | affirmed _ ih => exact ih
  | compare op _ _ hl hr => exact happend _ _ hl hr
  | uncompared _ ih => exact ih
  | concat _ _ hfirst hmore => exact hasScalarConstants_concatenation hfirst (hmap hmore)
  | constant h => exact List.forall_mem_singleton.2 (isScalar_of_constant h)
  | path h => nofun
  | parens _ ih => exact ih

end Node

namespace Fragment

open Render

/-- No `==` and no `!=` in the tree can compare two collections. -/
def ComparesScalars (f : Fragment) : Prop :=
  ∀ e ∈ f.expressions, ∀ sides ∈ e.root.equalities, Node.HasScalarSide sides

/-- No constant in the tree is a collection. -/
def HasScalarConstants (f : Fragment) : Prop :=
  ∀ e ∈ f.expressions, e.root.HasScalarConstants

/-- A text that is there if two paths lead to equal values. -/
def equality (p q : Path) : Fragment :=
  .conditional ⟨"", .compare .eq (.path p) (.path q)⟩ (.text "x")

theorem outcome_equality {root v w : Value} {p q : Path}
    (hv : (Context.ofRoot root).resolve p = .ok v) (hw : (Context.ofRoot root).resolve q = .ok w)
    (o : Options) :
    (equality p q).outcome o root = .ok (if v.equals w then ("x", "x") else ("", "")) := by
  have htest : Expression.test ⟨"", .compare .eq (.path p) (.path q)⟩ (.ofRoot root) =
      .ok (v.equals w) := by
    rw [Expression.test, Node.test, Node.operand, Node.operand, Context.resolveOrNull,
      Context.resolveOrNull, hv, hw]
    rfl
  have hrun : exec ((equality p q).render o) ⟨.ofRoot root, #[]⟩ =
      (.ok (if v.equals w then .both "x" else .empty), ⟨.ofRoot root, #[]⟩) := by
    rw [equality, render, exec_bind, exec_test, htest]
    cases v.equals w <;> rfl
  rw [outcome, renderUnder_eq, hrun]
  cases v.equals w <;> rfl

theorem hasScalarConstants_equality (p q : Path) : (equality p q).HasScalarConstants := by
  have hexpressions : (equality p q).expressions =
      [⟨"", .compare .eq (.path p) (.path q)⟩] := rfl
  intro e he
  rw [hexpressions] at he
  rw [List.mem_singleton.1 he]
  nofun

/-- Root values that differ in the kinds of integers only have the same outcome, text or error,
under every tree in which each `==` and `!=` has a side that is no path. They have it under all
trees without a collection for a constant, which all trees are whose expressions are read from
texts, if and only if the collections at any two paths are equal in the one root value exactly if
they are in the other. An unsigned integer is converted, serialized and read from JSON to such
values. -/
theorem outcome_twins {a b : Value} (h : a.Twins b) :
    (∀ f : Fragment, f.ComparesScalars → ∀ o, f.outcome o a = f.outcome o b) ∧
      (a.HasDistinctKeys →
        ((∀ f : Fragment, f.HasScalarConstants → ∀ o, f.outcome o a = f.outcome o b) ↔
          CollectionsAgree a b)) ∧
      (∀ source e, Expression.read source = .ok e → e.root.HasScalarConstants) ∧
      ∀ n : UInt64, (∃ v, serialize (n.toNat : Int) = .ok v ∧ (toValue n).Twins v) ∧
        ∃ m, Json.readNumber? (Number.uint n).text.toList = some m ∧
          (toValue n).Twins (.number m) := by
  refine ⟨?_, fun hkeys => ⟨?_, ?_⟩, ?_, twins_converted⟩
  · intro f hf o
    apply f.outcome_paired pairing_twins o
    · exact fun e he => ⟨fun v _ => .refl v, .inr (hf e he)⟩
    · exact Context.rel_ofRootName? h
  · intro hall p q v v' w w' hp hp' hq hq' hv _
    have houtcome := hall (equality p q) (hasScalarConstants_equality p q) ⟨.mySql, .doubled⟩
    rw [outcome_equality hp hq, outcome_equality hp' hq'] at houtcome
    have hv' : v'.isScalar = false := (Context.resolve_twins h hp hp').isScalar_eq ▸ hv
    rw [← equals_of_collection hv, ← equals_of_collection hv']
    cases hvw : v.equals w <;> cases hvw' : v'.equals w' <;> simp [hvw, hvw'] at houtcome ⊢
  · intro hagree f hf o
    apply f.outcome_paired (pairing_found a b) o
    · intro e he
      exact ⟨fun v hv => (pairing_found a b).scalar (hf e he v hv),
        .inl (keepsEquality_found hagree)⟩
    · exact found_root h hkeys
  · intro source e he
    obtain ⟨ts, -, hderives⟩ := Expression.exists_tokens_of_read he
    exact Node.hasScalarConstants_of_derives hderives

/-- Integers of both kinds beside a constant, in a list that a loop runs over. -/
theorem outcome_twins_loop :
    let f : Fragment := .loop { collection := .single "ids", item := "id", separator := some "," }
      (.conditional ⟨"id == 2", .compare .eq (.path (.single "id"))
        (.literal (.number (.int 2)))⟩ (.placeholder (.single "id")))
    let a : Value := .map [("ids", .list [.number (.int 1), .number (.int 2)])]
    let b : Value := .map [("ids", .list [.number (.int 1), .number (.uint 2)])]
    a.Twins b ∧ a.HasDistinctKeys ∧ f.ComparesScalars ∧
      f.outcome ⟨.mySql, .doubled⟩ b = .ok ("2", "?") ∧
      f.outcome ⟨.mySql, .doubled⟩ a = f.outcome ⟨.mySql, .doubled⟩ b := by
  intro f a b
  have h : a.Twins b := by
    refine .map rfl (.cons (.list (.cons (.refl _) (.cons ?_ .nil))) .nil)
    exact .number (.integers (a := 2) rfl rfl)
  have hkeys : a.HasDistinctKeys := by
    refine .map (by decide) (List.forall_mem_singleton.2 (.list ?_))
    exact List.forall_mem_cons.2 ⟨.scalar rfl, List.forall_mem_singleton.2 (.scalar rfl)⟩
  have hf : f.ComparesScalars :=
    List.forall_mem_singleton.2 (List.forall_mem_singleton.2 (.inr rfl))
  have hb : f.outcome ⟨.mySql, .doubled⟩ b = .ok ("2", "?") := by cbv
  exact ⟨h, hkeys, hf, hb, (outcome_twins h).1 f hf ⟨.mySql, .doubled⟩⟩

/-- Two lists of one integer each are equal, unless the integers are of different kinds; by
themselves these are equal. -/
theorem outcome_lists_of_twins :
    let f : Fragment := .conditional ⟨"x == y", .compare .eq (.path (.single "x"))
      (.path (.single "y"))⟩ (.text "same")
    let a : Value := .map [("x", .list [.number (.int 1)]), ("y", .list [.number (.int 1)])]
    let b : Value := .map [("x", .list [.number (.int 1)]), ("y", .list [.number (.uint 1)])]
    a.Twins b ∧ f.outcome ⟨.mySql, .doubled⟩ a = .ok ("same", "same") ∧
      f.outcome ⟨.mySql, .doubled⟩ b = .ok ("", "") ∧
      (Value.number (.int 1)).equals (.number (.uint 1)) = true := by
  intro f a b
  refine ⟨?_, by cbv, by cbv, by decide⟩
  refine .map rfl (.cons (.refl _) (.cons (.list (.cons ?_ .nil)) .nil))
  exact .number (.integers (a := 1) rfl rfl)

end Fragment

end DynamicSql

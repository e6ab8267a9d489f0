import DynamicSql.Template.Fragment

/-!
Fragments as trees: the fragments directly below one, all fragments in one, and the induction that
a property of a fragment may be shown from the same property of those directly below it.
-/

namespace DynamicSql.Fragment

def children : Fragment → List Fragment
  | .text _ | .placeholder _ | .raw _ | .bind _ _ => []
  | .conditional _ body | .loop _ body | .trim _ body => [body]
  | .choose branches otherwise => branches.map Prod.snd ++ otherwise.toList
  | .seq items => items

theorem sizeOf_lt_of_mem_children {f g : Fragment} (h : g ∈ f.children) : sizeOf g < sizeOf f := by
  cases f with
  | text s => contradiction
  | placeholder p => contradiction
  | raw p => contradiction
  | conditional t body =>
    rw [List.mem_singleton.1 h]
    decreasing_tactic
  | choose branches otherwise =>
    rw [children, List.mem_append, List.mem_map] at h
    rcases h with ⟨branch, hbranch, rfl⟩ | h
    · have hlt := List.sizeOf_lt_of_mem hbranch
      cases branch
      simp only [Prod.mk.sizeOf_spec, choose.sizeOf_spec] at hlt ⊢
      omega
    · rw [Option.mem_toList] at h
      subst h
      simp only [Option.some.sizeOf_spec, choose.sizeOf_spec]
      omega
  | loop spec body =>
    rw [List.mem_singleton.1 h]
    decreasing_tactic
  | trim spec body =>
    rw [List.mem_singleton.1 h]
    decreasing_tactic
  | bind name e => contradiction
  | seq items =>
    have hlt := List.sizeOf_lt_of_mem (show g ∈ items from h)
    simp only [seq.sizeOf_spec]
    omega

theorem induction {motive : Fragment → Prop}
    (step : ∀ f, (∀ g ∈ f.children, motive g) → motive f) (f : Fragment) : motive f :=
  step f fun g _h => induction step g
termination_by f
decreasing_by exact sizeOf_lt_of_mem_children _h

mutual

/-- A fragment and all fragments below it, at any depth. -/
def nodes : Fragment → List Fragment
  | .text s => [.text s]
  | .placeholder p => [.placeholder p]
  | .raw p => [.raw p]
  | .conditional t body => .conditional t body :: body.nodes
  | .choose branches otherwise =>
    .choose branches otherwise :: (branchNodes branches ++ optionNodes otherwise)
  | .loop spec body => .loop spec body :: body.nodes
  | .trim spec body => .trim spec body :: body.nodes
  | .bind name e => [.bind name e]
  | .seq items => .seq items :: listNodes items

def branchNodes : List (Expression × Fragment) → List Fragment
  | [] => []
  | (_, f) :: branches => f.nodes ++ branchNodes branches

def optionNodes : Option Fragment → List Fragment
  | none => []
  | some f => f.nodes

def listNodes : List Fragment → List Fragment
  | [] => []
  | f :: fs => f.nodes ++ listNodes fs

end

theorem branchNodes_eq (branches : List (Expression × Fragment)) :
    branchNodes branches = (branches.map Prod.snd).flatMap nodes := by
  induction branches with
  | nil => rfl
  | cons branch branches ih => simp [branchNodes, ih]

theorem listNodes_eq (fs : List Fragment) : listNodes fs = fs.flatMap nodes := by
  induction fs with
  | nil => rfl
  | cons f fs ih => simp [listNodes, ih]

theorem nodes_eq (f : Fragment) : f.nodes = f :: f.children.flatMap nodes := by
  cases f with
  | choose branches otherwise =>
    cases otherwise <;> simp [nodes, children, branchNodes_eq, optionNodes]
  | seq items => rw [nodes, children, listNodes_eq]
  | _ => simp [nodes, children]

theorem self_mem_nodes (f : Fragment) : f ∈ f.nodes := by
  rw [nodes_eq]
  exact List.mem_cons_self

theorem mem_nodes_of_mem_children {f g h : Fragment} (hg : g ∈ f.children) (hh : h ∈ g.nodes) :
    h ∈ f.nodes := by
  rw [nodes_eq]
  exact List.mem_cons_of_mem _ (List.mem_flatMap.2 ⟨g, hg, hh⟩)

end DynamicSql.Fragment

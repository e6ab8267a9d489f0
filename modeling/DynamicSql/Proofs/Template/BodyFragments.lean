import DynamicSql.Proofs.Effects
import DynamicSql.Template.Body

/-!
What it means that a body, an element or a choice has fragments: a body has those of its parts one
after the other (`bodyFragments_eq_ok`), an element has one by the rule for its name
(`elementFragment_eq_ok`), and a choice goes through its branches (`choiceFragments_eq_ok`). What
follows about templates is shown from these rules, not from the functions.
-/

namespace DynamicSql

open Markup

namespace Markup.Tag

theorem required_eq_ok {t : Tag} {name v : String} :
    t.required name = .ok v ↔ t.attributes.get? name = some v ∧ Text.isBlank v = false := by
  rw [required]
  cases t.attributes.get? name with
  | none => simp
  | some w =>
    dsimp only
    rw [Option.some.injEq]
    split
    · next hblank =>
      refine ⟨nofun, ?_⟩
      rintro ⟨rfl, hv⟩
      rw [hblank] at hv
      contradiction
    · next hblank =>
      rw [Except.ok.injEq]
      refine ⟨?_, And.left⟩
      rintro rfl
      exact ⟨rfl, Bool.eq_false_iff.2 hblank⟩

theorem required_bind_eq_ok {α : Type} {t : Tag} {name : String}
    {f : String → Except TemplateError α} {a : α} :
    t.required name >>= f = .ok a ↔
      ∃ v, t.attributes.get? name = some v ∧ Text.isBlank v = false ∧ f v = .ok a := by
  simp only [bind_eq_ok, required_eq_ok, and_assoc]

theorem expression_eq_ok {t : Tag} {name : String} {e : Expression} :
    t.expression name = .ok e ↔
      ∃ v, t.attributes.get? name = some v ∧ Text.isBlank v = false ∧
        Expression.read v = .ok e := by
  rw [expression, required_bind_eq_ok]
  refine exists_congr fun v => and_congr_right fun _ => and_congr_right fun _ => ?_
  cases Expression.read v <;> simp

theorem path_eq_ok {t : Tag} {name : String} {p : Path} :
    t.path name = .ok p ↔
      ∃ v, t.attributes.get? name = some v ∧ Text.isBlank v = false ∧ Path.read v = .ok p := by
  rw [path, required_bind_eq_ok]
  refine exists_congr fun v => and_congr_right fun _ => and_congr_right fun _ => ?_
  cases Path.read v <;> simp

/-- The trimming that the element stands for, if it is one of those that trim their content. -/
def trimming? (t : Tag) : Option Trim :=
  match t.name with
  | "trim" => some t.trim
  | "set" => some .setClause
  | "where" => some .whereClause
  | _ => none

end Markup.Tag

variable {table : Snippets} {opened : List String}

/-- The fragments of one part of a body. -/
def contentFragments (table : Snippets) (opened : List String) :
    Content → Except TemplateError (List Fragment)
  | .text s => textFragments s
  | .element tag children => do return [← elementFragment table opened tag children]

theorem bodyFragments_nil : bodyFragments table opened [] = .ok [] := by
  rw [bodyFragments]

theorem bodyFragments_cons (c : Content) (cs : List Content) :
    bodyFragments table opened (c :: cs) = do
      return (← contentFragments table opened c) ++ (← bodyFragments table opened cs) := by
  cases c with
  | text s => rw [bodyFragments, contentFragments]
  | element tag children =>
    rw [bodyFragments, contentFragments]
    cases elementFragment table opened tag children <;> rfl

theorem bodyFragments_cons_eq_ok {c : Content} {cs : List Content} {fs : List Fragment} :
    bodyFragments table opened (c :: cs) = .ok fs ↔
      ∃ first rest, contentFragments table opened c = .ok first ∧
        bodyFragments table opened cs = .ok rest ∧ fs = first ++ rest := by
  rw [bodyFragments_cons, bind_eq_ok]
  constructor
  · rintro ⟨first, hfirst, h⟩
    rcases bind_eq_ok.1 h with ⟨rest, hrest, ⟨⟩⟩
    exact ⟨first, rest, hfirst, hrest, rfl⟩
  · rintro ⟨first, rest, hfirst, hrest, rfl⟩
    exact ⟨first, hfirst, bind_eq_ok.2 ⟨rest, hrest, rfl⟩⟩

theorem bodyFragments_append_eq_ok {cs ds : List Content} {fs gs : List Fragment}
    (hcs : bodyFragments table opened cs = .ok fs) (hds : bodyFragments table opened ds = .ok gs) :
    bodyFragments table opened (cs ++ ds) = .ok (fs ++ gs) := by
  induction cs generalizing fs with
  | nil =>
    rw [bodyFragments_nil] at hcs
    cases hcs
    exact hds
  | cons c cs ih =>
    rcases bodyFragments_cons_eq_ok.1 hcs with ⟨first, rest, hfirst, hrest, rfl⟩
    rw [List.append_assoc]
    exact bodyFragments_cons_eq_ok.2 ⟨first, rest ++ gs, hfirst, ih hrest, rfl⟩

/-- A body has fragments exactly if each of its parts has. -/
theorem bodyFragments_isOk_iff {cs : List Content} :
    (∃ fs, bodyFragments table opened cs = .ok fs) ↔
      ∀ c ∈ cs, ∃ fs, contentFragments table opened c = .ok fs := by
  induction cs with
  | nil => simp [bodyFragments_nil]
  | cons c cs ih =>
    rw [List.forall_mem_cons, ← ih]
    constructor
    · rintro ⟨_, h⟩
      rcases bodyFragments_cons_eq_ok.1 h with ⟨first, rest, hfirst, hrest, _⟩
      exact ⟨⟨first, hfirst⟩, rest, hrest⟩
    · rintro ⟨⟨first, hfirst⟩, rest, hrest⟩
      exact ⟨first ++ rest, bodyFragments_cons_eq_ok.2 ⟨first, rest, hfirst, hrest, rfl⟩⟩

/-- How an element gets its fragment. -/
inductive Makes (table : Snippets) (opened : List String) (tag : Tag) (children : List Content) :
    Fragment → Prop where
  | conditional {test : Expression} {fs : List Fragment} (hname : tag.name = "if")
      (htest : tag.expression "test" = .ok test)
      (hbody : bodyFragments table opened children = .ok fs) :
      Makes table opened tag children (.conditional test (.seq fs))
  | choose {branches : List (Expression × Fragment)} {otherwise : Option Fragment}
      (hname : tag.name = "choose")
      (hchoice : choiceFragments table opened tag.line children = .ok (branches, otherwise)) :
      Makes table opened tag children (.choose branches otherwise)
  | loop {spec : Loop} {fs : List Fragment} (hname : tag.name = "foreach")
      (hspec : tag.loop = .ok spec) (hbody : bodyFragments table opened children = .ok fs) :
      Makes table opened tag children (.loop spec (.seq fs))
  | trim {spec : Trim} {fs : List Fragment} (hspec : tag.trimming? = some spec)
      (hbody : bodyFragments table opened children = .ok fs) :
      Makes table opened tag children (.trim spec (.seq fs))
  | bind {name : String} {value : Expression} (hname : tag.name = "bind")
      (htext : tag.required "name" = .ok name) (hvalue : tag.expression "value" = .ok value) :
      Makes table opened tag children (.bind (Text.trim name) value)
  | included {refid : String} {snippet : Snippet} {fs : List Fragment}
      (hname : tag.name = "include") (hrefid : tag.required "refid" = .ok refid)
      (hfound : Entries.get? table (Text.trim refid) = some snippet)
      (hopened : snippet.id ∉ opened)
      (hbody : bodyFragments table (snippet.id :: opened) snippet.children = .ok fs) :
      Makes table opened tag children (.seq fs)

theorem elementFragment_include {tag : Tag} {children : List Content}
    (hname : tag.name = "include") :
    elementFragment table opened tag children = do
      let refid ← tag.required "refid"
      match Entries.get? table (Text.trim refid) with
      | none => .error (.unknownInclude (Text.trim refid))
      | some snippet =>
        if snippet.id ∈ opened then .error (.circularInclude (Text.trim refid))
        else return .seq (← bodyFragments table (snippet.id :: opened) snippet.children) := by
  rw [elementFragment]
  split
  -- The eighth rule is the one for this name.
  case h_8 =>
    cases tag.required "refid" with
    | error e => rfl
    | ok refid =>
      dsimp only [bind, Except.bind]
      split
      · next hnone => rw [hnone]
      · next snippet hsome => rw [hsome]
  all_goals simp_all

theorem elementFragment_of_refid {tag : Tag} {children : List Content} {refid : String}
    (hname : tag.name = "include") (hrefid : tag.required "refid" = .ok refid) :
    elementFragment table opened tag children =
      match Entries.get? table (Text.trim refid) with
      | none => .error (.unknownInclude (Text.trim refid))
      | some snippet =>
        if snippet.id ∈ opened then .error (.circularInclude (Text.trim refid))
        else do return .seq (← bodyFragments table (snippet.id :: opened) snippet.children) := by
  rw [elementFragment_include hname, hrefid]
  rfl

theorem elementFragment_of_include {tag : Tag} {children : List Content} {refid : String}
    {snippet : Snippet} (hname : tag.name = "include") (hrefid : tag.required "refid" = .ok refid)
    (hfound : Entries.get? table (Text.trim refid) = some snippet) (hopened : snippet.id ∉ opened) :
    elementFragment table opened tag children = do
      return .seq (← bodyFragments table (snippet.id :: opened) snippet.children) := by
  rw [elementFragment_of_refid hname hrefid, hfound]
  exact if_neg hopened

theorem elementFragment_eq_ok {tag : Tag} {children : List Content} {f : Fragment} :
    elementFragment table opened tag children = .ok f ↔ Makes table opened tag children f := by
  constructor
  · intro h
    rw [elementFragment] at h
    split at h
    · next hname =>
      rcases bind_eq_ok.1 h with ⟨test, htest, h⟩
      rcases bind_eq_ok.1 h with ⟨fs, hbody, ⟨⟩⟩
      exact .conditional hname htest hbody
    · next hname =>
      rcases bind_eq_ok.1 h with ⟨⟨branches, otherwise⟩, hchoice, ⟨⟩⟩
      exact .choose hname hchoice
    · next hname =>
      rcases bind_eq_ok.1 h with ⟨spec, hspec, h⟩
      rcases bind_eq_ok.1 h with ⟨fs, hbody, ⟨⟩⟩
      exact .loop hname hspec hbody
    · next hname =>
      rcases bind_eq_ok.1 h with ⟨fs, hbody, ⟨⟩⟩
      exact .trim (by simp [Tag.trimming?, hname]) hbody
    · next hname =>
      rcases bind_eq_ok.1 h with ⟨fs, hbody, ⟨⟩⟩
      exact .trim (by simp [Tag.trimming?, hname]) hbody
    · next hname =>
      rcases bind_eq_ok.1 h with ⟨fs, hbody, ⟨⟩⟩
      exact .trim (by simp [Tag.trimming?, hname]) hbody
    · next hname =>
      rcases bind_eq_ok.1 h with ⟨name, htext, h⟩
      rcases bind_eq_ok.1 h with ⟨value, hvalue, ⟨⟩⟩
      exact .bind hname htext hvalue
    · next hname =>
      rcases bind_eq_ok.1 h with ⟨refid, hrefid, h⟩
      dsimp only at h
      split at h
      · cases h
      · next snippet hfound =>
        split at h
        · cases h
        · next hopened =>
          rcases bind_eq_ok.1 h with ⟨fs, hbody, ⟨⟩⟩
          exact .included hname hrefid hfound hopened hbody
    · cases h
    · cases h
    · cases h
  · intro h
    cases h with
    | conditional hname htest hbody =>
      rw [elementFragment, hname, htest, hbody]
      rfl
    | choose hname hchoice =>
      rw [elementFragment, hname, hchoice]
      rfl
    | loop hname hspec hbody =>
      rw [elementFragment, hname, hspec, hbody]
      rfl
    | trim hspec hbody =>
      rw [Tag.trimming?] at hspec
      split at hspec
      case h_4 => cases hspec
      all_goals
        next hname =>
          cases hspec
          rw [elementFragment, hname, hbody]
          rfl
    | bind hname htext hvalue =>
      rw [elementFragment, hname, htext, hvalue]
      rfl
    | included hname hrefid hfound hopened hbody =>
      rw [elementFragment_of_include hname hrefid hfound hopened, hbody]
      rfl

theorem contentFragments_element_eq_ok {tag : Tag} {children : List Content} {fs : List Fragment} :
    contentFragments table opened (.element tag children) = .ok fs ↔
      ∃ f, Makes table opened tag children f ∧ fs = [f] := by
  rw [contentFragments, bind_eq_ok]
  constructor
  · rintro ⟨f, hf, ⟨⟩⟩
    exact ⟨f, elementFragment_eq_ok.1 hf, rfl⟩
  · rintro ⟨f, hf, rfl⟩
    exact ⟨f, elementFragment_eq_ok.2 hf, rfl⟩

/-- How the parts of a choice make branches. -/
inductive Chooses (table : Snippets) (opened : List String) : List Content → Choice → Prop where
  | done : Chooses table opened [] ([], none)
  | blank {s : String} {cs : List Content} {choice : Choice} (hblank : Text.isBlank s = true)
      (hrest : Chooses table opened cs choice) : Chooses table opened (.text s :: cs) choice
  | when {tag : Tag} {children cs : List Content} {test : Expression} {fs : List Fragment}
      {branches : List (Expression × Fragment)} {otherwise : Option Fragment}
      (hname : tag.name = "when") (htest : tag.expression "test" = .ok test)
      (hbody : bodyFragments table opened children = .ok fs)
      (hrest : Chooses table opened cs (branches, otherwise)) :
      Chooses table opened (.element tag children :: cs) ((test, .seq fs) :: branches, otherwise)
  | otherwise {tag : Tag} {children cs : List Content} {fs : List Fragment}
      (hname : tag.name = "otherwise") (hbody : bodyFragments table opened children = .ok fs)
      (hrest : cs.all isBlankText = true) :
      Chooses table opened (.element tag children :: cs) ([], some (.seq fs))

theorem choiceFragments_eq_ok {line : Nat} {cs : List Content} {choice : Choice} :
    choiceFragments table opened line cs = .ok choice ↔ Chooses table opened cs choice := by
  constructor
  · intro h
    induction cs generalizing choice with
    | nil =>
      rw [choiceFragments] at h
      cases h
      exact .done
    | cons c cs ih =>
      cases c with
      | text s =>
        rw [choiceFragments] at h
        split at h
        · next hblank => exact .blank hblank (ih h)
        · cases h
      | element tag children =>
        rw [choiceFragments] at h
        split at h
        · next hname =>
          rcases bind_eq_ok.1 h with ⟨test, htest, h⟩
          rcases bind_eq_ok.1 h with ⟨fs, hbody, h⟩
          rcases bind_eq_ok.1 h with ⟨⟨branches, otherwise⟩, hrest, ⟨⟩⟩
          exact .when hname htest hbody (ih hrest)
        · split at h
          · next hname =>
            rcases bind_eq_ok.1 h with ⟨fs, hbody, h⟩
            split at h
            · next hrest =>
              cases h
              exact .otherwise hname hbody hrest
            · cases h
          · cases h
  · intro h
    induction h with
    | done => rw [choiceFragments]
    | blank hblank _ ih => rw [choiceFragments, if_pos hblank, ih]
    | when hname htest hbody _ ih =>
      rw [choiceFragments, if_pos hname, htest, hbody, ih]
      rfl
    | otherwise hname hbody hrest =>
      rw [choiceFragments, if_neg (by simp [hname]), if_pos hname, hbody]
      exact if_pos hrest

theorem sizeOf_tail_lt (c : Content) (cs : List Content) : sizeOf cs < sizeOf (c :: cs) := by
  rw [List.cons.sizeOf_spec]
  omega

theorem sizeOf_children_lt (tag : Tag) (children cs : List Content) :
    sizeOf children < sizeOf (Content.element tag children :: cs) := by
  rw [List.cons.sizeOf_spec, Content.element.sizeOf_spec]
  omega

/-- What holds of a body may be shown from the bodies in it: the children of its elements, and the
children of snippets that are not open. -/
theorem body_induction (table : Snippets) {motive : List String → List Content → Prop}
    (nil : ∀ opened, motive opened [])
    (text : ∀ opened s cs, motive opened cs → motive opened (.text s :: cs))
    (element : ∀ opened tag children cs, motive opened children →
      (∀ name snippet, Entries.get? table name = some snippet → snippet.id ∉ opened →
        motive (snippet.id :: opened) snippet.children) →
      motive opened cs → motive opened (.element tag children :: cs))
    (opened : List String) (cs : List Content) : motive opened cs :=
  match cs with
  | [] => nil opened
  | .text s :: cs => text opened s cs (body_induction table nil text element opened cs)
  | .element tag children :: cs =>
    element opened tag children cs (body_induction table nil text element opened children)
      (fun _ snippet _hfound _hopened =>
        body_induction table nil text element (snippet.id :: opened) snippet.children)
      (body_induction table nil text element opened cs)
termination_by (table.unopened opened, sizeOf cs)
decreasing_by
  · exact Prod.Lex.right _ (sizeOf_tail_lt _ cs)
  · exact Prod.Lex.right _ (sizeOf_children_lt tag children cs)
  · exact Prod.Lex.left _ _ (Snippets.unopened_lt _hfound _hopened)
  · exact Prod.Lex.right _ (sizeOf_tail_lt _ cs)

end DynamicSql

import DynamicSql.Proofs.Template.BodyFragments
import DynamicSql.Template.Rendering

/-!
Writing snippets in place. `splice` puts the content of a snippet where it is included, at any
depth. What is left needs no snippets, and it renders as the body did that included them
(`splice_renders`): an include makes a sequence of its own, and sequences in a sequence can be
joined.
-/

namespace DynamicSql

open Markup

namespace Texts

theorem empty_append (t : Texts) : empty ++ t = t := by
  change (⟨"" ++ t.sql, "" ++ t.parameterized⟩ : Texts) = t
  rw [String.empty_append, String.empty_append]

theorem append_empty (t : Texts) : t ++ empty = t := by
  change (⟨t.sql ++ "", t.parameterized ++ ""⟩ : Texts) = t
  rw [String.append_empty, String.append_empty]

theorem append_assoc (a b c : Texts) : a ++ b ++ c = a ++ (b ++ c) := by
  change (⟨a.sql ++ b.sql ++ c.sql,
      a.parameterized ++ b.parameterized ++ c.parameterized⟩ : Texts) =
    ⟨a.sql ++ (b.sql ++ c.sql), a.parameterized ++ (b.parameterized ++ c.parameterized)⟩
  rw [String.append_assoc, String.append_assoc]

end Texts

namespace Fragment

theorem renderAll_append (o : Options) (fs gs : List Fragment) :
    renderAll o (fs ++ gs) = do return (← renderAll o fs) ++ (← renderAll o gs) := by
  induction fs with
  | nil => simp only [List.nil_append, renderAll, pure_bind, Texts.empty_append, bind_pure]
  | cons f fs ih =>
    simp only [List.cons_append, renderAll, ih, bind_assoc, pure_bind, Texts.append_assoc]

/-- Two fragments that render alike, whatever the options and the state. -/
def RendersAs (f g : Fragment) : Prop :=
  ∀ o, f.render o = g.render o

namespace RendersAs

variable {f g h : Fragment} {fs fs' gs gs' : List Fragment}

theorem refl (f : Fragment) : f.RendersAs f :=
  fun _ => rfl

theorem trans (hfg : f.RendersAs g) (hgh : g.RendersAs h) : f.RendersAs h :=
  fun o => (hfg o).trans (hgh o)

theorem conditional (test : Expression) (h : f.RendersAs g) :
    (Fragment.conditional test f).RendersAs (.conditional test g) := by
  intro o
  rw [render, render, h o]

theorem loop (spec : Loop) (h : f.RendersAs g) :
    (Fragment.loop spec f).RendersAs (.loop spec g) := by
  intro o
  rw [render, render, h o]

theorem trim (spec : Trim) (h : f.RendersAs g) :
    (Fragment.trim spec f).RendersAs (.trim spec g) := by
  intro o
  rw [render, render, h o]

theorem append (hfs : (Fragment.seq fs).RendersAs (.seq fs'))
    (hgs : (Fragment.seq gs).RendersAs (.seq gs')) :
    (Fragment.seq (fs ++ gs)).RendersAs (.seq (fs' ++ gs')) := by
  intro o
  have hfs := hfs o
  have hgs := hgs o
  rw [render, render] at *
  rw [renderAll_append, renderAll_append, hfs, hgs]

theorem singleton (h : f.RendersAs g) : (Fragment.seq [f]).RendersAs (.seq [g]) := by
  intro o
  simp only [render, renderAll, h o]

/-- A sequence that stands alone in a sequence. -/
theorem nested (fs : List Fragment) : (Fragment.seq fs).RendersAs (.seq [.seq fs]) := by
  intro o
  simp only [render, renderAll, pure_bind, Texts.append_empty, bind_pure]

theorem choose_when (test : Expression) {branches branches' : List (Expression × Fragment)}
    {otherwise otherwise' : Option Fragment} (h : f.RendersAs g)
    (hrest : (Fragment.choose branches otherwise).RendersAs (.choose branches' otherwise')) :
    (Fragment.choose ((test, f) :: branches) otherwise).RendersAs
      (.choose ((test, g) :: branches') otherwise') := by
  intro o
  have hrest := hrest o
  rw [render, render] at *
  rw [renderChoice, renderChoice, h o, hrest]

theorem choose_otherwise (h : f.RendersAs g) :
    (Fragment.choose [] (some f)).RendersAs (.choose [] (some g)) := by
  intro o
  rw [render, render, renderChoice, renderChoice, renderOption, renderOption, h o]

end RendersAs

end Fragment

/-- The snippet that an element stands for, unless it is open already. -/
def Markup.Tag.snippet? (table : Snippets) (opened : List String) (t : Tag) : Option Snippet :=
  if t.name = "include" then
    ((t.attributes.get? "refid").bind fun refid => Entries.get? table (Text.trim refid)).filter
      fun s => s.id ∉ opened
  else none

theorem Markup.Tag.snippet?_eq_some {table : Snippets} {opened : List String} {t : Tag}
    {s : Snippet} :
    t.snippet? table opened = some s ↔
      t.name = "include" ∧ s.id ∉ opened ∧
        ∃ refid, t.attributes.get? "refid" = some refid ∧
          Entries.get? table (Text.trim refid) = some s := by
  rw [snippet?]
  split
  · next hname =>
    simp [hname, Option.filter_eq_some_iff, Option.bind_eq_some_iff, and_comm]
  · next hname => simp [hname]

theorem Markup.Tag.snippet?_eq_none_of_ne {table : Snippets} {opened : List String} {t : Tag}
    (hname : t.name ≠ "include") : t.snippet? table opened = none :=
  if_neg hname

/-- Puts the content of snippets in the place of the elements that include them. An element that
includes nothing, because its snippet is not there or is open, stays. -/
def splice (table : Snippets) (opened : List String) (cs : List Content) : List Content :=
  match cs with
  | [] => []
  | .text s :: cs => .text s :: splice table opened cs
  | .element tag children :: cs =>
    match _ : tag.snippet? table opened with
    | some s => splice table (s.id :: opened) s.children ++ splice table opened cs
    | none => .element tag (splice table opened children) :: splice table opened cs
termination_by (table.unopened opened, sizeOf cs)
decreasing_by
  · exact Prod.Lex.right _ (sizeOf_tail_lt _ cs)
  · rcases Tag.snippet?_eq_some.1 ‹_› with ⟨_, hopened, _, _, hfound⟩
    exact Prod.Lex.left _ _ (Snippets.unopened_lt hfound hopened)
  · exact Prod.Lex.right _ (sizeOf_tail_lt _ cs)
  · exact Prod.Lex.right _ (sizeOf_children_lt tag children cs)
  · exact Prod.Lex.right _ (sizeOf_tail_lt _ cs)

variable {table : Snippets} {opened : List String} {tag : Tag} {children cs : List Content}

theorem splice_text (s : String) :
    splice table opened (.text s :: cs) = .text s :: splice table opened cs := by
  rw [splice]

theorem splice_of_snippet {s : Snippet} (h : tag.snippet? table opened = some s) :
    splice table opened (.element tag children :: cs) =
      splice table (s.id :: opened) s.children ++ splice table opened cs := by
  rw [splice]
  split
  · next s' hs =>
    rw [h] at hs
    cases hs
    rfl
  · next hnone =>
    rw [h] at hnone
    cases hnone

theorem splice_of_none (h : tag.snippet? table opened = none) :
    splice table opened (.element tag children :: cs) =
      .element tag (splice table opened children) :: splice table opened cs := by
  rw [splice]
  split
  · next hs =>
    rw [h] at hs
    cases hs
  · rfl

theorem splice_of_blank (h : cs.all isBlankText = true) : splice table opened cs = cs := by
  induction cs with
  | nil => rw [splice]
  | cons c cs ih =>
    rw [List.all_cons, Bool.and_eq_true] at h
    cases c with
    | text s => rw [splice_text, ih h.2]
    | element tag children => cases h.1

/-- With its snippets in place a body needs none, and renders as before. -/
def SplicesBody (table : Snippets) (opened : List String) (cs : List Content) : Prop :=
  ∀ fs, bodyFragments table opened cs = .ok fs →
    ∃ fs', (∀ table' opened', bodyFragments table' opened' (splice table opened cs) = .ok fs') ∧
      (Fragment.seq fs').RendersAs (.seq fs)

def SplicesChoice (table : Snippets) (opened : List String) (cs : List Content) : Prop :=
  ∀ choice, Chooses table opened cs choice →
    ∃ choice', (∀ table' opened', Chooses table' opened' (splice table opened cs) choice') ∧
      (Fragment.choose choice'.1 choice'.2).RendersAs (.choose choice.1 choice.2)

/-- An element that stays keeps its fragment but for what is inside of it. -/
theorem Makes.spliced {f : Fragment} (h : Makes table opened tag children f)
    (hstays : tag.snippet? table opened = none) (hbody : SplicesBody table opened children)
    (hchoice : SplicesChoice table opened children) :
    ∃ f', (∀ table' opened', Makes table' opened' tag (splice table opened children) f') ∧
      f'.RendersAs f := by
  cases h with
  | conditional hname htest hfs =>
    rcases hbody _ hfs with ⟨fs', hfs', hrenders⟩
    exact ⟨_, fun _ _ => .conditional hname htest (hfs' _ _), hrenders.conditional _⟩
  | choose hname hfs =>
    rcases hchoice _ (choiceFragments_eq_ok.1 hfs) with ⟨choice', hchoice', hrenders⟩
    exact ⟨_, fun _ _ => .choose hname (choiceFragments_eq_ok.2 (hchoice' _ _)), hrenders⟩
  | loop hname hspec hfs =>
    rcases hbody _ hfs with ⟨fs', hfs', hrenders⟩
    exact ⟨_, fun _ _ => .loop hname hspec (hfs' _ _), hrenders.loop _⟩
  | trim hspec hfs =>
    rcases hbody _ hfs with ⟨fs', hfs', hrenders⟩
    exact ⟨_, fun _ _ => .trim hspec (hfs' _ _), hrenders.trim _⟩
  | bind hname htext hvalue => exact ⟨_, fun _ _ => .bind hname htext hvalue, .refl _⟩
  | included hname hrefid hfound hopened _ =>
    have hsome := Tag.snippet?_eq_some.2
      ⟨hname, hopened, _, (Tag.required_eq_ok.1 hrefid).1, hfound⟩
    rw [hstays] at hsome
    cases hsome

/-- An element that is replaced by a snippet has the sequence of that snippet as its fragment. -/
theorem Makes.of_snippet {f : Fragment} (h : Makes table opened tag children f) {s : Snippet}
    (hs : tag.snippet? table opened = some s) :
    ∃ fs, bodyFragments table (s.id :: opened) s.children = .ok fs ∧ f = .seq fs := by
  rcases Tag.snippet?_eq_some.1 hs with ⟨hinclude, hopened, refid, hrefid, hfound⟩
  cases h with
  | conditional hname => simp [hname] at hinclude
  | choose hname => simp [hname] at hinclude
  | loop hname => simp [hname] at hinclude
  | trim hspec => simp [Tag.trimming?, hinclude] at hspec
  | bind hname => simp [hname] at hinclude
  | included _ hrefid' hfound' _ hbody =>
    have hget := (Tag.required_eq_ok.1 hrefid').1
    rw [hrefid] at hget
    cases hget
    rw [hfound] at hfound'
    cases hfound'
    exact ⟨_, hbody, rfl⟩

/-- Writing snippets in place changes nothing about what is rendered. -/
theorem splice_renders (table : Snippets) (opened : List String) (cs : List Content) :
    SplicesBody table opened cs ∧ SplicesChoice table opened cs := by
  induction opened, cs using body_induction table with
  | nil opened =>
    refine ⟨?_, ?_⟩
    · intro fs h
      rw [bodyFragments_nil] at h
      cases h
      refine ⟨[], fun _ _ => ?_, .refl _⟩
      rw [splice, bodyFragments_nil]
    · intro choice h
      cases h
      refine ⟨_, fun _ _ => ?_, .refl _⟩
      rw [splice]
      exact .done
  | text opened s cs ih =>
    rw [SplicesBody, SplicesChoice, splice_text]
    refine ⟨?_, ?_⟩
    · intro fs h
      rcases bodyFragments_cons_eq_ok.1 h with ⟨first, rest, hfirst, hrest, rfl⟩
      rcases ih.1 rest hrest with ⟨rest', hrest', hrenders⟩
      refine ⟨first ++ rest', fun _ _ => ?_, .append (.refl _) hrenders⟩
      exact bodyFragments_cons_eq_ok.2 ⟨first, rest', hfirst, hrest' _ _, rfl⟩
    · intro choice h
      cases h with
      | blank hblank hrest =>
        rcases ih.2 choice hrest with ⟨choice', hchoice', hrenders⟩
        exact ⟨choice', fun _ _ => .blank hblank (hchoice' _ _), hrenders⟩
  | element opened tag children cs hchildren hsnippet ih =>
    refine ⟨?_, ?_⟩
    · intro fs h
      rcases bodyFragments_cons_eq_ok.1 h with ⟨_, rest, hfirst, hrest, rfl⟩
      rcases contentFragments_element_eq_ok.1 hfirst with ⟨f, hf, rfl⟩
      rcases ih.1 rest hrest with ⟨rest', hrest', hrenders⟩
      cases hs : tag.snippet? table opened with
      | none =>
        rcases hf.spliced hs hchildren.1 hchildren.2 with ⟨f', hf', hrenders'⟩
        refine ⟨[f'] ++ rest', fun table' opened' => ?_, .append hrenders'.singleton hrenders⟩
        rw [splice_of_none hs]
        have hfirst' := contentFragments_element_eq_ok.2 ⟨f', hf' table' opened', rfl⟩
        exact bodyFragments_cons_eq_ok.2 ⟨[f'], rest', hfirst', hrest' _ _, rfl⟩
      | some s =>
        -- The parts of the snippet stand side by side with the rest, no longer in a sequence.
        rcases hf.of_snippet hs with ⟨inner, hinner, rfl⟩
        rcases Tag.snippet?_eq_some.1 hs with ⟨_, hopened, refid, _, hfound⟩
        rcases (hsnippet _ s hfound hopened).1 inner hinner with ⟨inner', hinner', hrenders'⟩
        refine ⟨inner' ++ rest', fun _ _ => ?_, .append (hrenders'.trans (.nested inner)) hrenders⟩
        rw [splice_of_snippet hs]
        exact bodyFragments_append_eq_ok (hinner' _ _) (hrest' _ _)
    · intro choice h
      cases h with
      | @when _ _ _ test _ _ _ hname htest hbody hrest =>
        rcases hchildren.1 _ hbody with ⟨fs', hfs', hrenders⟩
        rcases ih.2 _ hrest with ⟨⟨branches', otherwise'⟩, hchoice', hrenders'⟩
        refine ⟨((test, .seq fs') :: branches', otherwise'), fun _ _ => ?_,
          .choose_when test hrenders hrenders'⟩
        rw [splice_of_none (Tag.snippet?_eq_none_of_ne (by simp [hname]))]
        exact .when hname htest (hfs' _ _) (hchoice' _ _)
      | otherwise hname hbody hrest =>
        rcases hchildren.1 _ hbody with ⟨fs', hfs', hrenders⟩
        refine ⟨([], some (.seq fs')), fun _ _ => ?_, hrenders.choose_otherwise⟩
        rw [splice_of_none (Tag.snippet?_eq_none_of_ne (by simp [hname])), splice_of_blank hrest]
        exact .otherwise hname (hfs' _ _) hrest

/-- The texts on both sides stay apart. -/
example : splice [("a", ⟨"a", [.text "x"]⟩)] []
    [.text "y", .element ⟨"include", [("refid", "a")], 1, ""⟩ []] = [.text "y", .text "x"] := by
  cbv

end DynamicSql

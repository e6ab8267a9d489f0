import DynamicSql.Proofs.Markup.Content
import DynamicSql.Proofs.Template.BodyFragments

/-!
Where nothing is included, the fragments of a body depend on its texts and on the names and
attributes of its elements only: not on lines, not on the snippets at hand
(`SameContent.bodyFragments_iff`).
-/

namespace DynamicSql

open Markup

mutual

/-- Whether there is an include in the content, at any depth. -/
def Markup.Content.hasInclude : Content → Bool
  | .text _ => false
  | .element tag children => tag.name == "include" || anyInclude children

def anyInclude : List Content → Bool
  | [] => false
  | c :: cs => c.hasInclude || anyInclude cs

end

theorem anyInclude_element {tag : Tag} {children cs : List Content} :
    anyInclude (.element tag children :: cs) = false ↔
      tag.name ≠ "include" ∧ anyInclude children = false ∧ anyInclude cs = false := by
  rw [anyInclude, Content.hasInclude, Bool.or_eq_false_iff, Bool.or_eq_false_iff, beq_eq_false_iff_ne,
    and_assoc]

theorem anyInclude_append {cs ds : List Content} :
    anyInclude (cs ++ ds) = (anyInclude cs || anyInclude ds) := by
  induction cs with
  | nil => rfl
  | cons c cs ih => rw [List.cons_append, anyInclude, anyInclude, ih, Bool.or_assoc]

theorem Markup.SameContent.anyInclude_eq {cs ds : List Content} (h : SameContent cs ds) :
    anyInclude cs = anyInclude ds := by
  induction h with
  | nil => rfl
  | text s _ ih => rw [anyInclude, anyInclude, ih]
  | element hname _ _ _ ihChildren ih =>
    rw [anyInclude, anyInclude, Content.hasInclude, Content.hasInclude, hname, ihChildren, ih]

theorem Markup.SameContent.all_isBlankText {cs ds : List Content} (h : SameContent cs ds) :
    cs.all isBlankText = ds.all isBlankText := by
  induction h with
  | nil => rfl
  | text s _ ih => rw [List.all_cons, List.all_cons, ih]
  | element => rfl

namespace Markup.Tag

variable {t u : Tag} {name : String}

/-! What is read from an attribute does not depend on the rest of the tag. -/

theorem required_congr (h : u.attributes = t.attributes) {v : String}
    (hv : t.required name = .ok v) : u.required name = .ok v := by
  rw [required_eq_ok] at hv ⊢
  rw [h]
  exact hv

theorem expression_congr (h : u.attributes = t.attributes) {e : Expression}
    (he : t.expression name = .ok e) : u.expression name = .ok e := by
  rw [expression_eq_ok] at he ⊢
  rw [h]
  exact he

theorem path_congr (h : u.attributes = t.attributes) {p : Path} (hp : t.path name = .ok p) :
    u.path name = .ok p := by
  rw [path_eq_ok] at hp ⊢
  rw [h]
  exact hp

theorem loop_congr (h : u.attributes = t.attributes) {spec : Loop} (hspec : t.loop = .ok spec) :
    u.loop = .ok spec := by
  obtain ⟨collection, hcollection, hspec⟩ := bind_eq_ok.1 hspec
  obtain ⟨item, hitem, hspec⟩ := bind_eq_ok.1 hspec
  refine bind_eq_ok.2 ⟨collection, path_congr h hcollection, ?_⟩
  refine bind_eq_ok.2 ⟨item, required_congr h hitem, ?_⟩
  unfold optional at hspec ⊢
  rw [h]
  exact hspec

theorem trimming?_congr (hname : u.name = t.name) (h : u.attributes = t.attributes) :
    u.trimming? = t.trimming? := by
  unfold trimming? trim words optional
  rw [hname, h]

end Markup.Tag

variable {table table' : Snippets} {opened opened' : List String}

/-- What holds of the fragments of a body holds of those of the other. -/
def SameBody (table table' : Snippets) (opened opened' : List String) (cs ds : List Content) :
    Prop :=
  ∀ fs, bodyFragments table opened cs = .ok fs → bodyFragments table' opened' ds = .ok fs

theorem Makes.of_same {tag other : Tag} {children others : List Content} {f : Fragment}
    (h : Makes table opened tag children f) (hname : other.name = tag.name)
    (hattributes : other.attributes = tag.attributes) (hplain : tag.name ≠ "include")
    (hbody : SameBody table table' opened opened' children others)
    (hchoice : ∀ choice, Chooses table opened children choice →
      Chooses table' opened' others choice) :
    Makes table' opened' other others f := by
  cases h with
  | conditional htag htest hfs =>
    exact .conditional (hname.trans htag) (Tag.expression_congr hattributes htest) (hbody _ hfs)
  | choose htag h =>
    have hchooses := hchoice _ (choiceFragments_eq_ok.1 h)
    exact .choose (hname.trans htag) (choiceFragments_eq_ok.2 hchooses)
  | loop htag hspec hfs =>
    exact .loop (hname.trans htag) (Tag.loop_congr hattributes hspec) (hbody _ hfs)
  | trim hspec hfs =>
    exact .trim ((Tag.trimming?_congr hname hattributes).trans hspec) (hbody _ hfs)
  | bind htag htext hvalue =>
    exact .bind (hname.trans htag) (Tag.required_congr hattributes htext)
      (Tag.expression_congr hattributes hvalue)
  | included htag => contradiction

theorem Chooses.text_cons {s : String} {cs : List Content} {choice : Choice} :
    Chooses table opened (.text s :: cs) choice ↔
      Text.isBlank s = true ∧ Chooses table opened cs choice := by
  constructor
  · intro h
    cases h with
    | blank hblank hrest => exact ⟨hblank, hrest⟩
  · intro ⟨hblank, hrest⟩
    exact .blank hblank hrest

/-- The fragments of a body and the branches of a choice, by one induction: a choice has bodies in
its branches, a body choices among its elements. -/
theorem Markup.SameContent.body_and_choice {cs ds : List Content} (h : SameContent cs ds)
    (hplain : anyInclude cs = false) :
    SameBody table table' opened opened' cs ds ∧
      ∀ choice, Chooses table opened cs choice → Chooses table' opened' ds choice := by
  induction h with
  | nil =>
    refine ⟨?_, ?_⟩
    · intro fs hfs
      rw [bodyFragments_nil] at hfs ⊢
      exact hfs
    · intro choice hchoice
      cases hchoice
      exact .done
  | text s _ ih =>
    rw [anyInclude, Content.hasInclude, Bool.false_or] at hplain
    obtain ⟨hbody, hchoice⟩ := ih hplain
    refine ⟨?_, ?_⟩
    · intro fs hfs
      obtain ⟨first, rest, hfirst, hrest, rfl⟩ := bodyFragments_cons_eq_ok.1 hfs
      exact bodyFragments_cons_eq_ok.2 ⟨first, rest, hfirst, hbody rest hrest, rfl⟩
    · intro choice h
      rw [Chooses.text_cons] at h ⊢
      exact ⟨h.1, hchoice choice h.2⟩
  | @element tag other children others cs ds hname hattributes _ hrest ihChildren ih =>
    obtain ⟨htag, hchildren, hplain⟩ := anyInclude_element.1 hplain
    obtain ⟨hbodyInner, hchoiceInner⟩ := ihChildren hchildren
    obtain ⟨hbody, hchoice⟩ := ih hplain
    refine ⟨?_, ?_⟩
    · intro fs hfs
      obtain ⟨first, rest, hfirst, hafter, rfl⟩ := bodyFragments_cons_eq_ok.1 hfs
      obtain ⟨f, hf, rfl⟩ := contentFragments_element_eq_ok.1 hfirst
      have hf' := hf.of_same hname hattributes htag hbodyInner hchoiceInner
      exact bodyFragments_cons_eq_ok.2
        ⟨[f], rest, contentFragments_element_eq_ok.2 ⟨f, hf', rfl⟩, hbody rest hafter, rfl⟩
    · intro choice h
      cases h with
      | when htag htest hfs h =>
        exact .when (hname.trans htag) (Tag.expression_congr hattributes htest)
          (hbodyInner _ hfs) (hchoice _ h)
      | otherwise htag hfs h =>
        rw [hrest.all_isBlankText] at h
        exact .otherwise (hname.trans htag) (hbodyInner _ hfs) h

theorem Markup.SameContent.bodyFragments_iff {cs ds : List Content} (h : SameContent cs ds)
    (hplain : anyInclude cs = false) {fs : List Fragment} :
    bodyFragments table opened cs = .ok fs ↔ bodyFragments table' opened' ds = .ok fs := by
  refine ⟨(h.body_and_choice hplain).1 fs, ?_⟩
  rw [h.anyInclude_eq] at hplain
  exact (h.symm.body_and_choice hplain).1 fs

end DynamicSql

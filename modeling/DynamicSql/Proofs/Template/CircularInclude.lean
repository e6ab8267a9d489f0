import DynamicSql.Proofs.Template.WellFormed

/-!
Where the error of a circular include comes from. Attributes and texts never give it, so a body that
has it leads to a snippet that is open already or that comes to itself (`leadsRound_of_error`).
-/

namespace DynamicSql

open Markup

/-- The snippet comes to itself through includes. -/
def OnCircle (find : String → Option Snippet) (s : Snippet) : Prop :=
  ∃ d ∈ s.children, Reaches find d s

/-- The part comes to a snippet that is open, or that comes to itself. -/
def LeadsRound (find : String → Option Snippet) (opened : List String) (c : Content) : Prop :=
  ∃ s, Reaches find c s ∧ (s.id ∈ opened ∨ OnCircle find s)

/-- Whatever else is wrong, no include is circular. -/
def NotCircular {α : Type} (x : Except TemplateError α) : Prop :=
  ∀ refid, x ≠ .error (.circularInclude refid)

namespace NotCircular

variable {α β : Type} {x : Except TemplateError α} {f : α → Except TemplateError β}
  {refid : String}

theorem ok (a : α) : NotCircular (.ok a) := by
  intro refid h
  cases h

theorem of_bind (hx : NotCircular x) (h : x >>= f = .error (.circularInclude refid)) :
    ∃ a, x = .ok a ∧ f a = .error (.circularInclude refid) :=
  (bind_eq_error.1 h).resolve_left (hx refid)

theorem bind (hx : NotCircular x) (hf : ∀ a, NotCircular (f a)) : NotCircular (x >>= f) := by
  intro refid h
  obtain ⟨a, _, hfa⟩ := hx.of_bind h
  exact hf a refid hfa

theorem mapM {g : α → Except TemplateError β} (hg : ∀ a, NotCircular (g a)) (as : List α) :
    NotCircular (as.mapM g) := by
  induction as with
  | nil => exact ok []
  | cons a as ih =>
    rw [List.mapM_cons]
    exact (hg a).bind fun b => ih.bind fun bs => ok (b :: bs)

theorem required (t : Tag) (name : String) : NotCircular (t.required name) := by
  intro refid h
  rw [Tag.required] at h
  split at h
  · split at h
    · cases h
    · cases h
  · cases h

theorem expression (t : Tag) (name : String) : NotCircular (t.expression name) := by
  apply (required t name).bind
  intro v refid h
  split at h
  · cases h
  · cases h

theorem path (t : Tag) (name : String) : NotCircular (t.path name) := by
  apply (required t name).bind
  intro v refid h
  split at h
  · cases h
  · cases h

theorem loop (t : Tag) : NotCircular t.loop :=
  (path t "collection").bind fun _ => (required t "item").bind fun _ => ok _

theorem textFragments (s : String) : NotCircular (textFragments s) := by
  apply mapM
  intro part refid h
  cases part with
  | text cs => cases h
  | unclosed mark => cases h
  | marker mark content =>
    rw [TextPart.fragment] at h
    split at h
    · cases h
    · cases mark with
      | bound => cases h
      | raw => cases h

end NotCircular

variable {table : Snippets} {opened : List String} {tag : Tag} {children : List Content}
  {refid : String}

theorem LeadsRound.inside {find : String → Option Snippet} (hinclude : tag.name ≠ "include")
    (hbind : tag.name ≠ "bind") (h : ∃ c ∈ children, LeadsRound find opened c) :
    LeadsRound find opened (.element tag children) := by
  obtain ⟨c, hc, s, hs, hround⟩ := h
  exact ⟨s, .inside hinclude hbind hc hs, hround⟩

/-- What the content of a snippet leads to behind an include: to the snippet itself, or further. -/
theorem LeadsRound.beyond {find : String → Option Snippet} (hapart : Apart find)
    {snippet : Snippet} (hname : tag.name = "include")
    (hrefid : tag.attributes.get? "refid" = some refid)
    (hfound : find (Text.trim refid) = some snippet)
    (h : ∃ c ∈ snippet.children, LeadsRound find (snippet.id :: opened) c) :
    LeadsRound find opened (.element tag children) := by
  obtain ⟨c, hc, s, hs, hround⟩ := h
  have hbeyond : Reaches find (.element tag children) s := .beyond hname hrefid hfound hc hs
  rw [List.mem_cons, or_assoc] at hround
  cases hround with
  | inl hid =>
    obtain ⟨name, hs'⟩ := hs.found
    cases hapart _ _ _ _ hs' hfound hid
    exact ⟨_, hbeyond, .inr ⟨c, hc, hs⟩⟩
  | inr hround => exact ⟨s, hbeyond, hround⟩

end DynamicSql

import DynamicSql.Proofs.Markup.Content

/-!
What the source of an element leaves out of its content: the pieces of text that follow the first
one of those at the end (`dropTextTail_append_textTail`). Without them the last text of the content
is shorter by what they stand for, and nothing else changes (`Reads.contents_dropTextTail`).
-/

namespace DynamicSql.Markup

/-- The pieces that are left out. -/
def textTail : List Piece → List Piece
  | [] => []
  | p :: ps => if p.isText && ps.all Piece.isText then ps else textTail ps

theorem dropTextTail_append_textTail (ps : List Piece) : dropTextTail ps ++ textTail ps = ps := by
  induction ps with
  | nil => rfl
  | cons p ps ih =>
    rw [dropTextTail, textTail]
    split
    · rfl
    · rw [List.cons_append, ih]

/-- What is left ends in the first of the texts at the end, if there are any. -/
theorem textTail_cases (ps : List Piece) :
    textTail ps = [] ∨ ∃ front p, dropTextTail ps = front ++ [p] ∧ p.isText = true ∧
      ∀ q ∈ textTail ps, q.isText = true := by
  induction ps with
  | nil => exact .inl rfl
  | cons p ps ih =>
    rw [dropTextTail, textTail]
    split
    · next htexts =>
      rw [Bool.and_eq_true] at htexts
      exact .inr ⟨[], p, rfl, htexts.1, List.all_eq_true.1 htexts.2⟩
    · obtain hnil | ⟨front, q, hfront, hq⟩ := ih
      · exact .inl hnil
      · exact .inr ⟨p :: front, q, by rw [hfront]; rfl, hq⟩

/-- The source of an element is that of the lexemes of what is left. -/
theorem Reads.exists_front {content : List Lexeme} {ps : List Piece} (h : Reads content ps) :
    ∃ front back, content = front ++ back ∧ Reads front (dropTextTail ps) ∧
      Reads back (textTail ps) ∧ innerSource ps = sourceText front := by
  have hps := h
  rw [← dropTextTail_append_textTail ps] at hps
  obtain ⟨front, back, hcontent, hfront, hback⟩ := hps.of_append
  exact ⟨front, back, hcontent, hfront, hback, congrArg String.ofList hfront.flatMap_source⟩

/-- The text that a piece stands for. -/
def Piece.value (p : Piece) : String :=
  match p.content with
  | some (.text s) => s
  | _ => ""

/-- What the pieces that are left out stand for. -/
def tailText (ps : List Piece) : String :=
  String.join ((textTail ps).map Piece.value)

theorem Reads.content_of_isText {ls : List Lexeme} {ps : List Piece} (h : Reads ls ps) {p : Piece}
    (hp : p ∈ ps) (htext : p.isText = true) : p.content = some (.text p.value) := by
  induction h with
  | nil => cases hp
  | text _ _ ih =>
    obtain rfl | hp := List.mem_cons.1 hp
    · rfl
    · exact ih hp
  | dropped _ _ ih | empty _ _ _ ih | element _ _ _ _ _ _ ih =>
    obtain rfl | hp := List.mem_cons.1 hp
    · cases htext
    · exact ih hp

/-- A text, unless it is empty. -/
def textContent (s : String) : List Content :=
  if s.isEmpty then [] else [.text s]

/-- Puts a text in front, into the text there if there is one. -/
def prependText (s : String) : List Content → List Content
  | .text t :: rest => .text (s ++ t) :: rest
  | rest => textContent s ++ rest

theorem joinTexts_text_cons (s : String) (cs : List Content) :
    joinTexts (.text s :: cs) = prependText s (joinTexts cs) := by
  have hempty (ds : List Content) :
      (if s.isEmpty then ds else .text s :: ds) = textContent s ++ ds := by
    unfold textContent
    split <;> rfl
  rw [joinTexts]
  cases joinTexts cs with
  | nil => exact hempty []
  | cons d ds =>
    cases d with
    | text t => rfl
    | element tag children => exact hempty (.element tag children :: ds)

theorem prependText_textContent (s t : String) :
    prependText s (textContent t) = textContent (s ++ t) := by
  by_cases ht : t = ""
  · subst ht
    rw [String.append_empty]
    exact List.append_nil (textContent s)
  · unfold textContent
    rw [if_neg (by simpa using ht), if_neg (by simp [ht])]
    rfl

theorem prependText_append (s : String) (c : Content) (cs ds : List Content) :
    prependText s (c :: cs ++ ds) = prependText s (c :: cs) ++ ds := by
  cases c with
  | text t => rfl
  | element tag children => exact (List.append_assoc (textContent s) (_ :: cs) ds).symm

/-- Texts at the end are added to the one before them. -/
theorem exists_joinTexts (cs : List Content) :
    ∃ front s, ∀ texts : List String,
      joinTexts (cs ++ texts.map .text) = front ++ textContent (s ++ String.join texts) := by
  induction cs with
  | nil =>
    refine ⟨[], "", ?_⟩
    intro texts
    rw [String.empty_append, List.nil_append, List.nil_append]
    induction texts with
    | nil => rfl
    | cons t texts ih =>
      rw [List.map_cons, joinTexts_text_cons, ih, prependText_textContent, String.join_cons]
  | cons c cs ih =>
    obtain ⟨front, s, h⟩ := ih
    cases c with
    | element tag children =>
      refine ⟨.element tag children :: front, s, ?_⟩
      intro texts
      rw [List.cons_append, joinTexts, h texts]
      rfl
    | text t =>
      cases front with
      | nil =>
        refine ⟨[], t ++ s, ?_⟩
        intro texts
        rw [List.cons_append, joinTexts_text_cons, h texts, List.nil_append,
          prependText_textContent, String.append_assoc]
        rfl
      | cons d front =>
        refine ⟨prependText t (d :: front), s, ?_⟩
        intro texts
        rw [List.cons_append, joinTexts_text_cons, h texts, prependText_append]

theorem Reads.filterMap_content {ls : List Lexeme} {ps qs : List Piece} (h : Reads ls ps)
    (hqs : ∀ q ∈ qs, q ∈ ps ∧ q.isText = true) :
    qs.filterMap Piece.content = (qs.map Piece.value).map .text := by
  induction qs with
  | nil => rfl
  | cons q qs ih =>
    obtain ⟨⟨hq, htext⟩, hqs⟩ := List.forall_mem_cons.1 hqs
    rw [List.filterMap_cons_some (h.content_of_isText hq htext), ih hqs]
    rfl

/-- The content with and without the pieces that are left out. -/
theorem Reads.contents_dropTextTail {ls : List Lexeme} {ps : List Piece} (h : Reads ls ps) :
    ∃ front s, contents (dropTextTail ps) = front ++ textContent s ∧
      contents ps = front ++ textContent (s ++ tailText ps) := by
  have hps := dropTextTail_append_textTail ps
  obtain hnil | ⟨left, p, hleft, hp, htail⟩ := textTail_cases ps
  · refine ⟨contents ps, "", ?_, ?_⟩
    · rw [hnil, List.append_nil] at hps
      rw [hps]
      exact (List.append_nil _).symm
    · rw [tailText, hnil]
      exact (List.append_nil _).symm
  · rw [hleft] at hps
    have hone : [p].filterMap Piece.content = ([p].map Piece.value).map .text := by
      apply h.filterMap_content
      rw [List.forall_mem_singleton, ← hps]
      simp [hp]
    have hmore : (p :: textTail ps).filterMap Piece.content =
        ((p :: textTail ps).map Piece.value).map .text := by
      apply h.filterMap_content
      rw [List.forall_mem_cons]
      refine ⟨⟨by rw [← hps]; simp, hp⟩, ?_⟩
      intro q hq
      exact ⟨by rw [← hps]; simp [hq], htail q hq⟩
    obtain ⟨front, s, hjoin⟩ := exists_joinTexts (left.filterMap Piece.content)
    refine ⟨front, s ++ p.value, ?_, ?_⟩
    · rw [hleft, contents, List.filterMap_append, hone, hjoin]
      simp
    · have hall : ps.filterMap Piece.content = left.filterMap Piece.content ++
          ((p :: textTail ps).map Piece.value).map .text := by
        rw [← hmore, ← List.filterMap_append, List.append_cons, hps]
      rw [contents, hall, hjoin, List.map_cons, String.join_cons, String.append_assoc]
      rfl

end DynamicSql.Markup

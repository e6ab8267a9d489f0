import Mathlib.Data.List.Chain
import DynamicSql.Proofs.Markup.Document

/-!
The texts in the content of a document. Comments, instructions and character data split a text into
pieces, and reading puts the pieces together again: at any depth no text is empty, and something
else stands between two texts (`areJoined_of_read`).
-/

namespace DynamicSql

/-- None of the texts in a list is empty, and no two of them stand side by side. -/
structure TextsJoined {α : Type} (text? : α → Option String) (as : List α) : Prop where
  nonempty : ∀ a ∈ as, text? a ≠ some ""
  apart : as.IsChain fun a b => text? a = none ∨ text? b = none

namespace TextsJoined

variable {α : Type} {text? : α → Option String} {a : α} {as bs : List α}

theorem nil : TextsJoined text? [] :=
  ⟨nofun, .nil⟩

theorem cons_iff :
    TextsJoined text? (a :: as) ↔
      text? a ≠ some "" ∧ (∀ b ∈ as.head?, text? a = none ∨ text? b = none) ∧
        TextsJoined text? as := by
  constructor
  · intro ⟨hnonempty, hapart⟩
    obtain ⟨ha, hnonempty⟩ := List.forall_mem_cons.1 hnonempty
    obtain ⟨hhead, hapart⟩ := List.isChain_cons.1 hapart
    exact ⟨ha, hhead, hnonempty, hapart⟩
  · intro ⟨ha, hhead, hnonempty, hapart⟩
    exact ⟨List.forall_mem_cons.2 ⟨ha, hnonempty⟩, List.isChain_cons.2 ⟨hhead, hapart⟩⟩

/-- What is no text may stand in front of anything. -/
theorem cons_other (ha : text? a = none) (h : TextsJoined text? as) :
    TextsJoined text? (a :: as) :=
  cons_iff.2 ⟨by simp [ha], fun _ _ => .inl ha, h⟩

/-- Nothing stands side by side at the seam if the second list does not start with a text. -/
theorem append (has : TextsJoined text? as) (hbs : TextsJoined text? bs)
    (hhead : ∀ b ∈ bs.head?, text? b = none) : TextsJoined text? (as ++ bs) where
  nonempty a ha := (List.mem_append.1 ha).elim (has.nonempty a) (hbs.nonempty a)
  apart := List.isChain_append.2 ⟨has.apart, hbs.apart, fun _ _ b hb => .inr (hhead b hb)⟩

end TextsJoined

namespace Markup

def Content.text? : Content → Option String
  | .text s => some s
  | .element _ _ => none

theorem textsJoined_joinTexts (cs : List Content) : TextsJoined Content.text? (joinTexts cs) := by
  induction cs with
  | nil => exact .nil
  | cons c cs ih =>
    cases c with
    | element tag children => exact .cons_other rfl ih
    | text s =>
      rw [joinTexts]
      generalize joinTexts cs = ds at ih ⊢
      split
      · next t rest =>
        obtain ⟨ht, hhead, hrest⟩ := TextsJoined.cons_iff.1 ih
        have hjoined : s ++ t ≠ "" := by
          intro h
          exact ht (congrArg some (String.append_eq_empty_iff.1 h).2)
        exact TextsJoined.cons_iff.2 ⟨mt Option.some.inj hjoined, fun b hb =>
          .inr ((hhead b hb).resolve_left (Option.some_ne_none t)), hrest⟩
      · next hother =>
        split
        · exact ih
        · next hs =>
          have hhead : ∀ b ∈ ds.head?, b.text? = none := by
            intro b hb
            cases b with
            | element => rfl
            | text t =>
              obtain ⟨rest, rfl⟩ := List.head?_eq_some_iff.1 hb
              exact absurd rfl (hother t rest)
          have hne : s ≠ "" := by simpa using hs
          exact TextsJoined.cons_iff.2
            ⟨mt Option.some.inj hne, fun b hb => .inr (hhead b hb), ih⟩

/-- Content whose texts are joined at any depth. -/
inductive Content.IsJoined : Content → Prop where
  | text (s : String) : IsJoined (.text s)
  | element {tag : Tag} {children : List Content}
      (hjoined : TextsJoined Content.text? children) (hchildren : ∀ c ∈ children, c.IsJoined) :
      IsJoined (.element tag children)

structure AreJoined (cs : List Content) : Prop where
  here : TextsJoined Content.text? cs
  below : ∀ c ∈ cs, c.IsJoined

namespace AreJoined

variable {c : Content} {cs children : List Content} {tag : Tag}

theorem tail (h : AreJoined (c :: cs)) : AreJoined cs :=
  ⟨(TextsJoined.cons_iff.1 h.here).2.2, fun d hd => h.below d (List.mem_cons_of_mem c hd)⟩

theorem children_of_mem (h : AreJoined cs) (hmem : .element tag children ∈ cs) :
    AreJoined children := by
  cases h.below _ hmem with
  | element hjoined hchildren => exact ⟨hjoined, hchildren⟩

end AreJoined

/-- The content of the element that a part is, if it is one, is joined. -/
def Piece.IsJoined (p : Piece) : Prop :=
  ∀ tag children, p.content = some (.element tag children) → AreJoined children

theorem areJoined_contents {ps : List Piece} (h : ∀ p ∈ ps, p.IsJoined) :
    AreJoined (contents ps) := by
  refine ⟨textsJoined_joinTexts _, fun c hc => ?_⟩
  cases c with
  | text s => exact .text s
  | element tag children =>
    obtain ⟨p, hp, hcontent⟩ := mem_contents.1 hc
    obtain ⟨hjoined, hchildren⟩ := h p hp tag children hcontent
    exact .element hjoined hchildren

namespace Piece.IsJoined

theorem text (source : List Char) (value : String) : (textPiece source value).IsJoined := by
  intro tag children h
  cases h

theorem dropped (source : List Char) : Piece.IsJoined ⟨source, none, false⟩ := by
  intro tag children h
  cases h

theorem element (start : Lexeme) (name : Name) (attributes : Entries String) {inner : List Piece}
    (finish : List Char) (h : ∀ p ∈ inner, p.IsJoined) :
    (elementPiece start name attributes inner finish).IsJoined := by
  intro tag children hcontent
  cases hcontent
  exact areJoined_contents h

end Piece.IsJoined

variable {bindings : Bindings} {ls rest : List Lexeme} {ps : List Piece}

theorem length_of_pieces? (h : pieces? bindings ls = some (ps, rest)) :
    rest.length ≤ ls.length := by
  obtain ⟨⟨_, rest, hlength⟩, _, heq⟩ := Option.map_eq_some_iff.1 h
  cases heq
  exact hlength

/-- All parts that are read are joined, whatever prefixes are bound. -/
theorem isJoined_of_pieces? (h : pieces? bindings ls = some (ps, rest)) :
    ∀ p ∈ ps, p.IsJoined := by
  induction hn : ls.length using Nat.strong_induction_on generalizing bindings ls rest ps with
  | h n ih =>
    subst hn
    cases ls with
    | nil =>
      rw [pieces?_nil] at h
      cases h
      exact List.forall_mem_nil _
    | cons l r =>
      have hr : r.length < (l :: r).length := Nat.lt_succ_self _
      have hstep {p : Piece} {more : List Lexeme} (hlength : more.length < (l :: r).length)
          (hp : p.IsJoined)
          (h : (pieces? bindings more).map (fun q => (p :: q.1, q.2)) = some (ps, rest)) :
          ∀ q ∈ ps, q.IsJoined := by
        obtain ⟨⟨qs, _⟩, hqs, heq⟩ := Option.map_eq_some_iff.1 h
        cases heq
        exact List.forall_mem_cons.2 ⟨hp, ih more.length hlength hqs rfl⟩
      cases htoken : l.token with
      | endTag name =>
        rw [pieces?_endTag htoken] at h
        cases h
        exact List.forall_mem_nil _
      | text value =>
        rw [pieces?_text (.inl htoken)] at h
        exact hstep hr (.text _ _) h
      | cdata value =>
        rw [pieces?_text (.inr htoken)] at h
        exact hstep hr (.text _ _) h
      | comment =>
        rw [pieces?_dropped (.inl htoken)] at h
        exact hstep hr (.dropped _) h
      | instruction =>
        rw [pieces?_dropped (.inr htoken)] at h
        exact hstep hr (.dropped _) h
      | startTag name as isEmpty =>
        cases isEmpty with
        | true =>
          rw [pieces?_empty htoken] at h
          obtain ⟨⟨_, attributes⟩, _, h⟩ := Option.bind_eq_some_iff.1 h
          exact hstep hr (.element l name attributes [] (List.forall_mem_nil _)) h
        | false =>
          rw [pieces?_element htoken] at h
          obtain ⟨⟨inside, attributes⟩, _, h⟩ := Option.bind_eq_some_iff.1 h
          obtain ⟨⟨inner, after⟩, hinner, hclose⟩ := Option.bind_eq_some_iff.1 h
          have hjoined := ih r.length hr hinner rfl
          have hafter := length_of_pieces? hinner
          cases after with
          | nil => cases hclose
          | cons finish after =>
            dsimp only at hclose
            split at hclose
            · rw [List.length_cons] at hafter
              exact hstep (Nat.lt_succ_of_lt hafter)
                (.element l name attributes finish.source hjoined) hclose
            · cases hclose

theorem areJoined_of_read {source : String} {e : Element} (h : read source = .ok e) :
    AreJoined e.children := by
  obtain ⟨ls, ps, _, hps, hroot⟩ := read_eq_ok.1 h
  obtain ⟨p, hp, hcontent⟩ := mem_contents.1 (mem_contents_of_rootOf? hroot)
  exact isJoined_of_pieces? hps p hp e.tag e.children hcontent

end Markup

end DynamicSql

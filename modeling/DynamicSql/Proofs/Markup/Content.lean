import DynamicSql.Markup.Element
import DynamicSql.Proofs.Markup.Lexing

/-!
Content without prefixes, as a grammar: `Reads ls ps` says that the lexemes are those of the parts,
with start and end tags that belong together. The reader of parts finds exactly these
(`reads_of_pieces?`, `Reads.pieces?_eq`). What is read does not depend on lines
(`Reads.sameTokens`).
-/

namespace DynamicSql.Markup

/-! Tags without prefixes -/

def Name.IsUnprefixed (n : Name) : Prop :=
  n.space = []

def Token.IsUnprefixed : Token → Prop
  | .startTag name as _ => name.IsUnprefixed ∧ ∀ a ∈ as, a.name.IsUnprefixed
  | .endTag name => name.IsUnprefixed
  | _ => True

instance (n : Name) : Decidable n.IsUnprefixed :=
  inferInstanceAs (Decidable (n.space = []))

instance : (t : Token) → Decidable t.IsUnprefixed
  | .startTag name as _ =>
    inferInstanceAs (Decidable (name.IsUnprefixed ∧ ∀ a ∈ as, a.name.IsUnprefixed))
  | .endTag name => inferInstanceAs (Decidable name.IsUnprefixed)
  | .text _ | .cdata _ | .comment | .instruction => isTrue trivial

theorem declared?_of_unprefixed {as : List Attribute} {bindings : Bindings}
    (hplain : ∀ a ∈ as, a.name.IsUnprefixed) (h : declared? as = some bindings) : bindings = [] := by
  induction as generalizing bindings with
  | nil =>
    cases h
    rfl
  | cons a as ih =>
    obtain ⟨hspace, hplain⟩ := List.forall_mem_cons.1 hplain
    obtain ⟨outer, houter, h⟩ := Option.bind_eq_some_iff.1 h
    have hspace : (a.name.space != xmlnsSpace) = true := by
      rw [hspace]
      rfl
    simp only [hspace, Bool.true_or, if_true] at h
    rw [ih hplain houter] at h
    split at h
    · cases h
      rfl
    · split at h
      · cases h
      · cases h
        rfl

theorem openTag?_of_unprefixed {name : Name} {as : List Attribute} {inside : Bindings}
    {attributes : Entries String} (hplain : ∀ a ∈ as, a.name.IsUnprefixed)
    (h : openTag? [] name as = some (inside, attributes)) : inside = [] := by
  unfold openTag? at h
  split at h
  · cases h
  · obtain ⟨own, hown, h⟩ := Option.bind_eq_some_iff.1 h
    obtain ⟨_, _, h⟩ := Option.bind_eq_some_iff.1 h
    rw [declared?_of_unprefixed hplain hown] at h
    split at h
    · cases h
      rfl
    · cases h

/-! One equation for each kind of token -/

/-- The parts and the lexemes behind them. -/
def pieces? (bindings : Bindings) (ls : List Lexeme) : Option (List Piece × List Lexeme) :=
  (readPieces? bindings ls).map fun p => (p.1, p.2.1)

variable {bindings : Bindings} {l : Lexeme} {r : List Lexeme}

theorem pieces?_nil : pieces? bindings [] = some ([], []) := by
  rw [pieces?, readPieces?]
  rfl

theorem pieces?_endTag {name : Name} (h : l.token = .endTag name) :
    pieces? bindings (l :: r) = some ([], l :: r) := by
  rw [pieces?, readPieces?, h]
  rfl

theorem pieces?_text {value : String} (h : l.token = .text value ∨ l.token = .cdata value) :
    pieces? bindings (l :: r) =
      (pieces? bindings r).map fun p => (textPiece l.source value :: p.1, p.2) := by
  rw [pieces?, readPieces?, pieces?]
  obtain h | h := h
  all_goals
    rw [h]
    cases readPieces? bindings r <;> rfl

theorem pieces?_dropped (h : l.token = .comment ∨ l.token = .instruction) :
    pieces? bindings (l :: r) =
      (pieces? bindings r).map fun p => (⟨l.source, none, false⟩ :: p.1, p.2) := by
  rw [pieces?, readPieces?, pieces?]
  obtain h | h := h
  all_goals
    rw [h]
    cases readPieces? bindings r <;> rfl

theorem pieces?_empty {name : Name} {as : List Attribute} (h : l.token = .startTag name as true) :
    pieces? bindings (l :: r) =
      (openTag? bindings name as).bind fun o =>
        (pieces? bindings r).map fun p => (elementPiece l name o.2 [] [] :: p.1, p.2) := by
  rw [pieces?, readPieces?, pieces?, h]
  dsimp only
  cases openTag? bindings name as with
  | none => rfl
  | some o => cases readPieces? bindings r <;> rfl

theorem pieces?_element {name : Name} {as : List Attribute}
    (h : l.token = .startTag name as false) :
    pieces? bindings (l :: r) =
      (openTag? bindings name as).bind fun o => (pieces? o.1 r).bind fun p =>
        match p.2 with
        | [] => none
        | e :: after =>
          if e.token = .endTag name then
            (pieces? bindings after).map fun q =>
              (elementPiece l name o.2 p.1 e.source :: q.1, q.2)
          else none := by
  rw [pieces?, readPieces?, h]
  dsimp only
  cases openTag? bindings name as with
  | none => rfl
  | some o =>
    obtain ⟨inside, attributes⟩ := o
    dsimp only [Option.bind_some, Option.bind_eq_bind]
    rw [pieces?]
    cases readPieces? inside r with
    | none => rfl
    | some p =>
      obtain ⟨inner, ⟨_ | ⟨e, after⟩, hlength⟩⟩ := p
      · rfl
      · dsimp only [Option.bind_some, Option.map_some]
        rw [pieces?]
        split
        · cases readPieces? bindings after <;> rfl
        · rfl

/-! The grammar -/

/-- The lexemes of some parts, in a document without prefixes. -/
inductive Reads : List Lexeme → List Piece → Prop where
  | nil : Reads [] []
  | text {l : Lexeme} {value : String} {ls : List Lexeme} {ps : List Piece}
      (htoken : l.token = .text value ∨ l.token = .cdata value) (hrest : Reads ls ps) :
      Reads (l :: ls) (textPiece l.source value :: ps)
  | dropped {l : Lexeme} {ls : List Lexeme} {ps : List Piece}
      (htoken : l.token = .comment ∨ l.token = .instruction) (hrest : Reads ls ps) :
      Reads (l :: ls) (⟨l.source, none, false⟩ :: ps)
  | empty {l : Lexeme} {name : Name} {as : List Attribute} {attributes : Entries String}
      {ls : List Lexeme} {ps : List Piece} (htoken : l.token = .startTag name as true)
      (hopen : openTag? [] name as = some ([], attributes)) (hrest : Reads ls ps) :
      Reads (l :: ls) (elementPiece l name attributes [] [] :: ps)
  | element {start finish : Lexeme} {name : Name} {as : List Attribute}
      {attributes : Entries String} {content ls : List Lexeme} {inner ps : List Piece}
      (hstart : start.token = .startTag name as false)
      (hopen : openTag? [] name as = some ([], attributes)) (hinner : Reads content inner)
      (hfinish : finish.token = .endTag name) (hrest : Reads ls ps) :
      Reads (start :: (content ++ finish :: ls))
        (elementPiece start name attributes inner finish.source :: ps)

theorem Reads.flatMap_source {ls : List Lexeme} {ps : List Piece} (h : Reads ls ps) :
    ps.flatMap Piece.source = sourceOf ls := by
  induction h with
  | nil => rfl
  | text _ _ ih | dropped _ _ ih => exact congrArg (_ ++ ·) ih
  | empty _ _ _ ih =>
    rw [List.flatMap_cons, ih, sourceOf_cons]
    simp [elementPiece]
  | element _ _ _ _ _ ihInner ih =>
    rw [List.flatMap_cons, ih]
    simp [elementPiece, ihInner]

theorem Reads.eq_nil_iff {ls : List Lexeme} {ps : List Piece} (h : Reads ls ps) :
    ls = [] ↔ ps = [] := by
  cases h <;> simp

theorem reads_of_pieces? {ls rest : List Lexeme} {ps : List Piece}
    (hplain : ∀ l ∈ ls, l.token.IsUnprefixed) (h : pieces? [] ls = some (ps, rest)) :
    ∃ front, ls = front ++ rest ∧ Reads front ps := by
  induction hn : ls.length using Nat.strong_induction_on generalizing ls rest ps with
  | h n ih =>
    subst hn
    cases ls with
    | nil =>
      rw [pieces?_nil] at h
      cases h
      exact ⟨[], rfl, .nil⟩
    | cons l r =>
      obtain ⟨hl, hr⟩ := List.forall_mem_cons.1 hplain
      have hstep {p : Piece} (hcons : ∀ {front ps}, Reads front ps → Reads (l :: front) (p :: ps))
          (h : (pieces? [] r).map (fun q => (p :: q.1, q.2)) = some (ps, rest)) :
          ∃ front, l :: r = front ++ rest ∧ Reads front ps := by
        obtain ⟨⟨ps, rest⟩, hp, heq⟩ := Option.map_eq_some_iff.1 h
        cases heq
        obtain ⟨front, rfl, hfront⟩ := ih r.length (Nat.lt_succ_self _) hr hp rfl
        exact ⟨l :: front, rfl, hcons hfront⟩
      cases htoken : l.token with
      | endTag name =>
        rw [pieces?_endTag htoken] at h
        cases h
        exact ⟨[], rfl, .nil⟩
      | text value =>
        rw [pieces?_text (.inl htoken)] at h
        exact hstep (.text (.inl htoken)) h
      | cdata value =>
        rw [pieces?_text (.inr htoken)] at h
        exact hstep (.text (.inr htoken)) h
      | comment =>
        rw [pieces?_dropped (.inl htoken)] at h
        exact hstep (.dropped (.inl htoken)) h
      | instruction =>
        rw [pieces?_dropped (.inr htoken)] at h
        exact hstep (.dropped (.inr htoken)) h
      | startTag name as isEmpty =>
        rw [htoken] at hl
        cases isEmpty with
        | true =>
          rw [pieces?_empty htoken] at h
          obtain ⟨⟨inside, attributes⟩, hopen, h⟩ := Option.bind_eq_some_iff.1 h
          cases openTag?_of_unprefixed hl.2 hopen
          exact hstep (.empty htoken hopen) h
        | false =>
          rw [pieces?_element htoken] at h
          obtain ⟨⟨inside, attributes⟩, hopen, h⟩ := Option.bind_eq_some_iff.1 h
          obtain ⟨⟨inner, after⟩, hinner, hclose⟩ := Option.bind_eq_some_iff.1 h
          cases openTag?_of_unprefixed hl.2 hopen
          obtain ⟨content, rfl, hcontent⟩ := ih r.length (Nat.lt_succ_self _) hr hinner rfl
          cases after with
          | nil => cases hclose
          | cons finish after =>
            dsimp only at hclose
            split at hclose
            · next hfinish =>
              obtain ⟨⟨ps, rest⟩, hp, heq⟩ := Option.map_eq_some_iff.1 hclose
              cases heq
              have hafter : ∀ m ∈ after, m.token.IsUnprefixed := fun m hm =>
                hr m (List.mem_append_right content (List.mem_cons_of_mem finish hm))
              have hlength : after.length < (l :: (content ++ finish :: after)).length := by
                simp only [List.length_cons, List.length_append]
                omega
              obtain ⟨front, rfl, hfront⟩ := ih after.length hlength hafter hp rfl
              refine ⟨l :: (content ++ finish :: front), by simp, ?_⟩
              exact .element htoken hopen hcontent hfinish hfront
            · cases hclose

/-- Where the reader of parts stops: at an end tag, or at the end. -/
def Stops (ls : List Lexeme) : Prop :=
  ∀ l ∈ ls.head?, ∃ name, l.token = .endTag name

theorem Reads.pieces?_eq {ls rest : List Lexeme} {ps : List Piece} (h : Reads ls ps)
    (hrest : Stops rest) : pieces? [] (ls ++ rest) = some (ps, rest) := by
  induction h generalizing rest with
  | nil =>
    cases rest with
    | nil => exact pieces?_nil
    | cons l r =>
      obtain ⟨name, hname⟩ := hrest l rfl
      exact pieces?_endTag hname
  | text htoken _ ih =>
    rw [List.cons_append, pieces?_text htoken, ih hrest]
    rfl
  | dropped htoken _ ih =>
    rw [List.cons_append, pieces?_dropped htoken, ih hrest]
    rfl
  | empty htoken hopen _ ih =>
    rw [List.cons_append, pieces?_empty htoken, hopen, Option.bind_some, ih hrest]
    rfl
  | @element _ finish name _ _ content ls _ _ hstart hopen _ hfinish _ ihInner ih =>
    have hstop : Stops (finish :: (ls ++ rest)) := by
      rintro _ ⟨⟩
      exact ⟨name, hfinish⟩
    rw [List.cons_append, List.append_assoc, List.cons_append, pieces?_element hstart, hopen,
      Option.bind_some, ihInner hstop, Option.bind_some]
    dsimp only
    rw [if_pos hfinish, ih hrest]
    rfl

/-- The lexemes of some of the parts come before those of the parts behind them. -/
theorem Reads.of_append {ls : List Lexeme} {ps qs : List Piece} (h : Reads ls (ps ++ qs)) :
    ∃ front back, ls = front ++ back ∧ Reads front ps ∧ Reads back qs := by
  induction ps generalizing ls with
  | nil => exact ⟨[], ls, rfl, .nil, h⟩
  | cons p ps ih =>
    cases h with
    | text htoken hrest =>
      obtain ⟨front, back, rfl, hfront, hback⟩ := ih hrest
      exact ⟨_ :: front, back, rfl, .text htoken hfront, hback⟩
    | dropped htoken hrest =>
      obtain ⟨front, back, rfl, hfront, hback⟩ := ih hrest
      exact ⟨_ :: front, back, rfl, .dropped htoken hfront, hback⟩
    | empty htoken hopen hrest =>
      obtain ⟨front, back, rfl, hfront, hback⟩ := ih hrest
      exact ⟨_ :: front, back, rfl, .empty htoken hopen hfront, hback⟩
    | element hstart hopen hinner hfinish hrest =>
      obtain ⟨front, back, rfl, hfront, hback⟩ := ih hrest
      exact ⟨_ :: (_ ++ _ :: front), back, by simp,
        .element hstart hopen hinner hfinish hfront, hback⟩

/-! Content on other lines -/

/-- The same content, but for the lines of elements and their sources. -/
inductive SameContent : List Content → List Content → Prop where
  | nil : SameContent [] []
  | text (s : String) {cs ds : List Content} (hrest : SameContent cs ds) :
      SameContent (.text s :: cs) (.text s :: ds)
  | element {tag other : Tag} {children others cs ds : List Content}
      (hname : other.name = tag.name) (hattributes : other.attributes = tag.attributes)
      (hchildren : SameContent children others) (hrest : SameContent cs ds) :
      SameContent (.element tag children :: cs) (.element other others :: ds)

theorem SameContent.symm {cs ds : List Content} (h : SameContent cs ds) : SameContent ds cs := by
  induction h with
  | nil => exact .nil
  | text s _ ih => exact .text s ih
  | element hname hattributes _ _ ihChildren ih =>
    exact .element hname.symm hattributes.symm ihChildren ih

theorem SameContent.joinTexts {cs ds : List Content} (h : SameContent cs ds) :
    SameContent (joinTexts cs) (joinTexts ds) := by
  induction h with
  | nil => exact .nil
  | element hname hattributes hchildren _ _ ih => exact .element hname hattributes hchildren ih
  | @text s cs ds _ ih =>
    rw [Markup.joinTexts, Markup.joinTexts]
    generalize Markup.joinTexts cs = cs' at ih ⊢
    generalize Markup.joinTexts ds = ds' at ih ⊢
    cases ih with
    | nil =>
      dsimp only
      split
      · exact .nil
      · exact .text s .nil
    | text t hrest => exact .text (s ++ t) hrest
    | element hname hattributes hchildren hrest =>
      dsimp only
      split
      · exact .element hname hattributes hchildren hrest
      · exact .text s (.element hname hattributes hchildren hrest)

theorem SameTokens.of_cons {l : Lexeme} {ls ms : List Lexeme} (h : SameTokens (l :: ls) ms) :
    ∃ m rest, ms = m :: rest ∧ m.token = l.token ∧ SameTokens ls rest := by
  obtain ⟨m, rest, rfl, hm, hrest⟩ := List.map_eq_cons_iff.1 h.symm
  exact ⟨m, rest, rfl, hm, hrest.symm⟩

theorem SameTokens.of_append {ls ms ns : List Lexeme} (h : SameTokens (ls ++ ms) ns) :
    ∃ front back, ns = front ++ back ∧ SameTokens ls front ∧ SameTokens ms back := by
  unfold SameTokens at h
  rw [List.map_append] at h
  obtain ⟨front, back, rfl, hfront, hback⟩ := List.map_eq_append_iff.1 h.symm
  exact ⟨front, back, rfl, hfront.symm, hback.symm⟩

/-- The same tokens on other lines have parts with the same content. -/
theorem Reads.sameTokens {ls ms : List Lexeme} {ps : List Piece} (h : Reads ls ps)
    (hsame : SameTokens ls ms) :
    ∃ qs, Reads ms qs ∧
      SameContent (ps.filterMap Piece.content) (qs.filterMap Piece.content) := by
  induction h generalizing ms with
  | nil =>
    cases List.map_eq_nil_iff.1 hsame.symm
    exact ⟨[], .nil, .nil⟩
  | @text l value _ _ htoken _ ih =>
    obtain ⟨m, rest, rfl, hm, hrest⟩ := hsame.of_cons
    obtain ⟨qs, hqs, hcontent⟩ := ih hrest
    rw [← hm] at htoken
    exact ⟨_ :: qs, .text htoken hqs, .text value hcontent⟩
  | dropped htoken _ ih =>
    obtain ⟨m, rest, rfl, hm, hrest⟩ := hsame.of_cons
    obtain ⟨qs, hqs, hcontent⟩ := ih hrest
    rw [← hm] at htoken
    exact ⟨_ :: qs, .dropped htoken hqs, hcontent⟩
  | empty htoken hopen _ ih =>
    obtain ⟨m, rest, rfl, hm, hrest⟩ := hsame.of_cons
    obtain ⟨qs, hqs, hcontent⟩ := ih hrest
    rw [← hm] at htoken
    exact ⟨_ :: qs, .empty htoken hopen hqs, .element rfl rfl .nil hcontent⟩
  | element hstart hopen _ hfinish _ ihInner ih =>
    obtain ⟨m, rest, rfl, hm, hrest⟩ := hsame.of_cons
    obtain ⟨content, rest, rfl, hcontent, hrest⟩ := hrest.of_append
    obtain ⟨n, rest, rfl, hn, hrest⟩ := hrest.of_cons
    obtain ⟨inner, hinner, hsameInner⟩ := ihInner hcontent
    obtain ⟨qs, hqs, hsameRest⟩ := ih hrest
    rw [← hm] at hstart
    rw [← hn] at hfinish
    exact ⟨_ :: qs, .element hstart hopen hinner hfinish hqs,
      .element rfl rfl hsameInner.joinTexts hsameRest⟩

end DynamicSql.Markup

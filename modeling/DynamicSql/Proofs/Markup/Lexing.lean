import DynamicSql.Proofs.Markup.Locality

/-!
The lexemes of a text. Their sources make up the text, and lexemes that are followed by others are
read again, token by token, from their sources in front of any rest that begins with an angle
bracket (`lexemes?_append`).
-/

namespace DynamicSql.Markup

theorem lexemes?_nil (line : Nat) : lexemes? line [] = some [] := by
  rw [lexemes?]

theorem lexemes?_of_token {c : Char} {cs front rest : List Char} {t : Token}
    (h : readToken? (c :: cs) = some (t, rest)) (hfront : c :: cs = front ++ rest) (line : Nat) :
    lexemes? line (c :: cs) =
      (lexemes? (line + front.count '\n') rest).map (⟨t, front, line⟩ :: ·) := by
  have hsource : (c :: cs).take ((c :: cs).length - rest.length) = front := by
    rw [hfront, List.length_append, Nat.add_sub_cancel_right, List.take_left]
  rw [lexemes?]
  split
  · next t' rest' h' =>
    rw [h] at h'
    cases h'
    dsimp only
    rw [hsource]
  · next h' =>
    rw [h] at h'
    cases h'

/-- The first lexeme of a text is the token at its start. -/
theorem lexemes?_eq_cons {line : Nat} {cs : List Char} {l : Lexeme} {ls : List Lexeme}
    (h : lexemes? line cs = some (l :: ls)) :
    ∃ c r rest next, cs = c :: r ∧ readToken? (c :: r) = some (l.token, rest) ∧
      c :: r = l.source ++ rest ∧ l.source ≠ [] ∧ lexemes? next rest = some ls := by
  cases cs with
  | nil =>
    rw [lexemes?_nil] at h
    cases h
  | cons c cs =>
    cases ht : readToken? (c :: cs) with
    | none =>
      rw [lexemes?] at h
      split at h
      · next h' =>
        rw [ht] at h'
        cases h'
      · cases h
    | some p =>
      obtain ⟨t, rest⟩ := p
      obtain ⟨front, hne, hfront, _⟩ := readToken?_append ht
      rw [lexemes?_of_token ht hfront] at h
      obtain ⟨ls', hls, hl⟩ := Option.map_eq_some_iff.1 h
      cases hl
      exact ⟨c, cs, rest, _, rfl, ht, hfront, hne, hls⟩

theorem lexemes?_again {c : Char} {cs source rest : List Char} {t : Token}
    (ht : readToken? (c :: cs) = some (t, rest)) (hsource : c :: cs = source ++ rest)
    (line : Nat) {rest' : List Char}
    (hrest' : rest'.head? = rest.head? ∨ rest'.head? = some '<') :
    lexemes? line (source ++ rest') =
      (lexemes? (line + source.count '\n') rest').map (⟨t, source, line⟩ :: ·) := by
  obtain ⟨front, hne, hfront, hagain⟩ := readToken?_append ht
  have heq : front = source := List.append_cancel_right (hfront.symm.trans hsource)
  have hread := hagain rest' hrest'
  subst heq
  cases hcs : front ++ rest' with
  | nil => exact absurd (List.append_eq_nil_iff.1 hcs).1 hne
  | cons d ds =>
    rw [hcs] at hread
    exact lexemes?_of_token hread hcs.symm line

def sourceOf (ls : List Lexeme) : List Char :=
  ls.flatMap Lexeme.source

@[simp] theorem sourceOf_nil : sourceOf [] = [] := rfl

@[simp] theorem sourceOf_cons (l : Lexeme) (ls : List Lexeme) :
    sourceOf (l :: ls) = l.source ++ sourceOf ls := rfl

@[simp] theorem sourceOf_append (ls ms : List Lexeme) :
    sourceOf (ls ++ ms) = sourceOf ls ++ sourceOf ms :=
  List.flatMap_append

theorem sourceOf_eq_nil {ls : List Lexeme} (h : ∀ l ∈ ls, l.source ≠ []) :
    sourceOf ls = [] ↔ ls = [] := by
  cases ls with
  | nil => simp
  | cons l ls => simp [h l List.mem_cons_self]

def sourceText (ls : List Lexeme) : String :=
  String.ofList (sourceOf ls)

@[simp] theorem toList_sourceText (ls : List Lexeme) : (sourceText ls).toList = sourceOf ls :=
  String.toList_ofList

/-- The same tokens, perhaps on other lines. -/
def SameTokens (ls ms : List Lexeme) : Prop :=
  ls.map Lexeme.token = ms.map Lexeme.token

theorem lexemes?_append {line : Nat} {cs : List Char} {ls ms : List Lexeme}
    (h : lexemes? line cs = some (ls ++ ms)) :
    ∃ rest next, cs = sourceOf ls ++ rest ∧ lexemes? next rest = some ms ∧
      (∀ l ∈ ls, l.source ≠ []) ∧
      ∀ line' rest', rest'.head? = some '<' → ∃ ls', SameTokens ls ls' ∧
        lexemes? line' (sourceOf ls ++ rest') =
          (lexemes? (line' + (sourceOf ls).count '\n') rest').map (ls' ++ ·) := by
  induction ls generalizing line cs with
  | nil =>
    refine ⟨cs, line, rfl, h, nofun, ?_⟩
    intro line' rest' _
    refine ⟨[], rfl, ?_⟩
    exact (Option.map_id' (x := lexemes? line' rest')).symm
  | cons l ls ih =>
    obtain ⟨c, r, rest, next, rfl, ht, hsource, hne, hrest⟩ := lexemes?_eq_cons h
    obtain ⟨rest, last, rfl, hms, hsources, hls⟩ := ih hrest
    refine ⟨rest, last, ?_, hms, ?_, ?_⟩
    · rw [hsource, sourceOf_cons, List.append_assoc]
    · exact List.forall_mem_cons.2 ⟨hne, hsources⟩
    · intro line' rest' hrest'
      -- What follows the first lexeme begins as it did, or with the bracket of the new rest.
      have hhead : (sourceOf ls ++ rest').head? = (sourceOf ls ++ rest).head? ∨
          (sourceOf ls ++ rest').head? = some '<' := by
        cases sourceOf ls with
        | nil => exact .inr hrest'
        | cons d ds => exact .inl rfl
      obtain ⟨ls', hsame, hls'⟩ := hls (line' + l.source.count '\n') rest' hrest'
      refine ⟨⟨l.token, l.source, line'⟩ :: ls', congrArg (l.token :: ·) hsame, ?_⟩
      rw [sourceOf_cons, List.append_assoc, lexemes?_again ht hsource line' hhead, hls',
        List.count_append, Nat.add_assoc, Option.map_map]
      rfl

end DynamicSql.Markup

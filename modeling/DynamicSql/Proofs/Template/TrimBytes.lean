import DynamicSql.Proofs.Template.TrimRemains
import DynamicSql.Proofs.Text.ByteOffset

/-!
Trimming by byte offsets. The tokens are looked for at places that are counted in bytes, so a cut
might go through a character. The test for a boundary in front of each cut prevents this, and the
cuts are those of the characters (`byteCore?_eq`). What is taken away are the blanks at both ends and
the first token there that matches, and no more (`byteCore?_parts`).
-/

namespace DynamicSql

namespace Trim

/-- An end of a text. -/
inductive Side
  | leading
  | trailing

namespace Side

/-- The place of a cut that has so many bytes of the text on this side of it. -/
def place (side : Side) (s : String) (size : Nat) : Nat :=
  match side with
  | leading => size
  | trailing => s.utf8ByteSize - size

/-- What a cut has on this side of it, and on the other. -/
def parts (side : Side) (cut : String × String) : String × String :=
  match side with
  | leading => cut
  | trailing => cut.swap

/-- The text whose end on this side is the first one. -/
def join (side : Side) (outer inner : String) : String :=
  match side with
  | leading => outer ++ inner
  | trailing => inner ++ outer

/-- The characters from this side on. -/
def chars (side : Side) (s : String) : List Char :=
  match side with
  | leading => s.toList
  | trailing => s.toList.reverse

def text (side : Side) (cs : List Char) : String :=
  match side with
  | leading => String.ofList cs
  | trailing => String.ofList cs.reverse

end Side

/-- Cuts a token off one end of a text, if it is there. No result at all means that a cut would have
gone through a character. -/
def afterToken? (side : Side) (s token : String) : Option (Option String) :=
  if token ≠ "" ∧ token.utf8ByteSize ≤ s.utf8ByteSize ∧
      Text.isBoundary s (side.place s token.utf8ByteSize) = true then do
    let (found, rest) := side.parts (← Text.cutAt? s (side.place s token.utf8ByteSize))
    return if Text.sameLetters found token then some rest else none
  else some none

/-- Cuts the first of the tokens off that is there. -/
def cutToken? (side : Side) (s : String) : List String → Option String
  | [] => some s
  | token :: tokens => do
    match ← afterToken? side s token with
    | some rest => return rest
    | none => cutToken? side s tokens

/-- Trimming by the byte, with the blanks of each end taken away in front of the tokens there. -/
def byteCore? (t : Trim) (body : String) : Option String := do
  let s ← cutToken? .leading (String.ofList (Text.dropBlanks body.toList)) t.leadingOverrides
  cutToken? .trailing (String.ofList (Text.dropEndBlanks s.toList)) t.trailingOverrides

/-! One end -/

namespace Side

variable (side : Side) (s outer inner : String) (cs ds : List Char)

@[simp] theorem text_chars : side.text (side.chars s) = s := by
  cases side <;> simp [text, chars]

@[simp] theorem chars_text : side.chars (side.text cs) = cs := by
  cases side <;> simp [text, chars]

theorem chars_join : side.chars (side.join outer inner) = side.chars outer ++ side.chars inner := by
  cases side <;> simp [chars, join]

theorem text_append : side.text (cs ++ ds) = side.join (side.text cs) (side.text ds) := by
  cases side <;> simp [text, join, String.ofList_append]

theorem utf8ByteSize_join :
    (side.join outer inner).utf8ByteSize = outer.utf8ByteSize + inner.utf8ByteSize := by
  cases side
  · exact String.utf8ByteSize_append
  · exact String.utf8ByteSize_append.trans (Nat.add_comm _ _)

theorem place_join (outer inner : String) : side.place (side.join outer inner) outer.utf8ByteSize =
    match side with
    | leading => outer.utf8ByteSize
    | trailing => inner.utf8ByteSize := by
  cases side
  · rfl
  · rw [place, utf8ByteSize_join, Nat.add_sub_cancel_left]

theorem parts_cutAt?_join :
    (Text.cutAt? (side.join outer inner)
      (side.place (side.join outer inner) outer.utf8ByteSize)).map side.parts =
      some (outer, inner) := by
  rw [place_join]
  cases side
  · exact congrArg _ (Text.cutAt?_append outer inner)
  · exact congrArg _ (Text.cutAt?_append inner outer)

theorem isBoundary_join : Text.isBoundary (side.join outer inner)
    (side.place (side.join outer inner) outer.utf8ByteSize) = true := by
  rw [place_join]
  cases side
  · exact Text.isBoundary_append outer inner
  · exact Text.isBoundary_append inner outer

variable {side s} in
theorem exists_join_of_isBoundary {size : Nat} (hsize : size ≤ s.utf8ByteSize)
    (h : Text.isBoundary s (side.place s size) = true) :
    ∃ outer inner, s = side.join outer inner ∧ outer.utf8ByteSize = size := by
  obtain ⟨front, back, rfl, hfront⟩ := Text.exists_append_of_isBoundary h
  cases side with
  | leading => exact ⟨front, back, rfl, hfront⟩
  | trailing =>
    refine ⟨back, front, rfl, ?_⟩
    rw [place] at hfront
    rw [String.utf8ByteSize_append] at hfront hsize
    omega

variable {side outer inner} in
theorem join_inj {outer' inner' : String} (h : side.join outer inner = side.join outer' inner')
    (hsize : outer.utf8ByteSize = outer'.utf8ByteSize) : outer = outer' ∧ inner = inner' := by
  cases side with
  | leading => exact Text.append_inj_of_size h hsize
  | trailing =>
    have htotal := congrArg String.utf8ByteSize h
    rw [utf8ByteSize_join, utf8ByteSize_join] at htotal
    exact (Text.append_inj_of_size h (by omega)).symm

end Side

variable {side : Side} {s token found rest : String}

theorem matches_reverse_iff {word letters : List Char} :
    Matches word.reverse letters.reverse ↔ Matches word letters := by
  constructor
  · rintro ⟨hne, hletters⟩
    rw [List.map_reverse, List.map_reverse, List.reverse_inj] at hletters
    exact ⟨mt List.reverse_eq_nil_iff.2 hne, hletters⟩
  · rintro ⟨hne, hletters⟩
    refine ⟨mt List.reverse_eq_nil_iff.1 hne, ?_⟩
    rw [List.map_reverse, List.map_reverse, hletters]

theorem matches_chars_iff (side : Side) :
    Matches (side.chars token) (side.chars found) ↔
      token ≠ "" ∧ Text.sameLetters found token = true := by
  have hside : Matches (side.chars token) (side.chars found) ↔
      Matches token.toList found.toList := by
    cases side with
    | leading => exact Iff.rfl
    | trailing => exact matches_reverse_iff
  have hne : token.toList ≠ [] ↔ token ≠ "" := not_congr String.toList_eq_nil_iff
  rw [hside, Text.sameLetters_iff, ← hne]
  exact ⟨fun h => ⟨h.ne_nil, h.letters⟩, fun h => ⟨h.1, h.2⟩⟩

theorem afterWord?_chars_iff :
    afterWord? (side.chars token) (side.chars s) = some (side.chars rest) ↔
      ∃ found, s = side.join found rest ∧ token ≠ "" ∧ Text.sameLetters found token = true := by
  rw [afterWord?_eq_some_iff]
  constructor
  · rintro ⟨found, heq, hmatches⟩
    refine ⟨side.text found, ?_, (matches_chars_iff side).1 (by rwa [Side.chars_text])⟩
    rw [← side.text_chars s, heq, Side.text_append, Side.text_chars]
  · rintro ⟨found, rfl, htoken⟩
    exact ⟨_, side.chars_join found rest, (matches_chars_iff side).2 htoken⟩

theorem afterWord?_chars_eq_none (h : ∀ found rest, s = side.join found rest → token ≠ "" →
    ¬Text.sameLetters found token = true) :
    afterWord? (side.chars token) (side.chars s) = none := by
  refine Option.eq_none_iff_forall_ne_some.2 fun rest hrest => ?_
  rw [← side.chars_text rest] at hrest
  obtain ⟨found, heq, hne, hletters⟩ := afterWord?_chars_iff.1 hrest
  exact h found _ heq hne hletters

/-- The cut by the byte is one of characters, and it is always made. -/
theorem afterToken?_eq (side : Side) (s token : String) :
    afterToken? side s token =
      some ((afterWord? (side.chars token) (side.chars s)).map side.text) := by
  unfold afterToken?
  split
  · next hguard =>
    obtain ⟨hne, hsize, hboundary⟩ := hguard
    obtain ⟨outer, inner, rfl, houter⟩ := Side.exists_join_of_isBoundary hsize hboundary
    have hcut := side.parts_cutAt?_join outer inner
    rw [houter] at hcut
    obtain ⟨cut, hcut, hparts⟩ := Option.map_eq_some_iff.1 hcut
    simp only [hcut, Option.bind_eq_bind, Option.bind_some, hparts]
    by_cases hletters : Text.sameLetters outer token = true
    · rw [afterWord?_chars_iff.2 ⟨outer, rfl, hne, hletters⟩, if_pos hletters, Option.map_some,
        Side.text_chars]
      rfl
    · rw [afterWord?_chars_eq_none, if_neg hletters]
      · rfl
      · intro found rest heq _ hfound
        -- a token that is there has the bytes up to the place of the cut
        have hfoundSize := Text.utf8ByteSize_eq_of_sameLetters hfound
        obtain ⟨rfl, -⟩ := Side.join_inj heq (houter.trans hfoundSize.symm)
        exact hletters hfound
  · next hguard =>
    rw [afterWord?_chars_eq_none]
    · rfl
    · rintro found rest rfl hne hfound
      have hfoundSize := Text.utf8ByteSize_eq_of_sameLetters hfound
      refine hguard ⟨hne, ?_, ?_⟩
      · rw [Side.utf8ByteSize_join, hfoundSize]
        exact Nat.le_add_right _ _
      · rw [← hfoundSize]
        exact side.isBoundary_join found rest

theorem cutToken?_eq (side : Side) (s : String) (tokens : List String) :
    cutToken? side s tokens = some (side.text (dropWord (tokens.map side.chars) (side.chars s))) := by
  induction tokens with
  | nil => simp [cutToken?, dropWord]
  | cons token tokens ih =>
    rw [cutToken?, afterToken?_eq, List.map_cons]
    cases hafter : afterWord? (side.chars token) (side.chars s) with
    | none =>
      rw [dropWord_of_none hafter]
      exact ih
    | some rest =>
      rw [dropWord_of_some hafter]
      rfl

theorem byteCore?_eq (t : Trim) (body : String) :
    t.byteCore? body = some (String.ofList (t.core body.toList)) := by
  rw [byteCore?, cutToken?_eq, Option.bind_eq_bind, Option.bind_some, cutToken?_eq]
  simp only [Side.text, Side.chars, String.toList_ofList, core, dropEndWord, List.map_map]
  rfl

/-! What is taken away -/

/-- The text has these blanks in front, all that there are, and then the word that is found there,
which is none only if none of the words is there. -/
structure CutAway (words : List (List Char)) (cs blanks found rest : List Char) : Prop where
  text : cs = blanks ++ (found ++ rest)
  blanks : Blanks blanks
  maximal : found ++ rest = [] ∨ StartsInk (found ++ rest)
  word : FirstWord words found rest ∨
    found = [] ∧ ∀ word ∈ words, ∀ a b, rest = a ++ b → ¬Matches word a

/-- A text in its parts: what is left, and around it what is taken from the start and then, looked at
from there, from the end. -/
structure Parts (t : Trim) (body front first core last back : List Char) : Prop where
  start : CutAway t.leadingWords body front first (core ++ (last ++ back))
  stop : CutAway t.trailingWords (core ++ (last ++ back)).reverse back.reverse last.reverse
    core.reverse

variable {words : List (List Char)} {cs kept : List Char}

theorem CutAway.cut_eq {blanks found : List Char} (h : CutAway words cs blanks found kept) :
    cut words cs = kept := by
  have hblanks : Text.dropBlanks (blanks ++ (found ++ kept)) = found ++ kept := by
    obtain hnil | hink := h.maximal
    · rw [hnil, List.append_nil]
      exact List.dropWhile_eq_nil_iff.2 h.blanks
    · exact dropBlanks_of_startsInk h.blanks hink
  rw [cut, h.text, hblanks]
  obtain hfirst | ⟨rfl, hnone⟩ := h.word
  · exact hfirst.dropWord_eq
  · exact dropWord_of_not_matches hnone

theorem exists_cutAway (words : List (List Char)) (cs : List Char) :
    ∃ blanks found, CutAway words cs blanks found (cut words cs) := by
  obtain ⟨blanks, hblanks, hcs, hmaximal⟩ := dropBlanks_cases cs
  obtain ⟨found, rest, hsplit, hfirst⟩ | hnone := firstWord_or_not words (Text.dropBlanks cs)
  · have hcut : cut words cs = rest := by
      rw [cut, hsplit, hfirst.dropWord_eq]
    rw [hsplit] at hcs hmaximal
    exact ⟨blanks, found, hcut ▸ ⟨hcs, hblanks, hmaximal, .inl hfirst⟩⟩
  · have hcut : cut words cs = Text.dropBlanks cs := dropWord_of_not_matches hnone
    exact ⟨blanks, [], hcut ▸ ⟨hcs, hblanks, hmaximal, .inr ⟨rfl, hnone⟩⟩⟩

theorem parts_iff {t : Trim} {body core : List Char} :
    (∃ front first last back, t.Parts body front first core last back) ↔ t.core body = core := by
  constructor
  · rintro ⟨front, first, last, back, h⟩
    rw [core_eq_cut, h.start.cut_eq, h.stop.cut_eq, List.reverse_reverse]
  · rintro rfl
    obtain ⟨front, first, hstart⟩ := exists_cutAway t.leadingWords body
    obtain ⟨back, last, hstop⟩ := exists_cutAway t.trailingWords (cut t.leadingWords body).reverse
    have hcore : cut t.trailingWords (cut t.leadingWords body).reverse = (t.core body).reverse := by
      rw [core_eq_cut, List.reverse_reverse]
    rw [hcore] at hstop
    have hrest : cut t.leadingWords body = t.core body ++ (last.reverse ++ back.reverse) := by
      rw [← List.reverse_reverse (cut t.leadingWords body), hstop.text]
      simp only [List.reverse_append, List.reverse_reverse, List.append_assoc]
    refine ⟨front, first, last.reverse, back.reverse, hrest ▸ hstart, ?_⟩
    rw [← hrest, List.reverse_reverse, List.reverse_reverse]
    exact hstop

/-- Trimming by the byte cuts no character in two. It leaves what the cut of characters leaves, and
this is the only text that the body has between such parts. -/
theorem byteCore?_parts (t : Trim) (body : String) :
    ∃ core, t.byteCore? body = some core ∧ t.core body.toList = core.toList ∧
      ∀ kept, (∃ front first last back, t.Parts body.toList front first kept last back) ↔
        kept = core.toList := by
  refine ⟨_, byteCore?_eq t body, ?_, fun kept => ?_⟩
  · rw [String.toList_ofList]
  · rw [parts_iff, String.toList_ofList, eq_comm]

end Trim

end DynamicSql

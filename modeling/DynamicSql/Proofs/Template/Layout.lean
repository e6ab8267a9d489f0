import DynamicSql.Template.Trim

/-!
Layouts: texts in which some places are still open. A layout is spelled out by putting a text into
each open place, and where those texts stop the trimming, spelling and trimming commute: the same
characters are cut off, whatever is put into the open places, and no place is cut off.
-/

namespace DynamicSql

inductive Cell (α : Type) where
  | fixed (c : Char)
  | hole (a : α)

abbrev Layout (α : Type) := List (Cell α)

namespace Cell

variable {α : Type}

def hole? : Cell α → Option α
  | .fixed _ => none
  | .hole a => some a

def isBlank : Cell α → Bool
  | .fixed c => Text.isBlankChar c
  | .hole _ => false

/-- Whether a character of a word is matched here, in any ASCII case. -/
def agrees (letter : Char) : Cell α → Bool
  | .fixed c => letter.toLower == c.toLower
  | .hole _ => false

def spell (fill : α → List Char) : Cell α → List Char
  | .fixed c => [c]
  | .hole a => fill a

end Cell

namespace Layout

variable {α : Type}

def ofText (s : String) : Layout α :=
  s.toList.map Cell.fixed

def holes (l : Layout α) : List α :=
  l.filterMap Cell.hole?

def spell (fill : α → List Char) (l : Layout α) : List Char :=
  l.flatMap (Cell.spell fill)

@[simp] theorem holes_ofText (s : String) : holes (ofText s : Layout α) = [] := by
  simp [holes, ofText, List.filterMap_map, Function.comp_def, Cell.hole?]

@[simp] theorem spell_ofText (fill : α → List Char) (s : String) :
    spell fill (ofText s) = s.toList := by
  simp [spell, ofText, List.flatMap_map, Cell.spell]

@[simp] theorem holes_append (l m : Layout α) : holes (l ++ m) = holes l ++ holes m :=
  List.filterMap_append

@[simp] theorem spell_append (fill : α → List Char) (l m : Layout α) :
    spell fill (l ++ m) = spell fill l ++ spell fill m :=
  List.flatMap_append

theorem holes_reverse (l : Layout α) : holes l.reverse = (holes l).reverse :=
  List.filterMap_reverse

theorem spell_reverse (fill : α → List Char) (l : Layout α) :
    spell fill l.reverse = (spell (fun a => (fill a).reverse) l).reverse := by
  have hcell : List.reverse ∘ Cell.spell fill = Cell.spell fun a => (fill a).reverse := by
    funext c
    cases c <;> rfl
  rw [spell, List.flatMap_reverse, hcell]
  rfl

theorem mem_holes {l : Layout α} {a : α} : a ∈ holes l ↔ Cell.hole a ∈ l := by
  rw [holes, List.mem_filterMap]
  refine ⟨?_, fun h => ⟨.hole a, h, rfl⟩⟩
  intro ⟨c, hc, ha⟩
  cases c with
  | fixed c => contradiction
  | hole b =>
    cases ha
    exact hc

end Layout

namespace Trim

section

variable {β : Type} (agrees : Char → β → Bool) (blank : β → Bool)

/-- What follows a word at the start of a sequence of characters, or of anything else that may
agree with characters. -/
def strip? : List Char → List β → Option (List β)
  | [], bs => some bs
  | a :: word, b :: bs => if agrees a b then strip? word bs else none
  | _ :: _, [] => none

/-- Drops the first of the words that stands at the start. -/
def stripFirst (words : List (List Char)) (bs : List β) : List β :=
  (words.findSome? fun word => if word = [] then none else strip? agrees word bs).getD bs

/-- What trimming leaves of a sequence, its decoration apart. -/
def coreOf (t : Trim) (bs : List β) : List β :=
  let front := stripFirst agrees (t.leadingOverrides.map String.toList) (bs.dropWhile blank)
  (stripFirst agrees ((t.trailingOverrides.map String.toList).map List.reverse)
    (front.reverse.dropWhile blank)).reverse

end

def agreeChar (a c : Char) : Bool :=
  a.toLower == c.toLower

theorem strip?_agreeChar (word cs : List Char) :
    strip? agreeChar word cs =
      if (cs.take word.length).map Char.toLower = word.map Char.toLower then
        some (cs.drop word.length)
      else none := by
  induction word generalizing cs with
  | nil => simp [strip?]
  | cons a word ih =>
    cases cs with
    | nil => simp [strip?]
    | cons c cs =>
      rw [strip?, ih]
      by_cases h : a.toLower = c.toLower
      · simp [agreeChar, h]
      · simp [agreeChar, h, Ne.symm h]

theorem dropWord_eq (words : List (List Char)) (cs : List Char) :
    dropWord words cs = stripFirst agreeChar words cs := by
  have hword : ∀ word, afterWord? word cs =
      if word = [] then none else strip? agreeChar word cs := by
    intro word
    rw [afterWord?, strip?_agreeChar]
    by_cases h : word = [] <;> simp [h]
  simp only [dropWord, stripFirst, hword]

theorem core_eq (t : Trim) (cs : List Char) :
    t.core cs = t.coreOf agreeChar Text.isBlankChar cs := by
  rw [core, dropEndWord, Text.dropEndBlanks, List.reverse_reverse, dropWord_eq, dropWord_eq]
  rfl

/-- A text in which no match of the word, or of the rest of the word, can go on, whatever follows
the text. -/
def Blocks (word text : List Char) : Prop :=
  ∀ v, v <:+ word → v ≠ [] → ∀ cs, strip? agreeChar v (text ++ cs) = none

def StartsInk (text : List Char) : Prop :=
  ∃ c cs, text = c :: cs ∧ Text.isBlankChar c = false

/-- A text that a trimming does not cut into, from either side. -/
structure Spares (t : Trim) (text : List Char) : Prop where
  start : StartsInk text
  stop : StartsInk text.reverse
  leading : ∀ word ∈ t.leadingOverrides, Blocks word.toList text
  trailing : ∀ word ∈ t.trailingOverrides, Blocks word.toList.reverse text.reverse

end Trim

namespace Layout

open Trim

variable {α : Type} {fill : α → List Char}

theorem strip?_spell {word : List Char} {l : Layout α} (h : ∀ a ∈ holes l, Blocks word (fill a)) :
    strip? agreeChar word (spell fill l) =
      (strip? Cell.agrees word l).map (spell fill) := by
  induction word generalizing l with
  | nil => rfl
  | cons a word ih =>
    cases l with
    | nil => rfl
    | cons c l =>
      cases c with
      | fixed c =>
        change (if agreeChar a c then strip? agreeChar word (spell fill l) else none) =
          (if agreeChar a c then strip? Cell.agrees word l else none).map (spell fill)
        split
        · apply ih
          intro b hb v hv
          exact h b hb v (hv.trans (List.suffix_cons a word))
        · rfl
      | hole b =>
        exact h b List.mem_cons_self (a :: word) List.suffix_rfl (List.cons_ne_nil a word) _

theorem stripFirst_spell {words : List (List Char)} {l : Layout α}
    (h : ∀ word ∈ words, ∀ a ∈ holes l, Blocks word (fill a)) :
    stripFirst agreeChar words (spell fill l) = spell fill (stripFirst Cell.agrees words l) := by
  unfold stripFirst
  induction words with
  | nil => rfl
  | cons word words ih =>
    have hword := strip?_spell (h word List.mem_cons_self)
    rw [List.findSome?_cons, List.findSome?_cons]
    by_cases hnil : word = []
    · simp only [hnil, ↓reduceIte]
      exact ih fun w hw => h w (List.mem_cons_of_mem word hw)
    · simp only [hnil, ↓reduceIte, hword]
      cases strip? Cell.agrees word l with
      | none => exact ih fun w hw => h w (List.mem_cons_of_mem word hw)
      | some m => rfl

theorem dropBlanks_spell {l : Layout α} (h : ∀ a ∈ holes l, StartsInk (fill a)) :
    (spell fill l).dropWhile Text.isBlankChar = spell fill (l.dropWhile Cell.isBlank) := by
  induction l with
  | nil => rfl
  | cons c l ih =>
    cases c with
    | fixed c =>
      change (c :: spell fill l).dropWhile Text.isBlankChar = _
      rw [List.dropWhile_cons, List.dropWhile_cons, Cell.isBlank]
      split
      · exact ih h
      · rfl
    | hole a =>
      rcases h a List.mem_cons_self with ⟨c, cs, ha, hc⟩
      have hspell : spell fill (.hole a :: l) = c :: (cs ++ spell fill l) := by
        change fill a ++ spell fill l = _
        rw [ha]
        rfl
      rw [hspell, List.dropWhile_cons_of_neg (by simp [hc])]
      exact hspell.symm

theorem holes_strip? {word : List Char} {l m : Layout α} (h : strip? Cell.agrees word l = some m) :
    holes m = holes l := by
  induction word generalizing l with
  | nil =>
    cases h
    rfl
  | cons a word ih =>
    cases l with
    | nil => contradiction
    | cons c l =>
      cases c with
      | fixed c =>
        simp only [strip?] at h
        split at h
        · have hrest : holes m = holes l := ih h
          exact hrest
        · contradiction
      | hole b => contradiction

theorem holes_stripFirst (words : List (List Char)) (l : Layout α) :
    holes (stripFirst Cell.agrees words l) = holes l := by
  unfold stripFirst
  cases h : words.findSome? fun word =>
      if word = [] then none else strip? Cell.agrees word l with
  | none => rfl
  | some m =>
    rcases List.exists_of_findSome?_eq_some h with ⟨word, _, hm⟩
    split at hm
    · contradiction
    · exact holes_strip? hm

theorem holes_dropBlanks (l : Layout α) : holes (l.dropWhile Cell.isBlank) = holes l := by
  induction l with
  | nil => rfl
  | cons c l ih =>
    cases c with
    | fixed c =>
      rw [List.dropWhile_cons, Cell.isBlank]
      split
      · exact ih
      · rfl
    | hole a => rfl

/-- No open place is cut off. -/
theorem holes_coreOf (t : Trim) (l : Layout α) :
    holes (t.coreOf Cell.agrees Cell.isBlank l) = holes l := by
  rw [coreOf, holes_reverse, holes_stripFirst, holes_dropBlanks, holes_reverse,
    List.reverse_reverse, holes_stripFirst, holes_dropBlanks]

theorem spell_eq_reverse (fill : α → List Char) (l : Layout α) :
    spell fill l = (spell (fun a => (fill a).reverse) l.reverse).reverse := by
  rw [spell_reverse, List.reverse_reverse]
  simp only [List.reverse_reverse]

/-- The same characters are cut off, whatever is put into the open places. -/
theorem core_spell (t : Trim) {l : Layout α} (h : ∀ a ∈ holes l, t.Spares (fill a)) :
    t.core (spell fill l) = spell fill (t.coreOf Cell.agrees Cell.isBlank l) := by
  rw [core_eq, coreOf, coreOf, dropBlanks_spell fun a ha => (h a ha).start, stripFirst_spell]
  · have hfront := (holes_stripFirst (t.leadingOverrides.map String.toList) _).trans
      (holes_dropBlanks l)
    revert hfront
    generalize stripFirst Cell.agrees _ (l.dropWhile Cell.isBlank) = front
    intro hfront
    have hback : ∀ a ∈ holes front.reverse, a ∈ holes l := by
      intro a ha
      rw [holes_reverse, List.mem_reverse, hfront] at ha
      exact ha
    rw [spell_eq_reverse fill front, List.reverse_reverse, dropBlanks_spell, stripFirst_spell,
      spell_reverse]
    · intro word hword a ha
      simp only [List.map_map, List.mem_map, Function.comp_apply] at hword
      rcases hword with ⟨w, hw, rfl⟩
      rw [holes_dropBlanks] at ha
      exact (h a (hback a ha)).trailing w hw
    · intro a ha
      exact (h a (hback a ha)).stop
  · intro word hword a ha
    rw [List.mem_map] at hword
    rcases hword with ⟨w, hw, rfl⟩
    rw [holes_dropBlanks] at ha
    exact (h a ha).leading w hw

/-- The layout of a trimmed text, its decoration included. -/
def trimmed (t : Trim) (l : Layout α) : Layout α :=
  match t.coreOf Cell.agrees Cell.isBlank l with
  | [] => []
  | core => ofText (t.leading.getD "") ++ core ++ ofText (t.trailing.getD "")

theorem holes_trimmed (t : Trim) (l : Layout α) : holes (trimmed t l) = holes l := by
  rw [← holes_coreOf t l]
  unfold trimmed
  split
  · next hcore => rw [hcore]
  · simp

theorem spell_cons_ne_nil {c : Cell α} {l : Layout α} (h : ∀ a ∈ holes (c :: l), fill a ≠ []) :
    spell fill (c :: l) ≠ [] := by
  cases c with
  | fixed c => exact List.cons_ne_nil c _
  | hole a =>
    intro hnil
    exact h a List.mem_cons_self (List.append_eq_nil_iff.1 hnil).1

/-- Where the texts in the open places are spared, a trimmed text is the spelling of the trimmed
layout. -/
theorem apply_spell (t : Trim) {l : Layout α} (h : ∀ a ∈ holes l, t.Spares (fill a)) {body : String}
    (hbody : body.toList = spell fill l) : (t.apply body).toList = spell fill (trimmed t l) := by
  have hholes := holes_coreOf t l
  unfold apply trimmed
  rw [hbody, core_spell t h]
  revert hholes
  cases t.coreOf Cell.agrees Cell.isBlank l with
  | nil =>
    intro _
    rfl
  | cons c core =>
    intro hholes
    have hne : spell fill (c :: core) ≠ [] := by
      apply spell_cons_ne_nil
      intro a ha
      rw [hholes] at ha
      rcases (h a ha).start with ⟨d, ds, hd, _⟩
      rw [hd]
      exact List.cons_ne_nil d ds
    revert hne
    cases hspell : spell fill (c :: core) with
    | nil => simp
    | cons d ds =>
      intro _
      rw [spell_append, spell_append, spell_ofText, spell_ofText, hspell]
      simp only [String.toList_append, String.toList_ofList]

end Layout

end DynamicSql

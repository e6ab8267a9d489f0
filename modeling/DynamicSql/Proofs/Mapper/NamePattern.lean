import DynamicSql.Mapper.Discovery
import Mathlib.Data.List.Forall2

/-!
Patterns of file names. A pattern matches a name if the name falls into parts, one for each
character of the pattern (`Follows`). Written out as a regular expression it matches the same names,
as all that has a meaning of its own there is escaped (`matchesPattern_iff`).
-/

namespace DynamicSql

/-- What a character of a pattern stands for. -/
inductive StandsFor : Char → List Char → Prop
  | many {run : List Char} (h : '\n' ∉ run) : StandsFor '*' run
  | one {c : Char} (h : c ≠ '\n') : StandsFor '?' [c]
  | self {p : Char} (hmany : p ≠ '*') (hone : p ≠ '?') : StandsFor p [p]

/-- The name falls into parts that the characters of the pattern stand for. -/
def Follows (pattern name : List Char) : Prop :=
  ∃ parts : List (List Char), name = parts.flatten ∧ List.Forall₂ StandsFor pattern parts

variable {p : Char} {ps pattern name : List Char}

theorem follows_nil : Follows [] name ↔ name = [] := by
  constructor
  · rintro ⟨parts, rfl, hparts⟩
    cases hparts
    rfl
  · rintro rfl
    exact ⟨[], rfl, .nil⟩

theorem follows_cons :
    Follows (p :: ps) name ↔
      ∃ part rest, name = part ++ rest ∧ StandsFor p part ∧ Follows ps rest := by
  constructor
  · rintro ⟨parts, rfl, hparts⟩
    cases hparts with
    | cons hpart hparts => exact ⟨_, _, rfl, hpart, _, rfl, hparts⟩
  · rintro ⟨part, rest, rfl, hpart, parts, rfl, hparts⟩
    exact ⟨part :: parts, rfl, .cons hpart hparts⟩

theorem follows_many :
    Follows ('*' :: ps) name ↔
      ∃ run rest, name = run ++ rest ∧ '\n' ∉ run ∧ Follows ps rest := by
  rw [follows_cons]
  constructor
  · rintro ⟨run, rest, rfl, hrun, hrest⟩
    cases hrun with
    | many hrun => exact ⟨run, rest, rfl, hrun, hrest⟩
    | self hmany hone => exact absurd rfl hmany
  · rintro ⟨run, rest, rfl, hrun, hrest⟩
    exact ⟨run, rest, rfl, .many hrun, hrest⟩

theorem follows_one :
    Follows ('?' :: ps) name ↔ ∃ c rest, name = c :: rest ∧ c ≠ '\n' ∧ Follows ps rest := by
  rw [follows_cons]
  constructor
  · rintro ⟨part, rest, rfl, hpart, hrest⟩
    cases hpart with
    | one hc => exact ⟨_, rest, rfl, hc, hrest⟩
    | self hmany hone => exact absurd rfl hone
  · rintro ⟨c, rest, rfl, hc, hrest⟩
    exact ⟨[c], rest, rfl, .one hc, hrest⟩

theorem follows_self (hmany : p ≠ '*') (hone : p ≠ '?') :
    Follows (p :: ps) name ↔ ∃ rest, name = p :: rest ∧ Follows ps rest := by
  rw [follows_cons]
  constructor
  · rintro ⟨part, rest, rfl, hpart, hrest⟩
    cases hpart with
    | many => exact absurd rfl hmany
    | one => exact absurd rfl hone
    | self => exact ⟨rest, rfl, hrest⟩
  · rintro ⟨rest, rfl, hrest⟩
    exact ⟨[p], rest, rfl, .self hmany hone, hrest⟩

/-! Rows -/

theorem exists_run_nil {P : List Char → Prop} :
    (∃ run rest, [] = run ++ rest ∧ '\n' ∉ run ∧ P rest) ↔ P [] := by
  constructor
  · rintro ⟨run, rest, hsplit, -, hrest⟩
    obtain ⟨rfl, rfl⟩ := List.append_eq_nil_iff.1 hsplit.symm
    exact hrest
  · intro h
    exact ⟨[], [], rfl, List.not_mem_nil, h⟩

/-- A run takes nothing, or the first character and then a run of what follows. -/
theorem exists_run_cons {P : List Char → Prop} {c : Char} {cs : List Char} :
    (∃ run rest, c :: cs = run ++ rest ∧ '\n' ∉ run ∧ P rest) ↔
      P (c :: cs) ∨ c ≠ '\n' ∧ ∃ run rest, cs = run ++ rest ∧ '\n' ∉ run ∧ P rest := by
  constructor
  · rintro ⟨run, rest, hsplit, hrun, hrest⟩
    cases run with
    | nil => exact .inl (hsplit ▸ hrest)
    | cons d run =>
      obtain ⟨rfl, rfl⟩ := List.cons.inj hsplit
      obtain ⟨hne, hrun⟩ := List.ne_and_not_mem_of_not_mem_cons hrun
      exact .inr ⟨hne.symm, run, rest, rfl, hrun, hrest⟩
  · rintro (h | ⟨hne, run, rest, rfl, hrun, hrest⟩)
    · exact ⟨[], c :: cs, rfl, List.not_mem_nil, h⟩
    · exact ⟨c :: run, rest, rfl, List.not_mem_cons_of_ne_of_not_mem hne.symm hrun, hrest⟩

/-- The row says of each suffix of the name whether it has the property. -/
def Marks (P : List Char → Prop) (name : List Char) (row : List Bool) : Prop :=
  List.Forall₂ (fun suffix b => b = true ↔ P suffix) name.tails row

namespace Marks

variable {P Q : List Char → Prop} {row : List Bool}

theorem headD_iff (h : Marks P name row) : row.headD false = true ↔ P name := by
  cases name with
  | nil =>
    cases h with
    | cons hb _ => exact hb
  | cons c cs =>
    cases h with
    | cons hb _ => exact hb

theorem congr (h : Marks P name row) (hPQ : ∀ suffix, P suffix ↔ Q suffix) : Marks Q name row :=
  List.Forall₂.imp (fun suffix _ hb => hb.trans (hPQ suffix)) h

theorem matchesOne {admits : Char → Bool} (h : Marks P name row) :
    Marks (fun suffix => ∃ c rest, suffix = c :: rest ∧ admits c = true ∧ P rest) name
      (matchesOne admits name row) := by
  induction name generalizing row with
  | nil => exact .cons (by simp) .nil
  | cons c cs ih =>
    cases h with
    | cons _ hrow =>
      refine .cons ?_ (ih hrow)
      rw [Bool.and_eq_true, headD_iff hrow]
      simp

theorem matchesMany (h : Marks P name row) :
    Marks (fun suffix => ∃ run rest, suffix = run ++ rest ∧ '\n' ∉ run ∧ P rest) name
      (matchesMany name row) := by
  induction name generalizing row with
  | nil =>
    cases h with
    | cons hb hrow =>
      cases hrow
      exact .cons (hb.trans exists_run_nil.symm) .nil
  | cons c cs ih =>
    cases h with
    | cons hb hrow =>
      have hrest := ih hrow
      refine .cons ?_ hrest
      rw [Bool.or_eq_true, Bool.and_eq_true, headD_iff hrest, hb, bne_iff_ne]
      exact exists_run_cons.symm

end Marks

theorem marks_follows_nil (name : List Char) :
    Marks (Follows []) name (name.map (fun _ => false) ++ [true]) := by
  induction name with
  | nil => exact .cons (by simp [follows_nil]) .nil
  | cons c cs ih => exact .cons (by simp [follows_nil]) ih

theorem marks_matchingSuffixes (pattern name : List Char) :
    Marks (Follows pattern) name (matchingSuffixes pattern name) := by
  fun_induction matchingSuffixes pattern name with
  | case1 => exact marks_follows_nil name
  | case2 ps ih => exact ih.matchesMany.congr fun _ => follows_many.symm
  | case3 ps ih =>
    refine ih.matchesOne.congr fun suffix => ?_
    simp only [bne_iff_ne, follows_one]
  | case4 p ps hmany hone ih =>
    refine ih.matchesOne.congr fun suffix => ?_
    rw [follows_self hmany hone]
    simp

theorem matchesPattern_eq_true_iff : matchesPattern pattern name = true ↔ Follows pattern name :=
  (marks_matchingSuffixes pattern name).headD_iff

/-! Regular expressions -/

namespace RegularExpression

/-- What one character of a text may be. -/
inductive Atom where
  | char (c : Char)
  | onLine
  deriving DecidableEq

def Atom.admits : Atom → Char → Bool
  | .char d, c => c == d
  | .onLine, c => c != '\n'

inductive Item where
  | start
  | stop
  | once (a : Atom)
  | repeated (a : Atom)
  deriving DecidableEq

/-- The characters that may be escaped. -/
def specials : List Char :=
  ['\\', '.', '+', '*', '?', '(', ')', '|', '[', ']', '\x7b', '\x7d', '^', '$', '#', '&', '-', '~']

/-- The characters that make up groups, choices, classes and counts, none of which is read here. -/
def operators : List Char :=
  ['+', '*', '?', '(', ')', '|', '[', ']', '\x7b', '\x7d']

def escape (c : Char) : List Char :=
  if c ∈ specials then ['\\', c] else [c]

/-- The state is whether a backslash comes directly before, and the items so far with the last one
in front. -/
def readChar : Bool × List Item → Char → Option (Bool × List Item)
  | (true, items), c => if c ∈ specials then some (false, .once (.char c) :: items) else none
  | (false, items), '\\' => some (true, items)
  | (false, items), '^' => some (false, .start :: items)
  | (false, items), '$' => some (false, .stop :: items)
  | (false, items), '.' => some (false, .once .onLine :: items)
  | (false, .once a :: items), '*' => some (false, .repeated a :: items)
  | (false, items), c => if c ∈ operators then none else some (false, .once (.char c) :: items)

def read? (text : List Char) : Option (List Item) :=
  match text.foldlM readChar (false, []) with
  | some (false, items) => some items.reverse
  | _ => none

/-- The items match what stands between the two other parts of a text. -/
inductive Spans : List Item → List Char → List Char → List Char → Prop
  | nil {before after : List Char} : Spans [] before [] after
  | start {items : List Item} {part after : List Char} (h : Spans items [] part after) :
    Spans (.start :: items) [] part after
  | stop {items : List Item} {before : List Char} (h : Spans items before [] []) :
    Spans (.stop :: items) before [] []
  | once {a : Atom} {items : List Item} {c : Char} {before part after : List Char}
    (hc : a.admits c = true) (h : Spans items (before ++ [c]) part after) :
    Spans (.once a :: items) before (c :: part) after
  | done {a : Atom} {items : List Item} {before part after : List Char}
    (h : Spans items before part after) : Spans (.repeated a :: items) before part after
  | again {a : Atom} {items : List Item} {c : Char} {before part after : List Char}
    (hc : a.admits c = true) (h : Spans (.repeated a :: items) (before ++ [c]) part after) :
    Spans (.repeated a :: items) before (c :: part) after

/-- There is a place in the text that the items match. -/
def IsFound (items : List Item) (text : List Char) : Prop :=
  ∃ before part after, text = before ++ (part ++ after) ∧ Spans items before part after

variable {items : List Item} {before part after : List Char}

theorem spans_repeated_onLine :
    Spans (.repeated .onLine :: items) before part after ↔
      ∃ run rest, part = run ++ rest ∧ '\n' ∉ run ∧ Spans items (before ++ run) rest after := by
  constructor
  · intro h
    generalize hitems : Item.repeated Atom.onLine :: items = all at h
    induction h with
    | nil => cases hitems
    | start => cases hitems
    | stop => cases hitems
    | once => cases hitems
    | done h =>
      cases hitems
      exact ⟨[], _, rfl, List.not_mem_nil, by rwa [List.append_nil]⟩
    | again hc h ih =>
      obtain ⟨run, rest, rfl, hrun, hrest⟩ := ih hitems
      cases hitems
      refine ⟨_ :: run, rest, rfl, ?_, ?_⟩
      · exact List.not_mem_cons_of_ne_of_not_mem (bne_iff_ne.1 hc).symm hrun
      · rwa [List.append_assoc] at hrest
  · rintro ⟨run, rest, rfl, hrun, hrest⟩
    induction run generalizing before with
    | nil =>
      rw [List.append_nil] at hrest
      exact .done hrest
    | cons c run ih =>
      obtain ⟨hne, hrun⟩ := List.ne_and_not_mem_of_not_mem_cons hrun
      refine .again (bne_iff_ne.2 hne.symm) (ih hrun ?_)
      rwa [List.append_assoc]

theorem spans_once {a : Atom} :
    Spans (.once a :: items) before part after ↔
      ∃ c rest, part = c :: rest ∧ a.admits c = true ∧
        Spans items (before ++ [c]) rest after := by
  constructor
  · intro h
    cases h with
    | once hc h => exact ⟨_, _, rfl, hc, h⟩
  · rintro ⟨c, rest, rfl, hc, h⟩
    exact .once hc h

/-- The item for a character of a pattern. -/
def itemOf : Char → Item
  | '*' => .repeated .onLine
  | '?' => .once .onLine
  | c => .once (.char c)

/-- The text for a character of a pattern. -/
def textOf : Char → List Char
  | '*' => ['.', '*']
  | '?' => ['.']
  | c => escape c

/-- A pattern as a regular expression for a whole name. -/
def ofPattern (pattern : List Char) : List Char :=
  '^' :: (pattern.flatMap textOf ++ ['$'])

theorem foldlM_escape (c : Char) (items : List Item) :
    (escape c).foldlM readChar (false, items) = some (false, .once (.char c) :: items) := by
  unfold escape
  split
  · next h => simp [readChar, h]
  · next h =>
    simp [specials] at h
    simp [readChar, operators, h]

theorem foldlM_textOf (p : Char) (items : List Item) :
    (textOf p).foldlM readChar (false, items) = some (false, itemOf p :: items) := by
  unfold textOf itemOf
  split
  · simp [readChar]
  · simp [readChar]
  · next hmany hone => exact foldlM_escape p items

theorem foldlM_flatMap_textOf (pattern : List Char) (items : List Item) :
    (pattern.flatMap textOf).foldlM readChar (false, items) =
      some (false, (pattern.map itemOf).reverse ++ items) := by
  induction pattern generalizing items with
  | nil => rfl
  | cons p ps ih =>
    rw [List.flatMap_cons, List.foldlM_append, foldlM_textOf]
    change (ps.flatMap textOf).foldlM readChar (false, itemOf p :: items) = _
    rw [ih]
    simp

theorem read?_ofPattern (pattern : List Char) :
    read? (ofPattern pattern) = some (.start :: (pattern.map itemOf ++ [.stop])) := by
  have hread : (ofPattern pattern).foldlM readChar (false, []) =
      some (false, .stop :: ((pattern.map itemOf).reverse ++ [.start])) := by
    change (pattern.flatMap textOf ++ ['$']).foldlM readChar (false, [.start]) = _
    rw [List.foldlM_append, foldlM_flatMap_textOf]
    rfl
  rw [read?, hread]
  simp

/-- Where the end of the text is asked for nothing is left behind. -/
theorem after_eq_nil (h : Spans (items ++ [.stop]) before part after) : after = [] := by
  generalize hall : items ++ [.stop] = all at h
  induction h generalizing items with
  | nil => simp at hall
  | stop => rfl
  | start h ih =>
    cases items with
    | nil => cases hall
    | cons item items => exact ih (List.cons.inj hall).2
  | once hc h ih =>
    cases items with
    | nil => cases hall
    | cons item items => exact ih (List.cons.inj hall).2
  | done h ih =>
    cases items with
    | nil => cases hall
    | cons item items => exact ih (List.cons.inj hall).2
  | again hc h ih => exact ih hall

theorem spans_pattern_iff :
    Spans (pattern.map itemOf ++ [.stop]) before part [] ↔ Follows pattern part := by
  induction pattern generalizing before part with
  | nil =>
    rw [follows_nil]
    constructor
    · intro h
      cases h with
      | stop => rfl
    · rintro rfl
      exact .stop .nil
  | cons p ps ih =>
    rw [List.map_cons, List.cons_append]
    generalize hitem : itemOf p = item
    unfold itemOf at hitem
    split at hitem
    · subst hitem
      rw [spans_repeated_onLine, follows_many]
      simp only [ih]
    · subst hitem
      rw [spans_once, follows_one]
      simp only [ih, Atom.admits, bne_iff_ne]
    · next hmany hone =>
      subst hitem
      rw [spans_once, follows_self hmany hone]
      simp only [ih, Atom.admits, beq_iff_eq]
      constructor
      · rintro ⟨c, rest, rfl, rfl, hrest⟩
        exact ⟨rest, rfl, hrest⟩
      · rintro ⟨rest, rfl, hrest⟩
        exact ⟨p, rest, rfl, rfl, hrest⟩

theorem isFound_pattern_iff :
    IsFound (.start :: (pattern.map itemOf ++ [.stop])) name ↔ Follows pattern name := by
  constructor
  · rintro ⟨before, part, after, rfl, h⟩
    cases h with
    | start h =>
      obtain rfl := after_eq_nil h
      rw [List.nil_append, List.append_nil]
      exact spans_pattern_iff.1 h
  · intro h
    exact ⟨[], name, [], (List.append_nil name).symm, .start (spans_pattern_iff.2 h)⟩

end RegularExpression

open DynamicSql.RegularExpression

/-- A pattern matches exactly the names that fall into parts that follow it. These are the names in
which its regular expression is found: every character of the pattern that is special in one is read
from it as itself. -/
theorem matchesPattern_iff (pattern name : List Char) :
    (matchesPattern pattern name = true ↔ Follows pattern name) ∧
      ∃ items, RegularExpression.read? (ofPattern pattern) = some items ∧
        (IsFound items name ↔ matchesPattern pattern name = true) :=
  ⟨matchesPattern_eq_true_iff, _, read?_ofPattern pattern,
    isFound_pattern_iff.trans matchesPattern_eq_true_iff.symm⟩

end DynamicSql

import Mathlib
import DynamicSql.Proofs.Parameter.PathReading

/-!
The grammar of property paths, and that `Path.read` accepts exactly it (`read_iff_spells`). The
reader carries a flag for the point that it has passed; in the grammar the point belongs to the
step behind it, so a reader that has passed one reads the steps of the text with the point put
back in front (`steps_of_readSteps`).
-/

namespace DynamicSql

namespace Decimal

/-- An unsigned decimal with or without a plus in front, and its value. The digit that counts
one is the last. -/
inductive Unsigned : List Char → Nat → Prop where
  | mk {plus ds : List Char} (hplus : plus = [] ∨ plus = ['+']) (hne : ds ≠ [])
      (hdigits : ∀ c ∈ ds, c.isDigit = true) :
      Unsigned (plus ++ ds) (Nat.ofDigits 10 (ds.reverse.map fun c => c.toNat - '0'.toNat))

theorem digitsValue_eq_ofDigits (ds : List Char) :
    digitsValue ds = Nat.ofDigits 10 (ds.reverse.map fun c => c.toNat - '0'.toNat) := by
  rw [Nat.ofDigits_eq_foldr, List.foldr_map, List.foldr_reverse, digitsValue]
  congr 1
  funext n c
  exact Nat.add_comm _ _

theorem readNat?_eq_some_iff {ds : List Char} {n : Nat} :
    readNat? ds = some n ↔ (ds ≠ [] ∧ ∀ c ∈ ds, c.isDigit = true) ∧ digitsValue ds = n := by
  simp [readNat?]

variable {bound n : Nat} {cs ds : List Char}

theorem readBelow?_of_isDigit (h : ∀ c ∈ cs, c.isDigit = true) :
    readBelow? bound cs = (readNat? cs).filter (· < bound) := by
  rw [readBelow?]
  rintro ds rfl
  cases h '+' List.mem_cons_self

theorem exists_readBelow? (bound : Nat) (cs : List Char) :
    ∃ plus ds, (plus = [] ∨ plus = ['+']) ∧ cs = plus ++ ds ∧
      readBelow? bound cs = (readNat? ds).filter (· < bound) := by
  unfold readBelow?
  split
  · next ds => exact ⟨['+'], ds, .inr rfl, rfl, rfl⟩
  · exact ⟨[], cs, .inl rfl, rfl, rfl⟩

theorem readBelow?_eq_some_iff : readBelow? bound cs = some n ↔ Unsigned cs n ∧ n < bound := by
  constructor
  · intro h
    obtain ⟨plus, ds, hplus, rfl, hread⟩ := exists_readBelow? bound cs
    rw [hread, Option.filter_eq_some_iff, readNat?_eq_some_iff, digitsValue_eq_ofDigits] at h
    obtain ⟨⟨⟨hne, hdigits⟩, rfl⟩, hn⟩ := h
    exact ⟨.mk hplus hne hdigits, of_decide_eq_true hn⟩
  · rintro ⟨@⟨plus, ds, hplus, hne, hdigits⟩, hn⟩
    have hread : (readNat? ds).filter (· < bound) =
        some (Nat.ofDigits 10 (ds.reverse.map fun c => c.toNat - '0'.toNat)) := by
      rw [readNat?_eq_some_iff.2 ⟨⟨hne, hdigits⟩, digitsValue_eq_ofDigits ds⟩, Option.filter_some,
        if_pos (decide_eq_true hn)]
    cases hplus with
    | inl h => rw [h, List.nil_append, readBelow?_of_isDigit hdigits, hread]
    | inr h => exact h ▸ hread

theorem Unsigned.head? (h : Unsigned cs n) : ∀ c ∈ cs.head?, c = '+' ∨ c.isDigit = true := by
  intro c hc
  cases h with
  | mk hplus hne hdigits =>
    rcases hplus with rfl | rfl
    · exact .inr (hdigits c (List.mem_of_mem_head? hc))
    · cases hc
      exact .inl rfl

end Decimal

namespace Path

/-- The characters of a name: letters, numerals, underscores and dollars, and not none of them. -/
def IsName (cs : List Char) : Prop :=
  cs ≠ [] ∧ ∀ c ∈ cs, Text.isAlphanumeric c = true ∨ c = '_' ∨ c = '$'

/-- What brackets can hold between blanks, and the segment that it stands for. The key in quotes
is any text, the quotes of the other kind and of its own included. -/
inductive Inner : List Char → Segment → Prop where
  | quoted {q : Char} (hq : q = '\'' ∨ q = '"') (key : List Char) :
      Inner (q :: key ++ [q]) (.key (String.ofList key))
  | index {cs : List Char} {i : Nat} (h : Decimal.Unsigned cs i) (hsize : i < UInt64.size) :
      Inner cs (.index i)

/-- A step of a path. Only brackets can do without a point in front. -/
inductive Step : List Char → Segment → Prop where
  | name {cs : List Char} (h : IsName cs) : Step ('.' :: cs) (.key (String.ofList cs))
  | bracket {point inner : List Char} {s : Segment} (hpoint : point = [] ∨ point = ['.'])
      (hclose : ']' ∉ inner) (h : Inner (Text.trimChars inner) s) :
      Step (point ++ '[' :: inner ++ [']']) s

/-- Steps one after the other. -/
inductive Steps : List Char → List Segment → Prop where
  | nil : Steps [] []
  | cons {cs more : List Char} {s : Segment} {ss : List Segment} (h : Step cs s)
      (hmore : Steps more ss) : Steps (cs ++ more) (s :: ss)

/-- The text is a path with these segments: a name, and steps behind it. -/
inductive Spells : List Char → List Segment → Prop where
  | path {name more : List Char} {ss : List Segment} (h : IsName name) (hmore : Steps more ss) :
      Spells (name ++ more) (.key (String.ofList name) :: ss)

variable {afterPoint : Bool} {cs inner more : List Char} {s : Segment} {ss : List Segment}

theorem isName_iff : IsName cs ↔ cs ≠ [] ∧ ∀ c ∈ cs, isNameChar c = true := by
  simp [IsName, isNameChar, or_assoc]

theorem readQuoted_eq_some_iff {q : Char} {k : List Char} :
    (if k.getLast? = some q then some (Segment.key (String.ofList k.dropLast)) else none) = some s ↔
      ∃ key, k = key ++ [q] ∧ s = .key (String.ofList key) := by
  constructor
  · intro h
    split at h
    · next hlast =>
      obtain ⟨key, rfl⟩ := List.getLast?_eq_some_iff.1 hlast
      rw [List.dropLast_concat] at h
      exact ⟨key, rfl, (Option.some.inj h).symm⟩
    · cases h
  · rintro ⟨key, rfl, rfl⟩
    rw [if_pos (List.getLast?_eq_some_iff.2 ⟨key, rfl⟩), List.dropLast_concat]

theorem readBracket?_eq_some_iff :
    readBracket? inner = some s ↔ Inner (Text.trimChars inner) s := by
  rw [readBracket?]
  generalize Text.trimChars inner = cs
  constructor
  · intro h
    split at h
    · obtain ⟨key, rfl, rfl⟩ := readQuoted_eq_some_iff.1 h
      exact .quoted (.inl rfl) key
    · obtain ⟨key, rfl, rfl⟩ := readQuoted_eq_some_iff.1 h
      exact .quoted (.inr rfl) key
    · obtain ⟨i, hi, rfl⟩ := Option.map_eq_some_iff.1 h
      rw [Decimal.readBelow?_eq_some_iff] at hi
      exact .index hi.1 hi.2
  · intro h
    cases h with
    | quoted hq key =>
      rcases hq with rfl | rfl
      · exact readQuoted_eq_some_iff.2 ⟨key, rfl, rfl⟩
      · exact readQuoted_eq_some_iff.2 ⟨key, rfl, rfl⟩
    | index h hsize =>
      split
      · cases h.head? _ rfl with
        | inl hc => cases hc
        | inr hc => cases hc
      · cases h.head? _ rfl with
        | inl hc => cases hc
        | inr hc => cases hc
      · rw [Decimal.readBelow?_eq_some_iff.2 ⟨h, hsize⟩]
        rfl

/-! What is read is of the grammar -/

theorem exists_name {c : Char} (hname : isNameChar c = true) (cs : List Char) :
    c :: cs = (c :: cs.takeWhile isNameChar) ++ cs.dropWhile isNameChar ∧
      IsName (c :: cs.takeWhile isNameChar) := by
  refine ⟨by rw [List.cons_append, List.takeWhile_append_dropWhile], ?_⟩
  rw [isName_iff]
  refine ⟨List.cons_ne_nil _ _, ?_⟩
  intro d hd
  cases hd with
  | head => exact hname
  | tail _ hd => exact List.mem_takeWhile_imp hd

theorem steps_of_readSteps (h : readSteps afterPoint cs = .ok ss) :
    Steps (if afterPoint then '.' :: cs else cs) ss := by
  fun_induction readSteps afterPoint cs generalizing ss with
  | case1 | case3 | case4 | case6 | case8 | case9 => cases h
  | case2 a ha =>
    cases h
    rw [if_neg ha]
    exact .nil
  | case5 a cs d rest hrest s hs ih =>
    obtain ⟨ss, hss, rfl⟩ := map_eq_ok.1 h
    obtain ⟨hcs, hclose⟩ := exists_until hrest
    have hsteps (point : List Char) (hpoint : point = [] ∨ point = ['.']) :
        Steps (point ++ '[' :: cs) (s :: ss) := by
      have h := Steps.cons (.bracket hpoint hclose (readBracket?_eq_some_iff.1 hs)) (ih hss)
      rwa [List.append_assoc, List.append_assoc, List.cons_append, List.singleton_append,
        if_neg Bool.false_ne_true, ← hcs] at h
    cases a with
    | false => exact hsteps [] (.inl rfl)
    | true => exact hsteps ['.'] (.inr rfl)
  | case7 a cs ha ih =>
    rw [if_neg ha]
    exact ih h
  | case10 a c cs hbracket hpoint ha hname ih =>
    obtain ⟨ss, hss, rfl⟩ := map_eq_ok.1 h
    rw [Bool.not_eq_true, Bool.not_eq_false'] at ha hname
    obtain ⟨hcs, hc⟩ := exists_name hname cs
    rw [if_pos ha, hcs, ← List.cons_append]
    exact .cons (.name hc) (ih hss)

/-! What is of the grammar is read -/

/-- A name ends where the steps behind it begin. -/
theorem Steps.head?_not_name (h : Steps cs ss) : ∀ c ∈ cs.head?, isNameChar c = false := by
  intro c hc
  cases h with
  | nil => cases hc
  | cons h _ =>
    cases h with
    | name _ =>
      cases hc
      decide
    | bracket hpoint _ _ =>
      rcases hpoint with rfl | rfl
      · cases hc
        decide
      · cases hc
        decide

theorem readSteps_bracket_append (hclose : ']' ∉ inner) (h : Inner (Text.trimChars inner) s)
    (more : List Char) :
    readSteps afterPoint ('[' :: inner ++ [']'] ++ more) = (readSteps false more).map (s :: ·) := by
  have hspan := span_until hclose more
  rw [List.cons_append, List.cons_append, List.append_assoc, List.singleton_append,
    readSteps_bracket hspan.2 (hspan.1 ▸ readBracket?_eq_some_iff.2 h)]

/-- The first name and a name behind a point end alike. -/
theorem exists_name_append (h : IsName cs) (hmore : ∀ c ∈ more.head?, isNameChar c = false) :
    ∃ c r, cs = c :: r ∧ isNameChar c = true ∧
      (r ++ more).takeWhile isNameChar = r ∧ (r ++ more).dropWhile isNameChar = more := by
  obtain ⟨hne, hcs⟩ := isName_iff.1 h
  cases cs with
  | nil => contradiction
  | cons c r =>
    rw [List.forall_mem_cons] at hcs
    exact ⟨c, r, rfl, hcs.1, span_append hcs.2 hmore⟩

theorem ne_of_isNameChar {c d : Char} (hc : isNameChar c = true) (hd : isNameChar d = false) :
    c ≠ d := by
  rintro rfl
  rw [hc] at hd
  contradiction

/-- A step is read off, and what is behind it is read on its own. -/
theorem Step.readSteps_append (h : Step cs s) (hmore : ∀ c ∈ more.head?, isNameChar c = false) :
    readSteps false (cs ++ more) = (readSteps false more).map (s :: ·) := by
  cases h with
  | name h =>
    obtain ⟨c, r, rfl, hc, htake, hdrop⟩ := exists_name_append h hmore
    rw [List.cons_append, List.cons_append, readSteps_point,
      readSteps_name (ne_of_isNameChar hc (by decide)) (ne_of_isNameChar hc (by decide)) hc,
      htake, hdrop]
  | bracket hpoint hclose h =>
    rcases hpoint with rfl | rfl
    · exact readSteps_bracket_append hclose h more
    · exact (readSteps_point _).trans (readSteps_bracket_append hclose h more)

theorem Steps.readSteps_eq (h : Steps cs ss) : readSteps false cs = .ok ss := by
  induction h with
  | nil =>
    rw [readSteps]
    rfl
  | cons h hmore ih =>
    rw [h.readSteps_append hmore.head?_not_name, ih]
    rfl

theorem readSegments_name_append (h : IsName cs) (hmore : ∀ c ∈ more.head?, isNameChar c = false) :
    readSegments (cs ++ more) = (readSteps false more).map (String.ofList cs, ·) := by
  obtain ⟨c, r, rfl, hc, htake, hdrop⟩ := exists_name_append h hmore
  rw [List.cons_append, readSegments, if_pos hc, htake, hdrop]
  · exact fun h => ne_of_isNameChar hc (by decide) h
  · exact fun h => ne_of_isNameChar hc (by decide) h

theorem readSegments_eq_ok_iff {name : String} :
    readSegments cs = .ok (name, ss) ↔ Spells cs (.key name :: ss) := by
  constructor
  · intro h
    unfold readSegments at h
    split at h
    case h_4 c cs hbracket hpoint =>
      split at h
      · next hname =>
        obtain ⟨ss, hss, hfound⟩ := map_eq_ok.1 h
        cases hfound
        obtain ⟨hcs, hc⟩ := exists_name hname cs
        rw [hcs]
        exact .path hc (steps_of_readSteps hss)
      · cases h
    all_goals cases h
  · intro h
    cases h with
    | path h hmore =>
      rw [readSegments_name_append h hmore.head?_not_name, hmore.readSteps_eq]
      rfl

theorem read_eq_ok_iff {source : String} {p : Path} :
    read source = .ok p ↔
      p.source = Text.trim source ∧ Spells (Text.trim source).toList p.segments := by
  rw [Text.trim, String.toList_ofList, read]
  generalize Text.trimChars source.toList = cs
  cases p with
  | mk text head rest =>
    rw [segments, ← readSegments_eq_ok_iff]
    cases readSegments cs with
    | error fault => simp
    | ok found => simp [Prod.ext_iff, eq_comm]

/-- A text is read as a path exactly if it is one between its blanks, and the path has the
segments that the text spells, of which the first is a key. -/
theorem read_iff_spells (source : String) :
    ((∃ p, read source = .ok p) ↔ ∃ ss, Spells (Text.trim source).toList ss) ∧
      ∀ p, (read source = .ok p ↔
          p.source = Text.trim source ∧ Spells (Text.trim source).toList p.segments) ∧
        p.segments[0]? = some (.key p.head) ∧ p.segments.drop 1 = p.rest := by
  refine ⟨⟨?_, ?_⟩, fun p => ⟨read_eq_ok_iff, rfl, rfl⟩⟩
  · intro ⟨p, hp⟩
    exact ⟨p.segments, (read_eq_ok_iff.1 hp).2⟩
  · intro ⟨ss, hss⟩
    generalize htext : (Text.trim source).toList = cs at hss
    cases hss with
    | @path name more ss h hmore =>
      refine ⟨⟨Text.trim source, String.ofList name, ss⟩, read_eq_ok_iff.2 ⟨rfl, ?_⟩⟩
      rw [htext]
      exact .path h hmore

example : read " m[ +01 ].['x y'].$b " =
    .ok ⟨"m[ +01 ].['x y'].$b", "m", [.index 1, .key "x y", .key "$b"]⟩ := by
  cbv

end Path

end DynamicSql

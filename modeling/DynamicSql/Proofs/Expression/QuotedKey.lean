import DynamicSql.Proofs.Expression.Composition
import DynamicSql.Proofs.Parameter.PathGrammar

/-!
Keys in quoted brackets. A key without the quote in it can be written between quotes, as a path and
as an expression, exactly if there is no closing bracket in it (`read_bracketed`): the reader of
tokens skips one inside of quotes, but the brackets of a path end with the first.
-/

namespace DynamicSql

/-- The entry of a map by its key in quotes. -/
def bracketed (name key : String) : String :=
  name ++ "['" ++ key ++ "']"

theorem toList_bracketed (name key : String) :
    (bracketed name key).toList =
      name.toList ++ ('[' :: ('\'' :: (key.toList ++ ['\''])) ++ [']']) := by
  simp [bracketed]

namespace Path

variable {name key : String} {cs rest : List Char} {d : Char}

theorem not_isBlank_of_isNameChar {c : Char} (h : isNameChar c = true) :
    Text.isBlankChar c = false := by
  rw [Bool.eq_false_iff]
  intro hblank
  rw [(isOff_of_blank hblank).noName] at h
  contradiction

/-- There are no blanks around such a path. -/
theorem trim_bracketed (hname : IsName name.toList) (key : String) :
    Text.trimChars (bracketed name key).toList = (bracketed name key).toList := by
  obtain ⟨hne, hchars⟩ := isName_iff.1 hname
  obtain ⟨c, r, hcs⟩ := List.exists_cons_of_ne_nil hne
  have hc : isNameChar c = true := hchars c (by simp [hcs])
  have htrim := Text.trimChars_of_ends (not_isBlank_of_isNameChar hc)
    (show Text.isBlankChar ']' = false by decide) (r ++ '[' :: '\'' :: (key.toList ++ ['\'']))
  simpa [toList_bracketed, hcs] using htrim

theorem read_bracketed_ok (hname : IsName name.toList) (hkey : ']' ∉ key.toList) :
    read (bracketed name key) = .ok ⟨bracketed name key, name, [.key key]⟩ := by
  have hsource : Text.trim (bracketed name key) = bracketed name key := by
    rw [Text.trim, trim_bracketed hname, String.ofList_toList]
  have hclose : ']' ∉ '\'' :: (key.toList ++ ['\'']) := by simp [hkey]
  have hinner : Inner (Text.trimChars ('\'' :: (key.toList ++ ['\'']))) (.key key) := by
    rw [Text.trimChars_of_ends (by decide) (by decide)]
    simpa using Inner.quoted (.inl rfl) key.toList
  have hstep := Step.bracket (.inl rfl) hclose hinner
  have hspells := Spells.path hname (.cons hstep .nil)
  rw [read_eq_ok_iff, hsource]
  refine ⟨rfl, ?_⟩
  simpa [toList_bracketed, segments] using hspells

theorem readSteps_of_bad_bracket {afterPoint : Bool} (hrest : cs.dropWhile (· != ']') = d :: rest)
    (h : readBracket? (cs.takeWhile (· != ']')) = none) :
    readSteps afterPoint ('[' :: cs) = .error .invalidIndex := by
  rw [readSteps]
  split
  · next hnil =>
    rw [hrest] at hnil
    cases hnil
  · rw [h]

/-- A quote that is not closed again in the brackets. -/
theorem readBracket?_of_open_quote (h : '\'' ∉ cs) : readBracket? ('\'' :: cs) = none := by
  have htrim : Text.trimChars ('\'' :: cs) = '\'' :: Text.dropEndBlanks cs :=
    Text.dropEndBlanks_append (by decide) [] cs
  obtain ⟨blanks, hcs, _⟩ := Text.dropEndBlanks_spec cs
  rw [readBracket?, htrim]
  refine if_neg fun hlast => ?_
  rw [hcs] at h
  exact h (List.mem_append_left blanks (List.mem_of_getLast? hlast))

theorem read_bracketed_error (hname : IsName name.toList) (hquote : '\'' ∉ key.toList)
    (hclose : ']' ∈ key.toList) :
    read (bracketed name key) = .error ⟨bracketed name key, .invalidIndex⟩ := by
  obtain ⟨front, more, hkey, hfront⟩ := List.eq_append_cons_of_mem hclose
  have hopen : '\'' ∉ front := by
    rw [hkey] at hquote
    exact fun hmem => hquote (List.mem_append_left _ hmem)
  have hfront' : ']' ∉ '\'' :: front := by simp [hfront]
  obtain ⟨htake, hdrop⟩ := span_until hfront' (more ++ ['\'', ']'])
  have hbracket := readBracket?_of_open_quote hopen
  rw [← htake] at hbracket
  have hsegments : readSegments (bracketed name key).toList = .error .invalidIndex := by
    have hrest : '[' :: ('\'' :: (key.toList ++ ['\''])) ++ [']'] =
        '[' :: ('\'' :: front ++ ']' :: (more ++ ['\'', ']'])) := by
      simp [hkey]
    rw [toList_bracketed, hrest, readSegments_name_append hname (by simp; decide),
      readSteps_of_bad_bracket hdrop hbracket]
    rfl
  rw [read, trim_bracketed hname, hsegments, String.ofList_toList]

end Path

/-! The path is one token -/

namespace Expression.Token

variable {name key : String} {cs : List Char} {c : Char}

theorem readPath_name (h : ∀ c ∈ cs, Path.isNameChar c = Bool.true) (more : List Char) :
    readPath .outside (cs ++ more) =
      (cs ++ (readPath .outside more).1, (readPath .outside more).2) := by
  induction cs with
  | nil => rfl
  | cons c cs ih =>
    obtain ⟨hc, hcs⟩ := List.forall_mem_cons.1 h
    rw [List.cons_append, readPath, hc, Bool.true_or, if_pos rfl, ih hcs]
    rfl

theorem readPath_quoted {quote : Char} (h : quote ∉ cs) (more : List Char) :
    readPath (.quoted quote) (cs ++ quote :: more) =
      (cs ++ quote :: (readPath .bracket more).1, (readPath .bracket more).2) := by
  induction cs with
  | nil => simp [readPath]
  | cons c cs ih =>
    rw [List.mem_cons, not_or] at h
    rw [List.cons_append, readPath, if_neg (Ne.symm h.1), ih h.2]
    rfl

/-- Inside of quotes a closing bracket does not end the token. -/
theorem readPath_bracketed (hname : Path.IsName name.toList) (hquote : '\'' ∉ key.toList) :
    readPath .outside (bracketed name key).toList = ((bracketed name key).toList, []) := by
  have hopen (cs : List Char) : readPath .outside ('[' :: '\'' :: cs) =
      ('[' :: '\'' :: (readPath (.quoted '\'') cs).1, (readPath (.quoted '\'') cs).2) := rfl
  have hrest : '[' :: ('\'' :: (key.toList ++ ['\''])) ++ [']'] =
      '[' :: '\'' :: (key.toList ++ '\'' :: [']']) := by simp
  rw [toList_bracketed, hrest, readPath_name (Path.isName_iff.1 hname).2, hopen,
    readPath_quoted hquote]
  rfl

theorem operator?_of_isNameChar (hc : Path.isNameChar c = Bool.true) (next : Option Char) :
    operator? c next = none := by
  unfold operator?
  split
  case h_13 => rfl
  all_goals exact absurd hc (by decide)

/-- What starts like a name, and not like a number, is read as a word. -/
theorem read_of_isNameChar (hc : Path.isNameChar c = Bool.true) (hdigit : c.isDigit = Bool.false)
    (afterOperand : Bool) (cs : List Char) :
    Token.read afterOperand c cs = readWord (c :: cs) := by
  have hsign : c ≠ '-' := Path.ne_of_isNameChar hc (by decide)
  have hquote : ¬(c = '\'' ∨ c = '"') :=
    not_or.2 ⟨Path.ne_of_isNameChar hc (by decide), Path.ne_of_isNameChar hc (by decide)⟩
  have hnumber : startsNumber afterOperand c cs = Bool.false := by
    simp [startsNumber, hdigit, hsign]
  rw [read_eq, operator?_of_isNameChar hc, ← readPlain_of_word hnumber hc]
  exact if_neg hquote

end Expression.Token

namespace Context

variable {c : Context} {name key : String} {es : Entries Value} {v : Value}

theorem lookup?_of_resolve_single (h : c.resolve (.single name) = .ok v) :
    c.lookup? name = some v := by
  rw [resolve, Path.single] at h
  cases hlookup : c.lookup? name with
  | none =>
    rw [hlookup] at h
    cases h
  | some w =>
    rw [hlookup] at h
    cases h
    rfl

/-- A key behind the name of a map is the entry of the map. -/
theorem resolve_entry (hmap : c.resolve (.single name) = .ok (.map es))
    (hv : es.get? key = some v) (source : String) :
    c.resolve ⟨source, name, [.key key]⟩ = .ok v := by
  rw [resolve, lookup?_of_resolve_single hmap]
  dsimp only
  rw [List.foldlM_cons, step, hv]
  rfl

end Context

namespace Expression

variable {name key : String}

theorem tokens_bracketed (hname : Path.IsName name.toList)
    (hdigit : ∀ c ∈ name.toList.head?, c.isDigit = false) (hquote : '\'' ∉ key.toList) :
    tokens false (bracketed name key).toList = .ok [.path (bracketed name key)] := by
  have hpath := Token.readPath_bracketed hname hquote
  have hbracket : '[' ∈ (bracketed name key).toList := by simp [toList_bracketed]
  have hword : Token.readWord (bracketed name key).toList =
      .ok (.path (bracketed name key), []) := by
    rw [Token.readWord, hpath, Token.ofWord_of_bracket hbracket, String.ofList_toList]
  obtain ⟨hne, hchars⟩ := Path.isName_iff.1 hname
  obtain ⟨c, r, hcs⟩ := List.exists_cons_of_ne_nil hne
  have hc : Path.isNameChar c = true := hchars c (by simp [hcs])
  have htext := toList_bracketed name key
  rw [hcs, List.cons_append] at htext
  rw [htext, ← Token.read_of_isNameChar hc (hdigit c (by simp [hcs])) false] at hword
  rw [htext, tokens_token (Bool.eq_false_iff.1 (Path.not_isBlank_of_isNameChar hc)) hword, tokens]
  rfl

theorem read_bracketed_of_path {p : Path} (hname : Path.IsName name.toList)
    (hdigit : ∀ c ∈ name.toList.head?, c.isDigit = false) (hquote : '\'' ∉ key.toList)
    (hpath : Path.read (bracketed name key) = .ok p) :
    read (bracketed name key) = .ok ⟨bracketed name key, .path p⟩ :=
  read_of_derives (tokens_bracketed hname hdigit hquote)
    (Derives.path hpath).affirmed_operand.and_single.or_single

theorem read_bracketed_of_error {e : PathError} (hname : Path.IsName name.toList)
    (hdigit : ∀ c ∈ name.toList.head?, c.isDigit = false) (hquote : '\'' ∉ key.toList)
    (hpath : Path.read (bracketed name key) = .error e) :
    ∃ fault, read (bracketed name key) = .error ⟨bracketed name key, fault⟩ := by
  apply IsSpoilt.read
  rw [tokens_bracketed hname hdigit hquote]
  rintro ts ⟨⟩
  exact ⟨_, e, List.mem_cons_self, hpath⟩

/-- The entry of a map by a key in quotes is a path and an expression exactly if there is no closing
bracket in the key, which may hold anything else but the quote itself. Then the value of both is the
entry. -/
theorem read_bracketed {name key : String} (hname : Path.IsName name.toList)
    (hdigit : ∀ c ∈ name.toList.head?, c.isDigit = false) (hquote : '\'' ∉ key.toList) :
    if ']' ∈ key.toList then
      Path.read (bracketed name key) = .error ⟨bracketed name key, .invalidIndex⟩ ∧
        ∃ fault, read (bracketed name key) = .error ⟨bracketed name key, fault⟩
    else
      (∃ p, Path.read (bracketed name key) = .ok p ∧ p.segments = [.key name, .key key]) ∧
        ∃ x, read (bracketed name key) = .ok x ∧
          ∀ c es v, c.resolve (.single name) = .ok (.map es) → Entries.get? es key = some v →
            x.value c = .ok v := by
  split
  · next hclose =>
    have hpath := Path.read_bracketed_error hname hquote hclose
    exact ⟨hpath, read_bracketed_of_error hname hdigit hquote hpath⟩
  · next hclose =>
    have hpath := Path.read_bracketed_ok hname hclose
    refine ⟨⟨_, hpath, rfl⟩, _, read_bracketed_of_path hname hdigit hquote hpath, ?_⟩
    intro c es v hmap hv
    change c.resolveStrict _ = .ok v
    rw [Context.resolveStrict, Context.resolve_entry hmap hv]

/-- A key with a point, a comma, blanks, an opening bracket and a quote of the other kind. -/
def oddKey : String :=
  " a.b, [\"c "

theorem read_bracketed_oddKey :
    (∃ p, Path.read "m[' a.b, [\"c ']" = .ok p ∧ p.segments = [.key "m", .key oddKey]) ∧
      ∃ x, read "m[' a.b, [\"c ']" = .ok x ∧
        x.value (.ofRoot (.map [("m", .map [(oddKey, .bool true)])])) = .ok (.bool true) := by
  have hname : Path.IsName "m".toList :=
    Path.isName_iff.2 ⟨by decide, List.forall_mem_singleton.2 (by decide)⟩
  have hread := @read_bracketed "m" oddKey hname (by rintro _ ⟨⟩; decide) (by decide)
  rw [if_neg (by decide)] at hread
  obtain ⟨hpath, x, hx, hvalue⟩ := hread
  exact ⟨hpath, x, hx, hvalue _ [(oddKey, .bool true)] _ (by cbv) (by cbv)⟩

/-- A closing bracket in a key ends the path, though it is between quotes. -/
theorem read_bracketed_closing_bracket :
    Path.read "m['a]b']" = .error ⟨"m['a]b']", .invalidIndex⟩ ∧
      ∃ fault, read "m['a]b']" = .error ⟨"m['a]b']", fault⟩ := by
  refine ⟨by cbv, _, by cbv⟩

end Expression

end DynamicSql

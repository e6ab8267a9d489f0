import DynamicSql.Proofs.Expression.PathEnd

/-!
Tokens written out. A text in which tokens stand apart by blanks, each in any of its spellings, is
read as these tokens again (`tokens_written`): every token ends in front of a blank. Only the minus
of a number depends on the token in front of it.
-/

namespace DynamicSql.Expression

namespace Token

/-- The tokens that are no names, numbers or strings, without a letter in them. -/
def symbols : List (String × Token) :=
  [("(", .openParen), (")", .closeParen), ("+", .plus), ("&&", .and), ("||", .or), ("!", .not),
    ("==", .compare .eq), ("!=", .compare .ne), ("<", .compare .lt), ("<=", .compare .le),
    (">", .compare .gt), (">=", .compare .ge)]

/-- Words that count only as they are written here. -/
def words : List (String × Token) :=
  [("null", .null), ("true", .true), ("false", .false), ("eq", .compare .eq),
    ("neq", .compare .ne), ("lt", .compare .lt), ("lte", .compare .le), ("gt", .compare .gt),
    ("gte", .compare .ge)]

/-- Words that count in any case. -/
def connectives : List (String × Token) :=
  [("and", .and), ("or", .or), ("not", .not)]

def lower (word : String) : String :=
  String.ofList (word.toList.map Char.toLower)

def IsKeyword (word : String) : Prop :=
  word ∈ words.map Prod.fst ∨ lower word ∈ connectives.map Prod.fst

instance (word : String) : Decidable (IsKeyword word) :=
  inferInstanceAs (Decidable (_ ∨ _))

/-- A path that stands between blanks, and is one token there. -/
structure IsPathWord (source : String) : Prop where
  accepted : ∃ p, Path.read source = .ok p
  trimmed : Text.trim source = source
  noDigit : ∀ c ∈ source.toList.head?, c.isDigit = Bool.false
  noKeyword : ¬IsKeyword source
  noOwnQuote : ∀ inner ∈ Path.brackets Bool.false source.toList, Path.HasNoOwnQuote inner

/-- A string as it stands between quotes. -/
def escape (quote : Char) (cs : List Char) : List Char :=
  cs.flatMap fun c => if c = '\\' ∨ c = quote then ['\\', c] else [c]

/-- The spellings of a token. An integer is an unsigned number only where the signed ones end. -/
inductive Spelled : Token → List Char → Prop where
  | path {source : String} (h : IsPathWord source) : Spelled (.path source) source.toList
  | int (n : Int64) : Spelled (.number (.int n)) (Number.int n).text.toList
  | uint {n : UInt64} (h : Int64.maxValue.toInt < n.toNat) :
      Spelled (.number (.uint n)) (Number.uint n).text.toList
  | text {quote : Char} (h : quote = '\'' ∨ quote = '"') (s : String) :
      Spelled (.text s) (quote :: escape quote s.toList ++ [quote])
  | symbol {sign : String} {t : Token} (h : (sign, t) ∈ symbols) : Spelled t sign.toList
  | word {word : String} {t : Token} (h : (word, t) ∈ words) : Spelled t word.toList
  | connective {word : String} {t : Token} (h : (lower word, t) ∈ connectives) :
      Spelled t word.toList

def isNegative : Token → Bool
  | .number (.int n) => n < 0
  | _ => Bool.false

/-- Nothing but a blank follows. -/
def StandsApart (more : List Char) : Prop :=
  ∀ c ∈ more.head?, Text.isBlankChar c = Bool.true

/-- Read where only a blank follows, the text is this token. -/
def ReadsAs (afterOperand : Bool) (cs : List Char) (t : Token) : Prop :=
  ∃ c rest, cs = c :: rest ∧ Text.isBlankChar c = Bool.false ∧
    ∀ more, StandsApart more → Token.read afterOperand c (rest ++ more) = .ok (t, more)

variable {afterOperand : Bool} {c quote : Char} {cs ds more : List Char} {t : Token}

/-! Signs -/

theorem operator?_of_blank {d : Char} (hd : Text.isBlankChar d = Bool.true) (c : Char) :
    operator? c (some d) = operator? c none := by
  have hne : d ≠ '&' ∧ d ≠ '|' ∧ d ≠ '=' := by
    refine ⟨?_, ?_, ?_⟩
    all_goals
      rintro rfl
      exact absurd hd (by decide)
  unfold operator?
  split
  all_goals simp_all

theorem operator?_of_apart (h : StandsApart more) (c : Char) :
    operator? c more.head? = operator? c none := by
  cases more with
  | nil => rfl
  | cons d more => exact operator?_of_blank (h d rfl) c

theorem readsAs_sign (hblank : Text.isBlankChar c = Bool.false)
    (h : operator? c none = some (t, Bool.false)) : ReadsAs afterOperand [c] t := by
  refine ⟨c, [], rfl, hblank, fun more hmore => ?_⟩
  rw [List.nil_append, read_eq, operator?_of_apart hmore, h]
  rfl

theorem readsAs_signs {d : Char} (hblank : Text.isBlankChar c = Bool.false)
    (h : operator? c (some d) = some (t, Bool.true)) : ReadsAs afterOperand [c, d] t := by
  refine ⟨c, [d], rfl, hblank, fun more _ => ?_⟩
  rw [List.singleton_append, read_eq, List.head?_cons, h]
  rfl

theorem readsAs_symbol {sign : String} (h : (sign, t) ∈ symbols) :
    ReadsAs afterOperand sign.toList t := by
  simp only [symbols, List.mem_cons, Prod.mk.injEq, List.not_mem_nil, or_false] at h
  obtain ⟨rfl, rfl⟩ | ⟨rfl, rfl⟩ | ⟨rfl, rfl⟩ | ⟨rfl, rfl⟩ | ⟨rfl, rfl⟩ | ⟨rfl, rfl⟩ | ⟨rfl, rfl⟩ |
    ⟨rfl, rfl⟩ | ⟨rfl, rfl⟩ | ⟨rfl, rfl⟩ | ⟨rfl, rfl⟩ | ⟨rfl, rfl⟩ := h
  all_goals first
    | exact readsAs_sign (by decide) rfl
    | exact readsAs_signs (by decide) rfl

/-! Words -/

theorem ofWord_word {word : String} (h : (word, t) ∈ words) : ofWord word.toList = t := by
  simp only [words, List.mem_cons, Prod.mk.injEq, List.not_mem_nil, or_false] at h
  obtain ⟨rfl, rfl⟩ | ⟨rfl, rfl⟩ | ⟨rfl, rfl⟩ | ⟨rfl, rfl⟩ | ⟨rfl, rfl⟩ | ⟨rfl, rfl⟩ | ⟨rfl, rfl⟩ |
    ⟨rfl, rfl⟩ | ⟨rfl, rfl⟩ := h
  all_goals rfl

theorem ofWord_path {source : String} (h : ¬IsKeyword source) :
    ofWord source.toList = .path source := by
  rw [IsKeyword, not_or] at h
  obtain ⟨hword, hlower⟩ := h
  unfold ofWord
  rw [String.ofList_toList]
  split
  case h_10 =>
    change ¬String.ofList (source.toList.map Char.toLower) ∈ _ at hlower
    split
    · exact absurd (by simp [connectives, *]) hlower
    · exact absurd (by simp [connectives, *]) hlower
    · exact absurd (by simp [connectives, *]) hlower
    · rfl
  all_goals exact absurd (by simp [words]) hword

theorem StandsApart.isOff (h : StandsApart more) : ∀ c ∈ more.head?, Path.IsOff c :=
  fun c hc => Path.isOff_of_blank (h c hc)

/-- What starts like a name and is taken as a whole is the token of this word. -/
theorem readsAs_of_readPath (hstart : ∃ c rest, cs = c :: rest ∧ Path.isNameChar c = Bool.true ∧
      c.isDigit = Bool.false)
    (hpath : ∀ more, StandsApart more → readPath .outside (cs ++ more) = (cs, more)) :
    ReadsAs afterOperand cs (ofWord cs) := by
  obtain ⟨c, rest, rfl, hname, hdigit⟩ := hstart
  refine ⟨c, rest, rfl, Path.not_isBlank_of_isNameChar hname, fun more hmore => ?_⟩
  have htaken := hpath more hmore
  rw [List.cons_append] at htaken
  rw [read_of_isNameChar hname hdigit, readWord, htaken]

theorem isNameChar_of_isAlphanum (h : c.isAlphanum = Bool.true) :
    Path.isNameChar c = Bool.true := by
  have hascii : c.toNat < 128 := by
    simp [Char.isAlphanum, Char.isAlpha, Char.isUpper, Char.isLower, Char.isDigit,
      UInt32.le_iff_toNat_le] at h
    omega
  rw [Path.isNameChar, Text.isAlphanumeric_of_ascii hascii, h, Bool.true_or, Bool.true_or]

theorem isNameChar_of_isAlpha (h : c.isAlpha = Bool.true) : Path.isNameChar c = Bool.true :=
  isNameChar_of_isAlphanum (by rw [Char.isAlphanum, h, Bool.true_or])

theorem isNameChar_of_isDigit (h : c.isDigit = Bool.true) : Path.isNameChar c = Bool.true :=
  isNameChar_of_isAlphanum (by rw [Char.isAlphanum, h, Bool.or_true])

theorem isDigit_of_isAlpha (h : c.isAlpha = Bool.true) : c.isDigit = Bool.false := by
  have hbounds : 65 ≤ c.toNat ∧ c.toNat ≤ 90 ∨ 97 ≤ c.toNat ∧ c.toNat ≤ 122 := by
    simpa [Char.isAlpha, Char.isUpper, Char.isLower, UInt32.le_iff_toNat_le] using h
  rw [Bool.eq_false_iff]
  intro hdigit
  have hdigit' : 48 ≤ c.toNat ∧ c.toNat ≤ 57 := Char.isDigit_iff_toNat.1 hdigit
  omega

theorem readsAs_letters {word : String} (hne : word.toList ≠ [])
    (h : ∀ c ∈ word.toList, c.isAlpha = Bool.true) :
    ReadsAs afterOperand word.toList (ofWord word.toList) := by
  obtain ⟨c, rest, hword⟩ := List.exists_cons_of_ne_nil hne
  have hc : c.isAlpha = Bool.true := h c (hword ▸ List.mem_cons_self)
  refine readsAs_of_readPath ⟨c, rest, hword, isNameChar_of_isAlpha hc, isDigit_of_isAlpha hc⟩
    fun more hmore => ?_
  rw [readPath_name fun c hc => isNameChar_of_isAlpha (h c hc), readPath_of_isOff hmore.isOff,
    List.append_nil]

theorem isAlpha_of_words {word : String} (h : word ∈ words.map Prod.fst) :
    word.toList ≠ [] ∧ ∀ c ∈ word.toList, c.isAlpha = Bool.true := by
  simp only [words, List.map_cons, List.map_nil, List.mem_cons, List.not_mem_nil, or_false] at h
  obtain rfl | rfl | rfl | rfl | rfl | rfl | rfl | rfl | rfl := h
  all_goals simp

theorem isAlpha_of_connectives {word : String} (h : word ∈ connectives.map Prod.fst) :
    word.toList ≠ [] ∧ ∀ c ∈ word.toList, c.isAlpha = Bool.true := by
  simp only [connectives, List.map_cons, List.map_nil, List.mem_cons, List.not_mem_nil,
    or_false] at h
  obtain rfl | rfl | rfl := h
  all_goals simp

theorem readsAs_word {word : String} (h : (word, t) ∈ words) :
    ReadsAs afterOperand word.toList t := by
  obtain ⟨hne, hchars⟩ := isAlpha_of_words (List.mem_map_of_mem h)
  rw [← ofWord_word h]
  exact readsAs_letters hne hchars

theorem isAlpha_of_toLower (h : c.toLower.isAlpha = Bool.true) : c.isAlpha = Bool.true := by
  by_cases hupper : c.isUpper = Bool.true
  · rw [Char.isAlpha, hupper, Bool.true_or]
  · rwa [Char.toLower_eq_of_not_isUpper hupper] at h

/-- None of the other words is a connective. -/
theorem ofWord_connective {word : String} (h : (lower word, t) ∈ connectives) :
    ofWord word.toList = t := by
  unfold ofWord
  rw [String.ofList_toList]
  split
  case h_10 =>
    change (String.ofList (word.toList.map Char.toLower), t) ∈ connectives at h
    generalize String.ofList (word.toList.map Char.toLower) = lowered at h
    simp only [connectives, List.mem_cons, Prod.mk.injEq, List.not_mem_nil, or_false] at h
    obtain ⟨rfl, rfl⟩ | ⟨rfl, rfl⟩ | ⟨rfl, rfl⟩ := h
    all_goals rfl
  all_goals
    have hmem : lower _ ∈ connectives.map Prod.fst := List.mem_map_of_mem h
    exact absurd hmem (by decide)

theorem readsAs_connective {word : String} (h : (lower word, t) ∈ connectives) :
    ReadsAs afterOperand word.toList t := by
  obtain ⟨hne, hchars⟩ := isAlpha_of_connectives (List.mem_map_of_mem h)
  rw [lower, String.toList_ofList] at hne hchars
  rw [← ofWord_connective h]
  refine readsAs_letters (fun hnil => hne (by rw [hnil]; rfl)) fun c hc => ?_
  exact isAlpha_of_toLower (hchars _ (List.mem_map_of_mem hc))

theorem readsAs_path {source : String} (h : IsPathWord source) :
    ReadsAs afterOperand source.toList (.path source) := by
  obtain ⟨p, hp⟩ := h.accepted
  obtain ⟨-, hspells⟩ := Path.read_eq_ok_iff.1 hp
  rw [h.trimmed] at hspells
  have hpath (more : List Char) (hmore : StandsApart more) :=
    readPath_of_spells hspells h.noOwnQuote hmore.isOff
  obtain ⟨c, rest, hsource, hname⟩ := Path.exists_head_of_spells hspells
  have hdigit := h.noDigit c (hsource ▸ rfl)
  rw [← ofWord_path h.noKeyword]
  exact readsAs_of_readPath ⟨c, rest, hsource, hname, hdigit⟩ hpath

/-! Strings -/

theorem escape_cons (c : Char) (cs : List Char) :
    escape quote (c :: cs) = (if c = '\\' ∨ c = quote then ['\\', c] else [c]) ++ escape quote cs :=
  rfl

theorem readString?_escape (hquote : quote = '\'' ∨ quote = '"') (cs more : List Char) :
    readString? quote (escape quote cs ++ quote :: more) = some (cs, more) := by
  have hslash : quote ≠ '\\' := by
    rcases hquote with rfl | rfl
    all_goals decide
  induction cs with
  | nil =>
    change readString? quote (quote :: more) = _
    rw [readString?_of_ne hslash, if_pos rfl]
  | cons c cs ih =>
    rw [escape_cons, List.append_assoc]
    split
    · next hescaped =>
      have hc : unescape c = c := by
        rcases hescaped with rfl | rfl
        · rfl
        · rcases hquote with rfl | rfl
          all_goals rfl
      rw [List.cons_append, List.singleton_append, readString?, ih, hc]
      rfl
    · next hplain =>
      rw [not_or] at hplain
      rw [List.singleton_append, readString?_of_ne hplain.1, if_neg hplain.2, ih]
      rfl

theorem readsAs_text (hquote : quote = '\'' ∨ quote = '"') (s : String) :
    ReadsAs afterOperand (quote :: escape quote s.toList ++ [quote]) (.text s) := by
  have hstart : Text.isBlankChar quote = Bool.false ∧ ∀ next, operator? quote next = none := by
    rcases hquote with rfl | rfl
    · exact ⟨by decide, fun _ => rfl⟩
    · exact ⟨by decide, fun _ => rfl⟩
  refine ⟨quote, escape quote s.toList ++ [quote], rfl, hstart.1, fun more _ => ?_⟩
  rw [read_eq, hstart.2, List.append_assoc, List.singleton_append]
  simp only [readOther, if_pos hquote, readString?_escape hquote, String.ofList_toList]

/-! Numbers -/

theorem ofInt?_toInt (n : Int64) : Number.ofInt? n.toInt = some (.int n) := by
  have hmin : Int64.minValue.toInt = -2 ^ 63 := by decide
  have hmax : Int64.maxValue.toInt = 2 ^ 63 - 1 := by decide
  have := n.le_toInt
  have := n.toInt_lt
  rw [Number.ofInt?, if_pos ⟨by omega, by omega⟩, Int64.ofInt_toInt]

theorem ofInt?_toNat {n : UInt64} (h : Int64.maxValue.toInt < n.toNat) :
    Number.ofInt? n.toNat = some (.uint n) := by
  have hsize := n.toNat_lt_size
  rw [Number.ofInt?, if_neg (by omega), if_pos ⟨by omega, by omega⟩, Int.toNat_natCast,
    UInt64.ofNat_toNat]

theorem takesNumber (hchars : ∀ c ∈ cs, c.isDigit = Bool.true) (hmore : StandsApart more) :
    (cs ++ more).takeWhile isNumberChar = cs ∧ (cs ++ more).dropWhile isNumberChar = more := by
  refine span_append (fun c hc => ?_) fun c hc => ?_
  · rw [isNumberChar, hchars c hc, Bool.true_or]
  · have hoff := hmore.isOff c hc
    have hdigit : c.isDigit = Bool.false := by
      rw [Bool.eq_false_iff]
      intro hdigit
      have hblank := Decimal.not_isBlank_of_isDigit hdigit
      rw [hmore c hc] at hblank
      contradiction
    simp [isNumberChar, hdigit, hoff.noPoint]

/-- A number that starts with a digit, or with a minus where no operand stands in front. -/
theorem readsAs_number {n : Number} (hread : Number.ofChars? (c :: ds) = some n)
    (hdigits : ∀ d ∈ ds, d.isDigit = Bool.true)
    (hstart : c.isDigit = Bool.true ∨ c = '-' ∧ ds ≠ [] ∧ afterOperand = Bool.false) :
    ReadsAs afterOperand (c :: ds) (.number n) := by
  have hother : Text.isBlankChar c = Bool.false ∧ (∀ next, operator? c next = none) ∧
      ¬(c = '\'' ∨ c = '"') := by
    rcases hstart with hdigit | ⟨rfl, -⟩
    · have hname := isNameChar_of_isDigit hdigit
      exact ⟨Decimal.not_isBlank_of_isDigit hdigit, operator?_of_isNameChar hname,
        not_or.2 ⟨Path.ne_of_isNameChar hname (by decide), Path.ne_of_isNameChar hname (by decide)⟩⟩
    · exact ⟨by decide, fun _ => rfl, by decide⟩
  obtain ⟨hblank, hoperator, hquote⟩ := hother
  refine ⟨c, ds, rfl, hblank, fun more hmore => ?_⟩
  have hnumber : startsNumber afterOperand c (ds ++ more) = Bool.true := by
    rcases hstart with hdigit | ⟨rfl, hne, rfl⟩
    · rw [startsNumber, hdigit, Bool.true_or]
    · obtain ⟨d, ds, rfl⟩ := List.exists_cons_of_ne_nil hne
      simp [startsNumber, hdigits d]
  obtain ⟨htake, hdrop⟩ := takesNumber hdigits hmore
  rw [read_eq, hoperator]
  dsimp only
  rw [readOther, if_neg hquote, readPlain_of_number hnumber, readNumber, htake, hdrop, hread]

theorem toList_toString (a : Int) :
    (toString a).toList =
      if a < 0 then '-' :: Nat.toDigits 10 a.natAbs else Nat.toDigits 10 a.natAbs := by
  rw [Int.toString_eq_repr]
  cases a with
  | ofNat k => exact Nat.toList_repr
  | negSucc k => simp [Int.repr, Int.negSucc_lt_zero]

theorem readsAs_integer {n : Number} {a : Int} (hn : n.text = toString a)
    (hkind : Number.ofInt? a = some n) (hsign : a < 0 → afterOperand = Bool.false) :
    ReadsAs afterOperand n.text.toList (.number n) := by
  have hread : Number.ofChars? n.text.toList = some n := by
    rw [hn, Number.ofChars?_eq, Decimal.readInt?_of_integer (Decimal.integer_toString a),
      Option.bind_some, hkind]
  have hdigits : ∀ c ∈ Nat.toDigits 10 a.natAbs, c.isDigit = Bool.true :=
    fun c hc => Nat.isDigit_of_mem_toDigits (by decide) (by decide) hc
  rw [hn, toList_toString] at hread ⊢
  split at hread
  · next hneg =>
    rw [if_pos hneg]
    exact readsAs_number hread hdigits (.inr ⟨rfl, Nat.toDigits_ne_nil, hsign hneg⟩)
  · next hneg =>
    rw [if_neg hneg]
    have hne : Nat.toDigits 10 a.natAbs ≠ [] := Nat.toDigits_ne_nil
    obtain ⟨c, ds, hds⟩ := List.exists_cons_of_ne_nil hne
    rw [hds, List.forall_mem_cons] at hdigits
    rw [hds] at hread ⊢
    exact readsAs_number hread hdigits.2 (.inl hdigits.1)

/-! Texts -/

theorem readsAs_spelled (h : Spelled t cs)
    (hsign : t.isNegative = Bool.true → afterOperand = Bool.false) : ReadsAs afterOperand cs t := by
  cases h with
  | path h => exact readsAs_path h
  | int n =>
    refine readsAs_integer rfl (ofInt?_toInt n) fun hneg => hsign ?_
    simpa [isNegative, Int64.lt_iff_toInt_lt] using hneg
  | uint h => exact readsAs_integer rfl (ofInt?_toNat h) fun hneg => by omega
  | text h s => exact readsAs_text h s
  | symbol h => exact readsAs_symbol h
  | word h => exact readsAs_word h
  | connective h => exact readsAs_connective h

end Token

/-- Tokens one after the other, each in one of its spellings and apart from the next by blanks. -/
inductive Written : List Token → List Char → Prop where
  | blanks {cs : List Char} (h : ∀ c ∈ cs, Text.isBlankChar c = true) : Written [] cs
  | token {t : Token} {ts : List Token} {blanks cs more : List Char}
      (hblanks : ∀ c ∈ blanks, Text.isBlankChar c = true) (h : t.Spelled cs)
      (hmore : Written ts more) (hapart : Token.StandsApart more) :
      Written (t :: ts) (blanks ++ (cs ++ more))

/-- No minus of a number stands where it is taken apart from the number. -/
def SignsHold (ts : List Token) : Prop :=
  ts.IsChain fun t u => t.endsOperand = true → u.isNegative = false

variable {afterOperand : Bool} {cs blanks : List Char} {ts : List Token}

theorem tokens_blanks (h : ∀ c ∈ blanks, Text.isBlankChar c = true) (cs : List Char) :
    tokens afterOperand (blanks ++ cs) = tokens afterOperand cs := by
  induction blanks with
  | nil => rfl
  | cons c blanks ih =>
    obtain ⟨hc, hblanks⟩ := List.forall_mem_cons.1 h
    rw [List.cons_append, tokens_blank hc, ih hblanks]

theorem Token.ReadsAs.tokens_append {t : Token} {more : List Char} (h : t.ReadsAs afterOperand cs)
    (hmore : StandsApart more) :
    tokens afterOperand (cs ++ more) = (tokens t.endsOperand more).map (t :: ·) := by
  obtain ⟨c, rest, rfl, hblank, hread⟩ := h
  exact tokens_token (Bool.eq_false_iff.1 hblank) (hread more hmore)

theorem Written.tokens_eq (h : Written ts cs) (hsigns : SignsHold ts)
    (hfirst : ∀ t ∈ ts.head?, t.isNegative = true → afterOperand = false) :
    tokens afterOperand cs = .ok ts := by
  induction h generalizing afterOperand with
  | @blanks cs h =>
    rw [← List.append_nil cs, tokens_blanks h, tokens]
  | @token t ts blanks cs more hblanks h hmore hapart ih =>
    obtain ⟨hnext, hsigns⟩ := List.isChain_cons.1 hsigns
    have hread := Token.readsAs_spelled h (hfirst t rfl)
    have hrest := ih hsigns fun u hu hneg => by
      by_contra hends
      rw [hnext u hu (Bool.eq_true_of_not_eq_false hends)] at hneg
      contradiction
    rw [tokens_blanks hblanks, hread.tokens_append hapart, hrest]
    rfl

/-- Reading undoes the writing of tokens: a text of tokens that stand apart by blanks is read as
these tokens, in whichever of its spellings each of them stands, unless the minus of a number stands
behind an operand. -/
theorem tokens_written {ts : List Token} {cs : List Char} (h : Written ts cs)
    (hsigns : SignsHold ts) : tokens false cs = .ok ts :=
  h.tokens_eq hsigns fun _ _ _ => rfl

theorem Written.spaced {t : Token} {more : List Char} (h : t.Spelled cs)
    (hmore : Written ts (' ' :: more)) : Written (t :: ts) (' ' :: (cs ++ ' ' :: more)) :=
  @Written.token t ts [' '] cs (' ' :: more) (List.forall_mem_singleton.2 (by decide)) h hmore
    (by rintro _ ⟨⟩; decide)

/-- Behind a comparison the minus belongs to the least integer. -/
theorem tokens_written_mixed :
    tokens false " ! m[ +1 ]['a\"b'] lte -9223372036854775808 oR 'it\\'s' ".toList =
      .ok [.not, .path "m[ +1 ]['a\"b']", .compare .le, .number (.int Int64.minValue), .or,
        .text "it's"] := by
  have hpath : Token.IsPathWord "m[ +1 ]['a\"b']" := by
    refine ⟨⟨⟨_, "m", [.index 1, .key "a\"b"]⟩, by cbv⟩, by cbv, ?_, by decide, ?_⟩
    · rintro _ ⟨⟩
      decide
    rw [show Path.brackets false "m[ +1 ]['a\"b']".toList =
      [" +1 ".toList, "'a\"b'".toList] by decide]
    refine List.forall_mem_cons.2 ⟨fun q key hq hkey => ?_, List.forall_mem_singleton.2 ?_⟩
    · rw [show Text.trimChars " +1 ".toList = ['+', '1'] by decide] at hkey
      rw [← (List.cons_eq_cons.1 hkey).1] at hq
      exact absurd hq (by decide)
    · intro q key hq hkey
      rw [show Text.trimChars "'a\"b'".toList = '\'' :: ['a', '"', 'b'] ++ ['\''] by decide] at hkey
      obtain ⟨hquote, hmore⟩ := List.cons_eq_cons.1 hkey
      rw [← hquote, ← (List.append_inj' hmore rfl).1]
      decide
  have hwritten : Written [.not, .path "m[ +1 ]['a\"b']", .compare .le,
      .number (.int Int64.minValue), .or, .text "it's"]
      " ! m[ +1 ]['a\"b'] lte -9223372036854775808 oR 'it\\'s' ".toList :=
    .spaced (.symbol (show ("!", _) ∈ Token.symbols by simp [Token.symbols])) <|
    .spaced (.path hpath) <|
    .spaced (.word (show ("lte", _) ∈ Token.words by simp [Token.words])) <|
    .spaced (.int _) <|
    .spaced (.connective (show (Token.lower "oR", _) ∈ Token.connectives by
      simp [Token.connectives, Token.lower])) <|
    .spaced (.text (.inl rfl) "it's") <|
    .blanks (List.forall_mem_singleton.2 (by decide))
  exact tokens_written hwritten (by simp [SignsHold, Token.endsOperand, Token.isNegative])

end DynamicSql.Expression

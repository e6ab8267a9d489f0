import DynamicSql.Expression.Token
import DynamicSql.Proofs.Effects
import DynamicSql.Proofs.Parameter.PathReading

/-!
The tokens of a text in front of a closing parenthesis. Every token ends there by itself, with one
exception: a path whose reader stands inside brackets where the text is over. Such an open path
takes in the parenthesis and whatever else follows.
-/

namespace DynamicSql.Expression

namespace Token

namespace PathPlace

/-- Where the reader of a path stands behind one more character of it. -/
def next : PathPlace → Char → PathPlace
  | .outside, c => if c == '[' then .bracket else .outside
  | .bracket, c =>
    if c == '\'' || c == '"' then .quoted c
    else if c == ']' then .outside
    else .bracket
  | .quoted quote, c => if c = quote then .bracket else .quoted quote

def behind (place : PathPlace) (cs : List Char) : PathPlace :=
  cs.foldl next place

def isOutside : PathPlace → Bool
  | .outside => Bool.true
  | _ => Bool.false

end PathPlace

/-- A path whose reader stands inside brackets behind it. -/
def isOpen : Token → Bool
  | .path source => !(PathPlace.behind .outside source.toList).isOutside
  | _ => Bool.false

/-! Paths -/

/-- Either the reader takes a character, or it stands outside of brackets and stops in front of
it. -/
theorem readPath_cons (place : PathPlace) (c : Char) :
    (∀ cs, readPath place (c :: cs) =
      (c :: (readPath (place.next c) cs).1, (readPath (place.next c) cs).2)) ∨
      place.isOutside = Bool.true ∧ ∀ cs, readPath place (c :: cs) = ([], c :: cs) := by
  cases place with
  | outside =>
    by_cases hopen : c = '['
    · subst hopen
      exact .inl fun _ => rfl
    · by_cases hname : (Path.isNameChar c || c == '.') = Bool.true
      · exact .inl fun cs => by simp [readPath, hname, PathPlace.next, hopen]
      · exact .inr ⟨rfl, fun cs => by simp [readPath, hname, hopen]⟩
  | bracket => exact .inl fun _ => rfl
  | quoted quote => exact .inl fun _ => rfl

/-- A reader that takes a whole text goes on from where it stands behind it. -/
theorem readPath_append_of_end {place : PathPlace} {cs : List Char}
    (h : (readPath place cs).2 = []) (more : List Char) :
    readPath place (cs ++ more) =
      (cs ++ (readPath (place.behind cs) more).1, (readPath (place.behind cs) more).2) := by
  induction cs generalizing place with
  | nil => rfl
  | cons c cs ih =>
    obtain htakes | ⟨_, hstops⟩ := readPath_cons place c
    · rw [htakes] at h
      rw [List.cons_append, htakes, ih h]
      rfl
    · rw [hstops] at h
      contradiction

/-- A reader that stops stands outside of brackets, and stops there whatever follows. -/
theorem readPath_append_of_rest {place : PathPlace} {cs : List Char}
    (h : (readPath place cs).2 ≠ []) (more : List Char) :
    (place.behind (readPath place cs).1).isOutside = Bool.true ∧
      readPath place (cs ++ more) = ((readPath place cs).1, (readPath place cs).2 ++ more) := by
  induction cs generalizing place with
  | nil => simp [readPath] at h
  | cons c cs ih =>
    obtain htakes | ⟨houtside, hstops⟩ := readPath_cons place c
    · rw [htakes] at h
      obtain ⟨houtside, hread⟩ := ih h
      rw [htakes, List.cons_append, htakes, hread]
      exact ⟨houtside, rfl⟩
    · rw [hstops, List.cons_append, hstops]
      exact ⟨houtside, rfl⟩

theorem isOutside_behind {cs : List Char} (h : '[' ∉ cs) :
    (PathPlace.behind .outside cs).isOutside = Bool.true := by
  induction cs with
  | nil => rfl
  | cons c cs ih =>
    have hc : (c == '[') = Bool.false := by
      simpa using fun e : c = '[' => h (e ▸ List.mem_cons_self)
    rw [PathPlace.behind, List.foldl_cons, PathPlace.next, hc]
    exact ih fun hmem => h (List.mem_cons_of_mem c hmem)

theorem ne_of_bracket_mem {w : List Char} {word : String} (h : '[' ∈ w)
    (hword : '[' ∉ word.toList) : String.ofList w ≠ word := by
  intro e
  rw [← e, String.toList_ofList] at hword
  exact hword h

/-- No word with a bracket in it is a constant or an operator. -/
theorem ofWord_of_bracket {w : List Char} (h : '[' ∈ w) :
    ofWord w = .path (String.ofList w) := by
  have hlower : '[' ∈ w.map Char.toLower := List.mem_map.2 ⟨'[', h, by decide⟩
  unfold ofWord
  split
  case h_10 =>
    split
    · exact absurd ‹_› (ne_of_bracket_mem hlower (by decide))
    · exact absurd ‹_› (ne_of_bracket_mem hlower (by decide))
    · exact absurd ‹_› (ne_of_bracket_mem hlower (by decide))
    · rfl
  all_goals exact absurd ‹_› (ne_of_bracket_mem h (by decide))

theorem isOpen_ofWord (w : List Char) :
    (ofWord w).isOpen = !(PathPlace.behind .outside w).isOutside := by
  by_cases h : '[' ∈ w
  · rw [ofWord_of_bracket h, isOpen, String.toList_ofList]
  · rw [isOutside_behind h]
    unfold ofWord
    split
    case h_10 =>
      split
      case h_4 => rw [isOpen, String.toList_ofList, isOutside_behind h]
      all_goals rfl
    all_goals rfl

/-! Tokens in front of a parenthesis -/

variable {afterOperand : Bool} {c : Char} {cs rest : List Char} {t : Token}

/-- The token ends in front of a parenthesis as it ends at the end of the text. -/
def Ends (read : List Char → Except Fault (Token × List Char)) (cs : List Char) (t : Token)
    (rest : List Char) : Prop :=
  t.isOpen = Bool.false ∧ ∀ more, read (cs ++ ')' :: more) = .ok (t, rest ++ ')' :: more)

/-- The token is an open path at the end of the text, and takes in a parenthesis there. -/
def RunsOn (read : List Char → Except Fault (Token × List Char)) (cs : List Char) (t : Token)
    (rest : List Char) : Prop :=
  t.isOpen = Bool.true ∧ rest = [] ∧ ∃ source, t = .path source ∧
    ∀ more, ∃ taken rest',
      read (cs ++ ')' :: more) = .ok (.path (source ++ String.ofList (')' :: taken)), rest')

theorem readNumber_ends (h : readNumber c cs = .ok (t, rest)) : Ends (readNumber c) cs t rest := by
  unfold readNumber at h
  dsimp only at h
  split at h
  · next n hn =>
    cases h
    refine ⟨rfl, fun more => ?_⟩
    obtain ⟨htake, hdrop⟩ := span_append_of_neg (p := isNumberChar) (d := ')') rfl cs more
    unfold readNumber
    dsimp only
    rw [htake, hdrop, hn]
  · cases h

/-- Reads a word, whatever it starts with. -/
def readWord (cs : List Char) : Except Fault (Token × List Char) :=
  .ok (ofWord (readPath .outside cs).1, (readPath .outside cs).2)

theorem bracket_mem_of_inside (h : (PathPlace.behind .outside cs).isOutside = Bool.false) :
    '[' ∈ cs := by
  by_contra hmem
  rw [isOutside_behind hmem] at h
  contradiction

theorem readPath_paren_of_outside {place : PathPlace} (h : place.isOutside = Bool.true)
    (more : List Char) : readPath place (')' :: more) = ([], ')' :: more) := by
  cases place with
  | outside => rfl
  | bracket => contradiction
  | quoted quote => contradiction

theorem readPath_paren_of_inside {place : PathPlace} (h : place.isOutside = Bool.false)
    (more : List Char) :
    ∃ taken rest, readPath place (')' :: more) = (')' :: taken, rest) := by
  cases place with
  | outside => contradiction
  | bracket => exact ⟨_, _, rfl⟩
  | quoted quote => exact ⟨_, _, rfl⟩

/-- A word that is taken up to the end of the text ends there, or runs on as an open path. -/
theorem readWord_all (h : readPath .outside cs = (cs, [])) :
    Ends readWord cs (ofWord cs) [] ∨ RunsOn readWord cs (ofWord cs) [] := by
  have hmore (more : List Char) := readPath_append_of_end (congrArg Prod.snd h) (')' :: more)
  cases hplace : (PathPlace.behind .outside cs).isOutside with
  | true =>
    refine .inl ⟨by rw [isOpen_ofWord, hplace]; rfl, fun more => ?_⟩
    rw [readWord, hmore, readPath_paren_of_outside hplace, List.append_nil]
    rfl
  | false =>
    have hbracket := bracket_mem_of_inside hplace
    refine .inr ⟨by rw [isOpen_ofWord, hplace]; rfl, rfl, String.ofList cs,
      ofWord_of_bracket hbracket, fun more => ?_⟩
    obtain ⟨taken, rest', htaken⟩ := readPath_paren_of_inside hplace more
    refine ⟨taken, rest', ?_⟩
    rw [readWord, hmore, htaken, ofWord_of_bracket (List.mem_append_left _ hbracket),
      String.ofList_append]

theorem readWord_cases (h : readWord cs = .ok (t, rest)) :
    Ends readWord cs t rest ∨ RunsOn readWord cs t rest := by
  cases h
  by_cases hrest : (readPath .outside cs).2 = []
  · have hall : readPath .outside cs = (cs, []) := by
      have hread := readPath_append_of_end hrest []
      rw [List.append_nil] at hread
      simpa [readPath] using hread
    rw [hall]
    exact readWord_all hall
  · refine .inl ⟨?_, fun more => ?_⟩
    · rw [isOpen_ofWord, (readPath_append_of_rest hrest []).1]
      rfl
    · rw [readWord, (readPath_append_of_rest hrest (')' :: more)).2]

theorem startsNumber_append (cs more : List Char) :
    startsNumber afterOperand c (cs ++ ')' :: more) = startsNumber afterOperand c cs := by
  cases cs <;> rfl

theorem readPlain_of_number (h : startsNumber afterOperand c cs = Bool.true) :
    readPlain afterOperand c cs = readNumber c cs :=
  if_pos h

theorem readPlain_of_word (hnumber : startsNumber afterOperand c cs = Bool.false)
    (hname : Path.isNameChar c = Bool.true) :
    readPlain afterOperand c cs = readWord (c :: cs) := by
  simp [readPlain, hnumber, hname, readWord]

theorem readPlain_cases (h : readPlain afterOperand c cs = .ok (t, rest)) :
    Ends (readPlain afterOperand c) cs t rest ∨ RunsOn (readPlain afterOperand c) cs t rest := by
  cases hnumber : startsNumber afterOperand c cs with
  | true =>
    rw [readPlain_of_number hnumber] at h
    obtain ⟨hopen, hread⟩ := readNumber_ends h
    refine .inl ⟨hopen, fun more => ?_⟩
    rw [readPlain_of_number (by rw [startsNumber_append, hnumber]), hread]
  | false =>
    cases hname : Path.isNameChar c with
    | true =>
      have hplain (more : List Char) :
          readPlain afterOperand c (cs ++ ')' :: more) = readWord (c :: cs ++ ')' :: more) :=
        readPlain_of_word (by rw [startsNumber_append, hnumber]) hname
      rw [readPlain_of_word hnumber hname] at h
      simp only [Ends, RunsOn, hplain]
      exact readWord_cases h
    | false => simp [readPlain, hnumber, hname] at h

theorem readString?_of_ne {quote c : Char} (hc : c ≠ '\\') (cs : List Char) :
    readString? quote (c :: cs) =
      if c = quote then some ([], cs)
      else (readString? quote cs).map fun read => (c :: read.1, read.2) := by
  rw [readString?]
  · exact fun h _ => hc h
  · exact fun _ _ h _ => hc h

theorem readString?_append {quote : Char} {s : List Char}
    (h : readString? quote cs = some (s, rest)) (more : List Char) :
    readString? quote (cs ++ more) = some (s, rest ++ more) := by
  fun_induction readString? quote cs generalizing s rest with
  | case1 | case2 => contradiction
  | case3 e cs ih =>
    obtain ⟨⟨s', r⟩, h', heq⟩ := Option.map_eq_some_iff.1 h
    cases heq
    rw [List.cons_append, List.cons_append, readString?, ih h']
    rfl
  | case4 cs hend hescape =>
    cases h
    have hslash : quote ≠ '\\' := by
      cases cs with
      | nil => exact fun e => hend e rfl
      | cons d cs => exact fun e => hescape d cs e rfl
    rw [List.cons_append, readString?_of_ne hslash, if_pos rfl]
  | case5 c cs hend hescape hc ih =>
    obtain ⟨⟨s', r⟩, h', heq⟩ := Option.map_eq_some_iff.1 h
    cases heq
    have hslash : c ≠ '\\' := by
      cases cs with
      | nil => exact fun e => hend e rfl
      | cons d cs => exact fun e => hescape d cs e rfl
    rw [List.cons_append, readString?_of_ne hslash, if_neg hc, ih h']
    rfl

/-- The operator or parenthesis that starts with a character in front of another one, and whether
that one belongs to it. -/
def operator? : Char → Option Char → Option (Token × Bool)
  | '(', _ => some (.openParen, Bool.false)
  | ')', _ => some (.closeParen, Bool.false)
  | '+', _ => some (.plus, Bool.false)
  | '&', some '&' => some (.and, Bool.true)
  | '|', some '|' => some (.or, Bool.true)
  | '=', some '=' => some (.compare .eq, Bool.true)
  | '!', some '=' => some (.compare .ne, Bool.true)
  | '!', _ => some (.not, Bool.false)
  | '<', some '=' => some (.compare .le, Bool.true)
  | '<', _ => some (.compare .lt, Bool.false)
  | '>', some '=' => some (.compare .ge, Bool.true)
  | '>', _ => some (.compare .gt, Bool.false)
  | _, _ => none

theorem operator?_paren (c : Char) : operator? c (some ')') = operator? c none := by
  unfold operator?
  split <;> simp_all

theorem operator?_eq_some {next : Option Char} {second : Bool}
    (h : operator? c next = some (t, second)) :
    t.isOpen = Bool.false ∧ (second = Bool.true → next ≠ none) := by
  unfold operator? at h
  split at h <;> cases h <;> exact ⟨rfl, by simp⟩

/-- What starts with no operator: a string, a number or a word. -/
def readOther (afterOperand : Bool) (c : Char) (cs : List Char) :
    Except Fault (Token × List Char) :=
  if c = '\'' ∨ c = '"' then
    match readString? c cs with
    | some (s, rest) => .ok (.text (String.ofList s), rest)
    | none => .error .unclosedString
  else readPlain afterOperand c cs

theorem read_eq (afterOperand : Bool) (c : Char) (cs : List Char) :
    Token.read afterOperand c cs =
      match operator? c cs.head? with
      | some (t, second) => .ok (t, if second then cs.tail else cs)
      | none => readOther afterOperand c cs := by
  cases cs with
  | nil =>
    unfold Token.read
    split
    case h_13 =>
      simp_all [operator?]
      rfl
    all_goals first | rfl | contradiction
  | cons d cs =>
    unfold Token.read
    split
    case h_13 =>
      simp_all [operator?]
      rfl
    all_goals simp_all [operator?]

theorem head?_append_paren (c : Char) (cs more : List Char) :
    operator? c (cs ++ ')' :: more).head? = operator? c cs.head? := by
  cases cs with
  | nil => exact operator?_paren c
  | cons d cs => rfl

/-- A token ends in front of a parenthesis, or is an open path and runs on. -/
theorem read_cases (h : Token.read afterOperand c cs = .ok (t, rest)) :
    Ends (Token.read afterOperand c) cs t rest ∨ RunsOn (Token.read afterOperand c) cs t rest := by
  cases hoperator : operator? c cs.head? with
  | some operator =>
    obtain ⟨u, second⟩ := operator
    rw [read_eq, hoperator] at h
    cases h
    obtain ⟨hopen, hsecond⟩ := operator?_eq_some hoperator
    refine .inl ⟨hopen, fun more => ?_⟩
    rw [read_eq, head?_append_paren, hoperator]
    cases second with
    | false => rfl
    | true =>
      cases cs with
      | nil => exact absurd rfl (hsecond rfl)
      | cons d cs => rfl
  | none =>
    simp only [read_eq, head?_append_paren, hoperator, readOther, Ends, RunsOn] at h ⊢
    by_cases hquote : c = '\'' ∨ c = '"'
    · simp only [if_pos hquote] at h ⊢
      split at h
      · next s r hs =>
        cases h
        refine .inl ⟨rfl, fun more => ?_⟩
        rw [readString?_append hs]
      · cases h
    · simp only [if_neg hquote] at h ⊢
      exact readPlain_cases h

end Token

/-! Texts in front of a parenthesis -/

variable {afterOperand : Bool} {cs rest : List Char} {ts : List Token}

theorem tokens_blank {c : Char} (hc : Text.isBlankChar c = true) (cs : List Char) :
    tokens afterOperand (c :: cs) = tokens afterOperand cs := by
  rw [tokens, if_pos hc]

theorem tokens_token {c : Char} {t : Token} (hc : ¬Text.isBlankChar c = true)
    (hread : Token.read afterOperand c cs = .ok (t, rest)) :
    tokens afterOperand (c :: cs) = (tokens t.endsOperand rest).map (t :: ·) := by
  rw [tokens, if_neg hc]
  split
  · next t' rest' h =>
    rw [hread] at h
    cases h
    rfl
  · next f h =>
    rw [hread] at h
    cases h

theorem tokens_paren (afterOperand : Bool) (more : List Char) :
    tokens afterOperand (')' :: more) = (tokens true more).map (.closeParen :: ·) :=
  tokens_token (by decide) rfl

/-- In front of a parenthesis the tokens of a text are the same, if none of them is open. -/
theorem tokens_append (h : tokens afterOperand cs = .ok ts) (hclosed : ∀ t ∈ ts, t.isOpen = false)
    (more : List Char) :
    tokens afterOperand (cs ++ ')' :: more) =
      (tokens true more).map fun us => ts ++ .closeParen :: us := by
  fun_induction tokens afterOperand cs generalizing ts with
  | case1 a =>
    cases h
    exact tokens_paren a more
  | case2 a c r hblank ih =>
    rw [List.cons_append, tokens_blank hblank]
    exact ih h hclosed
  | case3 a c r hblank t rest hread ih =>
    obtain ⟨ts, hts, rfl⟩ := map_eq_ok.1 h
    obtain hends | hruns := Token.read_cases hread
    · rw [List.cons_append, tokens_token hblank (hends.2 more)]
      rw [ih hts fun u hu => hclosed u (List.mem_cons_of_mem t hu)]
      cases tokens true more <;> rfl
    · have hopen := hruns.1
      rw [hclosed t List.mem_cons_self] at hopen
      contradiction
  | case4 => cases h

/-- An open path takes in the parenthesis. -/
theorem tokens_append_open (h : tokens afterOperand cs = .ok ts)
    (hopen : ∃ t ∈ ts, t.isOpen = true) {more : List Char} {us : List Token}
    (hmore : tokens afterOperand (cs ++ ')' :: more) = .ok us) :
    ∃ source taken, .path source ∈ ts ∧ .path (source ++ String.ofList (')' :: taken)) ∈ us := by
  fun_induction tokens afterOperand cs generalizing ts us with
  | case1 a =>
    cases h
    obtain ⟨t, ht, _⟩ := hopen
    cases ht
  | case2 a c r hblank ih =>
    rw [List.cons_append, tokens_blank hblank] at hmore
    exact ih h hopen hmore
  | case3 a c r hblank t rest hread ih =>
    obtain ⟨ts, hts, rfl⟩ := map_eq_ok.1 h
    obtain ⟨hclosed, hends⟩ | ⟨_, rfl, source, rfl, hruns⟩ := Token.read_cases hread
    · rw [List.cons_append, tokens_token hblank (hends more)] at hmore
      obtain ⟨us, hus, rfl⟩ := map_eq_ok.1 hmore
      have htail : ∃ u ∈ ts, u.isOpen = true := by
        obtain ⟨u, hu, huopen⟩ := hopen
        obtain rfl | hu := List.mem_cons.1 hu
        · rw [hclosed] at huopen
          contradiction
        · exact ⟨u, hu, huopen⟩
      obtain ⟨source, taken, hsource, htaken⟩ := ih hts htail hus
      exact ⟨source, taken, List.mem_cons_of_mem t hsource, List.mem_cons_of_mem t htaken⟩
    · obtain ⟨taken, rest', hread'⟩ := hruns more
      rw [List.cons_append, tokens_token hblank hread'] at hmore
      obtain ⟨us, _, rfl⟩ := map_eq_ok.1 hmore
      exact ⟨source, taken, List.mem_cons_self, List.mem_cons_self⟩
  | case4 => cases h

end DynamicSql.Expression

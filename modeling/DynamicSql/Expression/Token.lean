import DynamicSql.Expression.Basic

/-!
The tokens of a test expression, and how they are read from text. Every token is read as far as
it reaches; what no token can start with is a fault.
-/

namespace DynamicSql.Expression

inductive Token where
  | path (source : String)
  | number (n : Number)
  | text (s : String)
  | null
  | true
  | false
  | openParen
  | closeParen
  | and
  | or
  | not
  | plus
  | compare (op : Comparison)
  deriving Inhabited

inductive Fault where
  | unclosedString
  | invalidNumber (written : String)
  | unexpectedCharacter (c : Char)
  | unexpectedToken (t : Token)
  | chainedComparison
  | missingParen
  | unexpectedEnd
  | invalidPath (e : PathError)

def Token.shown : Token → String
  | .path source => "`" ++ source ++ "`"
  | .number n => "`" ++ n.text ++ "`"
  | .text s => "'" ++ s ++ "'"
  | .null => "`null`"
  | .true => "`true`"
  | .false => "`false`"
  | .openParen => "`(`"
  | .closeParen => "`)`"
  | .and => "`and`"
  | .or => "`or`"
  | .not => "`not`"
  | .plus => "`+`"
  | .compare op => "`" ++ op.text ++ "`"

def Fault.reason : Fault → String
  | .unclosedString => "unclosed string"
  | .invalidNumber written => "invalid number `" ++ written ++ "`"
  | .unexpectedCharacter c => "unexpected character `" ++ c.toString ++ "`"
  | .unexpectedToken t => "unexpected " ++ t.shown
  | .chainedComparison => "chained comparison"
  | .missingParen => "missing `)`"
  | .unexpectedEnd => "unexpected end of expression"
  | .invalidPath e => e.message

namespace Token

/-- After such a token a minus cannot be the sign of a number. -/
def endsOperand : Token → Bool
  | .path _ | .number _ | .text _ | .null | .true | .false | .closeParen => Bool.true
  | _ => Bool.false

/-- Word operators of comparison and the constants are written in lower case, the connectives in
any case. -/
def ofWord (word : List Char) : Token :=
  match String.ofList word with
  | "null" => .null
  | "true" => .true
  | "false" => .false
  | "eq" => .compare .eq
  | "neq" => .compare .ne
  | "lt" => .compare .lt
  | "lte" => .compare .le
  | "gt" => .compare .gt
  | "gte" => .compare .ge
  | source =>
    match String.ofList (word.map Char.toLower) with
    | "and" => .and
    | "or" => .or
    | "not" => .not
    | _ => .path source

def unescape : Char → Char
  | 'n' => '\n'
  | 't' => '\t'
  | 'r' => '\r'
  | c => c

/-- The content of a string up to its closing quote, and what follows it. -/
def readString? (quote : Char) : List Char → Option (List Char × List Char)
  | [] => none
  | '\\' :: [] => none
  | '\\' :: e :: cs => (readString? quote cs).map fun (s, rest) => (unescape e :: s, rest)
  | c :: cs =>
    if c = quote then some ([], cs)
    else (readString? quote cs).map fun (s, rest) => (c :: s, rest)

/-- Where the reader of a path stands. Points and brackets are checked when the path is parsed;
here only its end is found. -/
inductive PathPlace where
  | outside
  | bracket
  | quoted (quote : Char)

def readPath : PathPlace → List Char → List Char × List Char
  | _, [] => ([], [])
  | .outside, c :: cs =>
    if Path.isNameChar c || c == '.' then
      let (word, rest) := readPath .outside cs
      (c :: word, rest)
    else if c == '[' then
      let (word, rest) := readPath .bracket cs
      (c :: word, rest)
    else ([], c :: cs)
  | .bracket, c :: cs =>
    let next : PathPlace :=
      if c == '\'' || c == '"' then .quoted c
      else if c == ']' then .outside
      else .bracket
    let (word, rest) := readPath next cs
    (c :: word, rest)
  | .quoted quote, c :: cs =>
    let (word, rest) := readPath (if c = quote then .bracket else .quoted quote) cs
    (c :: word, rest)

def isNumberChar (c : Char) : Bool :=
  c.isDigit || c == '.'

def startsNumber (afterOperand : Bool) (c : Char) (cs : List Char) : Bool :=
  c.isDigit || (c == '-' && (cs.head?.any Char.isDigit) && !afterOperand)

def readNumber (c : Char) (cs : List Char) : Except Fault (Token × List Char) :=
  let written := c :: cs.takeWhile isNumberChar
  match Number.ofChars? written with
  | some n => .ok (.number n, cs.dropWhile isNumberChar)
  | none => .error (.invalidNumber (String.ofList written))

/-- A number or a word: what starts with none of the operators and quotes. -/
def readPlain (afterOperand : Bool) (c : Char) (cs : List Char) :
    Except Fault (Token × List Char) :=
  if startsNumber afterOperand c cs then readNumber c cs
  else if Path.isNameChar c then
    let (word, rest) := readPath .outside (c :: cs)
    .ok (ofWord word, rest)
  else .error (.unexpectedCharacter c)

/-- The token that starts with `c`, which is no blank, and what follows it. -/
def read (afterOperand : Bool) (c : Char) (cs : List Char) : Except Fault (Token × List Char) :=
  match c, cs with
  | '(', _ => .ok (.openParen, cs)
  | ')', _ => .ok (.closeParen, cs)
  | '+', _ => .ok (.plus, cs)
  | '&', '&' :: r => .ok (.and, r)
  | '|', '|' :: r => .ok (.or, r)
  | '=', '=' :: r => .ok (.compare .eq, r)
  | '!', '=' :: r => .ok (.compare .ne, r)
  | '!', _ => .ok (.not, cs)
  | '<', '=' :: r => .ok (.compare .le, r)
  | '<', _ => .ok (.compare .lt, cs)
  | '>', '=' :: r => .ok (.compare .ge, r)
  | '>', _ => .ok (.compare .gt, cs)
  | _, _ =>
    if c = '\'' ∨ c = '"' then
      match readString? c cs with
      | some (s, rest) => .ok (.text (String.ofList s), rest)
      | none => .error .unclosedString
    else readPlain afterOperand c cs

theorem readString?_length {quote : Char} {cs s rest : List Char}
    (h : readString? quote cs = some (s, rest)) : rest.length ≤ cs.length := by
  fun_induction readString? quote cs generalizing s rest with
  | case1 | case2 => simp at h
  | case3 e cs ih =>
    obtain ⟨⟨s', r⟩, h', heq⟩ := Option.map_eq_some_iff.1 h
    obtain ⟨_, rfl⟩ := Prod.mk.inj heq
    exact Nat.le_trans (ih h') (Nat.le_add_right _ 2)
  | case4 => simp_all
  | case5 c cs _ _ _ ih =>
    obtain ⟨⟨s', r⟩, h', heq⟩ := Option.map_eq_some_iff.1 h
    obtain ⟨_, rfl⟩ := Prod.mk.inj heq
    exact Nat.le_trans (ih h') (Nat.le_succ _)

theorem readPath_length (place : PathPlace) (cs : List Char) :
    (readPath place cs).2.length ≤ cs.length := by
  fun_induction readPath place cs <;> simp_all <;> omega

/-- A word has at least the character it starts with. -/
theorem readPath_outside_length {c : Char} (h : Path.isNameChar c = Bool.true) (cs : List Char) :
    (readPath .outside (c :: cs)).2.length ≤ cs.length := by
  simp only [readPath, h, Bool.true_or, if_true]
  exact readPath_length .outside cs

theorem readNumber_length {c : Char} {cs rest : List Char} {t : Token}
    (h : readNumber c cs = .ok (t, rest)) : rest.length ≤ cs.length := by
  simp only [readNumber] at h
  split at h <;> simp only [Except.ok.injEq, Prod.mk.injEq, reduceCtorEq] at h
  rw [← h.2]
  exact (List.dropWhile_sublist _).length_le

theorem readPlain_length {a : Bool} {c : Char} {cs rest : List Char} {t : Token}
    (h : readPlain a c cs = .ok (t, rest)) : rest.length ≤ cs.length := by
  simp only [readPlain] at h
  split at h
  · exact readNumber_length h
  · split at h
    · next hc =>
      simp only [Except.ok.injEq, Prod.mk.injEq] at h
      rw [← h.2]
      exact readPath_outside_length hc cs
    · simp at h

theorem read_length {a : Bool} {c : Char} {cs rest : List Char} {t : Token}
    (h : read a c cs = .ok (t, rest)) : rest.length ≤ cs.length := by
  unfold read at h
  split at h
  case h_13 =>
    split at h
    · split at h <;> simp only [Except.ok.injEq, Prod.mk.injEq, reduceCtorEq] at h
      rename_i hs
      rw [← h.2]
      exact readString?_length hs
    · exact readPlain_length h
  all_goals
    simp only [Except.ok.injEq, Prod.mk.injEq] at h
    obtain ⟨_, rfl⟩ := h
    simp

end Token

/-- All tokens of a text; the first fault ends the reading. -/
def tokens (afterOperand : Bool) (cs : List Char) : Except Fault (List Token) :=
  match cs with
  | [] => .ok []
  | c :: r =>
    if Text.isBlankChar c then tokens afterOperand r
    else
      match _ : Token.read afterOperand c r with
      | .ok (t, rest) => (tokens t.endsOperand rest).map (t :: ·)
      | .error f => .error f
termination_by cs.length
decreasing_by
  · simp
  · have := Token.read_length ‹_›
    simp; omega

end DynamicSql.Expression

import DynamicSql.Parameter.Value

/-!
Parameter values written as JSON text. A number without fraction and exponent is an integer
where one of the integer kinds holds it, and a float otherwise. Of two members with one name the
later gives the value and the earlier the place.
-/

namespace DynamicSql.Json

inductive Token where
  | openList
  | closeList
  | openMap
  | closeMap
  | comma
  | colon
  | text (s : String)
  | atom (v : Value)

def isSpace (c : Char) : Bool :=
  c == ' ' || c == '\t' || c == '\n' || c == '\r'

def hexDigit? (c : Char) : Option Nat :=
  if c.isDigit then some (c.toNat - '0'.toNat)
  else if 'a' ≤ c ∧ c ≤ 'f' then some (c.toNat - 'a'.toNat + 10)
  else if 'A' ≤ c ∧ c ≤ 'F' then some (c.toNat - 'A'.toNat + 10)
  else none

def hexUnit? (a b c d : Char) : Option Nat :=
  [a, b, c, d].foldlM (fun n x => (hexDigit? x).map (16 * n + ·)) 0

def shortEscape? : Char → Option Char
  | '"' => some '"'
  | '\\' => some '\\'
  | '/' => some '/'
  | 'b' => some '\x08'
  | 'f' => some '\x0c'
  | 'n' => some '\n'
  | 'r' => some '\r'
  | 't' => some '\t'
  | _ => none

/-- The code units up to the closing quote, and what follows it. -/
def readUnits? : List Char → Option (List Nat × List Char)
  | [] => none
  | '"' :: cs => some ([], cs)
  | '\\' :: 'u' :: a :: b :: c :: d :: cs => do
    let unit ← hexUnit? a b c d
    let (units, rest) ← readUnits? cs
    return (unit :: units, rest)
  | '\\' :: e :: cs => do
    let c ← shortEscape? e
    let (units, rest) ← readUnits? cs
    return (c.toNat :: units, rest)
  | c :: cs =>
    if c.toNat < 0x20 then none
    else (readUnits? cs).map fun (units, rest) => (c.toNat :: units, rest)

/-- A high unit must be followed by a low one; together they are one character. -/
def joinUnits? : List Nat → Option (List Char)
  | [] => some []
  | high :: low :: units =>
    if 0xD800 ≤ high ∧ high < 0xDC00 ∧ 0xDC00 ≤ low ∧ low < 0xE000 then
      (joinUnits? units).map
        (Char.ofNat (0x10000 + (high - 0xD800) * 0x400 + (low - 0xDC00)) :: ·)
    else if 0xD800 ≤ high ∧ high < 0xE000 then none
    else (joinUnits? (low :: units)).map (Char.ofNat high :: ·)
  | [unit] => if 0xD800 ≤ unit ∧ unit < 0xE000 then none else some [Char.ofNat unit]

def isNumberChar (c : Char) : Bool :=
  c.isDigit || c == '-' || c == '+' || c == '.' || c == 'e' || c == 'E'

/-- Leading zeros, a leading plus and a point without digits beside it are refused. -/
def isNumberText (cs : List Char) : Bool :=
  let ds := match cs with
    | '-' :: ds => ds
    | _ => cs
  let whole := ds.takeWhile Char.isDigit
  let fraction := match ds.dropWhile Char.isDigit with
    | '.' :: r => (r.takeWhile Char.isDigit).length
    | _ => 1
  (whole.length == 1 || (whole.length > 1 && whole.head? != some '0')) && fraction != 0

def readNumber? (cs : List Char) : Option Number := do
  guard (isNumberText cs)
  match (Decimal.readInt? cs).bind Number.ofInt? with
  | some n => if cs = ['-', '0'] then (Decimal.readFloat? .double cs).map .float else some n
  | none => (Decimal.readFloat? .double cs).map .float

/-- The token that starts with the given character, and what follows it. -/
def readToken? (c : Char) (cs : List Char) : Option (Token × List Char) :=
  match c with
  | '[' => some (.openList, cs)
  | ']' => some (.closeList, cs)
  | '{' => some (.openMap, cs)
  | '}' => some (.closeMap, cs)
  | ',' => some (.comma, cs)
  | ':' => some (.colon, cs)
  | '"' => do
    let (units, rest) ← readUnits? cs
    let chars ← joinUnits? units
    return (.text (String.ofList chars), rest)
  | _ =>
    if isNumberChar c then do
      let n ← readNumber? (c :: cs.takeWhile isNumberChar)
      return (.atom (.number n), cs.dropWhile isNumberChar)
    else
      let rest := cs.dropWhile Char.isAlpha
      match String.ofList (c :: cs.takeWhile Char.isAlpha) with
      | "null" => some (.atom .null, rest)
      | "true" => some (.atom (.bool true), rest)
      | "false" => some (.atom (.bool false), rest)
      | _ => none

theorem readUnits?_length {cs rest : List Char} {units : List Nat}
    (h : readUnits? cs = some (units, rest)) : rest.length ≤ cs.length := by
  fun_induction readUnits? cs generalizing units rest with
  | case1 => simp at h
  | case2 cs =>
    simp only [Option.some.injEq, Prod.mk.injEq] at h
    exact h.2 ▸ Nat.le_succ _
  | case3 a b c d cs ih =>
    obtain ⟨unit, _, h⟩ := Option.bind_eq_some_iff.1 h
    obtain ⟨⟨us, r⟩, hr, h⟩ := Option.bind_eq_some_iff.1 h
    obtain ⟨_, rfl⟩ := Prod.mk.inj (Option.some.inj h)
    exact Nat.le_trans (ih hr) (Nat.le_add_right _ 6)
  | case4 e cs _ ih =>
    obtain ⟨c, _, h⟩ := Option.bind_eq_some_iff.1 h
    obtain ⟨⟨us, r⟩, hr, h⟩ := Option.bind_eq_some_iff.1 h
    obtain ⟨_, rfl⟩ := Prod.mk.inj (Option.some.inj h)
    exact Nat.le_trans (ih hr) (Nat.le_add_right _ 2)
  | case5 => simp at h
  | case6 c cs _ _ _ _ ih =>
    obtain ⟨⟨us, r⟩, hr, h⟩ := Option.map_eq_some_iff.1 h
    obtain ⟨_, rfl⟩ := Prod.mk.inj h
    exact Nat.le_trans (ih hr) (Nat.le_succ _)

theorem readToken?_length {c : Char} {cs rest : List Char} {t : Token}
    (h : readToken? c cs = some (t, rest)) : rest.length ≤ cs.length := by
  have hdrop (p : Char → Bool) : (cs.dropWhile p).length ≤ cs.length :=
    (List.dropWhile_sublist p).length_le
  unfold readToken? at h
  split at h
  case h_7 =>
    obtain ⟨⟨units, r⟩, hr, h⟩ := Option.bind_eq_some_iff.1 h
    obtain ⟨chars, _, h⟩ := Option.bind_eq_some_iff.1 h
    obtain ⟨_, rfl⟩ := Prod.mk.inj (Option.some.inj h)
    exact readUnits?_length hr
  case h_8 =>
    split at h
    · obtain ⟨n, _, h⟩ := Option.bind_eq_some_iff.1 h
      obtain ⟨_, rfl⟩ := Prod.mk.inj (Option.some.inj h)
      exact hdrop _
    · simp only at h
      split at h <;> simp only [Option.some.injEq, Prod.mk.injEq, reduceCtorEq] at h
      all_goals exact h.2 ▸ hdrop _
  all_goals
    simp only [Option.some.injEq, Prod.mk.injEq] at h
    exact h.2 ▸ Nat.le_refl _

def tokens? (cs : List Char) : Option (List Token) :=
  match cs with
  | [] => some []
  | c :: r =>
    if isSpace c then tokens? r
    else
      match _ : readToken? c r with
      | some (t, rest) => (tokens? rest).map (t :: ·)
      | none => none
termination_by cs.length
decreasing_by
  · exact Nat.lt_succ_self _
  · exact Nat.lt_succ_of_le (readToken?_length ‹_›)

/-- A list or map around the place where the reader stands, with what it holds so far. The items
of a list are in reverse. -/
inductive Frame where
  | list (done : List Value)
  | map (done : Entries Value) (key : String)

/-- What may come next. -/
inductive State where
  | value (around : List Frame)
  | firstItem (around : List Frame)
  | firstKey (around : List Frame)
  | key (done : Entries Value) (around : List Frame)
  | colon (done : Entries Value) (key : String) (around : List Frame)
  | after (v : Value) (around : List Frame)

def startValue (around : List Frame) : Token → Option State
  | .openList => some (.firstItem around)
  | .openMap => some (.firstKey around)
  | .text s => some (.after (.text s) around)
  | .atom v => some (.after v around)
  | _ => none

def State.step : State → Token → Option State
  | .value around, t => startValue around t
  | .firstItem around, .closeList => some (.after (.list []) around)
  | .firstItem around, t => startValue (.list [] :: around) t
  | .firstKey around, .closeMap => some (.after (.map []) around)
  | .firstKey around, .text k => some (.colon [] k around)
  | .key done around, .text k => some (.colon done k around)
  | .colon done k around, .colon => some (.value (.map done k :: around))
  | .after v (.list done :: around), .comma => some (.value (.list (v :: done) :: around))
  | .after v (.list done :: around), .closeList => some (.after (.list (v :: done).reverse) around)
  | .after v (.map done k :: around), .comma => some (.key (done.insert k v) around)
  | .after v (.map done k :: around), .closeMap => some (.after (.map (done.insert k v)) around)
  | _, _ => none

def read? (s : String) : Option Value := do
  let ts ← tokens? s.toList
  match ← ts.foldlM State.step (.value []) with
  | .after v [] => some v
  | _ => none

end DynamicSql.Json

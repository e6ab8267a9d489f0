import DynamicSql.Markup.Text

/-!
The tokens of an XML document. Every token keeps the characters it was read from, so that the
source of a document is the sources of its tokens, one after the other.
-/

namespace DynamicSql.Markup

structure Attribute where
  name : Name
  value : String
  deriving DecidableEq, Repr

inductive Token where
  | startTag (name : Name) (attributes : List Attribute) (isEmpty : Bool)
  | endTag (name : Name)
  | text (value : String)
  | cdata (value : String)
  | comment
  | instruction
  deriving DecidableEq, Repr

/-- A token, its source, and the line on which it starts. -/
structure Lexeme where
  token : Token
  source : List Char
  line : Nat
  deriving DecidableEq

/-- The characters before the first occurrence of `stop`, and those after it. -/
def readUntil? (stop : List Char) : List Char → Option (List Char × List Char)
  | [] => none
  | c :: cs =>
    if stop.isPrefixOf (c :: cs) then some ([], (c :: cs).drop stop.length)
    else if isXmlChar c then
      (readUntil? stop cs).map fun (body, rest) => (c :: body, rest)
    else none

theorem readUntil?_length {stop cs body rest : List Char}
    (h : readUntil? stop cs = some (body, rest)) : rest.length ≤ cs.length := by
  fun_induction readUntil? stop cs generalizing body rest with
  | case1 => simp at h
  | case2 c cs =>
    obtain ⟨_, rfl⟩ := Prod.mk.inj (Option.some.inj h)
    exact (List.drop_sublist _ _).length_le
  | case3 c cs _ _ ih =>
    obtain ⟨⟨b, r⟩, hr, h⟩ := Option.map_eq_some_iff.1 h
    obtain ⟨_, rfl⟩ := Prod.mk.inj h
    exact Nat.le_trans (ih hr) (Nat.le_succ _)
  | case4 => simp at h

def holds (word : List Char) : List Char → Bool
  | [] => word.isEmpty
  | c :: cs => word.isPrefixOf (c :: cs) || holds word cs

/-- Two hyphens end a comment, so they cannot stand in it. -/
def readComment? (cs : List Char) : Option (Token × List Char) := do
  let (body, rest) ← readUntil? ['-', '-', '>'] cs
  if holds ['-', '-'] (body ++ ['-']) then none else return (.comment, rest)

def readCdata? (cs : List Char) : Option (Token × List Char) := do
  let (body, rest) ← readUntil? [']', ']', '>'] cs
  return (.cdata (String.ofList (textValue false (body.map .plain))), rest)

/-- The declaration of a document is no instruction. -/
def readInstruction? (cs : List Char) : Option (Token × List Char) := do
  if ['x', 'm', 'l', ' '].isPrefixOf cs then none
  else
    let rest ← skipName? cs
    let (_, rest) ← readUntil? ['?', '>'] (rest.dropWhile isSpace)
    return (.instruction, rest)

def readEndTag? (cs : List Char) : Option (Token × List Char) := do
  let (name, rest) ← readName? cs
  match rest.dropWhile isSpace with
  | '>' :: rest => return (.endTag name, rest)
  | _ => none

/-- The characters between quotes; an opening angle bracket is not allowed there. -/
def readQuoted? : List Char → Option (List Char × List Char)
  | [] => none
  | quote :: cs =>
    if quote == '"' || quote == '\'' then
      let body := cs.takeWhile fun c => c != quote && c != '<' && isXmlChar c
      match cs.drop body.length with
      | c :: rest => if c = quote then some (body, rest) else none
      | [] => none
    else none

/-- A name, an equals sign and a quoted text. -/
def readPair? (cs : List Char) : Option ((Name × List Char) × List Char) := do
  let (name, rest) ← readName? cs
  match rest.dropWhile isSpace with
  | '=' :: rest =>
    let (body, rest) ← readQuoted? (rest.dropWhile isSpace)
    return ((name, body), rest)
  | _ => none

theorem readQuoted?_length {cs body rest : List Char}
    (h : readQuoted? cs = some (body, rest)) : rest.length ≤ cs.length := by
  unfold readQuoted? at h
  split at h
  · simp at h
  · next quote cs =>
    split at h
    · simp only at h
      split at h
      · next c r hd =>
        have hr := congrArg List.length hd
        split at h <;> simp only [Option.some.injEq, Prod.mk.injEq, reduceCtorEq] at h
        obtain ⟨_, rfl⟩ := h
        simp only [List.length_drop, List.length_cons] at *
        omega
      · simp at h
    · simp at h

theorem readName?_length {cs rest : List Char} {name : Name}
    (h : readName? cs = some (name, rest)) : rest.length ≤ cs.length := by
  obtain ⟨n, _, h⟩ := Option.map_eq_some_iff.1 h
  obtain ⟨_, rfl⟩ := Prod.mk.inj h
  exact (List.dropWhile_sublist _).length_le

theorem readPair?_length {cs rest : List Char} {p : Name × List Char}
    (h : readPair? cs = some (p, rest)) : rest.length < cs.length := by
  obtain ⟨⟨name, r⟩, hn, h⟩ := Option.bind_eq_some_iff.1 h
  have hl := readName?_length hn
  have hd := (List.dropWhile_sublist isSpace (l := r)).length_le
  simp only at h
  split at h
  · next r' heq =>
    obtain ⟨⟨body, r''⟩, hq, h⟩ := Option.bind_eq_some_iff.1 h
    obtain ⟨_, rfl⟩ := Prod.mk.inj (Option.some.inj h)
    have hs := (List.dropWhile_sublist isSpace (l := r')).length_le
    have hb := readQuoted?_length hq
    simp only [heq, List.length_cons] at hd ⊢
    omega
  · simp at h

def readAttribute? (cs : List Char) : Option (Attribute × List Char) := do
  let ((name, body), rest) ← readPair? cs
  let ws ← written? body
  return (⟨name, String.ofList (attributeValue ws)⟩, rest)

theorem readAttribute?_length {cs rest : List Char} {a : Attribute}
    (h : readAttribute? cs = some (a, rest)) : rest.length < cs.length := by
  obtain ⟨⟨p, r⟩, hp, h⟩ := Option.bind_eq_some_iff.1 h
  obtain ⟨ws, _, h⟩ := Option.bind_eq_some_iff.1 h
  obtain ⟨_, rfl⟩ := Prod.mk.inj (Option.some.inj h)
  exact readPair?_length hp

/-- The rest of a start tag behind its name. Every attribute has a space before it. -/
def readTagEnd? (cs : List Char) : Option ((List Attribute × Bool) × List Char) :=
  match cs.dropWhile isSpace with
  | '>' :: rest => some (([], false), rest)
  | '/' :: '>' :: rest => some (([], true), rest)
  | _ =>
    if cs.head?.any isSpace then
      match _ : readAttribute? (cs.dropWhile isSpace) with
      | some (a, rest) =>
        (readTagEnd? rest).map fun ((as, isEmpty), rest) => ((a :: as, isEmpty), rest)
      | none => none
    else none
termination_by cs.length
decreasing_by
  exact Nat.lt_of_lt_of_le (readAttribute?_length ‹_›) (List.dropWhile_sublist _).length_le

theorem readTagEnd?_length {cs rest : List Char} {p : List Attribute × Bool}
    (h : readTagEnd? cs = some (p, rest)) : rest.length ≤ cs.length := by
  have hs := (List.dropWhile_sublist isSpace (l := cs)).length_le
  fun_induction readTagEnd? cs generalizing p rest with
  | case1 cs r heq | case2 cs r heq =>
    obtain ⟨_, rfl⟩ := Prod.mk.inj (Option.some.inj h)
    simp only [heq, List.length_cons] at hs
    omega
  | case3 cs _ _ r ha _ _ ih =>
    obtain ⟨⟨q, r'⟩, hr, h⟩ := Option.map_eq_some_iff.1 h
    obtain ⟨_, rfl⟩ := Prod.mk.inj h
    have hl := readAttribute?_length ha
    have hi := ih hr (List.dropWhile_sublist _).length_le
    omega
  | case4 | case5 => simp at h

def readStartTag? (cs : List Char) : Option (Token × List Char) := do
  let (name, rest) ← readName? cs
  let ((attributes, isEmpty), rest) ← readTagEnd? rest
  return (.startTag name attributes isEmpty, rest)

def readText? (cs : List Char) : Option (Token × List Char) := do
  let body := cs.takeWhile (· != '<')
  if !body.all isXmlChar || holds [']', ']', '>'] body then none
  else
    let ws ← written? body
    return (.text (String.ofList (textValue false ws)), cs.dropWhile (· != '<'))

def readToken? : List Char → Option (Token × List Char)
  | '<' :: '!' :: '-' :: '-' :: cs => readComment? cs
  | '<' :: '!' :: '[' :: 'C' :: 'D' :: 'A' :: 'T' :: 'A' :: '[' :: cs => readCdata? cs
  | '<' :: '?' :: cs => readInstruction? cs
  | '<' :: '/' :: cs => readEndTag? cs
  | '<' :: cs => readStartTag? cs
  | cs => readText? cs

theorem readComment?_length {cs rest : List Char} {t : Token}
    (h : readComment? cs = some (t, rest)) : rest.length ≤ cs.length := by
  obtain ⟨⟨body, r⟩, hr, h⟩ := Option.bind_eq_some_iff.1 h
  simp only at h
  split at h <;> simp only [Option.pure_def, Option.some.injEq, Prod.mk.injEq, reduceCtorEq] at h
  exact h.2 ▸ readUntil?_length hr

theorem readCdata?_length {cs rest : List Char} {t : Token}
    (h : readCdata? cs = some (t, rest)) : rest.length ≤ cs.length := by
  obtain ⟨⟨body, r⟩, hr, h⟩ := Option.bind_eq_some_iff.1 h
  obtain ⟨_, rfl⟩ := Prod.mk.inj (Option.some.inj h)
  exact readUntil?_length hr

theorem skipName?_length {cs rest : List Char} (h : skipName? cs = some rest) :
    rest.length ≤ cs.length := by
  unfold skipName? at h
  split at h
  · simp at h
  · split at h <;> simp only [Option.some.injEq, reduceCtorEq] at h
    exact h ▸ Nat.le_succ_of_le (List.dropWhile_sublist _).length_le

theorem readInstruction?_length {cs rest : List Char} {t : Token}
    (h : readInstruction? cs = some (t, rest)) : rest.length ≤ cs.length := by
  unfold readInstruction? at h
  split at h
  · simp at h
  · obtain ⟨r, hn, h⟩ := Option.bind_eq_some_iff.1 h
    obtain ⟨⟨body, r'⟩, hr, h⟩ := Option.bind_eq_some_iff.1 h
    obtain ⟨_, rfl⟩ := Prod.mk.inj (Option.some.inj h)
    exact Nat.le_trans (readUntil?_length hr)
      (Nat.le_trans (List.dropWhile_sublist _).length_le (skipName?_length hn))

theorem readEndTag?_length {cs rest : List Char} {t : Token}
    (h : readEndTag? cs = some (t, rest)) : rest.length ≤ cs.length := by
  obtain ⟨⟨name, r⟩, hn, h⟩ := Option.bind_eq_some_iff.1 h
  have hl := readName?_length hn
  have hd := (List.dropWhile_sublist isSpace (l := r)).length_le
  simp only at h
  split at h
  · next r' heq =>
    obtain ⟨_, rfl⟩ := Prod.mk.inj (Option.some.inj h)
    simp only [heq, List.length_cons] at hd ⊢
    omega
  · simp at h

theorem readStartTag?_length {cs rest : List Char} {t : Token}
    (h : readStartTag? cs = some (t, rest)) : rest.length ≤ cs.length := by
  obtain ⟨⟨name, r⟩, hn, h⟩ := Option.bind_eq_some_iff.1 h
  obtain ⟨⟨p, r'⟩, hr, h⟩ := Option.bind_eq_some_iff.1 h
  obtain ⟨_, rfl⟩ := Prod.mk.inj (Option.some.inj h)
  exact Nat.le_trans (readTagEnd?_length hr) (readName?_length hn)

theorem readText?_length {c : Char} {cs rest : List Char} {t : Token} (hc : c ≠ '<')
    (h : readText? (c :: cs) = some (t, rest)) : rest.length ≤ cs.length := by
  unfold readText? at h
  simp only at h
  split at h
  · simp at h
  · obtain ⟨ws, _, h⟩ := Option.bind_eq_some_iff.1 h
    obtain ⟨_, rfl⟩ := Prod.mk.inj (Option.some.inj h)
    have hd : (c :: cs).dropWhile (· != '<') = cs.dropWhile (· != '<') := by
      simp [hc]
    simp only [hd]
    exact (List.dropWhile_sublist _).length_le

theorem readToken?_length {c : Char} {cs rest : List Char} {t : Token}
    (h : readToken? (c :: cs) = some (t, rest)) : rest.length ≤ cs.length := by
  unfold readToken? at h
  split at h
  case h_6 hc =>
    exact readText?_length (fun e => hc cs (by rw [e])) h
  all_goals
    rename_i heq
    obtain ⟨_, rfl⟩ := List.cons.inj heq
  · exact Nat.le_trans (readComment?_length h) (Nat.le_add_right _ 3)
  · exact Nat.le_trans (readCdata?_length h) (Nat.le_add_right _ 8)
  · exact Nat.le_succ_of_le (readInstruction?_length h)
  · exact Nat.le_succ_of_le (readEndTag?_length h)
  · exact readStartTag?_length h

/-- Reads tokens up to the end; the first one starts on the given line. -/
def lexemes? (line : Nat) (cs : List Char) : Option (List Lexeme) :=
  match cs with
  | [] => some []
  | c :: r =>
    match _ : readToken? (c :: r) with
    | some (t, rest) =>
      let source := (c :: r).take ((c :: r).length - rest.length)
      (lexemes? (line + source.count '\n') rest).map (⟨t, source, line⟩ :: ·)
    | none => none
termination_by cs.length
decreasing_by exact Nat.lt_succ_of_le (readToken?_length ‹_›)

end DynamicSql.Markup

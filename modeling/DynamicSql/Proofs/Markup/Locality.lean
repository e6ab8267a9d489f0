import DynamicSql.Markup.Token
import DynamicSql.Proofs.Text.Blank
import Mathlib.Data.List.Infix

/-!
What the readers of markup look at. A tag, a comment, an instruction or a literal stretch of text is
read from its own characters, whatever stands behind it; plain text ends before the next angle
bracket. So a token is read alike from the same characters in front of another rest
(`readToken?_append`).
-/

namespace DynamicSql.Markup

/-- A reader of what a text starts with. -/
abbrev Reader (α : Type) := List Char → Option (α × List Char)

variable {α β : Type}

/-- A reader that looks at what it consumes, and at most at one character behind that. -/
def IsLocal (read : Reader α) : Prop :=
  ∀ ⦃cs a rest⦄, read cs = some (a, rest) →
    ∃ front, cs = front ++ rest ∧
      ∀ rest', rest'.head? = rest.head? → read (front ++ rest') = some (a, rest')

/-- A reader that looks at nothing but what it consumes. -/
def IsExact (read : Reader α) : Prop :=
  ∀ ⦃cs a rest⦄, read cs = some (a, rest) →
    ∃ front, cs = front ++ rest ∧ ∀ rest', read (front ++ rest') = some (a, rest')

/-- A reader that consumes something, and looks at nothing else. -/
def IsClosed (read : Reader α) : Prop :=
  ∀ ⦃cs a rest⦄, read cs = some (a, rest) →
    ∃ front, front ≠ [] ∧ cs = front ++ rest ∧ ∀ rest', read (front ++ rest') = some (a, rest')

theorem IsClosed.isExact {read : Reader α} (h : IsClosed read) : IsExact read := by
  intro cs a rest hread
  obtain ⟨front, _, hcs, hfront⟩ := h hread
  exact ⟨front, hcs, hfront⟩

theorem isExact_some (a : α) : IsExact fun cs => some (a, cs) := by
  rintro cs _ _ ⟨⟩
  exact ⟨[], rfl, fun _ => rfl⟩

theorem isLocal_span (p : Char → Bool) :
    IsLocal fun cs => some (cs.takeWhile p, cs.dropWhile p) := by
  rintro cs _ _ ⟨⟩
  refine ⟨cs.takeWhile p, List.takeWhile_append_dropWhile.symm, ?_⟩
  intro rest' hrest'
  have hstop : ∀ c ∈ rest'.head?, p c = false := by
    intro c hc
    have h := List.head?_dropWhile_not p cs
    rw [← hrest', hc] at h
    simpa using h
  have hspan := span_append (fun c (hc : c ∈ cs.takeWhile p) => List.mem_takeWhile_imp hc) hstop
  dsimp only
  rw [hspan.1, hspan.2]

/-- The run at the start of a text does not change with what stands behind the next character. -/
theorem exists_span {p : Char → Bool} {cs r : List Char} {c : Char}
    (h : cs.dropWhile p = c :: r) :
    ∃ run, cs = run ++ c :: r ∧ ∀ r', (run ++ c :: r').dropWhile p = c :: r' := by
  have hcs := List.takeWhile_append_dropWhile (p := p) (l := cs)
  rw [h] at hcs
  refine ⟨cs.takeWhile p, hcs.symm, ?_⟩
  intro r'
  have hc : p c = false := by
    have hhead := List.head?_dropWhile_not p cs
    rw [h] at hhead
    simpa using hhead
  apply (span_append (List.all_eq_true.1 List.all_takeWhile) _).2
  rintro d ⟨⟩
  exact hc

/-- What a closed reader consumes shields the reader before it from the rest. -/
theorem IsLocal.bind {read : Reader α} {next : α → Reader β} (h : IsLocal read)
    (hnext : ∀ a, IsClosed (next a)) : IsClosed fun cs => (read cs).bind fun p => next p.1 p.2 := by
  intro cs b rest hread
  obtain ⟨⟨a, r⟩, ha, hb⟩ := Option.bind_eq_some_iff.1 hread
  obtain ⟨front, rfl, hfront⟩ := h ha
  obtain ⟨middle, hne, rfl, hmiddle⟩ := hnext a hb
  refine ⟨front ++ middle, ?_, (List.append_assoc front middle rest).symm, ?_⟩
  · exact fun hnil => hne (List.append_eq_nil_iff.1 hnil).2
  · intro rest'
    have hhead : (middle ++ rest').head? = (middle ++ rest).head? := by
      cases middle with
      | nil => contradiction
      | cons c middle => rfl
    dsimp only
    rw [List.append_assoc, hfront _ hhead]
    exact hmiddle rest'

/-- The value of a reader, checked and changed. -/
def checked (f : α → Option β) (read : Reader α) : Reader β :=
  fun cs => (read cs).bind fun p => (f p.1).map fun b => (b, p.2)

theorem checked_eq_some {f : α → Option β} {read : Reader α} {cs rest : List Char} {b : β} :
    checked f read cs = some (b, rest) ↔ ∃ a, read cs = some (a, rest) ∧ f a = some b := by
  unfold checked
  rw [Option.bind_eq_some_iff]
  constructor
  · rintro ⟨⟨a, r⟩, ha, h⟩
    obtain ⟨b', hb', heq⟩ := Option.map_eq_some_iff.1 h
    cases heq
    exact ⟨a, ha, hb'⟩
  · rintro ⟨a, ha, hb⟩
    exact ⟨(a, rest), ha, Option.map_eq_some_iff.2 ⟨b, hb, rfl⟩⟩

theorem IsLocal.checked {read : Reader α} (h : IsLocal read) (f : α → Option β) :
    IsLocal (checked f read) := by
  intro cs b rest hread
  obtain ⟨a, ha, hb⟩ := checked_eq_some.1 hread
  obtain ⟨front, hcs, hfront⟩ := h ha
  exact ⟨front, hcs, fun rest' hrest' => checked_eq_some.2 ⟨a, hfront rest' hrest', hb⟩⟩

theorem IsClosed.checked {read : Reader α} (h : IsClosed read) (f : α → Option β) :
    IsClosed (checked f read) := by
  intro cs b rest hread
  obtain ⟨a, ha, hb⟩ := checked_eq_some.1 hread
  obtain ⟨front, hne, hcs, hfront⟩ := h ha
  exact ⟨front, hne, hcs, fun rest' => checked_eq_some.2 ⟨a, hfront rest', hb⟩⟩

/-- Reads behind a character that has to be there. -/
def afterChar (c : Char) (read : Reader α) : Reader α
  | [] => none
  | d :: cs => if d = c then read cs else none

theorem afterChar_self (c : Char) (read : Reader α) (cs : List Char) :
    afterChar c read (c :: cs) = read cs :=
  if_pos rfl

theorem afterChar_of_ne {c : Char} {cs : List Char} (h : ∀ rest, cs ≠ c :: rest)
    (read : Reader α) : afterChar c read cs = none := by
  cases cs with
  | nil => rfl
  | cons d cs => exact if_neg fun hd => h cs (by rw [hd])

theorem IsExact.afterChar {read : Reader α} (h : IsExact read) (c : Char) :
    IsClosed (afterChar c read) := by
  intro cs a rest hread
  cases cs with
  | nil => cases hread
  | cons d cs =>
    rw [Markup.afterChar] at hread
    split at hread
    · next hd =>
      obtain ⟨front, rfl, hfront⟩ := h hread
      refine ⟨d :: front, List.cons_ne_nil d front, rfl, ?_⟩
      intro rest'
      rw [List.cons_append, Markup.afterChar, if_pos hd, hfront rest']
    · cases hread

/-- Spaces in front of what a closed reader consumes. -/
theorem IsClosed.spaced {read : Reader α} (h : IsClosed read) :
    IsClosed fun cs => read (cs.dropWhile isSpace) :=
  (isLocal_span isSpace).bind fun _ => h

/-! Names, attributes and tags -/

theorem isLocal_readName? : IsLocal readName? := by
  have heq : readName? = checked Name.ofRun? fun cs =>
      some (cs.takeWhile isRunChar, cs.dropWhile isRunChar) := rfl
  rw [heq]
  exact (isLocal_span isRunChar).checked _

theorem isClosed_readQuoted? : IsClosed readQuoted? := by
  intro cs body rest hread
  unfold readQuoted? at hread
  split at hread
  · cases hread
  · next quote cs =>
    split at hread
    · next hquote =>
      dsimp only at hread
      have hcs := List.prefix_iff_eq_append.1
        (List.takeWhile_prefix (l := cs) fun c => c != quote && c != '<' && isXmlChar c)
      have hbody := List.all_eq_true.1
        (List.all_takeWhile (p := fun c => c != quote && c != '<' && isXmlChar c) (l := cs))
      split at hread
      · next c r hdrop =>
        split at hread
        · next hc =>
          cases hread
          rw [hdrop, hc] at hcs
          generalize cs.takeWhile (fun c => c != quote && c != '<' && isXmlChar c) = body
            at hcs hbody ⊢
          refine ⟨quote :: (body ++ [quote]), List.cons_ne_nil _ _, by simp [← hcs], ?_⟩
          intro rest'
          have hspan : _ ∧ List.dropWhile _ (body ++ quote :: rest') = quote :: rest' :=
            span_append hbody (by simp)
          have htext : quote :: (body ++ [quote]) ++ rest' = quote :: (body ++ quote :: rest') := by
            simp
          rw [htext, readQuoted?, if_pos hquote]
          dsimp only
          rw [hspan.1, List.drop_left]
          exact if_pos rfl
        · cases hread
      · cases hread
    · cases hread

theorem isClosed_readPair? : IsClosed readPair? := by
  have hvalue (name : Name) : IsClosed fun cs => afterChar '='
      (checked (fun body => some (name, body)) fun cs => readQuoted? (cs.dropWhile isSpace))
      (cs.dropWhile isSpace) :=
    ((isClosed_readQuoted?.spaced.checked _).isExact.afterChar '=').spaced
  have heq : readPair? = fun cs => (readName? cs).bind fun p => afterChar '='
      (checked (fun body => some (p.1, body)) fun cs => readQuoted? (cs.dropWhile isSpace))
      (p.2.dropWhile isSpace) := by
    funext cs
    unfold readPair?
    congr
    funext p
    dsimp only
    split
    · next h =>
      rw [h, afterChar_self]
      rfl
    · next h => exact (afterChar_of_ne h _).symm
  rw [heq]
  exact isLocal_readName?.bind hvalue

theorem isClosed_readAttribute? : IsClosed readAttribute? := by
  have heq : readAttribute? = checked (fun p => (written? p.2).map fun ws =>
      (⟨p.1, String.ofList (attributeValue ws)⟩ : Attribute)) readPair? := by
    funext cs
    unfold readAttribute? checked
    congr
    funext p
    dsimp only
    cases written? p.1.2 <;> rfl
  rw [heq]
  exact isClosed_readPair?.checked _

theorem head?_of_readName? {cs rest : List Char} {name : Name}
    (h : readName? cs = some (name, rest)) : ∃ c, cs.head? = some c ∧ isRunChar c = true := by
  cases cs with
  | nil => cases h
  | cons c cs =>
    refine ⟨c, rfl, ?_⟩
    cases hc : isRunChar c with
    | true => rfl
    | false =>
      rw [readName?, List.takeWhile_cons_of_neg (by simp [hc])] at h
      cases h

theorem head?_of_readAttribute? {cs rest : List Char} {a : Attribute}
    (h : readAttribute? cs = some (a, rest)) : ∃ c, cs.head? = some c ∧ isRunChar c = true := by
  obtain ⟨⟨⟨name, body⟩, r⟩, hp, _⟩ := Option.bind_eq_some_iff.1 h
  obtain ⟨⟨name', r'⟩, hn, _⟩ := Option.bind_eq_some_iff.1 hp
  exact head?_of_readName? hn

theorem readTagEnd?_of_attribute {cs rest : List Char} {a : Attribute}
    (hspace : cs.head?.any isSpace = true)
    (ha : readAttribute? (cs.dropWhile isSpace) = some (a, rest)) :
    readTagEnd? cs =
      (readTagEnd? rest).map fun ((as, isEmpty), rest) => ((a :: as, isEmpty), rest) := by
  obtain ⟨c, hc, hrun⟩ := head?_of_readAttribute? ha
  rw [readTagEnd?]
  split
  · next heq =>
    rw [heq] at hc
    cases hc
    contradiction
  · next heq =>
    rw [heq] at hc
    cases hc
    contradiction
  · rw [if_pos hspace]
    split
    · next ha' =>
      rw [ha] at ha'
      cases ha'
      rfl
    · next hnone =>
      rw [ha] at hnone
      cases hnone

theorem isClosed_readTagEnd? : IsClosed readTagEnd? := by
  intro cs p rest h
  fun_induction readTagEnd? cs generalizing p rest with
  | case1 cs r heq =>
    cases h
    obtain ⟨spaces, rfl, hspaces⟩ := exists_span heq
    refine ⟨spaces ++ ['>'], by simp, by simp, ?_⟩
    intro rest'
    rw [← List.append_cons, readTagEnd?, hspaces]
    rfl
  | case2 cs r heq =>
    cases h
    obtain ⟨spaces, rfl, hspaces⟩ := exists_span heq
    refine ⟨spaces ++ ['/', '>'], by simp, by simp, ?_⟩
    intro rest'
    have htext : spaces ++ ['/', '>'] ++ rest' = spaces ++ '/' :: '>' :: rest' := by simp
    rw [htext, readTagEnd?, hspaces]
    rfl
  | case3 cs hspace a r ha _ _ ih =>
    obtain ⟨⟨⟨as, isEmpty⟩, r'⟩, hr, hp⟩ := Option.map_eq_some_iff.1 h
    cases hp
    obtain ⟨front, hne, hd, hfront⟩ := isClosed_readAttribute? ha
    obtain ⟨middle, _, rfl, hmiddle⟩ := ih hr
    cases front with
    | nil => contradiction
    | cons c front =>
      rw [List.cons_append] at hd
      obtain ⟨spaces, rfl, hspaces⟩ := exists_span hd
      refine ⟨spaces ++ c :: (front ++ middle), by simp, by simp, ?_⟩
      intro rest'
      have htext : spaces ++ c :: (front ++ middle) ++ rest' =
          spaces ++ c :: (front ++ (middle ++ rest')) := by
        simp
      have hattribute := hfront (middle ++ rest')
      rw [List.cons_append, ← hspaces] at hattribute
      have hhead : (spaces ++ c :: (front ++ (middle ++ rest'))).head?.any isSpace = true := by
        cases spaces <;> exact hspace
      rw [htext, readTagEnd?_of_attribute hhead hattribute, hmiddle rest']
      rfl
  | case4 | case5 => cases h

theorem isClosed_readStartTag? : IsClosed readStartTag? := by
  have hend (name : Name) : IsClosed
      (checked (fun p => some (Token.startTag name p.1 p.2)) readTagEnd?) :=
    isClosed_readTagEnd?.checked _
  exact isLocal_readName?.bind hend

theorem isClosed_readEndTag? : IsClosed readEndTag? := by
  have hend (name : Name) : IsClosed fun cs =>
      afterChar '>' (fun cs => some (Token.endTag name, cs)) (cs.dropWhile isSpace) :=
    ((isExact_some _).afterChar '>').spaced
  have heq : readEndTag? = fun cs => (readName? cs).bind fun p =>
      afterChar '>' (fun cs => some (Token.endTag p.1, cs)) (p.2.dropWhile isSpace) := by
    funext cs
    unfold readEndTag?
    congr
    funext p
    dsimp only
    split
    · next h =>
      rw [h, afterChar_self]
      rfl
    · next h => exact (afterChar_of_ne h _).symm
  rw [heq]
  exact isLocal_readName?.bind hend

/-! Comments, instructions and literal stretches -/

/-- The stop is consumed with what stands before it, and not found earlier in front of another
rest. -/
theorem readUntil?_append {stop cs body rest : List Char} (hstop : stop ≠ [])
    (h : readUntil? stop cs = some (body, rest)) :
    cs = body ++ stop ++ rest ∧
      ∀ rest', readUntil? stop (body ++ stop ++ rest') = some (body, rest') := by
  fun_induction readUntil? stop cs generalizing body rest with
  | case1 => cases h
  | case2 c cs hprefix =>
    cases h
    obtain ⟨r, hr⟩ := List.isPrefixOf_iff_prefix.1 hprefix
    refine ⟨by simp [← hr], ?_⟩
    intro rest'
    cases stop with
    | nil => contradiction
    | cons d stop =>
      have hfound : (d :: stop).isPrefixOf (d :: (stop ++ rest')) = true :=
        List.isPrefixOf_iff_prefix.2 (List.prefix_append (d :: stop) rest')
      have hdrop : (d :: (stop ++ rest')).drop (d :: stop).length = rest' :=
        List.drop_left
      rw [List.nil_append, List.cons_append, readUntil?, if_pos hfound, hdrop]
  | case3 c cs hprefix hc ih =>
    obtain ⟨⟨body', r⟩, hr, hp⟩ := Option.map_eq_some_iff.1 h
    cases hp
    obtain ⟨rfl, hagain⟩ := ih hr
    refine ⟨rfl, ?_⟩
    intro rest'
    -- The stop would have to be found within what is consumed, which is there in both texts.
    have hother : stop.isPrefixOf (c :: (body' ++ stop ++ rest')) = false := by
      rw [Bool.eq_false_iff]
      intro hfound
      have hlength : stop.length ≤ (c :: (body' ++ stop)).length := by
        simp only [List.length_cons, List.length_append]
        omega
      have hconsumed : stop <+: c :: (body' ++ stop) :=
        List.prefix_of_prefix_length_le (List.isPrefixOf_iff_prefix.1 hfound)
          (List.prefix_append (c :: (body' ++ stop)) rest') hlength
      exact hprefix (List.isPrefixOf_iff_prefix.2
        (hconsumed.trans (List.prefix_append (c :: (body' ++ stop)) rest)))
    have htext : c :: body' ++ stop ++ rest' = c :: (body' ++ stop ++ rest') := rfl
    rw [htext, readUntil?, if_neg (Bool.eq_false_iff.1 hother), if_pos hc, hagain rest']
    rfl
  | case4 => cases h

theorem isClosed_readUntil? {stop : List Char} (hstop : stop ≠ []) :
    IsClosed (readUntil? stop) := by
  intro cs body rest h
  obtain ⟨hcs, hagain⟩ := readUntil?_append hstop h
  exact ⟨body ++ stop, by simp [hstop], hcs, hagain⟩

theorem isClosed_readComment? : IsClosed readComment? := by
  have heq : readComment? = checked
      (fun body => if holds ['-', '-'] (body ++ ['-']) then none else some Token.comment)
      (readUntil? ['-', '-', '>']) := by
    funext cs
    unfold readComment? checked
    congr
    funext p
    dsimp only
    split <;> rfl
  rw [heq]
  exact (isClosed_readUntil? (by decide)).checked _

theorem isClosed_readCdata? : IsClosed readCdata? := by
  have heq : readCdata? = checked
      (fun body => some (Token.cdata (String.ofList (textValue false (body.map .plain)))))
      (readUntil? [']', ']', '>']) := rfl
  rw [heq]
  exact (isClosed_readUntil? (by decide)).checked _

/-- An instruction that may have the name of the declaration. -/
def readAnyInstruction? : Reader Token := fun cs =>
  ((skipName? cs).map ((), ·)).bind fun p =>
    checked (fun _ => some Token.instruction) (readUntil? ['?', '>']) (p.2.dropWhile isSpace)

theorem isClosed_readAnyInstruction? : IsClosed readAnyInstruction? := by
  have hname : IsLocal fun cs => (skipName? cs).map ((), ·) := by
    intro cs _ rest h
    obtain ⟨r, hr, hp⟩ := Option.map_eq_some_iff.1 h
    cases hp
    cases cs with
    | nil => cases hr
    | cons c cs =>
      rw [skipName?] at hr
      split at hr
      · next hc =>
        cases hr
        obtain ⟨run, hcs, hrun⟩ := @isLocal_span isRunChar cs _ _ rfl
        refine ⟨c :: run, congrArg (c :: ·) hcs, ?_⟩
        intro rest' hrest'
        have hdrop := (Prod.mk.inj (Option.some.inj (hrun rest' hrest'))).2
        have hskip : skipName? (c :: (run ++ rest')) = some rest' := by
          rw [skipName?, if_pos hc, hdrop]
        dsimp only
        rw [List.cons_append, hskip]
        rfl
      · cases hr
  have hbody : IsClosed (checked (fun _ => some Token.instruction) (readUntil? ['?', '>'])) :=
    (isClosed_readUntil? (by decide)).checked _
  exact hname.bind fun _ => hbody.spaced

theorem readInstruction?_eq (cs : List Char) :
    readInstruction? cs =
      if ['x', 'm', 'l', ' '].isPrefixOf cs then none else readAnyInstruction? cs := by
  unfold readInstruction? readAnyInstruction? checked
  split
  · rfl
  · cases skipName? cs <;> rfl

/-- What is consumed ends in a bracket, so it is not a part of the name of the declaration and the
space behind it. -/
theorem isClosed_readInstruction? : IsClosed readInstruction? := by
  intro cs t rest h
  rw [readInstruction?_eq] at h
  split at h
  · cases h
  · next hother =>
    obtain ⟨front, hne, rfl, hfront⟩ := isClosed_readAnyInstruction? h
    refine ⟨front, hne, rfl, ?_⟩
    intro rest'
    rw [readInstruction?_eq, if_neg, hfront rest']
    intro hprefix
    obtain hword | hpart := List.prefix_or_prefix_of_prefix
      (List.isPrefixOf_iff_prefix.1 hprefix) (List.prefix_append front rest')
    · exact hother (List.isPrefixOf_iff_prefix.2 (hword.trans (List.prefix_append front rest)))
    · have hnone : ∀ part ∈ ['x', 'm', 'l', ' '].inits, readAnyInstruction? part = none := by
        decide
      have hsome := hfront []
      rw [List.append_nil, hnone front ((List.mem_inits _ _).2 hpart)] at hsome
      cases hsome

/-! Tokens -/

theorem readText?_append {cs rest : List Char} {t : Token} (h : readText? cs = some (t, rest)) :
    ∃ front, cs = front ++ rest ∧ ∀ rest', rest'.head? = rest.head? ∨ rest'.head? = some '<' →
      readText? (front ++ rest') = some (t, rest') := by
  have hspan := List.takeWhile_append_dropWhile (p := (· != '<')) (l := cs)
  have hstop := List.head?_dropWhile_not (· != '<') cs
  have hfront := List.all_eq_true.1 (List.all_takeWhile (p := (· != '<')) (l := cs))
  unfold readText? at h ⊢
  dsimp only at h
  generalize cs.takeWhile (· != '<') = front at h hspan hfront
  split at h
  · cases h
  · next hlegal =>
    obtain ⟨ws, hws, hp⟩ := Option.bind_eq_some_iff.1 h
    cases hp
    refine ⟨front, hspan.symm, ?_⟩
    intro rest' hrest'
    have hhead : ∀ d ∈ rest'.head?, (d != '<') = false := by
      intro d hd
      obtain hsame | hbracket := hrest'
      · rw [← hsame, hd] at hstop
        exact hstop
      · rw [hbracket] at hd
        cases hd
        rfl
    have hagain := span_append hfront hhead
    dsimp only
    rw [hagain.1, hagain.2, if_neg hlegal, hws]
    rfl

theorem readToken?_of_name {c : Char} (hc : isRunChar c = true) (cs : List Char) :
    readToken? ('<' :: c :: cs) = readStartTag? (c :: cs) := by
  unfold readToken?
  split
  case h_5 heq =>
    cases heq
    rfl
  case h_6 hother => exact absurd rfl (hother (c :: cs))
  all_goals
    rename_i heq
    cases heq
    contradiction

theorem readToken?_of_text {c : Char} (hc : c ≠ '<') (cs : List Char) :
    readToken? (c :: cs) = readText? (c :: cs) := by
  unfold readToken?
  split
  case h_6 => rfl
  all_goals
    rename_i heq
    cases heq
    contradiction

/-- What opens a token, in front of what a closed reader consumes. -/
theorem IsClosed.opened {read : Reader Token} (h : IsClosed read) (opening : List Char)
    {cs rest : List Char} {t : Token} (hread : read cs = some (t, rest))
    (hopening : ∀ cs, readToken? (opening ++ cs) = read cs) :
    ∃ front, front ≠ [] ∧ opening ++ cs = front ++ rest ∧
      ∀ rest', readToken? (front ++ rest') = some (t, rest') := by
  obtain ⟨front, hne, rfl, hfront⟩ := h hread
  refine ⟨opening ++ front, ?_, (List.append_assoc opening front rest).symm, ?_⟩
  · exact fun hnil => hne (List.append_eq_nil_iff.1 hnil).2
  · intro rest'
    rw [List.append_assoc, hopening, hfront rest']

/-- A token that does not start with plain text is closed. -/
theorem readToken?_bracket {cs rest : List Char} {t : Token}
    (h : readToken? ('<' :: cs) = some (t, rest)) :
    ∃ front, front ≠ [] ∧ '<' :: cs = front ++ rest ∧
      ∀ rest', readToken? (front ++ rest') = some (t, rest') := by
  unfold readToken? at h
  split at h
  · next cs heq =>
    rw [heq]
    exact isClosed_readComment?.opened ['<', '!', '-', '-'] h fun _ => rfl
  · next cs heq =>
    rw [heq]
    exact isClosed_readCdata?.opened ['<', '!', '[', 'C', 'D', 'A', 'T', 'A', '['] h fun _ => rfl
  · next cs heq =>
    rw [heq]
    exact isClosed_readInstruction?.opened ['<', '?'] h fun _ => rfl
  · next cs heq =>
    rw [heq]
    exact isClosed_readEndTag?.opened ['<', '/'] h fun _ => rfl
  · next heq =>
    cases heq
    obtain ⟨front, hne, rfl, hfront⟩ := isClosed_readStartTag? h
    obtain ⟨⟨name, r⟩, hname, _⟩ := Option.bind_eq_some_iff.1 h
    obtain ⟨d, hd, hrun⟩ := head?_of_readName? hname
    cases front with
    | nil => contradiction
    | cons e front =>
      cases hd
      refine ⟨'<' :: d :: front, List.cons_ne_nil _ _, rfl, ?_⟩
      intro rest'
      exact (readToken?_of_name hrun (front ++ rest')).trans (hfront rest')
  · next hother => exact absurd rfl (hother cs)

/-- A token is read alike from its own characters where the same character follows or an angle
bracket does. -/
theorem readToken?_append {c : Char} {cs rest : List Char} {t : Token}
    (h : readToken? (c :: cs) = some (t, rest)) :
    ∃ front, front ≠ [] ∧ c :: cs = front ++ rest ∧
      ∀ rest', rest'.head? = rest.head? ∨ rest'.head? = some '<' →
        readToken? (front ++ rest') = some (t, rest') := by
  by_cases hc : c = '<'
  · subst hc
    obtain ⟨front, hne, hcs, hfront⟩ := readToken?_bracket h
    exact ⟨front, hne, hcs, fun rest' _ => hfront rest'⟩
  · rw [readToken?_of_text hc] at h
    have hlength := readText?_length hc h
    obtain ⟨front, hcs, hfront⟩ := readText?_append h
    cases front with
    | nil =>
      rw [List.nil_append] at hcs
      rw [← hcs] at hlength
      exact absurd hlength (Nat.not_succ_le_self cs.length)
    | cons d front =>
      cases hcs
      refine ⟨c :: front, List.cons_ne_nil c front, rfl, ?_⟩
      intro rest' hrest'
      exact (readToken?_of_text hc (front ++ rest')).trans (hfront rest' hrest')

end DynamicSql.Markup

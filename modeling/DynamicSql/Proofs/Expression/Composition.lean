import DynamicSql.Expression.Evaluation
import DynamicSql.Proofs.Expression.Acceptance
import DynamicSql.Proofs.Expression.TokenEnd

/-!
Expressions composed as text. Between parentheses an expression keeps its tokens unless it ends
inside the brackets of a path: such a path is read on behind the parenthesis, and what comes out is
no path. So the composed texts are read exactly if no path is left open, and then they mean what
their parts mean, joined (`composed_readsAs`).
-/

namespace DynamicSql.Expression

/-- Every path of the text ends outside of brackets. -/
def closesPaths (source : String) : Bool :=
  match tokens false source.toList with
  | .ok ts => ts.all fun t => !t.isOpen
  | .error _ => false

def parenthesized (source : String) : String :=
  "(" ++ source ++ ")"

/-- The text is an expression with this meaning, or else it is refused. -/
def ReadsAs (source : String) (accepted : Bool) (test : Context → Except EvalError Bool)
    (value : Context → Except EvalError Value) : Prop :=
  if accepted then
    ∃ x, read source = .ok x ∧ ∀ c, x.test c = test c ∧ x.value c = value c
  else ∃ fault, read source = .error ⟨source, fault⟩

/-- The same for an expression that has only the values true and false. -/
def ReadsAsTest (source : String) (accepted : Bool) (test : Context → Except EvalError Bool) :
    Prop :=
  ReadsAs source accepted test fun c => (test c).map .bool

variable {source : String} {x : Expression} {ts us : List Token} {n m : Node} {level : Level}

/-! Tokens and phrases -/

theorem exists_tokens_of_read (h : read source = .ok x) :
    ∃ ts, tokens false source.toList = .ok ts ∧ Derives .or ts x.root := by
  unfold read at h
  split at h
  · next root hroot =>
    cases h
    obtain ⟨ts, hts, hparse⟩ := bind_eq_ok.1 hroot
    refine ⟨ts, hts, ?_⟩
    obtain ⟨used, rfl, hused⟩ :=
      soundUpTo_or ts.length ts [] root (Nat.le_refl _) (parseTokens_eq_ok.1 hparse)
    rw [List.append_nil]
    exact hused
  · cases h

theorem read_of_derives (htokens : tokens false source.toList = .ok ts) (h : Derives .or ts n) :
    read source = .ok ⟨source, n⟩ := by
  have hread := h.read [] fun t ht => by cases ht
  rw [List.append_nil] at hread
  have hall : (tokens false source.toList >>= parseTokens) = .ok n := by
    rw [htokens]
    exact parseTokens_eq_ok.2 hread
  rw [read, hall]

theorem joinedBy_single (joint : Token) (us : List Token) (m : Node) :
    joinedBy joint [(us, m)] = joint :: us :=
  List.flatMap_singleton ..

theorem Derives.affirmed_operand (h : Derives .operand ts n) : Derives .not ts n := by
  have hconcat := Derives.concat h (List.forall_mem_nil _)
  rw [joinedBy, List.flatMap_nil, List.append_nil] at hconcat
  exact .affirmed (.uncompared hconcat)

theorem Derives.affirmed_parens (h : Derives .or ts n) :
    Derives .not (.openParen :: ts ++ [.closeParen]) n :=
  (Derives.parens h).affirmed_operand

theorem Derives.and_single (h : Derives .not ts n) : Derives .and ts n := by
  have hand := Derives.and h (List.forall_mem_nil _)
  rw [joinedBy, List.flatMap_nil, List.append_nil] at hand
  exact hand

theorem Derives.or_single (h : Derives .and ts n) : Derives .or ts n := by
  have hor := Derives.or h (List.forall_mem_nil _)
  rw [joinedBy, List.flatMap_nil, List.append_nil] at hor
  exact hor

theorem Derives.conjoined (hn : Derives .not ts n) (hm : Derives .not us m) :
    Derives .or (ts ++ .and :: us) (.and n m) := by
  have hmore : ∀ p ∈ [(us, m)], Derives .not p.1 p.2 := by simpa using hm
  have hand := Derives.and hn hmore
  rw [joinedBy_single] at hand
  exact hand.or_single

theorem Derives.disjoined (hn : Derives .not ts n) (hm : Derives .not us m) :
    Derives .or (ts ++ .or :: us) (.or n m) := by
  have hmore : ∀ p ∈ [(us, m)], Derives .and p.1 p.2 := by simpa using hm.and_single
  have hor := Derives.or hn.and_single hmore
  rw [joinedBy_single] at hor
  exact hor

/-- All paths of a phrase are paths. -/
theorem Derives.path_read (h : Derives level ts n) {source : String} (hmem : .path source ∈ ts) :
    ∃ p, Path.read source = .ok p := by
  have hjoined {joint : Token} {ps : List Phrase} (hjoint : joint ≠ .path source)
      (hps : ∀ p ∈ ps, .path source ∈ p.1 → ∃ p, Path.read source = .ok p)
      (hmem : .path source ∈ joinedBy joint ps) : ∃ p, Path.read source = .ok p := by
    obtain ⟨p, hp, hmem⟩ := List.mem_flatMap.1 hmem
    obtain heq | hmem := List.mem_cons.1 hmem
    · exact absurd heq.symm hjoint
    · exact hps p hp hmem
  induction h with
  | or _ _ ihfirst ihmore =>
    obtain hmem | hmem := List.mem_append.1 hmem
    · exact ihfirst hmem
    · exact hjoined (by rintro ⟨⟩) ihmore hmem
  | and _ _ ihfirst ihmore =>
    obtain hmem | hmem := List.mem_append.1 hmem
    · exact ihfirst hmem
    · exact hjoined (by rintro ⟨⟩) ihmore hmem
  | concat _ _ ihfirst ihmore =>
    obtain hmem | hmem := List.mem_append.1 hmem
    · exact ihfirst hmem
    · exact hjoined (by rintro ⟨⟩) ihmore hmem
  | not _ ih =>
    obtain heq | hmem := List.mem_cons.1 hmem
    · cases heq
    · exact ih hmem
  | affirmed _ ih => exact ih hmem
  | compare op _ _ ihl ihr =>
    obtain hmem | hmem := List.mem_append.1 hmem
    · exact ihl hmem
    · obtain heq | hmem := List.mem_cons.1 hmem
      · cases heq
      · exact ihr hmem
  | uncompared _ ih => exact ih hmem
  | constant hv =>
    cases List.mem_singleton.1 hmem
    cases hv
  | @path source' p hp =>
    cases List.mem_singleton.1 hmem
    exact ⟨p, hp⟩
  | parens _ ih =>
    obtain hmem | hmem := List.mem_append.1 hmem
    · obtain heq | hmem := List.mem_cons.1 hmem
      · cases heq
      · exact ih hmem
    · cases List.mem_singleton.1 hmem

/-! Texts with a path that was read too far -/

/-- If there are tokens at all, one of them is a path that is none. -/
def IsSpoilt (found : Except Fault (List Token)) : Prop :=
  ∀ ts, found = .ok ts → ∃ source e, .path source ∈ ts ∧ Path.read source = .error e

theorem IsSpoilt.map {found : Except Fault (List Token)} (h : IsSpoilt found)
    {f : List Token → List Token} (hf : ∀ ts, ts ⊆ f ts) : IsSpoilt (found.map f) := by
  intro us hus
  obtain ⟨ts, hts, rfl⟩ := map_eq_ok.1 hus
  obtain ⟨source, e, hmem, he⟩ := h ts hts
  exact ⟨source, e, hf ts hmem, he⟩

theorem IsSpoilt.read (h : IsSpoilt (tokens false source.toList)) :
    ∃ fault, read source = .error ⟨source, fault⟩ := by
  cases hread : Expression.read source with
  | ok x =>
    obtain ⟨ts, hts, hx⟩ := exists_tokens_of_read hread
    obtain ⟨path, e, hmem, he⟩ := h ts hts
    obtain ⟨p, hp⟩ := hx.path_read hmem
    rw [he] at hp
    cases hp
  | error e =>
    unfold Expression.read at hread
    split at hread
    · cases hread
    · cases hread
      exact ⟨_, rfl⟩

theorem isSpoilt_of_open (htokens : tokens false source.toList = .ok ts)
    (hderives : Derives .or ts n) (hopen : ∃ t ∈ ts, t.isOpen = true) (more : List Char) :
    IsSpoilt (tokens false (source.toList ++ ')' :: more)) := by
  intro us hus
  obtain ⟨path, taken, hpath, hmem⟩ := tokens_append_open htokens hopen hus
  obtain ⟨p, hp⟩ := hderives.path_read hpath
  obtain ⟨e, he⟩ := Path.read_append_paren hp taken
  exact ⟨_, e, hmem, he⟩

/-! Tokens of composed texts -/

theorem tokens_openParen (afterOperand : Bool) (cs : List Char) :
    tokens afterOperand ('(' :: cs) = (tokens false cs).map (.openParen :: ·) :=
  tokens_token (by decide) rfl

/-- A word with a blank behind it, after which an operand may start. -/
theorem tokens_word {afterOperand : Bool} {c : Char} {more cs : List Char} {t : Token}
    (hc : ¬Text.isBlankChar c = true)
    (hread : Token.read afterOperand c more = .ok (t, ' ' :: cs)) (ht : t.endsOperand = false) :
    tokens afterOperand (c :: more) = (tokens false cs).map (t :: ·) := by
  rw [tokens_token hc hread, ht, tokens_blank (by decide)]

theorem tokens_not (cs : List Char) :
    tokens false ("not ".toList ++ cs) = (tokens false cs).map (.not :: ·) :=
  tokens_word (by decide) rfl rfl

theorem tokens_and (cs : List Char) :
    tokens true (" and ".toList ++ cs) = (tokens false cs).map (.and :: ·) :=
  (tokens_blank (by decide) _).trans (tokens_word (by decide) rfl rfl)

theorem tokens_or (cs : List Char) :
    tokens true (" or ".toList ++ cs) = (tokens false cs).map (.or :: ·) :=
  (tokens_blank (by decide) _).trans (tokens_word (by decide) rfl rfl)

theorem toList_parenthesized_append (source : String) (more : List Char) :
    (parenthesized source).toList ++ more = '(' :: (source.toList ++ ')' :: more) := by
  simp [parenthesized, String.toList_append]

theorem tokens_parenthesized (htokens : tokens false source.toList = .ok ts)
    (hclosed : ∀ t ∈ ts, t.isOpen = false) (more : List Char) :
    tokens false ((parenthesized source).toList ++ more) =
      (tokens true more).map fun us => .openParen :: ts ++ [.closeParen] ++ us := by
  rw [toList_parenthesized_append, tokens_openParen, tokens_append htokens hclosed]
  cases tokens true more with
  | error e => rfl
  | ok us => simp [Except.map]

theorem tokens_parenthesized_end (htokens : tokens false source.toList = .ok ts)
    (hclosed : ∀ t ∈ ts, t.isOpen = false) :
    tokens false (parenthesized source).toList = .ok (.openParen :: ts ++ [.closeParen]) := by
  have hread := tokens_parenthesized htokens hclosed []
  rw [List.append_nil, tokens] at hread
  rw [hread, Except.map, List.append_nil]

theorem isSpoilt_parenthesized (htokens : tokens false source.toList = .ok ts)
    (hderives : Derives .or ts n) (hopen : ∃ t ∈ ts, t.isOpen = true) (more : List Char) :
    IsSpoilt (tokens false ((parenthesized source).toList ++ more)) := by
  rw [toList_parenthesized_append, tokens_openParen]
  exact (isSpoilt_of_open htokens hderives hopen more).map fun us => List.subset_cons_self _ us

theorem isSpoilt_parenthesized_end (htokens : tokens false source.toList = .ok ts)
    (hderives : Derives .or ts n) (hopen : ∃ t ∈ ts, t.isOpen = true) :
    IsSpoilt (tokens false (parenthesized source).toList) := by
  have hspoilt := isSpoilt_parenthesized htokens hderives hopen []
  rw [List.append_nil] at hspoilt
  exact hspoilt

theorem closesPaths_cases (htokens : tokens false source.toList = .ok ts) :
    closesPaths source = true ∧ (∀ t ∈ ts, t.isOpen = false) ∨
      closesPaths source = false ∧ ∃ t ∈ ts, t.isOpen = true := by
  have hcloses : closesPaths source = ts.all fun t => !t.isOpen := by
    rw [closesPaths, htokens]
  rw [hcloses]
  cases hall : ts.all fun t => !t.isOpen with
  | true => exact .inl ⟨rfl, by simpa using hall⟩
  | false => exact .inr ⟨rfl, by simpa using hall⟩

/-! Composed texts -/

section Composed

variable {e₁ e₂ : String} {y : Expression} {test : Context → Except EvalError Bool}
  {value : Context → Except EvalError Value}

theorem readsAs_of_derives (htokens : tokens false source.toList = .ok ts) (h : Derives .or ts n)
    (hmeaning : ∀ c, n.test c = test c ∧ n.value c = value c) :
    ReadsAs source true test value :=
  ⟨⟨source, n⟩, read_of_derives htokens h, hmeaning⟩

theorem readsAs_of_isSpoilt (h : IsSpoilt (tokens false source.toList)) :
    ReadsAs source false test value :=
  h.read

theorem readsAs_parenthesized (h : read source = .ok x) :
    ReadsAs (parenthesized source) (closesPaths source) x.test x.value := by
  obtain ⟨ts, htokens, hderives⟩ := exists_tokens_of_read h
  obtain ⟨hcloses, hclosed⟩ | ⟨hcloses, hopen⟩ := closesPaths_cases htokens
  · rw [hcloses]
    exact readsAs_of_derives (tokens_parenthesized_end htokens hclosed)
      hderives.affirmed_parens.and_single.or_single fun c => ⟨rfl, rfl⟩
  · rw [hcloses]
    exact readsAs_of_isSpoilt (isSpoilt_parenthesized_end htokens hderives hopen)

theorem readsAsTest_negated (h : read source = .ok x) :
    ReadsAsTest ("not " ++ parenthesized source) (closesPaths source)
      fun c => (x.test c).map (!·) := by
  obtain ⟨ts, htokens, hderives⟩ := exists_tokens_of_read h
  have hnot := tokens_not (parenthesized source).toList
  rw [← String.toList_append] at hnot
  obtain ⟨hcloses, hclosed⟩ | ⟨hcloses, hopen⟩ := closesPaths_cases htokens
  · rw [tokens_parenthesized_end htokens hclosed] at hnot
    rw [hcloses]
    exact readsAs_of_derives hnot (Derives.not hderives.affirmed_parens).and_single.or_single
      fun c => ⟨rfl, rfl⟩
  · rw [hcloses]
    apply readsAs_of_isSpoilt
    rw [hnot]
    exact (isSpoilt_parenthesized_end htokens hderives hopen).map fun us =>
      List.subset_cons_self _ us

/-- Two expressions in parentheses with a word between them that joins them. -/
theorem readsAsTest_joined (h₁ : read e₁ = .ok x) (h₂ : read e₂ = .ok y) {word : String}
    {joint : Token} {join : Node → Node → Node}
    (hword : ∀ cs, tokens true (word.toList ++ cs) = (tokens false cs).map (joint :: ·))
    (hjoin : ∀ {ts us n m}, Derives .not ts n → Derives .not us m →
      Derives .or (ts ++ joint :: us) (join n m))
    (hmeaning : ∀ c, (join x.root y.root).test c = test c ∧
      (join x.root y.root).value c = (test c).map .bool) :
    ReadsAsTest (parenthesized e₁ ++ word ++ parenthesized e₂)
      (closesPaths e₁ && closesPaths e₂) test := by
  obtain ⟨ts, htokens₁, hderives₁⟩ := exists_tokens_of_read h₁
  obtain ⟨us, htokens₂, hderives₂⟩ := exists_tokens_of_read h₂
  have htext : (parenthesized e₁ ++ word ++ parenthesized e₂).toList =
      (parenthesized e₁).toList ++ (word.toList ++ (parenthesized e₂).toList) := by
    rw [String.toList_append, String.toList_append, List.append_assoc]
  -- an open path in front takes in all of the rest, so the second part counts behind a closed one
  obtain ⟨hcloses₁, hclosed₁⟩ | ⟨hcloses₁, hopen₁⟩ := closesPaths_cases htokens₁
  · have hfront := tokens_parenthesized htokens₁ hclosed₁ (word.toList ++ (parenthesized e₂).toList)
    rw [hword, ← htext] at hfront
    obtain ⟨hcloses₂, hclosed₂⟩ | ⟨hcloses₂, hopen₂⟩ := closesPaths_cases htokens₂
    · rw [tokens_parenthesized_end htokens₂ hclosed₂] at hfront
      rw [hcloses₁, hcloses₂]
      exact readsAs_of_derives hfront (hjoin hderives₁.affirmed_parens hderives₂.affirmed_parens)
        hmeaning
    · have hspoilt := isSpoilt_parenthesized_end htokens₂ hderives₂ hopen₂
      rw [hcloses₁, hcloses₂]
      apply readsAs_of_isSpoilt
      rw [hfront]
      exact (hspoilt.map fun us => List.subset_cons_self _ us).map fun us =>
        List.subset_append_right _ us
  · rw [hcloses₁]
    apply readsAs_of_isSpoilt
    rw [htext]
    exact isSpoilt_parenthesized htokens₁ hderives₁ hopen₁ _

/-- Of two expressions in parentheses each is an expression again, and so are their negation,
conjunction and disjunction, exactly if none of the paths taken in is left open. They are evaluated
from left to right, and the right side not at all where the left side decides. -/
theorem composed_readsAs (h₁ : read e₁ = .ok x) (h₂ : read e₂ = .ok y) :
    ReadsAs (parenthesized e₁) (closesPaths e₁) x.test x.value ∧
    ReadsAsTest ("not " ++ parenthesized e₁) (closesPaths e₁) (fun c => (x.test c).map (!·)) ∧
    ReadsAsTest (parenthesized e₁ ++ " and " ++ parenthesized e₂)
      (closesPaths e₁ && closesPaths e₂)
      (fun c =>
        match x.test c with
        | .ok true => y.test c
        | decided => decided) ∧
    ReadsAsTest (parenthesized e₁ ++ " or " ++ parenthesized e₂)
      (closesPaths e₁ && closesPaths e₂)
      (fun c =>
        match x.test c with
        | .ok false => y.test c
        | decided => decided) := by
  have hand (c : Context) : (Node.and x.root y.root).test c =
      match x.test c with
      | .ok true => y.test c
      | decided => decided := by
    change Node.conjunction (x.test c) (y.test c) = _
    cases x.test c with
    | error e => rfl
    | ok b => cases b <;> rfl
  have hor (c : Context) : (Node.or x.root y.root).test c =
      match x.test c with
      | .ok false => y.test c
      | decided => decided := by
    change Node.disjunction (x.test c) (y.test c) = _
    cases x.test c with
    | error e => rfl
    | ok b => cases b <;> rfl
  refine ⟨readsAs_parenthesized h₁, readsAsTest_negated h₁, ?_, ?_⟩
  · apply readsAsTest_joined h₁ h₂ tokens_and Derives.conjoined
    exact fun c => ⟨hand c, congrArg (Except.map Value.bool) (hand c)⟩
  · apply readsAsTest_joined h₁ h₂ tokens_or Derives.disjoined
    exact fun c => ⟨hor c, congrArg (Except.map Value.bool) (hor c)⟩

/-- A key with a quote in it: the tokens end inside the brackets, the path behind them. -/
def quotedKey : String :=
  "m['a'b']"

theorem composed_readsAs_quotedKey :
    ∃ x y, read "a == -1" = .ok x ∧ read quotedKey = .ok y ∧
      (∃ z, read "(a == -1) or (a == -1)" = .ok z ∧ ∀ c, z.test c =
        match x.test c with
        | .ok false => x.test c
        | decided => decided) ∧
      ∃ fault, read "(a == -1) or (m['a'b'])" = .error ⟨"(a == -1) or (m['a'b'])", fault⟩ := by
  have hx : ∃ x, read "a == -1" = .ok x := ⟨_, by cbv⟩
  have hy : ∃ y, read quotedKey = .ok y := ⟨_, by cbv⟩
  have hcloses : closesPaths "a == -1" = true ∧ closesPaths quotedKey = false := by
    constructor <;> cbv
  obtain ⟨x, hx⟩ := hx
  obtain ⟨y, hy⟩ := hy
  have hboth := (composed_readsAs hx hx).2.2.2
  have hopen := (composed_readsAs hx hy).2.2.2
  rw [hcloses.1] at hboth
  rw [hcloses.1, hcloses.2] at hopen
  obtain ⟨z, hz, hmeaning⟩ := hboth
  exact ⟨x, y, hx, hy, ⟨z, hz, fun c => (hmeaning c).1⟩, hopen⟩

/-- An expression of its own, which is none in parentheses. -/
theorem read_quotedKey_parenthesized :
    (∃ x, read quotedKey = .ok x) ∧
      ∃ fault, read "(m['a'b'])" = .error ⟨"(m['a'b'])", fault⟩ := by
  refine ⟨⟨_, by cbv⟩, _, by cbv⟩

end Composed

end DynamicSql.Expression

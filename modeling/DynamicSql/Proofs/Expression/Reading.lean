import DynamicSql.Proofs.Effects
import DynamicSql.Proofs.Expression.Grammar

/-!
The readers of an expression against its grammar. What a reader takes is a phrase of its level
(`SoundUpTo`), and it takes any phrase that no token behind it continues (`Derives.read`). So the
token lists that make an expression are the phrases of the loosest level.
-/

namespace DynamicSql.Expression

variable {α : Type}

/-- What a reader gives, without the bound on the tokens that it leaves. -/
def plain {p : List Token → Prop} (x : Except Fault (α × { rest : List Token // p rest })) :
    Except Fault (α × List Token) :=
  x.map fun y => (y.1, y.2.1)

def Level.read : Level → List Token → Except Fault (Node × List Token)
  | .or, ts => plain (parseOr ts)
  | .and, ts => plain (parseAnd ts)
  | .not, ts => plain (parseNot ts)
  | .compare, ts => plain (parseCompare ts)
  | .concat, ts => plain (parseConcat ts)
  | .operand, ts => plain (parseOperand ts)

theorem plain_eq_ok {p : List Token → Prop} {x : Except Fault (α × { rest : List Token // p rest })}
    {a : α} {rest : List Token} :
    plain x = .ok (a, rest) ↔ ∃ h, x = .ok (a, ⟨rest, h⟩) := by
  cases x with
  | error e => simp [plain, Except.map]
  | ok y =>
    rcases y with ⟨b, rest', h⟩
    simp only [plain, Except.map, Except.ok.injEq, Prod.mk.injEq]
    constructor
    · rintro ⟨rfl, rfl⟩
      exact ⟨h, rfl, rfl⟩
    · rintro ⟨_, rfl, hrest⟩
      exact ⟨rfl, congrArg Subtype.val hrest⟩

theorem Level.read_length {level : Level} {ts rest : List Token} {n : Node}
    (h : level.read ts = .ok (n, rest)) : rest.length < ts.length := by
  cases level <;> exact (plain_eq_ok.1 h).1

/-- Reads phrases of a level for as long as each has the joint in front of it. -/
inductive ReadsMore (joint : Token) (level : Level) :
    List Token → List Node → List Token → Prop where
  | stop {ts : List Token} (h : ts.head? ≠ some joint) : ReadsMore joint level ts [] ts
  | more {ts ts₁ rest : List Token} {n : Node} {ns : List Node} (h : level.read ts = .ok (n, ts₁))
      (hmore : ReadsMore joint level ts₁ ns rest) :
      ReadsMore joint level (joint :: ts) (n :: ns) rest

/-- A reader of repeated phrases, which gathers what they stand for. -/
structure IsTail (joint : Token) (level : Level) (add : α → Node → α)
    (tail : α → List Token → Except Fault (α × List Token)) : Prop where
  more : ∀ a ts, tail a (joint :: ts) = level.read ts >>= fun x => tail (add a x.1) x.2
  stop : ∀ a ts, ts.head? ≠ some joint → tail a ts = .ok (a, ts)

theorem IsTail.eq_ok {joint : Token} {level : Level} {add : α → Node → α}
    {tail : α → List Token → Except Fault (α × List Token)} (h : IsTail joint level add tail)
    {a b : α} {ts rest : List Token} :
    tail a ts = .ok (b, rest) ↔ ∃ ns, ReadsMore joint level ts ns rest ∧ ns.foldl add a = b := by
  constructor
  · intro hread
    induction hlength : ts.length using Nat.strongRecOn generalizing a ts with
    | ind k ih =>
      by_cases hhead : ts.head? = some joint
      · rcases List.head?_eq_some_iff.1 hhead with ⟨us, rfl⟩
        rw [h.more] at hread
        rcases bind_eq_ok.1 hread with ⟨⟨n, ts₁⟩, hn, hread⟩
        have hshorter : ts₁.length < k := by
          have hrest := Level.read_length hn
          rw [List.length_cons] at hlength
          omega
        rcases ih ts₁.length hshorter hread rfl with ⟨ns, hns, hfold⟩
        exact ⟨n :: ns, .more hn hns, hfold⟩
      · rw [h.stop a ts hhead] at hread
        cases hread
        exact ⟨[], .stop hhead, rfl⟩
  · rintro ⟨ns, hns, rfl⟩
    induction hns generalizing a with
    | stop hhead => exact h.stop a _ hhead
    | more hn _ ih =>
      rw [h.more]
      exact bind_eq_ok.2 ⟨_, hn, ih⟩

theorem isTail_or : IsTail .or .and .or fun left ts => plain (parseOrTail left ts) where
  more left ts := by
    rw [parseOrTail, Level.read]
    cases parseAnd ts with
    | error e => rfl
    | ok x =>
      change plain (parseOrTail (.or left x.1) x.2.1 >>= _) =
        plain (parseOrTail (.or left x.1) x.2.1)
      cases parseOrTail (.or left x.1) x.2.1 <;> rfl
  stop left ts hhead := by
    rw [parseOrTail]
    · rfl
    · rintro r rfl
      exact hhead rfl

theorem isTail_and : IsTail .and .not .and fun left ts => plain (parseAndTail left ts) where
  more left ts := by
    rw [parseAndTail, Level.read]
    cases parseNot ts with
    | error e => rfl
    | ok x =>
      change plain (parseAndTail (.and left x.1) x.2.1 >>= _) =
        plain (parseAndTail (.and left x.1) x.2.1)
      cases parseAndTail (.and left x.1) x.2.1 <;> rfl
  stop left ts hhead := by
    rw [parseAndTail]
    · rfl
    · rintro r rfl
      exact hhead rfl

/-- Unlike the other two this reader does not take what was gathered before, so that is put in
front. -/
theorem isTail_plus : IsTail .plus .operand (fun ns n => ns ++ [n]) fun ns ts =>
    (plain (parseConcatTail ts)).map fun x => (ns ++ x.1, x.2) where
  more ns ts := by
    rw [parseConcatTail, Level.read]
    cases parseOperand ts with
    | error e => rfl
    | ok x =>
      change Except.map _ (plain (parseConcatTail x.2.1 >>= _)) =
        (plain (parseConcatTail x.2.1)).map fun y => (ns ++ [x.1] ++ y.1, y.2)
      cases parseConcatTail x.2.1 with
      | error e => rfl
      | ok y =>
        change Except.ok (ns ++ (x.1 :: y.1), y.2.1) = Except.ok (ns ++ [x.1] ++ y.1, y.2.1)
        rw [List.append_assoc, List.singleton_append]
  stop ns ts hhead := by
    rw [parseConcatTail]
    · dsimp [plain, Except.map]
      rw [List.append_nil]
    · rintro r rfl
      exact hhead rfl

theorem read_or_ok {ts rest : List Token} {n : Node} :
    Level.or.read ts = .ok (n, rest) ↔
      ∃ first ts₁ ns, Level.and.read ts = .ok (first, ts₁) ∧ ReadsMore .or .and ts₁ ns rest ∧
        ns.foldl .or first = n := by
  have hread : Level.or.read ts =
      Level.and.read ts >>= fun x => plain (parseOrTail x.1 x.2) := by
    rw [Level.read, Level.read, parseOr]
    cases parseAnd ts with
    | error e => rfl
    | ok x =>
      change plain (parseOrTail x.1 x.2.1 >>= _) = plain (parseOrTail x.1 x.2.1)
      cases parseOrTail x.1 x.2.1 <;> rfl
  rw [hread, bind_eq_ok]
  simp only [isTail_or.eq_ok, Prod.exists, exists_and_left]

theorem read_and_ok {ts rest : List Token} {n : Node} :
    Level.and.read ts = .ok (n, rest) ↔
      ∃ first ts₁ ns, Level.not.read ts = .ok (first, ts₁) ∧ ReadsMore .and .not ts₁ ns rest ∧
        ns.foldl .and first = n := by
  have hread : Level.and.read ts =
      Level.not.read ts >>= fun x => plain (parseAndTail x.1 x.2) := by
    rw [Level.read, Level.read, parseAnd]
    cases parseNot ts with
    | error e => rfl
    | ok x =>
      change plain (parseAndTail x.1 x.2.1 >>= _) = plain (parseAndTail x.1 x.2.1)
      cases parseAndTail x.1 x.2.1 <;> rfl
  rw [hread, bind_eq_ok]
  simp only [isTail_and.eq_ok, Prod.exists, exists_and_left]

theorem foldl_gather (ms ns : List Node) : ns.foldl (fun ns n => ns ++ [n]) ms = ms ++ ns := by
  induction ns generalizing ms with
  | nil => exact (List.append_nil ms).symm
  | cons n ns ih =>
    rw [List.foldl_cons, ih, List.append_assoc, List.singleton_append]

theorem read_concat_ok {ts rest : List Token} {n : Node} :
    Level.concat.read ts = .ok (n, rest) ↔
      ∃ first ts₁ ns, Level.operand.read ts = .ok (first, ts₁) ∧
        ReadsMore .plus .operand ts₁ ns rest ∧ concatenation first ns = n := by
  have hread : Level.concat.read ts =
      Level.operand.read ts >>= fun x =>
        ((plain (parseConcatTail x.2)).map fun y => ([] ++ y.1, y.2)) >>= fun y =>
          .ok (concatenation x.1 y.1, y.2) := by
    rw [Level.read, Level.read, parseConcat]
    cases parseOperand ts with
    | error e => rfl
    | ok x =>
      change plain (parseConcatTail x.2.1 >>= _) =
        ((plain (parseConcatTail x.2.1)).map fun y => ([] ++ y.1, y.2)) >>= _
      cases parseConcatTail x.2.1 <;> rfl
  rw [hread, bind_eq_ok]
  constructor
  · rintro ⟨⟨first, ts₁⟩, hfirst, h⟩
    rcases bind_eq_ok.1 h with ⟨⟨ns, ts₂⟩, hns, h⟩
    cases h
    rcases isTail_plus.eq_ok.1 hns with ⟨ns', hmore, hgather⟩
    rw [foldl_gather, List.nil_append] at hgather
    subst hgather
    exact ⟨first, ts₁, ns', hfirst, hmore, rfl⟩
  · rintro ⟨first, ts₁, ns, hfirst, hmore, rfl⟩
    have hns := isTail_plus.eq_ok.2 ⟨ns, hmore, foldl_gather [] ns⟩
    exact ⟨(first, ts₁), hfirst, bind_eq_ok.2 ⟨_, hns, rfl⟩⟩

theorem read_not_of_not (ts : List Token) :
    Level.not.read (.not :: ts) = (Level.not.read ts).map fun x => (.not x.1, x.2) := by
  rw [Level.read, Level.read, parseNot]
  cases parseNot ts <;> rfl

theorem read_not_of_ne {ts : List Token} (h : ts.head? ≠ some .not) :
    Level.not.read ts = Level.compare.read ts := by
  rw [Level.read, Level.read, parseNot]
  rintro r rfl
  exact h rfl

theorem exists_of_startsComparison {ts : List Token} (h : startsComparison ts = true) :
    ∃ op us, ts = .compare op :: us := by
  unfold startsComparison at h
  split at h
  · next op us => exact ⟨op, us, rfl⟩
  · contradiction

theorem compareTail_of_not {l : Node} {ts : List Token} (h : startsComparison ts = false) :
    plain (parseCompareTail l ts) = .ok (l, ts) := by
  rw [parseCompareTail]
  · rfl
  · rintro op r rfl
    contradiction

theorem compareTail_of_compare (l : Node) (op : Comparison) (ts : List Token) :
    plain (parseCompareTail l (.compare op :: ts)) =
      Level.concat.read ts >>= fun x =>
        if startsComparison x.2 then .error .chainedComparison
        else .ok (.compare op l x.1, x.2) := by
  rw [parseCompareTail, Level.read]
  cases parseConcat ts with
  | error e => rfl
  | ok x =>
    change plain (if startsComparison x.2.1 then _ else _) = if startsComparison x.2.1 then _ else _
    split <;> rfl

theorem read_compare_ok {ts rest : List Token} {n : Node} :
    Level.compare.read ts = .ok (n, rest) ↔
      startsComparison rest = false ∧
        (Level.concat.read ts = .ok (n, rest) ∨
          ∃ l op ts₁ r, Level.concat.read ts = .ok (l, .compare op :: ts₁) ∧
            Level.concat.read ts₁ = .ok (r, rest) ∧ .compare op l r = n) := by
  have hread : Level.compare.read ts =
      Level.concat.read ts >>= fun x => plain (parseCompareTail x.1 x.2) := by
    rw [Level.read, Level.read, parseCompare]
    cases parseConcat ts with
    | error e => rfl
    | ok x =>
      change plain (parseCompareTail x.1 x.2.1 >>= _) = plain (parseCompareTail x.1 x.2.1)
      cases parseCompareTail x.1 x.2.1 <;> rfl
  rw [hread, bind_eq_ok]
  constructor
  · rintro ⟨⟨l, ts₁⟩, hl, h⟩
    cases hstarts : startsComparison ts₁ with
    | false =>
      rw [compareTail_of_not hstarts] at h
      cases h
      exact ⟨hstarts, .inl hl⟩
    | true =>
      rcases exists_of_startsComparison hstarts with ⟨op, us, rfl⟩
      rw [compareTail_of_compare] at h
      rcases bind_eq_ok.1 h with ⟨⟨r, ts₂⟩, hr, h⟩
      split at h
      · cases h
      · next hrest =>
        cases h
        exact ⟨Bool.eq_false_iff.2 hrest, .inr ⟨l, op, us, r, hl, hr, rfl⟩⟩
  · rintro ⟨hrest, hl | ⟨l, op, ts₁, r, hl, hr, rfl⟩⟩
    · exact ⟨(n, rest), hl, compareTail_of_not hrest⟩
    · refine ⟨(l, .compare op :: ts₁), hl, ?_⟩
      rw [compareTail_of_compare]
      apply bind_eq_ok.2 ⟨(r, rest), hr, ?_⟩
      rw [hrest]
      rfl

theorem read_operand_constant {t : Token} {v : Value} (h : t.constant? = some v)
    (rest : List Token) : Level.operand.read (t :: rest) = .ok (.literal v, rest) := by
  cases t <;> cases h <;> rw [Level.read, parseOperand] <;> rfl

theorem read_operand_path (source : String) (rest : List Token) :
    Level.operand.read (.path source :: rest) =
      match Path.read source with
      | .ok p => .ok (.path p, rest)
      | .error e => .error (.invalidPath e) := by
  rw [Level.read, parseOperand, parsePath]
  cases Path.read source <;> rfl

theorem read_operand_paren (ts : List Token) :
    Level.operand.read (.openParen :: ts) =
      Level.or.read ts >>= fun x =>
        match x.2 with
        | .closeParen :: rest => .ok (x.1, rest)
        | _ => .error .missingParen := by
  rw [Level.read, Level.read, parseOperand]
  cases parseOr ts with
  | error e => rfl
  | ok x =>
    rcases x with ⟨inner, ⟨_ | ⟨t, us⟩, _⟩⟩
    · rfl
    · cases t <;> rfl

theorem read_operand_ok {ts rest : List Token} {n : Node} :
    Level.operand.read ts = .ok (n, rest) ↔
      (∃ t v, t.constant? = some v ∧ ts = t :: rest ∧ .literal v = n) ∨
      (∃ source p, Path.read source = .ok p ∧ ts = .path source :: rest ∧ .path p = n) ∨
      ∃ ts₁, ts = .openParen :: ts₁ ∧ Level.or.read ts₁ = .ok (n, .closeParen :: rest) := by
  constructor
  · intro h
    cases ts with
    | nil =>
      rw [Level.read, parseOperand] at h
      cases h
    | cons t us =>
      cases hconstant : t.constant? with
      | some v =>
        rw [read_operand_constant hconstant] at h
        cases h
        exact .inl ⟨t, v, hconstant, rfl, rfl⟩
      | none =>
        cases t with
        | path source =>
          rw [read_operand_path] at h
          split at h
          · next p hp =>
            cases h
            exact .inr (.inl ⟨source, p, hp, rfl, rfl⟩)
          · cases h
        | openParen =>
          rw [read_operand_paren] at h
          rcases bind_eq_ok.1 h with ⟨⟨inner, ts₁⟩, hinner, h⟩
          dsimp only at h
          split at h
          · cases h
            exact .inr (.inr ⟨us, rfl, hinner⟩)
          · cases h
        | null | true | false | number | text => contradiction
        | closeParen | and | or | not | plus | compare =>
          rw [Level.read, parseOperand] at h
          · cases h
          all_goals
            intros
            contradiction
  · rintro (⟨t, v, hv, rfl, rfl⟩ | ⟨source, p, hp, rfl, rfl⟩ | ⟨ts₁, rfl, h⟩)
    · exact read_operand_constant hv rest
    · rw [read_operand_path, hp]
    · rw [read_operand_paren]
      exact bind_eq_ok.2 ⟨_, h, rfl⟩

end DynamicSql.Expression

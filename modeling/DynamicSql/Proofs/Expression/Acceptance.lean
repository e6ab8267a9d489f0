import Mathlib
import DynamicSql.Expression.Evaluation
import DynamicSql.Proofs.Expression.Reading

/-!
The parser accepts exactly the grammar. What a reader takes is a phrase of its level, since the
tokens in parentheses are fewer than those around them (`soundUpTo_or`). In the other direction a
reader takes the whole of a phrase wherever the next token does not continue it (`Derives.read`).
-/

namespace DynamicSql.Expression

/-! What is read is a phrase -/

/-- Of at most `k` tokens, the reader of the level takes phrases of the level only. -/
def SoundUpTo (k : Nat) (level : Level) : Prop :=
  ∀ ts rest n, ts.length ≤ k → level.read ts = .ok (n, rest) →
    ∃ used, ts = used ++ rest ∧ Derives level used n

variable {k : Nat} {level : Level} {joint : Token} {ts rest : List Token} {n : Node}

theorem SoundUpTo.more (h : SoundUpTo k level) {ns : List Node}
    (hmore : ReadsMore joint level ts ns rest) (hts : ts.length ≤ k) :
    ∃ ps : List Phrase, ts = joinedBy joint ps ++ rest ∧ (∀ p ∈ ps, Derives level p.1 p.2) ∧
      ps.map Prod.snd = ns := by
  induction hmore with
  | stop _ => exact ⟨[], rfl, List.forall_mem_nil _, rfl⟩
  | @more ts ts₁ _ n ns hn _ ih =>
    rw [List.length_cons] at hts
    rcases h ts ts₁ n (Nat.le_of_succ_le hts) hn with ⟨used, rfl, hused⟩
    rw [List.length_append] at hts
    rcases ih (by omega) with ⟨ps, rfl, hps, rfl⟩
    refine ⟨(used, n) :: ps, ?_, ?_, rfl⟩
    · rw [joinedBy, joinedBy, List.flatMap_cons, List.cons_append, List.cons_append,
        List.append_assoc]
    · exact List.forall_mem_cons.2 ⟨hused, hps⟩

/-- A phrase, and what follows it for as long as the joint stands in front. -/
theorem SoundUpTo.repeated (h : SoundUpTo k level) {ts₁ : List Token} {ns : List Node}
    (hts : ts.length ≤ k) (hfirst : level.read ts = .ok (n, ts₁))
    (hmore : ReadsMore joint level ts₁ ns rest) :
    ∃ (first : List Token) (ps : List Phrase), ts = first ++ joinedBy joint ps ++ rest ∧
      Derives level first n ∧ (∀ p ∈ ps, Derives level p.1 p.2) ∧ ps.map Prod.snd = ns := by
  rcases h ts ts₁ n hts hfirst with ⟨first, rfl, hn⟩
  rw [List.length_append] at hts
  rcases h.more hmore (by omega) with ⟨ps, rfl, hps, hns⟩
  exact ⟨first, ps, (List.append_assoc first _ rest).symm, hn, hps, hns⟩

theorem soundUpTo_operand (h : ∀ j < k, SoundUpTo j .or) : SoundUpTo k .operand := by
  intro ts rest n hts hread
  rcases read_operand_ok.1 hread with
    ⟨t, v, hv, rfl, rfl⟩ | ⟨source, p, hp, rfl, rfl⟩ | ⟨ts₁, rfl, hor⟩
  · exact ⟨[t], rfl, .constant hv⟩
  · exact ⟨[.path source], rfl, .path hp⟩
  · rcases h ts₁.length hts ts₁ _ n (Nat.le_refl _) hor with ⟨used, rfl, hused⟩
    refine ⟨.openParen :: used ++ [.closeParen], ?_, .parens hused⟩
    rw [List.append_assoc, List.cons_append, List.singleton_append]

theorem soundUpTo_concat (h : SoundUpTo k .operand) : SoundUpTo k .concat := by
  intro ts rest n hts hread
  rcases read_concat_ok.1 hread with ⟨first, ts₁, ns, hfirst, hmore, rfl⟩
  rcases h.repeated hts hfirst hmore with ⟨us, ps, rfl, hus, hps, rfl⟩
  exact ⟨_, rfl, .concat hus hps⟩

theorem soundUpTo_compare (h : SoundUpTo k .concat) : SoundUpTo k .compare := by
  intro ts rest n hts hread
  rcases read_compare_ok.1 hread with ⟨_, hn | ⟨l, op, ts₁, r, hl, hr, rfl⟩⟩
  · rcases h ts rest n hts hn with ⟨used, rfl, hused⟩
    exact ⟨used, rfl, .uncompared hused⟩
  · rcases h ts _ l hts hl with ⟨left, rfl, hleft⟩
    rw [List.length_append, List.length_cons] at hts
    rcases h ts₁ rest r (by omega) hr with ⟨right, rfl, hright⟩
    refine ⟨left ++ .compare op :: right, ?_, .compare op hleft hright⟩
    rw [List.append_assoc, List.cons_append]

theorem soundUpTo_not (h : SoundUpTo k .compare) : SoundUpTo k .not := by
  intro ts rest n hts hread
  induction ts generalizing n with
  | nil =>
    exact absurd (Level.read_length hread) (Nat.not_lt_zero _)
  | cons t us ih =>
    by_cases ht : t = .not
    · subst ht
      rw [read_not_of_not] at hread
      cases hus : Level.not.read us with
      | error e =>
        rw [hus] at hread
        cases hread
      | ok x =>
        rw [hus] at hread
        cases hread
        rcases ih x.1 (Nat.le_of_succ_le hts) hus with ⟨used, rfl, hused⟩
        exact ⟨.not :: used, rfl, .not hused⟩
    · have hhead : (t :: us).head? ≠ some .not := fun hhead => ht (Option.some.inj hhead)
      rw [read_not_of_ne hhead] at hread
      rcases h _ rest n hts hread with ⟨used, hused, hn⟩
      exact ⟨used, hused, .affirmed hn⟩

theorem soundUpTo_and (h : SoundUpTo k .not) : SoundUpTo k .and := by
  intro ts rest n hts hread
  rcases read_and_ok.1 hread with ⟨first, ts₁, ns, hfirst, hmore, rfl⟩
  rcases h.repeated hts hfirst hmore with ⟨us, ps, rfl, hus, hps, rfl⟩
  exact ⟨_, rfl, .and hus hps⟩

theorem soundUpTo_or (k : Nat) : SoundUpTo k .or := by
  induction k using Nat.strongRecOn with
  | ind k ih =>
    have hand := soundUpTo_and (soundUpTo_not (soundUpTo_compare (soundUpTo_concat
      (soundUpTo_operand ih))))
    intro ts rest n hts hread
    rcases read_or_ok.1 hread with ⟨first, ts₁, ns, hfirst, hmore, rfl⟩
    rcases hand.repeated hts hfirst hmore with ⟨us, ps, rfl, hus, hps, rfl⟩
    exact ⟨_, rfl, .or hus hps⟩

/-! A phrase is read as far as it reaches -/

def Level.rank : Level → Nat
  | .operand => 0
  | .concat => 1
  | .compare => 2
  | .not => 3
  | .and => 4
  | .or => 5

/-- The rank of the tightest level that a token joins phrases of. -/
def Token.joins? : Token → Option Nat
  | .plus => some 1
  | .compare _ => some 2
  | .and => some 4
  | .or => some 5
  | _ => none

/-- The next token does not continue a phrase of the level. -/
def Ends (level : Level) (rest : List Token) : Prop :=
  ∀ t ∈ rest.head?, ∀ rank ∈ t.joins?, level.rank < rank

theorem Ends.tighter {tight : Level} (h : Ends level rest) (hrank : tight.rank ≤ level.rank) :
    Ends tight rest :=
  fun t ht rank hr => Nat.lt_of_le_of_lt hrank (h t ht rank hr)

theorem Ends.joined (h : Ends level rest) (hjoint : ∀ rank ∈ joint.joins?, level.rank < rank)
    (ps : List Phrase) : Ends level (joinedBy joint ps ++ rest) := by
  cases ps with
  | nil => exact h
  | cons p ps =>
    intro t ht
    cases ht
    exact hjoint

theorem Ends.head?_ne (h : Ends level rest) (hjoint : joint.joins? = some level.rank) :
    rest.head? ≠ some joint :=
  fun hhead => Nat.lt_irrefl _ (h joint hhead _ hjoint)

theorem Ends.startsComparison_eq_false (h : Ends .compare rest) :
    startsComparison rest = false := by
  rw [Bool.eq_false_iff]
  intro hstarts
  rcases exists_of_startsComparison hstarts with ⟨op, us, rfl⟩
  exact h.head?_ne rfl rfl

theorem readsMore_joinedBy {ps : List Phrase}
    (h : ∀ p ∈ ps, ∀ rest, Ends level rest → level.read (p.1 ++ rest) = .ok (p.2, rest))
    (hjoint : ∀ rank ∈ joint.joins?, level.rank < rank) (hrest : Ends level rest)
    (hstop : rest.head? ≠ some joint) :
    ReadsMore joint level (joinedBy joint ps ++ rest) (ps.map Prod.snd) rest := by
  induction ps with
  | nil => exact .stop hstop
  | cons p ps ih =>
    have htail := ih fun q hq => h q (List.mem_cons_of_mem p hq)
    have hp := h p List.mem_cons_self _ (hrest.joined hjoint ps)
    rw [joinedBy, List.flatMap_cons, List.append_assoc, List.cons_append]
    exact .more hp htail

/-- Only `not` itself starts with this token. -/
theorem head?_ne_not {x : Node × List Token} (h : Level.compare.read ts = .ok x) :
    ts.head? ≠ some .not := by
  have hconcat (m : Node) (us : List Token) (hm : Level.concat.read ts = .ok (m, us)) :
      ts.head? ≠ some .not := by
    rcases read_concat_ok.1 hm with ⟨first, ts₁, _, hfirst, _, _⟩
    rcases read_operand_ok.1 hfirst with ⟨t, v, hv, rfl, _⟩ | ⟨_, _, _, rfl, _⟩ | ⟨_, rfl, _⟩
    · intro ht
      cases ht
      cases hv
    · intro ht
      cases ht
    · intro ht
      cases ht
  rcases read_compare_ok.1 h with ⟨_, hn | ⟨l, op, ts₁, _, hl, _⟩⟩
  · exact hconcat _ _ hn
  · exact hconcat _ _ hl

theorem Derives.read (h : Derives level ts n) :
    ∀ rest, Ends level rest → level.read (ts ++ rest) = .ok (n, rest) := by
  induction h with
  | @or us m ps _ _ ihfirst ihmore =>
    intro rest hrest
    have hand : Ends .and rest := hrest.tighter (by decide)
    rw [List.append_assoc]
    apply read_or_ok.2 ⟨m, joinedBy .or ps ++ rest, ps.map Prod.snd, ?_, ?_, rfl⟩
    · exact ihfirst _ (hand.joined (by decide) ps)
    · exact readsMore_joinedBy ihmore (by decide) hand (hrest.head?_ne rfl)
  | @and us m ps _ _ ihfirst ihmore =>
    intro rest hrest
    have hnot : Ends .not rest := hrest.tighter (by decide)
    rw [List.append_assoc]
    apply read_and_ok.2 ⟨m, joinedBy .and ps ++ rest, ps.map Prod.snd, ?_, ?_, rfl⟩
    · exact ihfirst _ (hnot.joined (by decide) ps)
    · exact readsMore_joinedBy ihmore (by decide) hnot (hrest.head?_ne rfl)
  | @not us m _ ih =>
    intro rest hrest
    rw [List.cons_append, read_not_of_not, ih rest hrest]
    rfl
  | affirmed _ ih =>
    intro rest hrest
    have hread := ih rest (hrest.tighter (by decide))
    rw [read_not_of_ne (head?_ne_not hread), hread]
  | @compare us vs l r op _ _ ihl ihr =>
    intro rest hrest
    rw [List.append_assoc]
    have hl := ihl (.compare op :: vs ++ rest) fun t ht rank hrank => by
      cases ht
      cases hrank
      decide
    have hr := ihr rest (hrest.tighter (by decide))
    exact read_compare_ok.2
      ⟨hrest.startsComparison_eq_false, .inr ⟨l, op, vs ++ rest, r, hl, hr, rfl⟩⟩
  | uncompared _ ih =>
    intro rest hrest
    have hread := ih rest (hrest.tighter (by decide))
    exact read_compare_ok.2 ⟨hrest.startsComparison_eq_false, .inl hread⟩
  | @concat us m ps _ _ ihfirst ihmore =>
    intro rest hrest
    have hoperand : Ends .operand rest := hrest.tighter (by decide)
    rw [List.append_assoc]
    apply read_concat_ok.2 ⟨m, joinedBy .plus ps ++ rest, ps.map Prod.snd, ?_, ?_, rfl⟩
    · exact ihfirst _ (hoperand.joined (by decide) ps)
    · exact readsMore_joinedBy ihmore (by decide) hoperand (hrest.head?_ne rfl)
  | @constant t v hv =>
    intro rest _
    exact read_operand_ok.2 (.inl ⟨t, v, hv, rfl, rfl⟩)
  | @path source p hp =>
    intro rest _
    exact read_operand_ok.2 (.inr (.inl ⟨source, p, hp, rfl, rfl⟩))
  | @parens us m _ ih =>
    intro rest _
    have hclose : Ends .or (.closeParen :: rest) := by
      intro t ht rank hrank
      cases ht
      cases hrank
    rw [List.cons_append, List.cons_append, List.append_assoc, List.singleton_append]
    exact read_operand_ok.2 (.inr (.inr ⟨_, rfl, ih _ hclose⟩))

theorem parseTokens_eq_ok : parseTokens ts = .ok n ↔ Level.or.read ts = .ok (n, []) := by
  rw [parseTokens, Level.read]
  cases parseOr ts with
  | error e => constructor <;> rintro ⟨⟩
  | ok x =>
    rcases x with ⟨m, ⟨_ | ⟨t, us⟩, h⟩⟩
    · constructor <;> rintro ⟨⟩ <;> rfl
    · constructor <;> rintro ⟨⟩

/-- Tokens make an expression exactly if they are a phrase of the grammar, and then the node is the
one of that phrase. All other tokens are refused: an expression with these tokens is not read, and
evaluating its text is a parse error. -/
theorem parseTokens_iff_derives (ts : List Token) :
    (∀ n, parseTokens ts = .ok n ↔ Derives .or ts n) ∧
    ((∀ n, ¬Derives .or ts n) →
      ∃ fault, parseTokens ts = .error fault ∧
        ∀ source, tokens false source.toList = .ok ts →
          Expression.read source = .error ⟨source, fault⟩ ∧
          ∀ c, evaluate source c = .error (.parse ⟨source, fault⟩)) := by
  have haccepted (n : Node) : parseTokens ts = .ok n ↔ Derives .or ts n := by
    rw [parseTokens_eq_ok]
    constructor
    · intro h
      rcases soundUpTo_or ts.length ts [] n (Nat.le_refl _) h with ⟨used, rfl, hused⟩
      rw [List.append_nil]
      exact hused
    · intro h
      have hends : Ends .or [] := by
        intro t ht
        cases ht
      have hread := h.read [] hends
      rw [List.append_nil] at hread
      exact hread
  refine ⟨haccepted, ?_⟩
  intro hnone
  cases hparse : parseTokens ts with
  | ok n => exact absurd ((haccepted n).1 hparse) (hnone n)
  | error fault =>
    refine ⟨fault, rfl, ?_⟩
    intro source htokens
    have hread : Expression.read source = .error ⟨source, fault⟩ := by
      have hall : (tokens false source.toList >>= parseTokens) = .error fault := by
        rw [htokens]
        exact hparse
      rw [Expression.read, hall]
    refine ⟨hread, ?_⟩
    intro c
    rw [evaluate, hread]

/-- A comparison of a comparison is no phrase. -/
theorem parseTokens_chained :
    let ts : List Token := [.path "a", .compare .lt, .path "b", .compare .lt, .path "c"]
    (∀ n, ¬Derives .or ts n) ∧
      ∃ fault, parseTokens ts = .error fault ∧ tokens false "a < b < c".toList = .ok ts ∧
        Expression.read "a < b < c" = .error ⟨"a < b < c", fault⟩ := by
  intro ts
  have hnone (n : Node) : ¬Derives .or ts n := by
    rw [← (parseTokens_iff_derives ts).1 n, show parseTokens ts = .error .chainedComparison by cbv]
    rintro ⟨⟩
  rcases (parseTokens_iff_derives ts).2 hnone with ⟨fault, hfault, hread⟩
  have htokens : tokens false "a < b < c".toList = .ok ts := by cbv
  exact ⟨hnone, fault, hfault, htokens, (hread _ htokens).1⟩

end DynamicSql.Expression

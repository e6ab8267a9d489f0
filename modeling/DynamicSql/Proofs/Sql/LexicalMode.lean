import DynamicSql.Proofs.Sql.LiteralForm
import DynamicSql.Proofs.Template.Execution

/-!
What a scanner of SQL text makes of a literal. The scanner knows quoted strings and comments of
two dashes, and no backslash escapes, so it is the scanner of the flavors without them. A literal
leaves it in the normal mode again, with one exception: a dash at the end of the template text and
the minus of a negative number together open a comment.
-/

namespace DynamicSql

inductive LexicalMode where
  | normal
  | quoted
  | comment
  deriving DecidableEq, Repr

namespace LexicalMode

/-- The mode behind a text. A doubled quote does not end a string, and a comment ends with its
line. -/
def scan : LexicalMode → List Char → LexicalMode
  | .normal, '\'' :: cs => scan .quoted cs
  | .normal, '-' :: '-' :: cs => scan .comment cs
  | .quoted, '\'' :: '\'' :: cs => scan .quoted cs
  | .quoted, '\'' :: cs => scan .normal cs
  | .comment, '\n' :: cs => scan .normal cs
  | m, _ :: cs => scan m cs
  | m, [] => m

/-- A quote in a string may be read as its end: if it was doubled, the next one opens the string
again. -/
theorem scan_quoted_quote (cs : List Char) : scan .quoted ('\'' :: cs) = scan .normal cs := by
  cases cs with
  | nil => rfl
  | cons c cs =>
    by_cases hc : c = '\''
    · subst hc
      rfl
    · rw [scan]
      intro r e
      injection e with e _
      contradiction

@[simp] theorem scan_nil (m : LexicalMode) : scan m [] = m := by
  cases m <;> rfl

/-- A character that opens or ends nothing in a mode is skipped. -/
theorem scan_skip (m : LexicalMode) (c : Char) (cs : List Char)
    (hq : m ≠ .comment → c ≠ '\'') (hm : m = .normal → c = '-' → cs.head? ≠ some '-')
    (hn : m = .comment → c ≠ '\n') : scan m (c :: cs) = scan m cs := by
  rw [scan]
  · intro h
    exact hq (by simp [h])
  · intro r h hc hr
    exact hm h hc (congrArg List.head? hr)
  · intro r h hc _
    exact hq (by simp [h]) hc
  · intro h
    exact hq (by simp [h])
  · exact hn

/-- The dash at the end of a text that is left in the normal mode may be the first half of the
mark of a comment. -/
def pending (m : LexicalMode) (t : List Char) : List Char :=
  if m = .normal ∧ t.getLast? = some '-' then ['-'] else []

theorem pending_cons_of_ne (m : LexicalMode) {c : Char} (t : List Char) (hc : c ≠ '-') :
    pending m (c :: t) = pending m t := by
  cases t with
  | nil => simp [pending, hc]
  | cons d t => simp [pending]

theorem pending_cons_cons (m : LexicalMode) (c d : Char) (t : List Char) :
    pending m (c :: d :: t) = pending m (d :: t) := by
  simp [pending]

/-- A text may be scanned in two parts, if a dash at the cut is scanned with both of them. -/
theorem scan_append (m : LexicalMode) (t u : List Char) :
    scan m (t ++ u) = scan (scan m t) (pending (scan m t) t ++ u) := by
  fun_induction scan m t with
  | case1 cs ih =>
    rw [pending_cons_of_ne _ _ (by decide), ← ih]
    rfl
  | case2 cs ih =>
    cases cs with
    | nil => rfl
    | cons c cs =>
      rw [pending_cons_cons, pending_cons_cons, ← ih]
      rfl
  | case3 cs ih =>
    rw [pending_cons_of_ne _ _ (by decide), pending_cons_of_ne _ _ (by decide), ← ih]
    rfl
  | case4 cs _ ih =>
    rw [pending_cons_of_ne _ _ (by decide), ← ih]
    exact scan_quoted_quote (cs ++ u)
  | case5 cs ih =>
    rw [pending_cons_of_ne _ _ (by decide), ← ih]
    rfl
  | case6 m c cs hopen hdashes _ hclose hline ih =>
    have hq : m ≠ .comment → c ≠ '\'' := by
      intro hm hc
      cases m with
      | normal => exact hopen rfl hc
      | quoted => exact hclose rfl hc
      | comment => exact hm rfl
    cases cs with
    | nil =>
      by_cases hdash : m = .normal ∧ c = '-'
      · rw [hdash.1, hdash.2]
        rfl
      · have hnone : pending m [c] = [] := by simpa [pending] using hdash
        rw [scan_nil, hnone]
        exact scan_skip m c u hq (fun hm hc => absurd ⟨hm, hc⟩ hdash) hline
    | cons d cs =>
      rw [pending_cons_cons, ← ih]
      refine scan_skip m c (d :: cs ++ u) hq ?_ hline
      intro hm hc hd
      injection hd with hd
      exact hdashes cs hm hc (by rw [hd])
  | case7 m => simp [pending]

theorem scan_plain (m : LexicalMode) {cs : List Char} (h : ∀ c ∈ cs, c ∈ Decimal.plainChars) :
    scan m cs = m := by
  induction cs with
  | nil => exact scan_nil m
  | cons c cs ih =>
    have hplain : (Decimal.plainChars.all fun c => c != '\'' && c != '-' && c != '\n') = true := by
      decide
    have hc := List.all_eq_true.1 hplain c (h c List.mem_cons_self)
    simp only [Bool.and_eq_true, bne_iff_ne] at hc
    rw [scan_skip m c cs (fun _ => hc.1.1) (fun _ e => absurd e hc.1.2) fun _ => hc.2]
    exact ih fun d hd => h d (List.mem_cons_of_mem c hd)

theorem scan_quoted_doubledChar (f : Flavor) (c : Char) (cs : List Char) :
    scan .quoted (doubledChar f c ++ cs) = scan .quoted cs := by
  have hskip : ∀ d ds, d ≠ '\'' → scan .quoted (d :: ds) = scan .quoted ds := by
    intro d ds hd
    exact scan_skip .quoted d ds (fun _ => hd) (fun h => nomatch h) fun h => nomatch h
  unfold doubledChar
  split
  · rfl
  · next hc =>
    split
    · exact (hskip '\\' _ (by decide)).trans (hskip '\\' _ (by decide))
    · exact hskip c cs hc

theorem scan_quoted_flatMap (f : Flavor) (s cs : List Char) :
    scan .quoted (s.flatMap (doubledChar f) ++ cs) = scan .quoted cs := by
  induction s with
  | nil => rfl
  | cons c s ih =>
    rw [List.flatMap_cons, List.append_assoc, scan_quoted_doubledChar, ih]

end LexicalMode

/-- A number whose text begins with a minus. -/
def Value.isSigned : Value → Bool
  | .number n => n.text.toList.head? == some '-'
  | _ => false

namespace LexicalMode

theorem scan_dash_plain {ds : List Char} (h : Decimal.IsPlain ds) :
    scan .normal ('-' :: ds) = .normal := by
  have hhead : ds.head? ≠ some '-' := by
    intro hd
    exact absurd (h.2 '-' (List.mem_of_mem_head? hd)) (by decide)
  rw [scan_skip .normal '-' ds (fun _ => by decide) (fun _ _ => hhead) (fun h => nomatch h)]
  exact scan_plain .normal h.2

theorem isSigned_number {n : Number} {negative : Bool} {ds : List Char}
    (htext : n.text.toList = Decimal.signed negative ds) (hds : Decimal.IsPlain ds) :
    (Value.number n).isSigned = negative := by
  simp only [Value.isSigned, htext]
  cases negative with
  | true => rfl
  | false =>
    cases ds with
    | nil => exact absurd rfl hds.1
    | cons c ds =>
      have hc : c ≠ '-' := by
        rintro rfl
        exact absurd (hds.2 '-' List.mem_cons_self) (by decide)
      simpa [Decimal.signed] using hc

/-- A literal behind a text in the normal mode. The dash at the end of that text is scanned with
the literal. -/
theorem scan_literal {f : Flavor} {v : Value} {l : List Char}
    (h : Options.LiteralForm ⟨f, .doubled⟩ v l) (dash : List Char)
    (hdash : dash = [] ∨ dash = ['-']) :
    scan .normal (dash ++ l) = if dash = ['-'] ∧ v.isSigned = true then .comment else .normal := by
  cases h with
  | null => rcases hdash with rfl | rfl <;> rfl
  | truth b => rcases hdash with rfl | rfl <;> cases f <;> cases b <;> rfl
  | number n negative ds htext hds =>
    rw [isSigned_number htext hds]
    cases negative with
    | true =>
      rcases hdash with rfl | rfl
      · exact scan_dash_plain hds
      · exact scan_plain .comment hds.2
    | false =>
      rcases hdash with rfl | rfl
      · exact scan_plain .normal hds.2
      · exact scan_dash_plain hds
  | string s =>
    have hbody : scan .quoted (s.toList.flatMap (doubledChar f) ++ ['\'']) = .normal := by
      rw [scan_quoted_flatMap]
      rfl
    rw [if_neg (by simp [Value.isSigned])]
    rcases hdash with rfl | rfl <;> cases f <;> exact hbody

/-- The mode behind a static text and the literal of a bound value: a comment if the text ends in
a dash and the value is a number with a minus, and else the normal mode again. -/
theorem scan_text_placeholder (f : Flavor) (t : String) (ht : scan .normal t.toList = .normal)
    (c : Context) (p : Path) (v : Value) (hv : c.resolve p = .ok v) (l : String)
    (hl : (Options.mk f .doubled).literal v = .ok l) :
    ∃ r, ((Fragment.seq [.text t, .placeholder p]).renderUnder ⟨f, .doubled⟩ c).1 = .ok r ∧
      r.sql = t ++ l ∧
      scan .normal r.sql.toList =
        if t.toList.getLast? = some '-' ∧ v.isSigned = true then .comment else .normal := by
  have hpending : pending .normal t.toList = [] ∨ pending .normal t.toList = ['-'] := by
    unfold pending
    split
    · exact Or.inr rfl
    · exact Or.inl rfl
  refine ⟨⟨t ++ l, t ++ f.placeholder 1, [v]⟩, ?_, rfl, ?_⟩
  · simp only [Fragment.renderUnder_eq, Fragment.render, Fragment.renderAll, exec_bind,
      exec_pure, Render.exec_placeholder, hv, hl]
    change Except.ok (Rendered.mk (t ++ (l ++ "")) (t ++ (f.placeholder 1 ++ "")) [v]) = _
    rw [String.append_empty, String.append_empty]
  · rw [String.toList_append, scan_append, ht, scan_literal (Options.literal_form hl) _ hpending]
    simp [pending]

/-- Where a negative number is subtracted, the rest of the line becomes a comment. -/
theorem scan_subtract_negative :
    scan .normal "SELECT 5 -".toList = .normal ∧
      ∃ r, ((Fragment.seq [.text "SELECT 5 -", .placeholder (.single "v")]).renderUnder
          ⟨.sqlite, .doubled⟩ (.ofRoot (.map [("v", .number (.int (-1)))]))).1 = .ok r ∧
        r.sql = "SELECT 5 --1" ∧ scan .normal r.sql.toList = .comment :=
  ⟨by decide, ⟨"SELECT 5 --1", "SELECT 5 -?", [.number (.int (-1))]⟩, by rfl, rfl, by decide⟩

/-- A space in front of the marker keeps the two minus signs apart. -/
theorem scan_subtract_spaced :
    scan .normal "SELECT 5 - ".toList = .normal ∧
      ∃ r, ((Fragment.seq [.text "SELECT 5 - ", .placeholder (.single "v")]).renderUnder
          ⟨.sqlite, .doubled⟩ (.ofRoot (.map [("v", .number (.int (-1)))]))).1 = .ok r ∧
        r.sql = "SELECT 5 - " ++ "-1" ∧
        scan .normal r.sql.toList =
          if "SELECT 5 - ".toList.getLast? = some '-' ∧
            (Value.number (.int (-1))).isSigned = true then .comment else .normal :=
  ⟨by decide, scan_text_placeholder .sqlite "SELECT 5 - " (by decide) _ (.single "v")
    (.number (.int (-1))) rfl "-1" rfl⟩

end LexicalMode

end DynamicSql

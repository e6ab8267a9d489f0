import DynamicSql.Proofs.Effects
import DynamicSql.Template.Body

/-!
A text has other fragments than the texts that begin with it (`eq_empty_of_textFragments_append`). The
parts of a text get wider with every character behind it: a marker counts as wide as its shortest
opening.
-/

namespace DynamicSql

namespace TextPart

def width : TextPart → Nat
  | .text cs => cs.length
  | .marker _ _ => 2
  | .unclosed _ => 2

def totalWidth : List TextPart → Nat
  | [] => 0
  | p :: ps => p.width + totalWidth ps

@[simp] theorem totalWidth_cons (p : TextPart) (ps : List TextPart) :
    totalWidth (p :: ps) = p.width + totalWidth ps := rfl

@[simp] theorem totalWidth_cons_char (c : Char) (ps : List TextPart) :
    totalWidth (cons c ps) = totalWidth ps + 1 := by
  unfold cons
  split
  · simp [width]
    omega
  · simp [width]
    omega

/-- Whether every marker has a closing brace. -/
def AreClosed (ps : List TextPart) : Prop :=
  ∀ mark, .unclosed mark ∉ ps

theorem areClosed_cons_char {c : Char} {ps : List TextPart} (h : AreClosed (cons c ps)) :
    AreClosed ps := by
  intro mark hmark
  apply h mark
  unfold cons
  split
  · next cs ps =>
    obtain heq | hmem := List.mem_cons.1 hmark
    · cases heq
    · exact List.mem_cons_of_mem _ hmem
  · exact List.mem_cons_of_mem _ hmark

/-! One equation for each way in which a text goes on -/

section Steps

variable {quote : Option Char} {c : Char} {r : List Char}

theorem ofChars_escape (h : c = '\\' ∧ quote.isSome) (e : Char) (r : List Char) :
    ofChars quote (c :: e :: r) = cons c (cons e (ofChars quote r)) := by
  rw [ofChars, if_pos h]

theorem ofChars_quote (hescape : ¬(c = '\\' ∧ quote.isSome)) (hquote : isQuote c = true) :
    ofChars quote (c :: r) = cons c (ofChars (afterQuote quote c) r) := by
  rw [ofChars.eq_def]
  dsimp only
  rw [if_neg hescape, if_pos hquote]

theorem ofChars_plain (hescape : ¬(c = '\\' ∧ quote.isSome)) (hquote : ¬isQuote c = true)
    (hmark : mark? quote c r = none) : ofChars quote (c :: r) = cons c (ofChars quote r) := by
  rw [ofChars.eq_def]
  dsimp only
  rw [if_neg hescape, if_neg hquote]
  split
  · rfl
  · next h =>
    rw [hmark] at h
    cases h

/-- A marker, up to its closing brace. -/
theorem ofChars_marker (hescape : ¬(c = '\\' ∧ quote.isSome)) (hquote : ¬isQuote c = true)
    {mark : Mark} {body : List Char} (hmark : mark? quote c r = some (mark, body)) :
    ofChars quote (c :: r) =
      match body.dropWhile (· != '}') with
      | [] => [.unclosed mark]
      | _ :: rest => .marker mark (body.takeWhile (· != '}')) :: ofChars none rest := by
  rw [ofChars.eq_def]
  dsimp only
  rw [if_neg hescape, if_neg hquote]
  split
  · next h =>
    rw [hmark] at h
    cases h
  · next h =>
    rw [hmark] at h
    cases h
    split
    · next hbody => rw [hbody]
    · next hbody => rw [hbody]

theorem totalWidth_ofChars_pos (quote : Option Char) (c : Char) (r : List Char) :
    0 < totalWidth (ofChars quote (c :: r)) := by
  generalize hcs : c :: r = cs
  fun_cases ofChars quote cs with
  | case1 => cases hcs
  | case2 | case3 | case4 | case5 | case6 => simp [width, totalWidth]
  | case7 =>
    rw [totalWidth_cons, width]
    omega

theorem two_le_totalWidth (hescape : ¬(c = '\\' ∧ quote.isSome)) (hquote : ¬isQuote c = true)
    {mark : Mark} {body : List Char} (hmark : mark? quote c r = some (mark, body)) :
    2 ≤ totalWidth (ofChars quote (c :: r)) := by
  rw [ofChars_marker hescape hquote hmark]
  split <;> simp [width]

/-- Whether a marker starts is seen from the next character. -/
theorem mark?_append {body : List Char} {mark : Mark} (h : mark? quote c r = some (mark, body))
    (ds : List Char) : mark? quote c (r ++ ds) = some (mark, body ++ ds) := by
  unfold mark? at h
  split at h
  · cases h
    rfl
  · cases h
    rfl
  · cases h

theorem mark?_append_none {d : Char} (h : mark? quote c (d :: r) = none) (ds : List Char) :
    mark? quote c (d :: r ++ ds) = none := by
  unfold mark?
  split
  · next heq =>
    cases heq
    cases h
  · next heq =>
    cases heq
    cases h
  · rfl

end Steps

theorem totalWidth_ofChars_lt (quote : Option Char) (cs ds : List Char) (hds : ds ≠ [])
    (hclosed : AreClosed (ofChars quote cs)) :
    totalWidth (ofChars quote cs) < totalWidth (ofChars quote (cs ++ ds)) := by
  obtain ⟨d, ds', hd⟩ := List.exists_cons_of_ne_nil hds
  fun_induction ofChars quote cs with
  | case1 quote =>
    rw [hd]
    exact totalWidth_ofChars_pos quote d ds'
  | case2 quote c hescape =>
    rw [hd, List.cons_append, List.nil_append, ofChars_escape hescape]
    simp [width, totalWidth]
  | case3 quote c hescape e r ih =>
    have hlt := ih (areClosed_cons_char (areClosed_cons_char hclosed))
    rw [List.cons_append, List.cons_append, ofChars_escape hescape]
    simpa using hlt
  | case4 quote c r hescape hquote ih =>
    have hlt := ih (areClosed_cons_char hclosed)
    rw [List.cons_append, ofChars_quote hescape hquote]
    simpa using hlt
  | case5 quote c r hescape hquote hmark ih =>
    have hlt := ih (areClosed_cons_char hclosed)
    rw [List.cons_append, totalWidth_cons_char]
    cases hmark' : mark? quote c (r ++ ds) with
    | none =>
      rw [ofChars_plain hescape hquote hmark', totalWidth_cons_char]
      exact Nat.succ_lt_succ hlt
    | some p =>
      -- Only at the end of the first text can what follows open a marker.
      cases r with
      | nil =>
        rw [ofChars]
        exact two_le_totalWidth hescape hquote hmark'
      | cons e r =>
        rw [mark?_append_none hmark] at hmark'
        cases hmark'
  | case6 quote c r hescape hquote mark body hmark hbody =>
    exact absurd List.mem_cons_self (hclosed mark)
  | case7 quote c r hescape hquote mark body hmark brace rest hbody ih =>
    have hrest : AreClosed (ofChars none rest) := fun m hm =>
      hclosed m (List.mem_cons_of_mem _ hm)
    have hlt := ih hrest
    have hbody' : (body ++ ds).dropWhile (· != '}') = brace :: (rest ++ ds) := by
      rw [List.dropWhile_append, hbody]
      rfl
    rw [List.cons_append, ofChars_marker hescape hquote (mark?_append hmark ds), hbody']
    simpa [width] using hlt

end TextPart

namespace Fragment

/-- How wide the parts of texts are from which such a fragment comes. -/
def width : Fragment → Nat
  | .text s => s.toList.length
  | _ => 2

def totalWidth : List Fragment → Nat
  | [] => 0
  | f :: fs => f.width + totalWidth fs

end Fragment

theorem TextPart.fragment_eq_ok {source : String} {p : TextPart} {f : Fragment}
    (h : p.fragment source = .ok f) : f.width = p.width ∧ ∀ mark, p ≠ .unclosed mark := by
  cases p with
  | text cs =>
    cases h
    exact ⟨congrArg List.length String.toList_ofList, nofun⟩
  | unclosed mark => cases h
  | marker mark content =>
    rw [TextPart.fragment] at h
    split at h
    · cases h
    · cases mark with
      | bound =>
        cases h
        exact ⟨rfl, nofun⟩
      | raw =>
        cases h
        exact ⟨rfl, nofun⟩

theorem width_of_fragments {source : String} {ps : List TextPart} {fs : List Fragment}
    (h : ps.mapM (TextPart.fragment source) = .ok fs) :
    TextPart.AreClosed ps ∧ Fragment.totalWidth fs = TextPart.totalWidth ps := by
  induction ps generalizing fs with
  | nil =>
    cases h
    exact ⟨nofun, rfl⟩
  | cons p ps ih =>
    rw [List.mapM_cons] at h
    obtain ⟨f, hf, h⟩ := bind_eq_ok.1 h
    obtain ⟨gs, hgs, h⟩ := bind_eq_ok.1 h
    cases h
    obtain ⟨hwidth, hclosed⟩ := TextPart.fragment_eq_ok hf
    obtain ⟨hall, hsum⟩ := ih hgs
    refine ⟨?_, ?_⟩
    · intro mark hmark
      obtain heq | hmem := List.mem_cons.1 hmark
      · exact hclosed mark heq.symm
      · exact hall mark hmem
    · rw [Fragment.totalWidth, TextPart.totalWidth, hwidth, hsum]

/-- A text that begins with another and has the same fragments is the same text. -/
theorem eq_empty_of_textFragments_append {s t : String} {fs : List Fragment}
    (hs : textFragments s = .ok fs) (ht : textFragments (s ++ t) = .ok fs) : t = "" := by
  refine Classical.byContradiction fun hne => ?_
  obtain ⟨hclosed, hwidth⟩ := width_of_fragments hs
  obtain ⟨_, hwidth'⟩ := width_of_fragments ht
  rw [String.toList_append] at hwidth'
  have hlt := TextPart.totalWidth_ofChars_lt none s.toList t.toList (by simpa using hne) hclosed
  omega

end DynamicSql

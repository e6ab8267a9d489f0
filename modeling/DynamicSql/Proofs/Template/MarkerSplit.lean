import DynamicSql.Proofs.Template.QuotedRuns
import DynamicSql.Proofs.Text.Blank
import Mathlib.Data.List.Forall2

/-!
Texts as static parts with markers between them. Every text is split in this way up to its end or up
to the first marker that is no good (`exists_outcome`), and its fragments, or the error, are those
of the split (`textFragments_split`).
-/

namespace DynamicSql

/-- A marker with what stands in its braces, and the static text behind it. -/
structure Marked where
  mark : Mark
  content : List Char
  behind : List Char

/-- The path of a marker stands in front of the first comma. -/
def markerPath (content : List Char) : Except PathError Path :=
  Path.read (String.ofList (content.takeWhile (· != ',')))

def Mark.fragment : Mark → Path → Fragment
  | .bound, p => .placeholder p
  | .raw, p => .raw p

namespace Marked

def written (m : Marked) : List Char :=
  m.mark.opening.toList ++ (m.content ++ '}' :: m.behind)

/-- The text that begins with static text and goes on with markers. -/
def whole (front : List Char) (ms : List Marked) : List Char :=
  front ++ ms.flatMap written

/-- The same text without its markers. -/
def static (front : List Char) (ms : List Marked) : List Char :=
  front ++ ms.flatMap behind

/-- Every marker starts outside of quotes and ends with the first brace, and no other marker starts
in the static parts. Quotes are those of the static parts, read one after the other. -/
def IsSplit (s : QuoteState) (front : List Char) : List Marked → Prop
  | [] => IsUnmarked s front
  | m :: ms =>
    IsUnmarked s front ∧ s.after front = .outside ∧ '}' ∉ m.content ∧
      IsSplit (s.after front) m.behind ms

/-- The paths of the markers, in order. -/
def HavePaths (ms : List Marked) (ps : List Path) : Prop :=
  List.Forall₂ (fun m p => markerPath m.content = .ok p) ms ps

/-- A static part is one fragment, unless it is empty. -/
def staticFragments : List Char → List Fragment
  | [] => []
  | c :: cs => [.text (String.ofList (c :: cs))]

def fragments (front : List Char) (found : List (Marked × Path)) : List Fragment :=
  staticFragments front ++ found.flatMap fun (m, p) => m.mark.fragment p :: staticFragments m.behind

/-- A text that begins with a marker that is no good, and the error. -/
inductive Offends (source : String) : List Char → TemplateError → Prop where
  | unclosed (mark : Mark) {body : List Char} (h : '}' ∉ body) :
      Offends source (mark.opening.toList ++ body) (.unclosedMarker mark source)
  | badPath (mark : Mark) {content : List Char} (more : List Char) {e : PathError}
      (h : '}' ∉ content) (hpath : markerPath content = .error e) :
      Offends source (mark.opening.toList ++ (content ++ '}' :: more)) (.invalidPath e)

end Marked

/-! Reading a split -/

namespace TextPart

open Marked

variable {quote : Option Char} {front rest : List Char} {ms : List Marked}

theorem ofChars_unclosed (mark : Mark) {body : List Char} (h : '}' ∉ body) :
    ofChars none (mark.opening.toList ++ body) = [.unclosed mark] := by
  rw [ofChars_opening, dropWhile_ne_eq_nil_iff.2 h]

theorem ofChars_closed (mark : Mark) {content : List Char} (h : '}' ∉ content)
    (more : List Char) :
    ofChars none (mark.opening.toList ++ (content ++ '}' :: more)) =
      .marker mark content :: ofChars none more := by
  obtain ⟨htake, hdrop⟩ := span_until h more
  rw [ofChars_opening, htake, hdrop]

/-- The parts of a split text. -/
def ofMarked (front : List Char) (ms : List Marked) : List TextPart :=
  plain front ++ ms.flatMap fun m => .marker m.mark m.content :: plain m.behind

/-- A split is read up to its end, or up to a marker behind it. -/
theorem ofChars_whole (hquote : ∀ q ∈ quote, isQuote q = true)
    (h : IsSplit (.ofQuote quote) front ms)
    (hrest : rest = [] ∨
      (QuoteState.ofQuote quote).after (static front ms) = .outside ∧ StartsMarker rest) :
    ofChars quote (whole front ms ++ rest) = ofMarked front ms ++ ofChars none rest := by
  induction ms generalizing quote front with
  | nil =>
    rw [whole, ofMarked, List.flatMap_nil, List.append_nil, List.flatMap_nil, List.append_nil]
    rw [static, List.flatMap_nil, List.append_nil] at hrest
    exact ofChars_static hquote h hrest
  | cons m ms ih =>
    obtain ⟨hfront, hend, hcontent, hmore⟩ := h
    have hstatic : (QuoteState.ofQuote quote).after (static front (m :: ms)) =
        QuoteState.outside.after (static m.behind ms) := by
      rw [static, QuoteState.after_append, hend]
      rfl
    have hwritten : whole front (m :: ms) ++ rest =
        front ++ (m.mark.opening.toList ++ (m.content ++ '}' :: (whole m.behind ms ++ rest))) := by
      simp [whole, written]
    rw [hend] at hmore
    rw [hstatic] at hrest
    rw [hwritten, ofChars_static hquote hfront (.inr ⟨hend, startsMarker_opening _ _⟩),
      ofChars_closed m.mark hcontent, ih isQuote_of_mem_none hmore hrest]
    simp [ofMarked]

end TextPart

namespace Marked

variable {s : QuoteState} {cs front : List Char} {ms : List Marked} {ps : List Path}
  {source : String}

/-! Every text has a split -/

theorem static_cons (front : List Char) (m : Marked) (ms : List Marked) :
    static front (m :: ms) = front ++ static m.behind ms := rfl

theorem whole_cons (front : List Char) (m : Marked) (ms : List Marked) :
    whole front (m :: ms) =
      front ++ (m.mark.opening.toList ++ (m.content ++ '}' :: whole m.behind ms)) := by
  simp [whole, written]

theorem isSplit_append {before after : List Marked} {m : Marked}
    (h : IsSplit s front (before ++ m :: after)) :
    IsSplit s front before ∧ s.after (static front before) = .outside ∧ '}' ∉ m.content := by
  induction before generalizing s front with
  | nil =>
    obtain ⟨hfront, hend, hcontent, _⟩ := h
    refine ⟨hfront, ?_, hcontent⟩
    rw [static, List.flatMap_nil, List.append_nil]
    exact hend
  | cons b before ih =>
    obtain ⟨hfront, hend, hbrace, hmore⟩ := h
    obtain ⟨hsplit, hstatic, hcontent⟩ := ih hmore
    rw [static_cons, QuoteState.after_append]
    exact ⟨⟨hfront, hend, hbrace, hsplit⟩, hstatic, hcontent⟩

theorem isSplit_cons {c : Char} (hstart : s = .outside → ¬StartsMarker (c :: front))
    (h : IsSplit (s.next c) front ms) : IsSplit s (c :: front) ms := by
  cases ms with
  | nil => exact isUnmarked_cons.2 ⟨hstart, h⟩
  | cons m ms => exact ⟨isUnmarked_cons.2 ⟨hstart, h.1⟩, h.2⟩

/-- Up to its end, or up to a marker without a closing brace. -/
def HasSplit (s : QuoteState) (cs : List Char) : Prop :=
  ∃ front ms rest, cs = whole front ms ++ rest ∧ IsSplit s front ms ∧
    (rest = [] ∨ s.after (static front ms) = .outside ∧
      ∃ mark : Mark, ∃ body, rest = mark.opening.toList ++ body ∧ '}' ∉ body)

theorem HasSplit.cons {c : Char} (hstart : s = .outside → ¬StartsMarker (c :: cs))
    (h : HasSplit (s.next c) cs) : HasSplit s (c :: cs) := by
  obtain ⟨front, ms, rest, rfl, hsplit, hrest⟩ := h
  refine ⟨c :: front, ms, rest, rfl, isSplit_cons ?_ hsplit, hrest⟩
  intro hs hfront
  have hwhole := hfront.append (ms.flatMap written ++ rest)
  rw [List.cons_append, ← List.append_assoc] at hwhole
  exact hstart hs hwhole

theorem HasSplit.cons_quoted {c : Char} (hs : s ≠ .outside) (h : HasSplit (s.next c) cs) :
    HasSplit s (c :: cs) :=
  h.cons fun houtside => absurd houtside hs

theorem mark?_eq_some_iff {c : Char} {r body : List Char} {mark : Mark} :
    TextPart.mark? none c r = some (mark, body) ↔ c :: r = mark.opening.toList ++ body := by
  constructor
  · intro h
    unfold TextPart.mark? at h
    split at h <;> cases h <;> rfl
  · intro h
    cases mark with
    | bound =>
      cases h
      rfl
    | raw =>
      cases h
      rfl

theorem hasSplit_nil (s : QuoteState) : HasSplit s [] :=
  ⟨[], [], [], rfl, isUnmarked_nil s, .inl rfl⟩

theorem hasSplit (quote : Option Char) (cs : List Char)
    (hquote : ∀ q ∈ quote, TextPart.isQuote q = true) : HasSplit (.ofQuote quote) cs := by
  fun_induction TextPart.ofChars quote cs with
  | case1 quote => exact hasSplit_nil _
  | case2 quote c hescape =>
    obtain ⟨rfl, hsome⟩ := hescape
    obtain ⟨q, rfl⟩ := Option.isSome_iff_exists.1 hsome
    exact (hasSplit_nil _).cons_quoted (by rintro ⟨⟩)
  | case3 quote c hescape e r ih =>
    obtain ⟨rfl, hsome⟩ := hescape
    obtain ⟨q, rfl⟩ := Option.isSome_iff_exists.1 hsome
    exact HasSplit.cons_quoted (by rintro ⟨⟩) (HasSplit.cons_quoted (by rintro ⟨⟩) (ih hquote))
  | case4 quote c r hescape hc ih =>
    have hmore := ih (TextPart.isQuote_of_afterQuote hquote hc)
    rw [← TextPart.next_ofQuote_quote hescape hc] at hmore
    refine hmore.cons fun _ hstart => ?_
    obtain ⟨mark, body, hcs⟩ := hstart.exists_opening
    cases mark with
    | bound =>
      cases hcs
      contradiction
    | raw =>
      cases hcs
      contradiction
  | case5 quote c r hescape hc hmark ih =>
    have hmore := ih hquote
    rw [← TextPart.next_ofQuote_plain hquote hescape hc] at hmore
    refine hmore.cons fun hs hstart => ?_
    cases quote with
    | none =>
      obtain ⟨mark, body, hcs⟩ := hstart.exists_opening
      rw [mark?_eq_some_iff.2 hcs] at hmark
      cases hmark
    | some q => cases hs
  | case6 quote c r hescape hc mark body hmark hbody =>
    obtain ⟨rfl, _⟩ := TextPart.startsMarker_of_mark? hmark
    exact ⟨[], [], c :: r, rfl, isUnmarked_nil _, .inr ⟨rfl, mark, body,
      mark?_eq_some_iff.1 hmark, dropWhile_ne_eq_nil_iff.1 hbody⟩⟩
  | case7 quote c r hescape hc mark body hmark brace rest hbody ih =>
    obtain ⟨rfl, _⟩ := TextPart.startsMarker_of_mark? hmark
    obtain ⟨hbody, hbrace⟩ := exists_until hbody
    obtain ⟨front, ms, more, rfl, hsplit, hmore⟩ := ih TextPart.isQuote_of_mem_none
    refine ⟨[], ⟨mark, _, front⟩ :: ms, more, ?_, ⟨isUnmarked_nil _, rfl, hbrace, hsplit⟩, hmore⟩
    rw [mark?_eq_some_iff.1 hmark, whole_cons, List.nil_append, List.append_assoc,
      List.append_assoc, List.cons_append, ← hbody]

/-! From the parts to the fragments -/

theorem fragment_marker (source : String) (mark : Mark) (content : List Char) :
    (TextPart.marker mark content).fragment source =
      match markerPath content with
      | .ok p => .ok (mark.fragment p)
      | .error e => .error (.invalidPath e) := by
  rw [TextPart.fragment, markerPath]
  split
  · next h => rw [h]
  · next h =>
    rw [h]
    cases mark <;> rfl

theorem mapM_plain (source : String) (cs : List Char) (more : List TextPart) :
    (TextPart.plain cs ++ more).mapM (TextPart.fragment source) =
      (more.mapM (TextPart.fragment source)).map (staticFragments cs ++ ·) := by
  cases cs with
  | nil =>
    rw [TextPart.plain, List.nil_append]
    cases more.mapM (TextPart.fragment source) <;> rfl
  | cons c cs =>
    rw [TextPart.plain, List.singleton_append, List.mapM_cons]
    cases more.mapM (TextPart.fragment source) <;> rfl

/-- What comes behind a split whose markers have paths comes behind its fragments. -/
theorem mapM_ofMarked (h : HavePaths ms ps) (front : List Char) (more : List TextPart) :
    (TextPart.ofMarked front ms ++ more).mapM (TextPart.fragment source) =
      (more.mapM (TextPart.fragment source)).map (fragments front (ms.zip ps) ++ ·) := by
  induction h generalizing front with
  | nil => simpa [TextPart.ofMarked, fragments] using mapM_plain source front more
  | @cons m p ms ps hpath _ ih =>
    have hparts : TextPart.ofMarked front (m :: ms) ++ more =
        TextPart.plain front ++
          (.marker m.mark m.content :: (TextPart.ofMarked m.behind ms ++ more)) := by
      simp [TextPart.ofMarked]
    rw [hparts, mapM_plain, List.mapM_cons, fragment_marker, hpath, ih]
    cases more.mapM (TextPart.fragment source) with
    | error e => rfl
    | ok fs => simp [fragments, bind, Except.bind, Except.map, pure, Except.pure]

/-- Either all markers have paths, or there is a first one that has none. -/
theorem exists_paths (ms : List Marked) :
    (∃ ps, HavePaths ms ps) ∨
      ∃ before m after ps e, ms = before ++ m :: after ∧ HavePaths before ps ∧
        markerPath m.content = .error e := by
  induction ms with
  | nil => exact .inl ⟨[], .nil⟩
  | cons m ms ih =>
    cases hpath : markerPath m.content with
    | error e => exact .inr ⟨[], m, ms, [], e, rfl, .nil, hpath⟩
    | ok p =>
      rcases ih with ⟨ps, hps⟩ | ⟨before, b, after, ps, e, rfl, hps, he⟩
      · exact .inl ⟨p :: ps, .cons hpath hps⟩
      · exact .inr ⟨m :: before, b, after, p :: ps, e, rfl, .cons hpath hps, he⟩

end Marked

open Marked

/-- The text is a split with these paths, and these are its fragments. -/
def SplitsInto (text : List Char) (fs : List Fragment) : Prop :=
  ∃ front ms ps, text = whole front ms ∧ IsSplit .outside front ms ∧ HavePaths ms ps ∧
    fs = fragments front (ms.zip ps)

/-- The text is a split up to a marker that is no good, the first one, and this is the error. -/
def SplitsUpTo (source : String) (e : TemplateError) : Prop :=
  ∃ front ms ps rest, source.toList = whole front ms ++ rest ∧ IsSplit .outside front ms ∧
    QuoteState.outside.after (static front ms) = .outside ∧ HavePaths ms ps ∧
    Offends source rest e

theorem SplitsInto.textFragments {source : String} {fs : List Fragment}
    (h : SplitsInto source.toList fs) : textFragments source = .ok fs := by
  obtain ⟨front, ms, ps, htext, hsplit, hps, rfl⟩ := h
  have hparts := TextPart.ofChars_whole TextPart.isQuote_of_mem_none hsplit (.inl rfl)
  rw [List.append_nil, TextPart.ofChars] at hparts
  rw [DynamicSql.textFragments, htext, hparts, mapM_ofMarked hps]
  simp [Except.map, pure, Except.pure]

theorem SplitsUpTo.textFragments {source : String} {e : TemplateError}
    (h : SplitsUpTo source e) : textFragments source = .error e := by
  obtain ⟨front, ms, ps, rest, htext, hsplit, hend, hps, hoffends⟩ := h
  have hstart : StartsMarker rest := by
    cases hoffends with
    | unclosed mark _ => exact startsMarker_opening mark _
    | badPath mark _ _ _ => exact startsMarker_opening mark _
  have hparts :=
    TextPart.ofChars_whole TextPart.isQuote_of_mem_none hsplit (.inr ⟨hend, hstart⟩)
  rw [DynamicSql.textFragments, htext, hparts, mapM_ofMarked hps]
  cases hoffends with
  | unclosed mark hbody =>
    rw [TextPart.ofChars_unclosed mark hbody]
    rfl
  | badPath mark more hcontent hpath =>
    rw [TextPart.ofChars_closed mark hcontent, List.mapM_cons, fragment_marker, hpath]
    rfl

/-- Every text is of one of the two kinds. -/
theorem exists_outcome (source : String) :
    (∃ fs, SplitsInto source.toList fs) ∨ ∃ e, SplitsUpTo source e := by
  obtain ⟨front, ms, rest, htext, hsplit, hrest⟩ :=
    hasSplit none source.toList TextPart.isQuote_of_mem_none
  rcases exists_paths ms with ⟨ps, hps⟩ | ⟨before, m, after, ps, e, rfl, hps, he⟩
  · rcases hrest with rfl | ⟨hend, mark, body, rfl, hbody⟩
    · rw [List.append_nil] at htext
      exact .inl ⟨_, front, ms, ps, htext, hsplit, hps, rfl⟩
    · exact .inr ⟨_, front, ms, ps, _, htext, hsplit, hend, hps, .unclosed mark hbody⟩
  · obtain ⟨hbefore, hend, hcontent⟩ := isSplit_append hsplit
    have hwhole : whole front (before ++ m :: after) ++ rest = whole front before ++
        (m.mark.opening.toList ++ (m.content ++ '}' :: (whole m.behind after ++ rest))) := by
      simp [whole, written]
    rw [hwhole] at htext
    exact .inr ⟨_, front, before, ps, _, htext, hbefore, hend, hps, .badPath m.mark _ hcontent he⟩

/-- A text has fragments exactly if it is split into static parts and markers with paths, and then
they are the parts that are not empty and the paths, in order. Else the first marker without a
closing brace or a path gives the error. -/
theorem textFragments_split (source : String) :
    (∀ fs, textFragments source = .ok fs ↔ SplitsInto source.toList fs) ∧
      ∀ e, textFragments source = .error e ↔ SplitsUpTo source e := by
  rcases exists_outcome source with ⟨fs, hfs⟩ | ⟨e, he⟩
  · refine ⟨fun gs => ⟨fun h => ?_, SplitsInto.textFragments⟩,
      fun e => ⟨fun h => ?_, SplitsUpTo.textFragments⟩⟩
    · rw [hfs.textFragments] at h
      cases h
      exact hfs
    · rw [hfs.textFragments] at h
      cases h
  · refine ⟨fun gs => ⟨fun h => ?_, SplitsInto.textFragments⟩,
      fun e' => ⟨fun h => ?_, SplitsUpTo.textFragments⟩⟩
    · rw [he.textFragments] at h
      cases h
    · rw [he.textFragments] at h
      cases h
      exact he

-- A quote that is escaped, markers next to each other, and options behind a comma.
example : textFragments "'\\'#\x7ba\x7d'##\x7bb\x7d$\x7bc,x\x7d'" =
    .ok [.text "'\\'#\x7ba\x7d'#", .placeholder (.single "b"), .raw (.single "c"), .text "'"] := by
  cbv

end DynamicSql

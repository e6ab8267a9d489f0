import DynamicSql.Proofs.Parameter.PathGrammar
import DynamicSql.Proofs.Template.MarkerSplit
import DynamicSql.Proofs.Template.WellFormed

/-!
One path in a marker and as the collection of a loop. The braces of a marker end at the first
closing one, and the path in them at the first comma, also inside of a quoted key; a path that is
cut there ends inside of its brackets (`read_cut`). So a path means the same in both places exactly
if it has neither character in it (`textFragments_marker`).
-/

namespace DynamicSql

namespace Path

variable {d : Char} {front more inner : List Char} {s : Segment} {ss : List Segment}

/-! Paths that are cut off -/

theorem readSteps_unclosed (afterPoint : Bool) (h : ']' ∉ inner) :
    readSteps afterPoint ('[' :: inner) = .error .unclosedBracket := by
  rw [readSteps]
  split
  · rfl
  · next hrest =>
    rw [dropWhile_ne_eq_nil_iff.2 h] at hrest
    cases hrest

theorem readSteps_bracket_cut (hclose : ']' ∉ inner) (hopen : d ≠ '[') (hd : d ≠ ']')
    (h : front ++ d :: more = '[' :: (inner ++ [']'])) (afterPoint : Bool) :
    readSteps afterPoint front = .error .unclosedBracket := by
  cases front with
  | nil => exact absurd (List.cons.inj h).1 hopen
  | cons c front =>
    rw [List.cons_append, List.cons.injEq] at h
    obtain ⟨rfl, h⟩ := h
    apply readSteps_unclosed
    -- The closing bracket is the last character, and so it stands behind the cut.
    obtain rfl | ⟨more, e, rfl⟩ := List.eq_nil_or_concat more
    · exact absurd (List.cons.inj (List.append_inj' h rfl).2).1 hd
    · rw [List.concat_eq_append, ← List.cons_append, ← List.append_assoc] at h
      rw [← (List.append_inj' h rfl).1] at hclose
      exact fun hmem => hclose (List.mem_append_left _ hmem)

theorem Step.readSteps_cut (h : Step (front ++ d :: more) s) (hd : IsOff d) (hclose : d ≠ ']') :
    readSteps false front = .error .unclosedBracket := by
  generalize hcs : front ++ d :: more = cs at h
  cases h with
  | @name name h =>
    have hmem : d ∈ '.' :: name := by
      rw [← hcs]
      exact List.mem_append_right _ List.mem_cons_self
    obtain hpoint | hmem := List.mem_cons.1 hmem
    · exact absurd hpoint hd.noPoint
    · exact absurd rfl (ne_of_isNameChar ((isName_iff.1 h).2 d hmem) hd.noName)
  | bracket hpoint hinner h =>
    rcases hpoint with rfl | rfl
    · exact readSteps_bracket_cut hinner hd.noBracket hclose hcs false
    · cases front with
      | nil => exact absurd (List.cons.inj hcs).1 hd.noPoint
      | cons c front =>
        rw [List.cons_append, List.cons_append, List.cons_append, List.nil_append,
          List.cons.injEq] at hcs
        obtain ⟨rfl, hcs⟩ := hcs
        rw [readSteps_point]
        exact readSteps_bracket_cut hinner hd.noBracket hclose hcs true

theorem Steps.not_isOff (h : Steps (d :: more) ss) : ¬IsOff d := by
  intro hd
  generalize hcs : d :: more = cs at h
  cases h with
  | nil => cases hcs
  | cons h _ =>
    cases h with
    | name _ => exact hd.noPoint (List.cons.inj hcs).1
    | bracket hpoint _ _ =>
      rcases hpoint with rfl | rfl
      · exact hd.noBracket (List.cons.inj hcs).1
      · exact hd.noPoint (List.cons.inj hcs).1

theorem Steps.head?_cut (h : Steps (front ++ more) ss) :
    ∀ c ∈ front.head?, isNameChar c = false := by
  intro c hc
  apply h.head?_not_name c
  rw [List.head?_append, Option.mem_def.1 hc]
  rfl

theorem Steps.readSteps_cut (h : Steps (front ++ d :: more) ss) (hd : IsOff d)
    (hclose : d ≠ ']') : readSteps false front = .error .unclosedBracket := by
  generalize hcs : front ++ d :: more = cs at h
  induction h generalizing front with
  | nil => simp at hcs
  | cons h hrest ih =>
    rcases List.append_eq_append_iff.1 hcs with ⟨a, rfl, ha⟩ | ⟨a, rfl, rfl⟩
    · cases a with
      | nil =>
        rw [List.nil_append] at ha
        rw [← ha] at hrest
        exact absurd hd hrest.not_isOff
      | cons b a =>
        obtain ⟨rfl, _⟩ := List.cons.inj ha
        exact h.readSteps_cut hd hclose
    · rw [h.readSteps_append hrest.head?_cut, ih rfl]
      rfl

theorem Spells.readSegments_cut (h : Spells (front ++ d :: more) ss) (hd : IsOff d)
    (hclose : d ≠ ']') : readSegments front = .error .unclosedBracket := by
  generalize hcs : front ++ d :: more = cs at h
  cases h with
  | path hname hrest =>
    rcases List.append_eq_append_iff.1 hcs with ⟨a, rfl, ha⟩ | ⟨a, rfl, rfl⟩
    · cases a with
      | nil =>
        rw [List.nil_append] at ha
        rw [← ha] at hrest
        exact absurd hd hrest.not_isOff
      | cons b a =>
        obtain ⟨rfl, _⟩ := List.cons.inj ha
        have hmem : d ∈ front ++ d :: a := List.mem_append_right _ List.mem_cons_self
        exact absurd rfl (ne_of_isNameChar ((isName_iff.1 hname).2 d hmem) hd.noName)
    · rw [readSegments_name_append hname hrest.head?_cut, hrest.readSteps_cut hd hclose]
      rfl

/-- A path goes on with such a character only inside of brackets. -/
theorem read_cut {source : String} {p : Path} (h : read source = .ok p)
    (hsource : source.toList = front ++ d :: more) (hblank : Text.isBlankChar d = false)
    (hd : IsOff d) (hclose : d ≠ ']') :
    read (String.ofList front) =
      .error ⟨Text.trim (String.ofList front), .unclosedBracket⟩ := by
  obtain ⟨blanks, more', htrim, hblanks⟩ := Text.trimChars_append hblank front more
  have hspells := (read_eq_ok_iff.1 h).2
  rw [Text.trim, String.toList_ofList, hsource, htrim] at hspells
  have hcut : readSegments (Text.trimChars front) = .error .unclosedBracket := by
    cases blanks with
    | nil => exact hspells.readSegments_cut hd hclose
    | cons b bs =>
      have hb := hblanks b List.mem_cons_self
      refine hspells.readSegments_cut (isOff_of_blank hb) ?_
      rintro rfl
      contradiction
  rw [read, Text.trim, String.toList_ofList, hcut]

end Path

open Marked Markup

/-- Whether a character inside of the braces still belongs to the path. -/
def isOfPath (c : Char) : Bool :=
  c != ',' && c != '}'

/-- What a marker keeps of a path that is written in it. -/
def cutPath (p : String) : String :=
  String.ofList (p.toList.takeWhile isOfPath)

theorem exists_cut {cs : List Char} (h : ',' ∈ cs ∨ '}' ∈ cs) :
    ∃ d rest, cs = cs.takeWhile isOfPath ++ d :: rest ∧ (d = ',' ∨ d = '}') := by
  have hcs := List.takeWhile_append_dropWhile (p := isOfPath) (l := cs)
  have hend := List.head?_dropWhile_not isOfPath cs
  cases hrest : cs.dropWhile isOfPath with
  | nil =>
    have hall := List.dropWhile_eq_nil_iff.1 hrest
    rcases h with h | h
    · exact absurd (hall _ h) (by decide)
    · exact absurd (hall _ h) (by decide)
  | cons d rest =>
    rw [hrest] at hcs hend
    refine ⟨d, rest, hcs.symm, ?_⟩
    simpa [isOfPath, imp_iff_not_or] using hend

/-- The braces end first, and the path in them is what stands in front of both characters. -/
theorem exists_content (p : String) :
    ∃ content more, p.toList ++ ['}'] = content ++ '}' :: more ∧ '}' ∉ content ∧
      markerPath content = Path.read (cutPath p) := by
  have hend : '}' ∈ p.toList ++ ['}'] := List.mem_append_right _ List.mem_cons_self
  obtain ⟨content, more, hcontent, hbrace⟩ := List.eq_append_cons_of_mem hend
  have hself : content.takeWhile (· != '}') = content :=
    List.takeWhile_eq_self_iff.2 (forall_ne_of_not_mem hbrace)
  have hcut : content.takeWhile (· != ',') = p.toList.takeWhile isOfPath := by
    calc content.takeWhile (· != ',')
        = (content.takeWhile (· != '}')).takeWhile (· != ',') := by rw [hself]
      _ = content.takeWhile isOfPath := by
        rw [List.takeWhile_takeWhile]
        congr
        funext c
        rw [isOfPath, Bool.decide_and, Bool.decide_eq_true, Bool.decide_eq_true]
      _ = (content ++ '}' :: more).takeWhile isOfPath :=
        (span_append_of_neg rfl content more).1.symm
      _ = p.toList.takeWhile isOfPath := by
        rw [← hcontent]
        exact (span_append_of_neg rfl p.toList []).1
  exact ⟨content, more, hcontent, hbrace, by rw [markerPath, hcut, cutPath]⟩

theorem toList_marker (mark : Mark) (p : String) :
    (mark.opening ++ p ++ "\x7d").toList = mark.opening.toList ++ (p.toList ++ ['}']) := by
  rw [String.toList_append, String.toList_append, List.append_assoc]
  rfl

/-- A path without commas and braces is the only fragment of a marker. -/
theorem splitsInto_marker (mark : Mark) {p : String} {q : Path} (h : Path.read p = .ok q)
    (hcomma : ',' ∉ p.toList) (hbrace : '}' ∉ p.toList) :
    SplitsInto (mark.opening ++ p ++ "\x7d").toList [mark.fragment q] := by
  have hpath : markerPath p.toList = .ok q := by
    rw [markerPath, List.takeWhile_eq_self_iff.2 (forall_ne_of_not_mem hcomma),
      String.ofList_toList, h]
  refine ⟨[], [⟨mark, p.toList, []⟩], [q], ?_, ⟨isUnmarked_nil _, rfl, hbrace, isUnmarked_nil _⟩,
    .cons hpath .nil, rfl⟩
  rw [toList_marker, whole_cons]
  rfl

/-- Of any other path a marker keeps a part that is none. -/
theorem splitsUpTo_marker (mark : Mark) {p : String} {q : Path} (h : Path.read p = .ok q)
    (hcut : ',' ∈ p.toList ∨ '}' ∈ p.toList) :
    SplitsUpTo (mark.opening ++ p ++ "\x7d")
      (.invalidPath ⟨Text.trim (cutPath p), .unclosedBracket⟩) := by
  obtain ⟨d, rest, hp, hd⟩ := exists_cut hcut
  have hread : Path.read (cutPath p) = .error ⟨Text.trim (cutPath p), .unclosedBracket⟩ := by
    rcases hd with rfl | rfl
    · exact Path.read_cut h hp (by decide) ⟨by decide, by decide, by decide⟩ (by decide)
    · exact Path.read_cut h hp (by decide) ⟨by decide, by decide, by decide⟩ (by decide)
  obtain ⟨content, more, hcontent, hbrace, hpath⟩ := exists_content p
  refine ⟨[], [], [], _, ?_, isUnmarked_nil _, rfl, .nil,
    .badPath mark more hbrace (hpath.trans hread)⟩
  rw [toList_marker, hcontent]
  rfl

/-- The collection of a loop is the path of its attribute. -/
theorem Markup.Tag.path_of_loop {tag : Tag} {spec : Loop} (h : tag.loop = .ok spec) :
    tag.path "collection" = .ok spec.collection := by
  obtain ⟨collection, hcollection, h⟩ := bind_eq_ok.1 h
  obtain ⟨item, _, ⟨⟩⟩ := bind_eq_ok.1 h
  exact hcollection

/-- A path is the only fragment of a marker exactly if there is no comma and no closing brace in
it; else the marker is refused, since it ends inside of the brackets of the path. As the collection
of a loop it is that path in any case. -/
theorem textFragments_marker (mark : Mark) {p : String} {q : Path} (h : Path.read p = .ok q) :
    (textFragments (mark.opening ++ p ++ "\x7d") =
      if ',' ∈ p.toList ∨ '}' ∈ p.toList then
        .error (.invalidPath ⟨Text.trim (cutPath p), .unclosedBracket⟩)
      else .ok [mark.fragment q]) ∧
    ∀ tag : Tag, tag.attributes.get? "collection" = some p →
      tag.path "collection" = .ok q ∧
        ∀ table opened children f, tag.name = "foreach" →
          elementFragment table opened tag children = .ok f →
            ∃ spec fs, f = .loop spec (.seq fs) ∧ spec.collection = q := by
  refine ⟨?_, fun tag htag => ?_⟩
  · split
    · next hcut => exact (splitsUpTo_marker mark h hcut).textFragments
    · next hcut =>
      rw [not_or] at hcut
      exact (splitsInto_marker mark h hcut.1 hcut.2).textFragments
  · have hcollection : tag.path "collection" = .ok q :=
      Tag.path_eq_ok.2 ⟨p, htag, Path.not_isBlank_of_read h, h⟩
    refine ⟨hcollection, fun table opened children f hname hf => ?_⟩
    rw [elementFragment, hname] at hf
    obtain ⟨spec, hspec, hf⟩ := bind_eq_ok.1 hf
    obtain ⟨fs, _, ⟨⟩⟩ := bind_eq_ok.1 hf
    have hpath := Tag.path_of_loop hspec
    rw [hcollection] at hpath
    exact ⟨spec, fs, rfl, (Except.ok.inj hpath).symm⟩

/-- A key with quotes, parentheses and blanks in it. -/
def quotedKeyLoop : Tag where
  name := "foreach"
  attributes := [("collection", "m['it's (1)'][0].x"), ("item", "x")]

theorem textFragments_marker_quotedKey :
    ∃ q, Path.read "m['it's (1)'][0].x" = .ok q ∧
      textFragments "#\x7bm['it's (1)'][0].x\x7d" = .ok [.placeholder q] ∧
      ∃ spec fs, elementFragment [] [] quotedKeyLoop [] = .ok (.loop spec (.seq fs)) ∧
        spec.collection = q := by
  have h : ∃ q, Path.read "m['it's (1)'][0].x" = .ok q := ⟨_, by cbv⟩
  obtain ⟨q, hq⟩ := h
  obtain ⟨hmarker, hcollection⟩ := textFragments_marker .bound hq
  rw [if_neg (by decide)] at hmarker
  obtain ⟨spec, hspec⟩ : ∃ spec, quotedKeyLoop.loop = .ok spec :=
    Tag.loop_isOk_iff.2 ⟨⟨_, q, rfl, hq⟩, "x", rfl, by decide⟩
  have hf : elementFragment [] [] quotedKeyLoop [] = .ok (.loop spec (.seq [])) :=
    elementFragment_eq_ok.2 (.loop rfl hspec bodyFragments_nil)
  obtain ⟨_, fs, ⟨⟩, hq'⟩ := (hcollection quotedKeyLoop rfl).2 [] [] [] _ rfl hf
  exact ⟨q, hq, hmarker, spec, [], hf, hq'⟩

/-- A comma or a brace in a quoted key ends the path in the marker. -/
theorem textFragments_marker_cut_key :
    Path.read "m['a,b']" = .ok ⟨"m['a,b']", "m", [.key "a,b"]⟩ ∧
      textFragments "#\x7bm['a,b']\x7d" = .error (.invalidPath ⟨"m['a", .unclosedBracket⟩) ∧
      Path.read "m['a\x7db']" = .ok ⟨"m['a\x7db']", "m", [.key "a\x7db"]⟩ ∧
      textFragments "$\x7bm['a\x7db']\x7d" = .error (.invalidPath ⟨"m['a", .unclosedBracket⟩) := by
  refine ⟨by cbv, by cbv, by cbv, by cbv⟩

end DynamicSql

import DynamicSql.Parameter.Path
import DynamicSql.Proofs.Effects
import DynamicSql.Proofs.Text.Blank

/-!
A path cannot be read on from where it ends. Behind its last step only a point or a bracket may
follow, so a text that goes on with a parenthesis, with or without blanks in front of it, is no
path (`read_append_paren`).
-/

namespace DynamicSql.Path

/-- Nothing of a path goes on with this character. -/
structure IsOff (c : Char) : Prop where
  noName : isNameChar c = false
  noBracket : c ≠ '['
  noPoint : c ≠ '.'

theorem isOff_paren : IsOff ')' :=
  ⟨by decide, by decide, by decide⟩

theorem isOff_of_blank {c : Char} (h : Text.isBlankChar c = true) : IsOff c := by
  have hpoints : ∀ n ∈ Text.blankPoints, isNameChar (Char.ofNat n) = false ∧
      Char.ofNat n ≠ '[' ∧ Char.ofNat n ≠ '.' := by
    decide +kernel
  have hc := hpoints c.toNat (Text.toNat_mem_blankPoints h)
  rw [Char.ofNat_toNat] at hc
  exact ⟨hc.1, hc.2.1, hc.2.2⟩

variable {afterPoint : Bool} {c d : Char} {cs rest : List Char} {s : Segment} {ss : List Segment}

theorem readSteps_of_isOff (hc : IsOff c) (more : List Char) :
    readSteps false (c :: more) = .error .expectedStep := by
  rw [readSteps]
  · rfl
  · exact fun h => hc.noBracket h
  · exact fun h => hc.noPoint h

theorem readSteps_bracket (hrest : cs.dropWhile (· != ']') = d :: rest)
    (hs : readBracket? (cs.takeWhile (· != ']')) = some s) :
    readSteps afterPoint ('[' :: cs) = (readSteps false rest).map (s :: ·) := by
  rw [readSteps]
  split
  · next h =>
    rw [hrest] at h
    cases h
  · next h =>
    rw [hrest] at h
    cases h
    rw [hs]

theorem readSteps_point (cs : List Char) : readSteps false ('.' :: cs) = readSteps true cs := by
  rw [readSteps]
  rfl

theorem readSteps_name (hbracket : c ≠ '[') (hpoint : c ≠ '.') (hname : isNameChar c = true) :
    readSteps true (c :: cs) = (readSteps false (cs.dropWhile isNameChar)).map
      (.key (String.ofList (c :: cs.takeWhile isNameChar)) :: ·) := by
  rw [readSteps]
  · simp [hname]
  · exact fun h => hbracket h
  · exact fun h => hpoint h

theorem readSteps_append (h : readSteps afterPoint cs = .ok ss) (hc : IsOff c)
    (more : List Char) : ∃ fault, readSteps afterPoint (cs ++ c :: more) = .error fault := by
  fun_induction readSteps afterPoint cs generalizing ss with
  | case1 | case3 | case4 | case6 | case8 | case9 => cases h
  | case2 a ha =>
    rw [Bool.not_eq_true] at ha
    subst ha
    exact ⟨_, readSteps_of_isOff hc more⟩
  | case5 a cs d rest hrest s hs ih =>
    obtain ⟨ss, hss, rfl⟩ := map_eq_ok.1 h
    obtain ⟨fault, hfault⟩ := ih hss
    obtain ⟨htake, hdrop⟩ := span_append_of_cons hrest (c :: more)
    refine ⟨fault, ?_⟩
    rw [List.cons_append, readSteps_bracket hdrop (by rw [htake, hs]), hfault]
    rfl
  | case7 a cs ha ih =>
    rw [Bool.not_eq_true] at ha
    subst ha
    rw [List.cons_append, readSteps_point]
    exact ih h
  | case10 a d cs hbracket hpoint ha hname ih =>
    obtain ⟨ss, hss, rfl⟩ := map_eq_ok.1 h
    obtain ⟨fault, hfault⟩ := ih hss
    obtain ⟨htake, hdrop⟩ := span_append_of_neg hc.noName cs more
    rw [Bool.not_eq_true, Bool.not_eq_false'] at ha hname
    subst ha
    refine ⟨fault, ?_⟩
    rw [List.cons_append, readSteps_name hbracket hpoint hname, hdrop, hfault]
    rfl

theorem readSegments_append {found : String × List Segment} (h : readSegments cs = .ok found)
    (hc : IsOff c) (more : List Char) : ∃ fault, readSegments (cs ++ c :: more) = .error fault := by
  unfold readSegments at h
  split at h
  case h_4 d cs hbracket hpoint =>
    split at h
    · next hname =>
      obtain ⟨ss, hss, rfl⟩ := map_eq_ok.1 h
      obtain ⟨fault, hfault⟩ := readSteps_append hss hc more
      refine ⟨fault, ?_⟩
      rw [List.cons_append, readSegments, if_pos hname, (span_append_of_neg hc.noName cs more).2,
        hfault]
      · rfl
      · exact hbracket
      · exact hpoint
    · cases h
  all_goals cases h

/-- No path goes on with a parenthesis behind it. -/
theorem read_append_paren {source : String} {p : Path} (h : read source = .ok p)
    (more : List Char) :
    ∃ e, read (source ++ String.ofList (')' :: more)) = .error e := by
  obtain ⟨blanks, more', htrim, hblanks⟩ :=
    Text.trimChars_append (c := ')') (by decide) source.toList more
  have hoff : ∃ c rest, blanks ++ ')' :: more' = c :: rest ∧ IsOff c := by
    cases blanks with
    | nil => exact ⟨_, _, rfl, isOff_paren⟩
    | cons b bs => exact ⟨_, _, rfl, isOff_of_blank (hblanks b List.mem_cons_self)⟩
  obtain ⟨c, rest, hrest, hc⟩ := hoff
  cases hsegments : readSegments (Text.trimChars source.toList) with
  | error fault =>
    rw [read, hsegments] at h
    cases h
  | ok found =>
    obtain ⟨fault, hfault⟩ := readSegments_append hsegments hc rest
    rw [read, String.toList_append, String.toList_ofList, htrim, hrest, hfault]
    exact ⟨_, rfl⟩

end DynamicSql.Path

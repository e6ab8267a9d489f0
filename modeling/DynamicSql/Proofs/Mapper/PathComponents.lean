import DynamicSql.Mapper.Discovery

/-!
Paths and their components. Components that are joined to a path are read from it again
(`components_joined`), where those of paths and names of files are meant (`AreComponents`).
-/

namespace DynamicSql

/-! Slashes -/

section Slashes

variable {w cs : List Char}

theorem splitSlashes_ne_nil (cs : List Char) : splitSlashes cs ≠ [] := by
  fun_induction splitSlashes cs <;> simp_all

theorem splitSlashes_of_not_mem (h : '/' ∉ w) : splitSlashes w = [w] := by
  induction w with
  | nil => rfl
  | cons c w ih =>
    obtain ⟨hne, hw⟩ := List.ne_and_not_mem_of_not_mem_cons h
    rw [splitSlashes, ih hw]
    exact fun hc => hne hc.symm

theorem splitSlashes_append (h : '/' ∉ w) (cs : List Char) :
    splitSlashes (w ++ '/' :: cs) = w :: splitSlashes cs := by
  induction w with
  | nil => rfl
  | cons c w ih =>
    obtain ⟨hne, hw⟩ := List.ne_and_not_mem_of_not_mem_cons h
    rw [List.cons_append, splitSlashes, ih hw]
    exact fun hc => hne hc.symm

theorem not_mem_of_mem_splitSlashes (h : w ∈ splitSlashes cs) : '/' ∉ w := by
  fun_induction splitSlashes cs generalizing w with
  | case1 => simp_all
  | case2 cs ih => 
    rcases List.mem_cons.1 h with rfl | h
    · simp
    · exact ih h
  | case3 c cs hc v ws hws ih =>
    rcases List.mem_cons.1 h with rfl | h
    · rintro hmem
      rcases List.mem_cons.1 hmem with heq | hmem
      · exact hc heq.symm
      · exact ih (hws ▸ List.mem_cons_self) hmem
    · exact ih (hws ▸ List.mem_cons_of_mem _ h)
  | case4 c cs hc hws ih => exact absurd hws (splitSlashes_ne_nil cs)

theorem exists_mem_splitSlashes {c : Char} (hc : c ∈ cs) (hne : c ≠ '/') :
    ∃ w ∈ splitSlashes cs, c ∈ w := by
  fun_induction splitSlashes cs with
  | case1 => cases hc
  | case2 cs ih =>
    obtain ⟨w, hw, hcw⟩ := ih ((List.mem_cons.1 hc).resolve_left hne)
    exact ⟨w, List.mem_cons_of_mem _ hw, hcw⟩
  | case3 d cs hd v ws hws ih =>
    rcases List.mem_cons.1 hc with rfl | hc
    · exact ⟨_, List.mem_cons_self, List.mem_cons_self⟩
    · obtain ⟨w, hw, hcw⟩ := ih hc
      rw [hws] at hw
      rcases List.mem_cons.1 hw with rfl | hw
      · exact ⟨_, List.mem_cons_self, List.mem_cons_of_mem _ hcw⟩
      · exact ⟨w, List.mem_cons_of_mem _ hw, hcw⟩
  | case4 d cs hd hws ih => exact absurd hws (splitSlashes_ne_nil cs)

end Slashes

theorem pathParts_of_not_mem {s : String} (h : '/' ∉ s.toList) : pathParts s = [s] := by
  rw [pathParts, splitSlashes_of_not_mem h, List.map_singleton, String.ofList_toList]

theorem pathParts_append {s : String} (h : '/' ∉ s.toList) (path : String) :
    pathParts (s ++ "/" ++ path) = s :: pathParts path := by
  have hlist : (s ++ "/" ++ path).toList = s.toList ++ '/' :: path.toList := by
    simp
  rw [pathParts, hlist, splitSlashes_append h, List.map_cons, String.ofList_toList, ← pathParts]

theorem pathParts_root (path : String) : pathParts ("/" ++ path) = "" :: pathParts path := by
  have hlist : ("/" ++ path).toList = '/' :: path.toList := by
    simp
  rw [pathParts, hlist, splitSlashes, List.map_cons, ← pathParts]

namespace Location

/-- What a name of a file is, or two points in its place. -/
structure IsPart (c : String) : Prop where
  ne_empty : c ≠ ""
  ne_point : c ≠ "."
  unslashed : '/' ∉ c.toList

/-- The components of a path, of which only the first one can be a slash or a point. -/
def AreComponents : List String → Prop
  | [] => True
  | c :: cs => (c = "/" ∨ c = "." ∨ IsPart c) ∧ ∀ d ∈ cs, IsPart d

variable {cs base names : List String}

theorem isPart_of_mem_pathParts {path c : String} (h : c ∈ pathParts path)
    (hkept : c ≠ "" ∧ c ≠ ".") : IsPart c := by
  obtain ⟨w, hw, rfl⟩ := List.mem_map.1 h
  refine ⟨hkept.1, hkept.2, ?_⟩
  rw [String.toList_ofList]
  exact not_mem_of_mem_splitSlashes hw

theorem areComponents_components (path : String) : AreComponents (components path) := by
  have hkept : ∀ c ∈ (pathParts path).filter fun p => p ≠ "" ∧ p ≠ ".", IsPart c := by
    intro c hc
    obtain ⟨hmem, hc⟩ := List.mem_filter.1 hc
    exact isPart_of_mem_pathParts hmem (of_decide_eq_true hc)
  unfold components
  dsimp only
  split
  · exact ⟨.inl rfl, hkept⟩
  · exact ⟨.inr (.inl rfl), hkept⟩
  · revert hkept
    cases (pathParts path).filter fun p => p ≠ "" ∧ p ≠ "." with
    | nil => exact fun _ => trivial
    | cons c cs =>
      intro hkept
      exact ⟨.inr (.inr (hkept c List.mem_cons_self)), fun d hd =>
        hkept d (List.mem_cons_of_mem c hd)⟩

theorem AreComponents.append (h : AreComponents base) (hnames : ∀ name ∈ names, IsPart name) :
    AreComponents (base ++ names) := by
  cases base with
  | nil =>
    cases names with
    | nil => trivial
    | cons name names =>
      obtain ⟨hname, hnames⟩ := List.forall_mem_cons.1 hnames
      exact ⟨.inr (.inr hname), hnames⟩
  | cons c base => exact ⟨h.1, List.forall_mem_append.2 ⟨h.2, hnames⟩⟩

theorem AreComponents.of_append (h : AreComponents (base ++ cs)) : AreComponents base := by
  cases base with
  | nil => trivial
  | cons c base => exact ⟨h.1, (List.forall_mem_append.1 h.2).1⟩

/-! Joining -/

theorem joined_cons {c : String} (hc : c ≠ "/") (hne : cs ≠ []) :
    joined (c :: cs) = c ++ "/" ++ joined cs := by
  cases cs with
  | nil => contradiction
  | cons d cs => simp [joined, String.append_assoc]

theorem pathParts_joined (hne : cs ≠ []) (h : ∀ c ∈ cs, '/' ∉ c.toList) :
    pathParts (joined cs) = cs := by
  induction cs with
  | nil => contradiction
  | cons c cs ih =>
    obtain ⟨hc, hcs⟩ := List.forall_mem_cons.1 h
    cases cs with
    | nil => exact pathParts_of_not_mem hc
    | cons d cs =>
      have hslash : c ≠ "/" := by
        rintro rfl
        exact hc (by decide)
      rw [joined_cons hslash (List.cons_ne_nil d cs), pathParts_append hc,
        ih (List.cons_ne_nil d cs) hcs]

theorem filter_kept (h : ∀ c ∈ cs, IsPart c) : (cs.filter fun p => p ≠ "" ∧ p ≠ ".") = cs :=
  List.filter_eq_self.2 fun c hc => decide_eq_true ⟨(h c hc).ne_empty, (h c hc).ne_point⟩

theorem components_of_root {path c : String} (hpath : pathParts path = "" :: c :: cs)
    (h : ∀ d ∈ c :: cs, IsPart d) : components path = "/" :: c :: cs := by
  rw [components, hpath]
  rw [List.filter_cons_of_neg (by simp), filter_kept h]
  rfl

theorem components_of_point {path : String} (hpath : pathParts path = "." :: cs)
    (h : ∀ d ∈ cs, IsPart d) : components path = "." :: cs := by
  rw [components, hpath]
  rw [List.filter_cons_of_neg (by simp), filter_kept h]
  rfl

theorem components_of_parts {path : String} (hpath : pathParts path = cs)
    (h : ∀ d ∈ cs, IsPart d) : components path = cs := by
  rw [components, hpath]
  split
  · exact absurd rfl (h "" List.mem_cons_self).ne_empty
  · exact absurd rfl (h "." List.mem_cons_self).ne_point
  · exact filter_kept h

/-- Nothing of a list of components is lost in the path. -/
theorem components_joined (h : AreComponents cs) : components (joined cs) = cs := by
  cases cs with
  | nil => decide
  | cons c cs =>
    obtain ⟨hc, hcs⟩ := h
    have hslashes : ∀ d ∈ cs, '/' ∉ d.toList := fun d hd => (hcs d hd).unslashed
    rcases hc with rfl | rfl | hc
    · cases cs with
      | nil => decide
      | cons d cs =>
        refine components_of_root ?_ hcs
        rw [joined, pathParts_root, pathParts_joined (List.cons_ne_nil d cs) hslashes]
        exact List.cons_ne_nil d cs
    · refine components_of_point (pathParts_joined (List.cons_ne_nil "." cs) ?_) hcs
      exact List.forall_mem_cons.2 ⟨by decide, hslashes⟩
    · refine components_of_parts (pathParts_joined (List.cons_ne_nil c cs) ?_) ?_
      · exact List.forall_mem_cons.2 ⟨hc.unslashed, hslashes⟩
      · exact List.forall_mem_cons.2 ⟨hc, hcs⟩

end Location

end DynamicSql

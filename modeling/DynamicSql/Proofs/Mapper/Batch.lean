import Mathlib
import DynamicSql.Proofs.Mapper.RegistryRun
import DynamicSql.Proofs.Parameter.NewEntries

/-!
Loading a batch of sources against loading them one after the other. Both come down to one
condition: every document makes statements, and together these have ids that are all different and
not in the registry (`exec_loadSources_ok`, `exec_mapM_loadSource_ok`). That condition does not
depend on the order of the sources.
-/

namespace DynamicSql

namespace Registry

open Entries

/-- The statements that the documents of the sources make, source by source. -/
def Makes (sources : List Source) (all : List (Entries Statement)) : Prop :=
  List.Forall₂ (fun source es => Mapper.ofSource source.text = .ok es) sources all

theorem stageAll_eq_ok {staged new es : Entries Statement} :
    stageAll staged new = .ok es ↔ staged.IsNew new ∧ es = staged ++ new := by
  induction new generalizing staged with
  | nil =>
    rw [stageAll, List.append_nil]
    constructor
    · rintro ⟨⟩
      exact ⟨isNew_nil es, rfl⟩
    · rintro ⟨_, rfl⟩
      rfl
  | cons e new ih =>
    rw [stageAll, isNew_cons]
    split
    · next h => simp [h]
    · next h => simp [ih, h]

theorem stage_eq_ok {staged es : Entries Statement} {sources : List Source} :
    stage staged sources = .ok es ↔
      ∃ all, Makes sources all ∧ staged.IsNew all.flatten ∧ es = staged ++ all.flatten := by
  induction sources generalizing staged with
  | nil =>
    rw [stage]
    constructor
    · rintro ⟨⟩
      exact ⟨[], .nil, isNew_nil es, (List.append_nil es).symm⟩
    · rintro ⟨_, ⟨⟩, _, rfl⟩
      rw [List.flatten_nil, List.append_nil]
  | cons source sources ih =>
    rw [stage]
    constructor
    · intro h
      split at h
      · cases h
      · next new hnew =>
        rcases bind_eq_ok.1 h with ⟨staged', hstaged, h⟩
        rcases stageAll_eq_ok.1 hstaged with ⟨hisNew, rfl⟩
        rcases ih.1 h with ⟨all, hall, hall', rfl⟩
        refine ⟨new :: all, .cons hnew hall, ?_, ?_⟩
        · exact isNew_append.2 ⟨hisNew, hall'⟩
        · rw [List.flatten_cons, List.append_assoc]
    · rintro ⟨_, hmakes, hisNew, rfl⟩
      cases hmakes with
      | @cons _ new _ all hnew hall =>
        rw [List.flatten_cons] at hisNew ⊢
        rcases isNew_append.1 hisNew with ⟨hisNew, hall'⟩
        rw [hnew]
        apply bind_eq_ok.2 ⟨staged ++ new, stageAll_eq_ok.2 ⟨hisNew, rfl⟩, ?_⟩
        exact ih.2 ⟨all, hall, hall', (List.append_assoc staged new _).symm⟩

theorem find?_contains_eq_none {r : Registry} {new : Entries Statement} :
    new.keys.find? r.statements.contains = none ↔ r.statements.keys.Disjoint new.keys := by
  rw [List.find?_eq_none]
  constructor
  · intro h id hid hnew
    exact h id hnew (contains_iff.2 hid)
  · intro h id hnew hid
    exact h (contains_iff.1 hid) hnew

theorem exec_loadSources (sources : List Source) (r : Registry) :
    exec (loadSources sources) r =
      match stage [] sources with
      | .error e => (.error e, r)
      | .ok staged =>
        match staged.keys.find? r.statements.contains with
        | some id => (.error (.duplicateStatement id), r)
        | none => (.ok staged.length, { r with statements := r.statements.extend staged }) := by
  rw [loadSources, exec_bind, exec_liftExcept]
  cases stage [] sources with
  | error e => rfl
  | ok staged =>
    dsimp only
    rw [exec_bind, exec_get]
    dsimp only
    cases staged.keys.find? r.statements.contains <;> rfl

theorem exec_loadSources_ok {sources : List Source} {r r' : Registry} {n : Nat} :
    exec (loadSources sources) r = (.ok n, r') ↔
      ∃ all, Makes sources all ∧ r.statements.IsNew all.flatten ∧
        n = all.flatten.length ∧ r' = r.adding all.flatten := by
  rw [exec_loadSources]
  constructor
  · intro h
    cases hstage : stage [] sources with
    | error e =>
      rw [hstage] at h
      cases h
    | ok staged =>
      rcases stage_eq_ok.1 hstage with ⟨all, hall, hnew, rfl⟩
      rw [hstage] at h
      dsimp only at h
      split at h
      · cases h
      · next hfind =>
        have hapart := find?_contains_eq_none.1 hfind
        have hextend := extend_eq_append hnew.1 fun id hid hmem => hapart hmem hid
        rw [List.nil_append, hextend] at h
        cases h
        exact ⟨all, hall, ⟨hnew.1, hapart⟩, rfl, rfl⟩
  · rintro ⟨all, hall, hnew, rfl, rfl⟩
    have hstage : stage [] sources = .ok all.flatten :=
      stage_eq_ok.2 ⟨all, hall, ⟨hnew.1, fun _ h => nomatch h⟩, rfl⟩
    have hextend := extend_eq_append hnew.1 fun id hid hmem => hnew.2 hmem hid
    rw [hstage]
    dsimp only
    rw [find?_contains_eq_none.2 hnew.2, hextend]
    rfl

theorem adding_adding (r : Registry) (new more : Entries Statement) :
    (r.adding new).adding more = r.adding (new ++ more) := by
  rw [adding, adding, adding, List.append_assoc]

theorem exec_loadSource_ok {source : Source} {r r' : Registry} {n : Nat} :
    exec (loadSource source) r = (.ok n, r') ↔
      ∃ es, Mapper.ofSource source.text = .ok es ∧ r.statements.IsNew es ∧ n = es.length ∧
        r' = r.adding es := by
  rw [loadSource, exec_loadSources_ok]
  constructor
  · rintro ⟨_, hall, hnew, hn, hr'⟩
    cases hall with
    | cons hes hnil =>
      cases hnil
      rw [List.flatten_singleton] at hnew hn hr'
      exact ⟨_, hes, hnew, hn, hr'⟩
  · rintro ⟨es, hes, hnew, hn, hr'⟩
    refine ⟨[es], .cons hes .nil, ?_⟩
    rw [List.flatten_singleton]
    exact ⟨hnew, hn, hr'⟩

/-- Each source is checked against a registry that already has the statements of those before it. -/
theorem exec_mapM_loadSource_ok {sources : List Source} {r r' : Registry} {counts : List Nat} :
    exec (sources.mapM loadSource) r = (.ok counts, r') ↔
      ∃ all, Makes sources all ∧ r.statements.IsNew all.flatten ∧
        counts = all.map List.length ∧ r' = r.adding all.flatten := by
  induction sources generalizing r r' counts with
  | nil =>
    rw [List.mapM_nil, exec_pure]
    constructor
    · rintro ⟨⟩
      exact ⟨[], .nil, isNew_nil _, rfl, by rw [adding, List.flatten_nil, List.append_nil]⟩
    · rintro ⟨_, ⟨⟩, _, rfl, rfl⟩
      rw [adding, List.flatten_nil, List.append_nil]
      rfl
  | cons source sources ih =>
    rw [List.mapM_cons]
    constructor
    · intro h
      rcases exec_bind_ok.1 h with ⟨n, u, hn, h⟩
      rcases exec_bind_ok.1 h with ⟨ns, u', hns, h⟩
      cases h
      rcases exec_loadSource_ok.1 hn with ⟨es, hes, hnew, rfl, rfl⟩
      rcases ih.1 hns with ⟨all, hall, hall', rfl, rfl⟩
      refine ⟨es :: all, .cons hes hall, ?_, rfl, ?_⟩
      · exact isNew_append.2 ⟨hnew, hall'⟩
      · rw [adding_adding, List.flatten_cons]
    · rintro ⟨_, hmakes, hnew, rfl, rfl⟩
      cases hmakes with
      | @cons _ es _ all hes hall =>
        rw [List.flatten_cons] at hnew
        rcases isNew_append.1 hnew with ⟨hnew, hall'⟩
        have hfirst := exec_loadSource_ok.2 ⟨es, hes, hnew, rfl, rfl⟩
        have hrest := (ih (r := r.adding es)).2 ⟨all, hall, hall', rfl, rfl⟩
        rw [adding_adding] at hrest
        rw [List.flatten_cons]
        exact exec_bind_ok.2 ⟨_, _, hfirst, exec_bind_ok.2 ⟨_, _, hrest, exec_pure _ _⟩⟩

theorem ids_perm {r r' : Registry} (h : r.statements.Perm r'.statements) : r.ids = r'.ids := by
  have hperm : r.ids.Perm r'.ids :=
    (List.mergeSort_perm _ _).trans ((h.map Prod.fst).trans (List.mergeSort_perm _ _).symm)
  have hsorted (s : Registry) : s.ids.Pairwise fun a b => (!decide (b < a)) = true := by
    apply List.pairwise_mergeSort
    · intro a b c hab hbc
      simp only [Bool.not_eq_true', decide_eq_false_iff_not, not_lt] at *
      exact hab.trans hbc
    · intro a b
      simp only [Bool.or_eq_true, Bool.not_eq_true', decide_eq_false_iff_not, not_lt]
      exact le_total a b
  apply hperm.eq_of_pairwise _ (hsorted r) (hsorted r')
  intro a b _ _ hab hba
  simp only [Bool.not_eq_true', decide_eq_false_iff_not, not_lt] at hab hba
  exact le_antisymm hab hba

/-- Two registries that nothing but the order in which statements are kept tells apart. -/
structure Alike (r r' : Registry) : Prop where
  statements : r.statements.Perm r'.statements
  lookup : ∀ id, r.statement? id = r'.statement? id
  ids : r.ids = r'.ids
  size : r.size = r'.size
  providers : r.providers = r'.providers

theorem Alike.adding {r : Registry} {new other : Entries Statement} (hnodup : new.keys.Nodup)
    (hperm : new.Perm other) : Alike (r.adding new) (r.adding other) := by
  have hstatements : (r.adding new).statements.Perm (r.adding other).statements :=
    hperm.append_left r.statements
  refine ⟨hstatements, ?_, ids_perm hstatements, hstatements.length_eq, rfl⟩
  intro id
  rw [statement?_adding, statement?_adding, get?_perm hnodup hperm]

/-- A load that succeeds also succeeds with the sources in another order. -/
theorem exec_loadSources_perm {sources other : List Source} (hperm : sources.Perm other)
    {r r' : Registry} {n : Nat} (h : exec (loadSources sources) r = (.ok n, r')) :
    ∃ r'', exec (loadSources other) r = (.ok n, r'') ∧ Alike r' r'' := by
  rcases exec_loadSources_ok.1 h with ⟨all, hall, hnew, rfl, rfl⟩
  rcases List.perm_comp_forall₂ hperm.symm hall with ⟨all', hall', hperm'⟩
  have hflatten : all.flatten.Perm all'.flatten := hperm'.symm.flatten
  refine ⟨r.adding all'.flatten, ?_, .adding hnew.1 hflatten⟩
  exact exec_loadSources_ok.2 ⟨all', hall', hnew.perm hflatten, hflatten.length_eq, rfl⟩

/-- A batch loads exactly if its sources load one after the other, and then it adds as many
statements and leaves the same registry. In another order the sources load exactly if they did in
this one, and then they leave the same statements under the same ids. -/
theorem loadSources_iff_one_by_one (sources : List Source) (r : Registry) :
    (∀ n r', exec (loadSources sources) r = (.ok n, r') ↔
      ∃ counts, exec (sources.mapM loadSource) r = (.ok counts, r') ∧ counts.sum = n) ∧
    ∀ other, sources.Perm other →
      ((∃ n r', exec (loadSources sources) r = (.ok n, r')) ↔
        ∃ n r', exec (loadSources other) r = (.ok n, r')) ∧
      ∀ n n' r' r'', exec (loadSources sources) r = (.ok n, r') →
        exec (loadSources other) r = (.ok n', r'') → n = n' ∧ Alike r' r'' := by
  refine ⟨?_, ?_⟩
  · intro n r'
    rw [exec_loadSources_ok]
    constructor
    · rintro ⟨all, hall, hnew, rfl, rfl⟩
      refine ⟨all.map List.length, exec_mapM_loadSource_ok.2 ⟨all, hall, hnew, rfl, rfl⟩, ?_⟩
      exact List.length_flatten.symm
    · rintro ⟨counts, h, rfl⟩
      rcases exec_mapM_loadSource_ok.1 h with ⟨all, hall, hnew, rfl, rfl⟩
      exact ⟨all, hall, hnew, List.length_flatten.symm, rfl⟩
  · intro other hperm
    refine ⟨⟨?_, ?_⟩, ?_⟩
    · rintro ⟨n, r', h⟩
      rcases exec_loadSources_perm hperm h with ⟨r'', h', _⟩
      exact ⟨n, r'', h'⟩
    · rintro ⟨n, r', h⟩
      rcases exec_loadSources_perm hperm.symm h with ⟨r'', h', _⟩
      exact ⟨n, r'', h'⟩
    · intro n n' r' r'' h h'
      rcases exec_loadSources_perm hperm h with ⟨s, hs, halike⟩
      rw [h'] at hs
      cases hs
      exact ⟨rfl, halike⟩

open Markup in
/-- The text of a document counts only through its lexemes. -/
theorem ofSource_of_lexemes {source : String} {ls : List Lexeme}
    (hstart : readStart? source.toList = some source.toList)
    (hlexemes : lexemes? 1 source.toList = some ls) :
    Mapper.ofSource source =
      match (readPieces? [] ls).bind fun p => if p.2.1 = [] then rootOf? p.1 else none with
      | some e => Mapper.ofElement e
      | none => .error (.xml .malformed) := by
  simp only [Mapper.ofSource, readMarkup, Markup.read, readElement?, hstart, hlexemes,
    Option.bind_eq_bind, Option.bind_some, Nat.sub_self, List.take_zero, List.count_nil]
  cases readPieces? [] ls with
  | none => rfl
  | some p =>
    rcases p with ⟨ps, ⟨_ | _, _⟩⟩
    · dsimp
      cases rootOf? ps <;> rfl
    · rfl

open Markup in
/-- Two documents with a statement each, whose statements are kept in the order of the batch. -/
theorem loadSources_either_order :
    let a : Source := ⟨"a", "<mapper namespace='a'><select id='x'/></mapper>"⟩
    let b : Source := ⟨"b", "<mapper namespace='b'><delete id='x'/></mapper>"⟩
    let r := ofProvider (.ofOptions ⟨.sqlite, .doubled⟩)
    [a, b].Perm [b, a] ∧
      ∃ r' r'', exec (loadSources [a, b]) r = (.ok 2, r') ∧ r'.statements.keys = ["a.x", "b.x"] ∧
        exec (loadSources [b, a]) r = (.ok 2, r'') ∧ r''.statements.keys = ["b.x", "a.x"] ∧
        Alike r' r'' := by
  intro a b r
  have hlexemesA : lexemes? 1 a.text.toList = some [
      ⟨.startTag ⟨[], ['m', 'a', 'p', 'p', 'e', 'r']⟩
        [⟨⟨[], ['n', 'a', 'm', 'e', 's', 'p', 'a', 'c', 'e']⟩, "a"⟩] false,
        "<mapper namespace='a'>".toList, 1⟩,
      ⟨.startTag ⟨[], ['s', 'e', 'l', 'e', 'c', 't']⟩ [⟨⟨[], ['i', 'd']⟩, "x"⟩] true,
        "<select id='x'/>".toList, 1⟩,
      ⟨.endTag ⟨[], ['m', 'a', 'p', 'p', 'e', 'r']⟩, "</mapper>".toList, 1⟩] := by
    decide +kernel
  have ha : Mapper.ofSource a.text = .ok [("a.x", ⟨"a.x", .select, "", .seq []⟩)] := by
    rw [ofSource_of_lexemes (by decide) hlexemesA]
    cbv
  have hlexemesB : lexemes? 1 b.text.toList = some [
      ⟨.startTag ⟨[], ['m', 'a', 'p', 'p', 'e', 'r']⟩
        [⟨⟨[], ['n', 'a', 'm', 'e', 's', 'p', 'a', 'c', 'e']⟩, "b"⟩] false,
        "<mapper namespace='b'>".toList, 1⟩,
      ⟨.startTag ⟨[], ['d', 'e', 'l', 'e', 't', 'e']⟩ [⟨⟨[], ['i', 'd']⟩, "x"⟩] true,
        "<delete id='x'/>".toList, 1⟩,
      ⟨.endTag ⟨[], ['m', 'a', 'p', 'p', 'e', 'r']⟩, "</mapper>".toList, 1⟩] := by
    decide +kernel
  have hb : Mapper.ofSource b.text = .ok [("b.x", ⟨"b.x", .delete, "", .seq []⟩)] := by
    rw [ofSource_of_lexemes (by decide) hlexemesB]
    cbv
  have hperm : [a, b].Perm [b, a] := .swap b a []
  have hab : exec (loadSources [a, b]) r = (.ok 2, r.adding _) :=
    exec_loadSources_ok.2 ⟨_, .cons ha (.cons hb .nil),
      ⟨by decide, List.disjoint_nil_left _⟩, rfl, rfl⟩
  have hba : exec (loadSources [b, a]) r = (.ok 2, r.adding _) :=
    exec_loadSources_ok.2 ⟨_, .cons hb (.cons ha .nil),
      ⟨by decide, List.disjoint_nil_left _⟩, rfl, rfl⟩
  have horder := (loadSources_iff_one_by_one [a, b] r).2 [b, a] hperm
  exact ⟨hperm, _, _, hab, rfl, hba, rfl, (horder.2 _ _ _ _ hab hba).2⟩

end Registry

end DynamicSql

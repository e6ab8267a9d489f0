import DynamicSql.Proofs.Template.ClauseTrim
import DynamicSql.Proofs.Template.Execution
import DynamicSql.Proofs.Template.FragmentTree
import Mathlib.Data.List.Forall2

/-!
The two texts of a rendering are two spellings of one layout. Its open places stand for the bound
values in order; the one text has their literals there, the other one the placeholders with their
numbers. Blank pieces of a loop and the trimming of set and where clauses leave all places alone.
-/

namespace DynamicSql

namespace Texts

open Layout

variable {o : Options} {n : Nat} {vs ws : List Value} {t u : Texts}

def literalChars (o : Options) (v : Value) : List Char :=
  match o.literal v with
  | .ok l => l.toList
  | .error _ => []

def sqlFill (o : Options) (hole : Value × Nat) : List Char :=
  literalChars o hole.1

def placeholderFill (o : Options) (hole : Value × Nat) : List Char :=
  (o.flavor.placeholder hole.2).toList

/-- The texts spell one layout, whose open places stand for the values and are numbered on
from `n`. All of the values have literals. -/
def Laid (o : Options) (n : Nat) (vs : List Value) (t : Texts) : Prop :=
  ∃ l : Layout (Value × Nat), holes l = vs.zipIdx (n + 1) ∧
    (∀ v ∈ vs, ∃ text, o.literal v = .ok text) ∧
    t.sql.toList = spell (sqlFill o) l ∧ t.parameterized.toList = spell (placeholderFill o) l

theorem laid_both (o : Options) (n : Nat) (s : String) : (both s).Laid o n [] :=
  ⟨ofText s, holes_ofText s, List.forall_mem_nil _, (spell_ofText _ s).symm,
    (spell_ofText _ s).symm⟩

theorem laid_bound {v : Value} {text : String} (h : o.literal v = .ok text) (n : Nat) :
    Laid o n [v] ⟨text, o.flavor.placeholder (n + 1)⟩ := by
  refine ⟨[.hole (v, n + 1)], rfl, ?_, ?_, ?_⟩
  · intro w hw
    rw [List.mem_singleton.1 hw]
    exact ⟨text, h⟩
  · simp [spell, Cell.spell, sqlFill, literalChars, h]
  · simp [spell, Cell.spell, placeholderFill]

theorem Laid.append (ht : t.Laid o n vs) (hu : u.Laid o (n + vs.length) ws) :
    (t ++ u).Laid o n (vs ++ ws) := by
  rcases ht with ⟨l, hl, hvs, hsql, hpar⟩
  rcases hu with ⟨m, hm, hws, hsql', hpar'⟩
  refine ⟨l ++ m, ?_, ?_, ?_, ?_⟩
  · rw [holes_append, hl, hm, List.zipIdx_append, Nat.add_right_comm]
  · intro v hv
    rcases List.mem_append.1 hv with hv | hv
    · exact hvs v hv
    · exact hws v hv
  · rw [spell_append, ← hsql, ← hsql']
    exact String.toList_append
  · rw [spell_append, ← hpar, ← hpar']
    exact String.toList_append

theorem spares_sqlFill {trim : Trim} (htrim : trim.IsClause) {l : Layout (Value × Nat)}
    (hl : holes l = vs.zipIdx n) (hvs : ∀ v ∈ vs, ∃ text, o.literal v = .ok text) :
    ∀ a ∈ holes l, trim.Spares (sqlFill o a) := by
  intro a ha
  rw [hl] at ha
  rcases hvs a.1 (List.fst_mem_of_mem_zipIdx ha) with ⟨text, htext⟩
  simp only [sqlFill, literalChars, htext]
  exact Trim.spares_literal htrim (Options.literal_form htext)

theorem Laid.map_apply {trim : Trim} (htrim : trim.IsClause) (ht : t.Laid o n vs) :
    (t.map trim.apply).Laid o n vs := by
  rcases ht with ⟨l, hl, hvs, hsql, hpar⟩
  have hspared := spares_sqlFill htrim hl hvs
  refine ⟨trimmed trim l, (holes_trimmed trim l).trans hl, hvs, ?_, ?_⟩
  · exact apply_spell trim hspared hsql
  · exact apply_spell trim (fun a _ => Trim.spares_placeholder htrim o.flavor a.2) hpar

/-- A piece with a bound value in it is not blank. -/
theorem Laid.eq_nil_of_isBlank (ht : t.Laid o n vs) (hblank : t.isBlank = true) : vs = [] := by
  rcases ht with ⟨l, hl, hvs, hsql, _⟩
  have hclause : Trim.setClause.IsClause := Or.inl rfl
  have hspared := spares_sqlFill hclause hl hvs
  cases vs with
  | nil => rfl
  | cons v vs =>
    have hmem : (v, n + 1) ∈ holes l := by
      rw [hl]
      exact List.mem_cons_self
    rcases (hspared _ hmem).start with ⟨c, cs, hfill, hc⟩
    have hin : c ∈ t.sql.toList := by
      rw [hsql, spell, List.mem_flatMap]
      refine ⟨.hole (v, n + 1), mem_holes.1 hmem, ?_⟩
      rw [Cell.spell, hfill]
      exact List.mem_cons_self
    have hall := List.all_eq_true.1 hblank c hin
    rw [hc] at hall
    contradiction

/-- Pieces that follow each other. -/
inductive LaidAll (o : Options) : Nat → List Value → List Texts → Prop where
  | nil (n : Nat) : LaidAll o n [] []
  | cons {n : Nat} {vs ws : List Value} {t : Texts} {ts : List Texts} :
      t.Laid o n vs → LaidAll o (n + vs.length) ws ts → LaidAll o n (vs ++ ws) (t :: ts)

theorem LaidAll.drop_blank {ts : List Texts} (h : LaidAll o n vs ts) :
    LaidAll o n vs (ts.filter fun t => !t.isBlank) := by
  induction h with
  | nil n => exact .nil n
  | @cons n vs ws t ts ht _ ih =>
    rw [List.filter_cons]
    cases hblank : t.isBlank with
    | true =>
      have hvs := ht.eq_nil_of_isBlank hblank
      subst hvs
      exact ih
    | false => exact .cons ht ih

theorem LaidAll.separated {ts : List Texts} (separator : String) (h : LaidAll o n vs ts) :
    (separated (both separator) ts).Laid o n vs := by
  induction h with
  | nil n => exact laid_both o n ""
  | @cons n vs ws t ts ht hts ih =>
    cases ts with
    | nil =>
      cases hts
      rw [List.append_nil]
      exact ht
    | cons u us =>
      have hfront := ht.append (laid_both o (n + vs.length) separator)
      rw [List.append_nil] at hfront
      exact hfront.append ih

end Texts

namespace Render

open Texts

/-- A step that gives laid texts for the values it records. -/
def Lays (o : Options) (m : Render Texts) : Prop :=
  ∀ s t u, exec m s = (.ok t, u) →
    ∃ vs, u.binds.toList = s.binds.toList ++ vs ∧ t.Laid o s.binds.size vs

variable {o : Options}

theorem lays_both (text : String) : Lays o (pure (both text)) := by
  intro s t u h
  cases h
  exact ⟨[], (List.append_nil _).symm, laid_both o _ text⟩

theorem lays_empty : Lays o (pure .empty) :=
  lays_both ""

theorem size_of_binds_append {s u : RenderState} {vs : List Value}
    (h : u.binds.toList = s.binds.toList ++ vs) : u.binds.size = s.binds.size + vs.length := by
  rw [← Array.length_toList, h, List.length_append, Array.length_toList]

theorem Lays.append {m m' : Render Texts} (hm : Lays o m) (hm' : Lays o m') :
    Lays o (m >>= fun t => m' >>= fun u => pure (t ++ u)) := by
  intro s t w h
  rcases exec_bind_ok.1 h with ⟨t, u, ht, h⟩
  rcases exec_bind_ok.1 h with ⟨t', u', ht', h⟩
  cases h
  rcases hm s t u ht with ⟨vs, hu, hlaid⟩
  rcases hm' u t' w ht' with ⟨ws, hw, hlaid'⟩
  refine ⟨vs ++ ws, ?_, ?_⟩
  · rw [hw, hu, List.append_assoc]
  · rw [size_of_binds_append hu] at hlaid'
    exact hlaid.append hlaid'

theorem exec_test_ok {e : Expression} {s u : RenderState} {b : Bool}
    (h : exec (test e) s = (.ok b, u)) : u = s := by
  rw [exec_test] at h
  split at h <;> cases h
  rfl

theorem Lays.branch {m m' : Render Texts} (hm : Lays o m) (hm' : Lays o m') (e : Expression) :
    Lays o (do if ← test e then m else m') := by
  intro s t u h
  rcases exec_bind_ok.1 h with ⟨b, s', hb, h⟩
  rw [exec_test_ok hb] at h
  cases b with
  | true => exact hm s t u h
  | false => exact hm' s t u h

theorem lays_placeholder (p : Path) : Lays o (placeholder o p) := by
  intro s t u h
  rw [exec_placeholder] at h
  split at h
  · cases h
  · next v hv =>
    split at h
    · cases h
    · next text htext =>
      cases h
      exact ⟨[v], Array.toList_push, laid_bound htext s.binds.size⟩

theorem lays_raw (p : Path) : Lays o (raw p) := by
  intro s t u h
  rw [exec_raw] at h
  split at h
  · cases h
  · split at h
    · cases h
    · next text htext =>
      cases h
      exact ⟨[], (List.append_nil _).symm, laid_both o _ text⟩

theorem lays_bind_name (name : String) (e : Expression) : Lays o (bind name e) := by
  intro s t u h
  rw [exec_bind_name] at h
  split at h
  · cases h
    exact ⟨[], (List.append_nil _).symm, laid_both o _ ""⟩
  · cases h

theorem Lays.map_apply {m : Render Texts} (hm : Lays o m) {trim : Trim} (htrim : trim.IsClause) :
    Lays o (do return (← m).map trim.apply) := by
  intro s t u h
  rcases exec_bind_ok.1 h with ⟨t', u', ht', h⟩
  cases h
  rcases hm s t' u ht' with ⟨vs, hu, hlaid⟩
  exact ⟨vs, hu, hlaid.map_apply htrim⟩

theorem Lays.withScope {m : Render Texts} (hm : Lays o m) (scope : Scope) :
    Lays o (withScope scope m) := by
  intro s t u h
  rw [exec_withScope, Prod.mk.injEq] at h
  cases hrun : exec m { s with context := s.context.push scope } with
  | mk r u' =>
    rw [hrun] at h
    rcases h with ⟨rfl, rfl⟩
    exact hm { s with context := s.context.push scope } t u' hrun

theorem Lays.eachEntry {body : Render Texts} (hbody : Lays o body) (spec : Loop)
    (es : List (Value × Value)) {s u : RenderState} {ts : List Texts}
    (h : exec (eachEntry spec body es) s = (.ok ts, u)) :
    ∃ vs, u.binds.toList = s.binds.toList ++ vs ∧ LaidAll o s.binds.size vs ts := by
  induction es generalizing s ts with
  | nil =>
    cases h
    exact ⟨[], (List.append_nil _).symm, .nil _⟩
  | cons e es ih =>
    rcases exec_bind_ok.1 h with ⟨t, s', ht, h⟩
    rcases exec_bind_ok.1 h with ⟨ts', u', hts', h⟩
    cases h
    rcases hbody.withScope _ s t s' ht with ⟨vs, hs', hlaid⟩
    rcases ih hts' with ⟨ws, hu, hall⟩
    refine ⟨vs ++ ws, ?_, ?_⟩
    · rw [hu, hs', List.append_assoc]
    · rw [size_of_binds_append hs'] at hall
      exact .cons hlaid hall

theorem Lays.loop {body : Render Texts} (hbody : Lays o body) (spec : Loop) :
    Lays o (loop spec body) := by
  intro s t u h
  rcases exec_bind_ok.1 h with ⟨es, s', hes, h⟩
  rcases exec_bind_ok.1 h with ⟨ts, u', hts, h⟩
  have hs' : s' = s := by
    have hstate := exec_entries_state spec.collection s
    rw [hes] at hstate
    exact hstate
  subst hs'
  rcases hbody.eachEntry spec es hts with ⟨vs, hu, hall⟩
  cases ts with
  | nil =>
    cases h
    cases hall
    exact ⟨[], hu, laid_both o _ ""⟩
  | cons piece pieces =>
    cases h
    refine ⟨vs, hu, ?_⟩
    have hjoined := hall.drop_blank.separated (spec.separator.getD "")
    have hopened := (laid_both o s'.binds.size (spec.before.getD "")).append hjoined
    have hclosed := hopened.append (laid_both o _ (spec.after.getD ""))
    rw [List.nil_append, List.append_nil] at hclosed
    exact hclosed

end Render

/-- The texts with the fillings between them, of which there is one less. -/
def interleave : List String → List String → String
  | t :: ts, filling :: fillings => t ++ filling ++ interleave ts fillings
  | t :: _, [] => t
  | [], _ => ""

/-- The texts between the open places of a layout. -/
theorem Layout.exists_interleave {α : Type} (l : Layout α) :
    ∃ ts : List String, ts.length = (holes l).length + 1 ∧
      ∀ fill : α → List Char, String.ofList (spell fill l) =
        interleave ts ((holes l).map fun a => String.ofList (fill a)) := by
  induction l with
  | nil => exact ⟨[""], rfl, fun _ => rfl⟩
  | cons c l ih =>
    rcases ih with ⟨ts, hlength, hts⟩
    cases c with
    | fixed c =>
      cases ts with
      | nil => contradiction
      | cons t ts =>
        refine ⟨(String.singleton c ++ t) :: ts, hlength, ?_⟩
        intro fill
        have hcons : String.ofList (spell fill (.fixed c :: l)) =
            String.singleton c ++ String.ofList (spell fill l) := by
          rw [String.singleton_eq_ofList, ← String.ofList_append]
          rfl
        rw [hcons, hts fill]
        change _ = interleave _ ((holes l).map fun a => String.ofList (fill a))
        cases holes l <;> simp [interleave, String.append_assoc]
    | hole a =>
      refine ⟨"" :: ts, congrArg Nat.succ hlength, ?_⟩
      intro fill
      have hcons : String.ofList (spell fill (.hole a :: l)) =
          String.ofList (fill a) ++ String.ofList (spell fill l) :=
        String.ofList_append
      rw [hcons, hts fill]
      change _ = "" ++ String.ofList (fill a) ++
        interleave ts ((holes l).map fun a => String.ofList (fill a))
      rw [String.empty_append]

namespace Fragment

open Render

variable {o : Options}

/-- All trimming in the tree is that of set and where clauses. -/
def TrimsClauses (f : Fragment) : Prop :=
  ∀ spec body, .trim spec body ∈ f.nodes → spec.IsClause

theorem lays_renderAll {fs : List Fragment} (h : ∀ f ∈ fs, Lays o (f.render o)) :
    Lays o (renderAll o fs) := by
  induction fs with
  | nil => exact lays_empty
  | cons f fs ih =>
    exact (h f List.mem_cons_self).append (ih fun g hg => h g (List.mem_cons_of_mem f hg))

theorem lays_renderChoice {otherwise : Render Texts} (hotherwise : Lays o otherwise)
    {branches : List (Expression × Fragment)} (h : ∀ b ∈ branches, Lays o (b.2.render o)) :
    Lays o (renderChoice o otherwise branches) := by
  induction branches with
  | nil => exact hotherwise
  | cons b branches ih =>
    exact (h b List.mem_cons_self).branch (ih fun c hc => h c (List.mem_cons_of_mem b hc)) b.1

theorem lays_render (o : Options) (f : Fragment) : f.TrimsClauses → Lays o (f.render o) := by
  induction f using Fragment.induction with
  | step f ih =>
    intro hf
    have hchild : ∀ g ∈ f.children, Lays o (g.render o) := by
      intro g hg
      apply ih g hg
      intro spec body hbody
      exact hf spec body (mem_nodes_of_mem_children hg hbody)
    cases f with
    | text s =>
      rw [render]
      exact lays_both s
    | placeholder p => exact lays_placeholder p
    | raw p => exact lays_raw p
    | conditional e body => exact (hchild body List.mem_cons_self).branch lays_empty e
    | choose branches otherwise =>
      rw [render]
      apply lays_renderChoice
      · cases otherwise with
        | none => exact lays_empty
        | some g => exact hchild g (List.mem_append_right _ List.mem_cons_self)
      · intro b hb
        exact hchild b.2 (List.mem_append_left _ (List.mem_map_of_mem hb))
    | loop spec body => exact (hchild body List.mem_cons_self).loop spec
    | trim spec body =>
      exact (hchild body List.mem_cons_self).map_apply (hf spec body (self_mem_nodes _))
    | bind name e => exact lays_bind_name name e
    | seq items => exact lays_renderAll hchild

/-- The text with literals and the text with placeholders agree but for the places of the bound
values, where the one has their literals and the other their placeholders, numbered from one. -/
theorem render_texts_parallel (f : Fragment) (hf : f.TrimsClauses) (o : Options) (c : Context)
    (r : Rendered) (hr : (f.renderUnder o c).1 = .ok r) :
    ∃ statics literals : List String, statics.length = r.binds.length + 1 ∧
      List.Forall₂ (fun v l => o.literal v = .ok l) r.binds literals ∧
      r.sql = interleave statics literals ∧
      r.parameterized =
        interleave statics ((List.range' 1 r.binds.length).map o.flavor.placeholder) := by
  rw [renderUnder_eq] at hr
  cases hrun : exec (f.render o) ⟨c, #[]⟩ with
  | mk outcome u =>
    rw [hrun] at hr
    cases outcome with
    | error e => cases hr
    | ok t =>
      cases hr
      rcases lays_render o f hf ⟨c, #[]⟩ t u hrun with ⟨vs, hbinds, l, hholes, hvs, hsql, hpar⟩
      rw [List.nil_append] at hbinds
      rcases l.exists_interleave with ⟨statics, hlength, hstatics⟩
      have hliterals : (Layout.holes l).map (fun a => String.ofList (Texts.sqlFill o a)) =
          vs.map fun v => String.ofList (Texts.literalChars o v) := by
        conv_rhs => rw [← List.zipIdx_map_fst 1 vs, List.map_map]
        rw [hholes]
        rfl
      have hplaceholders :
          (Layout.holes l).map (fun a => String.ofList (Texts.placeholderFill o a)) =
            (List.range' 1 vs.length).map o.flavor.placeholder := by
        rw [hholes, ← List.zipIdx_map_snd, List.map_map]
        apply List.map_congr_left
        intro a _
        exact String.ofList_toList
      refine ⟨statics, vs.map fun v => String.ofList (Texts.literalChars o v), ?_, ?_, ?_, ?_⟩
      · rw [hlength, hholes, List.length_zipIdx, hbinds]
      · rw [hbinds, List.forall₂_map_right_iff, List.forall₂_same]
        intro v hv
        rcases hvs v hv with ⟨text, htext⟩
        simp [Texts.literalChars, htext]
      · rw [← hliterals, ← hstatics, ← hsql, String.ofList_toList]
      · rw [hbinds, ← hplaceholders, ← hstatics, ← hpar, String.ofList_toList]

/-- A conjunction that is cut off in front of a bound value, and a loop whose one piece is blank. -/
theorem render_texts_parallel_where :
    let f : Fragment := .seq [.text "SELECT 1 ", .trim .whereClause (.seq [.text " AND a = ",
      .placeholder (.single "a")]), .loop { collection := .single "b", item := "x" } (.text " ")]
    let c := Context.ofRoot (.map [("a", .text "or "), ("b", .list [.null])])
    let r : Rendered :=
      ⟨"SELECT 1 WHERE a = 'or '", "SELECT 1 WHERE a = $1", [.text "or "]⟩
    f.TrimsClauses ∧ (f.renderUnder ⟨.postgreSql, .doubled⟩ c).1 = .ok r ∧
      ∃ statics literals : List String, statics.length = r.binds.length + 1 ∧
        List.Forall₂ (fun v l => (Options.mk .postgreSql .doubled).literal v = .ok l) r.binds
          literals ∧
        r.sql = interleave statics literals ∧
        r.parameterized =
          interleave statics ((List.range' 1 r.binds.length).map Flavor.postgreSql.placeholder) := by
  intro f c r
  have hf : f.TrimsClauses := by
    intro spec body h
    simp [f, nodes, listNodes] at h
    exact Or.inr h.1
  have hr : (f.renderUnder ⟨.postgreSql, .doubled⟩ c).1 = .ok r := by
    rfl
  exact ⟨hf, hr, render_texts_parallel f hf ⟨.postgreSql, .doubled⟩ c r hr⟩

end Fragment

end DynamicSql

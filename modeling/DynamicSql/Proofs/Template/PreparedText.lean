import Mathlib
import DynamicSql.Proofs.Parameter.Shape
import DynamicSql.Proofs.Template.ParallelTexts
import DynamicSql.Proofs.Template.TwoRuns

/-!
The text of a prepared statement does not hang on the values that are bound. Root values of one
shape render to one parameterized text, with as many binds, for every tree that neither tests nor
writes out a value: loops have as many entries, and whether a piece of a loop is blank can be told
from the text with the placeholders, since neither a literal nor a placeholder is blank.
-/

namespace DynamicSql

namespace Layout

variable {α : Type} {fill : α → List Char}

/-- Only fixed blanks are blank. -/
theorem all_isBlank_spell {l : Layout α} (h : ∀ a ∈ holes l, Trim.StartsInk (fill a)) :
    (spell fill l).all Text.isBlankChar = l.all Cell.isBlank := by
  induction l with
  | nil => rfl
  | cons c l ih =>
    cases c with
    | fixed c =>
      have hl := ih h
      change (c :: spell fill l).all Text.isBlankChar = _
      rw [List.all_cons, List.all_cons, hl]
      rfl
    | hole a =>
      obtain ⟨c, cs, ha, hc⟩ := h a List.mem_cons_self
      change (fill a ++ spell fill l).all Text.isBlankChar = _
      rw [ha, List.cons_append, List.all_cons, hc]
      rfl

end Layout

namespace Texts

variable {o : Options} {n : Nat} {vs : List Value} {t t' : Texts}

/-- Both texts of a piece are blank or neither is. -/
theorem Laid.isBlank_eq (h : t.Laid o n vs) : t.isBlank = Text.isBlank t.parameterized := by
  obtain ⟨l, hl, hvs, hsql, hpar⟩ := h
  have hclause : Trim.setClause.IsClause := .inl rfl
  have hliterals := spares_sqlFill hclause hl hvs
  rw [isBlank, Text.isBlank, Text.isBlank, hsql, hpar,
    Layout.all_isBlank_spell fun a ha => (hliterals a ha).start,
    Layout.all_isBlank_spell fun a _ => (Trim.spares_placeholder hclause o.flavor a.2).start]

theorem LaidAll.isBlank_eq {ts : List Texts} (h : LaidAll o n vs ts) :
    ∀ t ∈ ts, t.isBlank = Text.isBlank t.parameterized := by
  induction h with
  | nil n => exact List.forall_mem_nil _
  | cons ht _ ih => exact List.forall_mem_cons.2 ⟨ht.isBlank_eq, ih⟩

/-- The same with placeholders, and blank or not alike. -/
def SamePiece (t t' : Texts) : Prop :=
  t.parameterized = t'.parameterized ∧ t.isBlank = t'.isBlank

theorem separated_congr (separator : Texts) {ts ts' : List Texts}
    (h : List.Forall₂ SamePiece ts ts') :
    (separated separator ts).parameterized = (separated separator ts').parameterized := by
  induction h with
  | nil => rfl
  | @cons t t' ts ts' ht hts ih =>
    cases hts with
    | nil => exact ht.1
    | @cons u u' us us' hu hus =>
      change t.parameterized ++ separator.parameterized ++ _ =
        t'.parameterized ++ separator.parameterized ++ _
      rw [ht.1, ih]

theorem written_congr (spec : Loop) {ts ts' : List Texts} (h : List.Forall₂ SamePiece ts ts') :
    (spec.written ts).parameterized = (spec.written ts').parameterized := by
  have hkept := List.rel_filter (p := fun t : Texts => !t.isBlank) (q := fun t => !t.isBlank)
    (fun t t' (ht : SamePiece t t') => by simp [ht.2]) h
  have hjoined := separated_congr (both (spec.separator.getD "")) hkept
  cases h with
  | nil => rfl
  | @cons t t' ts ts' ht hts =>
    change (spec.before.getD "") ++ (separated _ _).parameterized ++ _ =
      (spec.before.getD "") ++ (separated _ _).parameterized ++ _
    rw [hjoined]

/-- Pieces that agree in their text with placeholders agree in whether they are blank. -/
theorem samePiece_of_laid {ts ts' : List Texts} {m : Nat} {ws : List Value}
    (h : List.Forall₂ (fun t t' : Texts => t.parameterized = t'.parameterized) ts ts')
    (hts : LaidAll o n vs ts) (hts' : LaidAll o m ws ts') : List.Forall₂ SamePiece ts ts' := by
  have hblank := hts.isBlank_eq
  have hblank' := hts'.isBlank_eq
  clear hts hts'
  induction h with
  | nil => exact .nil
  | cons ht _ ih =>
    obtain ⟨hb, hblank⟩ := List.forall_mem_cons.1 hblank
    obtain ⟨hb', hblank'⟩ := List.forall_mem_cons.1 hblank'
    exact .cons ⟨ht, by rw [hb, hb', ht]⟩ (ih hblank hblank')

end Texts

namespace Render

open Texts Value

variable {o : Options} {m m' k k' : Render Texts}

/-- Both steps give laid texts, and where both succeed the texts with placeholders are the same. -/
structure PreparesAlike (o : Options) (m m' : Render Texts) : Prop where
  left : Lays o m
  right : Lays o m'
  run : ∀ {s s' u u' : RenderState} {t t' : Texts}, StatesPaired SameShape s s' →
    exec m s = (.ok t, u) → exec m' s' = (.ok t', u') →
      t.parameterized = t'.parameterized ∧ StatesPaired SameShape u u'

theorem exec_entries_ok {p : Path} {s u : RenderState} {es : List (Value × Value)}
    (h : exec (entries p) s = (.ok es, u)) :
    u = s ∧ ((∃ e, s.context.resolve p = .error e) ∧ es = [] ∨
      ∃ v, s.context.resolve p = .ok v ∧ loopEntries? v = some es) := by
  rw [exec_entries] at h
  cases hresolve : s.context.resolve p with
  | error e =>
    rw [hresolve] at h
    cases e <;> cases h
    exact ⟨rfl, .inl ⟨⟨_, rfl⟩, rfl⟩⟩
  | ok v =>
    rw [hresolve] at h
    dsimp only at h
    cases hes : loopEntries? v with
    | none =>
      rw [hes] at h
      cases h
    | some found =>
      rw [hes] at h
      cases h
      exact ⟨rfl, .inr ⟨v, rfl, hes⟩⟩

theorem loopEntries?_of_scalar {v : Value} (hv : v.isScalar = true) {es : List (Value × Value)}
    (h : loopEntries? v = some es) : es = [] := by
  cases v <;> first | contradiction | cases h
  rfl

theorem loopEntries?_sameShape {v w : Value} (h : SameShape v w) {es es' : List (Value × Value)}
    (hv : loopEntries? v = some es) (hw : loopEntries? w = some es') :
    List.Forall₂ (EntriesRelated SameShape) es es' := by
  cases h with
  | scalar hs hs' =>
    rw [loopEntries?_of_scalar hs hv, loopEntries?_of_scalar hs' hw]
    exact .nil
  | list h =>
    cases hv
    cases hw
    exact zipIdx_related (fun _ => .scalar rfl rfl) h 0
  | map hkeys hvalues =>
    cases hv
    cases hw
    exact mapEntries_related (fun _ => .scalar rfl rfl) hkeys hvalues

/-- Two collections of one shape have as many entries, if a loop runs over both of them. -/
theorem entries_sameShape {p : Path} {s s' u u' : RenderState} {es es' : List (Value × Value)}
    (hs : StatesPaired SameShape s s') (h : exec (entries p) s = (.ok es, u))
    (h' : exec (entries p) s' = (.ok es', u')) :
    List.Forall₂ (EntriesRelated SameShape) es es' ∧ StatesPaired SameShape u u' := by
  obtain ⟨rfl, hes⟩ := exec_entries_ok h
  obtain ⟨rfl, hes'⟩ := exec_entries_ok h'
  refine ⟨?_, hs⟩
  have hresolve := hs.context.resolve_sameShape p
  obtain ⟨⟨e, he⟩, rfl⟩ | ⟨v, hv, hes⟩ := hes
  · obtain ⟨_, rfl⟩ | ⟨w, hw, _⟩ := hes'
    · exact .nil
    · rw [he, hw] at hresolve
      cases hresolve
  · obtain ⟨⟨e, he⟩, _⟩ | ⟨w, hw, hes'⟩ := hes'
    · rw [hv, he] at hresolve
      cases hresolve
    · rw [hv, hw] at hresolve
      cases hresolve with
      | ok hvw => exact loopEntries?_sameShape hvw hes hes'

namespace PreparesAlike

theorem text (o : Options) (s : String) : PreparesAlike o (pure (both s)) (pure (both s)) where
  left := lays_both s
  right := lays_both s
  run := by
    intro s s' u u' t t' hs h h'
    cases h
    cases h'
    exact ⟨rfl, hs⟩

theorem placeholder (o : Options) (p : Path) :
    PreparesAlike o (Render.placeholder o p) (Render.placeholder o p) where
  left := lays_placeholder p
  right := lays_placeholder p
  run := by
    intro s s' u u' t t' hs h h'
    rw [exec_placeholder] at h h'
    split at h
    · cases h
    · split at h
      · cases h
      · split at h'
        · cases h'
        · split at h'
          · cases h'
          · cases h
            cases h'
            refine ⟨by rw [hs.binds], hs.context, ?_⟩
            rw [Array.size_push, Array.size_push, hs.binds]

theorem append (hm : PreparesAlike o m m') (hk : PreparesAlike o k k') :
    PreparesAlike o (m >>= fun t => k >>= fun u => pure (t ++ u))
      (m' >>= fun t => k' >>= fun u => pure (t ++ u)) where
  left := hm.left.append hk.left
  right := hm.right.append hk.right
  run := by
    intro s s' u u' t t' hs h h'
    obtain ⟨x, v, hx, h⟩ := exec_bind_ok.1 h
    obtain ⟨y, w, hy, h⟩ := exec_bind_ok.1 h
    obtain ⟨x', v', hx', h'⟩ := exec_bind_ok.1 h'
    obtain ⟨y', w', hy', h'⟩ := exec_bind_ok.1 h'
    cases h
    cases h'
    obtain ⟨hxx, hv⟩ := hm.run hs hx hx'
    obtain ⟨hyy, hw⟩ := hk.run hv hy hy'
    refine ⟨?_, hw⟩
    change x.parameterized ++ y.parameterized = x'.parameterized ++ y'.parameterized
    rw [hxx, hyy]

theorem map_apply (hm : PreparesAlike o m m') {trim : Trim} (htrim : trim.IsClause) :
    PreparesAlike o (m >>= fun t => pure (t.map trim.apply))
      (m' >>= fun t => pure (t.map trim.apply)) where
  left := hm.left.map_apply htrim
  right := hm.right.map_apply htrim
  run := by
    intro s s' u u' t t' hs h h'
    obtain ⟨x, v, hx, h⟩ := exec_bind_ok.1 h
    obtain ⟨x', v', hx', h'⟩ := exec_bind_ok.1 h'
    cases h
    cases h'
    obtain ⟨hxx, hv⟩ := hm.run hs hx hx'
    exact ⟨congrArg trim.apply hxx, hv⟩

theorem withScope (hm : PreparesAlike o m m') {scope scope' : Scope}
    (hscope : Context.ScopesRelated SameShape scope scope') {s s' u u' : RenderState} {t t' : Texts}
    (hs : StatesPaired SameShape s s') (h : exec (Render.withScope scope m) s = (.ok t, u))
    (h' : exec (Render.withScope scope' m') s' = (.ok t', u')) :
    t.parameterized = t'.parameterized ∧ StatesPaired SameShape u u' := by
  rw [exec_withScope, Prod.mk.injEq] at h h'
  obtain ⟨hrun, rfl⟩ := h
  obtain ⟨hrun', rfl⟩ := h'
  have hscopes := statesPaired_keepsScopes SameShape
  obtain ⟨htt, hu⟩ := hm.run (hscopes.push hs hscope) (Prod.ext hrun rfl) (Prod.ext hrun' rfl)
  exact ⟨htt, hscopes.truncate hs hu⟩

theorem eachEntry (hm : PreparesAlike o m m') (spec : Loop) {es es' : List (Value × Value)}
    (hes : List.Forall₂ (EntriesRelated SameShape) es es') {s s' u u' : RenderState}
    {ts ts' : List Texts} (hs : StatesPaired SameShape s s')
    (h : exec (Render.eachEntry spec m es) s = (.ok ts, u))
    (h' : exec (Render.eachEntry spec m' es') s' = (.ok ts', u')) :
    List.Forall₂ (fun t t' : Texts => t.parameterized = t'.parameterized) ts ts' ∧
      StatesPaired SameShape u u' := by
  induction hes generalizing s s' ts ts' with
  | nil =>
    cases h
    cases h'
    exact ⟨.nil, hs⟩
  | cons he _ ih =>
    obtain ⟨t, v, ht, h⟩ := exec_bind_ok.1 h
    obtain ⟨ts, w, hts, h⟩ := exec_bind_ok.1 h
    obtain ⟨t', v', ht', h'⟩ := exec_bind_ok.1 h'
    obtain ⟨ts', w', hts', h'⟩ := exec_bind_ok.1 h'
    cases h
    cases h'
    obtain ⟨htt, hv⟩ := hm.withScope (entryScope_related spec he) hs ht ht'
    obtain ⟨htail, hw⟩ := ih hv hts hts'
    exact ⟨.cons htt htail, hw⟩

theorem loop (hm : PreparesAlike o m m') (spec : Loop) :
    PreparesAlike o (Render.loop spec m) (Render.loop spec m') where
  left := hm.left.loop spec
  right := hm.right.loop spec
  run := by
    intro s s' u u' t t' hs h h'
    rw [loop_eq] at h h'
    obtain ⟨es, v, hes, h⟩ := exec_bind_ok.1 h
    obtain ⟨ts, w, hts, h⟩ := exec_bind_ok.1 h
    obtain ⟨es', v', hes', h'⟩ := exec_bind_ok.1 h'
    obtain ⟨ts', w', hts', h'⟩ := exec_bind_ok.1 h'
    cases h
    cases h'
    obtain ⟨hentries, hv⟩ := entries_sameShape hs hes hes'
    obtain ⟨hpieces, hw⟩ := hm.eachEntry spec hentries hv hts hts'
    -- which pieces are dropped is decided on the literals, which differ in the two runs
    obtain ⟨_, _, hlaid⟩ := hm.left.eachEntry spec es hts
    obtain ⟨_, _, hlaid'⟩ := hm.right.eachEntry spec es' hts'
    exact ⟨written_congr spec (samePiece_of_laid hpieces hlaid hlaid'), hw⟩

end PreparesAlike

end Render

namespace Fragment

open Render

/-- A fragment that a prepared statement may have: a static text, a bound value, or what puts such
fragments together without looking at a value. -/
def isPreparedNode : Fragment → Bool
  | .text _ | .placeholder _ | .seq _ | .loop _ _ => true
  | .trim spec _ => spec == .setClause || spec == .whereClause
  | .raw _ | .conditional _ _ | .choose _ _ | .bind _ _ => false

def IsPrepared (f : Fragment) : Prop :=
  ∀ g ∈ f.nodes, g.isPreparedNode = true

theorem preparesAlike_render {f : Fragment} (hf : f.IsPrepared) (o : Options) :
    PreparesAlike o (f.render o) (f.render o) := by
  apply f.render_induction o o
  · intro g hg hleaf
    have hnode := hf g hg
    cases g with
    | text s =>
      rw [render]
      exact .text o s
    | placeholder p => exact .placeholder o p
    | _ => contradiction
  · exact .text o ""
  · exact fun m m' k k' hm hk => hm.append hk
  · intro g hg t ht
    have hnode := hf g hg
    cases g <;> contradiction
  · exact fun spec body _ m m' hm => hm.loop spec
  · intro spec body hmem m m' hm
    apply hm.map_apply
    have hnode := hf _ hmem
    simpa [isPreparedNode, Trim.IsClause] using hnode

theorem exists_run_of_ok {f : Fragment} {o : Options} {c : Context} {r : Rendered}
    (h : (f.renderUnder o c).1 = .ok r) :
    ∃ t u, exec (f.render o) ⟨c, #[]⟩ = (.ok t, u) ∧
      r = ⟨t.sql, t.parameterized, u.binds.toList⟩ := by
  rw [renderUnder_eq] at h
  obtain ⟨t, ht, rfl⟩ := map_eq_ok.1 h
  exact ⟨t, _, Prod.ext ht rfl, rfl⟩

/-- Root values of one shape give one parameterized text and as many binds, where both of them can
be rendered. -/
theorem renderUnder_sameShape {f : Fragment} (hf : f.IsPrepared) (o : Options) {a b : Value}
    (hab : Value.SameShape a b) {r r' : Rendered} (hr : (f.renderUnder o (.ofRoot a)).1 = .ok r)
    (hr' : (f.renderUnder o (.ofRoot b)).1 = .ok r') :
    r.parameterized = r'.parameterized ∧ r.binds.length = r'.binds.length := by
  obtain ⟨t, u, ht, rfl⟩ := exists_run_of_ok hr
  obtain ⟨t', u', ht', rfl⟩ := exists_run_of_ok hr'
  have hstates : StatesPaired Value.SameShape ⟨.ofRoot a, #[]⟩ ⟨.ofRoot b, #[]⟩ :=
    ⟨Context.paired_ofRoot hab, rfl⟩
  obtain ⟨htext, hu⟩ := (preparesAlike_render hf o).run hstates ht ht'
  refine ⟨htext, ?_⟩
  rw [Array.length_toList, Array.length_toList]
  exact hu.binds

/-- Bound values that look like a conjunction, like nothing or like more of the statement. The loops
are empty, of one and of two entries. -/
theorem renderUnder_sameShape_where :
    let xs : Loop :=
      { collection := .single "row", item := "x", before := some " AND b IN (", after := some ")",
        separator := some "," }
    let f : Fragment := .seq [.text "SELECT 1 ", .trim .whereClause (.seq [.text " AND a = ",
      .placeholder (.single "a"), .loop { collection := .single "rows", item := "row" }
        (.loop xs (.placeholder (.single "x")))])]
    let a : Value := .map [("a", .text "or "),
      ("rows", .list [.list [.null], .list [], .list [.text " ", .text "), (1"]])]
    let b : Value := .map [("a", .number (.int 5)),
      ("rows", .list [.list [.bool true], .list [], .list [.null, .text ""]])]
    let o : Options := ⟨.postgreSql, .doubled⟩
    let r : Rendered := ⟨"SELECT 1 WHERE a = 'or ' AND b IN (NULL) AND b IN (' ','), (1')",
      "SELECT 1 WHERE a = $1 AND b IN ($2) AND b IN ($3,$4)",
      [.text "or ", .null, .text " ", .text "), (1"]⟩
    let r' : Rendered := ⟨"SELECT 1 WHERE a = 5 AND b IN (TRUE) AND b IN (NULL,'')",
      "SELECT 1 WHERE a = $1 AND b IN ($2) AND b IN ($3,$4)",
      [.number (.int 5), .bool true, .null, .text ""]⟩
    f.IsPrepared ∧ Value.SameShape a b ∧ (f.renderUnder o (.ofRoot a)).1 = .ok r ∧
      (f.renderUnder o (.ofRoot b)).1 = .ok r' ∧
      r.parameterized = r'.parameterized ∧ r.binds.length = r'.binds.length := by
  intro xs f a b o r r'
  have hf : f.IsPrepared := by
    unfold IsPrepared
    rw [← List.all_eq_true]
    rfl
  have hab : Value.SameShape a b := by
    refine .map rfl (.cons (.scalar rfl rfl) (.cons (.list ?_) .nil))
    refine .cons (.list (.cons (.scalar rfl rfl) .nil)) (.cons (.list .nil) (.cons (.list ?_) .nil))
    exact .cons (.scalar rfl rfl) (.cons (.scalar rfl rfl) .nil)
  have hr : (f.renderUnder o (.ofRoot a)).1 = .ok r := by cbv
  have hr' : (f.renderUnder o (.ofRoot b)).1 = .ok r' := by cbv
  exact ⟨hf, hab, hr, hr', renderUnder_sameShape hf o hab hr hr'⟩

end Fragment

end DynamicSql

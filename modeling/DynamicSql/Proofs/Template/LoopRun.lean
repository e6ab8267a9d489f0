import DynamicSql.Proofs.Template.Scopes

/-!
What a loop does. The body runs once for each entry, in order and under one more scope, which is
gone afterwards; what one round binds and records is there in the rounds that follow. The pieces
that are not blank are written with separators between them, the same pieces in both texts.
-/

namespace DynamicSql

/-- The state under one more scope. -/
def RenderState.under (s : RenderState) (scope : Scope) : RenderState :=
  { s with context := s.context.push scope }

theorem RenderState.under_injective {s t : RenderState} {scope : Scope}
    (h : s.under scope = t.under scope) : s = t := by
  cases s with
  | mk c binds =>
    cases t with
    | mk d binds' =>
      cases c
      cases d
      cases h
      rfl

namespace Loop

/-- What a loop writes around some texts and between them. -/
def spelled (spec : Loop) (texts : List String) : String :=
  spec.before.getD "" ++ (spec.separator.getD "").intercalate texts ++ spec.after.getD ""

/-- What a loop makes of its pieces. The text with literals decides which of them are kept. -/
def assembled (spec : Loop) (pieces : List Texts) : Texts :=
  let kept := pieces.filter fun t => !Text.isBlank t.sql
  ⟨spec.spelled (kept.map Texts.sql), spec.spelled (kept.map Texts.parameterized)⟩

end Loop

theorem Texts.separated_eq (separator : String) (ts : List Texts) :
    separated (both separator) ts =
      ⟨separator.intercalate (ts.map sql), separator.intercalate (ts.map parameterized)⟩ := by
  induction ts with
  | nil => rfl
  | cons t ts ih =>
    cases ts with
    | nil => simp [separated]
    | cons u us =>
      change t ++ both separator ++ separated (both separator) (u :: us) = _
      rw [ih]
      simp only [List.map_cons, String.intercalate_cons_cons]
      rfl

theorem Loop.written_eq_assembled (spec : Loop) {pieces : List Texts} (h : pieces ≠ []) :
    spec.written pieces = spec.assembled pieces := by
  cases pieces with
  | nil => contradiction
  | cons t ts =>
    change Texts.both _ ++ Texts.separated (.both _) _ ++ Texts.both _ = _
    rw [Texts.separated_eq]
    rfl

namespace Render

/-- One round of a loop. The index and the entry are known to the body, and to nothing else. -/
def Round (spec : Loop) (body : Render Texts) (s : RenderState) (entry : Value × Value)
    (r : Except RenderError Texts) (t : RenderState) : Prop :=
  let scope := entryScope spec entry.1 entry.2
  exec body (s.under scope) = (r, t.under scope)

/-- One round for each entry, each in the state that the one before has left. -/
inductive Rounds (spec : Loop) (body : Render Texts) :
    RenderState → List (Value × Value) → List Texts → RenderState → Prop
  | nil (s : RenderState) : Rounds spec body s [] [] s
  | cons {s t u : RenderState} {entry : Value × Value} {es : List (Value × Value)} {piece : Texts}
      {pieces : List Texts} :
      Round spec body s entry (.ok piece) t → Rounds spec body t es pieces u →
        Rounds spec body s (entry :: es) (piece :: pieces) u

/-- How a loop goes that starts in a state: its outcome, and the state that it leaves. -/
inductive LoopRun (spec : Loop) (body : Render Texts) (s : RenderState) :
    Except RenderError Texts → RenderState → Prop
  | missing {path : String} :
      s.context.resolve spec.collection = .error (.notFound path) →
        LoopRun spec body s (.ok .empty) s
  /-- A null, or a collection without entries. -/
  | idle {v : Value} :
      s.context.resolve spec.collection = .ok v → loopEntries? v = some [] →
        LoopRun spec body s (.ok .empty) s
  | finished {v : Value} {es : List (Value × Value)} {pieces : List Texts} {t : RenderState} :
      s.context.resolve spec.collection = .ok v → loopEntries? v = some es → es ≠ [] →
      Rounds spec body s es pieces t → LoopRun spec body s (.ok (spec.assembled pieces)) t
  /-- The first round that fails is the last one. -/
  | failed {v : Value} {before after : List (Value × Value)} {entry : Value × Value}
      {pieces : List Texts} {e : RenderError} {t u : RenderState} :
      s.context.resolve spec.collection = .ok v →
      loopEntries? v = some (before ++ entry :: after) →
      Rounds spec body s before pieces t → Round spec body t entry (.error e) u →
        LoopRun spec body s (.error e) u
  | mismatched {path : String} {found : Kind} :
      s.context.resolve spec.collection = .error (.typeMismatch path found) →
        LoopRun spec body s (.error (.resolve (.typeMismatch path found))) s
  | unfit {v : Value} :
      s.context.resolve spec.collection = .ok v → loopEntries? v = none →
        LoopRun spec body s (.error (.notCollection spec.collection.source v.kind)) s

theorem get?_entryScope (spec : Loop) (index item : Value) (name : String) :
    (entryScope spec index item).get? name =
      if spec.index = some name then some index
      else if spec.item = name then some item
      else none := by
  have hitem : Entries.get? [(spec.item, item)] name =
      if spec.item = name then some item else none := by
    simp [Entries.get?]
  unfold entryScope
  cases spec.index with
  | none => simp [hitem]
  | some indexName => simp [Entries.get?_insert, hitem]

variable {names : List String} {body : Render Texts} {spec : Loop}

theorem exec_withScope_under {α : Type} {m : Render α} {scope : Scope} {s t : RenderState}
    {r : Except RenderError α} (h : exec m (s.under scope) = (r, t.under scope))
    (hdepth : t.context.depth = s.context.depth) : exec (withScope scope m) s = (r, t) := by
  have hscoped : exec (withScope scope m) s = ((exec m (s.under scope)).1,
      ⟨(exec m (s.under scope)).2.context.truncate s.context.depth,
        (exec m (s.under scope)).2.binds⟩) := exec_withScope scope m s
  rw [hscoped, h, ← hdepth]
  change (r, RenderState.mk ((t.context.push scope).truncate t.context.depth) t.binds) = (r, t)
  rw [Context.truncate_push]

/-- What runs under a scope leaves the scope on top. -/
theorem Keeps.exists_under {α : Type} {m : Render α} (hm : Keeps names m) (scope : Scope)
    (s : RenderState) :
    ∃ t : RenderState, (exec m (s.under scope)).2 = t.under scope ∧
      t.context.depth = s.context.depth := by
  obtain ⟨new, _, hcontext⟩ := hm (s.under scope)
  cases h : exec m (s.under scope) with
  | mk r u =>
    rw [h] at hcontext
    obtain ⟨c, binds⟩ := u
    cases hcontext
    exact ⟨⟨{ s.context with bound := s.context.bound.extend new }, binds⟩, rfl, rfl⟩

theorem Keeps.exec_withScope_iff {α : Type} {m : Render α} (hm : Keeps names m) {scope : Scope}
    {s t : RenderState} {r : Except RenderError α} :
    exec (Render.withScope scope m) s = (r, t) ↔ exec m (s.under scope) = (r, t.under scope) := by
  obtain ⟨u, hu, hdepth⟩ := hm.exists_under scope s
  have hrun : exec m (s.under scope) = ((exec m (s.under scope)).1, u.under scope) :=
    Prod.ext rfl hu
  rw [exec_withScope_under hrun hdepth, hrun, Prod.mk.injEq, Prod.mk.injEq]
  refine and_congr_right fun _ => ⟨?_, RenderState.under_injective⟩
  exact congrArg (RenderState.under · scope)

theorem Keeps.eachEntry_ok_iff (hm : Keeps names body) {es : List (Value × Value)}
    {s t : RenderState} {pieces : List Texts} :
    exec (Render.eachEntry spec body es) s = (.ok pieces, t) ↔ Rounds spec body s es pieces t := by
  induction es generalizing s pieces with
  | nil =>
    refine ⟨?_, ?_⟩
    · intro h
      cases h
      exact .nil _
    · intro h
      cases h
      rfl
  | cons entry es ih =>
    refine ⟨?_, ?_⟩
    · intro h
      obtain ⟨piece, u, hpiece, h⟩ := exec_bind_ok.1 h
      obtain ⟨rest, w, hrest, h⟩ := exec_bind_ok.1 h
      cases h
      exact .cons (hm.exec_withScope_iff.1 hpiece) (ih.1 hrest)
    · intro h
      cases h with
      | cons hround hrounds =>
        refine exec_bind_ok.2 ⟨_, _, hm.exec_withScope_iff.2 hround, ?_⟩
        exact exec_bind_ok.2 ⟨_, _, ih.2 hrounds, rfl⟩

theorem Keeps.eachEntry_error_iff (hm : Keeps names body) {es : List (Value × Value)}
    {s u : RenderState} {e : RenderError} :
    exec (Render.eachEntry spec body es) s = (.error e, u) ↔
      ∃ before entry after pieces t, es = before ++ entry :: after ∧
        Rounds spec body s before pieces t ∧ Round spec body t entry (.error e) u := by
  induction es generalizing s with
  | nil =>
    refine ⟨nofun, ?_⟩
    rintro ⟨before, entry, after, _, _, hes, _⟩
    cases List.append_ne_nil_of_right_ne_nil before (List.cons_ne_nil entry after) hes.symm
  | cons entry es ih =>
    refine ⟨?_, ?_⟩
    · intro h
      obtain h | ⟨piece, v, hpiece, h⟩ := exec_bind_error.1 h
      · exact ⟨[], entry, es, [], s, rfl, .nil s, hm.exec_withScope_iff.1 h⟩
      · obtain h | ⟨rest, w, _, h⟩ := exec_bind_error.1 h
        · obtain ⟨before, failing, after, pieces, t, rfl, hrounds, hround⟩ := ih.1 h
          exact ⟨entry :: before, failing, after, piece :: pieces, t, rfl,
            .cons (hm.exec_withScope_iff.1 hpiece) hrounds, hround⟩
        · cases h
    · rintro ⟨before, failing, after, pieces, t, hes, hrounds, hround⟩
      apply exec_bind_error.2
      cases hrounds with
      | nil =>
        cases hes
        exact .inl (hm.exec_withScope_iff.2 hround)
      | @cons _ v _ _ before piece pieces hfirst hrounds =>
        cases hes
        refine .inr ⟨piece, v, hm.exec_withScope_iff.2 hfirst, exec_bind_error.2 (.inl ?_)⟩
        exact ih.2 ⟨before, failing, after, pieces, t, rfl, hrounds, hround⟩

theorem exec_loop_of_entries {s : RenderState} {v : Value} {es : List (Value × Value)}
    (hv : s.context.resolve spec.collection = .ok v) (hes : loopEntries? v = some es) :
    exec (loop spec body) s =
      exec (eachEntry spec body es >>= fun pieces => pure (spec.written pieces)) s := by
  rw [loop_eq, exec_bind, exec_entries, hv]
  dsimp only
  rw [hes]

theorem Rounds.pieces_ne_nil {s t : RenderState} {es : List (Value × Value)}
    {pieces : List Texts} (h : Rounds spec body s es pieces t) (hes : es ≠ []) : pieces ≠ [] := by
  cases h with
  | nil => contradiction
  | cons => exact List.cons_ne_nil _ _

theorem Keeps.loopRun_of_exec (hm : Keeps names body) {s t : RenderState}
    {r : Except RenderError Texts} (h : exec (Render.loop spec body) s = (r, t)) :
    LoopRun spec body s r t := by
  cases hv : s.context.resolve spec.collection with
  | error e =>
    rw [loop_eq, exec_bind, exec_entries, hv] at h
    cases e with
    | notFound path =>
      cases h
      exact .missing hv
    | typeMismatch path found =>
      cases h
      exact .mismatched hv
  | ok v =>
    cases hes : loopEntries? v with
    | none =>
      rw [loop_eq, exec_bind, exec_entries, hv] at h
      dsimp only at h
      rw [hes] at h
      cases h
      exact .unfit hv hes
    | some es =>
      rw [exec_loop_of_entries hv hes] at h
      cases r with
      | error e =>
        obtain h | ⟨_, _, _, h⟩ := exec_bind_error.1 h
        · obtain ⟨before, entry, after, pieces, u, rfl, hrounds, hround⟩ :=
            hm.eachEntry_error_iff.1 h
          exact .failed hv hes hrounds hround
        · cases h
      | ok text =>
        obtain ⟨pieces, u, hpieces, h⟩ := exec_bind_ok.1 h
        cases h
        cases es with
        | nil =>
          cases hpieces
          exact .idle hv hes
        | cons entry es =>
          have hrounds := hm.eachEntry_ok_iff.1 hpieces
          have hne := hrounds.pieces_ne_nil (List.cons_ne_nil entry es)
          rw [spec.written_eq_assembled hne]
          exact .finished hv hes (List.cons_ne_nil entry es) hrounds

theorem Keeps.exec_of_loopRun (hm : Keeps names body) {s t : RenderState}
    {r : Except RenderError Texts} (h : LoopRun spec body s r t) :
    exec (Render.loop spec body) s = (r, t) := by
  cases h with
  | missing hv =>
    rw [loop_eq, exec_bind, exec_entries, hv]
    rfl
  | mismatched hv =>
    rw [loop_eq, exec_bind, exec_entries, hv]
  | unfit hv hes =>
    rw [loop_eq, exec_bind, exec_entries, hv]
    dsimp only
    rw [hes]
  | idle hv hes =>
    rw [exec_loop_of_entries hv hes]
    rfl
  | finished hv hes hne hrounds =>
    rw [exec_loop_of_entries hv hes, ← spec.written_eq_assembled (hrounds.pieces_ne_nil hne)]
    exact exec_bind_ok.2 ⟨_, _, hm.eachEntry_ok_iff.2 hrounds, rfl⟩
  | failed hv hes hrounds hround =>
    rw [exec_loop_of_entries hv hes]
    apply exec_bind_error.2
    exact .inl (hm.eachEntry_error_iff.2 ⟨_, _, _, _, _, rfl, hrounds, hround⟩)

end Render

namespace Fragment

open Render

/-- A loop goes in one of the ways of `LoopRun`, whatever its body, its collection and the state it
starts in. In each round the body finds the item and the index by their names, the index where they
have one name. -/
theorem exec_render_loop (spec : Loop) (body : Fragment) (o : Options) (s t : RenderState)
    (r : Except RenderError Texts) :
    (exec ((Fragment.loop spec body).render o) s = (r, t) ↔ LoopRun spec (body.render o) s r t) ∧
      ∀ index item name, (entryScope spec index item).get? name =
        if spec.index = some name then some index
        else if spec.item = name then some item
        else none := by
  refine ⟨?_, get?_entryScope spec⟩
  have hbody := body.keeps_render o
  rw [render]
  exact ⟨hbody.loopRun_of_exec, hbody.exec_of_loopRun⟩

-- Entries without text leave no separator behind, but their names stay bound.
example :
    let row : Loop := { collection := .single "row", item := "x", separator := some "," }
    let rows : Loop :=
      { collection := .single "rows", item := "row", index := some "i", before := some "[",
        after := some "]", separator := some "; " }
    let f : Fragment := .seq
      [.loop rows (.seq [.bind "last" ⟨"i", .path (.single "i")⟩, .loop row (.raw (.single "x"))]),
        .placeholder (.single "last")]
    let root : Value :=
      .map [("rows", .list [.list [], .list [.text "a", .text " ", .text "b"], .null])]
    (f.renderUnder ⟨.mySql, .doubled⟩ (.ofRoot root)).1 =
      .ok ⟨"[a,b]2", "[a,b]?", [.number (.uint 2)]⟩ := by cbv

end Fragment

end DynamicSql

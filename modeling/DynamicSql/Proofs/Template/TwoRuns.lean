import DynamicSql.Proofs.Parameter.Shape
import DynamicSql.Proofs.Template.Execution
import DynamicSql.Proofs.Template.FragmentTree
import Mathlib.Data.List.Forall2

/-!
Two renderings side by side. What relates the ways in which two options render the leaves of a tree,
and is kept wherever steps are put together, relates the ways in which they render the whole tree
(`render_induction`). Most often that is a simulation: run from related states, two steps fail alike
or give related values, and leave related states behind.
-/

namespace DynamicSql

/-- The same error twice, or two values that are related. -/
inductive Agree {ε α β : Type} (Q : α → β → Prop) : Except ε α → Except ε β → Prop
  | error (e : ε) : Agree Q (.error e) (.error e)
  | ok {a : α} {b : β} (h : Q a b) : Agree Q (.ok a) (.ok b)

namespace Agree

variable {ε α β : Type}

theorem refl {Q : α → α → Prop} (hQ : ∀ a, Q a a) (x : Except ε α) : Agree Q x x := by
  cases x with
  | error e => exact .error e
  | ok a => exact .ok (hQ a)

theorem map_eq {γ : Type} {Q : α → β → Prop} {f : α → γ} {g : β → γ} {x : Except ε α}
    {y : Except ε β} (h : Agree Q x y) (hfg : ∀ a b, Q a b → f a = g b) : x.map f = y.map g := by
  cases h with
  | error e => rfl
  | ok hq => exact congrArg Except.ok (hfg _ _ hq)

end Agree

/-- What a loop writes for the texts of its entries. -/
def Loop.written (spec : Loop) : List Texts → Texts
  | [] => .empty
  | pieces =>
    .both (spec.before.getD "") ++ Texts.joined (.both (spec.separator.getD "")) pieces ++
      .both (spec.after.getD "")

namespace Render

theorem loop_eq (spec : Loop) (body : Render Texts) :
    loop spec body =
      entries spec.collection >>= fun es => eachEntry spec body es >>= fun pieces =>
        pure (spec.written pieces) := by
  unfold loop
  congr
  funext es
  congr
  funext pieces
  cases pieces <;> rfl

/-! Loops over related entries -/

section Entries

variable {Q : Value → Value → Prop}

theorem scopesRelated_insert {scope scope' : Scope} (h : Context.ScopesRelated Q scope scope')
    (name : String) {v w : Value} (hvw : Q v w) :
    Context.ScopesRelated Q (scope.insert name v) (scope'.insert name w) := by
  intro other
  rw [Entries.get?_insert, Entries.get?_insert]
  split
  · exact .some hvw
  · exact h other

/-- Related indices and related items. -/
def EntriesRelated (Q : Value → Value → Prop) (e e' : Value × Value) : Prop :=
  Q e.1 e'.1 ∧ Q e.2 e'.2

theorem entryScope_related (spec : Loop) {e e' : Value × Value} (h : EntriesRelated Q e e') :
    Context.ScopesRelated Q (entryScope spec e.1 e.2) (entryScope spec e'.1 e'.2) := by
  have hempty : Context.ScopesRelated Q [] [] := fun _ => .none
  have hitem := scopesRelated_insert hempty spec.item h.2
  unfold entryScope
  cases spec.index with
  | none => exact hitem
  | some name => exact scopesRelated_insert hitem name h.1

theorem zipIdx_related (hindex : ∀ n, Q (.number n) (.number n)) {xs ys : List Value}
    (h : List.Forall₂ Q xs ys) (k : Nat) :
    List.Forall₂ (EntriesRelated Q)
      ((xs.zipIdx k).map fun x => (Value.number (.uint (UInt64.ofNat x.2)), x.1))
      ((ys.zipIdx k).map fun y => (Value.number (.uint (UInt64.ofNat y.2)), y.1)) := by
  induction h generalizing k with
  | nil => exact .nil
  | cons hxy _ ih => exact .cons ⟨hindex _, hxy⟩ (ih (k + 1))

theorem mapEntries_related (hkey : ∀ k, Q (.text k) (.text k)) {es fs : Entries Value}
    (hkeys : es.keys = fs.keys) (hvalues : List.Forall₂ Q (es.map Prod.snd) (fs.map Prod.snd)) :
    List.Forall₂ (EntriesRelated Q) (es.map fun e => (Value.text e.1, e.2))
      (fs.map fun f => (Value.text f.1, f.2)) := by
  induction es generalizing fs with
  | nil =>
    cases fs with
    | nil => exact .nil
    | cons f fs => contradiction
  | cons e es ih =>
    cases fs with
    | nil => contradiction
    | cons f fs =>
      obtain ⟨hname, hkeys⟩ := List.cons_eq_cons.1 hkeys
      obtain ⟨hvalue, hvalues⟩ := List.forall₂_cons.1 hvalues
      have hindex : Q (.text e.1) (.text f.1) := by
        rw [hname]
        exact hkey f.1
      exact .cons ⟨hindex, hvalue⟩ (ih hkeys hvalues)

end Entries

variable {α β γ δ : Type} {R : RenderState → RenderState → Prop} {Q : α → β → Prop}
  {S : γ → δ → Prop}

/-- Run from related states, two steps fail alike or give related values, and leave related states
behind. -/
def Simulates (R : RenderState → RenderState → Prop) (Q : α → β → Prop) (m : Render α)
    (m' : Render β) : Prop :=
  ∀ s s', R s s' → Agree Q (exec m s).1 (exec m' s').1 ∧ R (exec m s).2 (exec m' s').2

/-- Related states stay related under one more scope, and where scopes are dropped again. -/
structure KeepsScopes (R : RenderState → RenderState → Prop) : Prop where
  push : ∀ {s s'} (scope : Scope), R s s' →
    R { s with context := s.context.push scope } { s' with context := s'.context.push scope }
  truncate : ∀ {s s' u u'}, R s s' → R u u' →
    R { u with context := u.context.truncate s.context.depth }
      { u' with context := u'.context.truncate s'.context.depth }

/-- The same where the scopes on both sides are related and not necessarily the same. -/
structure KeepsScopePairs (R : RenderState → RenderState → Prop) (T : Scope → Scope → Prop) :
    Prop where
  push : ∀ {s s' scope scope'}, R s s' → T scope scope' →
    R { s with context := s.context.push scope } { s' with context := s'.context.push scope' }
  truncate : ∀ {s s' u u'}, R s s' → R u u' →
    R { u with context := u.context.truncate s.context.depth }
      { u' with context := u'.context.truncate s'.context.depth }

theorem KeepsScopes.pairs (h : KeepsScopes R) : KeepsScopePairs R Eq where
  push := by
    rintro s s' scope _ hs rfl
    exact h.push scope hs
  truncate := h.truncate

/-- The same names stand for related values, and as many values are bound. -/
structure StatesPaired (Q : Value → Value → Prop) (s s' : RenderState) : Prop where
  context : s.context.Paired Q s'.context
  binds : s.binds.size = s'.binds.size

theorem statesPaired_keepsScopes (Q : Value → Value → Prop) :
    KeepsScopePairs (StatesPaired Q) (Context.ScopesRelated Q) where
  push hs hscope :=
    ⟨⟨hs.context.root, hs.context.bound, .cons hscope hs.context.scopes⟩, hs.binds⟩
  truncate := by
    intro s s' u u' hs hu
    have hdepth : s.context.depth = s'.context.depth :=
      congrArg Nat.succ hs.context.scopes.length_eq
    have hdepth' : u.context.depth = u'.context.depth :=
      congrArg Nat.succ hu.context.scopes.length_eq
    refine ⟨⟨hu.context.root, hu.context.bound, ?_⟩, hu.binds⟩
    simp only [Context.truncate, hdepth, hdepth']
    exact List.forall₂_drop _ hu.context.scopes

namespace Simulates

theorem pure {a : α} {b : β} (h : Q a b) :
    Simulates R Q (Pure.pure a : Render α) (Pure.pure b : Render β) :=
  fun _ _ hs => ⟨.ok h, hs⟩

theorem bind {m : Render α} {m' : Render β} {k : α → Render γ} {k' : β → Render δ}
    (hm : Simulates R Q m m') (hk : ∀ a b, Q a b → Simulates R S (k a) (k' b)) :
    Simulates R S (m >>= k) (m' >>= k') := by
  intro s s' hs
  have hrun := hm s s' hs
  rw [exec_bind, exec_bind]
  cases h : exec m s with
  | mk x t =>
    cases h' : exec m' s' with
    | mk x' t' =>
      rw [h, h'] at hrun
      obtain ⟨hagree, ht⟩ := hrun
      cases hagree with
      | error e => exact ⟨.error e, ht⟩
      | ok hq => exact hk _ _ hq t t' ht

theorem branch {t : Expression} {m k : Render α} {m' k' : Render β}
    (ht : Simulates R Eq (test t) (test t)) (hm : Simulates R Q m m') (hk : Simulates R Q k k') :
    Simulates R Q (test t >>= fun b => if b then m else k)
      (test t >>= fun b => if b then m' else k') := by
  apply ht.bind
  rintro b _ rfl
  cases b with
  | false => exact hk
  | true => exact hm

theorem mono {m : Render α} {m' : Render β} {U : α → β → Prop} (h : Simulates R Q m m')
    (hQ : ∀ a b, Q a b → U a b) : Simulates R U m m' := by
  intro s s' hs
  obtain ⟨hagree, hstate⟩ := h s s' hs
  refine ⟨?_, hstate⟩
  generalize (exec m s).1 = x, (exec m' s').1 = y at hagree
  cases hagree with
  | error e => exact .error e
  | ok hq => exact .ok (hQ _ _ hq)

variable {T : Scope → Scope → Prop}

theorem withScope {m : Render α} {m' : Render β} (hR : KeepsScopePairs R T)
    (hm : Simulates R Q m m') {scope scope' : Scope} (hscope : T scope scope') :
    Simulates R Q (withScope scope m) (withScope scope' m') := by
  intro s s' hs
  have hrun := hm _ _ (hR.push hs hscope)
  rw [exec_withScope, exec_withScope]
  exact ⟨hrun.1, hR.truncate hs hrun.2⟩

variable {P : Texts → Texts → Prop} {m m' k k' : Render Texts}

theorem append (hP : ∀ t t' u u', P t t' → P u u' → P (t ++ u) (t' ++ u'))
    (hm : Simulates R P m m') (hk : Simulates R P k k') :
    Simulates R P (m >>= fun t => k >>= fun u => Pure.pure (t ++ u))
      (m' >>= fun t => k' >>= fun u => Pure.pure (t ++ u)) :=
  hm.bind fun _ _ ht => hk.bind fun _ _ hu => pure (hP _ _ _ _ ht hu)

/-- Entries of a loop that make related scopes. -/
def InRelatedScopes (T : Scope → Scope → Prop) (spec : Loop) (e e' : Value × Value) : Prop :=
  T (entryScope spec e.1 e.2) (entryScope spec e'.1 e'.2)

theorem eachEntry (hR : KeepsScopePairs R T) (hm : Simulates R P m m') {spec : Loop}
    {es es' : List (Value × Value)} (hes : List.Forall₂ (InRelatedScopes T spec) es es') :
    Simulates R (List.Forall₂ P) (eachEntry spec m es) (eachEntry spec m' es') := by
  induction hes with
  | nil => exact pure .nil
  | cons hscope _ ih =>
    apply (hm.withScope hR hscope).bind
    intro t t' ht
    apply ih.bind
    intro ts ts' hts
    exact pure (.cons ht hts)

theorem loop_pairs (hR : KeepsScopePairs R T) (hm : Simulates R P m m') {spec : Loop}
    (hP : ∀ ts ts', List.Forall₂ P ts ts' → P (spec.written ts) (spec.written ts'))
    (hentries : Simulates R (List.Forall₂ (InRelatedScopes T spec)) (entries spec.collection)
      (entries spec.collection)) :
    Simulates R P (loop spec m) (loop spec m') := by
  rw [loop_eq, loop_eq]
  apply hentries.bind
  intro es es' hes
  exact (hm.eachEntry hR hes).bind fun ts ts' hts => pure (hP ts ts' hts)

/-- The same entries on both sides. -/
theorem loop (hR : KeepsScopes R) (hm : Simulates R P m m') {spec : Loop}
    (hP : ∀ ts ts', List.Forall₂ P ts ts' → P (spec.written ts) (spec.written ts'))
    (hentries : Simulates R Eq (entries spec.collection) (entries spec.collection)) :
    Simulates R P (loop spec m) (loop spec m') := by
  apply hm.loop_pairs hR.pairs hP
  apply hentries.mono
  rintro es _ rfl
  exact List.forall₂_same.2 fun _ _ => rfl

end Simulates

end Render

namespace Fragment

/-- A fragment that is rendered by a step of its own. -/
def isLeaf : Fragment → Bool
  | .text _ | .placeholder _ | .raw _ | .bind _ _ => true
  | _ => false

/-- The tests that decide what a fragment renders of the fragments below it. -/
def tests : Fragment → List Expression
  | .conditional t _ => [t]
  | .choose branches _ => branches.map Prod.fst
  | _ => []

variable {o o' : Options} {P : Render Texts → Render Texts → Prop}

theorem renderAll_related (hempty : P (pure .empty) (pure .empty))
    (happend : ∀ m m' k k', P m m' → P k k' →
      P (m >>= fun t => k >>= fun u => pure (t ++ u))
        (m' >>= fun t => k' >>= fun u => pure (t ++ u)))
    {fs : List Fragment} (h : ∀ f ∈ fs, P (f.render o) (f.render o')) :
    P (renderAll o fs) (renderAll o' fs) := by
  induction fs with
  | nil => exact hempty
  | cons f fs ih =>
    exact happend _ _ _ _ (h f List.mem_cons_self)
      (ih fun g hg => h g (List.mem_cons_of_mem f hg))

theorem renderChoice_related {branches : List (Expression × Fragment)}
    (hbranch : ∀ t ∈ branches.map Prod.fst, ∀ m m' k k', P m m' → P k k' →
      P (Render.test t >>= fun b => if b then m else k)
        (Render.test t >>= fun b => if b then m' else k'))
    {otherwise otherwise' : Render Texts} (hotherwise : P otherwise otherwise')
    (h : ∀ b ∈ branches, P (b.2.render o) (b.2.render o')) :
    P (renderChoice o otherwise branches) (renderChoice o' otherwise' branches) := by
  induction branches with
  | nil => exact hotherwise
  | cons b branches ih =>
    apply hbranch b.1 List.mem_cons_self _ _ _ _ (h b List.mem_cons_self)
    exact ih (fun t ht => hbranch t (List.mem_cons_of_mem _ ht))
      fun c hc => h c (List.mem_cons_of_mem b hc)

/-- What relates two ways of rendering the leaves of a tree, and is kept where steps are put
together, relates two ways of rendering the tree. -/
theorem render_induction (f : Fragment) (o o' : Options)
    (hleaf : ∀ g ∈ f.nodes, g.isLeaf = true → P (g.render o) (g.render o'))
    (hempty : P (pure .empty) (pure .empty))
    (happend : ∀ m m' k k', P m m' → P k k' →
      P (m >>= fun t => k >>= fun u => pure (t ++ u))
        (m' >>= fun t => k' >>= fun u => pure (t ++ u)))
    (hbranch : ∀ g ∈ f.nodes, ∀ t ∈ g.tests, ∀ m m' k k', P m m' → P k k' →
      P (Render.test t >>= fun b => if b then m else k)
        (Render.test t >>= fun b => if b then m' else k'))
    (hloop : ∀ spec body, .loop spec body ∈ f.nodes → ∀ m m', P m m' →
      P (Render.loop spec m) (Render.loop spec m'))
    (htrim : ∀ spec body, .trim spec body ∈ f.nodes → ∀ m m', P m m' →
      P (m >>= fun t => pure (t.map spec.apply)) (m' >>= fun t => pure (t.map spec.apply))) :
    P (f.render o) (f.render o') := by
  induction f using Fragment.induction with
  | step f ih =>
    have hchild : ∀ g ∈ f.children, P (g.render o) (g.render o') := by
      intro g hg
      apply ih g hg
      · exact fun d hd => hleaf d (mem_nodes_of_mem_children hg hd)
      · exact fun d hd => hbranch d (mem_nodes_of_mem_children hg hd)
      · exact fun spec body hd => hloop spec body (mem_nodes_of_mem_children hg hd)
      · exact fun spec body hd => htrim spec body (mem_nodes_of_mem_children hg hd)
    have hself := self_mem_nodes f
    cases f with
    | text s => exact hleaf _ hself rfl
    | placeholder p => exact hleaf _ hself rfl
    | raw p => exact hleaf _ hself rfl
    | bind name e => exact hleaf _ hself rfl
    | conditional t body =>
      exact hbranch _ hself t List.mem_cons_self _ _ _ _ (hchild body List.mem_cons_self) hempty
    | choose branches otherwise =>
      rw [render, render]
      apply renderChoice_related (hbranch _ hself)
      · cases otherwise with
        | none => exact hempty
        | some g => exact hchild g (List.mem_append_right _ List.mem_cons_self)
      · intro b hb
        exact hchild b.2 (List.mem_append_left _ (List.mem_map_of_mem hb))
    | loop spec body => exact hloop spec body hself _ _ (hchild body List.mem_cons_self)
    | trim spec body => exact htrim spec body hself _ _ (hchild body List.mem_cons_self)
    | seq items => exact renderAll_related hempty happend hchild

end Fragment

end DynamicSql

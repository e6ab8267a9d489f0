import Mathlib.Data.List.Nodup
import DynamicSql.Mapper.Registry
import DynamicSql.Proofs.Effects

/-!
What compiling a batch of sources gives: statements under their own ids, no id twice. Compiling one
document, staging it behind those before it and staging the whole batch all keep that up.
-/

namespace DynamicSql

/-- No id comes twice, and each statement stands under its own id. -/
structure Catalog (es : Entries Statement) : Prop where
  nodup : es.keys.Nodup
  named : ∀ e ∈ es, e.2.id = e.1

namespace Catalog

theorem nil : Catalog [] :=
  ⟨List.nodup_nil, fun _ h => nomatch h⟩

theorem single {id : String} {s : Statement} (h : s.id = id) : Catalog [(id, s)] := by
  refine ⟨List.nodup_singleton id, ?_⟩
  intro e he
  cases List.mem_singleton.1 he
  exact h

theorem append {es new : Entries Statement} (h : Catalog es) (hnew : Catalog new)
    (hdisjoint : ∀ id ∈ new.keys, id ∉ es.keys) : Catalog (es ++ new) := by
  refine ⟨?_, ?_⟩
  · rw [Entries.keys, List.map_append]
    apply h.nodup.append hnew.nodup
    intro id hid hnew
    exact hdisjoint id hnew hid
  · intro e he
    rcases List.mem_append.1 he with he | he
    · exact h.named e he
    · exact hnew.named e he

theorem snoc {es : Entries Statement} {id : String} {s : Statement} (h : Catalog es)
    (hid : ¬es.contains id = true) (hs : s.id = id) : Catalog (es ++ [(id, s)]) := by
  apply h.append (single hs)
  intro other hother
  cases List.mem_singleton.1 hother
  exact fun hmem => hid (Entries.contains_iff.2 hmem)

theorem id_of_get? {es : Entries Statement} (h : Catalog es) {id : String} {s : Statement}
    (hs : es.get? id = some s) : s.id = id :=
  h.named (id, s) (Entries.mem_of_get? hs)

end Catalog

namespace Mapper

theorem statementsFrom_catalog {space : String} {table : Snippets} {cs : List Markup.Content}
    {done es : Entries Statement} (h : statementsFrom space table done cs = .ok es)
    (hdone : Catalog done) : Catalog es := by
  induction cs generalizing done with
  | nil =>
    cases h
    exact hdone
  | cons c cs ih =>
    cases c with
    | text t => exact ih h hdone
    | element tag children =>
      rw [statementsFrom] at h
      split at h
      · exact ih h hdone
      · rcases bind_eq_ok.1 h with ⟨id, _, h⟩
        dsimp only at h
        split at h
        · cases h
        · next hnew =>
          rcases bind_eq_ok.1 h with ⟨body, _, h⟩
          exact ih h (hdone.snoc hnew rfl)

theorem ofSource_catalog {source : String} {es : Entries Statement}
    (h : ofSource source = .ok es) : Catalog es := by
  rcases bind_eq_ok.1 h with ⟨e, _, h⟩
  rw [ofElement] at h
  split at h
  · rcases bind_eq_ok.1 h with ⟨space, _, h⟩
    rcases bind_eq_ok.1 h with ⟨table, _, h⟩
    exact statementsFrom_catalog h .nil
  · cases h

end Mapper

namespace Registry

theorem stageAll_catalog {staged new es : Entries Statement} (h : stageAll staged new = .ok es)
    (hstaged : Catalog staged) (hnew : ∀ e ∈ new, e.2.id = e.1) : Catalog es := by
  induction new generalizing staged with
  | nil =>
    cases h
    exact hstaged
  | cons e new ih =>
    rw [stageAll] at h
    split at h
    · cases h
    · next hid =>
      apply ih h (hstaged.snoc hid (hnew e List.mem_cons_self))
      exact fun e' he' => hnew e' (List.mem_cons_of_mem e he')

theorem stage_catalog {staged es : Entries Statement} {sources : List Source}
    (h : stage staged sources = .ok es) (hstaged : Catalog staged) : Catalog es := by
  induction sources generalizing staged with
  | nil =>
    cases h
    exact hstaged
  | cons source sources ih =>
    rw [stage] at h
    split at h
    · cases h
    · next new hnew =>
      rcases bind_eq_ok.1 h with ⟨staged', hstaged', h⟩
      exact ih h (stageAll_catalog hstaged' hstaged (Mapper.ofSource_catalog hnew).named)

end Registry

end DynamicSql

import Mathlib.Data.List.Nodup
import Mathlib.Data.List.Perm.Basic
import DynamicSql.Parameter.Entries

/-!
Entries that are put behind others under names of their own, and what their order counts for.
-/

namespace DynamicSql

namespace Entries

variable {α : Type u}

/-- Entries that can be put behind others: no name comes twice, and none is there already. -/
def IsNew (es new : Entries α) : Prop :=
  new.keys.Nodup ∧ es.keys.Disjoint new.keys

theorem isNew_nil (es : Entries α) : es.IsNew [] :=
  ⟨List.nodup_nil, fun _ _ h => nomatch h⟩

theorem isNew_append {es new more : Entries α} :
    es.IsNew (new ++ more) ↔ es.IsNew new ∧ IsNew (es ++ new) more := by
  simp only [IsNew, keys, List.map_append, List.nodup_append', List.disjoint_append_left,
    List.disjoint_append_right]
  constructor
  · rintro ⟨⟨hnew, hmore, hapart⟩, hes, hes'⟩
    exact ⟨⟨hnew, hes⟩, hmore, hes', hapart⟩
  · rintro ⟨⟨hnew, hes⟩, hmore, hes', hapart⟩
    exact ⟨⟨hnew, hmore, hapart⟩, hes, hes'⟩

theorem isNew_cons {es new : Entries α} {e : String × α} :
    es.IsNew (e :: new) ↔ es.contains e.1 = false ∧ IsNew (es ++ [e]) new := by
  have hsingle : es.IsNew [e] ↔ es.contains e.1 = false := by
    rw [Bool.eq_false_iff, Ne, contains_iff, IsNew]
    simp [keys]
  rw [← List.singleton_append, isNew_append, hsingle]

theorem IsNew.perm {es new other : Entries α} (h : es.IsNew new) (hperm : new.Perm other) :
    es.IsNew other := by
  have hkeys : new.keys.Perm other.keys := hperm.map Prod.fst
  refine ⟨hkeys.nodup h.1, ?_⟩
  intro name hes hother
  exact h.2 hes (hkeys.mem_iff.2 hother)

/-- Where no name comes twice, the order of the entries does not matter for looking one up. -/
theorem get?_perm {es other : Entries α} (hnodup : es.keys.Nodup) (hperm : es.Perm other)
    (name : String) : es.get? name = other.get? name := by
  induction hperm with
  | nil => rfl
  | cons e _ ih =>
    rw [get?, get?, ih (List.nodup_cons.1 hnodup).2]
  | swap a b es =>
    have hne : b.1 ≠ a.1 := by
      intro h
      exact (List.nodup_cons.1 hnodup).1 (h ▸ List.mem_cons_self)
    simp only [get?]
    split
    · next hb => rw [if_neg (fun ha => hne (hb.trans ha.symm))]
    · rfl
  | trans hfirst _ ih ih' =>
    rw [ih hnodup, ih' ((hfirst.map Prod.fst).nodup hnodup)]

/-- Where no name comes twice, every entry is found. -/
theorem get?_of_mem {es : Entries α} {name : String} {a : α} (hnodup : es.keys.Nodup)
    (h : (name, a) ∈ es) : es.get? name = some a := by
  induction es with
  | nil => cases h
  | cons e es ih =>
    obtain ⟨hnew, hnodup⟩ := List.nodup_cons.1 hnodup
    rcases List.mem_cons.1 h with rfl | h
    · exact if_pos rfl
    · have hne : e.1 ≠ name := by
        rintro rfl
        exact hnew (List.mem_map.2 ⟨_, h, rfl⟩)
      rw [get?, if_neg hne]
      exact ih hnodup h

theorem fst_eq_of_keys {β : Type v} {es : Entries α} {fs : Entries β} (h : es.keys = fs.keys)
    {i : Nat} {e : String × α} {f : String × β} (he : es[i]? = some e) (hf : fs[i]? = some f) :
    e.1 = f.1 := by
  have hi : es.keys[i]? = fs.keys[i]? := by rw [h]
  rw [keys, keys, List.getElem?_map, List.getElem?_map, he, hf] at hi
  exact Option.some.inj hi

end Entries

end DynamicSql

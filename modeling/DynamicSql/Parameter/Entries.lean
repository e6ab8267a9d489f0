/-!
Named entries in the order of their first insertion. A name is looked up from the front, and
inserting a name that is already there replaces its value in place.
-/

namespace DynamicSql

abbrev Entries (α : Type u) := List (String × α)

namespace Entries

variable {α : Type u} {β : Type v}

def get? : Entries α → String → Option α
  | [], _ => none
  | (k, v) :: es, name => if k = name then some v else get? es name

def insert : Entries α → String → α → Entries α
  | [], name, value => [(name, value)]
  | (k, v) :: es, name, value =>
    if k = name then (k, value) :: es else (k, v) :: insert es name value

def contains (es : Entries α) (name : String) : Bool :=
  (es.get? name).isSome

def keys (es : Entries α) : List String :=
  es.map Prod.fst

/-- Inserts one entry after the other. -/
def extend (es : Entries α) (new : List (String × α)) : Entries α :=
  new.foldl (fun acc e => insert acc e.1 e.2) es

def ofList (es : List (String × α)) : Entries α :=
  extend [] es

theorem get?_insert (es : Entries α) (name other : String) (value : α) :
    (insert es name value).get? other = if name = other then some value else es.get? other := by
  induction es with
  | nil => simp only [insert, get?]
  | cons e es ih =>
    obtain ⟨k, v⟩ := e
    by_cases hk : k = name
    · subst hk
      by_cases h : k = other <;> simp [insert, get?, h]
    · rw [insert, if_neg hk]
      by_cases ho : k = other
      · subst ho
        simp [get?, Ne.symm hk]
      · simp only [get?, if_neg ho, ih]

theorem get?_eq_none_iff {es : Entries α} {name : String} :
    es.get? name = none ↔ name ∉ es.keys := by
  induction es with
  | nil => simp [get?, keys]
  | cons e es ih =>
    obtain ⟨k, v⟩ := e
    simp only [keys] at ih
    simp only [get?, keys, List.map_cons, List.mem_cons, not_or]
    by_cases h : k = name
    · simp [h]
    · rw [if_neg h, ih]
      exact ⟨fun hn => ⟨Ne.symm h, hn⟩, And.right⟩

theorem contains_iff {es : Entries α} {name : String} :
    es.contains name = true ↔ name ∈ es.keys := by
  have h : es.get? name = none ↔ name ∉ es.keys := get?_eq_none_iff
  cases hg : es.get? name <;> simp_all [contains]

/-- A new name goes to the end, a known one keeps its place. -/
theorem keys_insert (es : Entries α) (name : String) (value : α) :
    (insert es name value).keys =
      if name ∈ es.keys then es.keys else es.keys ++ [name] := by
  induction es with
  | nil => simp [insert, keys]
  | cons e es ih =>
    obtain ⟨k, v⟩ := e
    simp only [keys] at ih
    by_cases hk : k = name
    · simp [insert, keys, hk]
    · have hn : ¬ name = k := fun h => hk h.symm
      by_cases hm : name ∈ List.map Prod.fst es <;> simp_all [insert, keys]

theorem mem_of_get? {es : Entries α} {name : String} {a : α} (h : es.get? name = some a) :
    (name, a) ∈ es := by
  induction es with
  | nil => contradiction
  | cons e es ih =>
    rw [get?] at h
    split at h
    · next he =>
      cases h
      rw [← he]
      exact List.mem_cons_self
    · exact List.mem_cons_of_mem e (ih h)

theorem get?_append (es new : Entries α) (name : String) :
    get? (es ++ new) name = (get? es name).or (get? new name) := by
  induction es with
  | nil => rfl
  | cons e es ih =>
    rw [List.cons_append, get?, get?, ih]
    split <;> rfl

theorem insert_of_not_mem {es : Entries α} {name : String} (value : α) (h : name ∉ es.keys) :
    insert es name value = es ++ [(name, value)] := by
  induction es with
  | nil => rfl
  | cons e es ih =>
    have hne := List.ne_of_not_mem_cons h
    rw [insert, if_neg hne.symm, ih (List.not_mem_of_not_mem_cons h)]
    rfl

/-- Entries whose names are all new, and all different, go to the end as they are. -/
theorem extend_eq_append {es new : Entries α} (hnodup : new.keys.Nodup)
    (hnew : ∀ name ∈ new.keys, name ∉ es.keys) : extend es new = es ++ new := by
  induction new generalizing es with
  | nil => exact (List.append_nil es).symm
  | cons e new ih =>
    have hcons := List.nodup_cons.1 hnodup
    change extend (insert es e.1 e.2) new = _
    rw [insert_of_not_mem e.2 (hnew e.1 List.mem_cons_self), ih hcons.2]
    · exact (List.append_cons es e new).symm
    · intro name hname hmem
      rw [keys, List.map_append, List.mem_append] at hmem
      rcases hmem with hmem | hmem
      · exact hnew name (List.mem_cons_of_mem _ hname) hmem
      · cases List.mem_singleton.1 hmem
        exact hcons.1 hname

end Entries

end DynamicSql

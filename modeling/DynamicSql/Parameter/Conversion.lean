import DynamicSql.Parameter.Value

/-!
Parameter values from values of other types, in two ways. `toValue` keeps the kind of an integer
type; `serialize` goes through the data model of JSON, where an integer has no kind of its own
and a float that is not finite has no number.
-/

namespace DynamicSql

class ToValue (α : Type u) where
  toValue : α → Value

export ToValue (toValue)

instance : ToValue Value := ⟨id⟩
instance : ToValue Unit := ⟨fun _ => .null⟩
instance : ToValue Bool := ⟨.bool⟩
instance : ToValue Number := ⟨.number⟩
instance : ToValue String := ⟨.text⟩
instance : ToValue Int8 := ⟨fun n => .number (.int n.toInt64)⟩
instance : ToValue Int16 := ⟨fun n => .number (.int n.toInt64)⟩
instance : ToValue Int32 := ⟨fun n => .number (.int n.toInt64)⟩
instance : ToValue Int64 := ⟨fun n => .number (.int n)⟩
instance : ToValue UInt8 := ⟨fun n => .number (.uint n.toUInt64)⟩
instance : ToValue UInt16 := ⟨fun n => .number (.uint n.toUInt64)⟩
instance : ToValue UInt32 := ⟨fun n => .number (.uint n.toUInt64)⟩
instance : ToValue UInt64 := ⟨fun n => .number (.uint n)⟩
instance : ToValue Float := ⟨fun x => .number (.float x)⟩
instance : ToValue Float32 := ⟨fun x => .number (.float x.toFloat)⟩

instance [ToValue α] : ToValue (Option α) where
  toValue
    | some a => toValue a
    | none => .null

instance [ToValue α] : ToValue (List α) where
  toValue as := .list (as.map toValue)

/-- A parameter bag from names and values; a later value replaces an earlier one in place. -/
def Value.ofEntries [ToValue α] (es : List (String × α)) : Value :=
  .map (Entries.ofList (es.map fun (k, a) => (k, toValue a)))

inductive SerializeError where
  | numberOutOfRange
  deriving DecidableEq, Repr

def SerializeError.message : SerializeError → String
  | .numberOutOfRange => "number out of range"

class Serialize (α : Type u) where
  serialize : α → Except SerializeError Value

export Serialize (serialize)

instance : Serialize Unit := ⟨fun _ => .ok .null⟩
instance : Serialize Bool := ⟨fun b => .ok (.bool b)⟩
instance : Serialize String := ⟨fun s => .ok (.text s)⟩
instance : Serialize Char := ⟨fun c => .ok (.text c.toString)⟩

instance : Serialize Int where
  serialize n :=
    match Number.ofInt? n with
    | some m => .ok (.number m)
    | none => .error .numberOutOfRange

instance : Serialize Float where
  serialize x := .ok (if x.isFinite then .number (.float x) else .null)

instance [Serialize α] : Serialize (Option α) where
  serialize
    | some a => serialize a
    | none => .ok .null

instance [Serialize α] : Serialize (List α) where
  serialize as := (as.mapM serialize).map .list

instance [Serialize α] [Serialize β] : Serialize (α × β) where
  serialize p := do return .list [← serialize p.1, ← serialize p.2]

/-- Keys in increasing order; of two values for one key the later stays. -/
def insertSorted [Ord κ] (key : κ) (value : α) : List (κ × α) → List (κ × α)
  | [] => [(key, value)]
  | (k, v) :: es =>
    match compare key k with
    | .lt => (key, value) :: (k, v) :: es
    | .eq => (k, value) :: es
    | .gt => (k, v) :: insertSorted key value es

/-- A dictionary sorted by its keys, which become texts. -/
def serializeSorted [Ord κ] [ToString κ] [Serialize α] (es : List (κ × α)) :
    Except SerializeError Value := do
  let sorted := es.foldl (fun acc e => insertSorted e.1 e.2 acc) []
  let entries ← sorted.mapM fun (k, a) => return (toString k, ← serialize a)
  return .map (Entries.ofList entries)

end DynamicSql

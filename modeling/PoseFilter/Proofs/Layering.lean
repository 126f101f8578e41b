import Mathlib.Data.List.Nodup
import PoseFilter.Document.Value

/-!
# One document laid over another

What can be found in a table that is laid over another one.  A key that the top does not have is found
as it is below; one that it has is found as the top says, and only if both sides have a table there are
the two joined (`Value.find?_layerEntries`).  Plain values and lists of the top are never mixed with what
lies below (`Value.layer_number`, …), and no key comes from elsewhere (`Value.within_layerEntries`).

Reading a record then comes down to finding its keys.
-/

namespace PoseFilter

namespace Value

variable {α : Type}

@[simp]
theorem layer_text (base : Value α) (s : String) : layer base (.text s) = .text s := rfl

@[simp]
theorem layer_integer (base : Value α) (n : Int) : layer base (.integer n) = .integer n := rfl

@[simp]
theorem layer_number (base : Value α) (x : α) : layer base (.number x) = .number x := rfl

@[simp]
theorem layer_list (base : Value α) (items : List (Value α)) :
    layer base (.list items) = .list items := rfl

@[simp]
theorem layer_table (base top : Entries α) :
    layer (.table base) (.table top) = .table (layerEntries base top) := rfl

/-- What a value becomes on top of what is there, if anything is. -/
def onto (value : Value α) : Option (Value α) → Value α
  | some old => layer old value
  | none => value

@[simp]
theorem onto_some (value old : Value α) : onto value (some old) = old.layer value := rfl

@[simp]
theorem onto_none (value : Value α) : onto value none = value := rfl

/-! ### Finding a key -/

@[simp]
theorem Entries.find?_nil (key : String) : Entries.find? ([] : Entries α) key = none := rfl

@[simp]
theorem Entries.find?_cons (k : String) (v : Value α) (rest : Entries α) (key : String) :
    Entries.find? ((k, v) :: rest) key = if k = key then some v else Entries.find? rest key := rfl

theorem Entries.find?_eq_none {es : Entries α} {key : String} (h : key ∉ es.map Prod.fst) :
    es.find? key = none := by
  induction es with
  | nil => rfl
  | cons e rest ih =>
    rw [List.map_cons, List.mem_cons, not_or] at h
    rw [Entries.find?_cons, if_neg (Ne.symm h.1), ih h.2]

@[simp]
theorem layerEntries_nil (base : Entries α) : layerEntries base [] = base := rfl

theorem layerEntries_cons (base : Entries α) (key : String) (value : Value α) (rest : Entries α) :
    layerEntries base ((key, value) :: rest) =
      layerEntries (base.put key (onto value (base.find? key))) rest := by
  rw [layerEntries]
  cases base.find? key <;> rfl

/-- **What is found in a table laid over another**, if the top has each key once. -/
theorem find?_layerEntries (base : Entries α) {top : Entries α} (h : (top.map Prod.fst).Nodup)
    (key : String) : (layerEntries base top).find? key =
      ((top.find? key).map fun value => onto value (base.find? key)).or (base.find? key) := by
  induction top generalizing base with
  | nil => rw [layerEntries_nil, Entries.find?_nil, Option.map_none, Option.none_or]
  | cons e rest ih =>
    obtain ⟨k, value⟩ := e
    obtain ⟨hk, hrest⟩ := List.nodup_cons.1 h
    rw [layerEntries_cons, ih _ hrest, Entries.find?_put, Entries.find?_cons]
    by_cases hkey : k = key
    · -- the rest of the top does not touch the key again
      subst hkey
      rw [Entries.find?_eq_none hk, if_pos rfl, if_pos rfl, Option.map_none, Option.none_or,
        Option.map_some, Option.some_or]
    · rw [if_neg hkey, if_neg hkey]

/-! ### Keys and records -/

/-- A table has no other keys than the given ones. -/
def Entries.Within (es : Entries α) (keys : List String) : Prop := ∀ k ∈ es.map Prod.fst, k ∈ keys

theorem Entries.Within.put {es : Entries α} {keys : List String} (h : es.Within keys) {key : String}
    (hkey : key ∈ keys) (value : Value α) : (es.put key value).Within keys := by
  induction es with
  | nil => exact List.forall_mem_singleton.2 hkey
  | cons e rest ih =>
    obtain ⟨hfirst, hrest⟩ := List.forall_mem_cons.1 h
    rw [Entries.put]
    split
    · exact List.forall_mem_cons.2 ⟨hfirst, hrest⟩
    · exact List.forall_mem_cons.2 ⟨hfirst, ih hrest⟩

theorem within_layerEntries {base top : Entries α} {keys : List String} (hbase : base.Within keys)
    (htop : top.Within keys) : (layerEntries base top).Within keys := by
  induction top generalizing base with
  | nil => exact hbase
  | cons e rest ih =>
    obtain ⟨hfirst, hrest⟩ := List.forall_mem_cons.1 htop
    rw [layerEntries_cons]
    exact ih (hbase.put hfirst _) hrest

theorem closedRecord?_table {es : Entries α} {keys : List String} (h : es.Within keys)
    (surplus : Surplus) : closedRecord? surplus keys (.table es) = some es := by
  have hall : (es.all fun e => keys.contains e.1) = true := by
    rw [List.all_eq_true]
    intro e he
    exact List.contains_iff_mem.2 (h e.1 (List.mem_map_of_mem he))
  rw [closedRecord?, record?, Option.filter_some, if_pos hall]

theorem closedRecord?_layer {base top : Entries α} {keys : List String} (hbase : base.Within keys)
    (htop : top.Within keys) (surplus : Surplus) :
    closedRecord? surplus keys (layer (.table base) (.table top)) = some (layerEntries base top) := by
  rw [layer_table, closedRecord?_table (within_layerEntries hbase htop)]

theorem Entries.optional_eq {β : Type} (es : Entries α) (key : String) (read : Value α → Option β)
    (default : β) : es.optional key read default = (es.find? key).elim (some default) read := by
  rw [Entries.optional]
  cases es.find? key <;> rfl

@[simp]
theorem record?_table (surplus : Surplus) (keys : List String) (es : Entries α) :
    record? surplus keys (.table es) = some es := rfl

@[simp]
theorem text?_text (s : String) : text? (.text s : Value α) = some s := rfl

@[simp]
theorem number?_number [Scalar α] (x : α) : number? (.number x) = some x := rfl

theorem nat?_integer {n bound : Nat} (h : n < bound) :
    nat? bound (.integer n : Value α) = some n := if_pos h

end Value

end PoseFilter

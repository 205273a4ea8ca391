import LuaNode.Library.Text

/-!
# Lua objects

Values of Lua 5.1 with references into a heap, and `luaV_gettable`: a field that a table does not have,
and every field of a value that is no table, is looked for with the `__index` of its metatable. What a
function that stands there does is a parameter; it can change the heap.
-/

namespace LuaNode

inductive LuaObject
  | nil
  | boolean (b : Bool)
  | number (text : Str)
  | string (s : Str)
  | table (ref : ℕ)
  | function (ref : ℕ)
  | userdata (ref : ℕ)
  | thread (ref : ℕ)
  deriving DecidableEq

namespace LuaObject

def truthy : LuaObject → Bool
  | nil => false
  | boolean b => b
  | _ => true

def isTable : LuaObject → Bool
  | table _ => true
  | _ => false

theorem isTable_iff {v : LuaObject} : v.isTable = true ↔ ∃ ref, v = table ref := by
  cases v <;> simp [isTable]

/-- `type(v)`. -/
def typeName : LuaObject → Str
  | nil => "nil".toList
  | boolean _ => "boolean".toList
  | number _ => "number".toList
  | string _ => "string".toList
  | table _ => "table".toList
  | function _ => "function".toList
  | userdata _ => "userdata".toList
  | thread _ => "thread".toList

end LuaObject

structure LuaHeap where
  /-- the fields of a table, in the order in which `pairs` finds them -/
  entries : ℕ → List (LuaObject × LuaObject)
  /-- the table that is the metatable of a value -/
  metatable : LuaObject → Option ℕ

/-- What a function called with a value and a key returns, and the heap it leaves. -/
abbrev Getter := ℕ → LuaObject → LuaObject → LuaHeap → Except Str (LuaObject × LuaHeap)

namespace LuaHeap

def rawget (h : LuaHeap) (ref : ℕ) (key : LuaObject) : LuaObject :=
  ((h.entries ref).lookup key).getD .nil

/-- A field of the metatable. -/
def metafield (h : LuaHeap) (v : LuaObject) (event : Str) : LuaObject :=
  match h.metatable v with
  | none => .nil
  | some ref => h.rawget ref (.string event)

/-- `getmetatable(v)`. -/
def getmetatable (h : LuaHeap) (v : LuaObject) : LuaObject :=
  match h.metatable v with
  | none => .nil
  | some ref =>
    let field := h.rawget ref (.string "__metatable".toList)
    if field = .nil then .table ref else field

variable (call : Getter)

/-- `luaV_gettable`. -/
def gettable : ℕ → LuaHeap → LuaObject → LuaObject → Except Str (LuaObject × LuaHeap)
  | 0, _, _, _ => .error "loop in gettable".toList
  | loop + 1, h, t, key =>
    let tm := h.metafield t "__index".toList
    let follow :=
      match tm with
      | .function ref => call ref t key h
      | tm => gettable loop h tm key
    match t with
    | .table ref => if h.rawget ref key ≠ .nil ∨ tm = .nil then .ok (h.rawget ref key, h) else follow
    | t =>
      if tm = .nil then .error ("attempt to index a ".toList ++ t.typeName ++ " value".toList)
      else follow

/-- `t[key]`; `MAXTAGLOOP` is 100. -/
def index (h : LuaHeap) (t key : LuaObject) : Except Str (LuaObject × LuaHeap) := gettable call 100 h t key

variable {call}

/-- A table without `__index` has the fields it has. -/
theorem index_table {h : LuaHeap} {ref : ℕ} (hindex : h.metafield (.table ref) "__index".toList = .nil)
    (key : LuaObject) : index call h (.table ref) key = .ok (h.rawget ref key, h) := by
  have hplain : h.rawget ref key ≠ .nil ∨ h.metafield (.table ref) "__index".toList = .nil := .inr hindex
  unfold index gettable
  exact if_pos hplain

/-- Only tables can be indexed without it. -/
theorem index_error {h : LuaHeap} {t : LuaObject} (htable : t.isTable = false)
    (hindex : h.metafield t "__index".toList = .nil) (key : LuaObject) :
    index call h t key = .error ("attempt to index a ".toList ++ t.typeName ++ " value".toList) := by
  unfold index gettable
  cases t with
  | table ref => cases htable
  | nil | boolean | number | string | function | userdata | thread => exact if_pos hindex

end LuaHeap

end LuaNode

import LuaNode.Library.Text

/-!
# The stack of the Lua API

The calls of the C API of Lua 5.1 that move values on the stack. A stack is the list of its
values with the top first; an absolute index counts from the bottom, beginning with 1.
-/

namespace LuaNode

inductive LuaValue
  | nil
  | boolean (b : Bool)
  | number (text : Str)
  | string (s : Str)
  | table (entries : List (Str × LuaValue))
  | function
  | userdata
  | thread

namespace LuaValue

def isNil : LuaValue → Bool
  | nil => true
  | _ => false

def isTable : LuaValue → Bool
  | table _ => true
  | _ => false

def isFunction : LuaValue → Bool
  | function => true
  | _ => false

/-- `type(v)`. -/
def typeName : LuaValue → Str
  | nil => "nil".toList
  | boolean _ => "boolean".toList
  | number _ => "number".toList
  | string _ => "string".toList
  | table _ => "table".toList
  | function => "function".toList
  | userdata => "userdata".toList
  | thread => "thread".toList

/-- `lua_toboolean`. -/
def toBoolean : LuaValue → Bool
  | nil => false
  | boolean b => b
  | _ => true

/-- `lua_tostring`, of the values for which `lua_isstring` holds. -/
def toString? : LuaValue → Option Str
  | string s => some s
  | number text => some text
  | _ => none

/-- `lua_getfield` on a table without metamethods. -/
def field (v : LuaValue) (key : Str) : LuaValue :=
  match v with
  | table entries => ((entries.find? fun e => e.1 = key).map Prod.snd).getD nil
  | _ => nil

theorem isNil_iff (v : LuaValue) : v.isNil = true ↔ v = nil := by
  cases v <;> simp [isNil]

@[simp]
theorem isNil_string (s : Str) : (string s).isNil = false := rfl

end LuaValue

abbrev LuaStack := List LuaValue

namespace LuaStack

variable (s : LuaStack)

def gettop : ℕ := s.length

/-- `lua_settop` with an absolute index. -/
def settop (n : ℕ) : LuaStack :=
  List.replicate (n - s.length) .nil ++ s.drop (s.length - n)

def pop (n : ℕ) : LuaStack := s.drop n

/-- The value at index -1. -/
def top : LuaValue := s.headD .nil

/-- `lua_insert`: the top moves under the values from index `i` on. -/
def insert (i : ℕ) : LuaStack :=
  match s with
  | [] => []
  | v :: rest => rest.take (rest.length + 1 - i) ++ v :: rest.drop (rest.length + 1 - i)

/-- `lua_remove`. -/
def remove (i : ℕ) : LuaStack := s.eraseIdx (s.length - i)

end LuaStack

/-- What a function does when it is called. -/
inductive LuaOutcome
  | returns (values : List LuaValue)
  | raises (error : LuaValue)

namespace LuaStack

/-- `lua_pcall` with LUA_MULTRET: the function and its arguments give way to all the results, or
to what the error handler makes of the error. The flag tells that there was none. -/
def pcall (handler : LuaValue → LuaValue) (s : LuaStack) (params : ℕ) :
    LuaOutcome → LuaStack × Bool
  | .returns values => (values.reverse ++ s.pop (params + 1), true)
  | .raises error => (handler error :: s.pop (params + 1), false)

section Lemmas

variable (above below : LuaStack) (v : LuaValue)

@[simp]
theorem top_cons (s : LuaStack) : top (v :: s) = v := rfl

theorem insert_under : insert (v :: (above ++ below)) (below.length + 1) = above ++ v :: below := by
  simp [insert]

theorem remove_between : remove (above ++ v :: below) (below.length + 1) = above ++ below := by
  have h : (above ++ v :: below).length - (below.length + 1) = above.length := by simp
  unfold remove
  rw [h, List.eraseIdx_append_of_length_le le_rfl]
  simp

theorem settop_below : settop (above ++ below) below.length = below := by
  simp [settop]

theorem pop_above : pop (above ++ below) above.length = below := by
  simp [pop]

end Lemmas

end LuaStack

end LuaNode

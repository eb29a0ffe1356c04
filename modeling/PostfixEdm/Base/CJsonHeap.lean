import PostfixEdm.Base.CJsonTree
import PostfixEdm.Lib.Linked
import PostfixEdm.Lib.Ownership

/-!
# `cJSON` items in memory

The functions of `cJSON.c` on pointers. `none` is an access to a block that is not there, by way of NULL or after
`free`, or a loop that needs more `fuel`. A `malloc` that fails is left out.

* `JsonHeap` : the blocks; `Malloc` : where a new one is placed;
* `newItem`, `createString`, `createReference` and the others : the constructors;
* `addItemToArray`, `addItemToObject`, `detachItemFromArray`, `replaceItemInArray` : the lists of children;
* `cJsonDelete` : an item, its siblings behind it and their children are freed;
* `readItem` : the item that the printer finds at an address.
-/

namespace PostfixEdm

/-- The address of a block. A pointer is an `Option Addr`, NULL is `none`. -/
abbrev Addr := Nat

/-- `cJSON_False` to `cJSON_Object` -/
inductive JsonType
  | false | true | null | number | string | array | object
  deriving DecidableEq, Repr

/-- `cJSON`; `valueint` is a function of `valuedouble`. -/
@[ext] structure JsonCell (δ : Type) where
  next : Option Addr
  prev : Option Addr
  child : Option Addr
  type : JsonType
  isReference : Bool
  valuestring : Option Addr
  valuedouble : δ
  string : Option Addr
  deriving DecidableEq

/-- What a block is used for. -/
inductive JsonBlock (δ : Type)
  | cell (c : JsonCell δ)
  | text (s : CString)

@[ext] structure JsonHeap (δ : Type) where
  blocks : Addr → Option (JsonBlock δ)
  finite : ∃ n, ∀ a, n ≤ a → blocks a = none

/-- A `const char *` of a caller: to a text of its own, or to one in a block. -/
inductive CharPtr
  | outside (s : CString)
  | block (a : Addr)

/-- An address for a new block. -/
structure Malloc (δ : Type) where
  addr : JsonHeap δ → Addr
  fresh : ∀ h : JsonHeap δ, h.blocks (addr h) = none

variable {δ : Type}

namespace JsonHeap

def set (h : JsonHeap δ) (a : Addr) (block : Option (JsonBlock δ)) : JsonHeap δ where
  blocks := Function.update h.blocks a block
  finite := by
    obtain ⟨n, hn⟩ := h.finite
    refine ⟨max n (a + 1), fun b hb => ?_⟩
    have hlt : a < b := Nat.le_trans (Nat.le_max_right n (a + 1)) hb
    rw [Function.update_of_ne (Nat.ne_of_gt hlt)]
    exact hn b (Nat.le_trans (Nat.le_max_left n (a + 1)) hb)

def cell (h : JsonHeap δ) (a : Addr) : Option (JsonCell δ) :=
  match h.blocks a with
  | some (.cell c) => some c
  | _ => none

/-- The C string at a pointer. -/
def textAt (h : JsonHeap δ) (p : Option Addr) : Option CString :=
  match p.bind h.blocks with
  | some (.text s) => some s
  | _ => none

/-- The C string that is there when it is read. -/
def read (h : JsonHeap δ) : CharPtr → Option CString
  | .outside s => some s
  | .block a => h.textAt (some a)

/-- A store to a field. -/
def write (h : JsonHeap δ) (a : Addr) (f : JsonCell δ → JsonCell δ) : Option (JsonHeap δ) :=
  (h.cell a).map fun c => h.set a (some (.cell (f c)))

/-- `cJSON_free` -/
def free (h : JsonHeap δ) (a : Addr) : Option (JsonHeap δ) :=
  if (h.blocks a).isSome then some (h.set a none) else none

/-- `if (p) cJSON_free(p);` -/
def freeOpt (h : JsonHeap δ) : Option Addr → Option (JsonHeap δ)
  | none => some h
  | some a => h.free a

/-- `if (p) p->next=q;` -/
def setNext (h : JsonHeap δ) (p q : Option Addr) : Option (JsonHeap δ) :=
  match p with
  | none => some h
  | some a => h.write a fun c => { c with next := q }

/-- `if (q) q->prev=p;` -/
def setPrev (h : JsonHeap δ) (q p : Option Addr) : Option (JsonHeap δ) :=
  match q with
  | none => some h
  | some b => h.write b fun c => { c with prev := p }

/-- `if (c==array->child) array->child=q; else` … -/
def setFirst (h : JsonHeap δ) (array c : Addr) (q : Option Addr) (otherwise : Option (JsonHeap δ)) :
    Option (JsonHeap δ) := do
  if (← h.cell array).child = some c then h.write array fun cell => { cell with child := q } else otherwise

end JsonHeap

open JsonHeap

/-! ## Constructors -/

section Constructors
variable (malloc : Malloc δ) (zero : δ)

/-- `memset(node,0,sizeof(cJSON))` -/
def zeroCell : JsonCell δ := ⟨none, none, none, .false, false, none, zero, none⟩

/-- `cJSON_New_Item` -/
def newItem (h : JsonHeap δ) : Addr × JsonHeap δ :=
  (malloc.addr h, h.set (malloc.addr h) (some (.cell (zeroCell zero))))

/-- `cJSON_strdup` -/
def cJsonStrdup (s : CString) (h : JsonHeap δ) : Addr × JsonHeap δ :=
  (malloc.addr h, h.set (malloc.addr h) (some (.text s)))

/-- `cJSON_CreateNull`, `cJSON_CreateTrue`, `cJSON_CreateFalse`, `cJSON_CreateArray` and `cJSON_CreateObject`, by the
type. -/
def createItem (type : JsonType) (h : JsonHeap δ) : Option (Addr × JsonHeap δ) := do
  let (item, h) := newItem malloc zero h
  let h ← h.write item fun c => { c with type := type }
  some (item, h)

/-- `cJSON_CreateNumber` -/
def createNumber (num : δ) (h : JsonHeap δ) : Option (Addr × JsonHeap δ) := do
  let (item, h) := newItem malloc zero h
  let h ← h.write item fun c => { c with type := .number }
  let h ← h.write item fun c => { c with valuedouble := num }
  some (item, h)

/-- `cJSON_CreateString` -/
def createString (string : CString) (h : JsonHeap δ) : Option (Addr × JsonHeap δ) := do
  let (item, h) := newItem malloc zero h
  let h ← h.write item fun c => { c with type := .string }
  let (copy, h) := cJsonStrdup malloc string h
  let h ← h.write item fun c => { c with valuestring := some copy }
  some (item, h)

/-- `create_reference` -/
def createReference (item : Addr) (h : JsonHeap δ) : Option (Addr × JsonHeap δ) := do
  let (ref, h) := newItem malloc zero h
  let c ← h.cell item
  let h ← h.write ref fun _ => { c with string := none, isReference := true, next := none, prev := none }
  some (ref, h)

end Constructors

/-! ## Lists of children -/

/-- `while (c && c->next) c=c->next;` -/
def lastSibling : Nat → Addr → JsonHeap δ → Option Addr
  | 0, _, _ => none
  | fuel + 1, a, h => do
    let c ← h.cell a
    match c.next with
    | none => some a
    | some b => lastSibling fuel b h

/-- `suffix_object` -/
def suffixObject (prev item : Addr) (h : JsonHeap δ) : Option (JsonHeap δ) := do
  let h ← h.setNext (some prev) (some item)
  h.setPrev (some item) (some prev)

/-- `cJSON_AddItemToArray` -/
def addItemToArray (fuel : Nat) (array : Addr) (item : Option Addr) (h : JsonHeap δ) : Option (JsonHeap δ) := do
  let c ← h.cell array
  match item with
  | none => some h
  | some item =>
    match c.child with
    | none => h.write array fun c => { c with child := some item }
    | some first => suffixObject (← lastSibling fuel first h) item h

/-- `if (item->string) cJSON_free(item->string);item->string=cJSON_strdup(string);` -/
def setString (malloc : Malloc δ) (item : Addr) (string : CharPtr) (h : JsonHeap δ) : Option (JsonHeap δ) := do
  let h ← h.freeOpt (← h.cell item).string
  -- the string is read only now
  let (copy, h) := cJsonStrdup malloc (← h.read string) h
  h.write item fun c => { c with string := some copy }

/-- `cJSON_AddItemToObject` -/
def addItemToObject (malloc : Malloc δ) (fuel : Nat) (object : Addr) (string : CharPtr) (item : Option Addr)
    (h : JsonHeap δ) : Option (JsonHeap δ) :=
  match item with
  | none => some h
  | some a => do addItemToArray fuel object item (← setString malloc a string h)

/-- `cJSON_AddStringToObject` -/
def addStringToObject (malloc : Malloc δ) (zero : δ) (fuel : Nat) (object : Addr) (name : CharPtr) (s : CString)
    (h : JsonHeap δ) : Option (JsonHeap δ) := do
  let (item, h) ← createString malloc zero s h
  addItemToObject malloc fuel object name (some item) h

/-- `cJSON_AddNumberToObject` -/
def addNumberToObject (malloc : Malloc δ) (zero : δ) (fuel : Nat) (object : Addr) (name : CharPtr) (n : δ)
    (h : JsonHeap δ) : Option (JsonHeap δ) := do
  let (item, h) ← createNumber malloc zero n h
  addItemToObject malloc fuel object name (some item) h

/-- `while (c && which>0) c=c->next,which--;` -/
def nthSibling : Nat → Option Addr → JsonHeap δ → Option (Option Addr)
  | _, none, _ => some none
  | 0, some a, _ => some (some a)
  | which + 1, some a, h => do nthSibling which (← h.cell a).next h

/-- `if (c->prev) c->prev->next=c->next;` to `c->prev=c->next=0;` -/
def unlinkItem (array a : Addr) (h : JsonHeap δ) : Option (JsonHeap δ) := do
  let c ← h.cell a
  let h ← h.setNext c.prev c.next
  let c ← h.cell a
  let h ← h.setPrev c.next c.prev
  let c ← h.cell a
  let h ← h.setFirst array a c.next (some h)
  h.write a fun cell => { cell with next := none, prev := none }

/-- `cJSON_DetachItemFromArray`; a negative index is the first one. -/
def detachItemFromArray (array : Addr) (which : Int) (h : JsonHeap δ) : Option (Option Addr × JsonHeap δ) := do
  match ← nthSibling which.toNat (← h.cell array).child h with
  | none => some (none, h)
  | some a => do some (some a, ← unlinkItem array a h)

/-- `if (!(c->type&cJSON_IsReference) && p)` : what a reference points to is not its own. -/
def JsonCell.own (c : JsonCell δ) (p : Option Addr) : Option Addr := if c.isReference then none else p

/-- `if (!(c->type&cJSON_IsReference) && c->valuestring) cJSON_free(c->valuestring);` to `cJSON_free(c);` -/
def freeItem (a : Addr) (h : JsonHeap δ) : Option (JsonHeap δ) := do
  let c ← h.cell a
  let h ← h.freeOpt (c.own c.valuestring)
  let c ← h.cell a
  let h ← h.freeOpt c.string
  h.free a

/-- `cJSON_Delete` : the inner call is for the children, the other one for the loop. -/
def cJsonDelete : Nat → Option Addr → JsonHeap δ → Option (JsonHeap δ)
  | _, none, h => some h
  | 0, some _, _ => none
  | fuel + 1, some a, h => do
    let c ← h.cell a
    let next := c.next
    let h ← cJsonDelete fuel (c.own c.child) h
    let h ← freeItem a h
    cJsonDelete fuel next h

/-- `cJSON_DeleteItemFromArray` -/
def deleteItemFromArray (fuel : Nat) (array : Addr) (which : Int) (h : JsonHeap δ) : Option (JsonHeap δ) := do
  let (c, h) ← detachItemFromArray array which h
  cJsonDelete fuel c h

/-- `newitem->next=c->next;` to `c->next=c->prev=0;` -/
def takePlace (array a newitem : Addr) (h : JsonHeap δ) : Option (JsonHeap δ) := do
  let c ← h.cell a
  let h ← h.write newitem fun cell => { cell with next := c.next }
  let c ← h.cell a
  let h ← h.write newitem fun cell => { cell with prev := c.prev }
  let n ← h.cell newitem
  let h ← h.setPrev n.next (some newitem)
  let h ← h.setFirst array a (some newitem) do
    h.write (← (← h.cell newitem).prev) fun cell => { cell with next := some newitem }
  h.write a fun cell => { cell with next := none, prev := none }

/-- `cJSON_ReplaceItemInArray` -/
def replaceItemInArray (fuel : Nat) (array : Addr) (which : Int) (newitem : Addr) (h : JsonHeap δ) :
    Option (JsonHeap δ) := do
  match ← nthSibling which.toNat (← h.cell array).child h with
  | none => some h
  | some a => do cJsonDelete fuel (some a) (← takePlace array a newitem h)

/-! ## What is there -/

mutual
/-- The item at an address, as `print_value` walks over it. -/
def readItem : Nat → JsonHeap δ → Addr → Option (JsonItem δ)
  | 0, _, _ => none
  | fuel + 1, h, a => do
    let c ← h.cell a
    match c.type with
    | .false => some .false
    | .true => some .true
    | .null => some .null
    | .number => some (.number c.valuedouble)
    | .string => (h.textAt c.valuestring).map .string
    | .array => (readItems fuel h c.child).map .array
    | .object => (readMembers fuel h c.child).map .object

def readItems : Nat → JsonHeap δ → Option Addr → Option (JsonItems δ)
  | _, _, none => some .nil
  | 0, _, some _ => none
  | fuel + 1, h, some a => do
    let item ← readItem fuel h a
    let next ← readItems fuel h (← h.cell a).next
    some (.cons item next)

def readMembers : Nat → JsonHeap δ → Option Addr → Option (JsonMembers δ)
  | _, _, none => some .nil
  | 0, _, some _ => none
  | fuel + 1, h, some a => do
    let name ← h.textAt (← h.cell a).string
    let item ← readItem fuel h a
    let next ← readMembers fuel h (← h.cell a).next
    some (.cons name item next)
end

end PostfixEdm

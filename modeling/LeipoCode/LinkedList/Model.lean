import LeipoCode.Lib.DList
import LeipoCode.Lib.LTS

/-!
# The doubly linked list of `list/list.c`

A translation of `list.c` on an explicit heap: `Node_t` is a `DList.Cell` whose
payload is the `void*` the caller stores, `List_t` is `ListT`, and a call is a
function on the pair of the two.  A call is `Except Fault`-valued: an access the C
program must not make (through NULL, through a node that is not allocated, a
second `free`) and a signed overflow of `size` are faults, and so is a loop that
does not end.

`malloc` is outside the list.  What it returns is the parameter `mem` of the two
calls that allocate: NULL on failure, the address of the new node otherwise.
`Op.Legal` is what is assumed of it.

The `ERROR` lines of the source only print, so they are left out.

### What is load-bearing

An address is a number and a pointer to data is one too, compared and never followed: the list is
about the pointers it is given.  That `malloc` returns memory that is not in use is all that is
assumed of it, and it is assumed of each call on its own (`Op.Legal`); that memory is ever returned
twice is allowed.

The two loops of the source have no counter, so each is given fuel, and the fuel is exact: a walk
over more nodes than are allocated has met one twice, and a pass over a list that changes nothing
will change nothing again.  So `Fault.diverges` says that the C program does not return, and not
that the fuel was too short.

`deletePass` is one turn of the loop of `list_delete`, as a call of its own.  With it a run can be
left in the middle of the loop, and what holds of every reachable state holds between its passes.
-/

namespace LeipoCode.LinkedList

open DList

/-- `ListError_t`: what every call that changes the list returns.  The list is changed only if that
is `ok`. -/
inductive ListError
  | ok
  | insufficientMemory
  | elementAlreadyInList
  | elementNotInList
deriving DecidableEq, Repr

/-- `Node_t`: the data pointer and the two links.  The data pointer is compared with others, and
never followed. -/
abbrev Node := Cell Ptr

/-- `List_t`: the number of elements, and the first and the last node, NULL both if there are none.
-/
structure ListT where
  size : ℤ
  head : Ptr
  tail : Ptr
deriving DecidableEq, Repr

/-- The list structure and the allocated nodes.  There is one list; nodes that belong to nobody any
more stay in the heap. -/
structure State where
  list : ListT
  heap : Heap Ptr
deriving DecidableEq

/-- What a call must never do.  These are the behaviours that C leaves undefined, and the loop that
does not end. -/
inductive Fault
  /-- A field of `*NULL` is read or written. -/
  | nullDeref
  /-- A field of a node that is not allocated is read or written. -/
  | danglingDeref
  /-- `free` of an address that is not allocated. -/
  | invalidFree
  /-- `size` leaves the range of `int`. -/
  | intOverflow
  /-- A loop that never ends. -/
  | diverges
deriving DecidableEq, Repr

/-- The largest `int`, which bounds the number of elements that `size` can count. -/
def INT_MAX : ℤ := 2147483647

/-! ### Memory -/

/-- Read the node at `p`.  Every access through a pointer goes through here or `store`, so a call
that returns has made no access it must not make. -/
def load (h : Heap Ptr) (p : Ptr) : Except Fault Node :=
  match h.lookup p with
  | some c => .ok c
  | none => .error (if p = NULL then .nullDeref else .danglingDeref)

/-- Write a field of the node at `p`, which must be allocated; the other fields stay. -/
def store (h : Heap Ptr) (p : Ptr) (f : Node → Node) : Except Fault (Heap Ptr) := do
  let _ ← load h p
  return h.modify p f

/-- `malloc(sizeof(Node))` returning `mem`.  The content of a fresh node is
indeterminate; `list_insert` writes all of it before it reads any. -/
def malloc (h : Heap Ptr) (mem : Ptr) : Heap Ptr :=
  if mem = NULL then h else h.insert mem ⟨NULL, NULL, NULL⟩

/-- `free(p)`, which does nothing for NULL and must not be given anything else that is not
allocated. -/
def free (h : Heap Ptr) (p : Ptr) : Except Fault (Heap Ptr) :=
  if p = NULL then .ok h
  else if p ∈ h then .ok (h.erase p)
  else .error .invalidFree

/-- `n++` on an `int`, which must not be the largest one: C leaves undefined what comes then. -/
def incr (n : ℤ) : Except Fault ℤ :=
  if n < INT_MAX then .ok (n + 1) else .error .intOverflow

/-- `n--` on an `int`, which must not be the smallest one. -/
def decr (n : ℤ) : Except Fault ℤ :=
  if -INT_MAX - 1 < n then .ok (n - 1) else .error .intOverflow

/-! ### Queries -/

/-- Return the first element in the list, NULL if there is none.  The element is the data of the
node, and not the node. -/
def listHead (s : State) : Except Fault Ptr := do
  if s.list.head = NULL then
    return NULL
  return (← load s.heap s.list.head).data

/-- Return the last element in the list, NULL if there is none, likewise without a loop. -/
def listTail (s : State) : Except Fault Ptr := do
  if s.list.tail = NULL then
    return NULL
  return (← load s.heap s.list.tail).data

/-- Return the number of elements in the list, which is the cached one: no node is looked at. -/
def listSize (s : State) : ℤ := s.list.size

/-- The loop of `list_findPos`, at most `fuel` nodes far: it ends at the first node with the data,
or behind the last node. -/
def findPosLoop (h : Heap Ptr) (data : Ptr) : ℕ → Ptr → Except Fault Ptr
  | 0, _ => .error .diverges
  | fuel + 1, pos => do
      if pos = NULL then
        return pos
      let node ← load h pos
      if node.data = data then
        return pos
      findPosLoop h data fuel node.next

/-- Find the node position based on the data.  The loop writes nothing, so a walk
over more nodes than are allocated has met one twice and never ends: the fuel is
exact. -/
def listFindPos (s : State) (data : Ptr) : Except Fault Ptr := do
  if data = NULL then
    return NULL
  findPosLoop s.heap data (s.heap.keys.card + 1) s.list.head

/-- Return the next element of `dataRef` in the list.  The node is searched for again; NULL is
returned if it is the last one, or is not there. -/
def listNextData (s : State) (dataRef : Ptr) : Except Fault Ptr := do
  let pos ← listFindPos s dataRef
  if pos = NULL ∨ pos = s.list.tail then
    return NULL
  return (← load s.heap (← load s.heap pos).next).data

/-- Return the previous element of `dataRef` in the list, NULL if it is the first one or is not
there. -/
def listPrevData (s : State) (dataRef : Ptr) : Except Fault Ptr := do
  let pos ← listFindPos s dataRef
  if pos = NULL ∨ pos = s.list.head then
    return NULL
  return (← load s.heap (← load s.heap pos).prev).data

/-- Check if the data is in the list based on the pointer (not content).  NULL never is, by the test
of `list_findPos`. -/
def listHasMember (s : State) (data : Ptr) : Except Fault Bool := do
  let pos ← listFindPos s data
  return pos ≠ NULL

/-! ### Calls that change the list -/

/-- Insert the data into the list after `dataRef`.  The node is allocated before the reference is
looked for, and freed again if that is not found; an empty list takes the data whatever the
reference is. -/
def listInsert (mem data dataRef : Ptr) (s : State) : Except Fault (ListError × State) := do
  if ← listHasMember s data then
    return (.elementAlreadyInList, s)
  let newNode := mem
  let h := malloc s.heap mem
  if newNode = NULL then
    return (.insufficientMemory, s)
  let h ← store h newNode fun c => { c with data := data }
  let h ← store h newNode fun c => { c with next := NULL }
  let h ← store h newNode fun c => { c with prev := NULL }
  if s.list.size = 0 then
    return (.ok, ⟨⟨1, newNode, newNode⟩, h⟩)
  let pos ← listFindPos ⟨s.list, h⟩ dataRef
  if pos = NULL then
    let h ← free h newNode
    return (.elementNotInList, ⟨s.list, h⟩)
  if pos = s.list.tail then
    let h ← store h pos fun c => { c with next := newNode }
    let h ← store h newNode fun c => { c with prev := pos }
    let size ← incr s.list.size
    return (.ok, ⟨⟨size, s.list.head, newNode⟩, h⟩)
  else
    let posNext := (← load h pos).next
    let h ← store h newNode fun c => { c with next := posNext }
    let h ← store h newNode fun c => { c with prev := pos }
    let h ← store h (← load h pos).next fun c => { c with prev := newNode }
    let h ← store h pos fun c => { c with next := newNode }
    let size ← incr s.list.size
    return (.ok, ⟨⟨size, s.list.head, s.list.tail⟩, h⟩)

/-- Append the data to the end of the list: an insertion after the data of the tail, which is
searched for from the head. -/
def listAppend (mem data : Ptr) (s : State) : Except Fault (ListError × State) := do
  if s.list.tail = NULL then
    listInsert mem data NULL s
  else
    listInsert mem data (← listTail s) s

/-- Delete the data from the list.  The four branches are those of the source: the only node, the
first, the last, and one in the middle. -/
def listRemove (data : Ptr) (s : State) : Except Fault (ListError × State) := do
  let pos ← listFindPos s data
  if pos = NULL then
    return (.elementNotInList, s)
  if pos = s.list.head ∧ pos = s.list.tail then
    let h ← free s.heap pos
    return (.ok, ⟨⟨0, NULL, NULL⟩, h⟩)
  if pos = s.list.head then
    let posNext := (← load s.heap pos).next
    let h ← store s.heap posNext fun c => { c with prev := NULL }
    let size ← decr s.list.size
    let h ← free h pos
    return (.ok, ⟨⟨size, posNext, s.list.tail⟩, h⟩)
  else if pos = s.list.tail then
    let posPrev := (← load s.heap pos).prev
    let h ← store s.heap posPrev fun c => { c with next := NULL }
    let size ← decr s.list.size
    let h ← free h pos
    return (.ok, ⟨⟨size, s.list.head, posPrev⟩, h⟩)
  else
    let node ← load s.heap pos
    let h ← store s.heap node.next fun c => { c with prev := node.prev }
    let node ← load h pos
    let h ← store h node.prev fun c => { c with next := node.next }
    let size ← decr s.list.size
    let h ← free h pos
    return (.ok, ⟨⟨size, s.list.head, s.list.tail⟩, h⟩)

/-- Init list.  The nodes of a list that was in use are not freed, and nothing knows of them any
more. -/
def listInit (s : State) : State := ⟨⟨0, NULL, NULL⟩, s.heap⟩

/-- One pass of the loop of `list_delete`, entered with `head` not NULL.  The
status of `list_remove` is not looked at. -/
def deletePass (s : State) : Except Fault State := do
  let pos := s.list.head
  let r ← listRemove (← load s.heap pos).data s
  return r.2

/-- The loop of `list_delete`, at most `fuel` passes long: `while (head != NULL)`. -/
def deleteLoop : ℕ → State → Except Fault State
  | 0, s => if s.list.head = NULL then .ok s else .error .diverges
  | fuel + 1, s => do
      if s.list.head = NULL then
        return s
      deleteLoop fuel (← deletePass s)

/-- Delete all the data in the list.  A pass frees a node or changes nothing, so
more passes than there are nodes include one that is repeated for ever: the fuel
is exact. -/
def listDelete (s : State) : Except Fault (ListError × State) := do
  let s ← deleteLoop s.heap.keys.card s
  return (.ok, s)

/-! ### Runs of calls -/

/-- The calls a caller can make, with what `malloc` returns inside, and one pass
of the loop of `list_delete` on its own. -/
inductive Op
  | init
  | insert (mem data dataRef : Ptr)
  | append (mem data : Ptr)
  | remove (data : Ptr)
  | delete
  | deletePass
deriving DecidableEq, Repr

/-- Make the call: its status, and the list afterwards.  A call that does not return a status, like
`list_init`, has one that is always the same. -/
def Op.exec : Op → State → Except Fault (ListError × State)
  | .init, s => .ok (.ok, listInit s)
  | .insert mem data dataRef, s => listInsert mem data dataRef s
  | .append mem data, s => listAppend mem data s
  | .remove data, s => listRemove data s
  | .delete, s => listDelete s
  | .deletePass, s => do return (.ok, ← LinkedList.deletePass s)

/-- What `malloc` promises, and the room the counter `size` has: an address it
returns is not NULL and not in use, and the list stays shorter than `INT_MAX`. -/
def MallocOk (mem : Ptr) (s : State) : Prop :=
  mem ≠ NULL → mem ∉ s.heap ∧ s.list.size + 1 < INT_MAX

instance (mem : Ptr) (s : State) : Decidable (MallocOk mem s) :=
  inferInstanceAs (Decidable (_ → _))

/-- The calls that may be made in `s`: `malloc` behaves, and a pass of the loop of
`list_delete` is made only while its condition holds. -/
def Op.Legal : Op → State → Prop
  | .insert mem _ _, s => MallocOk mem s
  | .append mem _, s => MallocOk mem s
  | .deletePass, s => s.list.head ≠ NULL
  | _, _ => True

instance (op : Op) (s : State) : Decidable (op.Legal s) := by
  cases op <;> unfold Op.Legal <;> infer_instance

/-- The list as a transition system.  It starts from a list structure with any
content, no node allocated, and `list_init` called on it; a step is a legal call
with the status it returns. -/
def listSys : LTS State (Op × ListError) where
  init s := ∃ garbage : ListT, s = listInit ⟨garbage, ∅⟩
  step s l s' := l.1.Legal s ∧ l.1.exec s = .ok (l.2, s')

end LeipoCode.LinkedList

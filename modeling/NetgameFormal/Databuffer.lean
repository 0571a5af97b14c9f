import NetgameFormal.Bytes
import NetgameFormal.Chains
import Mathlib.Logic.Function.Basic

/-!
# databuffer.h: chunk lists over a shared pool of nodes

Node addresses are numbers: block `k` of the pool owns the addresses
`k * MESSAGEPOOL .. (k + 1) * MESSAGEPOOL - 1`. `none` stands for a failed
assertion, a null pointer that is followed, or a loop over a chain longer than
the number of nodes. Byte counts are natural numbers, where `size` and `sz` are
ints in the source; `databufferPushInt` is the push that leaves their range.
-/

set_option autoImplicit false

namespace NetgameFormal

def MESSAGEPOOL : Nat := 1023

structure Message where
  buffer : List Byte
  size : Nat
  next : Option Nat

structure Databuffer where
  header : Nat
  offset : Nat
  size : Nat
  head : Option Nat
  tail : Option Nat
  deriving DecidableEq

/-- `memset(db, 0, sizeof(*db))` -/
def Databuffer.zero : Databuffer := ⟨0, 0, 0, none, none⟩

structure Messagepool where
  pool : Nat
  node : Nat → Message
  freelist : Option Nat

def Messagepool.zero : Messagepool := ⟨0, fun _ => ⟨[], 0, none⟩, none⟩

/-- The number of nodes allocated so far. -/
def Messagepool.limit (mp : Messagepool) : Nat := mp.pool * MESSAGEPOOL

def Messagepool.next (mp : Messagepool) (a : Nat) : Option Nat := (mp.node a).next

def Messagepool.set (mp : Messagepool) (a : Nat) (m : Message) : Messagepool :=
  { mp with node := Function.update mp.node a m }

def returnMessage (db : Databuffer) (mp : Messagepool) : Option (Databuffer × Messagepool) :=
  match db.head with
  | none => none
  | some m =>
    let freed : Messagepool := { mp.set m ⟨[], 0, mp.freelist⟩ with freelist := some m }
    match (mp.node m).next with
    | none => if db.tail = some m then some ({ db with head := none, tail := none }, freed) else none
    | some n => some ({ db with head := some n }, freed)

/-- The `for (;;)` loop of `databuffer_read`; `buffer` collects the copied bytes. -/
def databufferReadLoop :
    Nat → Databuffer → Messagepool → List Byte → Nat → Option (Databuffer × Messagepool × List Byte)
  | 0, _, _, _, _ => none
  | n + 1, db, mp, buffer, sz =>
    match db.head with
    | none => none
    | some a =>
      let current := mp.node a
      let bsz := current.size - db.offset
      if bsz > sz then
        some ({ db with offset := db.offset + sz }, mp,
          buffer ++ (current.buffer.drop db.offset).take sz)
      else
        match returnMessage { db with offset := 0 } mp with
        | none => none
        | some (db', mp') =>
          let buffer' := buffer ++ (current.buffer.drop db.offset).take bsz
          if bsz = sz then some (db', mp', buffer')
          else databufferReadLoop n db' mp' buffer' (sz - bsz)

def databufferRead (db : Databuffer) (mp : Messagepool) (sz : Nat) :
    Option (Databuffer × Messagepool × List Byte) :=
  if sz ≤ db.size then
    databufferReadLoop mp.limit { db with size := db.size - sz } mp [] sz
  else none

/-- The nodes of a new block, linked in order; its last node ends the list. -/
def freshBlock (mp : Messagepool) (a : Nat) : Message :=
  if mp.limit ≤ a ∧ a < mp.limit + MESSAGEPOOL then
    ⟨[], 0, if a + 1 < mp.limit + MESSAGEPOOL then some (a + 1) else none⟩
  else mp.node a

/-- The node `databuffer_push` takes, from the free list or from a new block. -/
def takeNode (mp : Messagepool) : Messagepool × Nat :=
  match mp.freelist with
  | some m => ({ mp with freelist := (mp.node m).next }, m)
  | none =>
    ({ pool := mp.pool + 1, node := freshBlock mp, freelist := some (mp.limit + 1) }, mp.limit)

def databufferPush (db : Databuffer) (mp : Messagepool) (data : List Byte) :
    Option (Databuffer × Messagepool) :=
  let mp₁ := (takeNode mp).1
  let m := (takeNode mp).2
  let mp₂ := mp₁.set m ⟨data, data.length, none⟩
  let db₁ := { db with size := db.size + data.length }
  match db.head with
  | none => if db.tail = none then some ({ db₁ with head := some m, tail := some m }, mp₂) else none
  | some _ =>
    match db.tail with
    | none => none
    | some t => some ({ db₁ with tail := some m }, mp₂.set t { mp₂.node t with next := some m })

/-- The last lines of `databuffer_readheader`: the pending length, once its payload is here. -/
def headerReady (db : Databuffer) (mp : Messagepool) : Databuffer × Messagepool × Int :=
  (db, mp, if db.size < db.header then -1 else db.header)

/-- With `header_size == 2`, the only header size the sources use. -/
def databufferReadheader (db : Databuffer) (mp : Messagepool) :
    Option (Databuffer × Messagepool × Int) :=
  if db.header = 0 then
    if db.size < 2 then some (db, mp, -1)
    else
      match databufferRead db mp 2 with
      | none => none
      | some (db', mp', plen) =>
        some (headerReady
          { db' with header := plenHeader (plen.getD 0 0#8) (plen.getD 1 0#8) } mp')
  else some (headerReady db mp)

def databufferReset (db : Databuffer) : Databuffer := { db with header := 0 }

def databufferClearLoop : Nat → Databuffer → Messagepool → Option (Databuffer × Messagepool)
  | n, db, mp =>
    match db.head with
    | none => some (db, mp)
    | some _ =>
      match n with
      | 0 => none
      | n + 1 =>
        match returnMessage db mp with
        | none => none
        | some (db', mp') => databufferClearLoop n db' mp'

def databufferClear (db : Databuffer) (mp : Messagepool) : Option (Databuffer × Messagepool) :=
  match databufferClearLoop mp.limit db mp with
  | none => none
  | some (_, mp') => some (.zero, mp')

/-- `messagepool_free` frees the blocks with all their nodes. -/
def messagepoolFree (mp : Messagepool) : Messagepool := { mp with pool := 0, freelist := none }

/-- The frame `temp` of `dispatch_message` and `socket_msgdispatch`: the payload
behind its rebuilt length. -/
def rebuiltFrame (payload : List Byte) : List Byte :=
  writeBlock (List.replicate 2 0#8 ++ payload) payload.length 0

/-- The bytes a databuffer holds: its chunks from head to tail less the first `offset` bytes. -/
def heldBytes (mp : Messagepool) (db : Databuffer) : List Byte :=
  ((walk mp.next mp.limit db.head).flatMap fun a => (mp.node a).buffer).drop db.offset

@[simp] theorem Messagepool.set_node_self (mp : Messagepool) (a : Nat) (m : Message) :
    (mp.set a m).node a = m := by
  simp [Messagepool.set]

theorem Messagepool.set_node_of_ne (mp : Messagepool) {a b : Nat} (m : Message) (hb : b ≠ a) :
    (mp.set a m).node b = mp.node b := by
  simp [Messagepool.set, hb]

@[simp] theorem Messagepool.set_limit (mp : Messagepool) (a : Nat) (m : Message) :
    (mp.set a m).limit = mp.limit := rfl

@[simp] theorem Messagepool.set_freelist (mp : Messagepool) (a : Nat) (m : Message) :
    (mp.set a m).freelist = mp.freelist := rfl

theorem rebuiltFrame_eq (payload : List Byte) :
    rebuiltFrame payload = hiByte payload.length :: loByte payload.length :: payload := rfl

end NetgameFormal

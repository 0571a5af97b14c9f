import NetgameFormal.Bytes
import NetgameFormal.Chains
import NetgameFormal.AssocLists
import Mathlib.Logic.Function.Basic
import Mathlib.Data.List.TakeWhile
import Mathlib.Algebra.Ring.Nat

/-!
# hashmap.h: a map from names to numbers

Nodes are in the heap, and a bucket is a chain of them. A node keeps the first
32 bytes of its key and the hash of the whole key; a search compares these two.
`none` stands for a run that leaves the C program's defined behaviour: a null
pointer or a freed node is used, `memcpy` reads behind the end of its source, or
a chain does not end within as many hops as nodes have been allocated.
-/

set_option autoImplicit false

namespace NetgameFormal

def GLOBALNAME_LENGTH : Nat := 32

/-- What a `const char *` points to: a string, and the bytes of its object behind the terminating
zero. -/
structure CString where
  chars : List Byte
  rest : List Byte
  nonzero : 0#8 ∉ chars

/-- The bytes that may be read from the pointer on. -/
def CString.object (s : CString) : List Byte := s.chars ++ 0#8 :: s.rest

/-- What `memcpy` copies from the pointer on. -/
def CString.bytes (s : CString) (n : Nat) : Option (List Byte) :=
  if n ≤ s.object.length then some (s.object.take n) else none

/-- The loop of `hash_string`, in which a char is signed. -/
def hashChars (chars : List Byte) : BitVec 32 :=
  chars.foldl (fun h c => 17#32 * h + c.signExtend 32) 0#32

/-- `hash_string`; the length of the string becomes an int. -/
@[irreducible] def hashString (chars : List Byte) : BitVec 32 :=
  hashChars (chars.take ((strlen chars : Int).bmod (2 ^ 32)).toNat)

structure KeyValue where
  next : Option Nat
  key : Option (List Byte)
  hash : BitVec 32
  value : BitVec 32

/-- `mallocs` counts the nodes that have been allocated. -/
structure Hashmap where
  hashSize : Nat
  node : Nat → Option Nat
  heap : Nat → Option KeyValue
  mallocs : Nat

def hashNew (hashSize : Nat) : Hashmap := ⟨hashSize, fun _ => none, fun _ => none, 0⟩

/-- `h % hash->hash_size` -/
def Hashmap.bucket (hash : Hashmap) (h : BitVec 32) : Nat := h.toNat % hash.hashSize

/-- `node->hash == h && strncmp(node->key, key, GLOBALNAME_LENGTH) == 0` -/
def KeyValue.hasKey (node : KeyValue) (h : BitVec 32) (key : CString) : Option Bool :=
  if node.hash = h then
    node.key.map fun block => strncmp block key.chars GLOBALNAME_LENGTH == 0
  else some false

def hashSearchLoop (hash : Hashmap) (h : BitVec 32) (key : CString) :
    Nat → Option Nat → Option (BitVec 32)
  | _, none => some (-1)
  | 0, some _ => none
  | n + 1, some a => do
    let node ← hash.heap a
    let found ← node.hasKey h key
    if found then some node.value else hashSearchLoop hash h key n node.next

def hashSearch (hash : Hashmap) (key : CString) : Option (BitVec 32) :=
  let h := hashString key.chars
  hashSearchLoop hash h key hash.mallocs (hash.node (hash.bucket h))

/-- `*pkv = node`, where `pkv` is the bucket `b` and `node` has been allocated at `a`. -/
def Hashmap.link (hash : Hashmap) (b a : Nat) (node : KeyValue) : Hashmap :=
  { hash with
    node := Function.update hash.node b (some a)
    heap := Function.update hash.heap a (some node)
    mallocs := hash.mallocs + 1 }

/-- `hash_insert`, where `malloc` has returned `a`. -/
def hashInsert (hash : Hashmap) (key : CString) (value : BitVec 32) (a : Nat) : Option Hashmap := do
  let h := hashString key.chars
  let block ← key.bytes GLOBALNAME_LENGTH
  some (hash.link (hash.bucket h) a ⟨hash.node (hash.bucket h), some block, h, value⟩)

def Hashmap.setHead (hash : Hashmap) (b : Nat) (p : Option Nat) : Hashmap :=
  { hash with node := Function.update hash.node b p }

def Hashmap.setNext (hash : Hashmap) (a : Nat) (ptr : KeyValue) (p : Option Nat) : Hashmap :=
  { hash with heap := Function.update hash.heap a (some { ptr with next := p }) }

def Hashmap.free (hash : Hashmap) (a : Nat) : Hashmap :=
  { hash with heap := Function.update hash.heap a none }

/-- The `while (ptr->next)` loop from the node at `a`: the node found behind it, with its
predecessor and the contents of both. -/
def hashRemoveLoop (hash : Hashmap) (h : BitVec 32) (key : CString) :
    Nat → Nat → Option (Option ((Nat × KeyValue) × (Nat × KeyValue)))
  | 0, _ => none
  | n + 1, a => do
    let ptr ← hash.heap a
    match ptr.next with
    | none => some none
    | some b => do
      let node ← hash.heap b
      let found ← node.hasKey h key
      if found then some (some ((a, ptr), (b, node))) else hashRemoveLoop hash h key n b

def hashRemove (hash : Hashmap) (key : CString) : Option (Hashmap × BitVec 32) := do
  let h := hashString key.chars
  let a ← hash.node (hash.bucket h)
  let ptr ← hash.heap a
  if ptr.key = none then some (hash, -1)
  else
    let found ← ptr.hasKey h key
    if found then some ((hash.setHead (hash.bucket h) ptr.next).free a, ptr.value)
    else
      match ← hashRemoveLoop hash h key hash.mallocs a with
      | none => some (hash, -1)
      | some ((a, ptr), (b, node)) => some ((hash.setNext a ptr node.next).free b, node.value)

/-! ## When two keys are one -/

theorem takeWhile_headD (a : List Byte) : a.takeWhile (· ≠ 0#8) =
    if a.headD 0#8 = 0#8 then [] else a.headD 0#8 :: a.tail.takeWhile (· ≠ 0#8) := by
  cases a with
  | nil => rfl
  | cons x a =>
    rw [List.headD_cons, List.tail_cons, List.takeWhile_cons]
    by_cases hx : x = 0#8
    · simp [hx]
    · simp [hx]

theorem strncmp_zero_iff (a b : List Byte) (n : Nat) : strncmp a b n = 0 ↔
    (a.takeWhile (· ≠ 0#8)).take n = (b.takeWhile (· ≠ 0#8)).take n := by
  induction n generalizing a b with
  | zero => simp [strncmp]
  | succ n ih =>
    rw [strncmp, takeWhile_headD a, takeWhile_headD b]
    generalize a.headD 0#8 = x
    generalize b.headD 0#8 = y
    by_cases hxy : x = y
    · subst hxy
      by_cases hx : x = 0#8
      · simp [hx]
      · simp [hx, ih]
    · have hval : (x.toNat : Int) - y.toNat ≠ 0 := by
        intro hzero
        exact hxy (BitVec.eq_of_toNat_eq (by omega))
      rw [if_pos hxy]
      refine iff_of_false hval ?_
      by_cases hx : x = 0#8
      · have hy : y ≠ 0#8 := fun hy => hxy (hx.trans hy.symm)
        simp [hx, hy]
      · by_cases hy : y = 0#8
        · simp [hx, hy]
        · simp [hx, hy, hxy]

theorem object_takeWhile (s : CString) (n : Nat) :
    ((s.object.take n).takeWhile (· ≠ 0#8)).take n = s.chars.take n := by
  have hpos : ∀ c ∈ s.chars, decide (c ≠ 0#8) = true := by
    intro c hc
    exact decide_eq_true fun hzero => s.nonzero (hzero ▸ hc)
  rw [CString.object, ← List.take_takeWhile, List.take_take, Nat.min_self,
    List.takeWhile_append_of_pos hpos, List.takeWhile_cons_of_neg (by simp), List.append_nil]

def keyIdentity (chars : List Byte) : BitVec 32 × List Byte :=
  (hashString chars, chars.take GLOBALNAME_LENGTH)

theorem hasKey_stored {node : KeyValue} {k' : CString} (hhash : node.hash = hashString k'.chars)
    (hkey : node.key = some (k'.object.take GLOBALNAME_LENGTH)) (k : CString) :
    node.hasKey (hashString k.chars) k
      = some (decide (keyIdentity k'.chars = keyIdentity k.chars)) := by
  have hchars : k.chars.takeWhile (· ≠ 0#8) = k.chars := by
    rw [List.takeWhile_eq_self_iff]
    intro c hc
    exact decide_eq_true fun hzero => k.nonzero (hzero ▸ hc)
  have hcmp : strncmp (k'.object.take GLOBALNAME_LENGTH) k.chars GLOBALNAME_LENGTH = 0 ↔
      k'.chars.take GLOBALNAME_LENGTH = k.chars.take GLOBALNAME_LENGTH := by
    rw [strncmp_zero_iff, object_takeWhile, hchars]
  rw [KeyValue.hasKey, hhash, hkey]
  have hid : keyIdentity k'.chars = keyIdentity k.chars ↔
      hashString k'.chars = hashString k.chars ∧
        strncmp (k'.object.take GLOBALNAME_LENGTH) k.chars GLOBALNAME_LENGTH = 0 := by
    rw [hcmp, keyIdentity, keyIdentity, Prod.mk.injEq]
  by_cases hh : hashString k'.chars = hashString k.chars
  · rw [if_pos hh, Option.map_some]
    apply congrArg some
    rw [Bool.eq_iff_iff, beq_iff_eq, decide_eq_true_iff, hid]
    exact (and_iff_right hh).symm
  · have hother : ¬ keyIdentity k'.chars = keyIdentity k.chars := fun hsame =>
      hh (hid.mp hsame).1
    rw [if_neg hh, decide_eq_false hother]

theorem keyIdentity_injective {chars chars' : List Byte} (h : chars.length < GLOBALNAME_LENGTH)
    (h' : chars'.length < GLOBALNAME_LENGTH) :
    keyIdentity chars = keyIdentity chars' ↔ chars = chars' := by
  constructor
  · intro hid
    have htake := congrArg Prod.snd hid
    rwa [keyIdentity, keyIdentity, List.take_of_length_le (Nat.le_of_lt h),
      List.take_of_length_le (Nat.le_of_lt h')] at htake
  · rintro rfl
    rfl

end NetgameFormal

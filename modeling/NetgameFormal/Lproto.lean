import NetgameFormal.AssocLists
import NetgameFormal.Bytes
import Mathlib.Data.List.Sort
import Mathlib.Logic.Function.Basic

/-!
# lproto.lua: packages described by a dictionary

A protocol declares named fields, each with a default: an integer, a string, or
a record whose table stands for a list of such records. The functions of the C
module are a parameter, with its packing buffer as a memory. Strings are byte
strings; the tables of a message live in a heap, because `pack` fills defaults
into them. An error that Lua raises is told apart from a code that is returned.
-/

set_option autoImplicit false

namespace NetgameFormal

def BUFFER_MAX_LEN : Nat := 10240

abbrev LuaString := List Byte

/-- A byte string from the text that denotes it. -/
def luaString (s : String) : LuaString := s.toList.map fun c => BitVec.ofNat 8 c.toNat

/-- The key `initprot` writes to every table of a dictionary. -/
def KEYSORT : LuaString := luaString "_keysort"

inductive ScalarType where
  | TINTEGER
  | TSTRING
  deriving DecidableEq

inductive Scalar where
  | int (n : Int)
  | str (s : LuaString)
  deriving DecidableEq

def Scalar.type : Scalar → ScalarType
  | .int _ => .TINTEGER
  | .str _ => .TSTRING

/-! ## Dictionaries -/

/-- A Lua table with string keys. -/
structure Table (β : Type) where
  entries : List (LuaString × β)
  distinct : (entries.map Prod.fst).Nodup

def Table.get {β : Type} (t : Table β) (k : LuaString) : Option β := t.entries.lookup k

/-- The order of `table.sort` on strings. -/
def stringLe : LuaString → LuaString → Bool
  | [], _ => true
  | _ :: _, [] => false
  | a :: s, b :: t => decide (a < b) || (a == b && stringLe s t)

/-- The keys that `pairsbykey` goes through. -/
def pairsbykey {β : Type} (t : Table β) : List LuaString :=
  (t.entries.map Prod.fst).insertionSort fun s t => stringLe s t = true

/-- What a dictionary declares under a key: a default, or the record of a list. -/
inductive Field where
  | scalar (d : Scalar)
  | record (r : Table Scalar)

/-- A record after `v._keysort = __keysort`. -/
structure ProtRecord where
  fields : Table Scalar
  keysort : List LuaString

/-- A protocol after `protDict[protId]._keysort = _keysort`. -/
structure Prot where
  fields : Table Field
  keysort : List LuaString

def initRecord (v : Table Scalar) : ProtRecord :=
  ⟨v, (pairsbykey v).filter fun kk => kk ≠ KEYSORT⟩

/-- The second test for `_keysort` reads the global `kk`, which is nil: no key is left out. -/
def initTable (p : Table Field) : Prot := ⟨p, pairsbykey p⟩

def initprot (protDict : Int → Option (Table Field)) : Int → Option Prot :=
  fun protId => (protDict protId).map initTable

/-- A value of an initialised protocol; `keys` is an array of names. -/
inductive DictValue where
  | scalar (d : Scalar)
  | record (r : ProtRecord)
  | keys (names : List LuaString)

/-- `protDict[protId][key]`, where the array of names has replaced a field `_keysort`. -/
def Prot.get (p : Prot) (key : LuaString) : Option DictValue :=
  if key = KEYSORT then some (.keys p.keysort)
  else (p.fields.get key).map fun
    | .scalar d => .scalar d
    | .record r => .record (initRecord r)

/-! ## Dictionary keys -/

namespace Table

variable {β : Type} {t : Table β} {k : LuaString}

theorem mem_of_get {b : β} (h : t.get k = some b) : (k, b) ∈ t.entries :=
  AssocLists.mem_of_lookup h

theorem get_isSome_iff : (t.get k).isSome ↔ k ∈ t.entries.map Prod.fst :=
  AssocLists.isSome_lookup_iff

end Table

theorem mem_pairsbykey {β : Type} {t : Table β} {k : LuaString} :
    k ∈ pairsbykey t ↔ (t.get k).isSome := by
  rw [pairsbykey, List.mem_insertionSort, Table.get_isSome_iff]

theorem mem_initRecord {r : Table Scalar} {k : LuaString} (hreserved : r.get KEYSORT = none) :
    k ∈ (initRecord r).keysort ↔ (r.get k).isSome := by
  simp only [initRecord, List.mem_filter, mem_pairsbykey, ne_eq, decide_eq_true_eq]
  constructor
  · exact And.left
  · intro hsome
    refine ⟨hsome, ?_⟩
    rintro rfl
    rw [hreserved] at hsome
    cases hsome

theorem mem_initTable {fields : Table Field} {k : LuaString} :
    k ∈ (initTable fields).keysort ↔ (fields.get k).isSome := mem_pairsbykey

theorem initprot_some {protDict : Int → Option (Table Field)} {protId : Int}
    {fields : Table Field} (hprot : protDict protId = some fields) :
    initprot protDict protId = some (initTable fields) := by
  rw [initprot, hprot]
  rfl

theorem initTable_get_ne_none {fields : Table Field} {key : LuaString}
    (hkey : key ∈ (initTable fields).keysort) : (initTable fields).get key ≠ none := by
  unfold Prot.get
  by_cases hreserved : key = KEYSORT
  · rw [if_pos hreserved]
    exact Option.some_ne_none _
  · obtain ⟨field, hfield⟩ := Option.isSome_iff_exists.mp (mem_initTable.mp hkey)
    have hfield' : (initTable fields).fields.get key = some field := hfield
    rw [if_neg hreserved, hfield', Option.map_some]
    exact Option.some_ne_none _

theorem initTable_get {fields : Table Field} {k : LuaString}
    (hreserved : fields.get KEYSORT = none) (hk : k ∈ (initTable fields).keysort) :
    (∃ d, fields.get k = some (.scalar d) ∧ (initTable fields).get k = some (.scalar d)) ∨
      ∃ r, fields.get k = some (.record r) ∧
        (initTable fields).get k = some (.record (initRecord r)) := by
  have hsome : (fields.get k).isSome := mem_initTable.mp hk
  have hne : k ≠ KEYSORT := by
    rintro rfl
    rw [hreserved] at hsome
    cases hsome
  obtain ⟨field, hfield⟩ := Option.isSome_iff_exists.mp hsome
  cases field with
  | scalar d =>
    refine .inl ⟨d, hfield, ?_⟩
    simp only [Prot.get, initTable, hne, if_false, hfield, Option.map_some]
  | record r =>
    refine .inr ⟨r, hfield, ?_⟩
    simp only [Prot.get, initTable, hne, if_false, hfield, Option.map_some]

/-! ## The C module -/

abbrev Memory := Nat → Byte

/-- The functions of `lproto.c`: the writing ones return the memory and the number of bytes, the
reading ones a number of bytes or a negative code, and a value. -/
structure LprotoC where
  write2byte : Memory → Int → Nat → Memory × Nat
  write : Memory → Scalar → Nat → Memory × Nat
  newpack : Memory → Nat → Nat × List Byte
  read2byte : Memory → Nat → Int × Int
  read : ScalarType → Memory → Nat → Int × Scalar

/-- The functions of the C module, on the values that they can represent: inside the buffer a
value touches only the bytes it reports, and it is read back wherever these bytes are. -/
structure LprotoC.Lossless (c : LprotoC) (holds : Scalar → Prop) : Prop where
  write2byte_size : ∀ mem n off, (c.write2byte mem n off).2 = 2
  write2byte_frame : ∀ mem n off i, i < off ∨ off + 2 ≤ i →
    (c.write2byte mem n off).1 i = mem i
  read2byte : ∀ mem n off buf, 0 ≤ n → n < 65536 →
    (∀ i, off ≤ i → i < off + 2 → buf i = (c.write2byte mem n off).1 i) →
    c.read2byte buf off = (2, n)
  write_frame : ∀ mem v off i, holds v → off + (c.write mem v off).2 < BUFFER_MAX_LEN →
    i < off ∨ off + (c.write mem v off).2 ≤ i → (c.write mem v off).1 i = mem i
  read : ∀ mem v off buf, holds v → off + (c.write mem v off).2 < BUFFER_MAX_LEN →
    (∀ i, off ≤ i → i < off + (c.write mem v off).2 → buf i = (c.write mem v off).1 i) →
    c.read v.type buf off = (((c.write mem v off).2 : Int), v)
  newpack : ∀ mem sz, c.newpack mem sz = (sz, (List.range sz).map mem)

/-! ## Packing -/

/-- A value of a message. The elements of a sequence `list` are tables, named by their addresses,
or `none` for any other value. -/
inductive LuaValue where
  | nil
  | scalar (v : Scalar)
  | list (elements : List (Option Nat))
  | other
  deriving DecidableEq

inductive LuaType where
  | nil
  | number
  | string
  | table
  | other
  deriving DecidableEq

def Scalar.luaType : Scalar → LuaType
  | .int _ => .number
  | .str _ => .string

def LuaValue.luaType : LuaValue → LuaType
  | .nil => .nil
  | .scalar v => v.luaType
  | .list _ => .table
  | .other => .other

/-- The tables among the elements of a sequence. -/
def LuaValue.records : LuaValue → List Nat
  | .list vs => vs.filterMap id
  | _ => []

/-- The tables of a message, by address and key. -/
abbrev Heap := Nat → LuaString → LuaValue

def Heap.set (heap : Heap) (t : Nat) (k : LuaString) (v : LuaValue) : Heap :=
  Function.update heap t (Function.update (heap t) k v)

/-- Why a function of the script does not get to its end. -/
inductive LuaStop where
  | raises
  | returns (code : Int)
  deriving DecidableEq

structure PackState where
  heap : Heap
  mem : Memory
  sz : Nat

/-- `ret = lproto_c.write(v,sz)`, the check of `ret`, and `sz = sz + ret`. -/
def packWrite (c : LprotoC) (st : PackState) (v : Scalar) (code : Int) : Except LuaStop PackState :=
  let (mem, ret) := c.write st.mem v st.sz
  if ret ≥ BUFFER_MAX_LEN then .error (.returns code)
  else .ok { st with mem := mem, sz := st.sz + ret }

/-- A scalar of the table `t`, replaced by its default `d` if it is of another type. -/
def packScalar (c : LprotoC) (st : PackState) (t : Nat) (k : LuaString) (d : Scalar) :
    Except LuaStop PackState :=
  let heap := if (st.heap t k).luaType ≠ d.luaType then st.heap.set t k (.scalar d) else st.heap
  match heap t k with
  | .scalar v => packWrite c { st with heap := heap } v (-3)
  | _ => .error .raises

/-- The innermost loop of `pack`, over the keys of a record. -/
def packRecord (c : LprotoC) (rd : ProtRecord) (v : Nat) :
    List LuaString → PackState → Except LuaStop PackState
  | [], st => .ok st
  | k :: ks, st =>
    match rd.fields.get k with
    | none => .error .raises
    | some d => do
      let st ← packScalar c st v k d
      packRecord c rd v ks st

/-- The loop over the elements of a list. One that is no table has no field to read, or none to
write its default to. -/
def packList (c : LprotoC) (rd : ProtRecord) :
    List (Option Nat) → PackState → Except LuaStop PackState
  | [], st => .ok st
  | none :: vs, st => if rd.keysort = [] then packList c rd vs st else .error .raises
  | some v :: vs, st => do
    let st ← packRecord c rd v rd.keysort st
    packList c rd vs st

/-- A string where a list is declared: it has a length to write, but `ipairs` raises on it. -/
def packText (c : LprotoC) (st : PackState) (s : LuaString) : Except LuaStop PackState := do
  let _ ← packWrite c st (.int s.length) (-2)
  .error .raises

/-- The loop over the keys of a protocol. The names of `_keysort` are no records, so that a list
under this key is only good when it is empty. -/
def packFields (c : LprotoC) (prot : Prot) (p : Nat) :
    List LuaString → PackState → Except LuaStop PackState
  | [], st => .ok st
  | key :: keys, st =>
    match prot.get key with
    | none => .error .raises
    | some (.scalar d) => do
      let st ← packScalar c st p key d
      packFields c prot p keys st
    | some (.record rd) =>
      match st.heap p key with
      | .list vs => do
        let st ← packWrite c st (.int vs.length) (-2)
        let st ← packList c rd vs st
        packFields c prot p keys st
      | .scalar (.str s) => packText c st s
      | _ => .error .raises
    | some (.keys _) =>
      match st.heap p key with
      | .list vs => do
        let st ← packWrite c st (.int vs.length) (-2)
        if vs = [] then packFields c prot p keys st else .error .raises
      | .scalar (.str s) => packText c st s
      | _ => .error .raises

/-- `prot:pack`, with the size and the buffer it returns. -/
def pack (c : LprotoC) (protDict : Int → Option Prot) (heap : Heap) (mem : Memory)
    (fd protId : Int) (p : Nat) : Except LuaStop (Nat × List Byte) :=
  let (mem, ret) := c.write2byte mem fd 2
  let sz := 2 + ret
  let (mem, ret) := c.write2byte mem protId sz
  let sz := sz + ret
  match protDict protId with
  | none => .error .raises
  | some prot => do
    let st ← packFields c prot p prot.keysort ⟨heap, mem, sz⟩
    let (mem, _) := c.write2byte st.mem ((st.sz : Int) - 2) 0
    .ok (c.newpack mem st.sz)

/-! ## What every packed value keeps -/

theorem bind_eq_ok {α β : Type} {res : Except LuaStop α} {f : α → Except LuaStop β} {b : β}
    (h : (res >>= f) = .ok b) : ∃ a, res = .ok a ∧ f a = .ok b := by
  cases res with
  | error stop => cases h
  | ok a => exact ⟨a, rfl, h⟩

/-- `P` outlasts the packing of any length, and of any value under a key of the kind `ok`. -/
structure PackKeeps (c : LprotoC) (ok : LuaString → Prop) (P : PackState → Prop) : Prop where
  write : ∀ {st st' v code}, P st → packWrite c st v code = .ok st' → P st'
  scalar : ∀ {st st' t k d}, ok k → P st → packScalar c st t k d = .ok st' → P st'

namespace PackKeeps

variable {c : LprotoC} {ok : LuaString → Prop} {P : PackState → Prop} {st st' : PackState}

theorem record (hkeeps : PackKeeps c ok P) {rd : ProtRecord} {v : Nat} {ks : List LuaString}
    (hks : ∀ k ∈ ks, ok k) (hst : P st) (h : packRecord c rd v ks st = .ok st') : P st' := by
  induction ks generalizing st with
  | nil =>
    cases h
    exact hst
  | cons k ks ih =>
    unfold packRecord at h
    split at h
    · cases h
    · obtain ⟨mid, hmid, hrest⟩ := bind_eq_ok h
      have hmidst := hkeeps.scalar (hks k List.mem_cons_self) hst hmid
      exact ih (fun k' hk' => hks k' (List.mem_cons_of_mem _ hk')) hmidst hrest

theorem list (hkeeps : PackKeeps c ok P) {rd : ProtRecord} {vs : List (Option Nat)}
    (hks : ∀ k ∈ rd.keysort, ok k) (hst : P st) (h : packList c rd vs st = .ok st') : P st' := by
  induction vs generalizing st with
  | nil =>
    cases h
    exact hst
  | cons v vs ih =>
    cases v with
    | none =>
      rw [packList] at h
      split at h
      · exact ih hst h
      · cases h
    | some v =>
      obtain ⟨mid, hmid, hrest⟩ := bind_eq_ok h
      exact ih (hkeeps.record hks hst hmid) hrest

theorem text_ne_ok {s : LuaString} : packText c st s ≠ .ok st' := by
  intro h
  obtain ⟨_, -, hraise⟩ := bind_eq_ok h
  cases hraise

theorem field (hkeeps : PackKeeps c ok P) {prot : Prot} {p : Nat} {key : LuaString}
    {keys : List LuaString} (hkey : ok key)
    (hrecord : ∀ rd, prot.get key = some (.record rd) → ∀ k ∈ rd.keysort, ok k) (hst : P st)
    (h : packFields c prot p (key :: keys) st = .ok st') :
    ∃ mid, P mid ∧ packFields c prot p keys mid = .ok st' := by
  unfold packFields at h
  split at h
  case h_1 => cases h
  case h_2 =>
    obtain ⟨mid, hmid, hrest⟩ := bind_eq_ok h
    exact ⟨mid, hkeeps.scalar hkey hst hmid, hrest⟩
  case h_3 rd hget =>
    split at h
    · obtain ⟨mid, hcount, hlater⟩ := bind_eq_ok h
      obtain ⟨last, hlist, hrest⟩ := bind_eq_ok hlater
      exact ⟨last, hkeeps.list (hrecord rd hget) (hkeeps.write hst hcount) hlist, hrest⟩
    · exact absurd h text_ne_ok
    · cases h
  case h_4 =>
    split at h
    · obtain ⟨mid, hcount, hlater⟩ := bind_eq_ok h
      split at hlater
      · exact ⟨mid, hkeeps.write hst hcount, hlater⟩
      · cases hlater
    · exact absurd h text_ne_ok
    · cases h

theorem fields (hkeeps : PackKeeps c ok P) {prot : Prot} {p : Nat} {keys : List LuaString}
    (hok : ∀ k, ok k) (hst : P st) (h : packFields c prot p keys st = .ok st') : P st' := by
  induction keys generalizing st with
  | nil =>
    cases h
    exact hst
  | cons key keys ih =>
    obtain ⟨mid, hmid, hrest⟩ := hkeeps.field (hok key) (fun _ _ k _ => hok k) hst h
    exact ih hmid hrest

end PackKeeps

/-! ## Unpacking -/

abbrev UnpackedRecord := LuaString → Option Scalar

inductive Unpacked where
  | scalar (v : Scalar)
  | list (records : List UnpackedRecord)

abbrev UnpackedTable := LuaString → Option Unpacked

/-- `lproto_c.read_2byte(offset)` and the check of its result. -/
def unpackRead2byte (c : LprotoC) (mem : Memory) (offset : Nat) : Except LuaStop (Int × Nat) :=
  let (ret, v) := c.read2byte mem offset
  if ret < 0 then .error (.returns (-2)) else .ok (v, offset + ret.toNat)

/-- `lproto_c.read(tp,offset)` and the check of its result. -/
def unpackRead (c : LprotoC) (mem : Memory) (tp : ScalarType) (offset : Nat) (code : Int) :
    Except LuaStop (Scalar × Nat) :=
  let (ret, v) := c.read tp mem offset
  if ret < 0 then .error (.returns code) else .ok (v, offset + ret.toNat)

def ProtRecord.ittp (rd : ProtRecord) (k : LuaString) : ScalarType :=
  match rd.fields.get k with
  | some (.str _) => .TSTRING
  | _ => .TINTEGER

def unpackRecord (c : LprotoC) (mem : Memory) (rd : ProtRecord) :
    List LuaString → UnpackedRecord → Nat → Except LuaStop (UnpackedRecord × Nat)
  | [], temp, offset => .ok (temp, offset)
  | k :: ks, temp, offset => do
    let (v, offset) ← unpackRead c mem (rd.ittp k) offset (-4)
    unpackRecord c mem rd ks (Function.update temp k (some v)) offset

/-- The loop `for i=1,n`, with the records read so far. -/
def unpackList (c : LprotoC) (mem : Memory) (rd : ProtRecord) :
    Nat → List UnpackedRecord → Nat → Except LuaStop (List UnpackedRecord × Nat)
  | 0, records, offset => .ok (records, offset)
  | n + 1, records, offset => do
    let (temp, offset) ← unpackRecord c mem rd rd.keysort (fun _ => none) offset
    unpackList c mem rd n (records ++ [temp]) offset

/-- What is read for one key of a protocol. A count under `_keysort` is that of an array of names,
which has no keys of its own. -/
def unpackField (c : LprotoC) (mem : Memory) (prot : Prot) (key : LuaString) (offset : Nat) :
    Except LuaStop (Unpacked × Nat) :=
  match prot.get key with
  | some (.scalar d) => do
    let (v, offset) ← unpackRead c mem d.type offset (-5)
    .ok (.scalar v, offset)
  | some (.record rd) => do
    let (n, offset) ← unpackRead c mem .TINTEGER offset (-3)
    match n with
    | .str _ => .error .raises
    | .int n => do
      let (records, offset) ← unpackList c mem rd n.toNat [] offset
      .ok (.list records, offset)
  | some (.keys _) => do
    let (n, offset) ← unpackRead c mem .TINTEGER offset (-3)
    match n with
    | .str _ => .error .raises
    | .int n => if n ≥ 1 then .error .raises else .ok (.list [], offset)
  | none => .error .raises

def unpackFields (c : LprotoC) (mem : Memory) (prot : Prot) :
    List LuaString → UnpackedTable → Nat → Except LuaStop (UnpackedTable × Nat)
  | [], p, offset => .ok (p, offset)
  | key :: keys, p, offset => do
    let (v, offset) ← unpackField c mem prot key offset
    unpackFields c mem prot keys (Function.update p key (some v)) offset

/-- `prot:unpack`, on the memory from the buffer on; what it returns behind the 0. -/
def unpack (c : LprotoC) (protDict : Int → Option Prot) (mem : Memory) (sz : Nat) :
    Except LuaStop (Int × Int × UnpackedTable) :=
  if sz ≥ BUFFER_MAX_LEN then .error (.returns (-1))
  else do
    let (fd, offset) ← unpackRead2byte c mem 2
    let (protId, offset) ← unpackRead2byte c mem offset
    match protDict protId with
    | none => .error .raises
    | some prot => do
      let (p, _) ← unpackFields c mem prot prot.keysort (fun _ => none) offset
      .ok (fd, protId, p)

theorem unpack_of_header {c : LprotoC} {mem : Memory} {sz off off' : Nat} {fd protId : Int}
    (hsz : sz < BUFFER_MAX_LEN) (hfirst : unpackRead2byte c mem 2 = .ok (fd, off))
    (hsecond : unpackRead2byte c mem off = .ok (protId, off')) (protDict : Int → Option Prot) :
    unpack c protDict mem sz = match protDict protId with
      | none => .error .raises
      | some prot =>
        unpackFields c mem prot prot.keysort (fun _ => none) off' >>= fun out =>
          .ok (fd, protId, out.1) := by
  rw [unpack, if_neg (not_le.mpr hsz), hfirst]
  change (unpackRead2byte c mem off >>= _) = _
  rw [hsecond]
  rfl

end NetgameFormal

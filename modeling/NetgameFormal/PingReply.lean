import NetgameFormal.LprotoCodec
import NetgameFormal.LuaSocket
import Mathlib.Algebra.Ring.Nat

/-!
# The server's answer to a ping

`msg_dispatch` of bin.server/scripts/main.lua packs the answer and passes it to
`sock:sendbuffer` the way `newpack` returns it, as a light userdata and a size.
The two bindings of lua-socket.c take the bytes to send from different values.
-/

set_option autoImplicit false

namespace NetgameFormal

/-! ## The bindings -/

/-- A value on the Lua stack; a light userdata is known by the block it points to. -/
inductive StackValue where
  | nil
  | number (n : Int)
  | string (s : LuaString)
  | lightuserdata (block : List Byte)

/-- `m / 10 ^ k`, rounded to the nearest, and to the even one of two. -/
def roundDigits (m k : Nat) : Nat :=
  let q := m / 10 ^ k
  let r := 2 * (m % 10 ^ k)
  if 10 ^ k < r ∨ r = 10 ^ k ∧ q % 2 = 1 then q + 1 else q

/-- A number of at least 15 digits as `%.14g` prints it. -/
def exponentForm (m : Nat) : List Char :=
  let e := (Nat.toDigits 10 m).length - 1
  let q := roundDigits m (e - 13)
  let e := if q = 10 ^ 14 then e + 1 else e
  let digits := ((Nat.toDigits 10 q).reverse.dropWhile (· = '0')).reverse
  let mantissa := digits.take 1 ++ if digits.length ≤ 1 then [] else '.' :: digits.drop 1
  mantissa ++ 'e' :: '+' :: Nat.toDigits 10 e

/-- `LUA_NUMBER_FMT` on a whole number. -/
def numberString (n : Int) : LuaString :=
  let digits := if n.natAbs < 10 ^ 14 then Nat.toDigits 10 n.natAbs else exponentForm n.natAbs
  ((if n < 0 then ['-'] else []) ++ digits).map fun c => BitVec.ofNat 8 c.toNat

/-- `lua_tolstring`: null for what is neither a string nor a number. -/
def tolstring : StackValue → Option LuaString
  | .nil => none
  | .number n => some (numberString n)
  | .string s => some s
  | .lightuserdata _ => none

example : [0, -12, 99999999999999, 100000000000000, -123456789012345678].map numberString =
    ["0", "-12", "99999999999999", "1e+14", "-1.2345678901235e+17"].map luaString := by decide

def touserdata : StackValue → Option (List Byte)
  | .lightuserdata block => some block
  | _ => none

/-- What `lsendbuffer` gives to `socket_send`: `sz` bytes from where the userdata points. -/
def lsendbuffer (buffer : StackValue) (sz : Int) : List Byte :=
  ((touserdata buffer).getD []).take sz.toNat

/-- What `lsendstring` gives to `socket_send`: a copy of the string; the size stays 0 without one. -/
def lsendstring (str : StackValue) : List Byte := (tolstring str).getD []

/-- `sock:sendbuffer` calls `socket_c.sendstring`. -/
def sockSendbuffer (buffer : StackValue) (_sz : Int) : List Byte := lsendstring buffer

/-! ## The script -/

def dp1 : Table Field :=
  ⟨[(luaString "ping", .scalar (.str (luaString "hello"))), (luaString "ret", .scalar (.int (-1)))],
    by decide⟩

def dp2 : Table Field :=
  ⟨[(luaString "pong", .scalar (.str (luaString "pong"))),
    (luaString "list", .record
      ⟨[(luaString "a", .int 1), (luaString "b", .str (luaString "hao"))], by decide⟩)],
    by decide⟩

/-- `protDict`, the protocols in the order of their registration. -/
def serverProtDict (protId : Int) : Option (Table Field) :=
  if protId = 1 then some dp1 else if protId = 2 then some dp2 else none

def serverProt : Int → Option Prot := initprot serverProtDict

def replyRecord (a : Int) (b : String) : LuaString → LuaValue := fun k =>
  if k = luaString "a" then .scalar (.int a)
  else if k = luaString "b" then .scalar (.str (luaString b))
  else .nil

def replyTables : Heap
  | 0 => fun k =>
    if k = luaString "pong" then .scalar (.str (luaString "pong"))
    else if k = luaString "list" then .list [some 1, some 2]
    else .nil
  | 1 => replyRecord 2 "testlist1"
  | 2 => replyRecord 3 "testlist2"
  | _ => fun _ => .nil

def packResults : Except LuaStop (Nat × List Byte) → Except LuaStop (Int × StackValue)
  | .ok (sz, block) => .ok (sz, .lightuserdata block)
  | .error (.returns code) => .ok (code, .nil)
  | .error .raises => .error .raises

/-- A call of `socket_send` on the handle of a sock. -/
structure SocketSend where
  sock : Nat
  bytes : List Byte
  deriving DecidableEq

/-- `msg_dispatch`, with the packing buffer as it is. Without a fd and a protId `string.format`
raises. -/
def msgDispatch (c : LprotoC) (st : SockLists) (mem : Memory) (sfd : Int) (buffer : Memory)
    (sz : Nat) : Except LuaStop (Option SocketSend) :=
  match unpack c serverProt buffer sz with
  | .error _ => .error .raises
  | .ok (cfd, protId, _) =>
    if protId = 1 then do
      let (sz, buf) ← packResults (pack c serverProt replyTables mem cfd 2 0)
      match st.sockList_fd2sock sfd with
      | none => .error .raises
      | some k =>
        match st.socks[k]? with
        | none => .error .raises
        | some o =>
          if o.metatable then .ok (some ⟨k, sockSendbuffer buf sz⟩) else .error .raises
    else .ok none

/-! ## The size of a frame -/

section Size

variable {c : LprotoC} {st st' : PackState}

theorem packWrite_le {v : Scalar} {code : Int} (h : packWrite c st v code = .ok st') :
    st.sz ≤ st'.sz := by
  unfold packWrite at h
  split at h
  split at h
  · cases h
  · cases h
    exact Nat.le_add_right _ _

theorem packScalar_le {t : Nat} {k : LuaString} {d : Scalar}
    (h : packScalar c st t k d = .ok st') : st.sz ≤ st'.sz := by
  unfold packScalar at h
  simp only at h
  split at h
  · have hle := packWrite_le h
    exact hle
  · cases h

theorem size_kept (c : LprotoC) (n : Nat) :
    PackKeeps c (fun _ => True) fun st => n ≤ st.sz where
  write hst h := Nat.le_trans hst (packWrite_le h)
  scalar _ hst h := Nat.le_trans hst (packScalar_le h)

theorem pack_size {protDict : Int → Option Prot} {heap : Heap} {mem : Memory} {fd protId : Int}
    {p len : Nat} {block : List Byte}
    (hnewpack : ∀ mem sz, c.newpack mem sz = (sz, (List.range sz).map mem))
    (h : pack c protDict heap mem fd protId p = .ok (len, block)) :
    2 ≤ len ∧ block.length = len := by
  unfold pack at h
  simp only at h
  split at h
  · cases h
  · obtain ⟨mid, hfields, hrest⟩ := bind_eq_ok h
    have hle := (size_kept c _).fields (fun _ => trivial) (Nat.le_refl _) hfields
    simp only [hnewpack, Except.ok.injEq, Prod.mk.injEq] at hrest
    obtain ⟨rfl, rfl⟩ := hrest
    refine ⟨?_, by simp⟩
    simp only at hle
    omega

end Size

theorem lsendbuffer_pack {c : LprotoC} {protDict : Int → Option Prot} {heap : Heap} {mem : Memory}
    {fd protId : Int} {p len : Nat} {block : List Byte}
    (hnewpack : ∀ mem sz, c.newpack mem sz = (sz, (List.range sz).map mem))
    (h : pack c protDict heap mem fd protId p = .ok (len, block)) :
    lsendbuffer (.lightuserdata block) len = block := by
  obtain ⟨-, hblock⟩ := pack_size hnewpack h
  exact List.take_of_length_le (Nat.le_of_eq hblock)

/-! ## The answer -/

/-- `socket_send` is given exactly the packed frame. -/
def PingAnswered (c : LprotoC) (st : SockLists) (mem : Memory) (sfd : Int) (buffer : Memory)
    (sz : Nat) (cfd : Int) : Prop :=
  ∃ k len block, pack c serverProt replyTables mem cfd 2 0 = .ok (len, block) ∧
    msgDispatch c st mem sfd buffer sz = .ok (some ⟨k, block.take len⟩)

section Answer

variable {c : LprotoC} {st : SockLists} {mem buffer : Memory} {sfd cfd : Int} {sz : Nat}
  {p : UnpackedTable}

theorem msgDispatch_bytes (hping : unpack c serverProt buffer sz = .ok (cfd, 1, p))
    {len : Nat} {block : List Byte}
    (hpack : pack c serverProt replyTables mem cfd 2 0 = .ok (len, block)) {sent : SocketSend}
    (hsent : msgDispatch c st mem sfd buffer sz = .ok (some sent)) : sent.bytes = [] := by
  unfold msgDispatch at hsent
  simp only [hping, hpack, if_true] at hsent
  obtain ⟨results, hresults, hrest⟩ := bind_eq_ok hsent
  cases hresults
  simp only at hrest
  split at hrest
  · cases hrest
  · split at hrest
    · cases hrest
    · split at hrest
      · cases hrest
        rfl
      · cases hrest

theorem ping_never_answered
    (hnewpack : ∀ mem sz, c.newpack mem sz = (sz, (List.range sz).map mem))
    (hping : unpack c serverProt buffer sz = .ok (cfd, 1, p)) :
    ¬ PingAnswered c st mem sfd buffer sz cfd := by
  intro hanswered
  obtain ⟨k, len, block, hpack, hsent⟩ := hanswered
  obtain ⟨hlen, hblock⟩ := pack_size hnewpack hpack
  have hnone := congrArg List.length (msgDispatch_bytes hping hpack hsent)
  rw [List.length_take, hblock, List.length_nil] at hnone
  omega

end Answer

def serverSocks : SockLists :=
  (SockLists.init.connect (luaString "127.0.0.1") (luaString "8888") (some 4)).1

def pingBuffer : Memory := holding [0, 10, 0, 5, 0, 1, 0, 0, 0, 0, 0, 0]

theorem ping_unpacked :
    (unpack lprotoBytes serverProt pingBuffer 12).map (fun out => (out.1, out.2.1)) =
      .ok (5, 1) := by
  decide +kernel

theorem ping_never_answered_client :
    ¬ PingAnswered lprotoBytes serverSocks (fun _ => 0) 4 pingBuffer 12 5 := by
  have hping := ping_unpacked
  cases hres : unpack lprotoBytes serverProt pingBuffer 12 with
  | error stop =>
    rw [hres] at hping
    cases hping
  | ok out =>
    obtain ⟨cfd, protId, p⟩ := out
    rw [hres] at hping
    cases hping
    exact ping_never_answered (fun _ _ => rfl) hres

/-- The answer is packed, 46 bytes of it, and `socket_send` is given none. -/
theorem ping_answer_lost :
    (unpack lprotoBytes serverProt pingBuffer 12).map (fun out => (out.1, out.2.1)) =
        .ok (5, 1) ∧
      (pack lprotoBytes serverProt replyTables (fun _ => 0) 5 2 0).map (fun out =>
        (out.1, out.2.take 6)) = .ok (46, [0, 44, 0, 5, 0, 2]) ∧
      msgDispatch lprotoBytes serverSocks (fun _ => 0) 4 pingBuffer 12 = .ok (some ⟨0, []⟩) ∧
      ¬ PingAnswered lprotoBytes serverSocks (fun _ => 0) 4 pingBuffer 12 5 := by
  have hpack : (pack lprotoBytes serverProt replyTables (fun _ => 0) 5 2 0).map (fun out =>
      (out.1, out.2.take 6)) = .ok (46, [0, 44, 0, 5, 0, 2]) := by decide +kernel
  have hsent : msgDispatch lprotoBytes serverSocks (fun _ => 0) 4 pingBuffer 12 =
      .ok (some ⟨0, []⟩) := by decide +kernel
  refine ⟨ping_unpacked, hpack, hsent, ?_⟩
  intro hanswered
  obtain ⟨k, len, block, hblock, hbytes⟩ := hanswered
  rw [hblock, Except.map] at hpack
  obtain ⟨rfl, hhead⟩ := Prod.mk.inj (Except.ok.inj hpack)
  rw [hsent] at hbytes
  have hnone : [] = block.take 46 :=
    congrArg SocketSend.bytes (Option.some.inj (Except.ok.inj hbytes))
  have htake : block.take 6 = (block.take 46).take 6 := by rw [List.take_take]; rfl
  rw [htake, ← hnone] at hhead
  cases hhead

end NetgameFormal

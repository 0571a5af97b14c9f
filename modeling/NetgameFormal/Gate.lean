import NetgameFormal.Hashid
import NetgameFormal.Databuffer

/-!
# gate_main.c: the gateway

One message from the socket layer is one step. A step yields the next gateway
state and its actions in order. `none` stands for a failed assertion or another
way out of the C program's defined behaviour, as in `Hashid` and `Databuffer`.
Diagnostics, and `remote_name`, which only they print, are left out.
-/

set_option autoImplicit false

namespace NetgameFormal

/-- `conn_tp`: 0 until a handshake, then `'C'`, `'S'` or `'D'`. -/
inductive ConnTp where
  | zero
  | client
  | server
  | debug
  deriving DecidableEq

structure Connection where
  id : Int
  connTp : ConnTp
  buffer : Databuffer

/-- A slot after `memset(c, 0, sizeof(*c)); c->id = -1`. -/
def Connection.free : Connection := ⟨-1, .zero, .zero⟩

structure Gate where
  listenId : Int
  maxConnection : Nat
  hash : Hashid
  sid : Int
  conn : Nat → Connection
  mp : Messagepool

/-- The Lua globals `HANDSHAKE_CLIENT_MD5`, `HANDSHAKE_SERVER_MD5` and `HANDSHAKE_DEBUG_MD5`. -/
structure HandshakeMd5 where
  client : List Byte
  server : List Byte
  debug : List Byte

/-- What the gateway allocates for one message: the frame of `dispatch_message`,
the device string of `handshake` and the notice of `handlemsg`. -/
inductive Buffer where
  | frame
  | device
  | notice
  deriving DecidableEq

/-- The three calls of `gate_socket_send`. -/
inductive SendSite where
  | toServer
  | toClient
  | clientGone
  deriving DecidableEq

def SendSite.buffer : SendSite → Buffer
  | toServer => .frame
  | toClient => .frame
  | clientGone => .notice

/-- What a step does to the outside; the calls of the two handlers are recorded too. -/
inductive Act where
  | handshake (id : Int) (frame : List Byte)
  | handlemsg (id : Int) (frame : List Byte)
  | malloc (b : Buffer)
  | free (b : Buffer)
  | send (site : SendSite) (target : Int) (buf : List Byte) (wsz : Int)
  | close (id : Int)
  | start (id : Int)
  | luaDispatch (id : Int) (buf : List Byte)
  deriving DecidableEq

/-- A `struct gate_message`; for `data`, `ud` is the length of the buffer. -/
inductive GateMessage where
  | data (id : Int) (buffer : List Byte)
  | connect (id : Int)
  | close (id : Int)
  | error (id : Int)
  | accept (id ud : Int)
  deriving DecidableEq

/-- A message, and what `socket_server_send` returns should the step call it. -/
structure GateInput where
  msg : GateMessage
  wsz : Int
  deriving DecidableEq

def gateSocketSend (site : SendSite) (id : Int) (buffer : List Byte) (wsz : Int) :
    Int × List Act :=
  if wsz < 0 then (-1, [.send site id buffer wsz, .free site.buffer])
  else (0, [.send site id buffer wsz])

def Gate.setBuffer (g : Gate) (slot : Nat) (db : Databuffer) (mp : Messagepool) : Gate :=
  { g with conn := Function.update g.conn slot { g.conn slot with buffer := db }, mp := mp }

def Gate.setTp (g : Gate) (slot : Nat) (tp : ConnTp) : Gate :=
  { g with conn := Function.update g.conn slot { g.conn slot with connTp := tp } }

def Gate.reset (g : Gate) (slot : Nat) : Gate :=
  g.setBuffer slot (databufferReset (g.conn slot).buffer) g.mp

/-- The code at the `_clear` labels: `databuffer_clear`, then `gate_socket_close`. -/
def clearConnection (g : Gate) (slot : Nat) (id : Int) : Option (Gate × List Act) := do
  let (db, mp) ← databufferClear (g.conn slot).buffer g.mp
  some (g.setBuffer slot db mp, [.close id])

/-- `dlen==strlen(md5) && strncmp(device,md5,dlen)==0` -/
def md5Matches (device md5 : List Byte) (dlen : Nat) : Bool :=
  dlen == strlen md5 && strncmp device md5 dlen == 0

def handshake (md5 : HandshakeMd5) (g : Gate) (slot : Nat) (id : Int) (buffer : List Byte) :
    Option (Gate × Int × List Act) :=
  let dlen := buffer.length - 6
  let device := (buffer.drop 6).take dlen ++ [0#8]
  if md5Matches device md5.client dlen then
    some (g.setTp slot .client, 0, [.malloc .device])
  else if md5Matches device md5.server dlen then
    let g := g.setTp slot .server
    if g.sid > 0 then do
      let (g, acts) ← clearConnection g slot id
      some (g, 0, .malloc .device :: acts)
    else some ({ g with sid := id }, 0, [.malloc .device])
  else if md5Matches device md5.debug dlen then
    some (g.setTp slot .debug, 0, [.malloc .device])
  else do
    let (g, acts) ← clearConnection g slot id
    some (g, 0, .malloc .device :: acts)

/-- The notice that a client is gone: size, id and protocol 98. -/
def goneNotice (cid : Int) : List Byte :=
  writeBlock (writeBlock (writeBlock (List.replicate 6 0#8) 6 0) cid 2) 98 4

def handlemsg (g : Gate) (slot : Nat) (id : Int) (buffer : List Byte) (wsz : Int) :
    Option (Gate × Int × List Act) :=
  let mid := readBlock buffer 2
  match (g.conn slot).connTp with
  | .client =>
    if g.sid > 0 then
      some (g, 1, (gateSocketSend .toServer g.sid (writeBlock buffer id 2) wsz).2)
    else do
      let (g, acts) ← clearConnection g slot id
      some (g, 0, acts)
  | .server => do
    let known ← hashidLookup g.hash mid
    if known > 0 then
      some (g, 1, (gateSocketSend .toClient mid (writeBlock buffer g.sid 2) wsz).2)
    else
      let sent := gateSocketSend .clientGone g.sid (goneNotice mid) wsz
      some (g, 0, .malloc .notice :: sent.2 ++ if sent.1 < 0 then [.free .notice] else [])
  | .debug => some (g, 0, [.luaDispatch id (buffer.drop 2)])
  | .zero => do
    let (g, acts) ← clearConnection g slot id
    some (g, 0, acts)

/-- The inner branch of `dispatch_message`, on a frame whose payload has `size` bytes. -/
def dispatchFrame (md5 : HandshakeMd5) (g : Gate) (slot : Nat) (id : Int) (size : Int)
    (temp : List Byte) (wsz : Int) : Option (Gate × Int × List Act) :=
  if readBlock temp 4 = 100 then do
    let (g, ret, acts) ← handshake md5 g slot id temp
    some (g, ret, .handshake id temp :: acts)
  else if size ≥ 6 then do
    let (g, ret, acts) ← handlemsg g slot id temp wsz
    some (g, ret, .handlemsg id temp :: acts)
  else some (g, 0, [])

def dispatchMessage (md5 : HandshakeMd5) (g : Gate) (slot : Nat) (id : Int) (data : List Byte)
    (wsz : Int) : Option (Gate × List Act) := do
  let (db, mp) ← databufferPush (g.conn slot).buffer g.mp data
  let (db, mp, size) ← databufferReadheader db mp
  if size > 0 then
    if size ≥ 0x1000000 then
      let (g, acts) ← clearConnection (g.setBuffer slot db mp) slot id
      some (g.reset slot, acts)
    else if size ≥ 6 then
      let (db, mp, payload) ← databufferRead db mp size.toNat
      let (g, ret, acts) ←
        dispatchFrame md5 (g.setBuffer slot db mp) slot id size (rebuiltFrame payload) wsz
      some (g.reset slot, .malloc .frame :: acts ++ if ret = 0 then [.free .frame] else [])
    else some ((g.setBuffer slot db mp).reset slot, [])
  else some (g.setBuffer slot db mp, [])

/-- The case `GATE_SOCKET_TYPE_CLOSE` / `GATE_SOCKET_TYPE_ERROR`. -/
def removeConnection (g : Gate) (id : Int) : Option (Gate × List Act) := do
  let (hash, slot) ← hashidRemove g.hash id
  if slot ≥ 0 then
    let c := g.conn slot.toNat
    let (_, mp) ← databufferClear c.buffer g.mp
    some ({ g with
      hash := hash
      sid := if c.id = g.sid then -1 else g.sid
      conn := Function.update g.conn slot.toNat .free
      mp := mp }, [])
  else some ({ g with hash := hash }, [])

def dispatchSocketMessage (md5 : HandshakeMd5) (g : Gate) (i : GateInput) :
    Option (Gate × List Act) :=
  match i.msg with
  | .data id buffer => do
    let slot ← hashidLookup g.hash id
    if slot ≥ 0 then dispatchMessage md5 g slot.toNat id buffer i.wsz
    else some (g, [.close id])
  | .connect id =>
    if id = g.listenId then some (g, [])
    else do
      let slot ← hashidLookup g.hash id
      if slot ≥ 0 then some (g, []) else some (g, [.close id])
  | .close id => removeConnection g id
  | .error id => removeConnection g id
  | .accept id ud =>
    if g.listenId = id then
      if hashidFull g.hash then some (g, [.close ud])
      else do
        let (hash, slot) ← hashidInsert g.hash ud
        some ({ g with
          hash := hash
          conn := Function.update g.conn slot { g.conn slot with id := ud } }, [.start ud])
    else none

/-- The state `gate_init` leaves; `listenId` is the result of `gate_socket_listen`. -/
def gateStart (hash : Hashid) (max : Nat) (listenId : Int) : Gate where
  listenId := listenId
  maxConnection := max
  hash := hash
  sid := 0
  conn := fun _ => .free
  mp := .zero

def gateInit (max : Capacity) (listenId : Int) : Gate := gateStart (hashidInit max) max listenId

/-- `gate_init`; without a table it does not return. -/
def gateInitInt (max : Nat) (listenId : Int) : Option Gate :=
  (hashidInitInt max).map fun hash => gateStart hash max listenId

/-! ## The scripts around the gateway -/

def asciiBytes (s : String) : List Byte := s.toList.map fun c => BitVec.ofNat 8 c.toNat

/-- The strings that bin.gateway/scripts/main.lua sets. -/
def gatewayMd5 : HandshakeMd5 where
  client := asciiBytes "3e76b7efa23dbbde535e269023478716"
  server := asciiBytes "4f74a0ef499702957fa913c1d02f7016"
  debug := asciiBytes "8d5984dfa10f855f23795857366783fc"

/-- A package of the scripts: length, id, protocol number and body. -/
def package (id protId : Int) (body : List Byte) : List Byte :=
  let pack := hiByte id :: loByte id :: hiByte protId :: loByte protId :: body
  hiByte pack.length :: loByte pack.length :: pack

/-- What `handshake` of bin.server/scripts/main.lua sends. -/
def handshakePackage (fd : Int) (str : List Byte) : List Byte := package fd 100 str

end NetgameFormal

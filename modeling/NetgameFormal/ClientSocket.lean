import NetgameFormal.Databuffer
import NetgameFormal.MessageQueue

/-!
# client_socket.c: the socket of the scripts

The results of `read` and `write` are inputs of each operation, its system calls
and callbacks are its actions. The callback may send on the same socket. `none`
stands for a failed assertion or a null pointer that is followed, and for a
`read` that answers more bytes than it is asked for. Write buffers are allocated
at fresh addresses and never reused.
-/

set_option autoImplicit false

namespace NetgameFormal

def MIN_READ_BUFFER : Nat := 64

/-- What `read` answers; no bytes are the end of the stream. -/
inductive ReadResult where
  | bytes (data : List Byte)
  | eintr
  | eagain
  | fatal
  deriving DecidableEq

def ReadResult.length : ReadResult → Nat
  | .bytes data => data.length
  | _ => 0

inductive WriteResult where
  | wrote (n : Nat)
  | eintr
  | eagain
  | fatal
  deriving DecidableEq

/-- System calls, calls of `socket_send` with their result, and calls of the
callback; `callback none` is `cb(L,s,NULL,0)`. -/
inductive ClientAct where
  | read (fd : Int) (result : ReadResult)
  | write (fd : Int) (data : List Byte) (result : WriteResult)
  | close (fd : Int)
  | send (buffer : List Byte) (result : Int)
  | callback (frame : Option (List Byte))
  deriving DecidableEq

structure SocketMessage where
  data : List Byte
  deriving DecidableEq

/-- The bytes to write are the `sz` bytes from `ptr` on. -/
structure WriteBuffer where
  next : Option Nat
  ptr : Nat
  sz : Nat
  buffer : List Byte

def WriteBuffer.bytes (w : WriteBuffer) : List Byte := (w.buffer.drop w.ptr).take w.sz

/-- `node` and `brk` are the memory its write buffers are allocated from. -/
structure Socket where
  fd : Int
  size : Nat
  wbSize : Int
  head : Option Nat
  tail : Option Nat
  readBuffer : Databuffer
  mp : Messagepool
  q : Option (MessageQueue SocketMessage)
  node : Nat → WriteBuffer
  brk : Nat

/-- `q` is set by `socket_connect` only. -/
def socketNew : Socket where
  fd := -1
  size := MIN_READ_BUFFER
  wbSize := 0
  head := none
  tail := none
  readBuffer := .zero
  mp := .zero
  q := none
  node := fun _ => ⟨none, 0, 0, []⟩
  brk := 0

/-- The end of `socket_connect`, once the descriptor `fd` is connected. -/
def socketConnect (s : Socket) (fd : Int) : Socket :=
  { s with
    fd := fd
    size := MIN_READ_BUFFER
    wbSize := 0
    head := none
    tail := none
    q := some .new }

def socketMqDelete : Nat → MessageQueue SocketMessage → Option Unit
  | 0, _ => none
  | n + 1, q =>
    match q.pop with
    | none => none
    | some (_, none) => some ()
    | some (q', some _) => socketMqDelete n q'

/-- The first loop of `force_close`, along the write buffers. -/
def freeWriteBuffers (node : Nat → WriteBuffer) : Nat → Option Nat → Option Unit
  | _, none => some ()
  | 0, some _ => none
  | n + 1, some wb => freeWriteBuffers node n (node wb).next

def forceClose (s : Socket) : Option (Socket × List ClientAct) := do
  freeWriteBuffers s.node s.brk s.head
  let (db, mp) ← databufferClear s.readBuffer s.mp
  s.q.elim (some ()) fun q => socketMqDelete (q.length + 1) q
  some ({ s with
    head := none
    tail := none
    readBuffer := db
    mp := messagepoolFree mp
    q := none }, [.close s.fd])

/-- One round of the outer loop of `socket_send_remainbuffer` for each write that
is not interrupted. Writes after the listed ones find the socket not writable. -/
def socketSendRemainbufferLoop : List WriteResult → Socket → Option (Socket × Int × List ClientAct)
  | ws, s =>
    match s.head with
    | none => some ({ s with tail := none }, 0, [])
    | some tmp =>
      let wb := s.node tmp
      match ws with
      | [] => some (s, 0, [.write s.fd wb.bytes .eagain])
      | .eintr :: ws => do
        let (s', ret, acts) ← socketSendRemainbufferLoop ws s
        some (s', ret, .write s.fd wb.bytes .eintr :: acts)
      | .eagain :: _ => some (s, 0, [.write s.fd wb.bytes .eagain])
      | .fatal :: _ => do
        let (s', acts) ← forceClose s
        some (s', 1, .write s.fd wb.bytes .fatal :: acts)
      | .wrote sz :: ws =>
        let s₁ := { s with wbSize := s.wbSize - sz }
        if sz ≠ wb.sz then
          let rest := { wb with ptr := wb.ptr + sz, sz := wb.sz - sz }
          some ({ s₁ with node := Function.update s.node tmp rest }, 0,
            [.write s.fd wb.bytes (.wrote sz)])
        else do
          let (s', ret, acts) ← socketSendRemainbufferLoop ws { s₁ with head := wb.next }
          some (s', ret, .write s.fd wb.bytes (.wrote sz) :: acts)

def socketSendRemainbuffer (s : Socket) (ws : List WriteResult) :
    Option (Socket × Int × List ClientAct) :=
  if s.fd = -1 then some (s, -1, []) else socketSendRemainbufferLoop ws s

def appendSendbuffer (s : Socket) (buffer : List Byte) (n : Nat) : Option Socket :=
  let buf : WriteBuffer := ⟨none, n, buffer.length - n, buffer⟩
  let s₁ := { s with
    node := Function.update s.node s.brk buf
    brk := s.brk + 1
    wbSize := s.wbSize + buf.sz }
  match s.head with
  | none => some { s₁ with head := some s.brk, tail := some s.brk }
  | some _ =>
    match s.tail with
    | none => none
    | some t =>
      if (s.node t).next = none then
        some { s₁ with
          node := Function.update s₁.node t { s₁.node t with next := some s.brk }
          tail := some s.brk }
      else none

def socketSendWritten (s : Socket) (buffer : List Byte) (w : WriteResult) (n : Nat) :
    Option (Socket × List ClientAct) :=
  if n = buffer.length then some (s, [.write s.fd buffer w, .send buffer buffer.length])
  else do
    let s' ← appendSendbuffer s buffer n
    some (s', [.write s.fd buffer w, .send buffer s'.wbSize])

/-- `w` is the result of the `write` call, if there is one. -/
def socketSend (s : Socket) (buffer : List Byte) (w : WriteResult) :
    Option (Socket × List ClientAct) :=
  if s.fd = -1 then some (s, [.send buffer (-1)])
  else
    match s.head with
    | none =>
      match w with
      | .wrote n => socketSendWritten s buffer w n
      | .eintr => socketSendWritten s buffer w 0
      | .eagain => socketSendWritten s buffer w 0
      | .fatal => do
        let (s', acts) ← forceClose s
        some (s', .write s.fd buffer w :: acts ++ [.send buffer (-1)])
    | some _ => do
      let s' ← appendSendbuffer s buffer 0
      some (s', [.send buffer s'.wbSize])

/-- What a callback does: calls of `socket_send`, each with the result of its `write`. -/
def sendAll : Socket → List (List Byte × WriteResult) → Option (Socket × List ClientAct)
  | s, [] => some (s, [])
  | s, (buffer, w) :: sends => do
    let (s, acts) ← socketSend s buffer w
    let (s, acts') ← sendAll s sends
    some (s, acts ++ acts')

def callback (s : Socket) (frame : Option (List Byte)) (sends : List (List Byte × WriteResult)) :
    Option (Socket × List ClientAct) := do
  let (s, acts) ← sendAll s sends
  some (s, .callback frame :: acts)

inductive RecvResult where
  | message (result : SocketMessage)
  | socketClose
  | again

/-- The size of the next read, after one of `n` bytes. -/
def nextSize (sz n : Nat) : Nat :=
  if n = sz then sz * 2
  else if sz > MIN_READ_BUFFER ∧ n * 2 < sz then sz / 2
  else sz

def recvMsg (s : Socket) (r : ReadResult) : Option (Socket × RecvResult × List ClientAct) :=
  if s.fd = -1 then some (s, .again, [])
  else
    let closed := (forceClose s).map fun (s', acts) => (s', RecvResult.socketClose, .read s.fd r :: acts)
    match r with
    | .bytes data =>
      if s.size < data.length then none
      else if data.length = 0 then closed
      else
        some ({ s with size := nextSize s.size data.length }, .message ⟨data⟩, [.read s.fd r])
    | .eintr => some (s, .again, [.read s.fd r])
    | .eagain => some (s, .again, [.read s.fd r])
    | .fatal => closed

/-- The body of the pop loop of `socket_msgdispatch`, for one message. -/
def dispatchOne (s : Socket) (msg : SocketMessage) (sends : List (List Byte × WriteResult)) :
    Option (Socket × List ClientAct) := do
  let (db, mp) ← databufferPush s.readBuffer s.mp msg.data
  let (db, mp, size) ← databufferReadheader db mp
  if size > 0 then
    if size ≥ 0x1000000 then
      let (db, mp) ← databufferClear db mp
      some ({ s with readBuffer := databufferReset db, mp := mp }, [])
    else if size ≥ 2 then
      let (db, mp, payload) ← databufferRead db mp size.toNat
      let (s, acts) ←
        callback { s with readBuffer := db, mp := mp } (some (rebuiltFrame payload)) sends
      some ({ s with readBuffer := databufferReset s.readBuffer }, acts)
    else some ({ s with readBuffer := databufferReset db, mp := mp }, [])
  else some ({ s with readBuffer := db, mp := mp }, [])

/-- The pop loop; the callback for the `k`-th message makes the `k`-th list of sends. -/
def popLoop : Nat → Socket → List (List (List Byte × WriteResult)) →
    Option (Socket × List ClientAct)
  | 0, _, _ => none
  | n + 1, s, sends =>
    match s.q with
    | none => none
    | some q =>
      match q.pop with
      | none => none
      | some (_, none) => some (s, [])
      | some (q', some msg) => do
        let (s, acts) ← dispatchOne { s with q := some q' } msg (sends.headD [])
        let (s, acts') ← popLoop n s sends.tail
        some (s, acts ++ acts')

def socketMsgdispatch (s : Socket) (r : ReadResult) (sends : List (List (List Byte × WriteResult))) :
    Option (Socket × List ClientAct) :=
  match s.q with
  | none => some (s, [])
  | some q =>
    if s.fd = -1 then some (s, [])
    else do
      let (s, ret, acts) ← recvMsg s r
      match ret with
      | .message sm =>
        let (s, acts') ← popLoop (q.length + 2) { s with q := some (q.push sm) } sends
        some (s, acts ++ acts')
      | .socketClose =>
        let (s, acts') ← callback s none (sends.headD [])
        some ({ s with fd := -1 }, acts ++ acts')
      | .again =>
        let (s, acts') ← popLoop (q.length + 1) s sends
        some (s, acts ++ acts')

/-! ## As far as a call gets -/

def popLoopActs : Nat → Socket → List (List (List Byte × WriteResult)) → List ClientAct
  | 0, _, _ => []
  | n + 1, s, sends =>
    match s.q with
    | none => []
    | some q =>
      match q.pop with
      | none => []
      | some (_, none) => []
      | some (q', some msg) =>
        match dispatchOne { s with q := some q' } msg (sends.headD []) with
        | none => []
        | some (s, acts) => acts ++ popLoopActs n s sends.tail

/-- The actions of `socket_msgdispatch`, also those before a null pointer is followed. -/
def socketMsgdispatchActs (s : Socket) (r : ReadResult)
    (sends : List (List (List Byte × WriteResult))) : List ClientAct :=
  match s.q with
  | none => []
  | some q =>
    if s.fd = -1 then []
    else
      match recvMsg s r with
      | none => []
      | some (s, .message sm, acts) =>
        acts ++ popLoopActs (q.length + 2) { s with q := some (q.push sm) } sends
      | some (s, .socketClose, acts) =>
        acts ++ (callback s none (sends.headD [])).elim [] Prod.snd
      | some (s, .again, acts) => acts ++ popLoopActs (q.length + 1) s sends

/-! ## Runs of one connected socket -/

inductive ClientInput where
  | send (buffer : List Byte) (w : WriteResult)
  | sendRemainbuffer (ws : List WriteResult)
  | msgdispatch (r : ReadResult) (sends : List (List (List Byte × WriteResult)))

def ClientInput.readLength : ClientInput → Nat
  | .msgdispatch r _ => r.length
  | _ => 0

def clientStep (s : Socket) (i : ClientInput) : Option (Socket × List ClientAct) :=
  match i with
  | .send buffer w => socketSend s buffer w
  | .sendRemainbuffer ws => (socketSendRemainbuffer s ws).map fun (s, _, acts) => (s, acts)
  | .msgdispatch r sends => socketMsgdispatch s r sends

/-- The actions of a step, also of one that follows a null pointer. -/
def clientActs (s : Socket) : ClientInput → List ClientAct
  | .send buffer w => (socketSend s buffer w).elim [] Prod.snd
  | .sendRemainbuffer ws => (socketSendRemainbuffer s ws).elim [] (·.2.2)
  | .msgdispatch r sends => socketMsgdispatchActs s r sends

end NetgameFormal

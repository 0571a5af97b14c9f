import NetgameFormal.Gate
import NetgameFormal.Framing
import Mathlib.Data.Finmap

/-!
# The reference gateway

Connections are kept in a finite map from id to record; there are no slots, no
hash chains and no chunk lists. A record holds a receiver of `Framing` in place
of a databuffer. What one frame does is an `Outcome`, a function of the role of
the connection, the server id and the frame.
-/

set_option autoImplicit false

namespace NetgameFormal

structure RefConn where
  connTp : ConnTp
  receiver : Framing.Receiver Byte

/-- A newly accepted connection: no role, no bytes. -/
def RefConn.fresh : RefConn := ⟨.zero, .idle⟩

structure RefGate where
  listenId : Int
  maxConnection : Nat
  sid : Int
  conn : Finmap fun _ : Int => RefConn

/-- What the handling of one frame does. `clears` is the `_clear` path, `taken`
says that the frame went to the socket layer. -/
structure Outcome where
  connTp : ConnTp
  sid : Int
  clears : Bool
  taken : Bool
  acts : List Act

/-- The body of a handshake frame passes the comparison with a configured string. -/
def presents (md5 frame : List Byte) : Bool :=
  md5Matches (frame.drop 6 ++ [0#8]) md5 (frame.length - 6)

def refHandshake (md5 : HandshakeMd5) (tp : ConnTp) (sid id : Int) (frame : List Byte) : Outcome :=
  if presents md5.client frame then ⟨.client, sid, false, false, [.malloc .device]⟩
  else if presents md5.server frame then
    if sid > 0 then ⟨.server, sid, true, false, [.malloc .device, .close id]⟩
    else ⟨.server, id, false, false, [.malloc .device]⟩
  else if presents md5.debug frame then ⟨.debug, sid, false, false, [.malloc .device]⟩
  else ⟨tp, sid, true, false, [.malloc .device, .close id]⟩

/-- `routes` says that the connection a server frame names is found. -/
def refHandlemsg (tp : ConnTp) (sid id : Int) (routes : Bool) (frame : List Byte) (wsz : Int) :
    Outcome :=
  match tp with
  | .client =>
    if sid > 0 then
      ⟨tp, sid, false, true, (gateSocketSend .toServer sid (writeBlock frame id 2) wsz).2⟩
    else ⟨tp, sid, true, false, [.close id]⟩
  | .server =>
    let mid := readBlock frame 2
    if routes then
      ⟨tp, sid, false, true, (gateSocketSend .toClient mid (writeBlock frame sid 2) wsz).2⟩
    else
      let sent := gateSocketSend .clientGone sid (goneNotice mid) wsz
      ⟨tp, sid, false, false,
        .malloc .notice :: sent.2 ++ if sent.1 < 0 then [.free .notice] else []⟩
  | .debug => ⟨tp, sid, false, false, [.luaDispatch id (frame.drop 2)]⟩
  | .zero => ⟨tp, sid, true, false, [.close id]⟩

def isHandshake (frame : List Byte) : Bool := readBlock frame 4 = 100

def refFrame (md5 : HandshakeMd5) (tp : ConnTp) (sid id : Int) (routes : Bool) (frame : List Byte)
    (wsz : Int) : Outcome :=
  if isHandshake frame then
    let o := refHandshake md5 tp sid id frame
    { o with acts := .handshake id frame :: o.acts }
  else
    let o := refHandlemsg tp sid id routes frame wsz
    { o with acts := .handlemsg id frame :: o.acts }

/-- A frame's actions, between its allocation and, unless it was taken, its release. -/
def Outcome.allActs (o : Outcome) : List Act :=
  .malloc .frame :: o.acts ++ if o.taken then [] else [.free .frame]

def RefGate.knows (r : RefGate) (id : Int) : Bool := (r.conn.lookup id).isSome

def RefGate.put (r : RefGate) (id : Int) (c : RefConn) : RefGate :=
  { r with conn := r.conn.insert id c }

def RefGate.remove (r : RefGate) (id : Int) : RefGate :=
  if r.knows id then
    { r with sid := if id = r.sid then -1 else r.sid, conn := r.conn.erase id }
  else r

/-- The frame a chunk completes, if it completes one, and the receiver it leaves. -/
def RefConn.take (c : RefConn) (data : List Byte) :
    Framing.Receiver Byte × Option (List Byte) :=
  let fed := Framing.feed beNat 6 c.receiver data
  (fed.1, fed.2.map rebuiltFrame)

/-- What one chunk does to the record of its connection, to the server id and outside. -/
structure Effect where
  conn : RefConn
  sid : Int
  acts : List Act

def RefConn.message (md5 : HandshakeMd5) (routes : Int → Bool) (sid id : Int) (c : RefConn)
    (data : List Byte) (wsz : Int) : Effect :=
  match c.take data with
  | (receiver, none) => ⟨{ c with receiver := receiver }, sid, []⟩
  | (receiver, some frame) =>
    let o := refFrame md5 c.connTp sid id (routes (readBlock frame 2)) frame wsz
    ⟨⟨o.connTp, if o.clears then .idle else receiver⟩, o.sid, o.allActs⟩

theorem RefConn.message_none {md5 : HandshakeMd5} {routes : Int → Bool} {sid id : Int}
    {c : RefConn} {data : List Byte} {wsz : Int} {receiver : Framing.Receiver Byte}
    (h : c.take data = (receiver, none)) :
    c.message md5 routes sid id data wsz = ⟨⟨c.connTp, receiver⟩, sid, []⟩ := by
  simp only [RefConn.message, h]

theorem RefConn.message_some {md5 : HandshakeMd5} {routes : Int → Bool} {sid id : Int}
    {c : RefConn} {data : List Byte} {wsz : Int} {receiver : Framing.Receiver Byte}
    {frame : List Byte}
    (h : c.take data = (receiver, some frame)) :
    c.message md5 routes sid id data wsz =
      let o := refFrame md5 c.connTp sid id (routes (readBlock frame 2)) frame wsz
      ⟨⟨o.connTp, if o.clears then .idle else receiver⟩, o.sid, o.allActs⟩ := by
  simp only [RefConn.message, h]

def refDispatch (md5 : HandshakeMd5) (routes : Int → Bool) (r : RefGate) (i : GateInput) :
    Option (RefGate × List Act) :=
  match i.msg with
  | .data id buffer =>
    match r.conn.lookup id with
    | none => some (r, [.close id])
    | some c =>
      let e := c.message md5 routes r.sid id buffer i.wsz
      some ({ r.put id e.conn with sid := e.sid }, e.acts)
  | .connect id => some (r, if id = r.listenId ∨ r.knows id then [] else [.close id])
  | .close id => some (r.remove id, [])
  | .error id => some (r.remove id, [])
  | .accept id ud =>
    if r.listenId = id then
      if r.maxConnection ≤ r.conn.keys.card then some (r, [.close ud])
      else some (r.put ud .fresh, [.start ud])
    else none

/-- The reference gateway routes a server frame to any connection it knows. -/
def refStep (md5 : HandshakeMd5) (r : RefGate) (i : GateInput) : Option (RefGate × List Act) :=
  refDispatch md5 r.knows r i

def refInit (max : Nat) (listenId : Int) : RefGate := ⟨listenId, max, 0, ∅⟩

@[simp] theorem RefGate.lookup_put_self (r : RefGate) (id : Int) (c : RefConn) :
    (r.put id c).conn.lookup id = some c :=
  Finmap.lookup_insert _

theorem RefGate.lookup_put_of_ne (r : RefGate) {id id' : Int} (c : RefConn) (h : id' ≠ id) :
    (r.put id c).conn.lookup id' = r.conn.lookup id' :=
  Finmap.lookup_insert_of_ne _ h

@[simp] theorem RefGate.put_sid (r : RefGate) (id : Int) (c : RefConn) :
    (r.put id c).sid = r.sid := rfl

theorem goneNotice_eq (cid : Int) :
    goneNotice cid = [hiByte 6, loByte 6, hiByte cid, loByte cid, hiByte 98, loByte 98] := rfl

/-! ## Roles and the server id -/

@[simp] theorem refHandlemsg_connTp (tp : ConnTp) (sid id : Int) (routes : Bool)
    (frame : List Byte) (wsz : Int) : (refHandlemsg tp sid id routes frame wsz).connTp = tp := by
  cases tp with
  | client =>
    rw [refHandlemsg]
    split <;> rfl
  | server => cases routes <;> rfl
  | debug => rfl
  | zero => rfl

@[simp] theorem refHandlemsg_sid (tp : ConnTp) (sid id : Int) (routes : Bool) (frame : List Byte)
    (wsz : Int) : (refHandlemsg tp sid id routes frame wsz).sid = sid := by
  cases tp with
  | client =>
    rw [refHandlemsg]
    split <;> rfl
  | server => cases routes <;> rfl
  | debug => rfl
  | zero => rfl

/-- Only a first server handshake changes the server id, and only to the sender's id. -/
theorem refHandshake_sid (md5 : HandshakeMd5) (tp : ConnTp) (sid id : Int) (frame : List Byte) :
    (refHandshake md5 tp sid id frame).sid = sid ∨
      sid ≤ 0 ∧ (refHandshake md5 tp sid id frame).sid = id := by
  unfold refHandshake
  split
  · exact Or.inl rfl
  split
  · split
    · exact Or.inl rfl
    · next hpos => exact Or.inr ⟨Int.not_lt.mp hpos, rfl⟩
  split
  · exact Or.inl rfl
  · exact Or.inl rfl

theorem refFrame_sid (md5 : HandshakeMd5) (tp : ConnTp) (sid id : Int) (routes : Bool)
    (frame : List Byte) (wsz : Int) :
    (refFrame md5 tp sid id routes frame wsz).sid = sid ∨
      sid ≤ 0 ∧ (refFrame md5 tp sid id routes frame wsz).sid = id := by
  unfold refFrame
  split
  · exact refHandshake_sid md5 tp sid id frame
  · exact Or.inl (refHandlemsg_sid ..)

theorem RefConn.message_sid (md5 : HandshakeMd5) (routes : Int → Bool) (sid id : Int) (c : RefConn)
    (data : List Byte) (wsz : Int) :
    (c.message md5 routes sid id data wsz).sid = sid ∨
      sid ≤ 0 ∧ (c.message md5 routes sid id data wsz).sid = id := by
  unfold RefConn.message
  rcases c.take data with ⟨receiver, _ | frame⟩
  · exact Or.inl rfl
  · exact refFrame_sid md5 c.connTp sid id (routes (readBlock frame 2)) frame wsz

theorem RefConn.message_header_lt (md5 : HandshakeMd5) (routes : Int → Bool) (sid id : Int)
    {c : RefConn} (hc : c.receiver.header < 65536) (data : List Byte) (wsz : Int) :
    (c.message md5 routes sid id data wsz).conn.receiver.header < 65536 := by
  have hfed : (c.take data).1.header < 65536 := Framing.feed_header_lt beNat_lt hc data
  unfold RefConn.message
  rcases hout : c.take data with ⟨receiver, _ | frame⟩
  · rw [hout] at hfed
    exact hfed
  · rw [hout] at hfed
    simp only
    split
    · exact Nat.zero_lt_succ _
    · exact hfed

end NetgameFormal

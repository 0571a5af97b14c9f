import NetgameFormal.RefGate
import NetgameFormal.ByteQueues

/-!
# What one chunk does to a connection slot

`dispatch_message`, `handshake` and `handlemsg` rewrite one slot. In the terms of
the reference gateway the new slot and the actions are those of
`RefConn.message`, so the later modules never unfold the three functions.
-/

set_option autoImplicit false

namespace NetgameFormal

def Gate.bufs (g : Gate) (a : Nat) : Databuffer := (g.conn a).buffer

/-- The databuffers of the gateway are byte queues over its one pool. -/
def Gate.Buffered (g : Gate) : Prop := ∃ bytes, Queues g.mp g.bufs bytes

/-- Slot `a` in the terms of the reference gateway. -/
def Gate.view (g : Gate) (a : Nat) : RefConn :=
  ⟨(g.conn a).connTp, ⟨(g.bufs a).header, heldBytes g.mp (g.bufs a)⟩⟩

/-- `g'` is `g` with the record `c` in slot `a`, up to the server id. -/
structure Gate.Rewrites (g g' : Gate) (a : Nat) (c : RefConn) : Prop where
  listenId : g'.listenId = g.listenId
  maxConnection : g'.maxConnection = g.maxConnection
  hash : g'.hash = g.hash
  id : ∀ b, (g'.conn b).id = (g.conn b).id
  elsewhere : ∀ b, b ≠ a → g'.conn b = g.conn b
  buffered : g'.Buffered
  here : g'.view a = c
  others : ∀ b, b ≠ a → g'.view b = g.view b

variable {g g' g'' : Gate} {a : Nat} {c c' : RefConn}

theorem Gate.Rewrites.trans (h : g.Rewrites g' a c) (h' : g'.Rewrites g'' a c') :
    g.Rewrites g'' a c' where
  listenId := h'.listenId.trans h.listenId
  maxConnection := h'.maxConnection.trans h.maxConnection
  hash := h'.hash.trans h.hash
  id := fun b => (h'.id b).trans (h.id b)
  elsewhere := fun b hb => (h'.elsewhere b hb).trans (h.elsewhere b hb)
  buffered := h'.buffered
  here := h'.here
  others := fun b hb => (h'.others b hb).trans (h.others b hb)

theorem Gate.Rewrites.set_sid (h : g.Rewrites g' a c) (sid : Int) :
    g.Rewrites { g' with sid := sid } a c :=
  ⟨h.listenId, h.maxConnection, h.hash, h.id, h.elsewhere, h.buffered, h.here, h.others⟩

theorem Gate.Rewrites.refl (hg : g.Buffered) (a : Nat) : g.Rewrites g a (g.view a) :=
  ⟨rfl, rfl, rfl, fun _ => rfl, fun _ _ => rfl, hg, rfl, fun _ _ => rfl⟩

theorem Gate.view_eq {bytes : Nat → List Byte} (hg : Queues g.mp g.bufs bytes) (a : Nat) :
    g.view a = ⟨(g.conn a).connTp, ⟨(g.bufs a).header, bytes a⟩⟩ := by
  rw [Gate.view, hg.heldBytes_eq a]

theorem Gate.bufs_of_update {k : Connection} (hconn : g'.conn = Function.update g.conn a k) :
    g'.bufs = Function.update g.bufs a k.buffer := by
  funext b
  rw [Gate.bufs, hconn]
  exact Function.apply_update (fun _ => Connection.buffer) g.conn a k b

theorem Gate.rewrites_of_update {k : Connection} {bytes : Nat → List Byte} {held : List Byte}
    (hlisten : g'.listenId = g.listenId) (hmax : g'.maxConnection = g.maxConnection)
    (hhash : g'.hash = g.hash) (hconn : g'.conn = Function.update g.conn a k)
    (hid : k.id = (g.conn a).id) (hg : Queues g.mp g.bufs bytes)
    (h : Queues g'.mp (Function.update g.bufs a k.buffer) (Function.update bytes a held)) :
    g.Rewrites g' a ⟨k.connTp, ⟨k.buffer.header, held⟩⟩ := by
  have hself : g'.conn a = k := by rw [hconn, Function.update_self]
  have hother : ∀ b, b ≠ a → g'.conn b = g.conn b := by
    intro b hb
    rw [hconn, Function.update_of_ne hb]
  have hq : Queues g'.mp g'.bufs (Function.update bytes a held) := by
    rw [Gate.bufs_of_update hconn]
    exact h
  refine ⟨hlisten, hmax, hhash, fun b => ?_, hother, ⟨_, hq⟩, ?_, fun b hb => ?_⟩
  · by_cases hb : b = a
    · rw [hb, hself, hid]
    · rw [hother b hb]
  · rw [Gate.view_eq hq, Gate.bufs, hself, Function.update_self]
  · rw [Gate.view_eq hq, Gate.view_eq hg, Gate.bufs, hother b hb, Function.update_of_ne hb, Gate.bufs]

theorem Gate.setBuffer_rewrites {bytes : Nat → List Byte} {held : List Byte} {db : Databuffer}
    {mp : Messagepool} (hg : Queues g.mp g.bufs bytes)
    (h : Queues mp (Function.update g.bufs a db) (Function.update bytes a held)) :
    g.Rewrites (g.setBuffer a db mp) a ⟨(g.conn a).connTp, ⟨db.header, held⟩⟩ := by
  have hconn : (g.setBuffer a db mp).conn =
      Function.update g.conn a { g.conn a with buffer := db } := rfl
  refine Gate.rewrites_of_update ?_ ?_ ?_ hconn rfl hg h <;> rfl

theorem Gate.setTp_rewrites (hg : g.Buffered) (a : Nat) (tp : ConnTp) :
    g.Rewrites (g.setTp a tp) a ⟨tp, (g.view a).receiver⟩ := by
  obtain ⟨bytes, hq⟩ := hg
  have hsame : Queues g.mp (Function.update g.bufs a (g.bufs a))
      (Function.update bytes a (bytes a)) := by
    rw [Function.update_eq_self, Function.update_eq_self]
    exact hq
  have hconn : (g.setTp a tp).conn = Function.update g.conn a { g.conn a with connTp := tp } := rfl
  rw [Gate.view_eq hq]
  refine Gate.rewrites_of_update ?_ ?_ ?_ hconn rfl hq hsame <;> rfl

theorem Gate.Rewrites.reset (h : g.Rewrites g' a c) :
    g.Rewrites (g'.reset a) a ⟨c.connTp, ⟨0, c.receiver.pending⟩⟩ := by
  obtain ⟨bytes, hq⟩ := h.buffered
  have hzero := hq.set_header a 0
  rw [← Function.update_eq_self a bytes] at hzero
  have hreset := Gate.setBuffer_rewrites hq hzero
  rw [← h.here, Gate.view_eq hq]
  exact h.trans hreset

theorem clearConnection_spec (hg : g.Buffered) (a : Nat) (id : Int) :
    ∃ g', clearConnection g a id = some (g', [.close id]) ∧
      g.Rewrites g' a ⟨(g.conn a).connTp, .idle⟩ ∧ g'.sid = g.sid := by
  obtain ⟨bytes, hq⟩ := hg
  obtain ⟨mp, hclear, h⟩ := hq.clear a
  refine ⟨g.setBuffer a .zero mp, ?_, Gate.setBuffer_rewrites hq h, rfl⟩
  have hclear' : databufferClear (g.conn a).buffer g.mp = some (.zero, mp) := hclear
  rw [clearConnection, hclear']
  rfl

/-! ## The two frame handlers -/

/-- A handler ran to its end, with the outcome `o` for slot `a`. -/
def Handled (g : Gate) (a : Nat) (o : Outcome) (result : Option (Gate × Int × List Act)) : Prop :=
  ∃ g' ret, result = some (g', ret, o.acts) ∧ (ret = 0 ↔ o.taken = false) ∧
    g.Rewrites g' a ⟨o.connTp, if o.clears then .idle else (g.view a).receiver⟩ ∧ g'.sid = o.sid

theorem handshake_spec (md5 : HandshakeMd5) (hg : g.Buffered) (a : Nat) (id : Int)
    (buffer : List Byte) :
    Handled g a (refHandshake md5 (g.conn a).connTp g.sid id buffer)
      (handshake md5 g a id buffer) := by
  have hdevice : ∀ s, md5Matches ((buffer.drop 6).take (buffer.length - 6) ++ [0#8]) s
      (buffer.length - 6) = presents s buffer := by
    intro s
    rw [← List.length_drop, List.take_length]
    rw [presents, List.length_drop]
  have htp : ∀ tp, g.Rewrites (g.setTp a tp) a ⟨tp, (g.view a).receiver⟩ :=
    Gate.setTp_rewrites hg a
  simp only [handshake, refHandshake, hdevice]
  by_cases hclient : presents md5.client buffer = true
  · simp only [hclient, if_true]
    exact ⟨_, _, rfl, by simp, htp _, rfl⟩
  by_cases hserver : presents md5.server buffer = true
  · obtain ⟨g', hclear, hg', hsid⟩ := clearConnection_spec (htp .server).buffered a id
    have hconn : ((g.setTp a .server).conn a).connTp = .server := by simp [Gate.setTp]
    have hsid₀ : (g.setTp a .server).sid = g.sid := rfl
    rw [hconn] at hg'
    rw [hsid₀] at hsid
    by_cases hpos : g.sid > 0
    · simp only [hclient, hserver, hsid₀, hpos, Bool.false_eq_true, if_true, if_false, hclear]
      exact ⟨_, _, rfl, by simp, (htp _).trans hg', hsid⟩
    · simp only [hclient, hserver, hsid₀, hpos, Bool.false_eq_true, if_true, if_false]
      exact ⟨_, _, rfl, by simp, (htp _).set_sid id, rfl⟩
  by_cases hdebug : presents md5.debug buffer = true
  · simp only [hclient, hserver, hdebug, Bool.false_eq_true, if_true, if_false]
    exact ⟨_, _, rfl, by simp, htp _, rfl⟩
  · obtain ⟨g', hclear, hg', hsid⟩ := clearConnection_spec hg a id
    simp only [hclient, hserver, hdebug, Bool.false_eq_true, if_false, hclear]
    exact ⟨_, _, rfl, by simp, hg', hsid⟩

theorem handlemsg_spec (hg : g.Buffered) (a : Nat) (id : Int) (buffer : List Byte) (wsz : Int)
    {slot : Int} (hlookup : hashidLookup g.hash (readBlock buffer 2) = some slot) :
    Handled g a (refHandlemsg (g.conn a).connTp g.sid id (0 < slot) buffer wsz)
      (handlemsg g a id buffer wsz) := by
  have hkeep : g.Rewrites g a ⟨(g.conn a).connTp, (g.view a).receiver⟩ := Gate.Rewrites.refl hg a
  obtain ⟨g', hclear, hg', hsid⟩ := clearConnection_spec hg a id
  unfold handlemsg refHandlemsg
  generalize htp : (g.conn a).connTp = tp at hkeep hg' ⊢
  cases tp with
  | client =>
    by_cases hpos : g.sid > 0
    · simp only [hpos, if_true]
      exact ⟨_, _, rfl, by simp, hkeep, rfl⟩
    · simp only [hpos, if_false, hclear]
      exact ⟨_, _, rfl, by simp, hg', hsid⟩
  | server =>
    simp only [hlookup]
    by_cases hpos : 0 < slot
    · simp only [hpos, decide_true, if_true]
      exact ⟨g, 1, by simp [hpos], by simp, hkeep, rfl⟩
    · simp only [hpos, decide_false]
      exact ⟨g, 0, by simp [hpos], by simp, hkeep, rfl⟩
  | debug => exact ⟨_, _, rfl, by simp, hkeep, rfl⟩
  | zero =>
    simp only [hclear]
    exact ⟨_, _, rfl, by simp, hg', hsid⟩

/-! ## One frame, one chunk -/

/-- The test `hashid_lookup(&g->hash, mid)>0` of `handlemsg`. -/
def Gate.routes (g : Gate) (mid : Int) : Bool :=
  match hashidLookup g.hash mid with
  | some slot => 0 < slot
  | none => false

theorem Gate.exists_lookup (hok : HashidOk g.hash) (mid : Int) :
    ∃ slot, hashidLookup g.hash mid = some slot ∧ g.routes mid = decide (0 < slot) := by
  unfold Gate.routes
  rcases hok.lookup_cases mid with ⟨a, -, h⟩ | ⟨-, h⟩
  · exact ⟨a, h, by rw [h]⟩
  · exact ⟨-1, h, by rw [h]⟩

theorem Gate.routes_iff (hok : HashidOk g.hash) (id : Int) :
    g.routes id = true ↔ ∃ a, 0 < a ∧ g.hash.Holds id a := by
  unfold Gate.routes
  rcases hok.lookup_cases id with ⟨a, ha, hlookup⟩ | ⟨hnone, hlookup⟩
  · rw [hlookup]
    simp only [decide_eq_true_eq]
    constructor
    · intro hpos
      exact ⟨a, by omega, ha⟩
    · intro h'
      obtain ⟨b, hb, hold⟩ := h'
      obtain rfl := hok.distinct ha hold
      omega
  · rw [hlookup]
    simp only [decide_eq_true_eq]
    constructor
    · intro hpos
      omega
    · intro h'
      obtain ⟨b, -, hold⟩ := h'
      exact absurd hold (hnone b)

theorem dispatchFrame_spec (md5 : HandshakeMd5) (hok : HashidOk g.hash) (hg : g.Buffered) (a : Nat)
    (id : Int) {size : Int} (hsize : 6 ≤ size) (temp : List Byte) (wsz : Int) :
    Handled g a
      (refFrame md5 (g.conn a).connTp g.sid id (g.routes (readBlock temp 2)) temp wsz)
      (dispatchFrame md5 g a id size temp wsz) := by
  obtain ⟨slot, hlookup, hroutes⟩ := Gate.exists_lookup hok (readBlock temp 2)
  rw [hroutes]
  unfold dispatchFrame refFrame isHandshake
  by_cases h100 : readBlock temp 4 = 100
  · obtain ⟨g', ret, hrun, hret, hg', hsid⟩ := handshake_spec md5 hg a id temp
    simp only [h100, hrun, decide_true, if_true]
    exact ⟨g', ret, rfl, hret, hg', hsid⟩
  · obtain ⟨g', ret, hrun, hret, hg', hsid⟩ := handlemsg_spec hg a id temp wsz hlookup
    simp only [h100, ge_iff_le, hsize, hrun, decide_false, Bool.false_eq_true, if_true, if_false]
    exact ⟨g', ret, rfl, hret, hg', hsid⟩

/-- A frame that is complete in the databuffer `db`: read, handled, and the header reset. -/
theorem readFrame_spec (md5 : HandshakeMd5) (hok : HashidOk g.hash) {bytes : Nat → List Byte}
    (hq : Queues g.mp g.bufs bytes) {a : Nat} {db : Databuffer} {mp : Messagepool}
    {held : List Byte}
    (hheld : Queues mp (Function.update g.bufs a db) (Function.update bytes a held))
    (h6 : 6 ≤ db.header) (hle : db.header ≤ held.length) (id wsz : Int) :
    ∃ db' mp' g' ret o, databufferRead db mp db.header = some (db', mp', held.take db.header) ∧
      o = refFrame md5 (g.conn a).connTp g.sid id
        (g.routes (readBlock (rebuiltFrame (held.take db.header)) 2))
        (rebuiltFrame (held.take db.header)) wsz ∧
      dispatchFrame md5 (g.setBuffer a db' mp') a id db.header
        (rebuiltFrame (held.take db.header)) wsz = some (g', ret, o.acts) ∧
      (ret = 0 ↔ o.taken = false) ∧
      g.Rewrites (g'.reset a) a
        ⟨o.connTp, if o.clears then .idle else ⟨0, held.drop db.header⟩⟩ ∧
      g'.sid = o.sid := by
  have hpos : 0 < db.header := by omega
  obtain ⟨db', mp', hread, hrest, -⟩ :=
    hheld.read (i := a) hpos (by rw [Function.update_self]; exact hle)
  simp only [Function.update_self, Function.update_idem] at hread hrest
  generalize held.take db.header = payload at hread
  have hframe := Gate.setBuffer_rewrites hq hrest
  have htp : ((g.setBuffer a db' mp').conn a).connTp = (g.conn a).connTp := by
    simp [Gate.setBuffer]
  have hroutes : (g.setBuffer a db' mp').routes = g.routes := by
    funext mid
    rw [Gate.routes, hframe.hash, Gate.routes]
  have hsize : (6 : Int) ≤ db.header := by omega
  obtain ⟨g', ret, hrun, hret, hg', hsid⟩ :=
    dispatchFrame_spec md5 (hframe.hash ▸ hok) hframe.buffered a id hsize (rebuiltFrame payload) wsz
  have hsid' : (g.setBuffer a db' mp').sid = g.sid := rfl
  rw [htp, hsid', hroutes] at hrun hret hg' hsid
  generalize refFrame md5 (g.conn a).connTp g.sid id
    (g.routes (readBlock (rebuiltFrame payload) 2)) (rebuiltFrame payload) wsz = o
    at hrun hret hg' hsid
  rw [hframe.here] at hg'
  have hreset := (hframe.trans hg').reset
  refine ⟨db', mp', g', ret, o, hread, rfl, hrun, hret, ?_, hsid⟩
  cases hclears : o.clears with
  | true =>
    rw [hclears] at hreset
    exact hreset
  | false =>
    rw [hclears] at hreset
    exact hreset

theorem dispatchMessage_spec (md5 : HandshakeMd5) (hok : HashidOk g.hash) (hg : g.Buffered)
    {a : Nat} (hheader : (g.bufs a).header < 65536) (id : Int) (data : List Byte) (wsz : Int) :
    ∃ g', dispatchMessage md5 g a id data wsz =
        some (g', ((g.view a).message md5 g.routes g.sid id data wsz).acts) ∧
      g.Rewrites g' a ((g.view a).message md5 g.routes g.sid id data wsz).conn ∧
      g'.sid = ((g.view a).message md5 g.routes g.sid id data wsz).sid := by
  obtain ⟨bytes, hq⟩ := hg
  obtain ⟨db₁, mp₁, hpush, hq₁, hheader₁⟩ := hq.push a data
  obtain ⟨db, mp, ret, held, hread, hq₂, hdb, hfeed⟩ :=
    hq₁.readheader a (by rw [Function.update_self, hheader₁]; exact hheader)
  simp only [Function.update_self, Function.update_idem, hheader₁] at hread hq₂ hfeed
  have hpush' : databufferPush (g.conn a).buffer g.mp data = some (db₁, mp₁) := hpush
  have hview := Gate.view_eq hq a
  have htp : (g.view a).connTp = (g.conn a).connTp := rfl
  have hwrote := Gate.setBuffer_rewrites hq hq₂
  simp only [dispatchMessage, hpush', Option.bind_eq_bind, Option.bind_some, hread]
  rcases hfeed 6 (bytes a) data rfl with ⟨hret, hwait⟩ | ⟨hpos, hret, hle, hsettle⟩
  · have htake : (g.view a).take data = (⟨db.header, held⟩, none) := by
      simp only [RefConn.take, hview, hwait, Option.map_none]
    rw [RefConn.message_none htake, if_neg (Int.not_lt.mpr hret)]
    exact ⟨_, rfl, hwrote, rfl⟩
  rw [hret, if_pos (by omega), if_neg (by omega)]
  by_cases hshort : db.header < 6
  · have htake : (g.view a).take data = (⟨0, held⟩, none) := by
      simp only [RefConn.take, hview, hsettle, Framing.settle_short hle hshort, Option.map_none]
    rw [RefConn.message_none htake, if_neg (by omega)]
    exact ⟨_, rfl, hwrote.reset, rfl⟩
  · have h6 : 6 ≤ db.header := by omega
    have htake : (g.view a).take data =
        (⟨0, held.drop db.header⟩, some (rebuiltFrame (held.take db.header))) := by
      simp only [RefConn.take, hview, hsettle, Framing.settle_complete hpos hle h6, Option.map_some]
    obtain ⟨db', mp', g', ret', o, hpayload, ho, hrun, hret', hrewrites, hsid⟩ :=
      readFrame_spec md5 hok hq hq₂ h6 hle id wsz
    have hpayload' : databufferRead db mp (db.header : Int).toNat =
        some (db', mp', held.take db.header) := hpayload
    rw [RefConn.message_some htake, if_pos (by omega)]
    simp only [htp, ← ho, hpayload', Option.bind_some, hrun]
    refine ⟨g'.reset a, ?_, hrewrites, hsid⟩
    simp only [Outcome.allActs, hret']
    cases o.taken <;> simp

end NetgameFormal

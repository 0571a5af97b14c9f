import NetgameFormal.GateFrames

/-!
# Where a server frame goes

A frame of the server names a client by two bytes. `handlemsg` reads them as
signed characters and takes slot 0 for "not found"; the notice that a client is
gone is built from the number it has read.
-/

set_option autoImplicit false

namespace NetgameFormal

/-- The big-endian unsigned id in a frame. -/
def frameId (frame : List Byte) : Nat := beNat (frame.getD 2 0#8) (frame.getD 3 0#8)

def frameProtId (frame : List Byte) : Nat := beNat (frame.getD 4 0#8) (frame.getD 5 0#8)

/-- The frame with an id and a protocol number that a chunk completes, also when
`dispatch_message` finds it too short. -/
def RefConn.delivers (c : RefConn) (data : List Byte) : Option (List Byte) :=
  (Framing.feed beNat 4 c.receiver data).2.map rebuiltFrame

def Act.sent : Act → Option (Int × List Byte)
  | .send _ target buf _ => some (target, buf)
  | .handshake _ _ => none
  | .handlemsg _ _ => none
  | .malloc _ => none
  | .free _ => none
  | .close _ => none
  | .start _ => none
  | .luaDispatch _ _ => none

def sendsOf (acts : List Act) : List (Int × List Byte) := acts.filterMap Act.sent

/-- The frame goes to the connection it names, with the server's id in it; without such a
connection the server is told so. -/
structure Served (g : Gate) (frame : List Byte) (acts : List Act) : Prop where
  live : ∀ a, g.hash.Holds (frameId frame) a → ∃ hi lo, (beNat hi lo : Int) = g.sid % 65536 ∧
    sendsOf acts = [((frameId frame : Int), (frame.set 2 hi).set 3 lo)]
  gone : (∀ a, ¬ g.hash.Holds (frameId frame) a) → ∃ notice,
    sendsOf acts = [(g.sid, notice)] ∧ notice.length = 6 ∧ frameProtId notice = 98 ∧
      frameId notice = frameId frame

/-- The frame is long enough, and the signs of its id bytes and slot 0 do no harm. -/
structure NamesPlainly (g : Gate) (frame : List Byte) : Prop where
  long : 8 ≤ frame.length
  live : ∀ a, g.hash.Holds (frameId frame) a →
    0 < a ∧ (frame.getD 2 0#8).toNat < 128 ∧ (frame.getD 3 0#8).toNat < 128
  gone : (∀ a, ¬ g.hash.Holds (frameId frame) a) →
    (frame.getD 3 0#8).toNat < 128 ∨ (frame.getD 2 0#8).toNat = 255

variable {md5 : HandshakeMd5} {g g' : Gate} {frame : List Byte}

theorem sendsOf_visible (acts : List Act) : sendsOf (acts.filter Act.visible) = sendsOf acts := by
  rw [sendsOf, List.filterMap_filter]
  apply List.filterMap_congr
  intro x _
  cases x <;> rfl

theorem RefConn.delivers_cases {c : RefConn} {data : List Byte} (h : c.delivers data = some frame) :
    (c.take data).2 = some frame ∧ 8 ≤ frame.length ∨
      (c.take data).2 = none ∧ frame.length < 8 := by
  obtain ⟨payload, hpayload, rfl⟩ := Option.map_eq_some_iff.mp h
  have hlength : (rebuiltFrame payload).length = payload.length + 2 := rfl
  have htake : (c.take data).2 =
      (if 6 ≤ payload.length then some payload else none).map rebuiltFrame :=
    congrArg (Option.map rebuiltFrame) (Framing.feed_minimum hpayload)
  rw [htake, hlength]
  by_cases hlong : 6 ≤ payload.length
  · rw [if_pos hlong]
    exact .inl ⟨rfl, by omega⟩
  · rw [if_neg hlong]
    exact .inr ⟨rfl, by omega⟩

theorem isHandshake_eq_false (h : frameProtId frame ≠ 100) : isHandshake frame = false := by
  unfold isHandshake
  rw [decide_eq_false_iff_not, readBlock, signedPair_eq_iff]
  intro hbytes
  obtain ⟨hhi, hlo⟩ := hbytes
  exact h (by rw [frameProtId, hhi, hlo]; rfl)

theorem sendsOf_server {sid id : Int} {routes : Bool} {wsz : Int}
    (hshake : isHandshake frame = false) :
    sendsOf (refFrame md5 .server sid id routes frame wsz).allActs =
      if routes then [(readBlock frame 2, writeBlock frame sid 2)]
      else [(sid, goneNotice (readBlock frame 2))] := by
  rw [← sendsOf_visible, visible_allActs]
  unfold refVisible refSend
  rw [hshake]
  cases routes <;> rfl

theorem server_step (hok : GateOk g) {data : List Byte} {wsz : Int} {b : Nat}
    (hserver : g.hash.Holds g.sid b) (htp : (g.conn b).connTp = .server)
    (hdelivers : (g.view b).delivers data = some frame) (hproto : frameProtId frame ≠ 100) :
    ∃ g' acts, dispatchSocketMessage md5 g ⟨.data g.sid data, wsz⟩ = some (g', acts) ∧
      sendsOf acts =
        if frame.length < 8 then []
        else if g.routes (readBlock frame 2) then
          [(readBlock frame 2, writeBlock frame g.sid 2)]
        else [(g.sid, goneNotice (readBlock frame 2))] := by
  obtain ⟨g', acts, hrun, hstep⟩ := data_step md5 hok g.sid data wsz
  refine ⟨g', acts, hrun, ?_⟩
  rcases hstep.data_inv with ⟨a, ha, -, -, rfl⟩ | ⟨habsent, -⟩
  · obtain rfl := hok.hash.distinct hserver ha
    rcases RefConn.delivers_cases hdelivers with ⟨htake, hlong⟩ | ⟨htake, hshort⟩
    · rw [RefConn.message_some (Prod.ext rfl htake), if_neg (by omega)]
      have htp' : (g.view b).connTp = .server := htp
      rw [htp']
      exact sendsOf_server (isHandshake_eq_false hproto)
    · rw [RefConn.message_none (Prod.ext rfl htake), if_pos hshort]
      rfl
  · exact absurd hserver (habsent b)

theorem frameId_eq_readBlock (hhi : (frame.getD 2 0#8).toNat < 128)
    (hlo : (frame.getD 3 0#8).toNat < 128) : readBlock frame 2 = frameId frame :=
  signedPair_of_lt hhi hlo

theorem readBlock_neg (h : ¬ ((frame.getD 2 0#8).toNat < 128 ∧ (frame.getD 3 0#8).toNat < 128)) :
    readBlock frame 2 < 0 := by
  apply signedPair_neg
  change 128 ≤ (frame.getD 2 0#8).toNat ∨ 128 ≤ (frame.getD 3 0#8).toNat
  omega

theorem goneNotice_protId (cid : Int) : frameProtId (goneNotice cid) = 98 := by
  rw [goneNotice_eq]
  exact beNat_written (n := 98) (by decide)

theorem goneNotice_id_iff :
    frameId (goneNotice (readBlock frame 2)) = frameId frame ↔
      (frame.getD 3 0#8).toNat < 128 ∨ (frame.getD 2 0#8).toNat = 255 := by
  rw [goneNotice_eq]
  exact block_signedPair_iff _ _

section Sent
variable {acts : List Act}

/-- The client is live: the frame goes out exactly if the number read is its id, found in a slot
other than 0. -/
theorem served_live_iff (hok : GateOk g) {a : Nat} (ha : g.hash.Holds (frameId frame) a)
    (hlong : 8 ≤ frame.length)
    (hsends : sendsOf acts =
      if g.routes (readBlock frame 2) then [(readBlock frame 2, writeBlock frame g.sid 2)]
      else [(g.sid, goneNotice (readBlock frame 2))]) :
    Served g frame acts ↔ NamesPlainly g frame := by
  constructor
  · intro hserved
    refine ⟨hlong, ?_, fun hnone => absurd ha (hnone a)⟩
    intro a' ha'
    obtain rfl := hok.hash.distinct ha ha'
    obtain ⟨hi, lo, -, hsent⟩ := hserved.live a ha
    rw [hsends] at hsent
    by_cases hroutes : g.routes (readBlock frame 2) = true
    · rw [if_pos hroutes] at hsent
      obtain ⟨htarget, -⟩ := Prod.mk.inj (List.singleton_inj.mp hsent)
      obtain ⟨c, hpos, hc⟩ := (Gate.routes_iff hok.hash _).mp hroutes
      rw [htarget] at hc
      obtain rfl := hok.hash.distinct ha hc
      refine ⟨hpos, ?_⟩
      by_contra hsigned
      have hneg := readBlock_neg hsigned
      omega
    · rw [if_neg hroutes] at hsent
      obtain ⟨-, hbuf⟩ := Prod.mk.inj (List.singleton_inj.mp hsent)
      have hlength := congrArg List.length hbuf
      rw [goneNotice_eq, List.length_set, List.length_set] at hlength
      simp only [List.length_cons, List.length_nil] at hlength
      omega
  · intro hplain
    obtain ⟨hpos, hhi, hlo⟩ := hplain.live a ha
    refine ⟨?_, fun hnone => absurd ha (hnone a)⟩
    intro _ _
    have hread := frameId_eq_readBlock hhi hlo
    have hroutes : g.routes (readBlock frame 2) = true := by
      rw [Gate.routes_iff hok.hash, hread]
      exact ⟨a, hpos, ha⟩
    rw [if_pos hroutes, hread] at hsends
    exact ⟨hiByte g.sid, loByte g.sid, beNat_block g.sid, hsends⟩

/-- The client is gone: a notice is sent in any case, and it names the client exactly if the
second sign has not spoilt the first byte. -/
theorem served_gone_iff (hok : GateOk g) (hnone : ∀ a, ¬ g.hash.Holds (frameId frame) a)
    (hlong : 8 ≤ frame.length)
    (hsends : sendsOf acts =
      if g.routes (readBlock frame 2) then [(readBlock frame 2, writeBlock frame g.sid 2)]
      else [(g.sid, goneNotice (readBlock frame 2))]) :
    Served g frame acts ↔ NamesPlainly g frame := by
  have hroutes : ¬ g.routes (readBlock frame 2) = true := by
    rw [Gate.routes_iff hok.hash]
    intro hfound
    obtain ⟨a, -, ha⟩ := hfound
    by_cases hplain : (frame.getD 2 0#8).toNat < 128 ∧ (frame.getD 3 0#8).toNat < 128
    · rw [frameId_eq_readBlock hplain.1 hplain.2] at ha
      exact hnone a ha
    · have hneg := readBlock_neg hplain
      have hpos := hok.positive _ a ha
      omega
  rw [if_neg hroutes] at hsends
  constructor
  · intro hserved
    refine ⟨hlong, fun a ha => absurd ha (hnone a), fun _ => ?_⟩
    obtain ⟨notice, hsent, -, -, hid⟩ := hserved.gone hnone
    rw [hsends] at hsent
    obtain ⟨-, rfl⟩ := Prod.mk.inj (List.singleton_inj.mp hsent)
    exact goneNotice_id_iff.mp hid
  · intro hplain
    refine ⟨fun a ha => absurd ha (hnone a), fun _ => ?_⟩
    exact ⟨_, hsends, rfl, goneNotice_protId _, goneNotice_id_iff.mpr (hplain.gone hnone)⟩

theorem not_served_of_silent (hsends : sendsOf acts = []) : ¬ Served g frame acts := by
  intro hserved
  by_cases hlive : ∃ a, g.hash.Holds (frameId frame) a
  · obtain ⟨a, ha⟩ := hlive
    obtain ⟨hi, lo, -, hsent⟩ := hserved.live a ha
    rw [hsends] at hsent
    cases hsent
  · obtain ⟨notice, hsent, -⟩ := hserved.gone fun a ha => hlive ⟨a, ha⟩
    rw [hsends] at hsent
    cases hsent

end Sent

theorem server_frame_step (md5 : HandshakeMd5) (hok : GateOk g) {b : Nat}
    (hserver : g.hash.Holds g.sid b) (htp : (g.conn b).connTp = .server) {data : List Byte}
    (hdelivers : (g.view b).delivers data = some frame) (hproto : frameProtId frame ≠ 100)
    (wsz : Int) :
    ∃ g' acts, dispatchSocketMessage md5 g ⟨.data g.sid data, wsz⟩ = some (g', acts) ∧
      (Served g frame acts ↔ NamesPlainly g frame) := by
  obtain ⟨g', acts, hrun, hsends⟩ :=
    @server_step md5 g frame hok data wsz b hserver htp hdelivers hproto
  refine ⟨g', acts, hrun, ?_⟩
  by_cases hshort : frame.length < 8
  · rw [if_pos hshort] at hsends
    constructor
    · intro hserved
      exact absurd hserved (not_served_of_silent hsends)
    · intro hplain
      have hlong := hplain.long
      omega
  · rw [if_neg hshort] at hsends
    by_cases hlive : ∃ a, g.hash.Holds (frameId frame) a
    · obtain ⟨a, ha⟩ := hlive
      exact served_live_iff hok ha (by omega) hsends
    · exact served_gone_iff hok (fun a ha => hlive ⟨a, ha⟩) (by omega) hsends

/-- In every reachable state a server frame is served exactly if it names its client plainly. -/
theorem server_frame_iff (md5 : HandshakeMd5) (max : Capacity) (listenId : Int)
    {tr : List (Record Gate GateInput Act)}
    (h : Exec (dispatchSocketMessage md5) FreshAccept (gateInit max listenId) tr g) {b : Nat}
    (hserver : g.hash.Holds g.sid b) (htp : (g.conn b).connTp = .server) {data : List Byte}
    (hdelivers : (g.view b).delivers data = some frame) (hproto : frameProtId frame ≠ 100)
    (wsz : Int) :
    ∃ g' acts, dispatchSocketMessage md5 g ⟨.data g.sid data, wsz⟩ = some (g', acts) ∧
      (Served g frame acts ↔ NamesPlainly g frame) :=
  server_frame_step md5 (gate_invariant h) hserver htp hdelivers hproto wsz

theorem namesPlainly_iff (g : Gate) (frame : List Byte) :
    NamesPlainly g frame ↔ 8 ≤ frame.length ∧
      (∀ a, a < g.hash.cap → g.hash.Holds (frameId frame) a →
        0 < a ∧ (frame.getD 2 0#8).toNat < 128 ∧ (frame.getD 3 0#8).toNat < 128) ∧
      ((∀ a, a < g.hash.cap → ¬ g.hash.Holds (frameId frame) a) →
        (frame.getD 3 0#8).toNat < 128 ∨ (frame.getD 2 0#8).toNat = 255) := by
  constructor
  · intro h
    exact ⟨h.long, fun a _ ha => h.live a ha, fun hnone => h.gone fun a ha => hnone a ha.1 ha⟩
  · intro h
    obtain ⟨hlong, hlive, hgone⟩ := h
    exact ⟨hlong, fun a ha => hlive a ha.1 ha, fun hnone => hgone fun a _ => hnone a⟩

instance (g : Gate) (frame : List Byte) : Decidable (NamesPlainly g frame) :=
  decidable_of_iff' _ (namesPlainly_iff g frame)

/-- In `g` the server, in slot `b`, delivers `frame` in one chunk. -/
def DeliversFrame (g : Gate) (b : Nat) (frame : List Byte) : Prop :=
  g.hash.Holds g.sid b ∧ (g.conn b).connTp = .server ∧
    (g.view b).delivers frame = some frame ∧ frameProtId frame ≠ 100

instance (g : Gate) (b : Nat) (frame : List Byte) : Decidable (DeliversFrame g b frame) :=
  inferInstanceAs (Decidable (_ ∧ _ ∧ _ ∧ _))

theorem server_frame_served :
    ∃ tr g g' acts, Exec (dispatchSocketMessage gatewayMd5) FreshAccept (gateInit ⟨2, by decide⟩ 7) tr g ∧
      DeliversFrame g 0 (package 5 2 [8, 9]) ∧
      dispatchSocketMessage gatewayMd5 g ⟨.data g.sid (package 5 2 [8, 9]), 0⟩ = some (g', acts) ∧
      Served g (package 5 2 [8, 9]) acts := by
  have hrun : ((execute (dispatchSocketMessage gatewayMd5) FreshAccept (gateInit ⟨2, by decide⟩ 7)
      [⟨.accept 7 4, 0⟩, ⟨.data 4 (handshakePackage 3 gatewayMd5.server), 0⟩,
        ⟨.accept 7 5, 0⟩]).map fun run =>
      decide (DeliversFrame run.2 0 (package 5 2 [8, 9]) ∧
        NamesPlainly run.2 (package 5 2 [8, 9]))) = some true := by decide +kernel
  obtain ⟨tr, g, h, hdata⟩ := exists_exec _ hrun
  obtain ⟨hframe, hplain⟩ := of_decide_eq_true hdata
  obtain ⟨hserver, htp, hdelivers, hproto⟩ := hframe
  obtain ⟨g', acts, hstep, hiff⟩ :=
    server_frame_iff gatewayMd5 _ 7 h hserver htp hdelivers hproto 0
  exact ⟨tr, g, g', acts, h, ⟨hserver, htp, hdelivers, hproto⟩, hstep, hiff.mpr hplain⟩

/-- The server delivers, in a reachable state of the kind `Q`, a frame that is not served. -/
def UnservedIn (Q : Gate → Prop) (b : Nat) (frame : List Byte) : Prop :=
  ∃ tr g g' acts, Exec (dispatchSocketMessage gatewayMd5) FreshAccept (gateInit ⟨2, by decide⟩ 7) tr g ∧ Q g ∧
    DeliversFrame g b frame ∧
    dispatchSocketMessage gatewayMd5 g ⟨.data g.sid frame, 0⟩ = some (g', acts) ∧
    ¬ Served g frame acts

theorem unservedIn_of_run {Q : Gate → Prop} [DecidablePred Q] (is : List GateInput) {b : Nat}
    {frame : List Byte}
    (hrun : ((execute (dispatchSocketMessage gatewayMd5) FreshAccept (gateInit ⟨2, by decide⟩ 7) is).map
      fun run => decide (Q run.2 ∧ DeliversFrame run.2 b frame ∧ ¬ NamesPlainly run.2 frame)) =
        some true) : UnservedIn Q b frame := by
  obtain ⟨tr, g, h, hdata⟩ := exists_exec _ hrun
  obtain ⟨hQ, hframe, hplain⟩ := of_decide_eq_true hdata
  obtain ⟨hserver, htp, hdelivers, hproto⟩ := hframe
  obtain ⟨g', acts, hstep, hiff⟩ :=
    server_frame_step gatewayMd5 (gate_invariant h) hserver htp hdelivers hproto 0
  exact ⟨tr, g, g', acts, h, hQ, ⟨hserver, htp, hdelivers, hproto⟩, hstep,
    fun hserved => hplain (hiff.mp hserved)⟩

/-- A frame for the live client 200, one for the live client in slot 0, one for a client 200 that
is gone, and one for the live client 5 that has no body. -/
theorem server_frame_not_served :
    UnservedIn (fun g => g.hash.Holds 200 1) 0 (package 200 2 [8, 9]) ∧
      UnservedIn (fun g => g.hash.Holds 4 0) 1 (package 4 2 [8, 9]) ∧
      UnservedIn (fun g => ∀ a, a < g.hash.cap → ¬ g.hash.Holds 200 a) 0 (package 200 2 [8, 9]) ∧
      UnservedIn (fun g => g.hash.Holds 5 1) 0 (package 5 2 []) := by
  refine ⟨?_, ?_, ?_, ?_⟩
  · exact unservedIn_of_run [⟨.accept 7 4, 0⟩,
      ⟨.data 4 (handshakePackage 3 gatewayMd5.server), 0⟩, ⟨.accept 7 200, 0⟩] (by decide +kernel)
  · exact unservedIn_of_run [⟨.accept 7 5, 0⟩,
      ⟨.data 5 (handshakePackage 3 gatewayMd5.server), 0⟩, ⟨.accept 7 4, 0⟩] (by decide +kernel)
  · exact unservedIn_of_run [⟨.accept 7 4, 0⟩,
      ⟨.data 4 (handshakePackage 3 gatewayMd5.server), 0⟩] (by decide +kernel)
  · exact unservedIn_of_run [⟨.accept 7 4, 0⟩,
      ⟨.data 4 (handshakePackage 3 gatewayMd5.server), 0⟩, ⟨.accept 7 5, 0⟩] (by decide +kernel)

end NetgameFormal

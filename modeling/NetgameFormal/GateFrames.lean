import NetgameFormal.GateSteps
import NetgameFormal.FrameActs

/-!
# The frames the gateway sends

Forwarded frames are well formed; the notice that a client is gone is not, its
size field counts the whole buffer. A frame that the server sends back reaches
the client it came from, unless another id reads the same from two bytes.
-/

set_option autoImplicit false

namespace NetgameFormal

variable {md5 : HandshakeMd5} {g g' : Gate} {i : GateInput} {o : List Act} {s₀ : Gate}
variable {tr : List (Record Gate GateInput Act)}

theorem gate_record {max : Capacity} {listenId : Int}
    (h : Exec (dispatchSocketMessage md5) FreshAccept (gateInit max listenId) tr g) :
    ∀ r ∈ tr, GateOk r.pre ∧ GateStep md5 r.pre r.input r.post r.output := by
  have preserved : ∀ {g i g' o}, GateOk g → FreshAccept g i →
      dispatchSocketMessage md5 g i = some (g', o) → GateOk g' :=
    fun hok hfresh hrun => (dispatch_step hok hfresh hrun).ok hok
  intro r hr
  obtain ⟨hpre, -, hfresh, hrun⟩ := h.record GateOk (gateInit_ok max listenId) preserved r hr
  exact ⟨hpre, dispatch_step hpre hfresh hrun⟩

theorem gate_invariant {max : Capacity} {listenId : Int}
    (h : Exec (dispatchSocketMessage md5) FreshAccept (gateInit max listenId) tr g) : GateOk g :=
  h.invariant GateOk (gateInit_ok max listenId)
    fun hok hfresh hrun => (dispatch_step hok hfresh hrun).ok hok

theorem GateStep.send_mem_iff (hok : GateOk g) (h : GateStep md5 g i g' o) {site : SendSite}
    {target : Int} {buf : List Byte} {w : Int} :
    .send site target buf w ∈ o ↔ ∃ id data a frame, i = ⟨.data id data, w⟩ ∧ g.hash.Holds id a ∧
      ((g.view a).take data).2 = some frame ∧
      refSend (g.conn a).connTp g.sid id (g.routes (readBlock frame 2)) frame =
        some (site, target, buf) := by
  constructor
  · intro hmem
    rcases h.mem_inv hmem with ⟨id, data, wsz, a, hi, ha, hacts⟩ | ⟨_, hx⟩ | ⟨_, hx⟩
    · obtain ⟨frame, htake, hframe⟩ := RefConn.message_mem_iff.mp hacts
      obtain ⟨hsend, hw⟩ := NetgameFormal.send_mem_iff.mp hframe
      subst hw
      exact ⟨id, data, a, frame, hi, ha, htake, hsend⟩
    · cases hx
    · cases hx
  · intro hsent
    obtain ⟨id, data, a, frame, hi, ha, htake, hsend⟩ := hsent
    subst hi
    rcases h.data_inv with ⟨b, hb, -, -, ho⟩ | ⟨habsent, -⟩
    · subst ho
      obtain rfl := hok.hash.distinct ha hb
      apply RefConn.message_mem_iff.mpr
      exact ⟨frame, htake, NetgameFormal.send_mem_iff.mpr ⟨hsend, rfl⟩⟩
    · exact absurd ha (habsent a)

/-! ## Well-formed buffers -/

/-- The first two bytes are the big-endian length of the rest, and the rest has a frame's minimum. -/
def WellFormed (buf : List Byte) : Prop :=
  6 ≤ buf.length ∧ beNat (buf.getD 0 0#8) (buf.getD 1 0#8) = buf.length - 2

theorem forwarded_wellFormed {payload : List Byte} (h6 : 6 ≤ payload.length)
    (hlt : payload.length < 65536) (x : Int) : WellFormed (writeBlock (rebuiltFrame payload) x 2) := by
  obtain ⟨a, b, rest, rfl⟩ := exists_cons_two (Nat.le_trans (by decide) h6)
  have hsize := beNat_written hlt
  generalize hn : (a :: b :: rest).length = n at h6 hsize
  rw [rebuiltFrame_eq, writeBlock_two, hn]
  rw [List.length_cons, List.length_cons] at hn
  refine ⟨?_, ?_⟩
  · simp only [List.length_cons]
    omega
  · simp only [List.getD_cons_zero, List.getD_cons_succ, hsize, List.length_cons]
    omega

theorem goneNotice_not_wellFormed (cid : Int) : ¬ WellFormed (goneNotice cid) := by
  intro h'
  obtain ⟨-, hsize⟩ := h'
  have hsix : beNat (hiByte 6) (loByte 6) = 6 := by decide
  rw [goneNotice_eq] at hsize
  simp [hsix] at hsize

def AnswersGone (g : Gate) (i : GateInput) : Prop :=
  match i.msg with
  | .data id data => ∃ a frame, g.hash.Holds id a ∧ (g.conn a).connTp = .server ∧
      ((g.view a).take data).2 = some frame ∧ isHandshake frame = false ∧
      g.routes (readBlock frame 2) = false
  | _ => False

theorem GateStep.wellFormed_iff (hok : GateOk g) (h : GateStep md5 g i g' o) :
    (∀ site target buf w, .send site target buf w ∈ o → WellFormed buf) ↔ ¬ AnswersGone g i := by
  constructor
  · intro hall hgone
    rcases i with ⟨msg, wsz⟩
    cases msg with
    | data id data =>
      obtain ⟨a, frame, ha, htp, htake, hshake, hroutes⟩ := hgone
      apply goneNotice_not_wellFormed (readBlock frame 2)
      apply hall .clientGone g.sid _ wsz
      rw [h.send_mem_iff hok]
      refine ⟨id, data, a, frame, rfl, ha, htake, ?_⟩
      exact refSend_clientGone_iff.mpr ⟨hshake, htp, hroutes, rfl, rfl⟩
    | connect id => exact hgone
    | close id => exact hgone
    | error id => exact hgone
    | accept id ud => exact hgone
  · intro hgone site target buf w hmem
    obtain ⟨id, data, a, frame, rfl, ha, htake, hsend⟩ := (h.send_mem_iff hok).mp hmem
    obtain ⟨payload, hframe, h6, hlt⟩ := RefConn.take_some (hok.header a) htake
    cases site with
    | toServer =>
      obtain ⟨-, -, -, -, rfl⟩ := refSend_toServer_iff.mp hsend
      rw [hframe]
      exact forwarded_wellFormed h6 hlt id
    | toClient =>
      obtain ⟨-, -, -, -, rfl⟩ := refSend_toClient_iff.mp hsend
      rw [hframe]
      exact forwarded_wellFormed h6 hlt g.sid
    | clientGone =>
      obtain ⟨hshake, htp, hroutes, -⟩ := refSend_clientGone_iff.mp hsend
      exact absurd ⟨a, frame, ha, htp, htake, hshake, hroutes⟩ hgone

/-- A run sends well-formed frames only, exactly when it never answers for a client that is gone. -/
theorem sends_wellFormed_iff (md5 : HandshakeMd5) (max : Capacity) (listenId : Int)
    {tr : List (Record Gate GateInput Act)} {g : Gate}
    (h : Exec (dispatchSocketMessage md5) FreshAccept (gateInit max listenId) tr g) :
    (∀ r ∈ tr, ∀ site target buf w, .send site target buf w ∈ r.output → WellFormed buf) ↔
      ∀ r ∈ tr, ¬ AnswersGone r.pre r.input := by
  constructor
  · intro hall r hr
    obtain ⟨hok, hstep⟩ := gate_record h r hr
    exact (hstep.wellFormed_iff hok).mp (hall r hr)
  · intro hnone r hr
    obtain ⟨hok, hstep⟩ := gate_record h r hr
    exact (hstep.wellFormed_iff hok).mpr (hnone r hr)

instance (buf : List Byte) : Decidable (WellFormed buf) := inferInstanceAs (Decidable (_ ∧ _))

theorem sends_wellFormed_round_trip :
    ∃ tr g, Exec (dispatchSocketMessage gatewayMd5) FreshAccept (gateInit ⟨2, by decide⟩ 7) tr g ∧
      .send .toServer 4 (package 5 1 [8, 9]) 0 ∈ outputsOf tr ∧
      .send .toClient 5 (package 4 2 [8, 9]) 0 ∈ outputsOf tr ∧
      ∀ r ∈ tr, ¬ AnswersGone r.pre r.input := by
  have hrun : ((execute (dispatchSocketMessage gatewayMd5) FreshAccept (gateInit ⟨2, by decide⟩ 7)
      [⟨.accept 7 4, 0⟩, ⟨.data 4 (handshakePackage 3 gatewayMd5.server), 0⟩, ⟨.accept 7 5, 0⟩,
        ⟨.data 5 (handshakePackage 3 gatewayMd5.client), 0⟩, ⟨.data 5 (package 0 1 [8, 9]), 0⟩,
        ⟨.data 4 (package 5 2 [8, 9]), 0⟩]).map fun run =>
      (decide (.send .toServer 4 (package 5 1 [8, 9]) 0 ∈ outputsOf run.1),
        decide (.send .toClient 5 (package 4 2 [8, 9]) 0 ∈ outputsOf run.1),
        run.1.all fun r => r.output.all fun
          | .send _ _ buf _ => decide (WellFormed buf)
          | _ => true)) = some (true, true, true) := by decide +kernel
  obtain ⟨tr, g, h, hdata⟩ := exists_exec _ hrun
  simp only [Prod.mk.injEq, decide_eq_true_eq, List.all_eq_true] at hdata
  obtain ⟨hserver, hclient, hall⟩ := hdata
  refine ⟨tr, g, h, hserver, hclient, (sends_wellFormed_iff gatewayMd5 _ 7 h).mp ?_⟩
  intro r hr site target buf w hmem
  simpa using hall r hr _ hmem

theorem notice_sent_not_wellFormed :
    ∃ tr g, Exec (dispatchSocketMessage gatewayMd5) FreshAccept (gateInit ⟨2, by decide⟩ 7) tr g ∧
      .send .clientGone 4 [0, 6, 0, 77, 0, 98] 0 ∈ outputsOf tr ∧
      ¬ WellFormed [0, 6, 0, 77, 0, 98] := by
  have hrun : ((execute (dispatchSocketMessage gatewayMd5) FreshAccept (gateInit ⟨2, by decide⟩ 7)
      [⟨.accept 7 4, 0⟩, ⟨.data 4 (handshakePackage 3 gatewayMd5.server), 0⟩,
        ⟨.data 4 (package 77 1 [8, 9]), 0⟩]).map fun run =>
      decide (.send .clientGone 4 [0, 6, 0, 77, 0, 98] 0 ∈ outputsOf run.1)) = some true := by
    decide +kernel
  obtain ⟨tr, g, h, hdata⟩ := exists_exec _ hrun
  exact ⟨tr, g, h, of_decide_eq_true hdata, by decide⟩

/-! ## Frames the server sends back -/

/-- The id that `read_block` reads from the two bytes `write_block` wrote for `c`. -/
def idField (c : Int) : Int := signedPair (hiByte c) (loByte c)

/-- Since its accept, the gateway has forwarded a frame of `c` with the id bytes `b₂` and `b₃`. -/
def ForwardedSince (tr : List (Record Gate GateInput Act)) (c : Int) (b₂ b₃ : Byte) : Prop :=
  ∃ front r back data target buf wsz, tr = front ++ r :: back ∧ r.input = ⟨.data c data, wsz⟩ ∧
    .send .toServer target buf wsz ∈ r.output ∧ buf.getD 2 0#8 = b₂ ∧ buf.getD 3 0#8 = b₃ ∧
    ∀ q ∈ back, q.input.msg ≠ .close c ∧ q.input.msg ≠ .error c

/-- In state `g`, reached by `tr`, the event completes a server frame for `handlemsg`
whose id bytes are those of a forwarded frame of the live connection `c`. -/
def ReturnsTo (tr : List (Record Gate GateInput Act)) (g : Gate) (i : GateInput) (c : Int) : Prop :=
  (∃ a, g.hash.Holds c a) ∧ ∃ s data wsz b frame, i = ⟨.data s data, wsz⟩ ∧ g.hash.Holds s b ∧
    (g.conn b).connTp = .server ∧ ((g.view b).take data).2 = some frame ∧
    isHandshake frame = false ∧ ForwardedSince tr c (frame.getD 2 0#8) (frame.getD 3 0#8)

/-- No other connection outside slot 0 has the id that is read back for `c`. -/
def NoAlias (g : Gate) (c : Int) : Prop :=
  ∀ d b, g.hash.Holds d b → 0 < b → d = idField c → d = c

theorem forwarded_bytes (hok : GateOk g) (h : GateStep md5 g i g' o) {c : Int} {data : List Byte}
    {w wsz target : Int} {buf : List Byte} (hi : i = ⟨.data c data, w⟩)
    (hmem : .send .toServer target buf wsz ∈ o) :
    buf.getD 2 0#8 = hiByte c ∧ buf.getD 3 0#8 = loByte c := by
  obtain ⟨id, data', a, frame, hi', ha, htake, hsend⟩ := (h.send_mem_iff hok).mp hmem
  rw [hi] at hi'
  simp only [GateInput.mk.injEq, GateMessage.data.injEq] at hi'
  obtain ⟨⟨rfl, rfl⟩, rfl⟩ := hi'
  obtain ⟨payload, hframe, h6, -⟩ := RefConn.take_some (hok.header a) htake
  obtain ⟨-, -, -, -, hbuf⟩ := refSend_toServer_iff.mp hsend
  obtain ⟨x, y, rest, rfl⟩ := exists_cons_two (Nat.le_trans (by decide) h6)
  rw [hbuf, hframe, rebuiltFrame_eq, writeBlock_two]
  exact ⟨rfl, rfl⟩

theorem ForwardedSince.bytes {max : Capacity} {listenId : Int}
    (h : Exec (dispatchSocketMessage md5) FreshAccept (gateInit max listenId) tr g) {c : Int}
    {b₂ b₃ : Byte} (hf : ForwardedSince tr c b₂ b₃) : b₂ = hiByte c ∧ b₃ = loByte c := by
  obtain ⟨front, r, back, data, target, buf, wsz, rfl, hinput, hmem, rfl, rfl, -⟩ := hf
  obtain ⟨hok, hstep⟩ := gate_record h r (by simp)
  exact forwarded_bytes hok hstep hinput hmem

theorem GateStep.returns_iff (hok : GateOk g) (h : GateStep md5 g i g' o) {c s wsz : Int}
    {data frame : List Byte} {b : Nat} (hi : i = ⟨.data s data, wsz⟩) (hs : g.hash.Holds s b)
    (htp : (g.conn b).connTp = .server) (htake : ((g.view b).take data).2 = some frame)
    (hshake : isHandshake frame = false) (hfield : readBlock frame 2 = idField c) :
    (∀ target buf w, .send .toClient target buf w ∈ o → target = c) ↔ NoAlias g c := by
  have hsent : ∀ target buf w, .send .toClient target buf w ∈ o →
      target = idField c ∧ g.routes (idField c) = true := by
    intro target buf w hmem
    obtain ⟨s', data', b', frame', hi', hs', htake', hsend⟩ := (h.send_mem_iff hok).mp hmem
    rw [hi] at hi'
    simp only [GateInput.mk.injEq, GateMessage.data.injEq] at hi'
    obtain ⟨⟨rfl, rfl⟩, -⟩ := hi'
    obtain rfl := hok.hash.distinct hs hs'
    obtain rfl : frame = frame' := Option.some.inj (htake.symm.trans htake')
    obtain ⟨-, -, hroutes, htarget, -⟩ := refSend_toClient_iff.mp hsend
    rw [hfield] at hroutes htarget
    exact ⟨htarget, hroutes⟩
  constructor
  · intro hhome d e hd hpos hfd
    subst hfd
    apply hhome _ (writeBlock frame g.sid 2) wsz
    rw [h.send_mem_iff hok]
    refine ⟨s, data, b, frame, hi, hs, htake, refSend_toClient_iff.mpr ?_⟩
    rw [hfield]
    exact ⟨hshake, htp, (Gate.routes_iff hok.hash _).mpr ⟨e, hpos, hd⟩, rfl, rfl⟩
  · intro halias target buf w hmem
    obtain ⟨rfl, hroutes⟩ := hsent target buf w hmem
    obtain ⟨e, hpos, hd⟩ := (Gate.routes_iff hok.hash _).mp hroutes
    exact halias _ e hd hpos rfl

/-- A run returns every server frame home exactly when no live id aliases the one it is for. -/
theorem returns_home_iff (md5 : HandshakeMd5) (max : Capacity) (listenId : Int)
    {tr : List (Record Gate GateInput Act)} {g : Gate}
    (h : Exec (dispatchSocketMessage md5) FreshAccept (gateInit max listenId) tr g) :
    (∀ front r back, tr = front ++ r :: back → ∀ c, ReturnsTo front r.pre r.input c →
        ∀ target buf w, .send .toClient target buf w ∈ r.output → target = c) ↔
      ∀ front r back, tr = front ++ r :: back → ∀ c, ReturnsTo front r.pre r.input c →
        NoAlias r.pre c := by
  have hstep : ∀ front r back, tr = front ++ r :: back → ∀ c, ReturnsTo front r.pre r.input c →
      ((∀ target buf w, .send .toClient target buf w ∈ r.output → target = c) ↔
        NoAlias r.pre c) := by
    rintro front r back rfl c ⟨-, s, data, wsz, b, frame, hi, hs, htp, htake, hshake, hforwarded⟩
    obtain ⟨hok, hrec⟩ := gate_record h r (by simp)
    obtain ⟨s₁, hfront, -⟩ := h.split
    obtain ⟨hhi, hlo⟩ := hforwarded.bytes hfront
    have hfield : readBlock frame 2 = idField c := by rw [readBlock, hhi, hlo, idField]
    exact hrec.returns_iff hok hi hs htp htake hshake hfield
  constructor
  · intro hhome front r back heq c hret
    exact (hstep front r back heq c hret).mp (hhome front r back heq c hret)
  · intro halias front r back heq c hret
    exact (hstep front r back heq c hret).mpr (halias front r back heq c hret)

theorem returned_home :
    ∃ tr g, Exec (dispatchSocketMessage gatewayMd5) FreshAccept (gateInit ⟨4, by decide⟩ 7) tr g ∧
      .send .toClient 5 (package 2 1 [8, 9]) 0 ∈ outputsOf tr ∧
      ∀ front r back, tr = front ++ r :: back → ∀ c, ReturnsTo front r.pre r.input c →
        ∀ target buf w, .send .toClient target buf w ∈ r.output → target = c := by
  have hrun : ((execute (dispatchSocketMessage gatewayMd5) FreshAccept (gateInit ⟨4, by decide⟩ 7)
      [⟨.accept 7 5, 0⟩, ⟨.accept 7 2, 0⟩, ⟨.data 2 (handshakePackage 3 gatewayMd5.server), 0⟩,
        ⟨.data 5 (handshakePackage 3 gatewayMd5.client), 0⟩, ⟨.data 5 (package 0 1 [8, 9]), 0⟩,
        ⟨.data 2 (package 5 1 [8, 9]), 0⟩]).map fun run =>
      decide (.send .toClient 5 (package 2 1 [8, 9]) 0 ∈ outputsOf run.1) &&
        run.1.all fun r => decide (∀ a, a < r.pre.hash.cap →
          (r.pre.hash.id a).id = -1 ∨ (r.pre.hash.id a).id = 2 ∨ (r.pre.hash.id a).id = 5)) =
      some true := by decide +kernel
  obtain ⟨tr, g, h, hdata⟩ := exists_exec _ hrun
  simp only [Bool.and_eq_true, decide_eq_true_eq, List.all_eq_true] at hdata
  obtain ⟨hsent, hids⟩ := hdata
  refine ⟨tr, g, h, hsent, (returns_home_iff gatewayMd5 _ 7 h).mpr ?_⟩
  rintro front r back rfl c ⟨⟨a, hc⟩, -⟩ d b hd - hfield
  have hlive : ∀ {id e}, r.pre.hash.Holds id e → id = 2 ∨ id = 5 := by
    rintro id e ⟨he, hid, hne⟩
    rcases hids r (by simp) e he with hfree | hlive
    · exact absurd (hid.symm.trans hfree) hne
    · rwa [hid] at hlive
  rcases hlive hc with rfl | rfl
  · exact hfield
  · exact hfield

/-- The clients 5 and 65541 share their two id bytes: a frame for one reaches the other. -/
theorem returned_to_alias :
    ∃ front r g, Exec (dispatchSocketMessage gatewayMd5) FreshAccept (gateInit ⟨4, by decide⟩ 7) (front ++ [r]) g ∧
      ReturnsTo front r.pre r.input 65541 ∧
      .send .toClient 5 (package 2 1 [8, 9]) 0 ∈ r.output := by
  let last : GateInput := ⟨.data 2 (package 65541 1 [8, 9]), 0⟩
  have hrun : ((execute (dispatchSocketMessage gatewayMd5) FreshAccept (gateInit ⟨4, by decide⟩ 7)
      [⟨.accept 7 5, 0⟩, ⟨.accept 7 65541, 0⟩, ⟨.accept 7 2, 0⟩,
        ⟨.data 2 (handshakePackage 3 gatewayMd5.server), 0⟩,
        ⟨.data 5 (handshakePackage 3 gatewayMd5.client), 0⟩,
        ⟨.data 65541 (handshakePackage 3 gatewayMd5.client), 0⟩,
        ⟨.data 65541 (package 0 1 [8, 9]), 0⟩]).map fun run =>
      decide ((run.1.getLast?.map fun r => (r.input, r.output.filter Act.visible)) =
          some (⟨.data 65541 (package 0 1 [8, 9]), 0⟩,
            [.send .toServer 2 (package 65541 1 [8, 9]) 0])) &&
        decide (run.2.hash.Holds 65541 2) && decide (run.2.hash.Holds 2 3) &&
        decide ((run.2.conn 3).connTp = .server) &&
        decide (((run.2.view 3).take (package 65541 1 [8, 9])).2 =
          some (package 65541 1 [8, 9])) &&
        decide (((dispatchSocketMessage gatewayMd5 run.2 last).map fun next =>
          next.2.filter Act.visible) = some [.send .toClient 5 (package 2 1 [8, 9]) 0])) =
      some true := by decide +kernel
  obtain ⟨front, g, h, hdata⟩ := exists_exec _ hrun
  simp only [Bool.and_eq_true, decide_eq_true_eq, Option.map_eq_some_iff, Prod.mk.injEq] at hdata
  obtain ⟨⟨⟨⟨⟨⟨r₀, hlast, hinput, houtput⟩, hclient⟩, hserver⟩, htp⟩, htake⟩, ⟨g', o⟩, hstep, ho⟩ :=
    hdata
  obtain ⟨before, rfl⟩ := List.getLast?_eq_some_iff.mp hlast
  refine ⟨before ++ [r₀], ⟨g, last, o, g'⟩, g', .snoc h trivial hstep, ⟨⟨2, hclient⟩, 2, _, 0, 3,
    package 65541 1 [8, 9], rfl, hserver, htp, htake, by decide, ?_⟩, ?_⟩
  · refine ⟨before, r₀, [], _, 2, package 65541 1 [8, 9], 0, rfl, hinput, ?_, rfl, rfl, by simp⟩
    have hmem : .send .toServer 2 (package 65541 1 [8, 9]) 0 ∈ r₀.output.filter Act.visible := by
      rw [houtput]
      simp
    exact List.mem_of_mem_filter hmem
  · have hmem : .send .toClient 5 (package 2 1 [8, 9]) 0 ∈ o.filter Act.visible := by
      rw [ho]
      simp
    exact List.mem_of_mem_filter hmem

end NetgameFormal

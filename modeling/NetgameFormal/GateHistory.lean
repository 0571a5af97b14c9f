import NetgameFormal.GateRoles

/-!
# What a connection delivered before the gateway relayed for it

The role in a slot is tied to the history of the connection that holds the slot:
it has the role only because a handshake frame with exactly the configured string
arrived among its own bytes, after its latest accept.
-/

set_option autoImplicit false

namespace NetgameFormal

/-- A frame with protocol number 100 and the body `str`. -/
def HandshakeFrame (str frame : List Byte) : Prop :=
  ∃ hi lo x y, frame = hi :: lo :: x :: y :: 0#8 :: 100#8 :: str ∧ beNat hi lo = str.length + 4

/-- The length and `strncmp` test passes for one byte string only. -/
theorem presents_iff {str frame : List Byte} (hstr : 0#8 ∉ str) :
    presents str frame = true ↔ frame.drop 6 = str := by
  have hlen : (frame.drop 6).length = frame.length - 6 := List.length_drop
  unfold presents md5Matches
  rw [Bool.and_eq_true, beq_iff_eq, beq_iff_eq, strlen_eq_length hstr]
  constructor
  · intro h'
    obtain ⟨hdlen, hcmp⟩ := h'
    rw [hdlen, strncmp_eq_zero_iff hstr] at hcmp
    have hpre := List.prefix_of_prefix_length_le hcmp (List.prefix_append _ [0#8]) (by omega)
    exact (hpre.eq_of_length (by omega)).symm
  · intro heq
    rw [heq] at hlen ⊢
    refine ⟨hlen.symm, ?_⟩
    rw [← hlen, strncmp_eq_zero_iff hstr]
    exact List.prefix_append _ _

theorem isHandshake_iff (frame : List Byte) :
    isHandshake frame = true ↔ frame.getD 4 0#8 = 0#8 ∧ frame.getD 5 0#8 = 100#8 := by
  unfold isHandshake readBlock
  rw [decide_eq_true_eq]
  exact signedPair_eq_iff

theorem handshakeFrame_of_presents {str payload : List Byte} {hi lo : Byte} (hstr : 0#8 ∉ str)
    (h6 : 6 ≤ payload.length) (hlen : beNat hi lo = payload.length)
    (hshake : isHandshake (hi :: lo :: payload) = true)
    (hpresents : presents str (hi :: lo :: payload) = true) :
    HandshakeFrame str (hi :: lo :: payload) := by
  obtain ⟨x, y, tail, rfl⟩ := exists_cons_two (Nat.le_trans (by decide) h6)
  have htail : 2 ≤ tail.length := by
    rw [List.length_cons, List.length_cons] at h6
    omega
  obtain ⟨p₀, p₁, body, rfl⟩ := exists_cons_two htail
  obtain ⟨rfl, rfl⟩ : p₀ = 0#8 ∧ p₁ = 100#8 := (isHandshake_iff _).mp hshake
  have hbody : body = str := (presents_iff hstr).mp hpresents
  subst hbody
  exact ⟨hi, lo, x, y, rfl, hlen⟩

/-! ## Lifetimes -/

/-- `mid` is what happened since the latest accept of `c`. -/
def Lifetime (tr : List (Record Gate GateInput Act)) (c : Int)
    (mid : List (Record Gate GateInput Act)) : Prop :=
  ∃ front r l, tr = front ++ r :: mid ∧ r.input.msg = .accept l c ∧
    ∀ q ∈ mid, ∀ l, q.input.msg ≠ .accept l c

def GateInput.bytesOf (c : Int) (i : GateInput) : List Byte :=
  match i.msg with
  | .data id data => if id = c then data else []
  | _ => []

theorem GateInput.bytesOf_of_ne {c : Int} {i : GateInput} (h : ∀ data, i.msg ≠ .data c data) :
    i.bytesOf c = [] := by
  rcases i with ⟨msg, wsz⟩
  cases msg with
  | data id data =>
    have hne : id ≠ c := by
      intro heq
      exact h data (by rw [heq])
    exact if_neg hne
  | connect id => rfl
  | close id => rfl
  | error id => rfl
  | accept id ud => rfl

def bytesOf (c : Int) (mid : List (Record Gate GateInput Act)) : List Byte :=
  mid.flatMap fun r => r.input.bytesOf c

@[simp] theorem bytesOf_snoc (c : Int) (mid : List (Record Gate GateInput Act))
    (r : Record Gate GateInput Act) : bytesOf c (mid ++ [r]) = bytesOf c mid ++ r.input.bytesOf c := by
  simp [bytesOf]

/-- Among its bytes, `c` delivered a handshake frame with the body `str`, and it was handled. -/
def Presented (c : Int) (mid : List (Record Gate GateInput Act)) (str : List Byte) : Prop :=
  ∃ frame, HandshakeFrame str frame ∧ frame <:+: bytesOf c mid ∧ .handshake c frame ∈ outputsOf mid

/-- After its latest accept `c` has delivered a handshake frame with the body `str`. -/
def HasDelivered (tr : List (Record Gate GateInput Act)) (c : Int) (str : List Byte) : Prop :=
  ∃ mid, Lifetime tr c mid ∧ Presented c mid str

variable {md5 : HandshakeMd5} {g g' : Gate} {i : GateInput} {o : List Act} {c : Int} {a : Nat}
variable {tr mid : List (Record Gate GateInput Act)} {r : Record Gate GateInput Act}

theorem Lifetime.snoc (h : Lifetime tr c mid) (hr : ∀ l, r.input.msg ≠ .accept l c) :
    Lifetime (tr ++ [r]) c (mid ++ [r]) := by
  obtain ⟨front, racc, l, rfl, hacc, hmid⟩ := h
  refine ⟨front, racc, l, by simp, hacc, ?_⟩
  intro q hq
  rcases List.mem_append.mp hq with hq | hq
  · exact hmid q hq
  · rw [List.mem_singleton.mp hq]
    exact hr

theorem Lifetime.start {l : Int} (hr : r.input.msg = .accept l c) : Lifetime (tr ++ [r]) c [] :=
  ⟨tr, r, l, rfl, hr, by simp⟩

theorem Presented.snoc {str : List Byte} (h : Presented c mid str) : Presented c (mid ++ [r]) str := by
  obtain ⟨frame, hframe, hbytes, hmem⟩ := h
  refine ⟨frame, hframe, ?_, ?_⟩
  · rw [bytesOf_snoc]
    exact hbytes.trans (List.prefix_append _ _).isInfix
  · rw [outputsOf_snoc]
    exact List.mem_append_left _ hmem

/-! ## The history invariant -/

/-- The configured string behind a role. -/
def HandshakeMd5.of (md5 : HandshakeMd5) : ConnTp → Option (List Byte)
  | .zero => none
  | .client => some md5.client
  | .server => some md5.server
  | .debug => some md5.debug

/-- The record `v` of connection `c` is explained by what happened since its accept. -/
structure Explains (md5 : HandshakeMd5) (c : Int) (mid : List (Record Gate GateInput Act))
    (v : RefConn) : Prop where
  trails : Framing.Trails beNat (bytesOf c mid) v.receiver
  role : ∀ str, md5.of v.connTp = some str → Presented c mid str

/-- Every live connection is explained by its current lifetime. -/
def Explained (md5 : HandshakeMd5) (tr : List (Record Gate GateInput Act)) (g : Gate) : Prop :=
  ∀ c a, g.hash.Holds c a → ∃ mid, Lifetime tr c mid ∧ Explains md5 c mid (g.view a)

theorem presents_of_frameRole {str frame : List Byte}
    (h : md5.of (frameRole md5 frame) = some str) : presents str frame = true := by
  unfold frameRole at h
  split at h
  · next hclient =>
    obtain rfl := Option.some.inj h
    exact hclient
  split at h
  · next hserver =>
    obtain rfl := Option.some.inj h
    exact hserver
  split at h
  · next hdebug =>
    obtain rfl := Option.some.inj h
    exact hdebug
  · simp [HandshakeMd5.of] at h

/-- A frame leaves the role, or is a handshake that gives the role its body asks for. -/
theorem refFrame_connTp (md5 : HandshakeMd5) (tp : ConnTp) (sid id : Int) (routes : Bool)
    (frame : List Byte) (wsz : Int) :
    (refFrame md5 tp sid id routes frame wsz).connTp = tp ∨
      isHandshake frame = true ∧
        (refFrame md5 tp sid id routes frame wsz).connTp = frameRole md5 frame := by
  have hroles := congrArg Prod.fst (refFrame_roles md5 tp sid id routes frame wsz)
  simp only at hroles
  rw [hroles]
  cases hshake : isHandshake frame with
  | false => exact Or.inl rfl
  | true =>
    cases frameRole md5 frame with
    | client => exact Or.inr ⟨rfl, rfl⟩
    | server => exact Or.inr ⟨rfl, rfl⟩
    | debug => exact Or.inr ⟨rfl, rfl⟩
    | zero => exact Or.inl rfl

theorem handshake_mem_allActs {tp : ConnTp} {sid id : Int} {routes : Bool} {frame : List Byte}
    {wsz : Int} (hshake : isHandshake frame = true) :
    .handshake id frame ∈ (refFrame md5 tp sid id routes frame wsz).allActs := by
  rw [refFrame_allActs, if_pos hshake]
  simp

/-- The configured strings contain no zero byte. -/
def HandshakeMd5.ZeroFree (md5 : HandshakeMd5) : Prop :=
  ∀ tp str, md5.of tp = some str → 0#8 ∉ str

/-- The step lemma for the connection whose bytes arrive. -/
theorem Explains.message (hmd5 : md5.ZeroFree) {v : RefConn} (h : Explains md5 c mid v)
    (hheader : v.receiver.header < 65536) {routes : Int → Bool} {sid wsz : Int} {data : List Byte}
    (hinput : r.input = ⟨.data c data, wsz⟩)
    (houtput : r.output = (v.message md5 routes sid c data wsz).acts) :
    Explains md5 c (mid ++ [r]) (v.message md5 routes sid c data wsz).conn := by
  have hbytes : bytesOf c (mid ++ [r]) = bytesOf c mid ++ data := by
    simp [hinput, GateInput.bytesOf]
  obtain ⟨htrails, hout⟩ := Framing.feed_trails (m := 6) h.trails data
  rw [← hbytes] at htrails hout
  rcases htake : v.take data with ⟨receiver, _ | frame⟩
  · rw [RefConn.message_none htake]
    have hreceiver : (Framing.feed beNat 6 v.receiver data).1 = receiver := congrArg Prod.fst htake
    constructor
    · rw [hreceiver] at htrails
      exact htrails
    · intro str hstr
      exact (h.role str hstr).snoc
  · have hreceiver : (Framing.feed beNat 6 v.receiver data).1 = receiver := congrArg Prod.fst htake
    have hsome : (v.take data).2 = some frame := by rw [htake]
    rw [RefConn.message_some htake] at houtput ⊢
    simp only at houtput ⊢
    constructor
    · split
      · exact Framing.Trails.idle _
      · rw [hreceiver] at htrails
        exact htrails
    · intro str hstr
      rcases refFrame_connTp md5 v.connTp sid c (routes (readBlock frame 2)) frame wsz with
        hkeep | ⟨hshake, hrole⟩
      · rw [hkeep] at hstr
        exact (h.role str hstr).snoc
      · rw [hrole] at hstr
        obtain ⟨payload, hpayload, rfl⟩ := Option.map_eq_some_iff.mp hsome
        obtain ⟨hi, lo, hlen, hinfix⟩ := hout payload hpayload
        obtain ⟨h6, -⟩ := Framing.feed_some_length beNat_lt hheader hpayload
        have hframe : rebuiltFrame payload = hi :: lo :: payload :=
          rebuiltFrame_payload ⟨hi, lo, payload, hlen⟩
        rw [hframe] at hshake hstr houtput
        have hpresents := presents_of_frameRole hstr
        refine ⟨_, handshakeFrame_of_presents (hmd5 _ _ hstr) h6 hlen hshake hpresents, hinfix, ?_⟩
        rw [outputsOf_snoc, houtput]
        exact List.mem_append_right _ (handshake_mem_allActs hshake)

theorem Explains.idle {v : RefConn} (h : Explains md5 c mid v) (hbytes : r.input.bytesOf c = []) :
    Explains md5 c (mid ++ [r]) v := by
  refine ⟨?_, fun str hstr => (h.role str hstr).snoc⟩
  rw [bytesOf_snoc, hbytes, List.append_nil]
  exact h.trails

theorem GateStep.explained (hmd5 : md5.ZeroFree) (hok : GateOk g) (hfresh : FreshAccept g i)
    (hex : Explained md5 tr g) (h : GateStep md5 g i g' o) :
    Explained md5 (tr ++ [⟨g, i, o, g'⟩]) g' := by
  intro c a ha
  rcases h.live_inv hok ha with ⟨hlive, hclose, herror⟩ | ⟨⟨l, hacc⟩, hview⟩
  · obtain ⟨mid, hlife, hexplains⟩ := hex c a hlive
    have hsame : ∀ l, i.msg ≠ .accept l c := by
      intro l hacc
      rw [FreshAccept, hacc] at hfresh
      exact hfresh.2 a hlive.1 hlive.2.1
    refine ⟨_, hlife.snoc hsame, ?_⟩
    rcases i with ⟨msg, wsz⟩
    by_cases hdata : ∃ data, msg = .data c data
    · obtain ⟨data, rfl⟩ := hdata
      rcases h.data_inv with ⟨b, hb, hw, -, ho⟩ | ⟨habsent, -⟩
      · obtain rfl := hok.hash.distinct hb hlive
        rw [hw.here]
        exact hexplains.message hmd5 (hok.header b) rfl ho
      · exact absurd hlive (habsent a)
    · have hother : ∀ data, msg ≠ .data c data := fun data heq => hdata ⟨data, heq⟩
      rw [(h.frame hlive hother hclose herror).2]
      apply hexplains.idle
      exact GateInput.bytesOf_of_ne hother
  · rw [hview]
    refine ⟨[], Lifetime.start hacc, Framing.Trails.idle _, ?_⟩
    intro str hstr
    simp [RefConn.fresh, HandshakeMd5.of] at hstr

theorem gate_explained (hmd5 : md5.ZeroFree) {max : Capacity} {listenId : Int}
    (h : Exec (dispatchSocketMessage md5) FreshAccept (gateInit max listenId) tr g) :
    Explained md5 tr g := by
  induction h with
  | nil =>
    intro c a hc
    exact absurd hc.2.1.symm hc.2.2
  | snoc hrun hfresh hstep ih =>
    have hok := gate_invariant hrun
    exact (dispatch_step hok hfresh hstep).explained hmd5 hok hfresh ih

theorem GateStep.lua_mem (h : GateStep md5 g i g' o) {j : Int} {buf : List Byte}
    (hmem : .luaDispatch j buf ∈ o) :
    ∃ data wsz a, i = ⟨.data j data, wsz⟩ ∧ g.hash.Holds j a ∧ (g.conn a).connTp = .debug := by
  rcases h.mem_inv hmem with ⟨id, data, wsz, a, hi, ha, hacts⟩ | ⟨_, hx⟩ | ⟨_, hx⟩
  · obtain ⟨frame, -, hframe⟩ := RefConn.message_mem_iff.mp hacts
    obtain ⟨-, htp, hj, -⟩ := lua_mem_iff.mp hframe
    subst hj
    exact ⟨data, wsz, a, hi, ha, htp⟩
  · cases hx
  · cases hx

theorem Explained.hasDelivered (h : Explained md5 tr g) (ha : g.hash.Holds c a) {str : List Byte}
    (hstr : md5.of (g.conn a).connTp = some str) : HasDelivered tr c str := by
  obtain ⟨mid, hlife, hexplains⟩ := h c a ha
  exact ⟨mid, hlife, hexplains.role str hstr⟩

/-- The gateway relays a frame only for a connection that, after its latest accept, delivered
the string of the role that the relaying needs. -/
theorem relayed_after_handshake (md5 : HandshakeMd5) (hmd5 : md5.ZeroFree) (max : Capacity)
    (listenId : Int) {tr : List (Record Gate GateInput Act)} {g : Gate}
    (h : Exec (dispatchSocketMessage md5) FreshAccept (gateInit max listenId) tr g) :
    ∀ front r back, tr = front ++ r :: back →
      (∀ target buf wsz, .send .toServer target buf wsz ∈ r.output →
        ∃ c data, r.input = ⟨.data c data, wsz⟩ ∧ HasDelivered front c md5.client) ∧
      (∀ site target buf wsz, site ≠ .toServer → .send site target buf wsz ∈ r.output →
        ∃ c data, r.input = ⟨.data c data, wsz⟩ ∧ HasDelivered front c md5.server) ∧
      ∀ c buf, .luaDispatch c buf ∈ r.output →
        ∃ data wsz, r.input = ⟨.data c data, wsz⟩ ∧ HasDelivered front c md5.debug := by
  rintro front r back rfl
  obtain ⟨s, hfront, hback⟩ := h.split
  obtain ⟨hpre, -⟩ := hback.cons_inv
  have hex := gate_explained hmd5 hfront
  rw [← hpre] at hex
  obtain ⟨hok, hstep⟩ := gate_record h r (by simp)
  refine ⟨?_, ?_, ?_⟩
  · intro target buf wsz hmem
    obtain ⟨c, data, a, frame, hinput, ha, -, hsend⟩ := (hstep.send_mem_iff hok).mp hmem
    obtain ⟨-, htp, -⟩ := refSend_toServer_iff.mp hsend
    exact ⟨c, data, hinput, hex.hasDelivered ha (by rw [htp]; rfl)⟩
  · intro site target buf wsz hsite hmem
    obtain ⟨c, data, a, frame, hinput, ha, -, hsend⟩ := (hstep.send_mem_iff hok).mp hmem
    have htp : (r.pre.conn a).connTp = .server := by
      cases site with
      | toServer => exact absurd rfl hsite
      | toClient => exact (refSend_toClient_iff.mp hsend).2.1
      | clientGone => exact (refSend_clientGone_iff.mp hsend).2.1
    exact ⟨c, data, hinput, hex.hasDelivered ha (by rw [htp]; rfl)⟩
  · intro c buf hmem
    obtain ⟨data, wsz, a, hinput, ha, htp⟩ := hstep.lua_mem hmem
    exact ⟨data, wsz, hinput, hex.hasDelivered ha (by rw [htp]; rfl)⟩

theorem gatewayMd5_zeroFree : gatewayMd5.ZeroFree := by
  intro tp str hstr
  cases tp with
  | zero => simp [HandshakeMd5.of] at hstr
  | client =>
    obtain rfl := Option.some.inj hstr
    decide
  | server =>
    obtain rfl := Option.some.inj hstr
    decide
  | debug =>
    obtain rfl := Option.some.inj hstr
    decide

/-- Connection 5 is closed and accepted again; its frame is forwarded after a second handshake. -/
theorem relayed_after_second_accept :
    ∃ front r g, Exec (dispatchSocketMessage gatewayMd5) FreshAccept (gateInit ⟨2, by decide⟩ 7) (front ++ [r]) g ∧
      .send .toServer 4 (package 5 1 [8, 9]) 0 ∈ r.output ∧
      HasDelivered front 5 gatewayMd5.client := by
  have hrun : ((execute (dispatchSocketMessage gatewayMd5) FreshAccept (gateInit ⟨2, by decide⟩ 7)
      [⟨.accept 7 4, 0⟩, ⟨.data 4 (handshakePackage 3 gatewayMd5.server), 0⟩, ⟨.accept 7 5, 0⟩,
        ⟨.close 5, 0⟩, ⟨.accept 7 5, 0⟩, ⟨.data 5 (handshakePackage 3 gatewayMd5.client), 0⟩,
        ⟨.data 5 (package 0 1 [8, 9]), 0⟩]).map fun run =>
      run.1.getLast?.map fun r => (r.input, decide (.send .toServer 4 (package 5 1 [8, 9]) 0 ∈ r.output))) =
      some (some (⟨.data 5 (package 0 1 [8, 9]), 0⟩, true)) := by decide +kernel
  obtain ⟨tr, g, h, hdata⟩ := exists_exec _ hrun
  obtain ⟨r, hlast, hr⟩ := Option.map_eq_some_iff.mp hdata
  obtain ⟨front, rfl⟩ := List.getLast?_eq_some_iff.mp hlast
  obtain ⟨hinput, hmem⟩ := Prod.mk.inj hr
  have hmem := of_decide_eq_true hmem
  have hall := relayed_after_handshake gatewayMd5 gatewayMd5_zeroFree _ 7 h front r [] rfl
  obtain ⟨c, data, hdata, hdelivered⟩ := hall.1 _ _ _ hmem
  rw [hinput] at hdata
  obtain ⟨rfl, -⟩ := GateMessage.data.inj (GateInput.mk.inj hdata).1
  exact ⟨front, r, g, h, hmem, hdelivered⟩

end NetgameFormal

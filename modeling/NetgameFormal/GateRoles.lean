import NetgameFormal.GateFrames

/-!
# Roles and rejected connections

The role of a connection stands in its slot, the server id in the gateway. The
handshakes after which the two still agree, and the frames to which a rejected
connection stays deaf, are characterised exactly.
-/

set_option autoImplicit false

namespace NetgameFormal

/-- The role that the body of a handshake frame asks for; `zero` when it is rejected. -/
def frameRole (md5 : HandshakeMd5) (frame : List Byte) : ConnTp :=
  if presents md5.client frame then .client
  else if presents md5.server frame then .server
  else if presents md5.debug frame then .debug
  else .zero

variable {md5 : HandshakeMd5} {g g' : Gate} {i : GateInput} {o : List Act} {id : Int} {a : Nat}
variable {c : RefConn}

theorem refHandshake_eq (md5 : HandshakeMd5) (tp : ConnTp) (sid id : Int) (frame : List Byte) :
    refHandshake md5 tp sid id frame =
      match frameRole md5 frame with
      | .client => ⟨.client, sid, false, false, [.malloc .device]⟩
      | .server =>
        if sid > 0 then ⟨.server, sid, true, false, [.malloc .device, .close id]⟩
        else ⟨.server, id, false, false, [.malloc .device]⟩
      | .debug => ⟨.debug, sid, false, false, [.malloc .device]⟩
      | .zero => ⟨tp, sid, true, false, [.malloc .device, .close id]⟩ := by
  unfold refHandshake frameRole
  cases presents md5.client frame with
  | true => rfl
  | false =>
    cases presents md5.server frame with
    | true => rfl
    | false => cases presents md5.debug frame <;> rfl

theorem refFrame_roles (md5 : HandshakeMd5) (tp : ConnTp) (sid id : Int) (routes : Bool)
    (frame : List Byte) (wsz : Int) :
    ((refFrame md5 tp sid id routes frame wsz).connTp, (refFrame md5 tp sid id routes frame wsz).sid) =
      if isHandshake frame then
        match frameRole md5 frame with
        | .client => (.client, sid)
        | .server => (.server, if sid > 0 then sid else id)
        | .debug => (.debug, sid)
        | .zero => (tp, sid)
      else (tp, sid) := by
  unfold refFrame
  split
  · rw [refHandshake_eq]
    cases frameRole md5 frame with
    | client => rfl
    | server => by_cases hpos : sid > 0 <;> simp [hpos]
    | debug => rfl
    | zero => rfl
  · rw [refHandlemsg_connTp, refHandlemsg_sid]

/-! ## One server -/

/-- A live connection has role `'S'` if and only if its id is the server id. -/
def OneServer (g : Gate) : Prop :=
  ∀ id a, g.hash.Holds id a → ((g.conn a).connTp = .server ↔ id = g.sid)

/-- A completed handshake frame asks for a role that agrees with the server id. -/
def HandshakeFits (md5 : HandshakeMd5) (g : Gate) (i : GateInput) : Prop :=
  match i.msg with
  | .data id data => ∀ a frame, g.hash.Holds id a → ((g.view a).take data).2 = some frame →
      isHandshake frame = true →
      match frameRole md5 frame with
      | .client => id ≠ g.sid
      | .server => g.sid ≤ 0 ∨ id = g.sid
      | .debug => id ≠ g.sid
      | .zero => True
  | _ => True

def RoleFits (sid id : Int) : ConnTp → Prop
  | .client => id ≠ sid
  | .server => sid ≤ 0 ∨ id = sid
  | .debug => id ≠ sid
  | .zero => True

theorem Gate.Rewrites.connTp_self (hw : g.Rewrites g' a c) : (g'.conn a).connTp = c.connTp :=
  congrArg RefConn.connTp hw.here

theorem OneServer.same_sid (hone : OneServer g) (hw : g.Rewrites g' a c)
    (ha : g.hash.Holds id a) (hsid : g'.sid = g.sid) :
    OneServer g' ↔ (c.connTp = .server ↔ id = g.sid) := by
  have htp := hw.connTp_self
  constructor
  · intro h
    have hself := h id a (hw.hash ▸ ha)
    rwa [htp, hsid] at hself
  · intro hself id' b hb
    rw [hw.hash] at hb
    rw [hsid]
    by_cases hba : b = a
    · subst hba
      obtain rfl := ha.id_eq hb
      rw [htp]
      exact hself
    · rw [hw.elsewhere b hba]
      exact hone id' b hb

theorem OneServer.new_sid (hone : OneServer g) (hok : GateOk g) (hw : g.Rewrites g' a c)
    (ha : g.hash.Holds id a) (htp : c.connTp = .server) (hnone : g.sid ≤ 0) (hsid : g'.sid = id) :
    OneServer g' := by
  intro id' b hb
  rw [hw.hash] at hb
  rw [hsid]
  by_cases hba : b = a
  · subst hba
    obtain rfl := ha.id_eq hb
    rw [hw.connTp_self, htp]
    simp
  · have hpos := hok.positive id' b hb
    rw [hw.elsewhere b hba, hone id' b hb]
    constructor
    · intro heq
      omega
    · intro heq
      subst heq
      exact absurd (hok.hash.distinct hb ha) hba

theorem handshakeFits_iff (hok : GateOk g) {data frame : List Byte} {wsz : Int}
    (ha : g.hash.Holds id a) (htake : ((g.view a).take data).2 = some frame)
    (hshake : isHandshake frame = true) :
    HandshakeFits md5 g ⟨.data id data, wsz⟩ ↔ RoleFits g.sid id (frameRole md5 frame) := by
  constructor
  · intro h
    exact h a frame ha htake hshake
  · intro h b frame' hb htake' _
    obtain rfl := hok.hash.distinct ha hb
    obtain rfl := Option.some.inj (htake.symm.trans htake')
    exact h

theorem handshakeFits_of_not (hok : GateOk g) {data : List Byte} {wsz : Int}
    (ha : g.hash.Holds id a)
    (hnone : ∀ frame, ((g.view a).take data).2 = some frame → isHandshake frame = false) :
    HandshakeFits md5 g ⟨.data id data, wsz⟩ := by
  intro b frame hb htake hshake
  obtain rfl := hok.hash.distinct ha hb
  rw [hnone frame htake] at hshake
  exact absurd hshake (by simp)

theorem OneServer.handshake_iff (hone : OneServer g) (hok : GateOk g) (ha : g.hash.Holds id a)
    (hw : g.Rewrites g' a c) (role : ConnTp)
    (hroles : (c.connTp, g'.sid) =
      match role with
      | .client => (.client, g.sid)
      | .server => (.server, if g.sid > 0 then g.sid else id)
      | .debug => (.debug, g.sid)
      | .zero => ((g.conn a).connTp, g.sid)) :
    OneServer g' ↔ RoleFits g.sid id role := by
  cases role with
  | client =>
    obtain ⟨htp, hsid⟩ := Prod.mk.inj hroles
    rw [hone.same_sid hw ha hsid, htp]
    simp [RoleFits]
  | debug =>
    obtain ⟨htp, hsid⟩ := Prod.mk.inj hroles
    rw [hone.same_sid hw ha hsid, htp]
    simp [RoleFits]
  | zero =>
    obtain ⟨htp, hsid⟩ := Prod.mk.inj hroles
    rw [hone.same_sid hw ha hsid, htp]
    exact ⟨fun _ => trivial, fun _ => hone id a ha⟩
  | server =>
    obtain ⟨htp, hsid⟩ := Prod.mk.inj hroles
    by_cases hpos : g.sid > 0
    · rw [if_pos hpos] at hsid
      rw [hone.same_sid hw ha hsid, htp]
      simp only [true_iff, RoleFits]
      constructor
      · intro heq
        exact Or.inr heq
      · intro hor
        apply hor.resolve_left
        omega
    · rw [if_neg hpos] at hsid
      have hle : g.sid ≤ 0 := by omega
      have hnew := hone.new_sid hok hw ha htp hle hsid
      exact ⟨fun _ => Or.inl hle, fun _ => hnew⟩

theorem OneServer.message_iff (hone : OneServer g) (hok : GateOk g) {data : List Byte} {wsz : Int}
    (ha : g.hash.Holds id a)
    (hw : g.Rewrites g' a ((g.view a).message md5 g.routes g.sid id data wsz).conn)
    (hsid : g'.sid = ((g.view a).message md5 g.routes g.sid id data wsz).sid) :
    OneServer g' ↔ HandshakeFits md5 g ⟨.data id data, wsz⟩ := by
  have hself : (g.view a).connTp = .server ↔ id = g.sid := hone id a ha
  rcases htake : (g.view a).take data with ⟨receiver, _ | frame⟩
  · rw [RefConn.message_none htake] at hw hsid
    have hfits : HandshakeFits md5 g ⟨.data id data, wsz⟩ := by
      apply handshakeFits_of_not hok ha
      intro frame hframe
      simp [htake] at hframe
    rw [hone.same_sid hw ha hsid]
    exact ⟨fun _ => hfits, fun _ => hself⟩
  rw [RefConn.message_some htake] at hw hsid
  have htake' : ((g.view a).take data).2 = some frame := by rw [htake]
  have hroles := refFrame_roles md5 (g.view a).connTp g.sid id (g.routes (readBlock frame 2)) frame wsz
  generalize refFrame md5 (g.view a).connTp g.sid id (g.routes (readBlock frame 2)) frame wsz = out
    at hw hsid hroles
  simp only at hw hsid
  rw [← hsid] at hroles
  cases hshake : isHandshake frame with
  | false =>
    simp only [hshake, Bool.false_eq_true, if_false, Prod.mk.injEq] at hroles
    have hfits : HandshakeFits md5 g ⟨.data id data, wsz⟩ := by
      apply handshakeFits_of_not hok ha
      intro frame' hframe'
      obtain rfl := Option.some.inj (htake'.symm.trans hframe')
      exact hshake
    rw [hone.same_sid hw ha hroles.2, hroles.1]
    exact ⟨fun _ => hfits, fun _ => hself⟩
  | true =>
    simp only [hshake, if_true] at hroles
    rw [handshakeFits_iff hok ha htake' hshake]
    exact hone.handshake_iff hok ha hw (frameRole md5 frame) hroles

theorem OneServer.removed (hone : OneServer g) (hok : GateOk g) (ha : g.hash.Holds id a)
    (hr : g.Reslots g' a (-1)) (hsid : g'.sid = if id = g.sid then -1 else g.sid) :
    OneServer g' := by
  intro id' b hb
  obtain ⟨hba, hb'⟩ := hr.holds_of_free hb
  have hpos := hok.positive id' b hb'
  rw [hr.conn_of_ne hba, hone id' b hb', hsid]
  by_cases hs : id = g.sid
  · rw [if_pos hs]
    have hne : id' ≠ g.sid := by
      intro heq
      exact hba (hok.hash.distinct (heq ▸ hb') (hs ▸ ha))
    constructor
    · intro heq
      exact absurd heq hne
    · intro heq
      omega
  · rw [if_neg hs]

theorem OneServer.accepted (hone : OneServer g) (hok : GateOk g) {ud : Int} (hpos : 0 < ud)
    (habsent : ∀ b, ¬ g.hash.Holds ud b) (hr : g.Reslots g' a ud) (hsid : g'.sid = g.sid) :
    OneServer g' := by
  intro id' b hb
  rw [hsid]
  by_cases hba : b = a
  · subst hba
    have hid : id' = ud := hb.2.1.symm.trans hr.set.here
    subst hid
    rw [hr.conn_self]
    constructor
    · intro htp
      simp [Connection.free] at htp
    · intro heq
      obtain ⟨e, he⟩ := hok.server (heq ▸ hpos)
      exact absurd (heq ▸ he) (habsent e)
  · rw [hr.conn_of_ne hba]
    exact hone id' b ((hr.set.holds_iff hba).mp hb)

/-- The step lemma: roles and server id agree after a step exactly when its handshake fits. -/
theorem GateStep.oneServer_iff (hok : GateOk g) (hone : OneServer g) (h : GateStep md5 g i g' o) :
    OneServer g' ↔ HandshakeFits md5 g i := by
  cases h with
  | message ha hw hsid => exact hone.message_iff hok ha hw hsid
  | unknown habsent =>
    refine ⟨fun _ b _ hb => ?_, fun _ => hone⟩
    exact absurd hb (habsent b)
  | connect _ => exact ⟨fun _ => trivial, fun _ => hone⟩
  | stranger _ _ => exact ⟨fun _ => trivial, fun _ => hone⟩
  | remove hmsg ha hr hsid =>
    have hfits := hone.removed hok ha hr hsid
    rcases hmsg with rfl | rfl <;> exact ⟨fun _ => trivial, fun _ => hfits⟩
  | gone hmsg _ => rcases hmsg with rfl | rfl <;> exact ⟨fun _ => trivial, fun _ => hone⟩
  | refuse _ => exact ⟨fun _ => trivial, fun _ => hone⟩
  | accept _ hpos habsent _ hr hsid =>
    exact ⟨fun _ => trivial, fun _ => hone.accepted hok hpos habsent hr hsid⟩

theorem gateInit_oneServer (max : Capacity) (listenId : Int) : OneServer (gateInit max listenId) := by
  rintro id a ⟨-, ha, hid⟩
  exact absurd ha.symm hid

/-- Roles and server id agree in every state of a run exactly when all its handshakes fit. -/
theorem one_server_iff (md5 : HandshakeMd5) (max : Capacity) (listenId : Int)
    {tr : List (Record Gate GateInput Act)} {g : Gate}
    (h : Exec (dispatchSocketMessage md5) FreshAccept (gateInit max listenId) tr g) :
    (∀ r ∈ tr, OneServer r.post) ↔ ∀ r ∈ tr, HandshakeFits md5 r.pre r.input := by
  apply h.always_iff GateOk OneServer (HandshakeFits md5) (gateInit_ok max listenId)
    (gateInit_oneServer max listenId)
  · intro g i g' o hok hfresh hrun
    exact (dispatch_step hok hfresh hrun).ok hok
  · intro g i g' o hok hone hfresh hrun
    exact (dispatch_step hok hfresh hrun).oneServer_iff hok hone

theorem one_server_first_handshakes :
    ∃ tr g, Exec (dispatchSocketMessage gatewayMd5) FreshAccept (gateInit ⟨2, by decide⟩ 7) tr g ∧
      (tr.length, g.sid) = (4, 5) ∧ ∀ r ∈ tr, HandshakeFits gatewayMd5 r.pre r.input := by
  have hrun : ((execute (dispatchSocketMessage gatewayMd5) FreshAccept (gateInit ⟨2, by decide⟩ 7)
      [⟨.accept 7 5, 0⟩, ⟨.data 5 (handshakePackage 3 gatewayMd5.server), 0⟩, ⟨.accept 7 6, 0⟩,
        ⟨.data 6 (handshakePackage 3 gatewayMd5.client), 0⟩]).map fun run =>
      decide ((run.1.length, run.2.sid) = (4, 5)) &&
        run.1.all fun r => decide (∀ a, a < r.post.hash.cap → (r.post.hash.id a).id ≠ -1 →
          ((r.post.conn a).connTp = .server ↔ (r.post.hash.id a).id = r.post.sid))) =
      some true := by decide +kernel
  obtain ⟨tr, g, h, hdata⟩ := exists_exec _ hrun
  simp only [Bool.and_eq_true, decide_eq_true_eq, List.all_eq_true] at hdata
  obtain ⟨hend, hall⟩ := hdata
  refine ⟨tr, g, h, hend, (one_server_iff gatewayMd5 _ 7 h).mp ?_⟩
  rintro r hr id a ⟨ha, rfl, hne⟩
  exact hall r hr a ha hne

/-- A second connection with the server's string is rejected, and has role `'S'` all the same. -/
theorem rejected_server_has_role :
    ∃ tr g, Exec (dispatchSocketMessage gatewayMd5) FreshAccept (gateInit ⟨2, by decide⟩ 7) tr g ∧
      g.sid = 5 ∧ g.hash.Holds 6 0 ∧ (g.conn 0).connTp = .server := by
  have hrun : ((execute (dispatchSocketMessage gatewayMd5) FreshAccept (gateInit ⟨2, by decide⟩ 7)
      [⟨.accept 7 5, 0⟩, ⟨.data 5 (handshakePackage 3 gatewayMd5.server), 0⟩, ⟨.accept 7 6, 0⟩,
        ⟨.data 6 (handshakePackage 3 gatewayMd5.server), 0⟩]).map fun run =>
      decide (run.2.sid = 5) && decide (run.2.hash.Holds 6 0) &&
        decide ((run.2.conn 0).connTp = .server)) = some true := by decide +kernel
  obtain ⟨tr, g, h, hdata⟩ := exists_exec _ hrun
  simp only [Bool.and_eq_true, decide_eq_true_eq, and_assoc] at hdata
  exact ⟨tr, g, h, hdata⟩

/-! ## Rejected connections -/

/-- The `_clear` path was taken for `c`, and its close or error event has not arrived since. -/
def Condemned (tr : List (Record Gate GateInput Act)) (c : Int) : Prop :=
  ∃ front r back data wsz, tr = front ++ r :: back ∧ r.input = ⟨.data c data, wsz⟩ ∧
    (∃ a, r.pre.hash.Holds c a) ∧ .close c ∈ r.output ∧
    ∀ q ∈ back, q.input.msg ≠ .close c ∧ q.input.msg ≠ .error c

/-- The step leaves the server id and the role of `c`, sends nothing and calls no script. -/
structure StaysDead (c : Int) (g g' : Gate) (o : List Act) : Prop where
  sid : g'.sid = g.sid
  connTp : ∀ a, g.hash.Holds c a → (g'.conn a).connTp = (g.conn a).connTp
  sends : ∀ site target buf w, .send site target buf w ∉ o
  script : ∀ j buf, .luaDispatch j buf ∉ o

/-- A frame that the chunk completes is a handshake for the role the connection has,
or a rejected one, or a frame for which the connection has no role or no server. -/
def Inert (md5 : HandshakeMd5) (g : Gate) (c : Int) (data : List Byte) : Prop :=
  ∀ a frame, g.hash.Holds c a → ((g.view a).take data).2 = some frame →
    if isHandshake frame then
      match frameRole md5 frame with
      | .client => (g.conn a).connTp = .client
      | .server => (g.conn a).connTp = .server ∧ 0 < g.sid
      | .debug => (g.conn a).connTp = .debug
      | .zero => True
    else (g.conn a).connTp = .zero ∨ (g.conn a).connTp = .client ∧ g.sid ≤ 0

theorem roles_stay_iff (md5 : HandshakeMd5) (tp : ConnTp) (sid : Int) {id : Int} (hid : 0 < id)
    (routes : Bool) (frame : List Byte) (wsz : Int) :
    (refFrame md5 tp sid id routes frame wsz).sid = sid ∧
        (refFrame md5 tp sid id routes frame wsz).connTp = tp ↔
      (isHandshake frame = true →
        match frameRole md5 frame with
        | .client => tp = .client
        | .server => tp = .server ∧ 0 < sid
        | .debug => tp = .debug
        | .zero => True) := by
  have hroles := refFrame_roles md5 tp sid id routes frame wsz
  generalize refFrame md5 tp sid id routes frame wsz = out at hroles
  cases hshake : isHandshake frame with
  | false =>
    simp only [hshake, Bool.false_eq_true, if_false, Prod.mk.injEq] at hroles
    simp [hroles]
  | true =>
    simp only [hshake, if_true] at hroles
    cases hrole : frameRole md5 frame with
    | client =>
      simp only [hrole, Prod.mk.injEq] at hroles
      simp [hroles, eq_comm]
    | server =>
      simp only [hrole, Prod.mk.injEq] at hroles
      by_cases hpos : 0 < sid
      · simp [hroles, hpos, eq_comm]
      · have hne : id ≠ sid := by omega
        simp [hroles, hpos, hne]
    | debug =>
      simp only [hrole, Prod.mk.injEq] at hroles
      simp [hroles, eq_comm]
    | zero =>
      simp only [hrole, Prod.mk.injEq] at hroles
      simp [hroles]

theorem GateStep.staysDead_iff (hok : GateOk g) {c wsz : Int} {data : List Byte}
    (h : GateStep md5 g ⟨.data c data, wsz⟩ g' o) : StaysDead c g g' o ↔ Inert md5 g c data := by
  rcases h.data_inv with ⟨a, ha, hw, hsid, ho⟩ | ⟨habsent, hg, ho⟩
  · subst ho
    have htp : ∀ b, g.hash.Holds c b → b = a := fun b hb => hok.hash.distinct hb ha
    rcases htake : (g.view a).take data with ⟨receiver, _ | frame⟩
    · rw [RefConn.message_none htake] at hw hsid ⊢
      constructor
      · intro _ b frame hb hframe
        rw [htp b hb, htake] at hframe
        simp at hframe
      · intro _
        refine ⟨hsid, fun b hb => ?_, by simp, by simp⟩
        rw [htp b hb]
        exact hw.connTp_self
    · rw [RefConn.message_some htake] at hw hsid ⊢
      have hstay := roles_stay_iff md5 (g.conn a).connTp g.sid (hok.positive c a ha)
        (g.routes (readBlock frame 2)) frame wsz
      have hview : (g.view a).connTp = (g.conn a).connTp := rfl
      simp only [hview] at hw hsid ⊢
      constructor
      · intro hdead b frame' hb hframe'
        obtain rfl := htp b hb
        obtain rfl : frame = frame' := by simpa [htake] using hframe'
        have hkept := hstay.mp
          ⟨hsid.symm.trans hdead.sid, hw.connTp_self.symm.trans (hdead.connTp b hb)⟩
        have hquiet := silent_iff.mp ⟨hdead.sends, hdead.script⟩
        split
        · next hshake => exact hkept hshake
        · next hshake => exact hquiet.resolve_left hshake
      · intro hinert
        have hframe := hinert a frame ha (by rw [htake])
        have hkept := hstay.mpr fun hshake => by rwa [if_pos hshake] at hframe
        have hquiet : isHandshake frame = true ∨ (g.conn a).connTp = .zero ∨
            (g.conn a).connTp = .client ∧ g.sid ≤ 0 := by
          by_cases hshake : isHandshake frame = true
          · exact Or.inl hshake
          · rw [if_neg hshake] at hframe
            exact Or.inr hframe
        obtain ⟨hsend, hlua⟩ := silent_iff.mpr hquiet
        refine ⟨hsid.trans hkept.1, fun b hb => ?_, hsend, hlua⟩
        obtain rfl := htp b hb
        exact hw.connTp_self.trans hkept.2
  · subst hg
    subst ho
    constructor
    · intro _ a frame ha
      exact absurd ha (habsent a)
    · intro _
      exact ⟨rfl, fun _ _ => rfl, by simp, by simp⟩

/-- Rejected connections stay dead in a run exactly when all their later frames are inert. -/
theorem condemned_stays_dead_iff (md5 : HandshakeMd5) (max : Capacity) (listenId : Int)
    {tr : List (Record Gate GateInput Act)} {g : Gate}
    (h : Exec (dispatchSocketMessage md5) FreshAccept (gateInit max listenId) tr g) :
    (∀ front r back, tr = front ++ r :: back → ∀ c data wsz, r.input = ⟨.data c data, wsz⟩ →
        Condemned front c → StaysDead c r.pre r.post r.output) ↔
      ∀ front r back, tr = front ++ r :: back → ∀ c data wsz, r.input = ⟨.data c data, wsz⟩ →
        Condemned front c → Inert md5 r.pre c data := by
  have hstep : ∀ front r back, tr = front ++ r :: back → ∀ c data wsz,
      r.input = ⟨.data c data, wsz⟩ →
      (StaysDead c r.pre r.post r.output ↔ Inert md5 r.pre c data) := by
    intro front r back htr c data wsz hinput
    obtain ⟨hok, hrec⟩ := gate_record h r (by simp [htr])
    rw [hinput] at hrec
    exact hrec.staysDead_iff hok
  constructor
  · intro hdead front r back htr c data wsz hinput hc
    exact (hstep front r back htr c data wsz hinput).mp (hdead front r back htr c data wsz hinput hc)
  · intro hinert front r back htr c data wsz hinput hc
    exact (hstep front r back htr c data wsz hinput).mpr
      (hinert front r back htr c data wsz hinput hc)

theorem condemned_second_attempt :
    ∃ front r g, Exec (dispatchSocketMessage gatewayMd5) FreshAccept (gateInit ⟨2, by decide⟩ 7) (front ++ [r]) g ∧
      r.input = ⟨.data 5 (handshakePackage 3 [1, 2, 3]), 0⟩ ∧ Condemned front 5 ∧
      Inert gatewayMd5 r.pre 5 (handshakePackage 3 [1, 2, 3]) := by
  let again : GateInput := ⟨.data 5 (handshakePackage 3 [1, 2, 3]), 0⟩
  have hrun : ((execute (dispatchSocketMessage gatewayMd5) FreshAccept (gateInit ⟨2, by decide⟩ 7)
      [⟨.accept 7 5, 0⟩, again, again]).map fun run =>
      decide (run.1.map Record.input = [⟨.accept 7 5, 0⟩, again, again]) &&
        decide (run.1.map (fun r => r.output.filter Act.visible) =
          [[.start 5], [.close 5], [.close 5]]) &&
        decide (run.1.map (fun r => decide (r.pre.hash.Holds 5 1)) = [false, true, true]) &&
        run.1.all fun r => decide (r.post.sid = r.pre.sid ∧
          ∀ a, a < r.pre.hash.cap → (r.post.conn a).connTp = (r.pre.conn a).connTp)) =
      some true := by decide +kernel
  obtain ⟨tr, g, h, hdata⟩ := exists_exec _ hrun
  simp only [Bool.and_eq_true, decide_eq_true_eq, List.all_eq_true, and_assoc] at hdata
  obtain ⟨hinputs, houtputs, hlive, hkept⟩ := hdata
  obtain ⟨r₀, r₁, r₂, rfl⟩ : ∃ r₀ r₁ r₂, tr = [r₀, r₁, r₂] := by
    apply List.length_eq_three.mp
    simpa using congrArg List.length hinputs
  simp only [List.map_cons, List.map_nil, List.cons.injEq, and_true, decide_eq_true_eq]
    at hinputs houtputs hlive
  have hquiet : ∀ r ∈ [r₀, r₁, r₂], ∀ x ∈ r.output, x.visible = true →
      x = .start 5 ∨ x = .close 5 := by
    intro r hr x hx hvis
    have hmem := List.mem_filter.mpr ⟨hx, hvis⟩
    simp only [List.mem_cons, List.not_mem_nil, or_false] at hr
    rcases hr with rfl | rfl | rfl
    · rw [houtputs.1] at hmem
      exact Or.inl (List.mem_singleton.mp hmem)
    · rw [houtputs.2.1] at hmem
      exact Or.inr (List.mem_singleton.mp hmem)
    · rw [houtputs.2.2] at hmem
      exact Or.inr (List.mem_singleton.mp hmem)
  have hdead : ∀ r ∈ [r₀, r₁, r₂], ∀ c, StaysDead c r.pre r.post r.output := by
    intro r hr c
    refine ⟨(hkept r hr).1, fun a ha => (hkept r hr).2 a ha.1, ?_, ?_⟩
    · intro site target buf w hx
      rcases hquiet r hr _ hx rfl with heq | heq <;> cases heq
    · intro j buf hx
      rcases hquiet r hr _ hx rfl with heq | heq <;> cases heq
  have hcondemned : Condemned [r₀, r₁] 5 := by
    refine ⟨[r₀], r₁, [], _, 0, rfl, hinputs.2.1, ⟨1, hlive.2.1⟩, ?_, by simp⟩
    have hmem : .close 5 ∈ r₁.output.filter Act.visible := by
      rw [houtputs.2.1]
      simp
    exact List.mem_of_mem_filter hmem
  refine ⟨[r₀, r₁], r₂, g, h, hinputs.2.2, hcondemned, ?_⟩
  apply (condemned_stays_dead_iff gatewayMd5 _ 7 h).mp _ [r₀, r₁] r₂ [] rfl 5 _ 0 hinputs.2.2 hcondemned
  intro front r back htr c _ _ _ _
  apply hdead r _ c
  rw [htr]
  simp

/-- A rejected connection that comes back with the server's string becomes the server. -/
theorem condemned_becomes_server :
    ∃ front r g, Exec (dispatchSocketMessage gatewayMd5) FreshAccept (gateInit ⟨2, by decide⟩ 7) (front ++ [r]) g ∧
      r.input = ⟨.data 5 (handshakePackage 3 gatewayMd5.server), 0⟩ ∧ Condemned front 5 ∧
      r.pre.sid = 0 ∧ r.post.sid = 5 ∧ r.post.hash.Holds 5 1 ∧ (r.post.conn 1).connTp = .server := by
  let wrong : GateInput := ⟨.data 5 (handshakePackage 3 [1, 2, 3]), 0⟩
  let again : GateInput := ⟨.data 5 (handshakePackage 3 gatewayMd5.server), 0⟩
  have hrun : ((execute (dispatchSocketMessage gatewayMd5) FreshAccept (gateInit ⟨2, by decide⟩ 7)
      [⟨.accept 7 5, 0⟩, wrong, again]).map fun run =>
      decide (run.1.map Record.input = [⟨.accept 7 5, 0⟩, wrong, again]) &&
        decide (run.1.map (fun r => r.output.filter Act.visible) = [[.start 5], [.close 5], []]) &&
        decide (run.1.map (fun r => decide (r.pre.hash.Holds 5 1)) = [false, true, true]) &&
        decide (run.1.map (fun r => (r.pre.sid, r.post.sid)) = [(0, 0), (0, 0), (0, 5)]) &&
        decide (run.1.map (fun r => (decide (r.post.hash.Holds 5 1), (r.post.conn 1).connTp)) =
          [(true, .zero), (true, .zero), (true, .server)])) =
      some true := by decide +kernel
  obtain ⟨tr, g, h, hdata⟩ := exists_exec _ hrun
  simp only [Bool.and_eq_true, decide_eq_true_eq, and_assoc] at hdata
  obtain ⟨hinputs, houtputs, hlive, hsids, hend⟩ := hdata
  obtain ⟨r₀, r₁, r₂, rfl⟩ : ∃ r₀ r₁ r₂, tr = [r₀, r₁, r₂] := by
    apply List.length_eq_three.mp
    simpa using congrArg List.length hinputs
  simp only [List.map_cons, List.map_nil, List.cons.injEq, and_true, decide_eq_true_eq,
    Prod.mk.injEq] at hinputs houtputs hlive hsids hend
  have hmem : .close 5 ∈ r₁.output.filter Act.visible := by
    rw [houtputs.2.1]
    simp
  have hcondemned : Condemned [r₀, r₁] 5 :=
    ⟨[r₀], r₁, [], _, 0, rfl, hinputs.2.1, ⟨1, hlive.2.1⟩, List.mem_of_mem_filter hmem, by simp⟩
  exact ⟨[r₀, r₁], r₂, g, h, hinputs.2.2, hcondemned, hsids.2.2.1, hsids.2.2.2, hend.2.2.1,
    hend.2.2.2⟩

end NetgameFormal

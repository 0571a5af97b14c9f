import NetgameFormal.GateHistory

/-!
# Who can be the server

The gateway takes a connection for the server because of a string in its bytes,
and for no other reason. So the ids of connections that have never said it are
not in `sid`, and what is sent goes to or comes from one that has.
-/

set_option autoImplicit false

namespace NetgameFormal

/-- A handshake frame with the body `str` occurs in the bytes. -/
def Utters (str bytes : List Byte) : Prop := ∃ frame, HandshakeFrame str frame ∧ frame <:+: bytes

/-- The gateway trusts only connections whose bytes `said` utter the string of the server. -/
structure Trusts (md5 : HandshakeMd5) (said : Int → List Byte) (g : Gate) : Prop where
  sid : 0 < g.sid → Utters md5.server (said g.sid)
  role : ∀ c a, g.hash.Holds c a → (g.conn a).connTp = .server → Utters md5.server (said c)

variable {md5 : HandshakeMd5} {g g' : Gate} {i : GateInput} {o : List Act} {c : Int} {a : Nat}
variable {str bytes bytes' : List Byte} {said : Int → List Byte}

theorem Utters.mono (h : Utters str bytes) (hbytes : bytes <:+: bytes') : Utters str bytes' := by
  obtain ⟨frame, hframe, hinfix⟩ := h
  exact ⟨frame, hframe, hinfix.trans hbytes⟩

theorem Utters.isInfix (h : Utters str bytes) : str <:+: bytes := by
  obtain ⟨frame, ⟨hi, lo, x, y, rfl, -⟩, hinfix⟩ := h
  have hsuffix : str <:+ hi :: lo :: x :: y :: 0#8 :: 100#8 :: str :=
    ⟨[hi, lo, x, y, 0#8, 100#8], rfl⟩
  exact hsuffix.isInfix.trans hinfix

theorem refFrame_server (md5 : HandshakeMd5) (tp : ConnTp) (sid id : Int) (routes : Bool)
    (frame : List Byte) (wsz : Int) :
    (refFrame md5 tp sid id routes frame wsz).sid = sid ∨
      (refFrame md5 tp sid id routes frame wsz).sid = id ∧
        (refFrame md5 tp sid id routes frame wsz).connTp = .server := by
  have hroles := refFrame_roles md5 tp sid id routes frame wsz
  split at hroles
  · cases hrole : frameRole md5 frame with
    | client =>
      simp only [hrole, Prod.mk.injEq] at hroles
      exact .inl hroles.2
    | server =>
      by_cases hpos : sid > 0
      · simp only [hrole, hpos, if_true, Prod.mk.injEq] at hroles
        exact .inl hroles.2
      · simp only [hrole, hpos, if_false, Prod.mk.injEq] at hroles
        exact .inr ⟨hroles.2, hroles.1⟩
    | debug =>
      simp only [hrole, Prod.mk.injEq] at hroles
      exact .inl hroles.2
    | zero =>
      simp only [hrole, Prod.mk.injEq] at hroles
      exact .inl hroles.2
  · exact .inl (congrArg Prod.snd hroles)

theorem RefConn.message_server (md5 : HandshakeMd5) (routes : Int → Bool) (sid id : Int)
    (v : RefConn) (data : List Byte) (wsz : Int) :
    (v.message md5 routes sid id data wsz).sid = sid ∨
      (v.message md5 routes sid id data wsz).sid = id ∧
        (v.message md5 routes sid id data wsz).conn.connTp = .server := by
  rcases htake : v.take data with ⟨receiver, _ | frame⟩
  · rw [RefConn.message_none htake]
    exact .inl rfl
  · rw [RefConn.message_some htake]
    exact refFrame_server md5 v.connTp sid id (routes (readBlock frame 2)) frame wsz

theorem GateStep.new_server (h : GateStep md5 g i g' o) (hpos : 0 < g'.sid) :
    g'.sid = g.sid ∨ ∃ a, g'.hash.Holds g'.sid a ∧ (g'.conn a).connTp = .server := by
  cases h with
  | @message id data wsz a _ ha hw hsid =>
    rcases RefConn.message_server md5 g.routes g.sid id (g.view a) data wsz with hsame | ⟨hnew, htp⟩
    · exact .inl (hsid.trans hsame)
    · rw [hsid, hnew]
      exact .inr ⟨a, hw.hash ▸ ha, hw.connTp_self.trans htp⟩
  | unknown _ => exact .inl rfl
  | connect _ => exact .inl rfl
  | stranger _ _ => exact .inl rfl
  | remove _ _ _ hsid =>
    rw [hsid] at hpos ⊢
    split at hpos
    · omega
    · next hne => exact .inl (if_neg hne)
  | gone _ _ => exact .inl rfl
  | refuse _ => exact .inl rfl
  | accept _ _ _ _ _ hsid => exact .inl hsid

theorem Trusts.mono {said' : Int → List Byte} (h : Trusts md5 said g)
    (hsaid : ∀ c, said c <:+: said' c) : Trusts md5 said' g where
  sid := fun hpos => (h.sid hpos).mono (hsaid g.sid)
  role := fun c a ha htp => (h.role c a ha htp).mono (hsaid c)

theorem Explained.utters {tr : List (Record Gate GateInput Act)} (h : Explained md5 tr g)
    (ha : g.hash.Holds c a) (htp : (g.conn a).connTp = .server) :
    Utters md5.server (bytesOf c tr) := by
  have hstr : md5.of (g.conn a).connTp = some md5.server := by
    rw [htp]
    rfl
  obtain ⟨mid, ⟨front, r, l, rfl, -, -⟩, frame, hframe, hinfix, -⟩ := h.hasDelivered ha hstr
  refine ⟨frame, hframe, hinfix.trans ?_⟩
  rw [bytesOf, bytesOf, List.flatMap_append, List.flatMap_cons, ← List.append_assoc]
  exact (List.suffix_append _ _).isInfix

/-- The run lemma: whom the gateway trusts, given the bytes it has got. -/
theorem gate_trusts (hmd5 : md5.ZeroFree) {max : Capacity} {listenId : Int}
    {tr : List (Record Gate GateInput Act)}
    (h : Exec (dispatchSocketMessage md5) FreshAccept (gateInit max listenId) tr g) :
    Trusts md5 (fun c => bytesOf c tr) g := by
  induction h with
  | nil =>
    refine ⟨fun hpos => absurd hpos (Int.lt_irrefl 0), ?_⟩
    intro c a ha
    exact absurd ha.2.1.symm ha.2.2
  | @snoc tr g g' i o hrun hfresh hstep ih =>
    have hex := gate_explained hmd5 (hrun.snoc hfresh hstep)
    refine ⟨fun hpos => ?_, fun c a ha htp => hex.utters ha htp⟩
    have hgate := dispatch_step (gate_invariant hrun) hfresh hstep
    rcases hgate.new_server hpos with hsame | ⟨a, ha, htp⟩
    · have huttered := ih.sid (hsame ▸ hpos)
      rw [hsame]
      apply huttered.mono
      rw [bytesOf_snoc]
      exact (List.prefix_append _ _).isInfix
    · exact hex.utters ha htp

/-- What is sent goes to the server, or the server has asked for it. -/
theorem Trusts.sends (h : Trusts md5 said g) (hok : GateOk g) (hstep : GateStep md5 g i g' o)
    {site : SendSite} {target : Int} {buf : List Byte} {w : Int}
    (hmem : .send site target buf w ∈ o) :
    Utters md5.server (said target) ∨
      ∃ c data, i.msg = .data c data ∧ Utters md5.server (said c) := by
  obtain ⟨c, data, a, frame, rfl, ha, -, hsend⟩ := (hstep.send_mem_iff hok).mp hmem
  cases site with
  | toServer =>
    obtain ⟨-, -, hpos, rfl, -⟩ := refSend_toServer_iff.mp hsend
    exact .inl (h.sid hpos)
  | toClient =>
    obtain ⟨-, htp, -⟩ := refSend_toClient_iff.mp hsend
    exact .inr ⟨c, data, rfl, h.role c a ha htp⟩
  | clientGone =>
    obtain ⟨-, htp, -⟩ := refSend_clientGone_iff.mp hsend
    exact .inr ⟨c, data, rfl, h.role c a ha htp⟩

end NetgameFormal

import NetgameFormal.RefGate

/-!
# The actions one frame causes

`refVisible` is the exact list of what the outside sees of one frame: sends, close
requests and calls of Lua. The sends are a partial function of the role, the
server id and the frame.
-/

set_option autoImplicit false

namespace NetgameFormal

/-- The one `gate_socket_send` a frame causes, if any: its site, target and buffer. -/
def refSend (tp : ConnTp) (sid id : Int) (routes : Bool) (frame : List Byte) :
    Option (SendSite × Int × List Byte) :=
  if isHandshake frame then none
  else
    match tp with
    | .client => if sid > 0 then some (.toServer, sid, writeBlock frame id 2) else none
    | .server =>
      if routes then some (.toClient, readBlock frame 2, writeBlock frame sid 2)
      else some (.clientGone, sid, goneNotice (readBlock frame 2))
    | .debug => none
    | .zero => none

/-- Actions the outside sees, as opposed to the calls and allocations behind them. -/
def Act.visible : Act → Bool
  | .handshake _ _ => false
  | .handlemsg _ _ => false
  | .malloc _ => false
  | .free _ => false
  | .send _ _ _ _ => true
  | .close _ => true
  | .start _ => true
  | .luaDispatch _ _ => true

def refVisible (md5 : HandshakeMd5) (tp : ConnTp) (sid id : Int) (routes : Bool)
    (frame : List Byte) (wsz : Int) : List Act :=
  if isHandshake frame then
    if (refHandshake md5 tp sid id frame).clears then [.close id] else []
  else
    match refSend tp sid id routes frame with
    | some (site, target, buf) => [.send site target buf wsz]
    | none => if tp = .debug then [.luaDispatch id (frame.drop 2)] else [.close id]

/-- The frame of connection `id` that a call of one of the two handlers passes on. -/
def Act.handed (id : Int) : Act → Option (List Byte)
  | .handshake j frame => if j = id then some frame else none
  | .handlemsg j frame => if j = id then some frame else none
  | .malloc _ => none
  | .free _ => none
  | .send _ _ _ _ => none
  | .close _ => none
  | .start _ => none
  | .luaDispatch _ _ => none

def handedOn (id : Int) (acts : List Act) : List (List Byte) := acts.filterMap (Act.handed id)

@[simp] theorem handedOn_nil (id : Int) : handedOn id [] = [] := rfl

@[simp] theorem handedOn_append (id : Int) (o o' : List Act) :
    handedOn id (o ++ o') = handedOn id o ++ handedOn id o' := by
  simp [handedOn]

section
variable (md5 : HandshakeMd5) (tp : ConnTp) (sid id : Int) (routes : Bool) (frame : List Byte)
variable (wsz : Int)

/-- A handshake allocates the device string and may ask for a close, nothing else. -/
theorem refHandshake_acts :
    (refHandshake md5 tp sid id frame).acts =
        .malloc .device :: (if (refHandshake md5 tp sid id frame).clears then [.close id] else []) ∧
      (refHandshake md5 tp sid id frame).taken = false := by
  unfold refHandshake
  split
  · exact ⟨rfl, rfl⟩
  split
  · split <;> exact ⟨rfl, rfl⟩
  split <;> exact ⟨rfl, rfl⟩

theorem gateSocketSend_acts (site : SendSite) (target : Int) (buf : List Byte) :
    (gateSocketSend site target buf wsz).2 =
      .send site target buf wsz :: if wsz < 0 then [.free site.buffer] else [] := by
  unfold gateSocketSend
  split <;> rfl

theorem refFrame_allActs :
    (refFrame md5 tp sid id routes frame wsz).allActs =
      if isHandshake frame then
        [.malloc .frame, .handshake id frame, .malloc .device] ++
          (if (refHandshake md5 tp sid id frame).clears then [.close id] else []) ++ [.free .frame]
      else
        [.malloc .frame, .handlemsg id frame] ++
          (refHandlemsg tp sid id routes frame wsz).acts ++
          (if (refHandlemsg tp sid id routes frame wsz).taken then [] else [.free .frame]) := by
  obtain ⟨hacts, htaken⟩ := refHandshake_acts md5 tp sid id frame
  unfold refFrame Outcome.allActs
  split
  · simp only [hacts, htaken]
    rfl
  · rfl

theorem visible_gateSocketSend (site : SendSite) (target : Int) (buf : List Byte) :
    (gateSocketSend site target buf wsz).2.filter Act.visible = [.send site target buf wsz] := by
  rw [gateSocketSend_acts]
  split <;> rfl

theorem visible_allActs :
    (refFrame md5 tp sid id routes frame wsz).allActs.filter Act.visible =
      refVisible md5 tp sid id routes frame wsz := by
  have hrelease : ∀ taken : Bool,
      (if taken then [] else [Act.free .frame]).filter Act.visible = [] := by
    intro taken
    cases taken <;> rfl
  rw [refFrame_allActs]
  unfold refVisible refSend
  by_cases hshake : isHandshake frame = true
  · simp only [hshake, if_true, List.filter_append]
    split <;> rfl
  simp only [hshake, Bool.false_eq_true, if_false, List.filter_append, hrelease, List.append_nil]
  cases tp with
  | client =>
    simp only [refHandlemsg]
    split
    · simp [visible_gateSocketSend, Act.visible]
    · rfl
  | server =>
    cases routes with
    | true => simp [refHandlemsg, visible_gateSocketSend, Act.visible]
    | false =>
      have hsent := visible_gateSocketSend wsz .clientGone sid (goneNotice (readBlock frame 2))
      simp only [refHandlemsg, Bool.false_eq_true, if_false, List.filter_append,
        List.filter_cons, Act.visible, hsent]
      split <;> rfl
  | debug => rfl
  | zero => rfl

variable {md5 tp sid id routes frame wsz}

theorem mem_allActs_iff {x : Act} (hx : x.visible = true) :
    x ∈ (refFrame md5 tp sid id routes frame wsz).allActs ↔
      x ∈ refVisible md5 tp sid id routes frame wsz := by
  rw [← visible_allActs, List.mem_filter, and_iff_left hx]

theorem send_mem_iff {site : SendSite} {target : Int} {buf : List Byte} {w : Int} :
    Act.send site target buf w ∈ (refFrame md5 tp sid id routes frame wsz).allActs ↔
      refSend tp sid id routes frame = some (site, target, buf) ∧ w = wsz := by
  rw [mem_allActs_iff rfl]
  unfold refVisible
  by_cases hshake : isHandshake frame = true
  · have hnone : refSend tp sid id routes frame = none := by rw [refSend.eq_def, if_pos hshake]
    rw [if_pos hshake, hnone]
    split <;> simp
  · rw [if_neg hshake]
    cases hsend : refSend tp sid id routes frame with
    | none =>
      simp only [reduceCtorEq, false_and, iff_false]
      split <;> simp
    | some sent =>
      obtain ⟨site', target', buf'⟩ := sent
      simp only [List.mem_singleton, Act.send.injEq, Option.some.injEq, Prod.mk.injEq, and_assoc]
      grind

theorem lua_mem_iff {j : Int} {buf : List Byte} :
    Act.luaDispatch j buf ∈ (refFrame md5 tp sid id routes frame wsz).allActs ↔
      isHandshake frame = false ∧ tp = .debug ∧ j = id ∧ buf = frame.drop 2 := by
  rw [mem_allActs_iff rfl]
  unfold refVisible
  by_cases hshake : isHandshake frame = true
  · rw [if_pos hshake]
    split <;> simp [hshake]
  · unfold refSend
    cases tp with
    | client => by_cases hpos : sid > 0 <;> simp [hshake, hpos]
    | server => cases routes <;> simp [hshake]
    | debug => simp [hshake]
    | zero => simp [hshake]

theorem close_mem_iff {j : Int} :
    Act.close j ∈ (refFrame md5 tp sid id routes frame wsz).allActs ↔
      (refFrame md5 tp sid id routes frame wsz).clears = true ∧ j = id := by
  rw [mem_allActs_iff rfl]
  unfold refVisible refFrame
  by_cases hshake : isHandshake frame = true
  · simp only [hshake, if_true]
    split <;> simp_all
  · unfold refSend refHandlemsg
    cases tp with
    | client => by_cases hpos : sid > 0 <;> simp [hshake, hpos]
    | server => cases routes <;> simp [hshake]
    | debug => simp [hshake]
    | zero => simp [hshake]

theorem refSend_toServer_iff {target : Int} {buf : List Byte} :
    refSend tp sid id routes frame = some (.toServer, target, buf) ↔
      isHandshake frame = false ∧ tp = .client ∧ 0 < sid ∧ target = sid ∧
        buf = writeBlock frame id 2 := by
  unfold refSend
  cases hshake : isHandshake frame with
  | true => simp
  | false =>
    cases tp with
    | client => by_cases hpos : sid > 0 <;> simp [hpos, eq_comm]
    | server => cases routes <;> simp
    | debug => simp
    | zero => simp

theorem refSend_toClient_iff {target : Int} {buf : List Byte} :
    refSend tp sid id routes frame = some (.toClient, target, buf) ↔
      isHandshake frame = false ∧ tp = .server ∧ routes = true ∧ target = readBlock frame 2 ∧
        buf = writeBlock frame sid 2 := by
  unfold refSend
  cases hshake : isHandshake frame with
  | true => simp
  | false =>
    cases tp with
    | client => by_cases hpos : sid > 0 <;> simp [hpos]
    | server => cases routes <;> simp [eq_comm]
    | debug => simp
    | zero => simp

theorem refSend_clientGone_iff {target : Int} {buf : List Byte} :
    refSend tp sid id routes frame = some (.clientGone, target, buf) ↔
      isHandshake frame = false ∧ tp = .server ∧ routes = false ∧ target = sid ∧
        buf = goneNotice (readBlock frame 2) := by
  unfold refSend
  cases hshake : isHandshake frame with
  | true => simp
  | false =>
    cases tp with
    | client => by_cases hpos : sid > 0 <;> simp [hpos]
    | server => cases routes <;> simp [eq_comm]
    | debug => simp
    | zero => simp

/-- Outside a handshake only a connection without role, or a client without a server, is silent. -/
theorem silent_iff :
    ((∀ site target buf w, .send site target buf w ∉
        (refFrame md5 tp sid id routes frame wsz).allActs) ∧
      ∀ j buf, .luaDispatch j buf ∉ (refFrame md5 tp sid id routes frame wsz).allActs) ↔
      isHandshake frame = true ∨ tp = .zero ∨ tp = .client ∧ sid ≤ 0 := by
  constructor
  · intro h'
    obtain ⟨hsend, hlua⟩ := h'
    cases hshake : isHandshake frame with
    | true => exact Or.inl rfl
    | false =>
      cases tp with
      | client =>
        refine Or.inr (Or.inr ⟨rfl, Int.not_lt.mp fun hpos => ?_⟩)
        apply hsend .toServer sid (writeBlock frame id 2) wsz
        exact send_mem_iff.mpr ⟨refSend_toServer_iff.mpr ⟨hshake, rfl, hpos, rfl, rfl⟩, rfl⟩
      | server =>
        cases hroutes : routes with
        | true =>
          refine absurd (send_mem_iff.mpr ⟨refSend_toClient_iff.mpr ?_, rfl⟩)
            (hsend .toClient (readBlock frame 2) (writeBlock frame sid 2) wsz)
          exact ⟨hshake, rfl, hroutes, rfl, rfl⟩
        | false =>
          refine absurd (send_mem_iff.mpr ⟨refSend_clientGone_iff.mpr ?_, rfl⟩)
            (hsend .clientGone sid (goneNotice (readBlock frame 2)) wsz)
          exact ⟨hshake, rfl, hroutes, rfl, rfl⟩
      | debug => exact absurd (lua_mem_iff.mpr ⟨hshake, rfl, rfl, rfl⟩) (hlua id (frame.drop 2))
      | zero => exact Or.inr (Or.inl rfl)
  · intro h
    have hquiet : refSend tp sid id routes frame = none ∧ (isHandshake frame = false → tp ≠ .debug) := by
      unfold refSend
      rcases h with hshake | rfl | ⟨rfl, hle⟩
      · simp [hshake]
      · simp
      · simp [Int.not_lt.mpr hle]
    constructor
    · intro site target buf w hmem
      rw [send_mem_iff, hquiet.1] at hmem
      simp at hmem
    · intro j buf hmem
      obtain ⟨hshake, htp, -⟩ := lua_mem_iff.mp hmem
      exact hquiet.2 hshake htp

theorem start_notMem {j : Int} :
    Act.start j ∉ (refFrame md5 tp sid id routes frame wsz).allActs := by
  rw [mem_allActs_iff rfl]
  unfold refVisible
  split
  · split <;> simp
  · split
    · simp
    · split <;> simp

theorem handedOn_gateSocketSend (j : Int) (site : SendSite) (target : Int) (buf : List Byte) :
    handedOn j (gateSocketSend site target buf wsz).2 = [] := by
  rw [gateSocketSend_acts]
  split <;> rfl

theorem handedOn_refHandlemsg (j : Int) :
    handedOn j (refHandlemsg tp sid id routes frame wsz).acts = [] := by
  cases tp with
  | client =>
    simp only [refHandlemsg]
    split
    · exact handedOn_gateSocketSend _ _ _ _
    · rfl
  | server =>
    cases routes with
    | true => exact handedOn_gateSocketSend _ _ _ _
    | false =>
      have hnotice : handedOn j
          (gateSocketSend .clientGone sid (goneNotice (readBlock frame 2)) wsz).2 = [] :=
        handedOn_gateSocketSend _ _ _ _
      simp only [refHandlemsg, Bool.false_eq_true, if_false, handedOn_append]
      split
      · exact List.append_eq_nil_iff.mpr ⟨hnotice, rfl⟩
      · exact List.append_eq_nil_iff.mpr ⟨hnotice, rfl⟩
  | debug => rfl
  | zero => rfl

/-- Every frame is handed to exactly one handler, for its own connection. -/
theorem handedOn_allActs (j : Int) :
    handedOn j (refFrame md5 tp sid id routes frame wsz).allActs = if id = j then [frame] else [] := by
  have hrelease : ∀ taken : Bool, handedOn j (if taken then [] else [Act.free .frame]) = [] := by
    intro taken
    cases taken <;> rfl
  have hclose : ∀ clears : Bool, handedOn j (if clears then [Act.close id] else []) = [] := by
    intro clears
    cases clears <;> rfl
  have hmarker : ∀ x : Act, x.handed j = (if id = j then some frame else none) →
      handedOn j [.malloc .frame, x] = if id = j then [frame] else [] := by
    intro x hx
    have hfirst : Act.handed j (.malloc .frame) = none := rfl
    by_cases hid : id = j
    · rw [if_pos hid] at hx ⊢
      simp [handedOn, hfirst, hx]
    · rw [if_neg hid] at hx ⊢
      simp [handedOn, hfirst, hx]
  rw [refFrame_allActs]
  split
  · have hshake : [Act.malloc .frame, .handshake id frame, .malloc .device] =
        [Act.malloc .frame, .handshake id frame] ++ [.malloc .device] := rfl
    rw [hshake, handedOn_append, handedOn_append, handedOn_append, hclose,
      hmarker (.handshake id frame) rfl]
    simp [handedOn, Act.handed]
  · rw [handedOn_append, handedOn_append, handedOn_refHandlemsg, hrelease,
      hmarker (.handlemsg id frame) rfl]
    simp

end

/-! ## One chunk -/

section
variable {md5 : HandshakeMd5} {routes : Int → Bool} {sid id : Int} {c : RefConn} {data : List Byte}
variable {wsz : Int}

theorem RefConn.message_mem_iff {x : Act} :
    x ∈ (c.message md5 routes sid id data wsz).acts ↔ ∃ frame, (c.take data).2 = some frame ∧
      x ∈ (refFrame md5 c.connTp sid id (routes (readBlock frame 2)) frame wsz).allActs := by
  rcases h : c.take data with ⟨receiver, _ | frame⟩
  · rw [RefConn.message_none h]
    simp
  · rw [RefConn.message_some h]
    simp

theorem RefConn.handedOn_message (j : Int) :
    handedOn j (c.message md5 routes sid id data wsz).acts =
      if id = j then (c.take data).2.toList else [] := by
  rcases h : c.take data with ⟨receiver, _ | frame⟩
  · rw [RefConn.message_none h]
    simp
  · rw [RefConn.message_some h]
    exact handedOn_allActs j

end

/-- A frame that reaches a handler carries its length, and two bytes behind the protocol number. -/
theorem RefConn.take_some {c : RefConn} {data frame : List Byte} (hc : c.receiver.header < 65536)
    (h : (c.take data).2 = some frame) :
    ∃ payload, frame = rebuiltFrame payload ∧ 6 ≤ payload.length ∧ payload.length < 65536 := by
  obtain ⟨payload, hpayload, rfl⟩ := Option.map_eq_some_iff.mp h
  exact ⟨payload, rfl, Framing.feed_some_length beNat_lt hc hpayload⟩

end NetgameFormal

import NetgameFormal.GateSimulation
import NetgameFormal.FrameActs

/-!
# When the slots are invisible

`handlemsg` takes slot 0 for "not found", so it routes by a smaller set than the
known ids. The gateway shows the behaviour of the reference gateway on exactly
the event sequences in which no server frame names the connection in slot 0.
-/

set_option autoImplicit false

namespace NetgameFormal

/-- What the socket layer and the script see of a run. -/
inductive Seen where
  | send (target : Int) (buf : List Byte)
  | close (id : Int)
  | start (id : Int)
  | luaDispatch (id : Int) (buf : List Byte)
  deriving DecidableEq

def Act.seen : Act → Option Seen
  | .handshake _ _ => none
  | .handlemsg _ _ => none
  | .malloc _ => none
  | .free _ => none
  | .send _ target buf _ => some (.send target buf)
  | .close id => some (.close id)
  | .start id => some (.start id)
  | .luaDispatch id buf => some (.luaDispatch id buf)

def seenOf (acts : List Act) : List Seen := acts.filterMap Act.seen

theorem seenOf_append (o o' : List Act) : seenOf (o ++ o') = seenOf o ++ seenOf o' :=
  List.filterMap_append ..

theorem seenOf_visible (o : List Act) : seenOf (o.filter Act.visible) = seenOf o := by
  rw [seenOf, List.filterMap_filter]
  apply List.filterMap_congr
  intro x _
  cases x <;> rfl

/-- A completed frame of a server connection names the connection in slot 0. -/
def NamesSlotZero (g : Gate) (i : GateInput) : Prop :=
  match i.msg with
  | .data id data => ∃ a frame, g.hash.Holds id a ∧ (g.conn a).connTp = .server ∧
      ((g.view a).take data).2 = some frame ∧ isHandshake frame = false ∧
      g.hash.Holds (readBlock frame 2) 0
  | _ => False

variable {md5 : HandshakeMd5} {g g' : Gate} {r : RefGate} {i : GateInput} {o : List Act}

theorem RefConn.message_congr {routes routes' : Int → Bool} {sid id : Int} {c : RefConn}
    {data : List Byte} {wsz : Int}
    (h : ∀ frame, c.connTp = .server → (c.take data).2 = some frame → isHandshake frame = false →
      routes (readBlock frame 2) = routes' (readBlock frame 2)) :
    c.message md5 routes sid id data wsz = c.message md5 routes' sid id data wsz := by
  rcases htake : c.take data with ⟨receiver, _ | frame⟩
  · rw [RefConn.message_none htake, RefConn.message_none htake]
  rw [RefConn.message_some htake, RefConn.message_some htake]
  have hframe : refFrame md5 c.connTp sid id (routes (readBlock frame 2)) frame wsz =
      refFrame md5 c.connTp sid id (routes' (readBlock frame 2)) frame wsz := by
    by_cases hshake : isHandshake frame = true
    · unfold refFrame
      rw [if_pos hshake, if_pos hshake]
    · cases htp : c.connTp with
      | server => rw [h frame htp (by rw [htake]) (by simpa using hshake)]
      | client => rfl
      | debug => rfl
      | zero => rfl
  rw [hframe]

/-- The slots stay out of sight of a step that names no connection in slot 0. -/
theorem Refines.dispatch_eq (hok : GateOk g) (hR : Refines g r) (hgood : ¬ NamesSlotZero g i) :
    refDispatch md5 g.routes r i = refStep md5 r i := by
  rcases i with ⟨msg, wsz⟩
  cases msg with
  | data id data =>
    unfold refStep refDispatch
    by_cases hlive : ∃ a, g.hash.Holds id a
    · obtain ⟨a, ha⟩ := hlive
      have hsame : (g.view a).message md5 g.routes r.sid id data wsz =
          (g.view a).message md5 r.knows r.sid id data wsz := by
        apply RefConn.message_congr
        intro frame htp htake hshake
        have hzero : ¬ g.hash.Holds (readBlock frame 2) 0 := fun hold =>
          hgood ⟨a, frame, ha, htp, htake, hshake, hold⟩
        rw [Bool.eq_iff_iff, Gate.routes_iff hok.hash, hR.knows_iff]
        constructor
        · intro h'
          obtain ⟨b, -, hb⟩ := h'
          exact ⟨b, hb⟩
        · intro h'
          obtain ⟨b, hb⟩ := h'
          refine ⟨b, Nat.pos_of_ne_zero ?_, hb⟩
          intro heq
          subst heq
          exact hzero hb
      simp only [hR.known id a ha, hsame]
    · have hnone : ∀ a, ¬ g.hash.Holds id a := fun a ha => hlive ⟨a, ha⟩
      simp only [hR.unknown id hnone]
  | connect id => rfl
  | close id => rfl
  | error id => rfl
  | accept id ud => rfl

theorem Refines.dispatch_ne (hok : GateOk g) (hR : Refines g r) (hbad : NamesSlotZero g i)
    {r₁ r₂ : RefGate} {o₁ o₂ : List Act} (h₁ : refDispatch md5 g.routes r i = some (r₁, o₁))
    (h₂ : refStep md5 r i = some (r₂, o₂)) :
    ∃ k k' ks ks', seenOf o₁ = k :: ks ∧ seenOf o₂ = k' :: ks' ∧ k ≠ k' := by
  rcases i with ⟨msg, wsz⟩
  cases msg with
  | data id data =>
    obtain ⟨a, frame, ha, htp, htake, hshake, hold⟩ := hbad
    have hsent : ∀ routes : Int → Bool,
        seenOf ((g.view a).message md5 routes r.sid id data wsz).acts =
          if routes (readBlock frame 2) then
            [.send (readBlock frame 2) (writeBlock frame r.sid 2)]
          else [.send r.sid (goneNotice (readBlock frame 2))] := by
      intro routes
      rcases hout : (g.view a).take data with ⟨receiver, out⟩
      rw [hout] at htake
      obtain rfl : out = some frame := htake
      have htp' : (g.view a).connTp = .server := htp
      rw [RefConn.message_some hout]
      simp only [htp']
      rw [← seenOf_visible, visible_allActs]
      unfold refVisible refSend
      rw [hshake]
      cases routes (readBlock frame 2) <;> rfl
    have hroutes : g.routes (readBlock frame 2) = false := by
      rw [Bool.eq_false_iff, ne_eq, Gate.routes_iff hok.hash]
      intro h'
      obtain ⟨b, hpos, hb⟩ := h'
      have heq := hok.hash.distinct hb hold
      omega
    have hknows : r.knows (readBlock frame 2) = true := (hR.knows_iff _).mpr ⟨0, hold⟩
    simp only [refStep, refDispatch, hR.known id a ha, Option.some.injEq, Prod.mk.injEq] at h₁ h₂
    refine ⟨.send r.sid (goneNotice (readBlock frame 2)),
      .send (readBlock frame 2) (writeBlock frame r.sid 2), [], [], ?_, ?_, ?_⟩
    · rw [← h₁.2, hsent, hroutes]
      rfl
    · rw [← h₂.2, hsent, hknows]
      rfl
    · intro heq
      have hbuf := congrArg List.length (Seen.send.inj heq).2
      obtain ⟨payload, rfl, hlen, -⟩ := RefConn.take_some (hok.header a) htake
      rw [writeBlock_length, goneNotice_eq, rebuiltFrame_eq] at hbuf
      simp only [List.length_cons, List.length_nil] at hbuf
      omega
  | connect id => exact absurd hbad not_false
  | close id => exact absurd hbad not_false
  | error id => exact absurd hbad not_false
  | accept id ud => exact absurd hbad not_false

def AcceptContract (g : Gate) (i : GateInput) : Prop :=
  FreshAccept g i ∧ InRange g i

instance (g : Gate) (i : GateInput) : Decidable (AcceptContract g i) :=
  inferInstanceAs (Decidable (_ ∧ _))

theorem gate_lockstep (hR : GateOk g ∧ Refines g r) (hi : AcceptContract g i) :
    LockstepAt (fun g r => GateOk g ∧ Refines g r) seenOf (¬ NamesSlotZero g i)
      (dispatchSocketMessage md5 g i) (refStep md5 r i) := by
  obtain ⟨hok, hR⟩ := hR
  rcases dispatch_total md5 hok hi.1 with ⟨g', o, hrun, hstep⟩ | ⟨hnone, hbad⟩
  · obtain ⟨r', href, hR'⟩ := hstep.refines hok hR
    have hok' := hstep.ok hok
    have hsome : (refStep md5 r i).isSome = true := by
      rcases i with ⟨msg, wsz⟩
      cases msg with
      | data id data =>
        cases hlookup : r.conn.lookup id with
        | none => simp [refStep, refDispatch, hlookup]
        | some c => simp [refStep, refDispatch, hlookup]
      | connect id => rfl
      | close id => rfl
      | error id => rfl
      | accept id ud =>
        have hsame : refStep md5 r ⟨.accept id ud, wsz⟩ =
            refDispatch md5 g.routes r ⟨.accept id ud, wsz⟩ := rfl
        rw [hsame, href]
        rfl
    refine ⟨?_, ?_, ?_⟩
    · constructor
      · intro h
        simp [hrun] at h
      · intro h
        simp [h] at hsome
    · intro s o₁ t o₂ hs ht hgood
      obtain ⟨rfl, rfl⟩ := Prod.mk.inj (Option.some.inj (hrun.symm.trans hs))
      rw [← hR.dispatch_eq hok hgood, href] at ht
      obtain ⟨rfl, rfl⟩ := Prod.mk.inj (Option.some.inj ht)
      exact ⟨rfl, hok', hR'⟩
    · intro s o₁ t o₂ hs ht hslot
      obtain ⟨rfl, rfl⟩ := Prod.mk.inj (Option.some.inj (hrun.symm.trans hs))
      exact hR.dispatch_ne hok (not_not.mp hslot) href ht
  · have hlisten : ¬ FromListen g i := fun h => hbad h hi.2
    have href : refStep md5 r i = none := by
      rcases i with ⟨msg, wsz⟩
      cases msg with
      | data id data => exact absurd trivial hlisten
      | connect id => exact absurd trivial hlisten
      | close id => exact absurd trivial hlisten
      | error id => exact absurd trivial hlisten
      | accept id ud =>
        have hne : r.listenId ≠ id := fun h => hlisten (h.symm.trans hR.listenId)
        simp only [refStep, refDispatch, if_neg hne]
    refine ⟨?_, ?_, ?_⟩
    · simp [hnone, href]
    · intro s o₁ t o₂ hs
      simp [hnone] at hs
    · intro s o₁ t o₂ hs
      simp [hnone] at hs

theorem gateInitInt_of_le {max : Nat} (hmax : max ≤ 2 ^ 30) (listenId : Int) :
    gateInitInt max listenId = some (gateInit ⟨max, hmax⟩ listenId) := by
  rw [gateInitInt, hashidInitInt_eq hmax]
  rfl

theorem gateInitInt_of_lt {max : Nat} (hmax : 2 ^ 30 < max) (listenId : Int) :
    gateInitInt max listenId = none := by
  rw [gateInitInt, hashidInitInt_none hmax]
  rfl

/-- `gate_init` returns, and what is seen of the gateway from then on is what is seen of the
reference gateway. -/
def SameBehaviour (md5 : HandshakeMd5) (max : Nat) (listenId : Int) (is : List GateInput) : Prop :=
  ∃ g, gateInitInt max listenId = some g ∧
    seenOf (emitted (dispatchSocketMessage md5) g is) =
      seenOf (emitted (refStep md5) (refInit max listenId) is)

/-- The two gateways behave alike exactly when the table can be made and no server frame names
slot 0. -/
theorem same_behaviour_iff (md5 : HandshakeMd5) (max : Nat) (listenId : Int) (is : List GateInput)
    (hcontract : ∀ g, gateInitInt max listenId = some g →
      Along AcceptContract (dispatchSocketMessage md5) g is) :
    SameBehaviour md5 max listenId is ↔ max ≤ 2 ^ 30 ∧ ∀ g, gateInitInt max listenId = some g →
      Along (fun g i => ¬ NamesSlotZero g i) (dispatchSocketMessage md5) g is := by
  by_cases hmax : max ≤ 2 ^ 30
  · have hinit := gateInitInt_of_le hmax listenId
    have halong := hcontract _ hinit
    have hiff : seenOf (emitted (dispatchSocketMessage md5) (gateInit ⟨max, hmax⟩ listenId) is) =
        seenOf (emitted (refStep md5) (refInit max listenId) is) ↔
        Along (fun g i => ¬ NamesSlotZero g i) (dispatchSocketMessage md5)
          (gateInit ⟨max, hmax⟩ listenId) is := by
      refine emitted_eq_iff_along (fun g r => GateOk g ∧ Refines g r) seenOf seenOf_append
        AcceptContract _ gate_lockstep is ⟨gateInit_ok _ listenId, gateInit_refines _ listenId⟩
        halong ?_
      rintro g r ⟨msg, wsz⟩ ⟨hok, -⟩ - hnone
      cases msg with
      | data id data =>
        obtain ⟨g', o, hrun, -⟩ := data_step md5 hok id data wsz
        simp [hrun] at hnone
      | connect id => exact not_false
      | close id => exact not_false
      | error id => exact not_false
      | accept id ud => exact not_false
    simp only [SameBehaviour, hinit, Option.some.injEq, exists_eq_left', hiff, hmax, true_and,
      forall_eq']
  · have hinit := gateInitInt_of_lt (Nat.lt_of_not_le hmax) listenId
    refine iff_of_false ?_ fun h => hmax h.1
    rintro ⟨g, hsome, -⟩
    simp [hinit] at hsome

theorem same_behaviour_server_first :
    (2 : Nat) ≤ 2 ^ 30 ∧ ∀ g, gateInitInt 2 7 = some g →
      Along (fun g i => ¬ NamesSlotZero g i) (dispatchSocketMessage gatewayMd5) g
        [⟨.accept 7 4, 0⟩, ⟨.data 4 (handshakePackage 3 gatewayMd5.server), 0⟩, ⟨.accept 7 5, 0⟩,
          ⟨.data 4 (package 5 1 [8, 9]), 0⟩] := by
  have hinit : gateInitInt 2 7 = some (gateInit ⟨2, by decide⟩ 7) := gateInitInt_of_le _ 7
  refine (same_behaviour_iff gatewayMd5 2 7 _ ?_).mp ⟨_, hinit, by decide +kernel⟩
  intro g hg
  obtain rfl := Option.some.inj (hinit.symm.trans hg)
  exact along_of_execute (by decide +kernel)

/-- With the client in slot 0 the server's frame for it is answered with a notice. -/
theorem slot_zero_not_routed :
    ∃ is, Along AcceptContract (dispatchSocketMessage gatewayMd5) (gateInit ⟨2, by decide⟩ 7) is ∧
      seenOf (emitted (dispatchSocketMessage gatewayMd5) (gateInit ⟨2, by decide⟩ 7) is) =
        [.start 5, .start 4, .send 5 (goneNotice 4)] ∧
      seenOf (emitted (refStep gatewayMd5) (refInit 2 7) is) =
        [.start 5, .start 4, .send 4 (package 5 1 [8, 9])] ∧ ¬ SameBehaviour gatewayMd5 2 7 is := by
  have hgate : seenOf (emitted (dispatchSocketMessage gatewayMd5) (gateInit ⟨2, by decide⟩ 7)
      [⟨.accept 7 5, 0⟩, ⟨.data 5 (handshakePackage 3 gatewayMd5.server), 0⟩, ⟨.accept 7 4, 0⟩,
        ⟨.data 5 (package 4 1 [8, 9]), 0⟩]) =
      [.start 5, .start 4, .send 5 (goneNotice 4)] := by decide +kernel
  have href : seenOf (emitted (refStep gatewayMd5) (refInit 2 7)
      [⟨.accept 7 5, 0⟩, ⟨.data 5 (handshakePackage 3 gatewayMd5.server), 0⟩, ⟨.accept 7 4, 0⟩,
        ⟨.data 5 (package 4 1 [8, 9]), 0⟩]) =
      [.start 5, .start 4, .send 4 (package 5 1 [8, 9])] := by decide +kernel
  refine ⟨_, along_of_execute (by decide +kernel), hgate, href, ?_⟩
  rintro ⟨g, hinit, hsame⟩
  obtain rfl := Option.some.inj ((gateInitInt_of_le (by decide) 7).symm.trans hinit)
  rw [hgate, href] at hsame
  simp at hsame

end NetgameFormal

import NetgameFormal.GateSteps
import NetgameFormal.FrameActs

/-!
# The connection table over whole runs

The contract of the socket layer: every accept is reported for the listening
socket and carries a positive id that is not in the table and leaves room for
the probe offsets. Under it no assertion fires, and the node array, the
connection array and the server id agree in every reachable state.
-/

set_option autoImplicit false

namespace NetgameFormal

def SocketContract (g : Gate) (i : GateInput) : Prop :=
  FreshAccept g i ∧ InRange g i ∧ FromListen g i

instance (g : Gate) (i : GateInput) : Decidable (SocketContract g i) :=
  inferInstanceAs (Decidable (_ ∧ _ ∧ _))

variable {md5 : HandshakeMd5} {g g' : Gate} {i : GateInput} {o : List Act}

theorem GateStep.constants (h : GateStep md5 g i g' o) :
    g'.listenId = g.listenId ∧ g'.maxConnection = g.maxConnection := by
  cases h with
  | message _ hw _ => exact ⟨hw.listenId, hw.maxConnection⟩
  | unknown _ => exact ⟨rfl, rfl⟩
  | connect _ => exact ⟨rfl, rfl⟩
  | stranger _ _ => exact ⟨rfl, rfl⟩
  | remove _ _ hr _ => exact ⟨hr.listenId, hr.maxConnection⟩
  | gone _ _ => exact ⟨rfl, rfl⟩
  | refuse _ => exact ⟨rfl, rfl⟩
  | accept _ _ _ _ hr _ => exact ⟨hr.listenId, hr.maxConnection⟩

/-- A positive server id is left only by the close or error event of that connection. -/
theorem GateStep.sid_kept (h : GateStep md5 g i g' o) (hpos : 0 < g.sid) :
    g'.sid = g.sid ∨ i.msg = .close g.sid ∨ i.msg = .error g.sid := by
  cases h with
  | @message id data wsz a _ _ _ hsid =>
    rw [hsid]
    rcases RefConn.message_sid md5 g.routes g.sid id (g.view a) data wsz with h | ⟨hle, -⟩
    · exact Or.inl h
    · omega
  | unknown _ => exact Or.inl rfl
  | connect _ => exact Or.inl rfl
  | stranger _ _ => exact Or.inl rfl
  | @remove id _ _ _ _ hmsg _ _ hsid =>
    by_cases hid : id = g.sid
    · subst hid
      exact Or.inr hmsg
    · rw [hsid, if_neg hid]
      exact Or.inl rfl
  | gone _ _ => exact Or.inl rfl
  | refuse _ => exact Or.inl rfl
  | accept _ _ _ _ _ hsid => exact Or.inl hsid

theorem GateStep.started (h : GateStep md5 g i g' o) {ud : Int} (hud : .start ud ∈ o) :
    ∃ a, g'.hash.Holds ud a ∧ g'.conn a = ⟨ud, .zero, .zero⟩ := by
  cases h with
  | message _ _ _ =>
    obtain ⟨frame, -, hmem⟩ := RefConn.message_mem_iff.mp hud
    exact absurd hmem start_notMem
  | unknown _ => simp at hud
  | connect _ => simp at hud
  | stranger _ _ => simp at hud
  | remove _ _ _ _ => simp at hud
  | gone _ _ => simp at hud
  | refuse _ => simp at hud
  | @accept ud' _ a _ _ hpos _ _ hr _ =>
    obtain rfl : ud = ud' := by simpa using hud
    exact ⟨a, hr.holds_self (by omega), hr.conn_self⟩

/-- What the two parallel arrays, the counter and the server id say about each other. -/
structure TableConsistent (max : Nat) (g : Gate) : Prop where
  ids : ∀ a, a < max → (g.conn a).id = (g.hash.id a).id
  free : ∀ a, a < max → (g.conn a).id = -1 →
    (g.conn a).connTp = .zero ∧ (g.conn a).buffer = .zero
  count : g.hash.count = ((Finset.range max).filter fun a => (g.conn a).id ≠ -1).card
  count_le : g.hash.count ≤ max
  sid : g.sid ≤ 0 ∨ ∃ a, a < max ∧ (g.conn a).id = g.sid

theorem GateOk.consistent (hok : GateOk g) : TableConsistent g.maxConnection g := by
  have hids := hok.ids
  have hcount := hok.hash.count
  have hle := hok.hash.count_le
  unfold Hashid.occupied at hcount
  rw [hok.cap] at hids hcount hle
  refine ⟨hids, ?_, ?_, hle, ?_⟩
  · intro a ha hfree
    rw [hids a ha] at hfree
    rw [hok.clean a fun id hid => hid.2.2 (hid.2.1.symm.trans hfree)]
    exact ⟨rfl, rfl⟩
  · rw [hcount]
    congr 2
    apply Finset.filter_congr
    intro a ha
    rw [hids a (Finset.mem_range.mp ha)]
  · by_cases hpos : 0 < g.sid
    · obtain ⟨a, ha⟩ := hok.server hpos
      have hlt : a < g.maxConnection := hok.cap ▸ ha.1
      exact Or.inr ⟨a, hlt, (hids a hlt).trans ha.2.1⟩
    · exact Or.inl (by omega)

/-- Every run within the contract keeps the table consistent, and no assertion fires. -/
theorem table_consistent_over_runs (md5 : HandshakeMd5) (max : Capacity) (listenId : Int)
    {tr : List (Record Gate GateInput Act)} {g : Gate}
    (h : Exec (dispatchSocketMessage md5) SocketContract (gateInit max listenId) tr g) :
    TableConsistent max g ∧
      (∀ i, SocketContract g i → ∃ g' o, dispatchSocketMessage md5 g i = some (g', o)) ∧
      (∀ r ∈ tr, ∀ ud, .start ud ∈ r.output →
        ∃ a : Nat, a < max ∧ r.post.conn a = ⟨ud, .zero, .zero⟩) ∧
      ∀ r ∈ tr, 0 < r.pre.sid → r.post.sid = r.pre.sid ∨ r.input.msg = .close r.pre.sid ∨
        r.input.msg = .error r.pre.sid := by
  let Inv : Gate → Prop := fun g => GateOk g ∧ g.maxConnection = max
  have init : Inv (gateInit max listenId) := ⟨gateInit_ok max listenId, rfl⟩
  have preserved : ∀ {g i g' o}, Inv g → SocketContract g i →
      dispatchSocketMessage md5 g i = some (g', o) → Inv g' := by
    rintro g i g' o ⟨hok, hmax⟩ ⟨hfresh, -⟩ hrun
    have hstep := dispatch_step hok hfresh hrun
    exact ⟨hstep.ok hok, hstep.constants.2.trans hmax⟩
  have hrecord := h.record Inv init preserved
  obtain ⟨hok, hmax⟩ := h.invariant Inv init preserved
  refine ⟨hmax ▸ hok.consistent, ?_, ?_, ?_⟩
  · intro i hi
    obtain ⟨hfresh, hrange, hlisten⟩ := hi
    rcases dispatch_total md5 hok hfresh with ⟨g', o, hrun, -⟩ | ⟨-, hbad⟩
    · exact ⟨g', o, hrun⟩
    · exact absurd hrange (hbad hlisten)
  · intro r hr ud hud
    obtain ⟨⟨hpre, -⟩, ⟨hpost, hmax'⟩, hcontract, hrun⟩ := hrecord r hr
    obtain ⟨a, ha, hconn⟩ := (dispatch_step hpre hcontract.1 hrun).started hud
    exact ⟨a, hmax' ▸ hpost.cap ▸ ha.1, hconn⟩
  · intro r hr hpos
    obtain ⟨⟨hpre, -⟩, -, hcontract, hrun⟩ := hrecord r hr
    exact (dispatch_step hpre hcontract.1 hrun).sid_kept hpos

/-- Two slots: the server leaves, its slot is used again, and a new server is welcome. -/
theorem table_consistent_after_handover :
    ∃ tr g, Exec (dispatchSocketMessage gatewayMd5) SocketContract (gateInit ⟨2, by decide⟩ 7) tr g ∧
      (tr.length, g.sid) = (7, 9) ∧ TableConsistent 2 g := by
  have hrun : ((execute (dispatchSocketMessage gatewayMd5) SocketContract (gateInit ⟨2, by decide⟩ 7)
      [⟨.connect 7, 0⟩, ⟨.accept 7 5, 0⟩, ⟨.data 5 (handshakePackage 3 gatewayMd5.server), 0⟩,
        ⟨.accept 7 6, 0⟩, ⟨.close 5, 0⟩, ⟨.accept 7 9, 0⟩,
        ⟨.data 9 (handshakePackage 3 gatewayMd5.server), 0⟩]).map
      fun run => (run.1.length, run.2.sid)) = some (7, 9) := by decide +kernel
  obtain ⟨tr, g, h, hdata⟩ := exists_exec _ hrun
  exact ⟨tr, g, h, hdata, (table_consistent_over_runs gatewayMd5 _ 7 h).1⟩

end NetgameFormal

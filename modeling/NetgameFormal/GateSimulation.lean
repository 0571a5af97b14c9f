import NetgameFormal.GateSteps

/-!
# The gateway simulates the reference gateway

`Refines` relates the slot tables to the map of the reference gateway. One step
of the gateway is one step of the reference gateway with the same actions,
provided the latter routes server frames by the gateway's own test.
-/

set_option autoImplicit false

namespace NetgameFormal

structure Refines (g : Gate) (r : RefGate) : Prop where
  listenId : r.listenId = g.listenId
  maxConnection : r.maxConnection = g.maxConnection
  sid : r.sid = g.sid
  known : ∀ id a, g.hash.Holds id a → r.conn.lookup id = some (g.view a)
  unknown : ∀ id, (∀ a, ¬ g.hash.Holds id a) → r.conn.lookup id = none

variable {g g' : Gate} {r : RefGate} {id : Int} {a : Nat}

theorem Refines.knows_iff (hR : Refines g r) (id : Int) :
    r.knows id = true ↔ ∃ a, g.hash.Holds id a := by
  rw [RefGate.knows]
  constructor
  · intro h
    by_contra hnone
    rw [hR.unknown id fun a ha => hnone ⟨a, ha⟩] at h
    simp at h
  · intro h'
    obtain ⟨a, ha⟩ := h'
    rw [hR.known id a ha]
    rfl

theorem Refines.card_eq (hok : HashidOk g.hash) (hR : Refines g r) :
    r.conn.keys.card = g.hash.occupied.card := by
  have himage : g.hash.occupied.image (fun a => (g.hash.id a).id) = r.conn.keys := by
    ext id
    rw [Finmap.mem_keys, Finmap.mem_iff]
    constructor
    · intro h
      obtain ⟨a, ha, rfl⟩ := Finset.mem_image.mp h
      simp only [Hashid.occupied, Finset.mem_filter, Finset.mem_range] at ha
      exact ⟨_, hR.known _ a ⟨ha.1, rfl, ha.2⟩⟩
    · intro h'
      obtain ⟨c, hc⟩ := h'
      obtain ⟨a, ha⟩ := (hR.knows_iff id).mp (by rw [RefGate.knows, hc]; rfl)
      exact Finset.mem_image.mpr ⟨a, ha.mem_occupied, ha.2.1⟩
  rw [← himage, Finset.card_image_of_injOn]
  intro a ha b hb heq
  have heq' : (g.hash.id a).id = (g.hash.id b).id := heq
  rw [Finset.mem_coe, Hashid.occupied, Finset.mem_filter, Finset.mem_range] at ha hb
  exact hok.distinct ⟨ha.1, heq', heq' ▸ ha.2⟩ ⟨hb.1, rfl, hb.2⟩

theorem Refines.full_iff (hok : GateOk g) (hR : Refines g r) :
    hashidFull g.hash = true ↔ r.maxConnection ≤ r.conn.keys.card := by
  have hle := hok.hash.count_le
  have hcount := hok.hash.count
  have hcap := hok.cap
  rw [hR.card_eq hok.hash, hR.maxConnection, hashidFull, beq_iff_eq]
  omega

theorem gateInit_refines (max : Capacity) (listenId : Int) :
    Refines (gateInit max listenId) (refInit max listenId) where
  listenId := rfl
  maxConnection := rfl
  sid := rfl
  known := by
    rintro id a ⟨-, ha, hid⟩
    exact absurd ha.symm hid
  unknown := fun _ _ => Finmap.lookup_empty _

theorem Refines.rewrites {c : RefConn} (hok : HashidOk g.hash) (hR : Refines g r)
    (hw : g.Rewrites g' a c) (ha : g.hash.Holds id a) :
    Refines g' { r.put id c with sid := g'.sid } where
  listenId := hR.listenId.trans hw.listenId.symm
  maxConnection := hR.maxConnection.trans hw.maxConnection.symm
  sid := rfl
  known := by
    intro id' b hb
    rw [hw.hash] at hb
    by_cases hid : id' = id
    · subst hid
      obtain rfl := hok.distinct hb ha
      rw [hw.here]
      exact r.lookup_put_self id' c
    · have hba : b ≠ a := by
        intro heq
        subst heq
        exact hid (hb.id_eq ha)
      rw [hw.others b hba, ← hR.known id' b hb]
      exact r.lookup_put_of_ne c hid
  unknown := by
    intro id' hnone
    rw [hw.hash] at hnone
    have hid : id' ≠ id := by
      intro heq
      subst heq
      exact hnone a ha
    rw [← hR.unknown id' hnone]
    exact r.lookup_put_of_ne c hid

theorem Refines.removed (hok : GateOk g) (hR : Refines g r) (ha : g.hash.Holds id a)
    (hr : g.Reslots g' a (-1)) (hsid : g'.sid = if id = g.sid then -1 else g.sid) :
    Refines g' (r.remove id) := by
  have hknows : r.knows id = true := (hR.knows_iff id).mpr ⟨a, ha⟩
  rw [RefGate.remove, if_pos hknows]
  refine ⟨hR.listenId.trans hr.listenId.symm, hR.maxConnection.trans hr.maxConnection.symm, ?_,
    ?_, ?_⟩
  · rw [hsid, hR.sid]
  · intro id' b hb
    obtain ⟨hba, hb'⟩ := hr.holds_of_free hb
    have hid' : id' ≠ id := by
      intro heq
      subst heq
      exact hba (hok.hash.distinct hb' ha)
    rw [hr.others b hba, ← hR.known id' b hb']
    exact Finmap.lookup_erase_ne hid'
  · intro id' hnone
    by_cases hid' : id' = id
    · subst hid'
      exact Finmap.lookup_erase _ _
    · have hnone' : ∀ b, ¬ g.hash.Holds id' b := by
        intro b hb
        have hba : b ≠ a := by
          intro heq
          subst heq
          exact hid' (hb.id_eq ha)
        exact hnone b ((hr.set.holds_iff hba).mpr hb)
      rw [← hR.unknown id' hnone']
      exact Finmap.lookup_erase_ne hid'

theorem Refines.accepted (hR : Refines g r) {ud : Int} (hpos : 0 < ud)
    (habsent : ∀ b, ¬ g.hash.Holds ud b) (hfree : ∀ id, ¬ g.hash.Holds id a)
    (hr : g.Reslots g' a ud) (hsid : g'.sid = g.sid) : Refines g' (r.put ud .fresh) where
  listenId := hR.listenId.trans hr.listenId.symm
  maxConnection := hR.maxConnection.trans hr.maxConnection.symm
  sid := hR.sid.trans hsid.symm
  known := by
    intro id' b hb
    by_cases hba : b = a
    · subst hba
      have hid' : id' = ud := hb.2.1.symm.trans hr.set.here
      rw [hid', hr.here]
      exact r.lookup_put_self ud .fresh
    · have hb' := (hr.set.holds_iff hba).mp hb
      have hid' : id' ≠ ud := by
        intro heq
        subst heq
        exact habsent b hb'
      rw [hr.others b hba, ← hR.known id' b hb']
      exact r.lookup_put_of_ne .fresh hid'
  unknown := by
    intro id' hnone
    have hid' : id' ≠ ud := by
      intro heq
      subst heq
      exact hnone a (hr.holds_self (by omega))
    have hnone' : ∀ b, ¬ g.hash.Holds id' b := by
      intro b hb
      have hba : b ≠ a := by
        intro heq
        subst heq
        exact hfree _ hb
      exact hnone b ((hr.set.holds_iff hba).mpr hb)
    rw [← hR.unknown id' hnone']
    exact r.lookup_put_of_ne .fresh hid'

/-- The step lemma of the simulation. -/
theorem GateStep.refines {md5 : HandshakeMd5} {i : GateInput} {o : List Act} (hok : GateOk g)
    (hR : Refines g r) (h : GateStep md5 g i g' o) :
    ∃ r', refDispatch md5 g.routes r i = some (r', o) ∧ Refines g' r' := by
  cases h with
  | @message id data wsz a _ ha hw hsid =>
    refine ⟨_, ?_, hR.rewrites hok.hash hw ha⟩
    simp only [refDispatch, hR.known id a ha, hR.sid, hsid]
  | @unknown id data wsz habsent =>
    refine ⟨r, ?_, hR⟩
    simp only [refDispatch, hR.unknown id habsent]
  | @connect id wsz hknown =>
    refine ⟨r, ?_, hR⟩
    rw [← hR.listenId, ← hR.knows_iff] at hknown
    simp only [refDispatch, if_pos hknown]
  | @stranger id wsz hlisten habsent =>
    refine ⟨r, ?_, hR⟩
    have hneither : ¬ (id = r.listenId ∨ r.knows id = true) := by
      rw [hR.listenId, hR.knows_iff]
      rintro (h | ⟨a, ha⟩)
      · exact hlisten h
      · exact habsent a ha
    simp only [refDispatch, if_neg hneither]
  | @remove id wsz msg a _ hmsg ha hr hsid =>
    refine ⟨r.remove id, ?_, hR.removed hok ha hr hsid⟩
    rcases hmsg with rfl | rfl <;> rfl
  | @gone id wsz msg hmsg habsent =>
    have hunknown : r.remove id = r := by
      rw [RefGate.remove, if_neg]
      rw [hR.knows_iff id]
      intro h'
      obtain ⟨a, ha⟩ := h'
      exact habsent a ha
    refine ⟨r, ?_, hR⟩
    rcases hmsg with rfl | rfl <;> simp only [refDispatch, hunknown]
  | @refuse ud wsz hfull =>
    refine ⟨r, ?_, hR⟩
    simp only [refDispatch, hR.listenId, if_true, if_pos ((hR.full_iff hok).mp hfull)]
  | @accept ud wsz a _ hroom hpos habsent hfree hr hsid =>
    refine ⟨r.put ud .fresh, ?_, hR.accepted hpos habsent hfree hr hsid⟩
    rw [hR.full_iff hok] at hroom
    simp only [refDispatch, hR.listenId, if_true, if_neg hroom]

end NetgameFormal

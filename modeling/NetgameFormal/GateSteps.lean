import NetgameFormal.GateSlots
import NetgameFormal.HashidTable
import NetgameFormal.Runs

/-!
# What one event does to the gateway

`GateOk` is the invariant of the slot tables. `GateStep` lists everything one
event can do, `dispatch_step` shows that the list is complete, and every later
module reasons about `GateStep` alone.
-/

set_option autoImplicit false

namespace NetgameFormal

/-- Every accepted id is positive and not in the table. -/
def FreshAccept (g : Gate) (i : GateInput) : Prop :=
  match i.msg with
  | .accept _ ud => 0 < ud ∧ ∀ a, a < g.hash.cap → (g.hash.id a).id ≠ ud
  | _ => True

/-- Every accepted id leaves room for the probe offsets below `INT_MAX`. -/
def InRange (g : Gate) (i : GateInput) : Prop :=
  match i.msg with
  | .accept _ ud => ud + g.maxConnection ≤ 2 ^ 31 - 1
  | _ => True

/-- Every accept is reported for the listening socket. -/
def FromListen (g : Gate) (i : GateInput) : Prop :=
  match i.msg with
  | .accept id _ => id = g.listenId
  | _ => True

instance (g : Gate) (i : GateInput) : Decidable (FreshAccept g i) :=
  match i with
  | ⟨.accept _ ud, _⟩ =>
    inferInstanceAs (Decidable (0 < ud ∧ ∀ a, a < g.hash.cap → (g.hash.id a).id ≠ ud))
  | ⟨.data _ _, _⟩ => isTrue trivial
  | ⟨.connect _, _⟩ => isTrue trivial
  | ⟨.close _, _⟩ => isTrue trivial
  | ⟨.error _, _⟩ => isTrue trivial

instance (g : Gate) (i : GateInput) : Decidable (InRange g i) :=
  match i with
  | ⟨.accept _ ud, _⟩ => inferInstanceAs (Decidable (ud + g.maxConnection ≤ 2 ^ 31 - 1))
  | ⟨.data _ _, _⟩ => isTrue trivial
  | ⟨.connect _, _⟩ => isTrue trivial
  | ⟨.close _, _⟩ => isTrue trivial
  | ⟨.error _, _⟩ => isTrue trivial

instance (g : Gate) (i : GateInput) : Decidable (FromListen g i) :=
  match i with
  | ⟨.accept id _, _⟩ => inferInstanceAs (Decidable (id = g.listenId))
  | ⟨.data _ _, _⟩ => isTrue trivial
  | ⟨.connect _, _⟩ => isTrue trivial
  | ⟨.close _, _⟩ => isTrue trivial
  | ⟨.error _, _⟩ => isTrue trivial

structure GateOk (g : Gate) : Prop where
  hash : HashidOk g.hash
  cap : g.hash.cap = g.maxConnection
  ids : ∀ a, a < g.hash.cap → (g.conn a).id = (g.hash.id a).id
  clean : ∀ a, (∀ id, ¬ g.hash.Holds id a) → g.conn a = .free
  positive : ∀ id a, g.hash.Holds id a → 0 < id
  server : 0 < g.sid → ∃ a, g.hash.Holds g.sid a
  header : ∀ a, (g.bufs a).header < 65536
  buffered : g.Buffered

variable {g g' : Gate} {id : Int} {a : Nat}

theorem Hashid.Holds.id_eq {hi : Hashid} {id id' : Int} {a : Nat} (h : hi.Holds id a)
    (h' : hi.Holds id' a) : id = id' :=
  h.2.1.symm.trans h'.2.1

theorem gateInit_ok (max : Capacity) (listenId : Int) : GateOk (gateInit max listenId) where
  hash := emptyHashid_ok _ max
  cap := rfl
  ids := fun _ _ => rfl
  clean := fun _ _ => rfl
  positive := by
    rintro id a ⟨-, ha, hid⟩
    exact absurd ha.symm hid
  server := fun h => absurd h (Int.lt_irrefl 0)
  header := fun _ => Nat.zero_lt_succ _
  buffered := ⟨_, Queues.init Nat⟩

/-! ## The slots an event changes -/

/-- A step that rewrites the slot of a live connection keeps the invariant. -/
theorem GateOk.rewrites {c : RefConn} (h : GateOk g) (hw : g.Rewrites g' a c)
    (ha : g.hash.Holds id a) (hheader : c.receiver.header < 65536)
    (hsid : g'.sid = g.sid ∨ g'.sid = id) : GateOk g' where
  hash := hw.hash ▸ h.hash
  cap := by rw [hw.hash, hw.maxConnection, h.cap]
  ids := by
    intro b hb
    rw [hw.hash] at hb ⊢
    rw [hw.id b, h.ids b hb]
  clean := by
    intro b hb
    rw [hw.hash] at hb
    have hba : b ≠ a := by
      intro heq
      subst heq
      exact hb id ha
    rw [hw.elsewhere b hba, h.clean b hb]
  positive := by
    rw [hw.hash]
    exact h.positive
  server := by
    intro hpos
    rw [hw.hash]
    rcases hsid with hsid | hsid
    · rw [hsid] at hpos ⊢
      exact h.server hpos
    · exact ⟨a, hsid ▸ ha⟩
  header := by
    intro b
    by_cases hb : b = a
    · have hview : (g'.bufs a).header = c.receiver.header :=
        congrArg (fun v => v.receiver.header) hw.here
      rw [hb, hview]
      exact hheader
    · rw [Gate.bufs, hw.elsewhere b hb]
      exact h.header b
  buffered := hw.buffered

/-- Slot `a` now belongs to `id`, or to nobody when `id` is -1, and is as good as new. -/
structure Gate.Reslots (g g' : Gate) (a : Nat) (id : Int) : Prop where
  listenId : g'.listenId = g.listenId
  maxConnection : g'.maxConnection = g.maxConnection
  hash : HashidOk g'.hash
  set : g.hash.SetAt g'.hash a id
  lt_cap : a < g.hash.cap
  conn : g'.conn = Function.update g.conn a { Connection.free with id := id }
  buffered : g'.Buffered
  here : g'.view a = .fresh
  others : ∀ b, b ≠ a → g'.view b = g.view b

theorem Gate.Reslots.conn_of_ne (hr : g.Reslots g' a id) {b : Nat} (hb : b ≠ a) :
    g'.conn b = g.conn b := by
  simp [hr.conn, hb]

theorem Gate.Reslots.conn_self (hr : g.Reslots g' a id) :
    g'.conn a = { Connection.free with id := id } := by
  simp [hr.conn]

theorem GateOk.reslots (h : GateOk g) (hr : g.Reslots g' a id) (hid : id = -1 ∨ 0 < id)
    (hserver : 0 < g'.sid → ∃ b, g'.hash.Holds g'.sid b) : GateOk g' where
  hash := hr.hash
  cap := by rw [hr.set.cap, hr.maxConnection, h.cap]
  ids := by
    intro b hb
    by_cases hba : b = a
    · subst hba
      rw [hr.conn_self, hr.set.here]
    · rw [hr.set.cap] at hb
      rw [hr.conn_of_ne hba, hr.set.elsewhere b hba, h.ids b hb]
  clean := by
    intro b hb
    by_cases hba : b = a
    · subst hba
      rcases hid with rfl | hpos
      · exact hr.conn_self
      · exact absurd ⟨hr.set.cap.symm ▸ hr.lt_cap, hr.set.here, by omega⟩ (hb id)
    · rw [hr.conn_of_ne hba]
      exact h.clean b fun id' hb' => hb id' ((hr.set.holds_iff hba).mpr hb')
  positive := by
    intro id' b hb
    by_cases hba : b = a
    · subst hba
      have hid' : id = id' := hr.set.here.symm.trans hb.2.1
      have hne := hb.2.2
      omega
    · exact h.positive id' b ((hr.set.holds_iff hba).mp hb)
  server := hserver
  header := by
    intro b
    by_cases hba : b = a
    · subst hba
      rw [Gate.bufs, hr.conn_self]
      exact Nat.zero_lt_succ _
    · rw [Gate.bufs, hr.conn_of_ne hba]
      exact h.header b
  buffered := hr.buffered

theorem Gate.view_fresh {bytes : Nat → List Byte} (hq : Queues g.mp g.bufs bytes) {id : Int}
    (hconn : g.conn a = { Connection.free with id := id }) : g.view a = .fresh := by
  have hsize := hq.size_eq a
  rw [Gate.bufs, hconn] at hsize
  have hnil : bytes a = [] := List.length_eq_zero_iff.mp hsize.symm
  rw [Gate.view_eq hq, hnil, Gate.bufs, hconn]
  rfl

theorem removeConnection_live (hok : GateOk g) (ha : g.hash.Holds id a) :
    ∃ g', removeConnection g id = some (g', []) ∧ g.Reslots g' a (-1) ∧
      g'.sid = if id = g.sid then -1 else g.sid := by
  obtain ⟨bytes, hq⟩ := hok.buffered
  obtain ⟨hash, hremove, hhash, hset⟩ := hok.hash.remove_of_holds ha
  obtain ⟨mp, hclear, hq'⟩ := hq.clear a
  have hclear' : databufferClear (g.conn a).buffer g.mp = some (.zero, mp) := hclear
  have hid : (g.conn a).id = id := (hok.ids a ha.1).trans ha.2.1
  let g' : Gate := { g with
    hash := hash
    sid := if id = g.sid then -1 else g.sid
    conn := Function.update g.conn a .free
    mp := mp }
  have hrun : removeConnection g id = some (g', []) := by
    simp [removeConnection, hremove, hclear', hid, g']
  have hbufs : g'.bufs = Function.update g.bufs a .zero := by
    funext b
    by_cases hb : b = a
    · subst hb
      simp [Gate.bufs, g', Connection.free]
    · simp [Gate.bufs, g', hb]
  have hg' : Queues g'.mp g'.bufs (Function.update bytes a []) := hbufs ▸ hq'
  have hconn : g'.conn a = .free := by simp [g']
  refine ⟨g', hrun, ⟨rfl, rfl, hhash, hset, ha.1, rfl, ⟨_, hg'⟩, Gate.view_fresh hg' hconn, ?_⟩, rfl⟩
  intro b hb
  have hold : g'.conn b = g.conn b := by simp [g', hb]
  rw [Gate.view_eq hg', Gate.view_eq hq, Gate.bufs, hold]
  simp [hb, Gate.bufs]

theorem removeConnection_absent (hok : GateOk g) (ha : ∀ a, ¬ g.hash.Holds id a) :
    removeConnection g id = some (g, []) := by
  simp [removeConnection, hok.hash.remove_of_absent ha]

theorem insert_reslots (hok : GateOk g) (hpos : 0 < id)
    (hfresh : ∀ a, a < g.hash.cap → (g.hash.id a).id ≠ id) {hash : Hashid}
    (hinsert : hashidInsert g.hash id = some (hash, a)) :
    g.Reslots { g with
      hash := hash
      conn := Function.update g.conn a { g.conn a with id := id } } a id := by
  obtain ⟨bytes, hq⟩ := hok.buffered
  have habsent : ∀ b, ¬ g.hash.Holds id b := fun b hb => hfresh b hb.1 hb.2.1
  obtain ⟨hcap, hfree, hhash, hset⟩ := hok.hash.inserted (by omega) habsent hinsert
  have hclean : g.conn a = .free := by
    apply hok.clean
    intro id' hid'
    exact hid'.2.2 (hid'.2.1.symm.trans hfree)
  rw [hclean]
  generalize hg' : ({ g with
      hash := hash
      conn := Function.update g.conn a { Connection.free with id := id } } : Gate) = g'
  have hself : g'.conn a = { Connection.free with id := id } := by simp [← hg']
  have hother : ∀ b, b ≠ a → g'.conn b = g.conn b := fun b hb => by simp [← hg', hb]
  have hbufs : g'.bufs = g.bufs := by
    funext b
    by_cases hb : b = a
    · rw [hb, Gate.bufs, Gate.bufs, hself, hclean]
    · rw [Gate.bufs, Gate.bufs, hother b hb]
  have hmp : g'.mp = g.mp := by rw [← hg']
  have hq' : Queues g'.mp g'.bufs bytes := by
    rw [hbufs, hmp]
    exact hq
  have hhash' : g'.hash = hash := by rw [← hg']
  refine ⟨by rw [← hg'], by rw [← hg'], hhash' ▸ hhash, hhash' ▸ hset, hcap, by rw [← hg'],
    ⟨_, hq'⟩, Gate.view_fresh hq' hself, ?_⟩
  intro b hb
  rw [Gate.view_eq hq', Gate.view_eq hq, hbufs, hother b hb]

/-! ## The inversion lemma -/

/-- Everything one event can do. -/
inductive GateStep (md5 : HandshakeMd5) (g : Gate) : GateInput → Gate → List Act → Prop where
  | message {id : Int} {data : List Byte} {wsz : Int} {a : Nat} {g' : Gate}
      (ha : g.hash.Holds id a)
      (hw : g.Rewrites g' a ((g.view a).message md5 g.routes g.sid id data wsz).conn)
      (hsid : g'.sid = ((g.view a).message md5 g.routes g.sid id data wsz).sid) :
      GateStep md5 g ⟨.data id data, wsz⟩ g'
        ((g.view a).message md5 g.routes g.sid id data wsz).acts
  | unknown {id : Int} {data : List Byte} {wsz : Int} (habsent : ∀ a, ¬ g.hash.Holds id a) :
      GateStep md5 g ⟨.data id data, wsz⟩ g [.close id]
  | connect {id wsz : Int} (hknown : id = g.listenId ∨ ∃ a, g.hash.Holds id a) :
      GateStep md5 g ⟨.connect id, wsz⟩ g []
  | stranger {id wsz : Int} (hlisten : id ≠ g.listenId) (habsent : ∀ a, ¬ g.hash.Holds id a) :
      GateStep md5 g ⟨.connect id, wsz⟩ g [.close id]
  | remove {id wsz : Int} {msg : GateMessage} {a : Nat} {g' : Gate}
      (hmsg : msg = .close id ∨ msg = .error id) (ha : g.hash.Holds id a)
      (hr : g.Reslots g' a (-1)) (hsid : g'.sid = if id = g.sid then -1 else g.sid) :
      GateStep md5 g ⟨msg, wsz⟩ g' []
  | gone {id wsz : Int} {msg : GateMessage} (hmsg : msg = .close id ∨ msg = .error id)
      (habsent : ∀ a, ¬ g.hash.Holds id a) : GateStep md5 g ⟨msg, wsz⟩ g []
  | refuse {ud wsz : Int} (hfull : hashidFull g.hash = true) :
      GateStep md5 g ⟨.accept g.listenId ud, wsz⟩ g [.close ud]
  | accept {ud wsz : Int} {a : Nat} {g' : Gate} (hroom : ¬ hashidFull g.hash = true)
      (hpos : 0 < ud) (habsent : ∀ a, ¬ g.hash.Holds ud a) (hfree : ∀ id, ¬ g.hash.Holds id a)
      (hr : g.Reslots g' a ud) (hsid : g'.sid = g.sid) :
      GateStep md5 g ⟨.accept g.listenId ud, wsz⟩ g' [.start ud]

theorem data_step (md5 : HandshakeMd5) (hok : GateOk g) (id : Int) (data : List Byte) (wsz : Int) :
    ∃ g' o, dispatchSocketMessage md5 g ⟨.data id data, wsz⟩ = some (g', o) ∧
      GateStep md5 g ⟨.data id data, wsz⟩ g' o := by
  rcases hok.hash.lookup_cases id with ⟨a, ha, hlookup⟩ | ⟨hnone, hlookup⟩
  · obtain ⟨g', hrun, hw, hsid⟩ :=
      dispatchMessage_spec md5 hok.hash hok.buffered (hok.header a) id data wsz
    refine ⟨g', _, ?_, .message ha hw hsid⟩
    simp [dispatchSocketMessage, hlookup, hrun]
  · refine ⟨g, [.close id], ?_, .unknown hnone⟩
    simp [dispatchSocketMessage, hlookup]

theorem connect_step (md5 : HandshakeMd5) (hok : GateOk g) (id wsz : Int) :
    ∃ g' o, dispatchSocketMessage md5 g ⟨.connect id, wsz⟩ = some (g', o) ∧
      GateStep md5 g ⟨.connect id, wsz⟩ g' o := by
  by_cases hlisten : id = g.listenId
  · refine ⟨g, [], ?_, .connect (Or.inl hlisten)⟩
    simp [dispatchSocketMessage, hlisten]
  rcases hok.hash.lookup_cases id with ⟨a, ha, hlookup⟩ | ⟨hnone, hlookup⟩
  · refine ⟨g, [], ?_, .connect (Or.inr ⟨a, ha⟩)⟩
    simp [dispatchSocketMessage, hlookup, hlisten]
  · refine ⟨g, [.close id], ?_, .stranger hlisten hnone⟩
    simp [dispatchSocketMessage, hlookup, hlisten]

theorem remove_step (md5 : HandshakeMd5) (hok : GateOk g) {msg : GateMessage}
    (hmsg : msg = .close id ∨ msg = .error id) (wsz : Int) :
    ∃ g' o, dispatchSocketMessage md5 g ⟨msg, wsz⟩ = some (g', o) ∧
      GateStep md5 g ⟨msg, wsz⟩ g' o := by
  have hrun : dispatchSocketMessage md5 g ⟨msg, wsz⟩ = removeConnection g id := by
    rcases hmsg with rfl | rfl <;> rfl
  rw [hrun]
  by_cases hlive : ∃ a, g.hash.Holds id a
  · obtain ⟨a, ha⟩ := hlive
    obtain ⟨g', hremove, hr, hsid⟩ := removeConnection_live hok ha
    exact ⟨g', [], hremove, .remove hmsg ha hr hsid⟩
  · have hnone : ∀ a, ¬ g.hash.Holds id a := fun a ha => hlive ⟨a, ha⟩
    exact ⟨g, [], removeConnection_absent hok hnone, .gone hmsg hnone⟩

theorem accept_step (md5 : HandshakeMd5) (hok : GateOk g) {ud wsz : Int}
    (hfresh : FreshAccept g ⟨.accept g.listenId ud, wsz⟩)
    (hroom : hashidFull g.hash = true ∨ ∃ hash a, hashidInsert g.hash ud = some (hash, a)) :
    ∃ g' o, dispatchSocketMessage md5 g ⟨.accept g.listenId ud, wsz⟩ = some (g', o) ∧
      GateStep md5 g ⟨.accept g.listenId ud, wsz⟩ g' o := by
  obtain ⟨hpos, hfresh⟩ := hfresh
  have habsent : ∀ b, ¬ g.hash.Holds ud b := fun b hb => hfresh b hb.1 hb.2.1
  by_cases hfull : hashidFull g.hash = true
  · refine ⟨g, [.close ud], ?_, .refuse hfull⟩
    simp [dispatchSocketMessage, hfull]
  · obtain ⟨hash, a, hinsert⟩ := hroom.resolve_left hfull
    have hfree : ∀ id, ¬ g.hash.Holds id a := by
      intro id hid
      have hnone := (hok.hash.inserted (by omega) habsent hinsert).2.1
      exact hid.2.2 (hid.2.1.symm.trans hnone)
    refine ⟨_, [.start ud], ?_,
      .accept hfull hpos habsent hfree (insert_reslots hok hpos hfresh hinsert) rfl⟩
    simp [dispatchSocketMessage, hfull, hinsert]

/-- Only an accept can fail: for another socket than the listening one, or with
an id so large that the probe overflows. -/
theorem dispatch_total (md5 : HandshakeMd5) (hok : GateOk g) {i : GateInput}
    (hfresh : FreshAccept g i) :
    (∃ g' o, dispatchSocketMessage md5 g i = some (g', o) ∧ GateStep md5 g i g' o) ∨
      dispatchSocketMessage md5 g i = none ∧ (FromListen g i → ¬ InRange g i) := by
  rcases i with ⟨msg, wsz⟩
  cases msg with
  | data id data => exact Or.inl (data_step md5 hok id data wsz)
  | connect id => exact Or.inl (connect_step md5 hok id wsz)
  | close id => exact Or.inl (remove_step md5 hok (Or.inl rfl) wsz)
  | error id => exact Or.inl (remove_step md5 hok (Or.inr rfl) wsz)
  | accept id ud =>
    by_cases hlisten : g.listenId = id
    · subst hlisten
      by_cases hroom : hashidFull g.hash = true ∨ ∃ hash a, hashidInsert g.hash ud = some (hash, a)
      · exact Or.inl (accept_step md5 hok hfresh hroom)
      · obtain ⟨hfull, hinsert⟩ := not_or.mp hroom
        refine Or.inr ⟨?_, fun _ hrange => hinsert ?_⟩
        · have hnone : hashidInsert g.hash ud = none := by
            cases hrun : hashidInsert g.hash ud with
            | none => rfl
            | some result => exact absurd ⟨result.1, result.2, hrun⟩ hinsert
          simp [dispatchSocketMessage, hfull, hnone]
        · have hcount : g.hash.count ≠ g.hash.cap := by
            intro h
            exact hfull (beq_iff_eq.mpr h)
          have hmax : ud + g.hash.cap ≤ 2 ^ 31 - 1 := by
            rw [hok.cap]
            exact hrange
          exact hok.hash.insert_isSome (Int.le_of_lt hfresh.1) hmax hcount
    · refine Or.inr ⟨?_, fun h => absurd h.symm hlisten⟩
      simp [dispatchSocketMessage, hlisten]

theorem dispatch_step {md5 : HandshakeMd5} (hok : GateOk g) {i : GateInput}
    (hfresh : FreshAccept g i) {o : List Act}
    (h : dispatchSocketMessage md5 g i = some (g', o)) : GateStep md5 g i g' o := by
  rcases dispatch_total md5 hok hfresh with ⟨g₁, o₁, hrun, hstep⟩ | ⟨hnone, -⟩
  · obtain ⟨rfl, rfl⟩ := Prod.mk.inj (Option.some.inj (h.symm.trans hrun))
    exact hstep
  · simp [hnone] at h

/-! ## What a step reads and changes -/

theorem Gate.Reslots.holds_of_free (hr : g.Reslots g' a (-1)) {id : Int} {b : Nat}
    (hb : g'.hash.Holds id b) : b ≠ a ∧ g.hash.Holds id b := by
  have hba : b ≠ a := by
    intro heq
    subst heq
    exact hb.2.2 (hb.2.1.symm.trans hr.set.here)
  exact ⟨hba, (hr.set.holds_iff hba).mp hb⟩

section
variable {md5 : HandshakeMd5} {i : GateInput} {o : List Act} {c : Int}

/-- The bytes of a connection are handled in its slot, or dropped with a close request. -/
theorem GateStep.data_inv {data : List Byte} {wsz : Int}
    (h : GateStep md5 g ⟨.data c data, wsz⟩ g' o) :
    (∃ a, g.hash.Holds c a ∧
        g.Rewrites g' a ((g.view a).message md5 g.routes g.sid c data wsz).conn ∧
        g'.sid = ((g.view a).message md5 g.routes g.sid c data wsz).sid ∧
        o = ((g.view a).message md5 g.routes g.sid c data wsz).acts) ∨
      (∀ a, ¬ g.hash.Holds c a) ∧ g' = g ∧ o = [.close c] := by
  cases h with
  | message ha hw hsid => exact Or.inl ⟨_, ha, hw, hsid, rfl⟩
  | unknown habsent => exact Or.inr ⟨habsent, rfl, rfl⟩
  | remove hmsg _ _ _ => simp at hmsg
  | gone hmsg _ => simp at hmsg

/-- Besides close requests and starts, only the bytes of a live connection have actions. -/
theorem GateStep.mem_inv (h : GateStep md5 g i g' o) {x : Act} (hx : x ∈ o) :
    (∃ c data wsz a, i = ⟨.data c data, wsz⟩ ∧ g.hash.Holds c a ∧
        x ∈ ((g.view a).message md5 g.routes g.sid c data wsz).acts) ∨
      (∃ id, x = .close id) ∨ ∃ id, x = .start id := by
  cases h with
  | message ha _ _ => exact Or.inl ⟨_, _, _, _, rfl, ha, hx⟩
  | unknown _ => exact Or.inr (Or.inl ⟨_, List.mem_singleton.mp hx⟩)
  | connect _ => simp at hx
  | stranger _ _ => exact Or.inr (Or.inl ⟨_, List.mem_singleton.mp hx⟩)
  | remove _ _ _ _ => simp at hx
  | gone _ _ => simp at hx
  | refuse _ => exact Or.inr (Or.inl ⟨_, List.mem_singleton.mp hx⟩)
  | accept _ _ _ _ _ _ => exact Or.inr (Or.inr ⟨_, List.mem_singleton.mp hx⟩)

/-- The frame lemma: only its own bytes, close and error events touch the slot of `c`. -/
theorem GateStep.frame (h : GateStep md5 g i g' o) (ha : g.hash.Holds c a)
    (hdata : ∀ data, i.msg ≠ .data c data) (hclose : i.msg ≠ .close c) (herror : i.msg ≠ .error c) :
    g'.hash.Holds c a ∧ g'.view a = g.view a := by
  cases h with
  | @message id data _ b _ hb hw _ =>
    have hab : a ≠ b := by
      intro heq
      subst heq
      obtain rfl := hb.id_eq ha
      exact hdata data rfl
    exact ⟨hw.hash ▸ ha, hw.others a hab⟩
  | unknown _ => exact ⟨ha, rfl⟩
  | connect _ => exact ⟨ha, rfl⟩
  | stranger _ _ => exact ⟨ha, rfl⟩
  | @remove id _ _ b _ hmsg hb hr _ =>
    have hab : a ≠ b := by
      intro heq
      subst heq
      obtain rfl := hb.id_eq ha
      exact hmsg.elim hclose herror
    exact ⟨(hr.set.holds_iff hab).mpr ha, hr.others a hab⟩
  | gone _ _ => exact ⟨ha, rfl⟩
  | refuse _ => exact ⟨ha, rfl⟩
  | @accept _ _ b _ _ _ _ hfree hr _ =>
    have hab : a ≠ b := by
      intro heq
      subst heq
      exact hfree c ha
    exact ⟨(hr.set.holds_iff hab).mpr ha, hr.others a hab⟩

/-- A connection that is live after a step was live before, or has just been accepted. -/
theorem GateStep.live_inv (hok : GateOk g) (h : GateStep md5 g i g' o) (ha : g'.hash.Holds c a) :
    (g.hash.Holds c a ∧ i.msg ≠ .close c ∧ i.msg ≠ .error c) ∨
      (∃ l, i.msg = .accept l c) ∧ g'.view a = .fresh := by
  cases h with
  | message _ hw _ => exact Or.inl ⟨hw.hash ▸ ha, by simp, by simp⟩
  | unknown _ => exact Or.inl ⟨ha, by simp, by simp⟩
  | connect _ => exact Or.inl ⟨ha, by simp, by simp⟩
  | stranger _ _ => exact Or.inl ⟨ha, by simp, by simp⟩
  | @remove id _ _ b _ hmsg hb hr _ =>
    obtain ⟨hab, ha'⟩ := hr.holds_of_free ha
    have hid : id ≠ c := by
      intro heq
      subst heq
      exact hab (hok.hash.distinct ha' hb)
    rcases hmsg with hmsg | hmsg
    · exact Or.inl ⟨ha', by simp [hmsg, hid], by simp [hmsg]⟩
    · exact Or.inl ⟨ha', by simp [hmsg], by simp [hmsg, hid]⟩
  | @gone id _ _ hmsg habsent =>
    have hid : id ≠ c := by
      intro heq
      subst heq
      exact habsent a ha
    rcases hmsg with hmsg | hmsg
    · exact Or.inl ⟨ha, by simp [hmsg, hid], by simp [hmsg]⟩
    · exact Or.inl ⟨ha, by simp [hmsg], by simp [hmsg, hid]⟩
  | refuse _ => exact Or.inl ⟨ha, by simp, by simp⟩
  | @accept ud _ b _ _ _ _ _ hr _ =>
    by_cases hab : a = b
    · subst hab
      have hud : ud = c := hr.set.here.symm.trans ha.2.1
      exact Or.inr ⟨⟨_, by rw [hud]⟩, hr.here⟩
    · exact Or.inl ⟨(hr.set.holds_iff hab).mp ha, by simp, by simp⟩

end

/-! ## The invariant -/

theorem Gate.Reslots.holds_self (hr : g.Reslots g' a id) (hid : id ≠ -1) :
    g'.hash.Holds id a :=
  ⟨hr.set.cap.symm ▸ hr.lt_cap, hr.set.here, hid⟩

theorem GateStep.ok {md5 : HandshakeMd5} {i : GateInput} {o : List Act} (hok : GateOk g)
    (h : GateStep md5 g i g' o) : GateOk g' := by
  cases h with
  | @message id data wsz a _ ha hw hsid =>
    apply hok.rewrites hw ha
    · exact RefConn.message_header_lt md5 g.routes g.sid id (hok.header a) data wsz
    · rw [hsid]
      rcases RefConn.message_sid md5 g.routes g.sid id (g.view a) data wsz with h | h
      · exact Or.inl h
      · exact Or.inr h.2
  | unknown _ => exact hok
  | connect _ => exact hok
  | stranger _ _ => exact hok
  | @remove id _ _ a _ _ ha hr hsid =>
    apply hok.reslots hr (Or.inl rfl)
    intro hpos
    rw [hsid] at hpos ⊢
    by_cases hs : id = g.sid
    · simp [hs] at hpos
    · rw [if_neg hs] at hpos ⊢
      obtain ⟨b, hb⟩ := hok.server hpos
      have hba : b ≠ a := by
        intro heq
        subst heq
        exact hs (ha.id_eq hb)
      exact ⟨b, (hr.set.holds_iff hba).mpr hb⟩
  | gone _ _ => exact hok
  | refuse _ => exact hok
  | @accept ud _ a _ _ hpos _ hfree hr hsid =>
    apply hok.reslots hr (Or.inr hpos)
    intro hs
    rw [hsid] at hs ⊢
    obtain ⟨b, hb⟩ := hok.server hs
    have hba : b ≠ a := by
      intro heq
      subst heq
      exact hfree _ hb
    exact ⟨b, (hr.set.holds_iff hba).mpr hb⟩

end NetgameFormal

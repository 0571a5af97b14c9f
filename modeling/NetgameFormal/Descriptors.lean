import NetgameFormal.ClientOutcomes
import NetgameFormal.Runs

/-!
# Who owns a descriptor

Several client sockets share the descriptor table of one process. `socket_connect`
gives a free number to a socket, `close` frees it whoever asks for it, and the
kernel may hand the number out again. A number may also name a new socket once
the old one is deleted. A run may end in a step that follows a null pointer.
-/

set_option autoImplicit false

namespace NetgameFormal

structure Descriptors where
  sock : Nat → Option Socket
  owner : Int → Option Nat

def Descriptors.init : Descriptors := ⟨fun _ => none, fun _ => none⟩

inductive SocketEvent where
  | connect (k : Nat) (fd : Int)
  | op (k : Nat) (i : ClientInput)
  | delete (k : Nat)

def SocketEvent.actor : SocketEvent → Nat
  | .connect k _ => k
  | .op k _ => k
  | .delete k => k

/-- What `close` does to the descriptor table. -/
def release (owner : Int → Option Nat) : List ClientAct → Int → Option Nat
  | [] => owner
  | .close fd :: acts => release (Function.update owner fd none) acts
  | _ :: acts => release owner acts

def socketDelete (s : Socket) : Option (List ClientAct) := (forceClose s).map (·.2)

def descriptorStep (d : Descriptors) : SocketEvent → Option (Descriptors × List ClientAct)
  | .connect k fd =>
    let s := (d.sock k).getD socketNew
    some (⟨Function.update d.sock k (some (socketConnect s fd)),
      Function.update d.owner fd (some k)⟩, [])
  | .op k i => do
    let s ← d.sock k
    let (s', acts) ← clientStep s i
    some (⟨Function.update d.sock k (some s'), release d.owner acts⟩, acts)
  | .delete k => do
    let s ← d.sock k
    let acts ← socketDelete s
    some (⟨Function.update d.sock k none, release d.owner acts⟩, acts)

/-- What a step has done when it follows a null pointer. -/
def descriptorActs (d : Descriptors) : SocketEvent → List ClientAct
  | .connect _ _ => []
  | .op k i => (d.sock k).elim [] fun s => clientActs s i
  | .delete _ => []

/-- The sockets of a process; it has none once it has followed a null pointer. -/
abbrev processStep : Option Descriptors → SocketEvent →
    Option (Option Descriptors × List ClientAct) :=
  stopping descriptorStep descriptorActs

/-- A new descriptor is a number that is not in use, only sockets that exist are operated on, and
`read` answers no more than it is asked for. -/
def KernelContract (d : Descriptors) : SocketEvent → Prop
  | .connect _ fd => 0 ≤ fd ∧ d.owner fd = none
  | .op k i => ∃ s ∈ d.sock k, i.readLength ≤ s.size
  | .delete k => ∃ s, d.sock k = some s

instance (d : Descriptors) (e : SocketEvent) : Decidable (KernelContract d e) :=
  match e with
  | .connect _ fd => inferInstanceAs (Decidable (0 ≤ fd ∧ d.owner fd = none))
  | .op k i => inferInstanceAs (Decidable (∃ s ∈ d.sock k, i.readLength ≤ s.size))
  | .delete _ => decidable_of_iff _ Option.isSome_iff_exists

/-- Every system call of the socket `k` is on a descriptor that is its own at that moment. -/
def Owned (k : Nat) : (Int → Option Nat) → List ClientAct → Prop
  | _, [] => True
  | owner, act :: acts =>
    (∀ fd, act.descriptor = some fd → fd ≠ -1 → owner fd = some k) ∧
      Owned k (release owner [act]) acts

/-- A step uses descriptors of its own socket only, and a send on a closed socket does nothing. -/
structure DescriptorSafe (d : Descriptors) (e : SocketEvent) (o : List ClientAct)
    (next : Option Descriptors) : Prop where
  owned : Owned e.actor d.owner o
  closedSend : ∀ k s buffer w, e = .op k (.send buffer w) → d.sock k = some s →
    d.owner s.fd ≠ some k → o = [.send buffer (-1)] ∧ next = some d

/-- Closed by a write that failed, with the number still in `fd`. -/
def Socket.Broken (s : Socket) : Prop := s.fd ≠ -1 ∧ s.q = none

/-- On an empty list, something is sent behind a write that fails for good. -/
def SendsBehindFatal : List (List Byte × WriteResult) → Prop
  | [] => False
  | (buffer, w) :: sends =>
    w = .fatal ∧ sends ≠ [] ∨ w.count = buffer.length ∧ SendsBehindFatal sends

/-- Nothing is sent on a broken socket, also not in a callback: neither by the one that reports the
end, nor by that of a frame behind a write that fails for good. -/
def Socket.Careful (s : Socket) : ClientInput → Prop
  | .send _ _ => ¬ s.Broken
  | .sendRemainbuffer _ => True
  | .msgdispatch r sends => s.Open → (r.Closing → sends.headD [] = []) ∧
      ∀ data, r = .bytes data → data ≠ [] → Framing.Completes beNat 2 s.receiver data →
        s.head = none → ¬ SendsBehindFatal (sends.headD [])

/-- Neither is a broken socket deleted. -/
def Descriptors.Careful (d : Descriptors) : SocketEvent → Prop
  | .connect _ _ => True
  | .op k i => ∀ s, d.sock k = some s → s.Careful i
  | .delete k => ∀ s, d.sock k = some s → ¬ s.Broken

/-- One socket of the table: open and in possession of its descriptor, or broken, or shut. -/
structure SlotOk (k : Nat) (owner : Int → Option Nat) (s : Socket) : Prop where
  ok : SocketOk s
  opened : s.Open → owner s.fd = some k
  broken : s.Broken → owner s.fd ≠ some k ∧ s.head = none

structure DescriptorsOk (d : Descriptors) : Prop where
  slot : ∀ k s, d.sock k = some s → SlotOk k d.owner s
  shut : d.owner (-1) = none

variable {d : Descriptors} {s s' : Socket} {o o' : List ClientAct} {owner : Int → Option Nat}
  {k : Nat}

theorem release_append (owner : Int → Option Nat) (o o' : List ClientAct) :
    release owner (o ++ o') = release (release owner o) o' := by
  induction o generalizing owner with
  | nil => rfl
  | cons act o ih => cases act <;> exact ih _

theorem release_of_not_closes (h : ¬ Closes o) : release owner o = owner := by
  induction o with
  | nil => rfl
  | cons act o ih =>
    rw [closes_cons, not_or] at h
    cases act with
    | close fd => exact absurd ⟨fd, rfl⟩ h.1
    | read fd r => exact ih h.2
    | write fd data w => exact ih h.2
    | send buffer ret => exact ih h.2
    | callback frame => exact ih h.2

theorem owned_append : Owned k owner (o ++ o') ↔ Owned k owner o ∧ Owned k (release owner o) o' := by
  induction o generalizing owner with
  | nil => simp [Owned, release]
  | cons act o ih =>
    have hsplit : release owner (act :: o) = release (release owner [act]) o :=
      release_append owner [act] o
    rw [List.cons_append, Owned, Owned, ih, hsplit, and_assoc]

theorem owned_of_touches {fd : Int} (hfd : owner fd = some k) (hclosed : ¬ Closes o)
    (h : ∀ act ∈ o, ∀ d, act.descriptor = some d → d = fd) : Owned k owner o := by
  induction o with
  | nil => trivial
  | cons act o ih =>
    rw [closes_cons, not_or] at hclosed
    have hone : release owner [act] = owner := release_of_not_closes (by simpa using hclosed.1)
    refine ⟨?_, ?_⟩
    · intro d hd _
      rw [h act List.mem_cons_self d hd, hfd]
    · rw [hone]
      exact ih hclosed.2 fun act' hact' => h act' (List.mem_cons_of_mem act hact')

theorem owned_silent (k : Nat) (owner : Int → Option Nat)
    (h : ∀ act ∈ o, act.descriptor = none) :
    Owned k owner o ∧ release owner o = owner := by
  have hclosed : ¬ Closes o := by
    rintro ⟨fd, hmem⟩
    simpa [ClientAct.descriptor] using h _ hmem
  refine ⟨?_, release_of_not_closes hclosed⟩
  induction o with
  | nil => trivial
  | cons act o ih =>
    rw [closes_cons, not_or] at hclosed
    have hone : release owner [act] = owner := release_of_not_closes (by simpa using hclosed.1)
    refine ⟨by simp [h act], ?_⟩
    rw [hone]
    exact ih (fun act' hact' => h act' (List.mem_cons_of_mem act hact')) hclosed.2

theorem owned_closing {fd : Int} (hfd : owner fd = some k) (hopen : ¬ Closes o)
    (htouches : ∀ act ∈ o, ∀ d, act.descriptor = some d → d = fd)
    (hsilent : ∀ act ∈ o', act.descriptor = none) :
    Owned k owner (o ++ .close fd :: o') ∧
      release owner (o ++ .close fd :: o') = Function.update owner fd none := by
  have hsame : release owner o = owner := release_of_not_closes hopen
  obtain ⟨hrest, hrelease⟩ := owned_silent k (Function.update owner fd none) hsilent
  rw [owned_append, release_append, hsame]
  refine ⟨⟨owned_of_touches hfd hopen htouches, ?_, hrest⟩, hrelease⟩
  intro d hd _
  obtain rfl := Option.some.inj hd
  exact hfd

/-! ## One operation on one socket -/

/-- What a careful operation does to the table: nothing, or it frees a descriptor of its own. -/
structure SlotStep (k : Nat) (owner : Int → Option Nat) (s s' : Socket) (o : List ClientAct) :
    Prop where
  owned : Owned k owner o
  slot : SlotOk k (release owner o) s'
  frees : release owner o = owner ∨
    owner s.fd = some k ∧ release owner o = Function.update owner s.fd none

theorem SlotStep.stays (h : SlotOk k owner s) (hopen : s.Open) (hs' : SocketOk s')
    (hopen' : s'.Open) (hfd : s'.fd = s.fd) (hclosed : ¬ Closes o)
    (htouches : ∀ act ∈ o, ∀ d, act.descriptor = some d → d = s.fd) : SlotStep k owner s s' o := by
  have hsame : release owner o = owner := release_of_not_closes hclosed
  refine ⟨owned_of_touches (h.opened hopen) hclosed htouches, ⟨hs', ?_, ?_⟩, Or.inl hsame⟩
  · intro _
    rw [hsame, hfd]
    exact h.opened hopen
  · rintro ⟨-, hq⟩
    obtain ⟨-, q, hq'⟩ := hopen'
    simp [hq] at hq'

theorem SlotStep.closes (o' : List ClientAct) (h : SlotOk k owner s) (hopen : s.Open)
    (hs' : SocketOk s')
    (hq : s'.q = none) (hfd : s'.fd = s.fd ∧ s'.head = none ∨ s'.fd = -1) (hclosed : ¬ Closes o)
    (htouches : ∀ act ∈ o, ∀ d, act.descriptor = some d → d = s.fd)
    (hsilent : ∀ act ∈ o', act.descriptor = none) :
    SlotStep k owner s s' (o ++ .close s.fd :: o') := by
  have howner := h.opened hopen
  obtain ⟨howned, hrelease⟩ := owned_closing howner hclosed htouches hsilent
  refine ⟨howned, ⟨hs', ?_, ?_⟩, Or.inr ⟨howner, hrelease⟩⟩
  · rintro ⟨-, q, hq'⟩
    simp [hq] at hq'
  · rintro ⟨hbroken, -⟩
    obtain ⟨hsame, hhead⟩ := hfd.resolve_right hbroken
    rw [hrelease, hsame]
    exact ⟨by simp, hhead⟩

theorem SlotStep.idle (hs' : SlotOk k owner s')
    (hsilent : ∀ act ∈ o, act.descriptor = none) : SlotStep k owner s s' o := by
  obtain ⟨howned, hrelease⟩ := owned_silent k owner hsilent
  refine ⟨howned, ?_, Or.inl hrelease⟩
  rw [hrelease]
  exact hs'

theorem Socket.open_or_broken (hfd : s.fd ≠ -1) : s.Open ∨ s.Broken := by
  cases hq : s.q with
  | none => exact Or.inr ⟨hfd, hq⟩
  | some q => exact Or.inl ⟨hfd, q, hq⟩

theorem slotStep_send (h : SlotOk k owner s) {buffer : List Byte} {w : WriteResult}
    (hcareful : ¬ s.Broken) (hrun : socketSend s buffer w = some (s', o)) :
    SlotStep k owner s s' o := by
  have hs' : SocketOk s' := by
    have hstep : clientStep s (.send buffer w) = some (s', o) := hrun
    exact clientStep_ok h.ok hstep
  have hsent := socketSend_sent hrun
  have htouches := hsent.effect.touches
  cases hsent with
  | closed hfd hs =>
    subst hs
    exact .idle h (by simp [ClientAct.descriptor])
  | failed hfd hhead hw hfd' hq hhead' =>
    have hopen := (Socket.open_or_broken hfd).resolve_right hcareful
    have hclosed : ¬ Closes [.write s.fd buffer .fatal] := by simp
    apply SlotStep.closes [.send buffer (-1)] h hopen hs' hq (Or.inl ⟨hfd', hhead'⟩) hclosed
    · simp [ClientAct.descriptor]
    · simp [ClientAct.descriptor]
  | written ret hfd hhead hw hfd' hq hhead' =>
    have hopen := (Socket.open_or_broken hfd).resolve_right hcareful
    obtain ⟨-, q, hsq⟩ := hopen
    apply SlotStep.stays h ⟨hfd, q, hsq⟩ hs' ⟨hfd' ▸ hfd, q, hq.trans hsq⟩ hfd' (by simp)
    exact fun act hact d hd => (htouches act hact d hd).1
  | queued ret hfd hhead hfd' hq hhead' =>
    obtain ⟨-, q, hsq⟩ := (Socket.open_or_broken hfd).resolve_right hcareful
    apply SlotStep.stays h ⟨hfd, q, hsq⟩ hs' ⟨hfd' ▸ hfd, q, hq.trans hsq⟩ hfd' (by simp)
    exact fun act hact d hd => (htouches act hact d hd).1

theorem slotStep_flush (h : SlotOk k owner s) {ws : List WriteResult} {ret : Int}
    (hrun : socketSendRemainbuffer s ws = some (s', ret, o)) : SlotStep k owner s s' o := by
  have hs' : SocketOk s' := by
    have hstep : clientStep s (.sendRemainbuffer ws) = some (s', o) := by
      rw [clientStep, hrun]
      rfl
    exact clientStep_ok h.ok hstep
  unfold socketSendRemainbuffer at hrun
  split at hrun
  · simp only [Option.some.injEq, Prod.mk.injEq] at hrun
    obtain ⟨rfl, -, rfl⟩ := hrun
    exact .idle h (by simp)
  · next hfd =>
    rcases Socket.open_or_broken hfd with hopen | hbroken
    · obtain ⟨-, q, hsq⟩ := hopen
      obtain ⟨hfd', ⟨o', rfl, hq, hhead, -, hwrites⟩ | ⟨hq, -, hwrites⟩⟩ :=
        remainbufferLoop_flush hrun
      · apply SlotStep.closes [] h ⟨hfd, q, hsq⟩ hs' hq (Or.inl ⟨hfd', hhead⟩)
        · rintro ⟨fd, hmem⟩
          obtain ⟨data, w, heq⟩ := hwrites _ hmem
          simp at heq
        · intro act hact d hd
          obtain ⟨data, w, rfl⟩ := hwrites act hact
          exact (Option.some.inj hd).symm
        · simp
      · apply SlotStep.stays h ⟨hfd, q, hsq⟩ hs' ⟨hfd' ▸ hfd, q, hq.trans hsq⟩ hfd'
        · rintro ⟨fd, hmem⟩
          obtain ⟨data, w, heq⟩ := hwrites _ hmem
          simp at heq
        · intro act hact d hd
          obtain ⟨data, w, rfl⟩ := hwrites act hact
          exact (Option.some.inj hd).symm
    · obtain ⟨howner, hhead⟩ := h.broken hbroken
      rw [remainbufferLoop_empty hhead, Option.some.injEq, Prod.mk.injEq, Prod.mk.injEq] at hrun
      obtain ⟨rfl, -, rfl⟩ := hrun
      exact .idle ⟨hs', h.opened, h.broken⟩ (by simp)

theorem slotStep_dispatch (h : SlotOk k owner s) {r : ReadResult}
    {sends : List (List (List Byte × WriteResult))}
    (hcareful : s.Open → r.Closing → sends.headD [] = [])
    (hrun : socketMsgdispatch s r sends = some (s', o)) : SlotStep k owner s s' o := by
  have hdispatched := socketMsgdispatch_dispatched h.ok hrun
  have hs' := hdispatched.ok h.ok
  cases hdispatched with
  | ignored hshut hs =>
    subst hs
    exact .idle h (by simp)
  | again hopen hr hs =>
    subst hs
    exact .stays h hopen hs' hopen rfl (by simp) (by simp [ClientAct.descriptor])
  | closed hopen hr s₁ s₂ acts hfd hq hhead hsends hok hs =>
    rw [hcareful hopen hr, sendAll, Option.some.injEq, Prod.mk.injEq] at hsends
    obtain ⟨rfl, rfl⟩ := hsends
    subst hs
    have hclosed : ¬ Closes [.read s.fd r] := by simp
    apply SlotStep.closes [.callback none] h hopen hs' hq (Or.inr rfl) hclosed
    · simp [ClientAct.descriptor]
    · simp [ClientAct.descriptor]
  | chunk hopen data hr hdata acts hstep hlive htouches hquiet hfatal hopen' =>
    apply SlotStep.stays h hopen hs' hopen' hstep.fd (by simpa using hlive)
    exact List.forall_mem_cons.mpr ⟨by simp [ClientAct.descriptor], htouches⟩

theorem slotStep (h : SlotOk k owner s) {i : ClientInput} (hcareful : s.Careful i)
    (hrun : clientStep s i = some (s', o)) : SlotStep k owner s s' o := by
  cases i with
  | send buffer w => exact slotStep_send h hcareful hrun
  | sendRemainbuffer ws =>
    obtain ⟨⟨s₁, ret, o₁⟩, hflush, hout⟩ := Option.map_eq_some_iff.mp hrun
    obtain ⟨rfl, rfl⟩ := Prod.mk.inj hout
    exact slotStep_flush h hflush
  | msgdispatch r sends => exact slotStep_dispatch h (fun hopen => (hcareful hopen).1) hrun

theorem SendsBehindFatal.reaches {sends : List (List Byte × WriteResult)}
    (h : SendsBehindFatal sends) : ReachesFatal sends := by
  induction sends with
  | nil => exact h
  | cons p sends ih =>
    rcases h with ⟨hw, -⟩ | ⟨hcount, hlater⟩
    · exact .inl hw
    · exact .inr ⟨hcount, ih hlater⟩

/-- A send on a broken socket starts with a write to a number the socket has lost. -/
theorem Sent.not_owned {buffer : List Byte} {w : WriteResult} (o' : List ClientAct)
    (h : Sent s buffer w s' o)
    (hfd : s.fd ≠ -1) (hhead : s.head = none) (howner : owner s.fd ≠ some k) :
    ¬ Owned k owner (o ++ o') := by
  intro howned
  cases h with
  | closed hshut hs => exact hfd hshut
  | failed _ _ hw _ _ _ => exact howner (howned.1 s.fd rfl hfd)
  | written ret _ _ hw _ _ _ => exact howner (howned.1 s.fd rfl hfd)
  | queued ret _ hfull _ _ _ => exact hfull hhead

theorem not_owned (h : SlotOk k owner s) {i : ClientInput} (hcareful : ¬ s.Careful i)
    (hrun : clientStep s i = some (s', o)) : ¬ Owned k owner o := by
  cases i with
  | send buffer w =>
    have hbroken : s.Broken := not_not.mp hcareful
    obtain ⟨howner, hhead⟩ := h.broken hbroken
    have hnot := (socketSend_sent hrun).not_owned [] hbroken.1 hhead howner
    rwa [List.append_nil] at hnot
  | sendRemainbuffer ws => exact absurd trivial hcareful
  | msgdispatch r sends =>
    simp only [Socket.Careful, Classical.not_imp, not_and_or] at hcareful
    obtain ⟨hopen, ⟨hr, hsends⟩ | hbehind⟩ := hcareful
    · cases socketMsgdispatch_dispatched h.ok hrun with
      | ignored hshut hs => exact absurd hopen hshut
      | again _ hr' hs =>
        rcases hr with rfl | rfl
        · simp at hr'
        · simp at hr'
      | closed _ _ s₁ s₂ acts hfd hq hhead hrest hok hs =>
        obtain ⟨⟨buffer, w⟩, sends', hcons⟩ := List.exists_cons_of_ne_nil hsends
        rw [hcons] at hrest
        obtain ⟨s₃, o₁, o₂, hsent, -, rfl⟩ := sendAll_cons hrest
        have hlost : Function.update owner s.fd none s₁.fd ≠ some k := by simp [hfd]
        intro howned
        exact hsent.not_owned o₂ (by rw [hfd]; exact hopen.1) hhead hlost howned.2.2.2
      | chunk _ data hr' hdata acts hstep hlive htouches hquiet hfatal hopen' =>
        rcases hr with rfl | rfl
        · exact absurd (ReadResult.bytes.inj hr').symm hdata
        · simp at hr'
    · -- behind a fatal write of a frame's callback the dispatcher does not return
      push Not at hbehind
      obtain ⟨data, hr, hdata, hcompletes, hhead, hsends⟩ := hbehind
      have hnone := (socketMsgdispatch_none_iff h.ok (socketMsgdispatch_fits hopen hrun) sends).mpr
        ⟨hopen, data, hr, hdata, hcompletes, hhead, hsends.reaches⟩
      have hsome : socketMsgdispatch s r sends = some (s', o) := hrun
      simp [hnone] at hsome

/-- The sends of a callback stay on the socket's own descriptor exactly when none of them comes
behind a write that fails for good. -/
theorem sendAll_owned_iff {sends : List (List Byte × WriteResult)} (hfd : s.fd ≠ -1)
    (howner : owner s.fd = some k) (h : sendAll s sends = some (s', o)) :
    Owned k owner o ↔ ¬ (s.head = none ∧ SendsBehindFatal sends) := by
  induction sends generalizing s o with
  | nil =>
    obtain ⟨rfl, rfl⟩ := Prod.mk.inj (Option.some.inj h)
    simp [Owned, SendsBehindFatal]
  | cons p sends ih =>
    obtain ⟨buffer, w⟩ := p
    obtain ⟨s₁, o₁, o₂, hsent, hrest, rfl⟩ := sendAll_cons h
    cases hsent with
    | closed hfd' hs => exact absurd hfd' hfd
    | failed _ hhead hw hfd' hq hhead' =>
      cases sends with
      | nil =>
        obtain ⟨-, rfl⟩ := Prod.mk.inj (Option.some.inj hrest)
        simp [Owned, SendsBehindFatal, ClientAct.descriptor, release, howner]
      | cons p sends =>
        obtain ⟨s₂, o₃, o₄, hsent, -, rfl⟩ := sendAll_cons hrest
        have hlost : Function.update owner s.fd none s₁.fd ≠ some k := by simp [hfd']
        have hnot := hsent.not_owned o₄ (by rwa [hfd']) hhead' hlost
        refine iff_of_false ?_ (by simp [SendsBehindFatal, hhead, hw])
        intro howned
        exact hnot howned.2.2.2
    | written ret _ hhead hw hfd' hq hhead' =>
      have hlater := ih (by rwa [hfd']) (by rwa [hfd']) hrest
      have hsame : release owner [.write s.fd buffer w, .send buffer ret] = owner := rfl
      rw [owned_append, hsame, hlater]
      simp [Owned, SendsBehindFatal, ClientAct.descriptor, release, howner, hhead, hw, hhead']
    | queued ret _ hhead hfd' hq hhead' =>
      have hlater := ih (by rwa [hfd']) (by rwa [hfd']) hrest
      have hsame : release owner [.send buffer ret] = owner := rfl
      rw [owned_append, hsame, hlater]
      simp [Owned, ClientAct.descriptor, hhead, hhead']

/-- So does a dispatch that follows the null queue. -/
theorem Stopped.owned_iff {r : ReadResult} {sends : List (List (List Byte × WriteResult))}
    (hstop : Stopped s r sends o) (howner : owner s.fd = some k) :
    Owned k owner o ↔ s.Careful (.msgdispatch r sends) := by
  obtain ⟨⟨hopen, data, rfl, hdata, hcompletes, hhead, -⟩, frame, s₁, s₂, acts, hfd₁, hhead₁,
    hsends, rfl⟩ := hstop
  have hcalls := sendAll_owned_iff (by rw [hfd₁]; exact hopen.1) (by rwa [hfd₁]) hsends
  have hread : Owned k owner (.read s.fd (.bytes data) :: .callback (some frame) :: acts) ↔
      Owned k owner acts := by
    simp [Owned, ClientAct.descriptor, release, howner]
  rw [hread, hcalls, hhead₁]
  constructor
  · intro hnone _
    refine ⟨?_, fun _ _ _ _ hhead hsends => hnone ⟨hhead, hsends⟩⟩
    rintro (hr | hr)
    · exact absurd (ReadResult.bytes.inj hr) hdata
    · cases hr
  · rintro hcareful ⟨-, hbehind⟩
    exact (hcareful hopen).2 data rfl hdata hcompletes hhead hbehind

/-! ## All sockets -/

variable {d' : Descriptors} {e : SocketEvent}

theorem DescriptorsOk.init : DescriptorsOk .init := ⟨by simp [Descriptors.init], rfl⟩

theorem SlotOk.of_other {j : Nat} {owner' : Int → Option Nat} (h : SlotOk j owner s) (hj : j ≠ k)
    (fd : Int) (hfrees : owner' = owner ∨ owner fd = some k ∧ owner' = Function.update owner fd none) :
    SlotOk j owner' s := by
  rcases hfrees with rfl | ⟨hk, rfl⟩
  · exact h
  · refine ⟨h.ok, ?_, ?_⟩
    · intro hopen
      have hmine := h.opened hopen
      have hne : s.fd ≠ fd := by
        intro heq
        rw [heq, hk] at hmine
        exact hj (Option.some.inj hmine).symm
      rw [Function.update_of_ne hne, hmine]
    · intro hbroken
      refine ⟨?_, (h.broken hbroken).2⟩
      by_cases heq : s.fd = fd
      · simp [heq]
      · rw [Function.update_of_ne heq]
        exact (h.broken hbroken).1

theorem SlotOk.of_connect {j : Nat} {fd : Int} (h : SlotOk j owner s) (hj : j ≠ k)
    (hfree : owner fd = none) : SlotOk j (Function.update owner fd (some k)) s := by
  refine ⟨h.ok, ?_, ?_⟩
  · intro hopen
    have hmine := h.opened hopen
    have hne : s.fd ≠ fd := by
      intro heq
      simp [heq, hfree] at hmine
    rw [Function.update_of_ne hne, hmine]
  · intro hbroken
    refine ⟨?_, (h.broken hbroken).2⟩
    by_cases heq : s.fd = fd
    · simp [heq, hj.symm]
    · rw [Function.update_of_ne heq]
      exact (h.broken hbroken).1

theorem SocketOk.connect (h : SocketOk s) (fd : Int) : SocketOk (socketConnect s fd) where
  writes := ⟨[], rfl, rfl, by simp⟩
  header := h.header
  buffered := h.buffered
  queue := by
    intro q hq
    obtain rfl := Option.some.inj hq
    exact MessageQueue.contains_new

theorem socketNew_ok : SocketOk socketNew where
  writes := ⟨[], rfl, rfl, by simp⟩
  header := Nat.zero_lt_succ _
  buffered := ⟨[], Queues.init Unit⟩
  queue := by simp [socketNew]

theorem socketDelete_eq (h : SlotOk k owner s) : socketDelete s = some [.close s.fd] := by
  obtain ⟨s', hrun, -⟩ := forceClose_spec h.ok
  rw [socketDelete, hrun]
  rfl

theorem DescriptorsOk.update (h : DescriptorsOk d) {slot : Option Socket}
    {owner' : Int → Option Nat} (hk : ∀ s, slot = some s → SlotOk k owner' s)
    (hother : ∀ j s, j ≠ k → SlotOk j d.owner s → SlotOk j owner' s) (hshut : owner' (-1) = none) :
    DescriptorsOk ⟨Function.update d.sock k slot, owner'⟩ := by
  refine ⟨?_, hshut⟩
  intro j s hs
  by_cases hj : j = k
  · subst hj
    exact hk s (by simpa using hs)
  · simp only [Function.update_of_ne hj] at hs
    exact hother j s hj (h.slot j s hs)

theorem update_none_shut {fd : Int} (hshut : owner (-1) = none) :
    Function.update owner fd none (-1) = none := by
  by_cases hfd : -1 = fd
  · rw [hfd, Function.update_self]
  · rw [Function.update_of_ne hfd, hshut]

theorem descriptorStep_ok (h : DescriptorsOk d) (hkernel : KernelContract d e)
    (hstep : descriptorStep d e = some (d', o)) (hcareful : d.Careful e) : DescriptorsOk d' := by
  cases e with
  | connect k fd =>
    obtain ⟨rfl, rfl⟩ := Prod.mk.inj (Option.some.inj hstep)
    obtain ⟨hpos, hfree⟩ := hkernel
    refine h.update ?_ (fun j s hj hs => hs.of_connect hj hfree) ?_
    · intro s hs
      obtain rfl := Option.some.inj hs
      have hok : SocketOk ((d.sock k).getD socketNew) := by
        cases hk : d.sock k with
        | none => exact socketNew_ok
        | some s => exact (h.slot k s hk).ok
      refine ⟨hok.connect fd, fun _ => by simp [socketConnect], ?_⟩
      rintro ⟨-, hq⟩
      simp [socketConnect] at hq
    · rw [Function.update_of_ne (by omega), h.shut]
  | op k i =>
    obtain ⟨s, hs, hstep⟩ := Option.bind_eq_some_iff.mp hstep
    obtain ⟨⟨s', acts⟩, hrun, hout⟩ := Option.bind_eq_some_iff.mp hstep
    obtain ⟨rfl, rfl⟩ := Prod.mk.inj (Option.some.inj hout)
    obtain ⟨-, hslot, hfrees⟩ := slotStep (h.slot k s hs) (hcareful s hs) hrun
    refine h.update ?_ (fun j s' hj hs' => hs'.of_other hj s.fd hfrees) ?_
    · intro s'' hs''
      obtain rfl := Option.some.inj hs''
      exact hslot
    · rcases hfrees with hsame | ⟨-, hupdate⟩
      · rw [hsame, h.shut]
      · rw [hupdate, update_none_shut h.shut]
  | delete k =>
    obtain ⟨s, hs, hstep⟩ := Option.bind_eq_some_iff.mp hstep
    obtain ⟨acts, hrun, hout⟩ := Option.bind_eq_some_iff.mp hstep
    obtain ⟨rfl, rfl⟩ := Prod.mk.inj (Option.some.inj hout)
    have hslot := h.slot k s hs
    obtain rfl := Option.some.inj ((socketDelete_eq hslot).symm.trans hrun)
    refine h.update (by simp) ?_ (update_none_shut h.shut)
    intro j s' hj hs'
    by_cases hfd : s.fd = -1
    · have hsame : Function.update d.owner s.fd none = d.owner := by
        rw [hfd, ← h.shut, Function.update_eq_self]
      exact hs'.of_other hj s.fd (Or.inl hsame)
    · have hopen := (Socket.open_or_broken hfd).resolve_right (hcareful s hs)
      exact hs'.of_other hj s.fd (Or.inr ⟨hslot.opened hopen, rfl⟩)

/-- A socket that is not broken and owns no descriptor is shut. -/
theorem SlotOk.closed_send (h : SlotOk k owner s) (hcareful : ¬ s.Broken)
    (howner : owner s.fd ≠ some k) {buffer : List Byte} {w : WriteResult}
    (hsend : clientStep s (.send buffer w) = some (s', o)) :
    o = [.send buffer (-1)] ∧ s' = s := by
  have hfd : s.fd = -1 := by
    by_contra hfd
    rcases Socket.open_or_broken hfd with hopen | hbroken
    · exact howner (h.opened hopen)
    · exact hcareful hbroken
  cases socketSend_sent hsend with
  | closed _ hs' => exact ⟨rfl, hs'⟩
  | failed hfd' _ _ _ _ _ => exact absurd hfd hfd'
  | written _ hfd' _ _ _ _ _ => exact absurd hfd hfd'
  | queued _ hfd' _ _ _ _ => exact absurd hfd hfd'

theorem SlotOk.delete_owned_iff (h : SlotOk k owner s) :
    Owned k owner [.close s.fd] ↔ ¬ s.Broken := by
  constructor
  · rintro ⟨hclose, -⟩ hbroken
    exact (h.broken hbroken).1 (hclose s.fd rfl hbroken.1)
  · intro hcareful
    refine ⟨?_, trivial⟩
    intro fd hfd hne
    obtain rfl := Option.some.inj hfd
    exact h.opened ((Socket.open_or_broken hne).resolve_right hcareful)

theorem descriptorStep_safe_iff (h : DescriptorsOk d)
    (hstep : descriptorStep d e = some (d', o)) :
    DescriptorSafe d e o (some d') ↔ d.Careful e := by
  cases e with
  | connect k fd =>
    obtain ⟨rfl, rfl⟩ := Prod.mk.inj (Option.some.inj hstep)
    exact iff_of_true ⟨trivial, by simp⟩ trivial
  | op k i =>
    obtain ⟨s, hs, hstep⟩ := Option.bind_eq_some_iff.mp hstep
    obtain ⟨⟨s', acts⟩, hrun, hout⟩ := Option.bind_eq_some_iff.mp hstep
    obtain ⟨rfl, rfl⟩ := Prod.mk.inj (Option.some.inj hout)
    have hslot := h.slot k s hs
    constructor
    · intro hsafe s₁ hs₁
      obtain rfl := Option.some.inj (hs.symm.trans hs₁)
      by_contra hcareful
      exact not_owned hslot hcareful hrun hsafe.owned
    · intro hcareful
      refine ⟨(slotStep hslot (hcareful s hs) hrun).owned, ?_⟩
      rintro k' s₁ buffer w hi hs₁ howner
      obtain ⟨rfl, rfl⟩ := SocketEvent.op.inj hi
      obtain rfl := Option.some.inj (hs.symm.trans hs₁)
      obtain ⟨rfl, rfl⟩ := hslot.closed_send (hcareful s hs) howner hrun
      refine ⟨rfl, congrArg some ?_⟩
      rw [← hs, Function.update_eq_self]
      rfl
  | delete k =>
    obtain ⟨s, hs, hstep⟩ := Option.bind_eq_some_iff.mp hstep
    obtain ⟨acts, hrun, hout⟩ := Option.bind_eq_some_iff.mp hstep
    obtain ⟨rfl, rfl⟩ := Prod.mk.inj (Option.some.inj hout)
    have hslot := h.slot k s hs
    obtain rfl := Option.some.inj ((socketDelete_eq hslot).symm.trans hrun)
    constructor
    · intro hsafe s₁ hs₁
      obtain rfl := Option.some.inj (hs.symm.trans hs₁)
      exact hslot.delete_owned_iff.mp hsafe.owned
    · intro hcareful
      exact ⟨hslot.delete_owned_iff.mpr (hcareful s hs), by simp⟩

/-- Only a dispatch follows a null pointer. -/
theorem descriptorStep_stopped (h : DescriptorsOk d) (hkernel : KernelContract d e)
    (hstep : descriptorStep d e = none) :
    ∃ k s r sends, e = .op k (.msgdispatch r sends) ∧ d.sock k = some s ∧
      Stopped s r sends (descriptorActs d e) := by
  cases e with
  | connect k fd => cases hstep
  | op k i =>
    obtain ⟨s, hs, hfits⟩ := hkernel
    have hs : d.sock k = some s := hs
    have hslot := h.slot k s hs
    have hnone : clientStep s i = none := by
      cases hrun : clientStep s i with
      | none => rfl
      | some next => simp [descriptorStep, hs, hrun] at hstep
    obtain ⟨r, sends, rfl, -⟩ := (clientStep_none_iff hslot.ok hfits).mp hnone
    rcases socketMsgdispatch_outcome hslot.ok hfits sends with
      ⟨hstop, -⟩ | ⟨-, s', o, hrun, -⟩
    · refine ⟨k, s, r, sends, rfl, hs, ?_⟩
      rw [descriptorActs, hs]
      exact hstop
    · have hsome : clientStep s (.msgdispatch r sends) = some (s', o) := hrun
      simp [hnone] at hsome
  | delete k =>
    obtain ⟨s, hs⟩ := hkernel
    simp [descriptorStep, hs, socketDelete_eq (h.slot k s hs)] at hstep

theorem descriptorStep_stopped_iff (h : DescriptorsOk d) (hkernel : KernelContract d e)
    (hstep : descriptorStep d e = none) :
    DescriptorSafe d e (descriptorActs d e) none ↔ d.Careful e := by
  obtain ⟨k, s, r, sends, rfl, hs, hstop⟩ := descriptorStep_stopped h hkernel hstep
  have howned := hstop.owned_iff ((h.slot k s hs).opened hstop.fatal.1)
  constructor
  · intro hsafe s₁ hs₁
    obtain rfl := Option.some.inj (hs.symm.trans hs₁)
    exact howned.mp hsafe.owned
  · intro hcareful
    refine ⟨howned.mpr (hcareful s hs), ?_⟩
    intro k' s₁ buffer w hi
    cases hi

/-- In a run, also in a step that follows a null pointer, every system call is on a descriptor of
the socket's own exactly when every step is careful. -/
theorem descriptors_safe_iff {tr : List (Record (Option Descriptors) SocketEvent ClientAct)}
    {p : Option Descriptors}
    (h : Exec processStep (running KernelContract) (some .init) tr p) :
    (∀ r ∈ tr, ∀ d, r.pre = some d → DescriptorSafe d r.input r.output r.post) ↔
      ∀ r ∈ tr, ∀ d, r.pre = some d → d.Careful r.input :=
  stopping_records_iff DescriptorsOk DescriptorSafe Descriptors.Careful .init
    (fun hinv _ hstep => descriptorStep_safe_iff hinv hstep)
    (fun hinv hkernel hstep => descriptorStep_stopped_iff hinv hkernel hstep)
    (fun hinv hkernel hstep hcareful => descriptorStep_ok hinv hkernel hstep hcareful) h

/-- The socket 0 loses its connection in a send, and the kernel gives its number to the socket 1;
the next send on 0 goes out on the connection of 1. A callback that sends again behind a write that
has failed for good writes to the number just closed, before it follows the null pointer. -/
theorem descriptor_of_another_written :
    (∃ front d e o q, Exec processStep (running KernelContract) (some .init)
        (front ++ [⟨some d, e, o, q⟩]) q ∧
      e.actor = 0 ∧ d.owner 5 = some 1 ∧ o = [.write 5 [2#8] (.wrote 1), .send [2#8] 1] ∧
      ¬ DescriptorSafe d e o q) ∧
    ∃ front d e o, Exec processStep (running KernelContract) (some .init)
        (front ++ [⟨some d, e, o, none⟩]) none ∧
      o = [.read 5 (.bytes [0#8, 2#8, 7#8, 7#8]), .callback (some [0#8, 2#8, 7#8, 7#8]),
        .write 5 [1#8] .fatal, .close 5, .send [1#8] (-1), .write 5 [2#8] (.wrote 1),
        .send [2#8] 1] ∧
      ¬ DescriptorSafe d e o none := by
  have admitted : ∀ {d : Descriptors} {e : SocketEvent}, decide (KernelContract d e) = true →
      running KernelContract (some d) e := by
    intro d e hok s hs
    obtain rfl := Option.some.inj hs
    exact of_decide_eq_true hok
  constructor
  · let e : SocketEvent := .op 0 (.send [2#8] (.wrote 1))
    have hrun : (execute processStep (running KernelContract) (some .init)
        [.connect 0 5, .op 0 (.send [1#8] .fatal), .connect 1 5]).map (fun run => run.2.map fun d =>
          (decide (KernelContract d e), d.owner 5, (descriptorStep d e).map (·.2))) =
        some (some (true, some 1, some [.write 5 [2#8] (.wrote 1), .send [2#8] 1])) := by decide
    obtain ⟨front, p, h, hdata⟩ := exists_exec _ hrun
    obtain ⟨d, hd, hlast⟩ := Option.map_eq_some_iff.mp hdata
    obtain rfl : p = some d := hd
    obtain ⟨hok, hlast⟩ := Prod.mk.inj hlast
    obtain ⟨howner, hlast⟩ := Prod.mk.inj hlast
    obtain ⟨⟨d', o⟩, hstep, rfl⟩ := Option.map_eq_some_iff.mp hlast
    refine ⟨front, d, e, _, some d', .snoc h (admitted hok) (stopping_of_some hstep), rfl, howner,
      rfl, ?_⟩
    intro hsafe
    have hmine : some 1 = some 0 := howner.symm.trans (hsafe.owned.1 5 rfl (by decide))
    simp at hmine
  · let e : SocketEvent := .op 0 (.msgdispatch (.bytes [0#8, 2#8, 7#8, 7#8])
      [[([1#8], .fatal), ([2#8], .wrote 1)]])
    let o : List ClientAct := [.read 5 (.bytes [0#8, 2#8, 7#8, 7#8]),
      .callback (some [0#8, 2#8, 7#8, 7#8]),
      .write 5 [1#8] .fatal, .close 5, .send [1#8] (-1), .write 5 [2#8] (.wrote 1), .send [2#8] 1]
    have hrun : (execute processStep (running KernelContract) (some .init) [.connect 0 5]).map
        (fun run => run.2.map fun d =>
          (decide (KernelContract d e), (descriptorStep d e).isNone, descriptorActs d e)) =
        some (some (true, true, o)) := by decide
    obtain ⟨front, p, h, hdata⟩ := exists_exec _ hrun
    obtain ⟨d, hd, hlast⟩ := Option.map_eq_some_iff.mp hdata
    obtain rfl : p = some d := hd
    obtain ⟨hok, hlast⟩ := Prod.mk.inj hlast
    obtain ⟨hstop, hacts⟩ := Prod.mk.inj hlast
    have hrecord : stopping descriptorStep descriptorActs (some d) e = some (none, o) :=
      hacts ▸ stopping_of_none (Option.isNone_iff_eq_none.mp hstop)
    refine ⟨front, d, e, o, .snoc h (admitted hok) hrecord, rfl, ?_⟩
    intro hsafe
    obtain ⟨-, -, -, -, -, hwrite, -⟩ := hsafe.owned
    have hmine := hwrite 5 rfl (by decide)
    simp [release] at hmine

/-- A socket closed by the end of its stream and then deleted. -/
theorem descriptors_safe_end_of_stream :
    ∃ tr p, Exec processStep (running KernelContract) (some .init) tr p ∧
      outputsOf tr = [.read 5 (.bytes []), .close 5, .callback none, .close (-1)] ∧
      ∀ r ∈ tr, ∀ d, r.pre = some d → DescriptorSafe d r.input r.output r.post := by
  have hrun : (execute processStep (running KernelContract) (some .init)
      [.connect 0 5, .op 0 (.msgdispatch (.bytes []) []), .delete 0]).map (fun run =>
        (outputsOf run.1,
          run.1.map fun r => r.pre.bind fun d => (d.sock 0).map (·.fd))) =
      some ([.read 5 (.bytes []), .close 5, .callback none, .close (-1)],
        [none, some 5, some (-1)]) := by decide
  obtain ⟨⟨tr, p⟩, hexec, hdata⟩ := Option.map_eq_some_iff.mp hrun
  obtain ⟨houtput, hfds⟩ := Prod.mk.inj hdata
  have h := execute_exec hexec
  refine ⟨tr, p, h, houtput, (descriptors_safe_iff h).mpr ?_⟩
  have hinputs := execute_inputs hexec
  obtain ⟨r₁, r₂, r₃, hall⟩ : ∃ r₁ r₂ r₃, tr = [r₁, r₂, r₃] :=
    List.length_eq_three.mp (by simpa using congrArg List.length hfds)
  simp only [hall, List.map_cons, List.map_nil, List.cons.injEq, and_true] at hfds hinputs
  have hshut : ∀ d, r₃.pre = some d → ∀ s, d.sock 0 = some s → ¬ s.Broken := by
    intro d hd s hs hbroken
    have hfd := hfds.2.2
    rw [hd, Option.bind_some, hs, Option.map_some, Option.some.injEq] at hfd
    exact hbroken.1 hfd
  simp [hall, hinputs, Descriptors.Careful, Socket.Careful]
  exact hshut

end NetgameFormal

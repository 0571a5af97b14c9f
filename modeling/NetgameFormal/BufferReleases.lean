import NetgameFormal.GateFrames

/-!
# Who releases the buffers of one event

The frame, the device string and the notice are each allocated once at most
while one chunk is handled. A buffer is released by `FREE`, or by a send that
`socket_server_send` accepts.
-/

set_option autoImplicit false

namespace NetgameFormal

/-- `FREE` of the buffer, or its hand-over: `socket_server_send` owns what it accepts. -/
def Act.releases (b : Buffer) : Act → Bool
  | .free b' => b' = b
  | .send site _ _ wsz => site.buffer = b ∧ 0 ≤ wsz
  | .handshake _ _ => false
  | .handlemsg _ _ => false
  | .malloc _ => false
  | .close _ => false
  | .start _ => false
  | .luaDispatch _ _ => false

def allocations (b : Buffer) (acts : List Act) : Nat := acts.count (.malloc b)

def releases (b : Buffer) (acts : List Act) : Nat := acts.countP (Act.releases b)

/-- Every buffer is allocated once at most, and released as often as it is allocated. -/
structure ReleasedOnce (acts : List Act) : Prop where
  allocated : ∀ b, allocations b acts ≤ 1
  released : ∀ b, releases b acts = allocations b acts

/-- The event completes a handshake frame, or a server frame for a client that is not found, and
the notice is refused. -/
def Unbalanced (g : Gate) (i : GateInput) : Prop :=
  match i.msg with
  | .data id data => ∃ a frame, g.hash.Holds id a ∧ ((g.view a).take data).2 = some frame ∧
      (isHandshake frame = true ∨ (g.conn a).connTp = .server ∧
        g.routes (readBlock frame 2) = false ∧ i.wsz < 0)
  | _ => False

variable {md5 : HandshakeMd5} {g g' : Gate} {b : Buffer}

theorem allocations_append (b : Buffer) (o o' : List Act) :
    allocations b (o ++ o') = allocations b o + allocations b o' :=
  List.count_append

theorem releases_append (b : Buffer) (o o' : List Act) :
    releases b (o ++ o') = releases b o + releases b o' :=
  List.countP_append

/-- `gate_socket_send` releases its buffer once, whatever `socket_server_send` returns. -/
theorem releases_gateSocketSend (b : Buffer) (site : SendSite) (target : Int) (buf : List Byte)
    (wsz : Int) :
    releases b (gateSocketSend site target buf wsz).2 = if site.buffer = b then 1 else 0 := by
  rw [gateSocketSend_acts]
  by_cases hwsz : wsz < 0
  · by_cases hb : site.buffer = b
    · simp [releases, Act.releases, hwsz, hb, Int.not_le.mpr hwsz]
    · simp [releases, Act.releases, hwsz, hb]
  · by_cases hb : site.buffer = b
    · simp [releases, Act.releases, hwsz, hb, Int.not_lt.mp hwsz]
    · simp [releases, Act.releases, hwsz, hb]

theorem allocations_gateSocketSend (b : Buffer) (site : SendSite) (target : Int) (buf : List Byte)
    (wsz : Int) : allocations b (gateSocketSend site target buf wsz).2 = 0 := by
  rw [gateSocketSend_acts]
  split <;> simp [allocations]

theorem gateSocketSend_fails (site : SendSite) (target : Int) (buf : List Byte) (wsz : Int) :
    (gateSocketSend site target buf wsz).1 < 0 ↔ wsz < 0 := by
  unfold gateSocketSend
  split
  · next hneg => exact ⟨fun _ => hneg, fun _ => Int.negSucc_lt_zero 0⟩
  · next hpos => exact ⟨fun h => absurd h (Int.lt_irrefl 0), fun h => absurd h hpos⟩

section Frame
variable (md5 : HandshakeMd5) (tp : ConnTp) (sid id : Int) (routes : Bool) (frame : List Byte)
variable (wsz : Int)

/-- The notice is freed by the failing send, and again by `handlemsg`. -/
theorem handlemsg_gone_acts :
    (refHandlemsg .server sid id false frame wsz).acts = [.malloc .notice] ++
      (gateSocketSend .clientGone sid (goneNotice (readBlock frame 2)) wsz).2 ++
      (if wsz < 0 then [.free .notice] else []) := by
  have hfails := gateSocketSend_fails .clientGone sid (goneNotice (readBlock frame 2)) wsz
  rw [← if_congr hfails rfl rfl]
  rfl

theorem allocations_handlemsg (b : Buffer) :
    allocations b (refHandlemsg tp sid id routes frame wsz).acts =
      if b = .notice ∧ tp = .server ∧ routes = false then 1 else 0 := by
  cases tp with
  | client =>
    unfold refHandlemsg
    by_cases hsid : sid > 0
    · simp [hsid, allocations_gateSocketSend]
    · simp [hsid, allocations]
  | server =>
    cases routes with
    | true => simp [refHandlemsg, allocations_gateSocketSend]
    | false =>
      have hsent := allocations_gateSocketSend b .clientGone sid (goneNotice (readBlock frame 2)) wsz
      have hfree : allocations b (if wsz < 0 then [.free .notice] else []) = 0 := by
        split <;> simp [allocations]
      rw [handlemsg_gone_acts, allocations_append, allocations_append, hsent, hfree]
      cases b <;> simp [allocations]
  | debug => simp [refHandlemsg, allocations]
  | zero => simp [refHandlemsg, allocations]

/-- `handlemsg` releases the frame when it reports it as taken, and the notice once, or twice when
the send of it fails. -/
theorem releases_handlemsg (b : Buffer) :
    releases b (refHandlemsg tp sid id routes frame wsz).acts =
      (if b = .frame ∧ (refHandlemsg tp sid id routes frame wsz).taken = true then 1 else 0) +
        (if b = .notice ∧ tp = .server ∧ routes = false then if wsz < 0 then 2 else 1 else 0) := by
  cases tp with
  | client =>
    unfold refHandlemsg
    by_cases hsid : sid > 0
    · simp [hsid, releases_gateSocketSend, SendSite.buffer, eq_comm]
    · simp [hsid, releases, Act.releases]
  | server =>
    cases routes with
    | true => simp [refHandlemsg, releases_gateSocketSend, SendSite.buffer, eq_comm]
    | false =>
      have hsent := releases_gateSocketSend b .clientGone sid (goneNotice (readBlock frame 2)) wsz
      have htaken : (refHandlemsg .server sid id false frame wsz).taken = false := rfl
      rw [handlemsg_gone_acts, releases_append, releases_append, hsent, htaken]
      by_cases hwsz : wsz < 0
      · cases b <;> simp [releases, Act.releases, SendSite.buffer, hwsz]
      · cases b <;> simp [releases, Act.releases, SendSite.buffer, hwsz]
  | debug => simp [refHandlemsg, releases, Act.releases]
  | zero => simp [refHandlemsg, releases, Act.releases]

/-- The device string of a handshake is never freed. -/
theorem not_releasedOnce_handshake (hshake : isHandshake frame = true) :
    ¬ ReleasedOnce (refFrame md5 tp sid id routes frame wsz).allActs := by
  intro honce
  have hdevice := honce.released .device
  rw [refFrame_allActs, if_pos hshake] at hdevice
  simp only [allocations_append, releases_append] at hdevice
  split at hdevice <;> simp [releases, Act.releases, allocations] at hdevice

variable {md5 tp sid id routes frame wsz}

theorem allocations_frame (hshake : ¬ isHandshake frame = true) (b : Buffer) :
    allocations b (refFrame md5 tp sid id routes frame wsz).allActs =
      (if b = .frame then 1 else 0) +
        if b = .notice ∧ tp = .server ∧ routes = false then 1 else 0 := by
  have hfirst : allocations b [.malloc .frame, .handlemsg id frame] =
      if b = .frame then 1 else 0 := by
    cases b <;> rfl
  have hlast : ∀ taken : Bool,
      allocations b (if taken then [] else [Act.free .frame]) = 0 := by
    intro taken
    cases taken <;> rfl
  rw [refFrame_allActs, if_neg hshake, allocations_append, allocations_append, hfirst, hlast,
    allocations_handlemsg]
  rfl

theorem releases_frame (hshake : ¬ isHandshake frame = true) (b : Buffer) :
    releases b (refFrame md5 tp sid id routes frame wsz).allActs =
      (if b = .frame then 1 else 0) +
        if b = .notice ∧ tp = .server ∧ routes = false then if wsz < 0 then 2 else 1 else 0 := by
  have hfirst : releases b [.malloc .frame, .handlemsg id frame] = 0 := rfl
  have hlast : ∀ taken : Bool, releases b (if taken then [] else [.free .frame]) =
      if b = .frame ∧ taken = false then 1 else 0 := by
    intro taken
    cases taken <;> cases b <;> rfl
  rw [refFrame_allActs, if_neg hshake, releases_append, releases_append, hfirst, hlast,
    releases_handlemsg]
  cases (refHandlemsg tp sid id routes frame wsz).taken <;> cases b <;> simp

theorem releasedOnce_frame_iff :
    ReleasedOnce (refFrame md5 tp sid id routes frame wsz).allActs ↔
      ¬ (isHandshake frame = true ∨ tp = .server ∧ routes = false ∧ wsz < 0) := by
  by_cases hshake : isHandshake frame = true
  · constructor
    · intro honce
      exact absurd honce (not_releasedOnce_handshake md5 tp sid id routes frame wsz hshake)
    · intro hnot
      exact absurd (.inl hshake) hnot
  · constructor
    · intro honce hcase
      rcases hcase with hshake' | ⟨htp, hroutes, hwsz⟩
      · exact hshake hshake'
      · have hnotice := honce.released .notice
        have hgone : Buffer.notice = .notice ∧ tp = .server ∧ routes = false :=
          ⟨rfl, htp, hroutes⟩
        rw [allocations_frame hshake, releases_frame hshake, if_pos hgone, if_pos hgone,
          if_pos hwsz] at hnotice
        cases hnotice
    · intro hnot
      constructor
      · intro b
        rw [allocations_frame hshake]
        cases b with
        | frame => simp
        | device => simp
        | notice =>
          rw [if_neg (by decide)]
          split <;> decide
      · intro b
        rw [allocations_frame hshake, releases_frame hshake]
        congr 1
        split
        · next hgone => rw [if_neg fun hwsz => hnot (.inr ⟨hgone.2.1, hgone.2.2, hwsz⟩)]
        · rfl

end Frame

theorem releasedOnce_of_quiet {acts : List Act} (h : ∀ b, .malloc b ∉ acts)
    (h' : ∀ b, releases b acts = 0) : ReleasedOnce acts where
  allocated := fun b => by rw [allocations, List.count_eq_zero.mpr (h b)]; exact Nat.zero_le 1
  released := fun b => by rw [allocations, List.count_eq_zero.mpr (h b), h' b]

/-- One DATA event: its buffers are in order unless it is of the two kinds. -/
theorem releases_step (md5 : HandshakeMd5) (hok : GateOk g) (id : Int) (data : List Byte)
    (wsz : Int) :
    ∃ g' acts, dispatchSocketMessage md5 g ⟨.data id data, wsz⟩ = some (g', acts) ∧
      (ReleasedOnce acts ↔ ¬ Unbalanced g ⟨.data id data, wsz⟩) := by
  obtain ⟨g', acts, hrun, hstep⟩ := data_step md5 hok id data wsz
  refine ⟨g', acts, hrun, ?_⟩
  rcases hstep.data_inv with ⟨a, ha, -, -, rfl⟩ | ⟨habsent, -, rfl⟩
  · have hcase : Unbalanced g ⟨.data id data, wsz⟩ ↔ ∃ frame,
        ((g.view a).take data).2 = some frame ∧ (isHandshake frame = true ∨
          (g.conn a).connTp = .server ∧ g.routes (readBlock frame 2) = false ∧ wsz < 0) := by
      constructor
      · intro hbad
        obtain ⟨a', frame, ha', htake, hkind⟩ := hbad
        obtain rfl := hok.hash.distinct ha ha'
        exact ⟨frame, htake, hkind⟩
      · intro hbad
        obtain ⟨frame, htake, hkind⟩ := hbad
        exact ⟨a, frame, ha, htake, hkind⟩
    rw [hcase]
    rcases htake : (g.view a).take data with ⟨receiver, _ | frame⟩
    · rw [RefConn.message_none htake]
      have hnil : ReleasedOnce [] := releasedOnce_of_quiet (fun _ => List.not_mem_nil) fun _ => rfl
      simp [hnil]
    · rw [RefConn.message_some htake]
      simp only [Option.some.injEq, exists_eq_left']
      exact releasedOnce_frame_iff
  · have hclose : ReleasedOnce [.close id] :=
      releasedOnce_of_quiet (fun b hb => by cases List.mem_singleton.mp hb) fun _ => rfl
    constructor
    · intro _ hbad
      obtain ⟨a, frame, ha, -⟩ := hbad
      exact habsent a ha
    · intro _
      exact hclose

/-- In every reachable state, whatever `socket_server_send` returns. -/
theorem released_once_iff (md5 : HandshakeMd5) (max : Capacity) (listenId : Int)
    {tr : List (Record Gate GateInput Act)}
    (h : Exec (dispatchSocketMessage md5) FreshAccept (gateInit max listenId) tr g) (id : Int)
    (data : List Byte) (wsz : Int) :
    ∃ g' acts, dispatchSocketMessage md5 g ⟨.data id data, wsz⟩ = some (g', acts) ∧
      (ReleasedOnce acts ↔ ¬ Unbalanced g ⟨.data id data, wsz⟩) :=
  releases_step md5 (gate_invariant h) id data wsz

theorem releasedOnce_iff_all (acts : List Act) :
    ReleasedOnce acts ↔ ∀ b ∈ [Buffer.frame, .device, .notice],
      allocations b acts ≤ 1 ∧ releases b acts = allocations b acts := by
  constructor
  · intro h b _
    exact ⟨h.allocated b, h.released b⟩
  · intro h
    have hall : ∀ b, allocations b acts ≤ 1 ∧ releases b acts = allocations b acts := by
      intro b
      apply h
      cases b <;> simp
    exact ⟨fun b => (hall b).1, fun b => (hall b).2⟩

instance (acts : List Act) : Decidable (ReleasedOnce acts) :=
  decidable_of_iff' _ (releasedOnce_iff_all acts)

/-- A client frame for the server, in a send that fails. -/
theorem released_once_failed_send :
    ∃ tr g g' acts, Exec (dispatchSocketMessage gatewayMd5) FreshAccept (gateInit ⟨2, by decide⟩ 7) tr g ∧
      dispatchSocketMessage gatewayMd5 g ⟨.data 5 (package 0 1 [8, 9]), -1⟩ = some (g', acts) ∧
      .send .toServer 4 (package 5 1 [8, 9]) (-1) ∈ acts ∧ ReleasedOnce acts ∧
      ¬ Unbalanced g ⟨.data 5 (package 0 1 [8, 9]), -1⟩ := by
  have hrun : ((execute (dispatchSocketMessage gatewayMd5) FreshAccept (gateInit ⟨2, by decide⟩ 7)
      [⟨.accept 7 4, 0⟩, ⟨.data 4 (handshakePackage 3 gatewayMd5.server), 0⟩, ⟨.accept 7 5, 0⟩,
        ⟨.data 5 (handshakePackage 3 gatewayMd5.client), 0⟩]).map fun run =>
      (dispatchSocketMessage gatewayMd5 run.2 ⟨.data 5 (package 0 1 [8, 9]), -1⟩).map fun next =>
        decide (.send .toServer 4 (package 5 1 [8, 9]) (-1) ∈ next.2 ∧ ReleasedOnce next.2)) =
      some (some true) := by decide +kernel
  obtain ⟨tr, g, g', acts, h, hstep, hprobe⟩ := exists_exec_step (fun acts =>
    decide (.send .toServer 4 (package 5 1 [8, 9]) (-1) ∈ acts ∧ ReleasedOnce acts)) hrun
  obtain ⟨hsent, honce⟩ := of_decide_eq_true hprobe
  obtain ⟨g'', acts', hstep', hiff⟩ :=
    released_once_iff gatewayMd5 _ 7 h 5 (package 0 1 [8, 9]) (-1)
  rw [hstep] at hstep'
  cases hstep'
  exact ⟨tr, g, g', acts, h, hstep, hsent, honce, hiff.mp honce⟩

/-- The device string of a handshake is released never, and the notice that a client is gone, in a
send that fails, twice. -/
theorem not_released_once :
    (∃ tr g g' acts, Exec (dispatchSocketMessage gatewayMd5) FreshAccept (gateInit ⟨2, by decide⟩ 7) tr g ∧
      dispatchSocketMessage gatewayMd5 g ⟨.data 4 (handshakePackage 3 gatewayMd5.client), 0⟩ =
        some (g', acts) ∧ allocations .device acts = 1 ∧ releases .device acts = 0) ∧
    ∃ tr g g' acts, Exec (dispatchSocketMessage gatewayMd5) FreshAccept (gateInit ⟨2, by decide⟩ 7) tr g ∧
      dispatchSocketMessage gatewayMd5 g ⟨.data 4 (package 77 1 [8, 9]), -1⟩ = some (g', acts) ∧
      allocations .notice acts = 1 ∧ releases .notice acts = 2 := by
  constructor
  · have hrun : ((execute (dispatchSocketMessage gatewayMd5) FreshAccept (gateInit ⟨2, by decide⟩ 7)
        [⟨.accept 7 4, 0⟩]).map fun run =>
        (dispatchSocketMessage gatewayMd5 run.2
          ⟨.data 4 (handshakePackage 3 gatewayMd5.client), 0⟩).map fun next =>
          (allocations .device next.2, releases .device next.2)) = some (some (1, 0)) := by
      decide +kernel
    obtain ⟨tr, g, g', acts, h, hstep, hprobe⟩ := exists_exec_step
      (fun acts => (allocations .device acts, releases .device acts)) hrun
    obtain ⟨hmalloc, hfree⟩ := Prod.mk.inj hprobe
    exact ⟨tr, g, g', acts, h, hstep, hmalloc, hfree⟩
  · have hrun : ((execute (dispatchSocketMessage gatewayMd5) FreshAccept (gateInit ⟨2, by decide⟩ 7)
        [⟨.accept 7 4, 0⟩, ⟨.data 4 (handshakePackage 3 gatewayMd5.server), 0⟩]).map fun run =>
        (dispatchSocketMessage gatewayMd5 run.2 ⟨.data 4 (package 77 1 [8, 9]), -1⟩).map fun next =>
          (allocations .notice next.2, releases .notice next.2)) = some (some (1, 2)) := by
      decide +kernel
    obtain ⟨tr, g, g', acts, h, hstep, hprobe⟩ := exists_exec_step
      (fun acts => (allocations .notice acts, releases .notice acts)) hrun
    obtain ⟨hmalloc, hfree⟩ := Prod.mk.inj hprobe
    exact ⟨tr, g, g', acts, h, hstep, hmalloc, hfree⟩

end NetgameFormal

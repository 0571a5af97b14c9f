import NetgameFormal.CallbackSends

/-!
# How the end of a connection is reported

A tick flushes the pending writes and then dispatches. What a read finds is
reported in the same tick; what a write finds makes the dispatcher return early,
in this tick and in every later one. A run may end in a tick that follows the
null queue, behind a callback whose write failed.
-/

set_option autoImplicit false

namespace NetgameFormal

/-- A call of `socket_send`, or one tick: `lsocketloop` on the socket. -/
inductive TickInput where
  | send (buffer : List Byte) (w : WriteResult)
  | tick (ws : List WriteResult) (r : ReadResult) (sends : List (List (List Byte × WriteResult)))

def lsocketloop (s : Socket) (ws : List WriteResult) (r : ReadResult)
    (sends : List (List (List Byte × WriteResult))) : Option (Socket × List ClientAct) := do
  let (s, _, acts) ← socketSendRemainbuffer s ws
  let (s, acts') ← socketMsgdispatch s r sends
  some (s, acts ++ acts')

def tickStep (s : Socket) : TickInput → Option (Socket × List ClientAct)
  | .send buffer w => socketSend s buffer w
  | .tick ws r sends => lsocketloop s ws r sends

/-- What a step has done when it follows a null pointer. -/
def tickActs (s : Socket) : TickInput → List ClientAct
  | .send _ _ => []
  | .tick ws r sends =>
    match socketSendRemainbuffer s ws with
    | none => []
    | some (s, _, acts) => acts ++ socketMsgdispatchActs s r sends

/-- A socket and its loop; there is none once the process has followed a null pointer. -/
abbrev loopStep : Option Socket → TickInput → Option (Option Socket × List ClientAct) :=
  stopping tickStep tickActs

def ReadFits (s : Socket) : TickInput → Prop
  | .send _ _ => True
  | .tick _ r _ => r.length ≤ s.size

instance (s : Socket) (i : TickInput) : Decidable (ReadFits s i) :=
  match i with
  | .send _ _ => .isTrue trivial
  | .tick _ r _ => inferInstanceAs (Decidable (r.length ≤ s.size))

def TickInput.IsTick : TickInput → Prop
  | .send _ _ => False
  | .tick _ _ _ => True

/-- A write outside the callbacks closes the open socket. -/
def WriteCloses (s : Socket) : TickInput → Prop
  | .send _ w => s.Open ∧ s.head = none ∧ w = .fatal
  | .tick ws _ _ => s.Open ∧ FlushFails s.pendingSizes ws

/-- A write inside the callback of a frame closes the open socket. -/
def CallbackCloses (s : Socket) : TickInput → Prop
  | .send _ _ => False
  | .tick ws r sends => s.Open ∧ FlushEmpties s.pendingSizes ws ∧ ∃ data, r = .bytes data ∧
      data ≠ [] ∧ Framing.Completes beNat 2 s.receiver data ∧ ReachesFatal (sends.headD [])

abbrev TickRun := List (Record (Option Socket) TickInput ClientAct)

/-- Every step returns, and a connection that is torn down is reported by the end of the next tick,
and once at most. -/
structure ReportedOnce (tr : TickRun) : Prop where
  returns : ∀ r ∈ tr, r.post ≠ none
  reported : ∀ front t back, tr = front ++ t :: back → t.input.IsTick → Closes (outputsOf front) →
    .callback none ∈ outputsOf front ++ t.output
  once : (outputsOf tr).count (.callback none) ≤ 1

/-- Some step of a run is one in which a write outside the callbacks closes. -/
def WrittenShut (tr : TickRun) : Prop := ∃ r ∈ tr, ∃ s, r.pre = some s ∧ WriteCloses s r.input

/-- What a run knows about its socket: it is open, its end was reported, or its end was lost. -/
inductive Known (tr : TickRun) (s : Socket) : Prop where
  | connected (hopen : s.Open) (hclosed : ¬ Closes (outputsOf tr))
      (hcount : .callback none ∉ outputsOf tr) (hwrites : ¬ WrittenShut tr)
  | reported (hfd : s.fd = -1) (hcount : (outputsOf tr).count (.callback none) = 1)
      (hwrites : ¬ WrittenShut tr)
  | lost (hq : s.q = none) (hclosed : Closes (outputsOf tr)) (hcount : .callback none ∉ outputsOf tr)
      (hwrites : WrittenShut tr)

inductive Ticked (s : Socket) (i : TickInput) (s' : Socket) (o : List ClientAct) : Prop where
  | goesOn (hwrites : ¬ WriteCloses s i) (hopen : s'.Open) (hclosed : ¬ Closes o)
      (hquiet : .callback none ∉ o)
  | readCloses (hwrites : ¬ WriteCloses s i) (hfd : s'.fd = -1)
      (hcount : o.count (.callback none) = 1)
  | writeCloses (hwrites : WriteCloses s i) (hq : s'.q = none) (hclosed : Closes o)
      (hquiet : .callback none ∉ o)

variable {s s' : Socket} {i : TickInput} {o : List ClientAct} {p : Option Socket}

theorem lsocketloop_eq {ws : List WriteResult} {r : ReadResult}
    {sends : List (List (List Byte × WriteResult))} (h : lsocketloop s ws r sends = some (s', o)) :
    ∃ s₁ ret o₁ o₂, socketSendRemainbuffer s ws = some (s₁, ret, o₁) ∧
      socketMsgdispatch s₁ r sends = some (s', o₂) ∧ o = o₁ ++ o₂ := by
  obtain ⟨⟨s₁, ret, o₁⟩, hflush, h⟩ := Option.bind_eq_some_iff.mp h
  obtain ⟨⟨s₂, o₂⟩, hdispatch, hout⟩ := Option.bind_eq_some_iff.mp h
  obtain ⟨rfl, rfl⟩ := Prod.mk.inj (Option.some.inj hout)
  exact ⟨s₁, ret, o₁, o₂, hflush, hdispatch, rfl⟩

theorem tickStep_ok (h : SocketOk s) (hrun : tickStep s i = some (s', o)) : SocketOk s' := by
  cases i with
  | send buffer w => exact clientStep_ok h (i := .send buffer w) hrun
  | tick ws r sends =>
    obtain ⟨s₁, ret, o₁, o₂, hflush, hdispatch, rfl⟩ := lsocketloop_eq hrun
    have hflush' : clientStep s (.sendRemainbuffer ws) = some (s₁, o₁) := by
      rw [clientStep, hflush]
      rfl
    exact clientStep_ok (clientStep_ok h hflush') (i := .msgdispatch r sends) hdispatch

theorem ticked_send (hopen : s.Open) {buffer : List Byte} {w : WriteResult}
    (hrun : socketSend s buffer w = some (s', o)) : Ticked s (.send buffer w) s' o := by
  have hsent := socketSend_sent hrun
  have hquiet := hsent.effect.quiet none
  have hfd := hsent.effect.fd
  obtain ⟨hfd', q, hq⟩ := hopen
  cases hsent with
  | closed hshut hs => exact absurd hshut hfd'
  | failed _ hhead hw _ hq' _ => exact .writeCloses ⟨⟨hfd', q, hq⟩, hhead, hw⟩ hq' (by simp) hquiet
  | written ret _ hhead hw _ hq' _ =>
    exact .goesOn (fun hfails => hw hfails.2.2) ⟨hfd ▸ hfd', q, hq'.trans hq⟩ (by simp) hquiet
  | queued ret _ hhead _ hq' _ =>
    exact .goesOn (fun hfails => hhead hfails.2.1) ⟨hfd ▸ hfd', q, hq'.trans hq⟩ (by simp) hquiet

theorem ticked_tick (h : SocketOk s) (hopen : s.Open) {ws : List WriteResult} {r : ReadResult}
    {sends : List (List (List Byte × WriteResult))}
    (hrun : lsocketloop s ws r sends = some (s', o)) : Ticked s (.tick ws r sends) s' o := by
  obtain ⟨s₁, ret, o₁, o₂, hflush, hdispatch, rfl⟩ := lsocketloop_eq hrun
  have heffect := socketSendRemainbuffer_effect hflush
  have hcloses := socketSendRemainbuffer_closes_iff h hopen.1 hflush
  have hok : SocketOk s₁ := by
    obtain ⟨s₂, ret₂, o₂, hrun₂, hsends⟩ := socketSendRemainbuffer_spec h ws
    obtain ⟨rfl, -⟩ := Prod.mk.inj (Option.some.inj (hflush.symm.trans hrun₂))
    exact hsends.ok
  have hquiet := heffect.quiet none
  have hdispatched := socketMsgdispatch_dispatched hok hdispatch
  by_cases hfails : FlushFails s.pendingSizes ws
  · have hclosed := hcloses.mpr hfails
    have hq := heffect.dead hclosed
    have hshut : ¬ s₁.Open := by
      rintro ⟨-, q, hq'⟩
      simp [hq] at hq'
    -- the queue is gone, so the guard of the dispatcher hides what the flush has found
    cases hdispatched with
    | ignored _ hs =>
      subst hs
      exact .writeCloses ⟨hopen, hfails⟩ hq (by simp [hclosed]) (by simpa using hquiet)
    | again hopen₁ hr hs => exact absurd hopen₁ hshut
    | closed hopen₁ hr s₂ s₃ acts hfd hq hhead hsends hok hs => exact absurd hopen₁ hshut
    | chunk hopen₁ data hr hdata acts hstep hlive htouches hquiet hfatal hopen' =>
      exact absurd hopen₁ hshut
  · have hlive := mt hcloses.mp hfails
    have hwrites : ¬ WriteCloses s (.tick ws r sends) := fun hw => hfails hw.2
    obtain ⟨hfd, q, hq⟩ := hopen
    have hopen₁ : s₁.Open := ⟨heffect.fd ▸ hfd, q, (heffect.alive hlive).trans hq⟩
    cases hdispatched with
    | ignored hshut hs => exact absurd hopen₁ hshut
    | again _ hr hs =>
      subst hs
      exact .goesOn hwrites hopen₁ (by simp [hlive]) (by simpa using hquiet)
    | closed _ hr s₂ s₃ acts hfd hq hhead hsends hok hs =>
      subst hs
      have hnone := (sendAll_effect hsends).quiet none
      refine .readCloses hwrites rfl ?_
      rw [List.count_append, List.count_eq_zero.mpr hquiet]
      simp [List.count_eq_zero.mpr hnone]
    | chunk _ data hr hdata acts hstep hlive' htouches hquiet' hfatal hopen' =>
      exact .goesOn hwrites hopen' (by simp [hlive, hlive']) (by simp [hquiet, hquiet'])

/-! ## Runs -/

theorem ticked (h : SocketOk s) (hopen : s.Open) (hrun : tickStep s i = some (s', o)) :
    Ticked s i s' o := by
  cases i with
  | send buffer w => exact ticked_send hopen hrun
  | tick ws r sends => exact ticked_tick h hopen hrun

/-- Nothing opens a socket again or reports it: its queue is gone, or its descriptor is. -/
theorem tickStep_shut (hshut : ¬ s.Open) (hrun : tickStep s i = some (s', o)) :
    .callback none ∉ o ∧ (s.fd = -1 → s'.fd = -1) ∧ (s.q = none → s'.q = none) ∧
      ¬ WriteCloses s i := by
  have hkept : ∀ {s s' : Socket} {o}, SendEffect s s' o → s.q = none → s'.q = none := by
    intro s s' o heffect hq
    by_cases hclosed : Closes o
    · exact heffect.dead hclosed
    · exact (heffect.alive hclosed).trans hq
  cases i with
  | send buffer w =>
    have heffect := (socketSend_sent hrun).effect
    exact ⟨heffect.quiet none, heffect.fd.trans, hkept heffect, fun hw => hshut hw.1⟩
  | tick ws r sends =>
    obtain ⟨s₁, ret, o₁, o₂, hflush, hdispatch, rfl⟩ := lsocketloop_eq hrun
    have heffect := socketSendRemainbuffer_effect hflush
    have hshut₁ : ¬ s₁.Open := by
      rintro ⟨hfd, q, hq⟩
      by_cases hclosed : Closes o₁
      · simp [heffect.dead hclosed] at hq
      · exact hshut ⟨heffect.fd ▸ hfd, q, (heffect.alive hclosed).symm.trans hq⟩
    have hidle : s' = s₁ ∧ o₂ = [] := by
      unfold socketMsgdispatch at hdispatch
      cases hq : s₁.q with
      | none =>
        simp only [hq, Option.some.injEq, Prod.mk.injEq] at hdispatch
        exact ⟨hdispatch.1.symm, hdispatch.2.symm⟩
      | some q =>
        have hfd : s₁.fd = -1 := by
          by_contra hfd
          exact hshut₁ ⟨hfd, q, hq⟩
        simp only [hq, hfd, if_true, Option.some.injEq, Prod.mk.injEq] at hdispatch
        exact ⟨hdispatch.1.symm, hdispatch.2.symm⟩
    obtain ⟨rfl, rfl⟩ := hidle
    refine ⟨by simpa using heffect.quiet none, heffect.fd.trans, hkept heffect, ?_⟩
    exact fun hw => hshut hw.1

theorem tickStep_none_iff (h : SocketOk s) (hfits : ReadFits s i) :
    tickStep s i = none ↔ CallbackCloses s i := by
  cases i with
  | send buffer w =>
    obtain ⟨s', o, hrun, -⟩ := socketSend_spec h buffer w
    simp [tickStep, hrun, CallbackCloses]
  | tick ws r sends =>
    obtain ⟨s₁, ret, o₁, hflush, hsends⟩ := socketSendRemainbuffer_spec h ws
    have heffect := socketSendRemainbuffer_effect hflush
    have hfits₁ : r.length ≤ s₁.size := by
      rw [socketSendRemainbuffer_size hflush]
      exact hfits
    have hloop : lsocketloop s ws r sends = none ↔ socketMsgdispatch s₁ r sends = none := by
      cases hrun : socketMsgdispatch s₁ r sends with
      | none => simp [lsocketloop, hflush, hrun]
      | some next => simp [lsocketloop, hflush, hrun]
    rw [tickStep, hloop, socketMsgdispatch_none_iff hsends.ok hfits₁]
    constructor
    · rintro ⟨⟨hfd, q, hq⟩, data, hr, hdata, hcompletes, hhead, hfatal⟩
      have hlive : ¬ Closes o₁ := fun hclosed => by simp [heffect.dead hclosed] at hq
      obtain ⟨hbuf, hmp, hsame⟩ := hsends.reader hlive
      rw [heffect.fd] at hfd
      refine ⟨⟨hfd, q, hsame.symm.trans hq⟩,
        (socketSendRemainbuffer_head_iff h hfd hflush).mp ⟨hlive, hhead⟩, data, hr, hdata, ?_, hfatal⟩
      rwa [Socket.receiver, hbuf, hmp] at hcompletes
    · rintro ⟨⟨hfd, q, hq⟩, hempties, data, hr, hdata, hcompletes, hfatal⟩
      obtain ⟨hlive, hhead⟩ := (socketSendRemainbuffer_head_iff h hfd hflush).mpr hempties
      obtain ⟨hbuf, hmp, hsame⟩ := hsends.reader hlive
      refine ⟨⟨heffect.fd ▸ hfd, q, hsame.trans hq⟩, data, hr, hdata, ?_, hhead, hfatal⟩
      rwa [Socket.receiver, hbuf, hmp]

theorem writtenShut_snoc {tr : TickRun} {q : Option Socket} :
    WrittenShut (tr ++ [⟨some s, i, o, q⟩]) ↔ WrittenShut tr ∨ WriteCloses s i := by
  simp [WrittenShut, or_and_right, exists_or]

theorem known_run {fd : Int} (hfd : fd ≠ -1) {tr : TickRun}
    (h : Exec loopStep (running ReadFits) (some (socketConnect socketNew fd)) tr p) :
    ∀ s, p = some s → SocketOk s ∧ Known tr s := by
  induction h with
  | nil =>
    intro s hs
    obtain rfl := Option.some.inj hs
    exact ⟨socketConnect_ok fd, .connected ⟨hfd, _, rfl⟩ (by simp) (by simp) (by simp [WrittenShut])⟩
  | @snoc tr p q i o hrun hok hstep ih =>
    rintro s' rfl
    obtain ⟨s, rfl, hcases⟩ := stopping_cases hstep
    obtain ⟨s₁, hs₁, hstep⟩ := hcases.resolve_right (by simp)
    obtain rfl := Option.some.inj hs₁
    obtain ⟨hs, hknown⟩ := ih s rfl
    refine ⟨tickStep_ok hs hstep, ?_⟩
    cases hknown with
    | connected hopen hclosed hcount hwrites =>
      cases ticked hs hopen hstep with
      | goesOn hlast hopen' hclosed' hquiet =>
        apply Known.connected hopen'
        · simp [hclosed, hclosed']
        · simp [hcount, hquiet]
        · simp [writtenShut_snoc, hwrites, hlast]
      | readCloses hlast hfd' hone =>
        apply Known.reported hfd'
        · rw [outputsOf_snoc, List.count_append, List.count_eq_zero.mpr hcount, hone]
        · simp [writtenShut_snoc, hwrites, hlast]
      | writeCloses hlast hq hclosed' hquiet =>
        apply Known.lost hq
        · simp [hclosed']
        · simp [hcount, hquiet]
        · exact writtenShut_snoc.mpr (Or.inr hlast)
    | reported hfd' hcount hwrites =>
      obtain ⟨hquiet, hstays, -, hlast⟩ := tickStep_shut (fun hopen => hopen.1 hfd') hstep
      apply Known.reported (hstays hfd')
      · rw [outputsOf_snoc, List.count_append, List.count_eq_zero.mpr hquiet, hcount]
      · simp [writtenShut_snoc, hwrites, hlast]
    | lost hq hclosed hcount hwrites =>
      have hshut : ¬ s.Open := by
        rintro ⟨-, q, hq'⟩
        simp [hq] at hq'
      obtain ⟨hquiet, -, hstays, -⟩ := tickStep_shut hshut hstep
      apply Known.lost (hstays hq)
      · simp [hclosed]
      · simp [hcount, hquiet]
      · exact writtenShut_snoc.mpr (Or.inl hwrites)

theorem returns_iff {fd : Int} (hfd : fd ≠ -1) {tr : TickRun}
    (h : Exec loopStep (running ReadFits) (some (socketConnect socketNew fd)) tr p) :
    ∀ r ∈ tr, ∃ s, r.pre = some s ∧ (r.post = none ↔ CallbackCloses s r.input) := by
  induction h with
  | nil => simp
  | @snoc tr p q i o hrun hok hstep ih =>
    rw [List.forall_mem_append, List.forall_mem_singleton]
    refine ⟨ih, ?_⟩
    obtain ⟨s, rfl, hcases⟩ := stopping_cases hstep
    refine ⟨s, rfl, ?_⟩
    rw [← tickStep_none_iff (known_run hfd hrun s rfl).1 (hok s rfl)]
    rcases hcases with ⟨s', rfl, hnext⟩ | ⟨rfl, hnext, -⟩
    · simp [hnext]
    · simp [hnext]

theorem all_return_iff {fd : Int} (hfd : fd ≠ -1) {tr : TickRun}
    (h : Exec loopStep (running ReadFits) (some (socketConnect socketNew fd)) tr p) :
    (∀ r ∈ tr, r.post ≠ none) ↔ ∀ r ∈ tr, ∀ s, r.pre = some s → ¬ CallbackCloses s r.input := by
  apply forall₂_congr
  intro r hr
  obtain ⟨s, hs, hiff⟩ := returns_iff hfd h r hr
  rw [Ne, hiff, hs]
  simp only [Option.some.injEq, forall_eq']

/-- The knowledge about a part of a run that returns from all its steps. -/
theorem known_front {fd : Int} (hfd : fd ≠ -1) {tr front back : TickRun}
    (h : Exec loopStep (running ReadFits) (some (socketConnect socketNew fd)) tr p)
    (hreturns : ∀ r ∈ tr, r.post ≠ none) (htr : tr = front ++ back) : ∃ s, Known front s := by
  subst htr
  obtain ⟨q, hfront, -⟩ := h.split
  have hlast : q ≠ none := by
    cases hfront with
    | nil => simp
    | @snoc tr s _ i o hrun hok hstep => exact hreturns ⟨s, i, o, q⟩ (by simp)
  obtain ⟨s, hs⟩ := Option.ne_none_iff_exists'.mp hlast
  exact ⟨s, (known_run hfd hfront s hs).2⟩

section Knowledge

variable {tr : TickRun}

theorem Known.unreported (h : Known tr s) (hwritten : WrittenShut tr) :
    Closes (outputsOf tr) ∧ .callback none ∉ outputsOf tr := by
  cases h with
  | connected _ _ _ hwrites => exact absurd hwritten hwrites
  | reported _ _ hwrites => exact absurd hwritten hwrites
  | lost _ hclosed hcount _ => exact ⟨hclosed, hcount⟩

theorem Known.reported_mem (h : Known tr s) (hwrites : ¬ WrittenShut tr)
    (hclosed : Closes (outputsOf tr)) : .callback none ∈ outputsOf tr := by
  cases h with
  | connected _ hlive _ _ => exact absurd hclosed hlive
  | reported _ hcount _ => exact List.count_pos_iff.mp (by omega)
  | lost _ _ _ hwritten => exact absurd hwritten hwrites

theorem Known.count_le (h : Known tr s) : (outputsOf tr).count (.callback none) ≤ 1 := by
  cases h with
  | connected _ _ hcount _ => simp [List.count_eq_zero.mpr hcount]
  | reported _ hcount _ => exact Nat.le_of_eq hcount
  | lost _ _ hcount _ => simp [List.count_eq_zero.mpr hcount]

end Knowledge

/-- The end of a connection is reported in time exactly when no write outside the callbacks has
closed it before some tick, and no write inside the callback of a frame closes it. -/
theorem reported_once_iff {fd : Int} (hfd : fd ≠ -1) {tr : TickRun}
    (h : Exec loopStep (running ReadFits) (some (socketConnect socketNew fd)) tr p) :
    ReportedOnce tr ↔
      (∀ front t back, tr = front ++ t :: back → t.input.IsTick →
        ∀ r ∈ front, ∀ s, r.pre = some s → ¬ WriteCloses s r.input) ∧
      ∀ r ∈ tr, ∀ s, r.pre = some s → ¬ CallbackCloses s r.input := by
  rw [← all_return_iff hfd h]
  constructor
  · rintro ⟨hreturns, hreported, -⟩
    refine ⟨?_, hreturns⟩
    intro front t back htr htick r hr s hs hwrite
    -- what was lost by then stays lost in the tick
    have hnext : tr = (front ++ [t]) ++ back := by simp [htr]
    obtain ⟨s₁, hknown⟩ := known_front hfd h hreturns htr
    obtain ⟨s₂, hknown'⟩ := known_front hfd h hreturns hnext
    have hclosed := (hknown.unreported ⟨r, hr, s, hs, hwrite⟩).1
    have hsilent := (hknown'.unreported ⟨r, List.mem_append_left _ hr, s, hs, hwrite⟩).2
    rw [outputsOf_snoc] at hsilent
    exact hsilent (hreported front t back htr htick hclosed)
  · rintro ⟨hwrites, hreturns⟩
    refine ⟨hreturns, ?_, ?_⟩
    · intro front t back htr htick hclosed
      obtain ⟨s₁, hknown⟩ := known_front hfd h hreturns htr
      have hnone : ¬ WrittenShut front := by
        rintro ⟨r, hr, s, hs, hwrite⟩
        exact hwrites front t back htr htick r hr s hs hwrite
      exact List.mem_append_left _ (hknown.reported_mem hnone hclosed)
    · obtain ⟨s, hknown⟩ := known_front hfd h hreturns (List.append_nil tr).symm
      exact hknown.count_le

/-- A pending byte whose flush finds the connection gone; neither this tick nor the one after it
reports the socket. A tick whose callback loses the connection does not return. -/
theorem failed_flush_not_reported :
    (∃ tr p, Exec loopStep (running ReadFits) (some (socketConnect socketNew 3)) tr p ∧
      tr.map Record.output = [[.write 3 [1#8] .eagain, .send [1#8] 1],
        [.write 3 [1#8] .fatal, .close 3], []] ∧ ¬ ReportedOnce tr) ∧
    ∃ tr, Exec loopStep (running ReadFits) (some (socketConnect socketNew 3)) tr none ∧
      outputsOf tr = [.read 3 (.bytes [0#8, 2#8, 7#8, 7#8]), .callback (some [0#8, 2#8, 7#8, 7#8]),
        .write 3 [1#8] .fatal, .close 3, .send [1#8] (-1)] ∧ ¬ ReportedOnce tr := by
  constructor
  · have hrun : (execute loopStep (running ReadFits) (some (socketConnect socketNew 3))
        [.send [1#8] .eagain, .tick [.fatal] .eagain [], .tick [] .eagain []]).map
        (fun run => run.1.map Record.output) = some [[.write 3 [1#8] .eagain, .send [1#8] 1],
          [.write 3 [1#8] .fatal, .close 3], []] := by decide
    obtain ⟨⟨tr, p⟩, hexec, houtput⟩ := Option.map_eq_some_iff.mp hrun
    refine ⟨tr, p, execute_exec hexec, houtput, ?_⟩
    have hinputs := execute_inputs hexec
    obtain ⟨r₁, r₂, t, rfl⟩ : ∃ r₁ r₂ t, tr = [r₁, r₂, t] :=
      List.length_eq_three.mp (by simpa using congrArg List.length houtput)
    simp only [List.map_cons, List.map_nil, List.cons.injEq, and_true] at houtput hinputs
    obtain ⟨ho₁, ho₂, ho₃⟩ := houtput
    intro hreported
    have hmem := hreported.reported [r₁, r₂] t [] rfl (by simp [hinputs.2.2, TickInput.IsTick])
      (by simp [outputsOf, ho₁, ho₂])
    simp [outputsOf, ho₁, ho₂, ho₃] at hmem
  · have hrun : (execute loopStep (running ReadFits) (some (socketConnect socketNew 3))
        [.tick [] (.bytes [0#8, 2#8, 7#8, 7#8]) [[([1#8], .fatal)]]]).map
        (fun run => (run.1.map fun r => r.post.isNone, run.2.isNone, outputsOf run.1)) =
        some ([true], true, [.read 3 (.bytes [0#8, 2#8, 7#8, 7#8]),
          .callback (some [0#8, 2#8, 7#8, 7#8]), .write 3 [1#8] .fatal, .close 3,
          .send [1#8] (-1)]) := by decide
    obtain ⟨tr, p, hexec, hdata⟩ := exists_exec _ hrun
    obtain ⟨hposts, hdata⟩ := Prod.mk.inj hdata
    obtain ⟨hend, houtput⟩ := Prod.mk.inj hdata
    obtain rfl : p = none := Option.isNone_iff_eq_none.mp hend
    refine ⟨tr, hexec, houtput, ?_⟩
    intro hreported
    obtain ⟨r, rfl⟩ : ∃ r, tr = [r] :=
      List.length_eq_one_iff.mp (by simpa using congrArg List.length hposts)
    have hpost : r.post = none := by simpa using hposts
    exact hreported.returns r List.mem_cons_self hpost

theorem reported_once_end_of_stream :
    ∃ tr p, Exec loopStep (running ReadFits) (some (socketConnect socketNew 3)) tr p ∧
      outputsOf tr = [.read 3 .eagain, .read 3 (.bytes []), .close 3, .callback none] ∧
      ReportedOnce tr := by
  have hrun : (execute loopStep (running ReadFits) (some (socketConnect socketNew 3))
      [.tick [] .eagain [], .tick [] (.bytes []) []]).map (fun run =>
        (run.1.map fun r => r.pre.map fun s => s.pendingSizes, outputsOf run.1)) =
      some ([some [], some []],
        [.read 3 .eagain, .read 3 (.bytes []), .close 3, .callback none]) := by decide
  obtain ⟨⟨tr, p⟩, hexec, hdata⟩ := Option.map_eq_some_iff.mp hrun
  obtain ⟨hsizes, houtput⟩ := Prod.mk.inj hdata
  have h := execute_exec hexec
  refine ⟨tr, p, h, houtput, (reported_once_iff (by decide) h).mpr ?_⟩
  have hinputs := execute_inputs hexec
  obtain ⟨r₁, r₂, rfl⟩ : ∃ r₁ r₂, tr = [r₁, r₂] :=
    List.length_eq_two.mp (by simpa using congrArg List.length hsizes)
  simp only [List.map_cons, List.map_nil, List.cons.injEq, and_true, Option.map_eq_some_iff]
    at hsizes hinputs
  obtain ⟨⟨s₁, hs₁, hsizes₁⟩, s₂, hs₂, hsizes₂⟩ := hsizes
  have hnone : ∀ r ∈ [r₁, r₂], ∀ s, r.pre = some s →
      ¬ WriteCloses s r.input ∧ ¬ CallbackCloses s r.input := by
    simp [WriteCloses, CallbackCloses, FlushFails, hs₁, hs₂, hsizes₁, hsizes₂, hinputs]
  refine ⟨?_, fun r hr s hs => (hnone r hr s hs).2⟩
  intro front t back hsplit _ r hr s hs
  have hall : [r₁, r₂] = front ++ t :: back := hsplit
  refine (hnone r ?_ s hs).1
  rw [hall]
  exact List.mem_append_left _ hr

end NetgameFormal

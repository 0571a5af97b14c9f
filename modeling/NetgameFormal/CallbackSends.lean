import NetgameFormal.ClientOutcomes
import NetgameFormal.Runs

/-!
# Callbacks that send on the socket being dispatched

A write that fails for good inside a callback deletes the queue the dispatcher
is about to pop from. The socket itself stays well formed and silent: no frame
is called back once a write has failed.
-/

set_option autoImplicit false

namespace NetgameFormal

/-- No frame is called back behind a write that failed for good. -/
def NoFrameAfterFatal (acts : List ClientAct) : Prop :=
  ∀ front back fd data, acts = front ++ .write fd data .fatal :: back → calledBack back = []

variable {s s' : Socket} {o : List ClientAct}

theorem calledBack_eq_nil (h : ∀ frame, .callback frame ∉ o) : calledBack o = [] := by
  refine List.filterMap_eq_nil_iff.mpr ?_
  intro act hact
  cases act with
  | callback frame => exact absurd hact (h frame)
  | read fd r => rfl
  | write fd data w => rfl
  | close fd => rfl
  | send buffer ret => rfl

theorem clientStep_silent (h : SocketOk s) {i : ClientInput}
    (hrun : clientStep s i = some (s', o)) (hgone : s.q = none ∨ FatalWrite o) :
    s'.q = none ∧ calledBack o = [] := by
  have hsends : SendEffect s s' o → s'.q = none ∧ calledBack o = [] := by
    intro heffect
    refine ⟨?_, calledBack_eq_nil heffect.quiet⟩
    by_cases hclosed : Closes o
    · exact heffect.dead hclosed
    · rw [heffect.alive hclosed]
      exact hgone.resolve_right fun hfatal => hclosed (heffect.fatal.mp hfatal)
  cases i with
  | send buffer w => exact hsends (socketSend_sent hrun).effect
  | sendRemainbuffer ws =>
    obtain ⟨⟨s₁, ret, o₁⟩, hflush, hout⟩ := Option.map_eq_some_iff.mp hrun
    obtain ⟨rfl, rfl⟩ := Prod.mk.inj hout
    exact hsends (socketSendRemainbuffer_effect hflush)
  | msgdispatch r sends =>
    have hnotOpen : s.Open → FatalWrite o := by
      rintro ⟨-, q, hq⟩
      exact hgone.resolve_left (by simp [hq])
    cases socketMsgdispatch_dispatched h hrun with
    | ignored hshut hs =>
      subst hs
      exact ⟨hgone.resolve_right (by simp), rfl⟩
    | again hopen hr hs => exact absurd (hnotOpen hopen) (by simp)
    | closed hopen hr s₁ s₂ acts hfd hq hhead hsends' hok hs =>
      subst hs
      have heffect := sendAll_effect hsends'
      refine ⟨?_, ?_⟩
      · by_cases hclosed : Closes acts
        · exact heffect.dead hclosed
        · exact (heffect.alive hclosed).trans hq
      · have hnil : calledBack acts = [] := calledBack_eq_nil heffect.quiet
        exact hnil
    | chunk hopen data hr hdata acts hstep hlive htouches hquiet hfatal hopen' =>
      exact absurd (hnotOpen hopen) (by simpa using hfatal)

theorem NoFrameAfterFatal.append {past : List ClientAct} (h : NoFrameAfterFatal past)
    (ho : FatalWrite past ∨ FatalWrite o → calledBack o = []) : NoFrameAfterFatal (past ++ o) := by
  intro front back fd data heq
  rcases List.append_eq_append_iff.mp heq with ⟨mid, -, ho'⟩ | ⟨mid, hpast, hmid⟩
  · have hquiet := ho (Or.inr ⟨fd, data, by simp [ho']⟩)
    rw [ho', calledBack_append] at hquiet
    exact (List.append_eq_nil_iff.mp hquiet).2
  · cases mid with
    | nil =>
      obtain rfl : o = .write fd data .fatal :: back := hmid.symm
      have hquiet : calledBack back = [] := ho (Or.inr ⟨fd, data, List.mem_cons_self⟩)
      exact hquiet
    | cons act mid =>
      obtain ⟨rfl, hback⟩ := List.cons.inj hmid
      have hquiet := ho (Or.inl ⟨fd, data, by simp [hpast]⟩)
      have hsplit : back = mid ++ o := hback
      rw [hsplit, calledBack_append, h front mid fd data hpast, hquiet, List.append_nil]

theorem silent_run {fd : Int} {tr : List (Record Socket ClientInput ClientAct)}
    (h : Exec clientStep (fun _ _ => True) (socketConnect socketNew fd) tr s) :
    SocketOk s ∧ (FatalWrite (outputsOf tr) → s.q = none) ∧ NoFrameAfterFatal (outputsOf tr) := by
  induction h with
  | nil => exact ⟨socketConnect_ok fd, by simp, by simp [NoFrameAfterFatal]⟩
  | @snoc tr s s' i o hrun hok hstep ih =>
    obtain ⟨hs, hfatal, hquiet⟩ := ih
    refine ⟨clientStep_ok hs hstep, ?_, ?_⟩
    · rw [outputsOf_snoc, fatalWrite_append]
      intro hfailed
      exact (clientStep_silent hs hstep (hfailed.imp_left hfatal)).1
    · rw [outputsOf_snoc]
      apply hquiet.append
      intro hfailed
      exact (clientStep_silent hs hstep (hfailed.imp_left hfatal)).2

/-- After the actions `past`, the dispatcher returns, and calls back no frame once a write has
failed for good. -/
def DispatchSurvives (past : List ClientAct) (s : Socket) (r : ReadResult)
    (sends : List (List (List Byte × WriteResult))) : Prop :=
  ∃ s' o, socketMsgdispatch s r sends = some (s', o) ∧ NoFrameAfterFatal (past ++ o)

theorem dispatch_survives_iff {fd : Int} {tr : List (Record Socket ClientInput ClientAct)}
    (h : Exec clientStep (fun _ _ => True) (socketConnect socketNew fd) tr s) {r : ReadResult}
    (hfits : r.length ≤ s.size) (sends : List (List (List Byte × WriteResult))) :
    DispatchSurvives (outputsOf tr) s r sends ↔ ¬ FatalInCallback s r sends := by
  obtain ⟨hs, hfatal, hquiet⟩ := silent_run h
  rcases socketMsgdispatch_outcome hs hfits sends with ⟨hnull, hrun⟩ | ⟨hnull, s', o, hrun, -⟩
  · refine iff_of_false ?_ (not_not.mpr hnull.fatal)
    rintro ⟨s', o, hrun', -⟩
    simp [hrun] at hrun'
  · refine iff_of_true ⟨s', o, hrun, hquiet.append ?_⟩ hnull
    intro hfailed
    have hstep : clientStep s (.msgdispatch r sends) = some (s', o) := hrun
    exact (clientStep_silent hs hstep (hfailed.imp_left hfatal)).2

/-- A frame whose callback answers and loses the connection: the queue is null when the loop
pops from it again. -/
theorem callback_fatal_stops :
    ∃ tr s, Exec clientStep (fun _ _ => True) (socketConnect socketNew 3) tr s ∧
      socketMsgdispatch s (.bytes [0#8, 2#8, 7#8, 7#8]) [[([1#8], .fatal)]] = none ∧
      ¬ DispatchSurvives (outputsOf tr) s (.bytes [0#8, 2#8, 7#8, 7#8]) [[([1#8], .fatal)]] := by
  have hstop : (socketMsgdispatch (socketConnect socketNew 3) (.bytes [0#8, 2#8, 7#8, 7#8])
      [[([1#8], .fatal)]]).isNone = true := by decide
  rw [Option.isNone_iff_eq_none] at hstop
  refine ⟨[], _, .nil, hstop, ?_⟩
  rintro ⟨s', o, hrun, -⟩
  simp [hstop] at hrun

theorem dispatch_survives_short_write :
    DispatchSurvives [] (socketConnect socketNew 3) (.bytes [0#8, 2#8, 7#8, 7#8])
      [[([1#8, 2#8], .wrote 1), ([3#8], .fatal)]] := by
  have hiff := @dispatch_survives_iff (socketConnect socketNew 3) 3 [] .nil
  refine (hiff (by decide) _).mpr ?_
  rintro ⟨-, data, -, -, -, -, hfatal⟩
  simp [ReachesFatal, WriteResult.count] at hfatal

end NetgameFormal

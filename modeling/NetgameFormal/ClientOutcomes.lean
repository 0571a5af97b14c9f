import NetgameFormal.ClientSteps

/-!
# All outcomes of an operation on a client socket

One case for each thing an operation can do to its descriptor and its queue. A
write that fails for good closes the descriptor and leaves its number in `fd`;
only the dispatcher, after a read that closes, sets `fd` to -1.
-/

set_option autoImplicit false

namespace NetgameFormal

/-- The bytes a write counts for: none when it is interrupted or would block. -/
def WriteResult.count : WriteResult → Nat
  | .wrote n => n
  | _ => 0

/-- On an empty list, the sends get to a write that fails for good. -/
def ReachesFatal : List (List Byte × WriteResult) → Prop
  | [] => False
  | (buffer, w) :: sends => w = .fatal ∨ w.count = buffer.length ∧ ReachesFatal sends

/-- A flush of write buffers with the sizes `ns` gets to a write that fails for good. -/
def FlushFails : List Nat → List WriteResult → Prop
  | [], _ => False
  | _ :: _, [] => False
  | n :: ns, .eintr :: ws => FlushFails (n :: ns) ws
  | _ :: _, .eagain :: _ => False
  | _ :: _, .fatal :: _ => True
  | n :: ns, .wrote sz :: ws => sz = n ∧ FlushFails ns ws

/-- A flush of write buffers with the sizes `ns` writes all of them. -/
def FlushEmpties : List Nat → List WriteResult → Prop
  | [], _ => True
  | _ :: _, [] => False
  | n :: ns, .eintr :: ws => FlushEmpties (n :: ns) ws
  | _ :: _, .eagain :: _ => False
  | _ :: _, .fatal :: _ => False
  | n :: ns, .wrote sz :: ws => sz = n ∧ FlushEmpties ns ws

/-- A read that closes: the end of the stream, or an error. -/
def ReadResult.Closing (r : ReadResult) : Prop := r = .bytes [] ∨ r = .fatal

def ClientAct.descriptor : ClientAct → Option Int
  | .read fd _ => some fd
  | .write fd _ _ => some fd
  | .close fd => some fd
  | .send _ _ => none
  | .callback _ => none

def FatalWrite (acts : List ClientAct) : Prop := ∃ fd data, .write fd data .fatal ∈ acts

@[simp] theorem fatalWrite_append {o o' : List ClientAct} :
    FatalWrite (o ++ o') ↔ FatalWrite o ∨ FatalWrite o' := by
  simp [FatalWrite, exists_or]

@[simp] theorem fatalWrite_cons {x : ClientAct} {o : List ClientAct} :
    FatalWrite (x :: o) ↔ (∃ fd data, x = .write fd data .fatal) ∨ FatalWrite o := by
  simp [FatalWrite, exists_or, eq_comm]

@[simp] theorem not_fatalWrite_nil : ¬ FatalWrite [] := by
  simp [FatalWrite]

variable {s s' s'' : Socket} {o o' : List ClientAct}

/-! ## Sending -/

theorem forceClose_eq (h : forceClose s = some (s', o)) :
    s'.fd = s.fd ∧ s'.q = none ∧ s'.head = none ∧ o = [.close s.fd] := by
  simp only [forceClose, Option.bind_eq_bind, Option.bind_eq_some_iff, Option.some.injEq,
    Prod.mk.injEq] at h
  obtain ⟨-, -, -, -, -, -, rfl, rfl⟩ := h
  exact ⟨rfl, rfl, rfl, rfl⟩

theorem forceClose_size (h : forceClose s = some (s', o)) : s'.size = s.size := by
  simp only [forceClose, Option.bind_eq_bind, Option.bind_eq_some_iff, Option.some.injEq,
    Prod.mk.injEq] at h
  obtain ⟨-, -, -, -, -, -, rfl, -⟩ := h
  rfl

theorem appendSendbuffer_eq {buffer : List Byte} {n : Nat}
    (h : appendSendbuffer s buffer n = some s') :
    s'.fd = s.fd ∧ s'.q = s.q ∧ s'.head ≠ none := by
  unfold appendSendbuffer at h
  split at h
  · obtain rfl := Option.some.inj h
    exact ⟨rfl, rfl, by simp⟩
  · next hhead =>
    split at h
    · simp at h
    · split at h
      · obtain rfl := Option.some.inj h
        exact ⟨rfl, rfl, by simp [hhead]⟩
      · simp at h

/-- The outcomes of `socket_send`. -/
inductive Sent (s : Socket) (buffer : List Byte) (w : WriteResult) (s' : Socket) :
    List ClientAct → Prop where
  | closed (hfd : s.fd = -1) (hs : s' = s) : Sent s buffer w s' [.send buffer (-1)]
  | failed (hfd : s.fd ≠ -1) (hhead : s.head = none) (hw : w = .fatal) (hfd' : s'.fd = s.fd)
      (hq : s'.q = none) (hhead' : s'.head = none) :
      Sent s buffer w s' [.write s.fd buffer .fatal, .close s.fd, .send buffer (-1)]
  | written (ret : Int) (hfd : s.fd ≠ -1) (hhead : s.head = none) (hw : w ≠ .fatal)
      (hfd' : s'.fd = s.fd) (hq : s'.q = s.q)
      (hhead' : s'.head = none ↔ w.count = buffer.length) :
      Sent s buffer w s' [.write s.fd buffer w, .send buffer ret]
  | queued (ret : Int) (hfd : s.fd ≠ -1) (hhead : s.head ≠ none) (hfd' : s'.fd = s.fd)
      (hq : s'.q = s.q) (hhead' : s'.head ≠ none) : Sent s buffer w s' [.send buffer ret]

theorem socketSendWritten_sent {buffer : List Byte} {w : WriteResult} (hfd : s.fd ≠ -1)
    (hhead : s.head = none) (hw : w ≠ .fatal)
    (h : socketSendWritten s buffer w w.count = some (s', o)) : Sent s buffer w s' o := by
  unfold socketSendWritten at h
  split at h
  · next hfull =>
    obtain ⟨rfl, rfl⟩ := Prod.mk.inj (Option.some.inj h)
    exact .written _ hfd hhead hw rfl rfl (iff_of_true hhead hfull)
  · next hpart =>
    obtain ⟨s₁, happend, hout⟩ := Option.bind_eq_some_iff.mp h
    obtain ⟨rfl, rfl⟩ := Prod.mk.inj (Option.some.inj hout)
    obtain ⟨hfd', hq, hhead'⟩ := appendSendbuffer_eq happend
    exact .written _ hfd hhead hw hfd' hq (iff_of_false hhead' hpart)

theorem socketSend_sent {buffer : List Byte} {w : WriteResult}
    (h : socketSend s buffer w = some (s', o)) : Sent s buffer w s' o := by
  unfold socketSend at h
  split at h
  · next hfd =>
    obtain ⟨rfl, rfl⟩ := Prod.mk.inj (Option.some.inj h)
    exact .closed hfd rfl
  · next hfd =>
    cases hhead : s.head with
    | some a =>
      simp only [hhead] at h
      obtain ⟨s₁, happend, hout⟩ := Option.bind_eq_some_iff.mp h
      obtain ⟨rfl, rfl⟩ := Prod.mk.inj (Option.some.inj hout)
      obtain ⟨hfd', hq, hhead'⟩ := appendSendbuffer_eq happend
      exact .queued _ hfd (by simp [hhead]) hfd' hq hhead'
    | none =>
      simp only [hhead] at h
      cases w with
      | wrote n => exact socketSendWritten_sent hfd hhead (by simp) h
      | eintr => exact socketSendWritten_sent hfd hhead (by simp) h
      | eagain => exact socketSendWritten_sent hfd hhead (by simp) h
      | fatal =>
        obtain ⟨⟨s₁, acts⟩, hclose, hout⟩ := Option.bind_eq_some_iff.mp h
        obtain ⟨rfl, rfl⟩ := Prod.mk.inj (Option.some.inj hout)
        obtain ⟨hfd', hq, hhead', rfl⟩ := forceClose_eq hclose
        exact .failed hfd hhead rfl hfd' hq hhead'

/-- What sending does to the descriptor and the queue; it never calls back. -/
structure SendEffect (s s' : Socket) (o : List ClientAct) : Prop where
  fd : s'.fd = s.fd
  touches : ∀ act ∈ o, ∀ d, act.descriptor = some d → d = s.fd ∧ s.fd ≠ -1
  quiet : ∀ frame, .callback frame ∉ o
  fatal : FatalWrite o ↔ Closes o
  alive : ¬ Closes o → s'.q = s.q
  dead : Closes o → s'.q = none

theorem SendEffect.refl (s : Socket) : SendEffect s s [] where
  fd := rfl
  touches := by simp
  quiet := by simp
  fatal := by simp
  alive := fun _ => rfl
  dead := by simp

theorem SendEffect.trans (h : SendEffect s s' o) (h' : SendEffect s' s'' o') :
    SendEffect s s'' (o ++ o') where
  fd := h'.fd.trans h.fd
  touches := by
    intro act hact d hd
    rcases List.mem_append.mp hact with hact | hact
    · exact h.touches act hact d hd
    · rw [← h.fd]
      exact h'.touches act hact d hd
  quiet := by
    intro frame hmem
    rcases List.mem_append.mp hmem with hmem | hmem
    · exact h.quiet frame hmem
    · exact h'.quiet frame hmem
  fatal := by rw [fatalWrite_append, closes_append, h.fatal, h'.fatal]
  alive := by
    intro hnone
    rw [closes_append, not_or] at hnone
    exact (h'.alive hnone.2).trans (h.alive hnone.1)
  dead := by
    intro hclosed
    by_cases hlater : Closes o'
    · exact h'.dead hlater
    · rw [closes_append, or_iff_left hlater] at hclosed
      exact (h'.alive hlater).trans (h.dead hclosed)

theorem Sent.effect {buffer : List Byte} {w : WriteResult} (h : Sent s buffer w s' o) :
    SendEffect s s' o := by
  cases h with
  | closed hfd hs =>
    subst hs
    exact ⟨rfl, by simp [ClientAct.descriptor], by simp, by simp, fun _ => rfl, by simp⟩
  | failed hfd hhead hw hfd' hq hhead' =>
    exact ⟨hfd', by simp [ClientAct.descriptor, hfd], by simp, by simp, by simp, fun _ => hq⟩
  | written ret hfd hhead hw hfd' hq hhead' =>
    exact ⟨hfd', by simp [ClientAct.descriptor, hfd], by simp, by simp [hw], fun _ => hq, by simp⟩
  | queued ret hfd hhead hfd' hq hhead' =>
    exact ⟨hfd', by simp [ClientAct.descriptor], by simp, by simp, fun _ => hq, by simp⟩

theorem sendAll_cons {buffer : List Byte} {w : WriteResult} {sends : List (List Byte × WriteResult)}
    (h : sendAll s ((buffer, w) :: sends) = some (s'', o)) :
    ∃ s' o₁ o₂, Sent s buffer w s' o₁ ∧ sendAll s' sends = some (s'', o₂) ∧ o = o₁ ++ o₂ := by
  simp only [sendAll, Option.bind_eq_bind, Option.bind_eq_some_iff, Option.some.injEq,
    Prod.mk.injEq] at h
  obtain ⟨⟨s', o₁⟩, hsend, ⟨s₂, o₂⟩, hrest, rfl, rfl⟩ := h
  exact ⟨s', o₁, o₂, socketSend_sent hsend, hrest, rfl⟩

theorem sendAll_effect {sends : List (List Byte × WriteResult)}
    (h : sendAll s sends = some (s', o)) : SendEffect s s' o := by
  induction sends generalizing s o with
  | nil =>
    obtain ⟨rfl, rfl⟩ := Prod.mk.inj (Option.some.inj h)
    exact .refl s
  | cons p sends ih =>
    obtain ⟨s₁, o₁, o₂, hsent, hrest, rfl⟩ := sendAll_cons h
    exact hsent.effect.trans (ih hrest)

theorem sendAll_closes_iff {sends : List (List Byte × WriteResult)} (hfd : s.fd ≠ -1)
    (h : sendAll s sends = some (s', o)) : Closes o ↔ s.head = none ∧ ReachesFatal sends := by
  induction sends generalizing s o with
  | nil =>
    obtain ⟨rfl, rfl⟩ := Prod.mk.inj (Option.some.inj h)
    simp [ReachesFatal]
  | cons p sends ih =>
    obtain ⟨buffer, w⟩ := p
    obtain ⟨s₁, o₁, o₂, hsent, hrest, rfl⟩ := sendAll_cons h
    cases hsent with
    | closed hfd' hs => exact absurd hfd' hfd
    | failed _ hhead hw hfd' hq hhead' => simp [ReachesFatal, hhead, hw]
    | written ret _ hhead hw hfd' hq hhead' =>
      have hlater := ih (by rwa [hfd']) hrest
      simp [ReachesFatal, hhead, hw, hlater, hhead']
    | queued ret _ hhead hfd' hq hhead' =>
      have hlater := ih (by rwa [hfd']) hrest
      simp [hhead, hlater, hhead']

/-! ## Flushing -/

def Socket.pendingSizes (s : Socket) : List Nat :=
  (walk (fun a => (s.node a).next) s.brk s.head).map fun a => (s.node a).sz

theorem WriteList.pendingSizes_eq {l : List Nat} (h : WriteList s l) :
    s.pendingSizes = l.map fun a => (s.node a).sz := by
  rw [Socket.pendingSizes,
    h.chain.walk_eq (length_le_of_nodup_lt h.chain.nodup h.fresh)]

/-- What `socket_send_remainbuffer` does: writes to `fd`, of which only the last may fail. -/
structure Flush (s s' : Socket) (o : List ClientAct) : Prop where
  fd : s'.fd = s.fd
  outcome : (∃ o', o = o' ++ [.close s.fd] ∧ s'.q = none ∧ s'.head = none ∧ FatalWrite o' ∧
      ∀ act ∈ o', ∃ data w, act = .write s.fd data w) ∨
    (s'.q = s.q ∧ ¬ FatalWrite o ∧ ∀ act ∈ o, ∃ data w, act = .write s.fd data w)

theorem Flush.write {s₁ : Socket} (h : Flush s₁ s' o) (hfd : s₁.fd = s.fd) (hq : s₁.q = s.q)
    {data : List Byte} {w : WriteResult} (hw : w ≠ .fatal) :
    Flush s s' (.write s.fd data w :: o) := by
  obtain ⟨hfd', houtcome⟩ := h
  refine ⟨hfd'.trans hfd, ?_⟩
  rw [hfd, hq] at houtcome
  rcases houtcome with ⟨o', rfl, hq', hhead, hfatal, hwrites⟩ | ⟨hq', hfatal, hwrites⟩
  · refine Or.inl ⟨.write s.fd data w :: o', rfl, hq', hhead, by simp [hfatal], ?_⟩
    exact List.forall_mem_cons.mpr ⟨⟨data, w, rfl⟩, hwrites⟩
  · refine Or.inr ⟨hq', by simp [hfatal, hw], ?_⟩
    exact List.forall_mem_cons.mpr ⟨⟨data, w, rfl⟩, hwrites⟩

theorem Flush.none_written (hfd : s'.fd = s.fd) (hq : s'.q = s.q) : Flush s s' [] :=
  ⟨hfd, Or.inr ⟨hq, by simp, by simp⟩⟩

/-- The loop of `socket_send_remainbuffer`, one write after the other. -/
inductive Flushes : Socket → List WriteResult → Socket → List ClientAct → Prop where
  | empty {s : Socket} (ws : List WriteResult) (hhead : s.head = none) :
      Flushes s ws { s with tail := none } []
  | unwritable {s : Socket} {tmp : Nat} (hhead : s.head = some tmp) :
      Flushes s [] s [.write s.fd (s.node tmp).bytes .eagain]
  | eagain {s : Socket} {tmp : Nat} (ws : List WriteResult) (hhead : s.head = some tmp) :
      Flushes s (.eagain :: ws) s [.write s.fd (s.node tmp).bytes .eagain]
  | eintr {s s' : Socket} {tmp : Nat} {ws : List WriteResult} {o : List ClientAct}
      (hhead : s.head = some tmp) (hrest : Flushes s ws s' o) :
      Flushes s (.eintr :: ws) s' (.write s.fd (s.node tmp).bytes .eintr :: o)
  | fatal {s s' : Socket} {tmp : Nat} (ws : List WriteResult) {o : List ClientAct}
      (hhead : s.head = some tmp) (hclose : forceClose s = some (s', o)) :
      Flushes s (.fatal :: ws) s' (.write s.fd (s.node tmp).bytes .fatal :: o)
  | part {s : Socket} {tmp sz : Nat} (ws : List WriteResult) (rest : WriteBuffer)
      (hhead : s.head = some tmp) (hpart : sz ≠ (s.node tmp).sz) :
      Flushes s (.wrote sz :: ws)
        { s with wbSize := s.wbSize - sz, node := Function.update s.node tmp rest }
        [.write s.fd (s.node tmp).bytes (.wrote sz)]
  | whole {s s' : Socket} {tmp : Nat} {ws : List WriteResult} {o : List ClientAct}
      (hhead : s.head = some tmp)
      (hrest : Flushes { s with
        wbSize := s.wbSize - (s.node tmp).sz
        head := (s.node tmp).next } ws s' o) :
      Flushes s (.wrote (s.node tmp).sz :: ws) s'
        (.write s.fd (s.node tmp).bytes (.wrote (s.node tmp).sz) :: o)

theorem remainbufferLoop_flushes {ws : List WriteResult} {ret : Int}
    (h : socketSendRemainbufferLoop ws s = some (s', ret, o)) : Flushes s ws s' o := by
  induction ws generalizing s ret o with
  | nil =>
    unfold socketSendRemainbufferLoop at h
    cases hhead : s.head with
    | none =>
      simp only [hhead, Option.some.injEq, Prod.mk.injEq] at h
      obtain ⟨rfl, -, rfl⟩ := h
      simpa only [hhead] using Flushes.empty [] hhead
    | some tmp =>
      simp only [hhead, Option.some.injEq, Prod.mk.injEq] at h
      obtain ⟨rfl, -, rfl⟩ := h
      exact .unwritable hhead
  | cons w ws ih =>
    unfold socketSendRemainbufferLoop at h
    cases hhead : s.head with
    | none =>
      simp only [hhead, Option.some.injEq, Prod.mk.injEq] at h
      obtain ⟨rfl, -, rfl⟩ := h
      simpa only [hhead] using Flushes.empty (w :: ws) hhead
    | some tmp =>
      simp only [hhead] at h
      cases w with
      | eintr =>
        obtain ⟨⟨s₁, ret₁, o₁⟩, hloop, hout⟩ := Option.bind_eq_some_iff.mp h
        simp only [Option.some.injEq, Prod.mk.injEq] at hout
        obtain ⟨rfl, -, rfl⟩ := hout
        exact .eintr hhead (ih hloop)
      | eagain =>
        simp only [Option.some.injEq, Prod.mk.injEq] at h
        obtain ⟨rfl, -, rfl⟩ := h
        exact .eagain ws hhead
      | fatal =>
        obtain ⟨⟨s₁, acts⟩, hclose, hout⟩ := Option.bind_eq_some_iff.mp h
        simp only [Option.some.injEq, Prod.mk.injEq] at hout
        obtain ⟨rfl, -, rfl⟩ := hout
        exact .fatal ws hhead hclose
      | wrote sz =>
        simp only at h
        split at h
        · next hpart =>
          simp only [Option.some.injEq, Prod.mk.injEq] at h
          obtain ⟨rfl, -, rfl⟩ := h
          simpa only [hhead] using Flushes.part ws _ hhead hpart
        · next hwhole =>
          obtain rfl : sz = (s.node tmp).sz := not_not.mp hwhole
          obtain ⟨⟨s₁, ret₁, o₁⟩, hloop, hout⟩ := Option.bind_eq_some_iff.mp h
          simp only [Option.some.injEq, Prod.mk.injEq] at hout
          obtain ⟨rfl, -, rfl⟩ := hout
          exact .whole hhead (ih hloop)

theorem remainbufferLoop_flush {ws : List WriteResult} {ret : Int}
    (h : socketSendRemainbufferLoop ws s = some (s', ret, o)) : Flush s s' o := by
  have hrun := remainbufferLoop_flushes h
  clear h
  induction hrun with
  | empty ws hhead => exact .none_written rfl rfl
  | unwritable hhead => exact (Flush.none_written rfl rfl).write rfl rfl (by simp)
  | eagain ws hhead => exact (Flush.none_written rfl rfl).write rfl rfl (by simp)
  | eintr hhead hrest ih => exact ih.write rfl rfl (by simp)
  | fatal ws hhead hclose =>
    obtain ⟨hfd, hq, hhead', rfl⟩ := forceClose_eq hclose
    refine ⟨hfd, Or.inl ⟨[_], rfl, hq, hhead', by simp, ?_⟩⟩
    simp
  | part ws rest hhead hpart =>
    refine ⟨rfl, Or.inr ⟨rfl, by simp, ?_⟩⟩
    simp
  | @whole s _ _ _ _ hhead hrest ih =>
    exact ih.write (s := s) (w := .wrote _) rfl rfl (by simp)

theorem Flush.effect (h : Flush s s' o) (hfd : s.fd ≠ -1) : SendEffect s s' o := by
  obtain ⟨hfd', ⟨o', rfl, hq, -, hfatal, hwrites⟩ | ⟨hq, hfatal, hwrites⟩⟩ := h
  · refine ⟨hfd', ?_, ?_, by simp [hfatal], by simp, fun _ => hq⟩
    · intro act hact d hd
      rcases List.mem_append.mp hact with hact | hact
      · obtain ⟨data, w, rfl⟩ := hwrites act hact
        exact ⟨(Option.some.inj hd).symm, hfd⟩
      · obtain rfl := List.mem_singleton.mp hact
        exact ⟨(Option.some.inj hd).symm, hfd⟩
    · intro frame hmem
      rcases List.mem_append.mp hmem with hmem | hmem
      · obtain ⟨data, w, heq⟩ := hwrites _ hmem
        simp at heq
      · simp at hmem
  · have hopen : ¬ Closes o := by
      rintro ⟨fd, hmem⟩
      obtain ⟨data, w, heq⟩ := hwrites _ hmem
      simp at heq
    refine ⟨hfd', ?_, ?_, iff_of_false hfatal hopen, fun _ => hq, fun hclosed => absurd hclosed hopen⟩
    · intro act hact d hd
      obtain ⟨data, w, rfl⟩ := hwrites act hact
      exact ⟨(Option.some.inj hd).symm, hfd⟩
    · intro frame hmem
      obtain ⟨data, w, heq⟩ := hwrites _ hmem
      simp at heq

theorem socketSendRemainbuffer_effect {ws : List WriteResult} {ret : Int}
    (h : socketSendRemainbuffer s ws = some (s', ret, o)) : SendEffect s s' o := by
  unfold socketSendRemainbuffer at h
  split at h
  · simp only [Option.some.injEq, Prod.mk.injEq] at h
    obtain ⟨rfl, -, rfl⟩ := h
    exact .refl s
  · next hfd => exact (remainbufferLoop_flush h).effect hfd

/-- The loop closes exactly when it gets to a failing write along the sizes of its buffers. -/
theorem remainbufferLoop_closes_iff {l : List Nat} {ws : List WriteResult} {ret : Int}
    (hchain : Chain (fun a => (s.node a).next) s.head l)
    (h : socketSendRemainbufferLoop ws s = some (s', ret, o)) :
    Closes o ↔ FlushFails (l.map fun a => (s.node a).sz) ws := by
  have hrun := remainbufferLoop_flushes h
  clear h
  induction hrun generalizing l with
  | empty ws hhead =>
    rw [hhead] at hchain
    simp [hchain.of_none, FlushFails]
  | unwritable hhead =>
    obtain ⟨l', rfl, -⟩ := (hhead ▸ hchain).of_some
    simp [FlushFails]
  | eagain ws hhead =>
    obtain ⟨l', rfl, -⟩ := (hhead ▸ hchain).of_some
    simp [FlushFails]
  | eintr hhead hrest ih =>
    obtain ⟨l', rfl, -⟩ := (hhead ▸ hchain).of_some
    simp only [closes_cons, reduceCtorEq, exists_false, false_or, ih hchain, List.map_cons,
      FlushFails]
  | fatal ws hhead hclose =>
    obtain ⟨l', rfl, -⟩ := (hhead ▸ hchain).of_some
    obtain ⟨-, -, -, rfl⟩ := forceClose_eq hclose
    simp [FlushFails]
  | part ws rest hhead hpart =>
    obtain ⟨l', rfl, -⟩ := (hhead ▸ hchain).of_some
    simp [FlushFails, hpart]
  | whole hhead hrest ih =>
    obtain ⟨l', rfl, hbehind⟩ := (hhead ▸ hchain).of_some
    simp only [closes_cons, reduceCtorEq, exists_false, false_or, ih hbehind, List.map_cons,
      FlushFails, true_and]

/-- When it does not close, it gets to the end of its list along the same sizes. -/
theorem remainbufferLoop_head_iff {l : List Nat} {ws : List WriteResult} {ret : Int}
    (hchain : Chain (fun a => (s.node a).next) s.head l)
    (h : socketSendRemainbufferLoop ws s = some (s', ret, o)) :
    ¬ Closes o ∧ s'.head = none ↔ FlushEmpties (l.map fun a => (s.node a).sz) ws := by
  have hrun := remainbufferLoop_flushes h
  clear h
  induction hrun generalizing l with
  | empty ws hhead =>
    rw [hhead] at hchain
    simp [hchain.of_none, FlushEmpties, hhead]
  | unwritable hhead =>
    obtain ⟨l', rfl, -⟩ := (hhead ▸ hchain).of_some
    simp [FlushEmpties, hhead]
  | eagain ws hhead =>
    obtain ⟨l', rfl, -⟩ := (hhead ▸ hchain).of_some
    simp [FlushEmpties, hhead]
  | eintr hhead hrest ih =>
    obtain ⟨l', rfl, -⟩ := (hhead ▸ hchain).of_some
    simp only [closes_cons, reduceCtorEq, exists_false, false_or, ih hchain, List.map_cons,
      FlushEmpties]
  | fatal ws hhead hclose =>
    obtain ⟨l', rfl, -⟩ := (hhead ▸ hchain).of_some
    obtain ⟨-, -, -, rfl⟩ := forceClose_eq hclose
    simp [FlushEmpties]
  | part ws rest hhead hpart =>
    obtain ⟨l', rfl, -⟩ := (hhead ▸ hchain).of_some
    simp [FlushEmpties, hpart, hhead]
  | whole hhead hrest ih =>
    obtain ⟨l', rfl, hbehind⟩ := (hhead ▸ hchain).of_some
    simp only [closes_cons, reduceCtorEq, exists_false, false_or, ih hbehind, List.map_cons,
      FlushEmpties, true_and]

theorem socketSendRemainbuffer_closes_iff (hok : SocketOk s) (hfd : s.fd ≠ -1)
    {ws : List WriteResult} {ret : Int} (h : socketSendRemainbuffer s ws = some (s', ret, o)) :
    Closes o ↔ FlushFails s.pendingSizes ws := by
  obtain ⟨l, hl⟩ := hok.writes
  rw [socketSendRemainbuffer, if_neg hfd] at h
  rw [hl.pendingSizes_eq]
  exact remainbufferLoop_closes_iff hl.chain h

theorem socketSendRemainbuffer_head_iff (hok : SocketOk s) (hfd : s.fd ≠ -1)
    {ws : List WriteResult} {ret : Int} (h : socketSendRemainbuffer s ws = some (s', ret, o)) :
    ¬ Closes o ∧ s'.head = none ↔ FlushEmpties s.pendingSizes ws := by
  obtain ⟨l, hl⟩ := hok.writes
  rw [socketSendRemainbuffer, if_neg hfd] at h
  rw [hl.pendingSizes_eq]
  exact remainbufferLoop_head_iff hl.chain h

theorem socketSendRemainbuffer_size {ws : List WriteResult} {ret : Int}
    (h : socketSendRemainbuffer s ws = some (s', ret, o)) : s'.size = s.size := by
  unfold socketSendRemainbuffer at h
  split at h
  · simp only [Option.some.injEq, Prod.mk.injEq] at h
    rw [h.1]
  · have hrun := remainbufferLoop_flushes h
    clear * - hrun
    induction hrun with
    | empty ws hhead => rfl
    | unwritable hhead => rfl
    | eagain ws hhead => rfl
    | eintr hhead hrest ih => exact ih
    | fatal ws hhead hclose => exact forceClose_size hclose
    | part ws rest hhead hpart => rfl
    | whole hhead hrest ih => exact ih

/-! ## Dispatching -/

theorem callback_eq {frame : Option (List Byte)} {sends : List (List Byte × WriteResult)}
    (h : callback s frame sends = some (s', o)) :
    ∃ acts, sendAll s sends = some (s', acts) ∧ o = .callback frame :: acts := by
  obtain ⟨⟨s₁, acts⟩, hsends, hout⟩ := Option.bind_eq_some_iff.mp h
  obtain ⟨rfl, rfl⟩ := Prod.mk.inj (Option.some.inj hout)
  exact ⟨acts, hsends, rfl⟩

/-- A message without a frame changes the databuffer only; one with a frame has it called back. -/
theorem dispatchOne_cases {msg : SocketMessage} {sends : List (List Byte × WriteResult)}
    (h : dispatchOne s msg sends = some (s', o)) :
    (o = [] ∧ s'.fd = s.fd ∧ s'.q = s.q) ∨
      ∃ frame s₁ s₂ acts, s₁.fd = s.fd ∧ s₁.head = s.head ∧ s₁.q = s.q ∧
        sendAll s₁ sends = some (s₂, acts) ∧ o = .callback (some frame) :: acts ∧
        s' = { s₂ with readBuffer := databufferReset s₂.readBuffer } := by
  simp only [dispatchOne, Option.bind_eq_bind, Option.bind_eq_some_iff] at h
  obtain ⟨⟨db₁, mp₁⟩, -, ⟨db, mp, size⟩, -, h⟩ := h
  split at h
  · split at h
    · obtain ⟨⟨db', mp'⟩, -, hout⟩ := Option.bind_eq_some_iff.mp h
      obtain ⟨rfl, rfl⟩ := Prod.mk.inj (Option.some.inj hout)
      exact Or.inl ⟨rfl, rfl, rfl⟩
    · split at h
      · obtain ⟨⟨db', mp', payload⟩, -, h⟩ := Option.bind_eq_some_iff.mp h
        obtain ⟨⟨s₂, o₂⟩, hcall, hout⟩ := Option.bind_eq_some_iff.mp h
        obtain ⟨rfl, rfl⟩ := Prod.mk.inj (Option.some.inj hout)
        obtain ⟨acts, hsends, rfl⟩ := callback_eq hcall
        exact Or.inr ⟨_, { s with readBuffer := db', mp := mp' }, s₂, acts, rfl, rfl, rfl, hsends, rfl,
          rfl⟩
      · obtain ⟨rfl, rfl⟩ := Prod.mk.inj (Option.some.inj h)
        exact Or.inl ⟨rfl, rfl, rfl⟩
  · obtain ⟨rfl, rfl⟩ := Prod.mk.inj (Option.some.inj h)
    exact Or.inl ⟨rfl, rfl, rfl⟩

/-- What a message of the queue does to the descriptor and the queue. -/
structure MessageEffect (s s' : Socket) (o : List ClientAct) : Prop where
  touches : ∀ act ∈ o, ∀ d, act.descriptor = some d → d = s.fd
  quiet : .callback none ∉ o
  fatal : FatalWrite o ↔ Closes o
  alive : ¬ Closes o → s'.q = s.q
  dead : Closes o → s'.q = none

theorem dispatchOne_effect {msg : SocketMessage} {sends : List (List Byte × WriteResult)}
    (h : dispatchOne s msg sends = some (s', o)) : MessageEffect s s' o := by
  rcases dispatchOne_cases h with ⟨rfl, hfd, hq⟩ |
    ⟨frame, s₁, s₂, acts, hfd, hhead, hq, hsends, rfl, rfl⟩
  · exact ⟨by simp, by simp, by simp, fun _ => hq, by simp⟩
  · have heffect := sendAll_effect hsends
    refine ⟨?_, ?_, ?_, ?_, ?_⟩
    · rw [← hfd]
      refine List.forall_mem_cons.mpr ⟨by simp [ClientAct.descriptor], ?_⟩
      exact fun act hact d hd => (heffect.touches act hact d hd).1
    · simpa using heffect.quiet none
    · simpa using heffect.fatal
    · intro hnone
      exact (heffect.alive (by simpa using hnone)).trans hq
    · intro hclosed
      exact heffect.dead (by simpa using hclosed)

theorem dispatchOne_closes_iff {msg : SocketMessage} {sends : List (List Byte × WriteResult)}
    (hfd : s.fd ≠ -1) (h : dispatchOne s msg sends = some (s', o)) :
    Closes o ↔ calledBack o ≠ [] ∧ s.head = none ∧ ReachesFatal sends := by
  rcases dispatchOne_cases h with ⟨rfl, -, -⟩ | ⟨frame, s₁, s₂, acts, hfd', hhead, -, hsends, rfl, -⟩
  · simp [calledBack]
  · have hcloses := sendAll_closes_iff (by rwa [hfd']) hsends
    rw [hhead] at hcloses
    simp [calledBack, hcloses]

/-- A callback for the chunk `r` reaches a write that fails for good. -/
def FatalInCallback (s : Socket) (r : ReadResult) (sends : List (List (List Byte × WriteResult))) :
    Prop :=
  s.Open ∧ ∃ data, r = .bytes data ∧ data ≠ [] ∧
    Framing.Completes beNat 2 s.receiver data ∧ s.head = none ∧ ReachesFatal (sends.headD [])

/-- The outcomes of `socket_msgdispatch`, when it returns. -/
inductive Dispatched (s : Socket) (r : ReadResult) (sends : List (List (List Byte × WriteResult)))
    (s' : Socket) : List ClientAct → Prop where
  | ignored (hshut : ¬ s.Open) (hs : s' = s) : Dispatched s r sends s' []
  | again (hopen : s.Open) (hr : r = .eintr ∨ r = .eagain) (hs : s' = s) :
      Dispatched s r sends s' [.read s.fd r]
  | closed (hopen : s.Open) (hr : r.Closing) (s₁ s₂ : Socket) (acts : List ClientAct)
      (hfd : s₁.fd = s.fd) (hq : s₁.q = none) (hhead : s₁.head = none)
      (hsends : sendAll s₁ (sends.headD []) = some (s₂, acts)) (hok : SocketOk s₂)
      (hs : s' = { s₂ with fd := -1 }) :
      Dispatched s r sends s' (.read s.fd r :: .close s.fd :: .callback none :: acts)
  | chunk (hopen : s.Open) (data : List Byte) (hr : r = .bytes data) (hdata : data ≠ [])
      (acts : List ClientAct) (hstep : Dispatches s s' data acts) (hlive : ¬ Closes acts)
      (htouches : ∀ act ∈ acts, ∀ d, act.descriptor = some d → d = s.fd)
      (hquiet : .callback none ∉ acts) (hfatal : ¬ FatalWrite acts) (hopen' : s'.Open) :
      Dispatched s r sends s' (.read s.fd r :: acts)

/-- What the dispatcher has done when it follows the null queue: the last of its actions are those
of the callback. -/
structure Stopped (s : Socket) (r : ReadResult) (sends : List (List (List Byte × WriteResult)))
    (o : List ClientAct) : Prop where
  fatal : FatalInCallback s r sends
  acts : ∃ frame s₁ s₂ acts, s₁.fd = s.fd ∧ s₁.head = s.head ∧
    sendAll s₁ (sends.headD []) = some (s₂, acts) ∧
    o = .read s.fd r :: .callback (some frame) :: acts

/-- The dispatcher, for a chunk that is read: it follows the null queue, or gets to its end. -/
theorem socketMsgdispatch_chunk (h : SocketOk s) (hopen : s.Open) {data : List Byte}
    (hfits : data.length ≤ s.size) (hdata : data ≠ [])
    (sends : List (List (List Byte × WriteResult))) :
    (Stopped s (.bytes data) sends (socketMsgdispatchActs s (.bytes data) sends) ∧
        socketMsgdispatch s (.bytes data) sends = none) ∨
      (¬ FatalInCallback s (.bytes data) sends ∧
        ∃ s' o, socketMsgdispatch s (.bytes data) sends = some (s', o) ∧
          Dispatched s (.bytes data) sends s' o) := by
  obtain ⟨n, s₀, s₁, o₁, ⟨hfd, hhead, q, hq⟩, hone, hstep, -, hrun, hacts⟩ :=
    socketMsgdispatch_bytes h hopen hfits hdata sends
  have heffect := dispatchOne_effect hone
  have hcloses : Closes o₁ ↔ FatalInCallback s (.bytes data) sends := by
    have hframe : calledBack o₁ ≠ [] ↔ Framing.Completes beNat 2 s.receiver data := by
      rw [← Framing.feed_isSome_iff, hstep.calledBack]
      cases (Framing.feed beNat 2 s.receiver data).2 with
      | none => simp
      | some payload => simp
    rw [dispatchOne_closes_iff (by rw [hfd]; exact hopen.1) hone, hhead, hframe]
    constructor
    · intro hclosed
      exact ⟨hopen, data, rfl, hdata, hclosed⟩
    · rintro ⟨-, data', hdata', -, hclosed⟩
      obtain rfl := ReadResult.bytes.inj hdata'
      exact hclosed
  by_cases hclosed : Closes o₁
  · have hnull := heffect.dead hclosed
    refine Or.inl ⟨⟨hcloses.mp hclosed, ?_⟩, ?_⟩
    · have hlast : popLoopActs (n + 1) s₁ sends.tail = [] := by simp only [popLoopActs, hnull]
      rcases dispatchOne_cases hone with ⟨rfl, -, -⟩ |
        ⟨frame, s₂, s₃, acts, hfd₂, hhead₂, -, hsends, rfl, -⟩
      · simp at hclosed
      · refine ⟨frame, s₂, s₃, acts, hfd₂.trans hfd, hhead₂.trans hhead, hsends, ?_⟩
        rw [hacts, hlast, List.append_nil]
    · rw [hrun, popLoop, hnull]
      rfl
  · have hq₁ : ∃ q, s₁.q = some q := ⟨q, (heffect.alive hclosed).trans hq⟩
    refine Or.inr ⟨fun hfatal => hclosed (hcloses.mpr hfatal), s₁, .read s.fd (.bytes data) :: o₁,
      ?_, ?_⟩
    · rw [hrun, popLoop_empty hstep.ok hq₁]
      simp
    · refine .chunk hopen data rfl hdata o₁ hstep hclosed ?_ heffect.quiet ?_ ?_
      · rw [← hfd]
        exact heffect.touches
      · exact fun hfatal => hclosed (heffect.fatal.mp hfatal)
      · exact ⟨by rw [hstep.fd]; exact hopen.1, hq₁⟩

theorem socketMsgdispatch_ignored (hshut : ¬ s.Open) (r : ReadResult)
    (sends : List (List (List Byte × WriteResult))) :
    socketMsgdispatch s r sends = some (s, []) := by
  unfold socketMsgdispatch
  cases hq : s.q with
  | none => rfl
  | some q =>
    have hfd : s.fd = -1 := by
      by_contra hfd
      exact hshut ⟨hfd, q, hq⟩
    simp only [hfd, if_true]

theorem socketMsgdispatch_outcome (h : SocketOk s) {r : ReadResult} (hfits : r.length ≤ s.size)
    (sends : List (List (List Byte × WriteResult))) :
    (Stopped s r sends (socketMsgdispatchActs s r sends) ∧ socketMsgdispatch s r sends = none) ∨
      (¬ FatalInCallback s r sends ∧
        ∃ s' o, socketMsgdispatch s r sends = some (s', o) ∧ Dispatched s r sends s' o) := by
  by_cases hopen : s.Open
  · have hnone : (∀ data, r = .bytes data → data = []) → ¬ FatalInCallback s r sends := by
      rintro hr ⟨-, data, hr', hdata, -⟩
      exact hdata (hr data hr')
    have hquiet : ∀ n, popLoop (n + 1) s sends = some (s, []) :=
      fun n => popLoop_empty h hopen.2 n sends
    obtain ⟨s₁, hclose, hsends₁, hq₁⟩ := forceClose_sends h
    obtain ⟨-, -, hhead₁, -⟩ := forceClose_eq hclose
    obtain ⟨s₂, acts, hcall, hsends₂, -⟩ := callback_spec hsends₁.ok none (sends.headD [])
    obtain ⟨acts', hsends, hacts⟩ := callback_eq hcall
    obtain ⟨-, rfl⟩ := List.cons.inj hacts
    have hclosed : r.Closing → Dispatched s r sends { s₂ with fd := -1 }
        (.read s.fd r :: .close s.fd :: .callback none :: acts) := fun hr =>
      .closed hopen hr s₁ s₂ acts hsends₁.fd hq₁ hhead₁ hsends hsends₂.ok rfl
    obtain ⟨hfd, q, hq⟩ := hopen
    cases r with
    | bytes data =>
      by_cases hdata : data = []
      · subst hdata
        refine Or.inr ⟨hnone (by simp), _, _, ?_, hclosed (Or.inl rfl)⟩
        simp [socketMsgdispatch, hq, hfd, recvMsg, hclose, hcall, -List.headD_eq_head?_getD]
      · exact socketMsgdispatch_chunk h ⟨hfd, q, hq⟩ hfits hdata sends
    | eintr =>
      refine Or.inr ⟨hnone (by simp), _, _, ?_, .again ⟨hfd, q, hq⟩ (Or.inl rfl) rfl⟩
      simp [socketMsgdispatch, hq, hfd, recvMsg, hquiet]
    | eagain =>
      refine Or.inr ⟨hnone (by simp), _, _, ?_, .again ⟨hfd, q, hq⟩ (Or.inr rfl) rfl⟩
      simp [socketMsgdispatch, hq, hfd, recvMsg, hquiet]
    | fatal =>
      refine Or.inr ⟨hnone (by simp), _, _, ?_, hclosed (Or.inr rfl)⟩
      simp [socketMsgdispatch, hq, hfd, recvMsg, hclose, hcall, -List.headD_eq_head?_getD]
  · exact Or.inr ⟨fun hfatal => hopen hfatal.1, s, [], socketMsgdispatch_ignored hopen r sends,
      .ignored hopen rfl⟩

theorem socketMsgdispatch_none_iff (h : SocketOk s) {r : ReadResult} (hfits : r.length ≤ s.size)
    (sends : List (List (List Byte × WriteResult))) :
    socketMsgdispatch s r sends = none ↔ FatalInCallback s r sends := by
  rcases socketMsgdispatch_outcome h hfits sends with ⟨hstopped, hrun⟩ | ⟨hfatal, s', o, hrun, -⟩
  · exact iff_of_true hrun hstopped.fatal
  · exact iff_of_false (by simp [hrun]) hfatal

theorem socketMsgdispatch_dispatched (h : SocketOk s) {r : ReadResult}
    {sends : List (List (List Byte × WriteResult))}
    (hrun : socketMsgdispatch s r sends = some (s', o)) : Dispatched s r sends s' o := by
  by_cases hopen : s.Open
  · have hfits := socketMsgdispatch_fits hopen hrun
    rcases socketMsgdispatch_outcome h hfits sends with ⟨-, hnone⟩ | ⟨-, s₁, o₁, hrun₁, hout⟩
    · simp [hnone] at hrun
    · obtain ⟨rfl, rfl⟩ := Prod.mk.inj (Option.some.inj (hrun.symm.trans hrun₁))
      exact hout
  · have hidle := socketMsgdispatch_ignored hopen r sends
    obtain ⟨rfl, rfl⟩ := Prod.mk.inj (Option.some.inj (hrun.symm.trans hidle))
    exact .ignored hopen rfl

/-! ## Steps -/

theorem SocketOk.set_fd (h : SocketOk s) (fd : Int) : SocketOk { s with fd := fd } := by
  obtain ⟨l, hchain, htail, hfresh⟩ := h.writes
  exact ⟨⟨l, hchain, htail, hfresh⟩, h.header, h.buffered, h.queue⟩

theorem Dispatched.ok {r : ReadResult} {sends : List (List (List Byte × WriteResult))}
    (hd : Dispatched s r sends s' o) (h : SocketOk s) : SocketOk s' := by
  cases hd with
  | ignored hshut hs => exact hs ▸ h
  | again hopen hr hs => exact hs ▸ h
  | closed hopen hr s₁ s₂ acts hfd hq hhead hsends hok hs => exact hs ▸ hok.set_fd (-1)
  | chunk hopen data hr hdata acts hstep hlive htouches hquiet hfatal hopen' => exact hstep.ok

theorem clientStep_ok (h : SocketOk s) {i : ClientInput} (hrun : clientStep s i = some (s', o)) :
    SocketOk s' := by
  cases i with
  | send buffer w =>
    obtain ⟨s₁, o₁, hsend, hsends, -⟩ := socketSend_spec h buffer w
    obtain ⟨rfl, rfl⟩ := Prod.mk.inj (Option.some.inj (hrun.symm.trans hsend))
    exact hsends.ok
  | sendRemainbuffer ws =>
    obtain ⟨s₁, ret, o₁, hsend, hsends⟩ := socketSendRemainbuffer_spec h ws
    rw [clientStep, hsend] at hrun
    obtain ⟨rfl, rfl⟩ := Prod.mk.inj (Option.some.inj hrun)
    exact hsends.ok
  | msgdispatch r sends => exact (socketMsgdispatch_dispatched h hrun).ok h

/-- Only the dispatcher follows a null pointer, and only after a write of its callback failed. -/
theorem clientStep_none_iff (h : SocketOk s) {i : ClientInput} (hfits : i.readLength ≤ s.size) :
    clientStep s i = none ↔ ∃ r sends, i = .msgdispatch r sends ∧ FatalInCallback s r sends := by
  cases i with
  | send buffer w =>
    obtain ⟨s', o, hrun, -⟩ := socketSend_spec h buffer w
    simp [clientStep, hrun]
  | sendRemainbuffer ws =>
    obtain ⟨s', ret, o, hrun, -⟩ := socketSendRemainbuffer_spec h ws
    simp [clientStep, hrun]
  | msgdispatch r sends =>
    have hfits' : r.length ≤ s.size := hfits
    simp [clientStep, socketMsgdispatch_none_iff h hfits']

end NetgameFormal

import NetgameFormal.ClientOutcomes
import NetgameFormal.EndToEnd
import NetgameFormal.SendStream

/-!
# A socket that is read and written

The callbacks of `socket_msgdispatch` send on the socket that is being read.
Whatever is sent, by them or between the ticks, leaves as one stream: in the
order of the calls of `socket_send`, and nothing of it is lost or doubled while
the socket stays open.
-/

set_option autoImplicit false

namespace NetgameFormal

def ClientAct.sentBytes : ClientAct → List Byte
  | .send buffer _ => buffer
  | _ => []

/-- The bytes given to `socket_send`, in the order of its calls. -/
def sentBytes (acts : List ClientAct) : List Byte := acts.flatMap ClientAct.sentBytes

@[simp] theorem sentBytes_append (o o' : List ClientAct) :
    sentBytes (o ++ o') = sentBytes o ++ sentBytes o' := by
  simp [sentBytes]

@[simp] theorem sentBytes_nil : sentBytes [] = [] := rfl

@[simp] theorem sentBytes_send (buffer : List Byte) (ret : Int) (o : List ClientAct) :
    sentBytes (.send buffer ret :: o) = buffer ++ sentBytes o := by
  simp [sentBytes, ClientAct.sentBytes]

@[simp] theorem sentBytes_write (fd : Int) (data : List Byte) (w : WriteResult)
    (o : List ClientAct) : sentBytes (.write fd data w :: o) = sentBytes o := by
  simp [sentBytes, ClientAct.sentBytes]

@[simp] theorem sentBytes_read (fd : Int) (r : ReadResult) (o : List ClientAct) :
    sentBytes (.read fd r :: o) = sentBytes o := by
  simp [sentBytes, ClientAct.sentBytes]

@[simp] theorem sentBytes_callback (frame : Option (List Byte)) (o : List ClientAct) :
    sentBytes (.callback frame :: o) = sentBytes o := by
  simp [sentBytes, ClientAct.sentBytes]

/-- No call of the kernel fails for good, and the peer has not closed. -/
def ClientInput.Lasting : ClientInput → Prop
  | .send _ w => w ≠ .fatal
  | .sendRemainbuffer ws => .fatal ∉ ws
  | .msgdispatch r sends => ¬ r.Closing ∧ Gentle sends

instance (i : ClientInput) : Decidable i.Lasting :=
  match i with
  | .send _ w => inferInstanceAs (Decidable (w ≠ .fatal))
  | .sendRemainbuffer ws => inferInstanceAs (Decidable (.fatal ∉ ws))
  | .msgdispatch r sends =>
    inferInstanceAs (Decidable (¬ (r = .bytes [] ∨ r = .fatal) ∧
      ∀ l ∈ sends, ∀ p ∈ l, p.2 ≠ .fatal))

/-- The environment of a socket that stays open. -/
def DuplexInput (s : Socket) (i : ClientInput) : Prop :=
  i.Lasting ∧ ∀ after ∈ clientStep s i, WithinRequest after.2

instance (s : Socket) (i : ClientInput) : Decidable (DuplexInput s i) :=
  inferInstanceAs (Decidable (_ ∧ _))

variable {s s' s₁ s₂ : Socket} {o : List ClientAct} {l : List Nat} {bytes : List Byte}

theorem WithinRequest.of_append {o o' : List ClientAct} (h : WithinRequest (o ++ o')) :
    WithinRequest o ∧ WithinRequest o' := by
  constructor
  · intro p hp
    exact h p (by rw [List.filterMap_append]; exact List.mem_append_left _ hp)
  · intro p hp
    exact h p (by rw [List.filterMap_append]; exact List.mem_append_right _ hp)

/-- The sending halves of two sockets are the same. -/
structure SameWrites (s s' : Socket) : Prop where
  fd : s'.fd = s.fd
  head : s'.head = s.head
  tail : s'.tail = s.tail
  node : s'.node = s.node
  brk : s'.brk = s.brk
  size : s'.wbSize = s.wbSize

theorem Pending.same (h : Pending s l bytes) (hs : SameWrites s s') : Pending s' l bytes := by
  obtain ⟨⟨hchain, htail, hfresh⟩, hholds, hwithin, hsize⟩ := h
  refine ⟨⟨?_, ?_, ?_⟩, ?_, ?_, ?_⟩
  · rw [hs.head, hs.node]
    exact hchain
  · rw [hs.tail]
    exact htail
  · rw [hs.brk]
    exact hfresh
  · rw [hs.node]
    exact hholds
  · rw [hs.node]
    exact hwithin
  · rw [hs.size]
    exact hsize

/-- Operations one after the other. -/
theorem Streamed.trans {sent sent' : List Byte} {o' : List ClientAct} (h : Streamed s s₁ o (bytes ++ sent))
    (h' : ∀ l bytes', Pending s₁ l bytes' → Streamed s₁ s' o' (bytes' ++ sent')) :
    Streamed s s' (o ++ o') (bytes ++ (sent ++ sent')) := by
  obtain ⟨hfd, l, bytes', hpending, hmove⟩ := h
  obtain ⟨hfd', l', bytes'', hpending', hmove'⟩ := h' l bytes' hpending
  refine ⟨hfd'.trans hfd, l', bytes'', hpending', ?_⟩
  rw [acceptedIn_append, List.append_assoc, hmove', ← List.append_assoc, hmove, List.append_assoc]

theorem Sent.sentBytes_eq {buffer : List Byte} {w : WriteResult} (h : Sent s buffer w s' o) :
    sentBytes o = buffer := by
  cases h with
  | closed _ _ => simp
  | failed _ _ _ _ _ _ => simp [sentBytes, ClientAct.sentBytes]
  | written _ _ _ _ _ _ _ => simp
  | queued _ _ _ _ _ _ => simp

theorem sendAll_streamed {sends : List (List Byte × WriteResult)} (h : Pending s l bytes)
    (hfd : s.fd ≠ -1) (hgentle : ∀ p ∈ sends, p.2 ≠ .fatal)
    (hrun : sendAll s sends = some (s', o)) (hwithin : WithinRequest o) :
    Streamed s s' o (bytes ++ sentBytes o) := by
  induction sends generalizing s l bytes o with
  | nil =>
    obtain ⟨rfl, rfl⟩ := Prod.mk.inj (Option.some.inj hrun)
    exact ⟨rfl, l, bytes, h, by simp [acceptedIn]⟩
  | cons p sends ih =>
    obtain ⟨⟨s₁, acts⟩, hsend, hrest⟩ := Option.bind_eq_some_iff.mp hrun
    obtain ⟨⟨s₂, acts'⟩, hsends, hout⟩ := Option.bind_eq_some_iff.mp hrest
    obtain ⟨rfl, rfl⟩ := Prod.mk.inj (Option.some.inj hout)
    obtain ⟨hacts, hacts'⟩ := hwithin.of_append
    obtain ⟨s₃, acts₃, hsend', hstream⟩ :=
      socketSend_streamed h hfd p.1 (hgentle p List.mem_cons_self)
    obtain ⟨rfl, rfl⟩ := Prod.mk.inj (Option.some.inj (hsend.symm.trans hsend'))
    have hone := hstream hacts
    rw [sentBytes_append, (socketSend_sent hsend).sentBytes_eq]
    apply hone.trans
    intro l' bytes' hpending
    exact ih hpending (by rw [hone.fd]; exact hfd)
      (fun q hq => hgentle q (List.mem_cons_of_mem p hq)) hsends hacts'

theorem Streamed.same {stream : List Byte} (h : Streamed s₁ s₂ o stream) (hs : SameWrites s s₁)
    (hs' : SameWrites s₂ s') : Streamed s s' o stream := by
  obtain ⟨hfd, l, bytes, hpending, hmove⟩ := h
  exact ⟨hs'.fd.trans (hfd.trans hs.fd), l, bytes, hpending.same hs', hmove⟩

/-! ## Dispatching -/

/-- Reading a message of the queue leaves the sending half to the callback. -/
theorem dispatchOne_writes {msg : SocketMessage} {sends : List (List Byte × WriteResult)}
    (h : dispatchOne s msg sends = some (s', o)) :
    (o = [] ∧ SameWrites s s') ∨
      ∃ frame s₁ s₂ acts, SameWrites s s₁ ∧ sendAll s₁ sends = some (s₂, acts) ∧
        o = .callback frame :: acts ∧ SameWrites s₂ s' := by
  simp only [dispatchOne, Option.bind_eq_bind, Option.bind_eq_some_iff] at h
  obtain ⟨⟨db₁, mp₁⟩, -, ⟨db, mp, size⟩, -, h⟩ := h
  split at h
  · split at h
    · obtain ⟨⟨db', mp'⟩, -, hout⟩ := Option.bind_eq_some_iff.mp h
      obtain ⟨rfl, rfl⟩ := Prod.mk.inj (Option.some.inj hout)
      exact Or.inl ⟨rfl, rfl, rfl, rfl, rfl, rfl, rfl⟩
    · split at h
      · obtain ⟨⟨db', mp', payload⟩, -, h⟩ := Option.bind_eq_some_iff.mp h
        obtain ⟨⟨s₂, o₂⟩, hcall, hout⟩ := Option.bind_eq_some_iff.mp h
        obtain ⟨rfl, rfl⟩ := Prod.mk.inj (Option.some.inj hout)
        obtain ⟨acts, hsends, rfl⟩ := callback_eq hcall
        refine Or.inr ⟨_, { s with readBuffer := db', mp := mp' }, s₂, acts, ?_, hsends, rfl, ?_⟩
        · exact ⟨rfl, rfl, rfl, rfl, rfl, rfl⟩
        · exact ⟨rfl, rfl, rfl, rfl, rfl, rfl⟩
      · obtain ⟨rfl, rfl⟩ := Prod.mk.inj (Option.some.inj h)
        exact Or.inl ⟨rfl, rfl, rfl, rfl, rfl, rfl, rfl⟩
  · obtain ⟨rfl, rfl⟩ := Prod.mk.inj (Option.some.inj h)
    exact Or.inl ⟨rfl, rfl, rfl, rfl, rfl, rfl, rfl⟩

theorem Pending.unchanged (h : Pending s l bytes) (hs : SameWrites s s') :
    Streamed s s' [] (bytes ++ []) :=
  ⟨hs.fd, l, bytes, h.same hs, by simp [acceptedIn]⟩

theorem acceptedIn_callback (frame : Option (List Byte)) (o : List ClientAct) :
    acceptedIn (.callback frame :: o) = acceptedIn o := rfl

theorem acceptedIn_read (fd : Int) (r : ReadResult) (o : List ClientAct) :
    acceptedIn (.read fd r :: o) = acceptedIn o := rfl

theorem dispatchOne_streamed {msg : SocketMessage} {sends : List (List Byte × WriteResult)}
    (h : Pending s l bytes) (hfd : s.fd ≠ -1) (hgentle : ∀ p ∈ sends, p.2 ≠ .fatal)
    (hrun : dispatchOne s msg sends = some (s', o)) (hwithin : WithinRequest o) :
    Streamed s s' o (bytes ++ sentBytes o) := by
  rcases dispatchOne_writes hrun with ⟨rfl, hs⟩ | ⟨frame, s₁, s₂, acts, hs, hsends, rfl, hs'⟩
  · exact h.unchanged hs
  · have hstream := sendAll_streamed (h.same hs) (by rw [hs.fd]; exact hfd) hgentle hsends
      hwithin.of_cons
    obtain ⟨hfd', l', bytes', hpending, hmove⟩ := hstream.same hs hs'
    rw [sentBytes_callback]
    refine ⟨hfd', l', bytes', hpending, ?_⟩
    rw [acceptedIn_callback, hmove]

theorem Gentle.tail {sends : List (List (List Byte × WriteResult))} (h : Gentle sends) :
    Gentle sends.tail :=
  fun l hl => h l (List.mem_of_mem_tail hl)

/-- The induction is on the rounds of the loop; what the queue holds does not matter. -/
theorem popLoop_streamed {n : Nat} {sends : List (List (List Byte × WriteResult))}
    (h : Pending s l bytes) (hfd : s.fd ≠ -1) (hgentle : Gentle sends)
    (hrun : popLoop n s sends = some (s', o)) (hwithin : WithinRequest o) :
    Streamed s s' o (bytes ++ sentBytes o) := by
  induction n generalizing s l bytes sends o with
  | zero => simp [popLoop] at hrun
  | succ n ih =>
    unfold popLoop at hrun
    split at hrun
    · simp at hrun
    · next q hq =>
      split at hrun
      · simp at hrun
      · obtain ⟨rfl, rfl⟩ := Prod.mk.inj (Option.some.inj hrun)
        exact h.unchanged ⟨rfl, rfl, rfl, rfl, rfl, rfl⟩
      · next q' msg hpop =>
        obtain ⟨⟨s₁, acts⟩, hone, hrest⟩ := Option.bind_eq_some_iff.mp hrun
        obtain ⟨⟨s₂, acts'⟩, hloop, hout⟩ := Option.bind_eq_some_iff.mp hrest
        obtain ⟨rfl, rfl⟩ := Prod.mk.inj (Option.some.inj hout)
        obtain ⟨hacts, hacts'⟩ := hwithin.of_append
        have hs : SameWrites s { s with q := some q' } := ⟨rfl, rfl, rfl, rfl, rfl, rfl⟩
        have hfirst := (dispatchOne_streamed (h.same hs) hfd hgentle.head hone hacts).same hs
          ⟨rfl, rfl, rfl, rfl, rfl, rfl⟩
        rw [sentBytes_append]
        apply hfirst.trans
        intro l' bytes' hpending
        exact ih hpending (by rw [hfirst.fd]; exact hfd) hgentle.tail hloop hacts'

/-- A read that does not close. -/
theorem recvMsg_writes {r : ReadResult} {ret : RecvResult} (hr : ¬ r.Closing) (hfd : s.fd ≠ -1)
    (h : recvMsg s r = some (s', ret, o)) :
    SameWrites s s' ∧ o = [.read s.fd r] ∧ ret ≠ .socketClose := by
  unfold recvMsg at h
  rw [if_neg hfd] at h
  cases r with
  | bytes data =>
    have hdata : ¬ data.length = 0 := by
      intro hnil
      exact hr (Or.inl (by rw [List.length_eq_zero_iff.mp hnil]))
    simp only [if_neg hdata] at h
    split at h
    · simp at h
    · simp only [Option.some.injEq, Prod.mk.injEq] at h
      obtain ⟨rfl, rfl, rfl⟩ := h
      exact ⟨⟨rfl, rfl, rfl, rfl, rfl, rfl⟩, rfl, by simp⟩
  | eintr =>
    simp only [Option.some.injEq, Prod.mk.injEq] at h
    obtain ⟨rfl, rfl, rfl⟩ := h
    exact ⟨⟨rfl, rfl, rfl, rfl, rfl, rfl⟩, rfl, by simp⟩
  | eagain =>
    simp only [Option.some.injEq, Prod.mk.injEq] at h
    obtain ⟨rfl, rfl, rfl⟩ := h
    exact ⟨⟨rfl, rfl, rfl, rfl, rfl, rfl⟩, rfl, by simp⟩
  | fatal => exact absurd (Or.inr rfl) hr

theorem socketMsgdispatch_streamed {r : ReadResult} {sends : List (List (List Byte × WriteResult))}
    (h : Pending s l bytes) (hfd : s.fd ≠ -1) (hr : ¬ r.Closing) (hgentle : Gentle sends)
    (hrun : socketMsgdispatch s r sends = some (s', o)) (hwithin : WithinRequest o) :
    Streamed s s' o (bytes ++ sentBytes o) := by
  have hloop : ∀ {n s₁ s₂ acts}, SameWrites s s₁ → popLoop n s₁ sends = some (s₂, acts) →
      o = .read s.fd r :: acts → s' = s₂ → Streamed s s' o (bytes ++ sentBytes o) := by
    rintro n s₁ s₂ acts hs hpop rfl rfl
    have hstream := popLoop_streamed (h.same hs) (by rw [hs.fd]; exact hfd) hgentle hpop
      hwithin.of_cons
    obtain ⟨hfd', l', bytes', hpending, hmove⟩ := hstream.same hs ⟨rfl, rfl, rfl, rfl, rfl, rfl⟩
    rw [sentBytes_read]
    refine ⟨hfd', l', bytes', hpending, ?_⟩
    rw [acceptedIn_read, hmove]
  unfold socketMsgdispatch at hrun
  split at hrun
  · obtain ⟨rfl, rfl⟩ := Prod.mk.inj (Option.some.inj hrun)
    exact h.unchanged ⟨rfl, rfl, rfl, rfl, rfl, rfl⟩
  · next q hq =>
    rw [if_neg hfd] at hrun
    obtain ⟨⟨s₁, ret, acts⟩, hrecv, hrest⟩ := Option.bind_eq_some_iff.mp hrun
    obtain ⟨hs, rfl, hret⟩ := recvMsg_writes hr hfd hrecv
    cases ret with
    | message sm =>
      obtain ⟨⟨s₂, acts'⟩, hpop, hout⟩ := Option.bind_eq_some_iff.mp hrest
      obtain ⟨rfl, rfl⟩ := Prod.mk.inj (Option.some.inj hout)
      have hs' : SameWrites s { s₁ with q := some (q.push sm) } :=
        ⟨hs.fd, hs.head, hs.tail, hs.node, hs.brk, hs.size⟩
      exact hloop hs' hpop rfl rfl
    | socketClose => exact absurd rfl hret
    | again =>
      obtain ⟨⟨s₂, acts'⟩, hpop, hout⟩ := Option.bind_eq_some_iff.mp hrest
      obtain ⟨rfl, rfl⟩ := Prod.mk.inj (Option.some.inj hout)
      exact hloop hs hpop rfl rfl

/-! ## Runs -/

theorem Flush.sentBytes_eq (h : Flush s s' o) : sentBytes o = [] := by
  have hwrites : ∀ o', (∀ act ∈ o', ∃ data w, act = .write s.fd data w) → sentBytes o' = [] := by
    intro o' ho'
    rw [sentBytes, List.flatMap_eq_nil_iff]
    intro act hact
    obtain ⟨data, w, rfl⟩ := ho' act hact
    rfl
  obtain ⟨-, ⟨o', rfl, -, -, -, ho'⟩ | ⟨-, -, ho⟩⟩ := h
  · rw [sentBytes_append, hwrites o' ho']
    rfl
  · exact hwrites o ho

theorem clientStep_duplex (h : Pending s l bytes) (hfd : s.fd ≠ -1) {i : ClientInput}
    (hi : i.Lasting) (hrun : clientStep s i = some (s', o)) (hwithin : WithinRequest o) :
    Streamed s s' o (bytes ++ sentBytes o) := by
  cases i with
  | send buffer w =>
    obtain ⟨s₁, o₁, hsend, hstream⟩ := socketSend_streamed h hfd buffer hi
    obtain ⟨rfl, rfl⟩ := Prod.mk.inj (Option.some.inj (hrun.symm.trans hsend))
    rw [(socketSend_sent hsend).sentBytes_eq]
    exact hstream hwithin
  | sendRemainbuffer ws =>
    obtain ⟨s₁, ret, o₁, hloop, hstream⟩ := remainbufferLoop_streamed h hi
    simp only [clientStep, socketSendRemainbuffer, if_neg hfd, hloop, Option.map_some,
      Option.some.injEq, Prod.mk.injEq] at hrun
    obtain ⟨rfl, rfl⟩ := hrun
    rw [(remainbufferLoop_flush hloop).sentBytes_eq, List.append_nil]
    exact hstream hwithin
  | msgdispatch r sends => exact socketMsgdispatch_streamed h hfd hi.1 hi.2 hrun hwithin

/-- Nothing closes the socket. -/
theorem clientStep_lasting (h : SocketOk s) (hopen : s.Open) {i : ClientInput} (hi : i.Lasting)
    (hrun : clientStep s i = some (s', o)) : ¬ Closes o := by
  cases i with
  | send buffer w =>
    obtain ⟨s₁, o₁, hsend, -, hlive⟩ := socketSend_spec h buffer w
    obtain ⟨rfl, rfl⟩ := Prod.mk.inj (Option.some.inj (hrun.symm.trans hsend))
    exact hlive hi
  | sendRemainbuffer ws =>
    obtain ⟨s₁, ret, o₁, hloop, -, hlive⟩ := remainbufferLoop_spec h ws
    simp only [clientStep, socketSendRemainbuffer, if_neg hopen.1, hloop, Option.map_some,
      Option.some.injEq, Prod.mk.injEq] at hrun
    obtain ⟨rfl, rfl⟩ := hrun
    exact hlive hi
  | msgdispatch r sends =>
    have hdispatched := socketMsgdispatch_dispatched h hrun
    cases hdispatched with
    | ignored hshut _ => exact absurd hopen hshut
    | again _ _ _ => simp
    | closed _ hr _ _ _ _ _ _ _ _ _ => exact absurd hr hi.1
    | chunk _ _ _ _ _ _ hlive _ _ _ _ => simpa using hlive

theorem clientStep_continues (h : SocketOk s) (hopen : s.Open) {i : ClientInput} (hi : i.Lasting)
    (hfits : i.readLength ≤ s.size) : ∃ s' o, clientStep s i = some (s', o) := by
  cases hrun : clientStep s i with
  | some after => exact ⟨after.1, after.2, rfl⟩
  | none =>
    obtain ⟨r, sends, rfl, -, data, rfl, hdata, -⟩ := (clientStep_none_iff h hfits).mp hrun
    obtain ⟨s', o, hsome, -⟩ := clientStep_total h hopen hfits hdata hi.2
    simp [hrun] at hsome

theorem sendAll_sentBytes {sends : List (List Byte × WriteResult)}
    (h : sendAll s sends = some (s', o)) : sentBytes o = sends.flatMap Prod.fst := by
  induction sends generalizing s o with
  | nil =>
    obtain ⟨rfl, rfl⟩ := Prod.mk.inj (Option.some.inj h)
    rfl
  | cons p sends ih =>
    obtain ⟨s₁, o₁, o₂, hsent, hrest, rfl⟩ := sendAll_cons h
    rw [sentBytes_append, hsent.sentBytes_eq, ih hrest, List.flatMap_cons]

/-- The calls of `socket_send` in a step are those that its input asks for. -/
theorem clientStep_sentBytes (h : SocketOk s) (hopen : s.Open) {i : ClientInput} (hi : i.Lasting)
    (hrun : clientStep s i = some (s', o)) : sentBytes o = sentBy ⟨s, i, o, s'⟩ := by
  cases i with
  | send buffer w => exact (socketSend_sent hrun).sentBytes_eq
  | sendRemainbuffer ws =>
    obtain ⟨⟨s₁, ret, o₁⟩, hflush, hout⟩ := Option.map_eq_some_iff.mp hrun
    obtain ⟨rfl, rfl⟩ := Prod.mk.inj hout
    rw [socketSendRemainbuffer, if_neg hopen.1] at hflush
    exact (remainbufferLoop_flush hflush).sentBytes_eq
  | msgdispatch r sends =>
    have hquiet : ∀ o : List ClientAct, o = [.read s.fd r] →
        sentBytes o = sentBy ⟨s, .msgdispatch r sends, o, s'⟩ := by
      rintro o rfl
      simp [sentBy, calledBack]
    cases socketMsgdispatch_dispatched h hrun with
    | ignored hshut _ => exact absurd hopen hshut
    | again _ _ _ => exact hquiet _ rfl
    | closed _ hr _ _ _ _ _ _ _ _ _ => exact absurd hr hi.1
    | chunk _ data hr hdata acts _ _ _ _ _ _ =>
      subst hr
      have hfits := socketMsgdispatch_fits hopen hrun
      obtain ⟨n, s₀, s₁, o₁, -, hone, hstep, hlive, hloop, -⟩ :=
        socketMsgdispatch_bytes h hopen hfits hdata sends
      rw [popLoop_empty hstep.ok ((hstep.reader (hlive hi.2)).1 hopen).2] at hloop
      rw [clientStep, hloop] at hrun
      obtain ⟨-, hacts⟩ := Prod.mk.inj (Option.some.inj hrun)
      obtain rfl : o₁ = acts := by simpa using hacts
      rcases dispatchOne_cases hone with ⟨rfl, -, -⟩ | ⟨frame, s₂, s₃, acts, -, -, -, hsends, rfl, -⟩
      · exact hquiet _ rfl
      · simp [sentBy, calledBack, sendAll_sentBytes hsends, -List.headD_eq_head?_getD]

theorem duplex_run {fd : Int} (hfd : fd ≠ -1) {tr : List (Record Socket ClientInput ClientAct)}
    (h : Exec clientStep DuplexInput (socketConnect socketNew fd) tr s) :
    (∀ q ∈ tr, ¬ Closes q.output) ∧
      ∃ l bytes, Pending s l bytes ∧ acceptedIn (outputsOf tr) ++ bytes = sentBytes (outputsOf tr) := by
  induction h with
  | nil => exact ⟨by simp, [], [], socketConnect_pending socketNew fd, rfl⟩
  | @snoc tr s s' i o hrun hinput hstep ih =>
    obtain ⟨hlive, l, bytes, hpending, hsent⟩ := ih
    obtain ⟨hok, hopen, -⟩ := client_fed hfd hrun hlive
    obtain ⟨-, l', bytes', hpending', hmove⟩ :=
      clientStep_duplex hpending hopen.1 hinput.1 hstep (hinput.2 _ hstep)
    refine ⟨?_, l', bytes', hpending', ?_⟩
    · rw [List.forall_mem_append]
      exact ⟨hlive, by simpa using clientStep_lasting hok hopen hinput.1 hstep⟩
    · rw [outputsOf_snoc, acceptedIn_append, sentBytes_append, ← hsent, List.append_assoc,
        List.append_assoc, hmove]

theorem duplex_sentBytes {fd : Int} (hfd : fd ≠ -1)
    {tr : List (Record Socket ClientInput ClientAct)}
    (h : Exec clientStep DuplexInput (socketConnect socketNew fd) tr s)
    (hlive : ∀ q ∈ tr, ¬ Closes q.output) : sentBytes (outputsOf tr) = sentIn tr := by
  induction h with
  | nil => rfl
  | @snoc tr s s' i o hrun hinput hstep ih =>
    have hbefore : ∀ q ∈ tr, ¬ Closes q.output := fun q hq => hlive q (List.mem_append_left _ hq)
    obtain ⟨hok, hopen, -⟩ := client_fed hfd hrun hbefore
    rw [outputsOf_snoc, sentBytes_append, sentIn_snoc, ih hbefore,
      clientStep_sentBytes hok hopen hinput.1 hstep]

/-- The chunks that are read in a run. -/
def chunksIn (tr : List (Record Socket ClientInput ClientAct)) : List (List Byte) :=
  tr.filterMap fun r => r.input.chunk

theorem chunksIn_eq (tr : List (Record Socket ClientInput ClientAct)) :
    (tr.filterMap clientDelivery).map Delivery.chunk = chunksIn tr := by
  rw [List.map_filterMap, chunksIn]
  apply List.filterMap_congr
  intro r _
  cases hr : r.input.chunk with
  | none => simp [clientDelivery, hr]
  | some data => simp [clientDelivery, hr]

/-- Both directions of a socket after the run `tr`. When the bytes read are those of some stream of
frames, the callbacks have got an initial segment of the frames that are not too short; it is all
that has arrived when no chunk ends two frames. -/
structure ExactDuplex (s : Socket) (tr : List (Record Socket ClientInput ClientAct)) : Prop where
  stream : acceptedIn (outputsOf tr) ++ s.pendingBytes = sentIn tr
  size : s.wbSize = s.pendingBytes.length
  calledBack : ∀ fs : List (Framing.Frame beNat), Framing.Acceptable 2 fs →
    (chunksIn tr).flatten <+: Framing.stream fs → ∃ done rest, fs = done ++ rest ∧
      calledBack (outputsOf tr) =
        (done.filter (2 ≤ ·.payload.length)).map Framing.Frame.bytes
  arrived : ∀ fs : List (Framing.Frame beNat), (∀ f ∈ fs, 2 ≤ f.payload.length) →
    (chunksIn tr).flatten <+: Framing.stream fs → Framing.OneEndPerChunk fs (chunksIn tr) →
      NetgameFormal.calledBack (outputsOf tr) =
        (Framing.arrived fs (chunksIn tr).flatten.length).map Framing.Frame.bytes
  total : ∀ i : ClientInput, i.Lasting → i.readLength ≤ s.size →
    ∃ s' o, clientStep s i = some (s', o)

/-- In every run of a socket that stays open, whatever its callbacks send on it: what the kernel has
taken and what is pending are the buffers sent, in the order of the calls, and the callbacks get the
frames of the bytes read, in order. -/
theorem duplex_stream_exact (fd : Int) (hfd : fd ≠ -1)
    {tr : List (Record Socket ClientInput ClientAct)}
    (h : Exec clientStep DuplexInput (socketConnect socketNew fd) tr s) : ExactDuplex s tr := by
  obtain ⟨hlive, l, bytes, hpending, hsent⟩ := duplex_run hfd h
  obtain ⟨hok, hopen, hfed⟩ := client_fed hfd h hlive
  refine ⟨?_, ?_, ?_, ?_, fun i hi hfits => clientStep_continues hok hopen hi hfits⟩
  · rw [hpending.pendingBytes_eq, hsent, duplex_sentBytes hfd h hlive]
  · rw [hpending.pendingBytes_eq, hpending.size]
  · intro fs hfs hread
    obtain ⟨done, rest, -, hsplit, -, hout⟩ := Framing.feedAll_aligned (by decide) hfs hread
    rw [client_calledBack hfd h hlive]
    refine ⟨done, rest, hsplit, hfed.handed_eq_iff.mpr ?_⟩
    rw [chunksIn_eq]
    exact hout
  · intro fs hfs hread hone
    rw [client_calledBack hfd h hlive]
    apply hfed.handed_eq_iff.mpr
    rw [chunksIn_eq]
    exact (Framing.noneWaiting_iff (by decide) hfs hread).mpr hone _ (List.prefix_refl _)

/-- A reply is sent while an earlier send is still partly in the list. -/
theorem duplex_stream_exact_reply :
    ∃ tr s, Exec clientStep DuplexInput (socketConnect socketNew 3) tr s ∧
      s.pendingBytes = [4#8] ∧ calledBack (outputsOf tr) = [[0#8, 2#8, 7#8, 8#8]] ∧
      sentIn tr = [1#8, 2#8, 3#8, 4#8] ∧ ExactDuplex s tr := by
  have hrun : (execute clientStep DuplexInput (socketConnect socketNew 3)
      [.msgdispatch (.bytes [0#8, 2#8, 7#8]) [], .send [1#8, 2#8] (.wrote 1),
        .msgdispatch (.bytes [8#8, 0#8]) [[([3#8, 4#8], .eagain)]],
        .sendRemainbuffer [.wrote 1, .eintr, .wrote 1], .msgdispatch .eagain []]).map
      (fun run => (run.2.pendingBytes, calledBack (outputsOf run.1), sentIn run.1)) =
      some ([4#8], [[0#8, 2#8, 7#8, 8#8]], [1#8, 2#8, 3#8, 4#8]) := by decide +kernel
  obtain ⟨tr, s, h, hdata⟩ := exists_exec _ hrun
  simp only [Prod.mk.injEq] at hdata
  exact ⟨tr, s, h, hdata.1, hdata.2.1, hdata.2.2, duplex_stream_exact 3 (by decide) h⟩

end NetgameFormal

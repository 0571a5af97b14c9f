import NetgameFormal.Md5
import NetgameFormal.ConsoleClient
import NetgameFormal.PingReply

/-!
# The console client

The main program of client.lua, up to each of its system calls: the handshake,
the loop over the packages that arrive, and the loop over the typed messages.
What it sends goes through `block_send` of lua-clientsocket.c, one `send` after
the other. What a typed line evaluates to is part of the input.
-/

set_option autoImplicit false

namespace NetgameFormal

/-- What `send` returns; `again` is `EAGAIN` or `EINTR`. -/
inductive SendResult where
  | sent (n : Nat)
  | again
  | error

inductive ClientStage where
  | connected
  | sending (buffer : List Byte)
  | receiving
  | prompting
  | stopped
  deriving DecidableEq

structure ClientSession where
  fd : Int
  stage : ClientStage
  last : LuaString
  deriving DecidableEq

def clientSessionInit (fd : Int) : ClientSession := ⟨fd, .connected, []⟩

/-- A typed message: `protId`, and the table `p` in a heap, with the packing buffer as it is. -/
structure TypedMessage where
  heap : Heap
  mem : Memory
  protId : Int
  p : Nat

/-- What comes of a call of `readstdin`; on `wrong` the evaluation of the line raises. -/
inductive TypedLine where
  | nothing
  | wrong
  | message (m : TypedMessage)

inductive ClientTurn where
  | handshake
  | send (result : SendResult)
  | recvPackage (received : Option LuaString) (beyond : Memory)
  | readstdin (line : TypedLine)

inductive ClientTurnAct where
  | taken (bytes : List Byte)
  | package (v : LuaString)
  deriving DecidableEq

/-- The test of the loop of `block_send`. -/
def sendLoop (buffer : List Byte) : ClientStage :=
  if buffer = [] then .receiving else .sending buffer

/-- The body of the loop of `block_send`; none when `send` takes more than it is offered. -/
def blockSend (buffer : List Byte) : SendResult → Option (ClientStage × List ClientTurnAct)
  | .sent n =>
    if n ≤ buffer.length then some (sendLoop (buffer.drop n), [.taken (buffer.take n)]) else none
  | .again => some (.sending buffer, [])
  | .error => some (.stopped, [])

/-- The bytes that `socket.sendbuffer` is given for a message; none when `prot:pack` raises. -/
def TypedMessage.package (lp : LprotoC) (prot : Int → Option Prot) (fd : Int) (m : TypedMessage) :
    Option (List Byte) :=
  match packResults (pack lp prot m.heap m.mem fd m.protId m.p) with
  | .ok (sz, buffer) => some (lsendbuffer buffer sz)
  | .error _ => none

/-- The branch on what `recv_package` returns. -/
def receivePackage (lp : LprotoC) (prot : Int → Option Prot) (s : ClientSession)
    (received : Option LuaString) (beyond : Memory) : ClientSession × List ClientTurnAct :=
  match recvPackage s.last [received] with
  | none => ({ s with stage := .stopped }, [])
  | some (none, last, _) => ({ s with stage := .prompting, last := last }, [])
  | some (some v, last, _) =>
    match receive lp prot beyond v with
    | none => ({ s with stage := .stopped, last := last }, [.package v])
    | some r =>
      ({ s with stage := if r.goesOn then .receiving else .stopped, last := last }, [.package v])

def clientTurn (lp : LprotoC) (prot : Int → Option Prot) (s : ClientSession) :
    ClientTurn → Option (ClientSession × List ClientTurnAct)
  | .handshake =>
    if s.stage = .connected then
      (Md5.clientGreeting s.fd).map fun package => ({ s with stage := sendLoop package }, [])
    else none
  | .send result =>
    match s.stage with
    | .sending buffer => (blockSend buffer result).map fun (stage, o) => ({ s with stage := stage }, o)
    | _ => none
  | .recvPackage received beyond =>
    if s.stage = .receiving then some (receivePackage lp prot s received beyond) else none
  | .readstdin line =>
    if s.stage = .prompting then
      match line with
      | .nothing => some ({ s with stage := .receiving }, [])
      | .wrong => some ({ s with stage := .stopped }, [])
      | .message m =>
        match m.package lp prot s.fd with
        | none => some ({ s with stage := .stopped }, [])
        | some bytes => some ({ s with stage := sendLoop bytes }, [])
    else none

/-! ## What is said -/

def ClientTurnAct.bytes : ClientTurnAct → List Byte
  | .taken bytes => bytes
  | .package _ => []

/-- The bytes that the kernel takes. -/
def takenIn (acts : List ClientTurnAct) : List Byte := acts.flatMap ClientTurnAct.bytes

def ClientTurn.typed : ClientTurn → Option TypedMessage
  | .readstdin (.message m) => some m
  | _ => none

/-- The messages typed so far. -/
def typedIn (tr : List (Record ClientSession ClientTurn ClientTurnAct)) : List TypedMessage :=
  tr.filterMap fun r => r.input.typed

/-- What is left to be sent of the package in work. -/
def ClientSession.unsent (s : ClientSession) : List Byte :=
  match s.stage with
  | .sending buffer => buffer
  | _ => []

@[simp] theorem takenIn_append (o o' : List ClientTurnAct) :
    takenIn (o ++ o') = takenIn o ++ takenIn o' := by
  simp [takenIn]

@[simp] theorem takenIn_nil : takenIn [] = [] := rfl

@[simp] theorem takenIn_taken (bytes : List Byte) : takenIn [.taken bytes] = bytes := by
  simp [takenIn, ClientTurnAct.bytes]

@[simp] theorem takenIn_package (v : LuaString) : takenIn [.package v] = [] := rfl

section
variable {lp : LprotoC} {prot : Int → Option Prot} {fd : Int} {s s' : ClientSession}
variable {turn : ClientTurn} {o : List ClientTurnAct}
variable {tr : List (Record ClientSession ClientTurn ClientTurnAct)}

/-- The packages of some messages, one behind the other. -/
def packagesOf (lp : LprotoC) (prot : Int → Option Prot) (fd : Int) (typed : List TypedMessage) :
    List Byte :=
  typed.flatMap fun m => (m.package lp prot fd).getD []

@[simp] theorem packagesOf_append (typed typed' : List TypedMessage) :
    packagesOf lp prot fd (typed ++ typed') =
      packagesOf lp prot fd typed ++ packagesOf lp prot fd typed' := by
  simp [packagesOf]

theorem typedIn_snoc (r : Record ClientSession ClientTurn ClientTurnAct) :
    typedIn (tr ++ [r]) = typedIn tr ++ r.input.typed.toList := by
  rw [typedIn, filterMap_snoc]
  rfl

theorem sendLoop_unsent (s : ClientSession) (buffer : List Byte) :
    ({ s with stage := sendLoop buffer } : ClientSession).unsent = buffer := by
  unfold ClientSession.unsent sendLoop
  by_cases hb : buffer = []
  · simp [hb]
  · simp [hb]

theorem sendLoop_working (buffer : List Byte) :
    sendLoop buffer ≠ .connected ∧ sendLoop buffer ≠ .stopped := by
  unfold sendLoop
  split <;> simp

/-- What a turn of the script can do. -/
inductive ClientTurned (lp : LprotoC) (prot : Int → Option Prot) (s : ClientSession) :
    ClientTurn → ClientSession → List ClientTurnAct → Prop where
  | greeted {package : List Byte} (hs : s.stage = .connected)
      (hp : Md5.clientGreeting s.fd = some package) :
      ClientTurned lp prot s .handshake { s with stage := sendLoop package } []
  | sent {buffer : List Byte} {n : Nat} (hs : s.stage = .sending buffer) :
      ClientTurned lp prot s (.send (.sent n)) { s with stage := sendLoop (buffer.drop n) }
        [.taken (buffer.take n)]
  | again {buffer : List Byte} (hs : s.stage = .sending buffer) :
      ClientTurned lp prot s (.send .again) s []
  | error {buffer : List Byte} (hs : s.stage = .sending buffer) :
      ClientTurned lp prot s (.send .error) { s with stage := .stopped } []
  | read {received : Option LuaString} {beyond : Memory} {stage : ClientStage} {last : LuaString}
      {o : List ClientTurnAct} (hs : s.stage = .receiving)
      (hstage : stage = .receiving ∨ stage = .prompting ∨ stage = .stopped) (ho : takenIn o = []) :
      ClientTurned lp prot s (.recvPackage received beyond) { s with stage := stage, last := last } o
  | untyped {line : TypedLine} {stage : ClientStage} (hs : s.stage = .prompting)
      (hline : (ClientTurn.readstdin line).typed = none)
      (hstage : stage = .receiving ∨ stage = .stopped) :
      ClientTurned lp prot s (.readstdin line) { s with stage := stage } []
  | unpacked {m : TypedMessage} (hs : s.stage = .prompting) (hm : m.package lp prot s.fd = none) :
      ClientTurned lp prot s (.readstdin (.message m)) { s with stage := .stopped } []
  | packed {m : TypedMessage} {bytes : List Byte} (hs : s.stage = .prompting)
      (hm : m.package lp prot s.fd = some bytes) :
      ClientTurned lp prot s (.readstdin (.message m)) { s with stage := sendLoop bytes } []

theorem receivePackage_turned (received : Option LuaString) (beyond : Memory)
    (hs : s.stage = .receiving) :
    ClientTurned lp prot s (.recvPackage received beyond)
      (receivePackage lp prot s received beyond).1 (receivePackage lp prot s received beyond).2 := by
  unfold receivePackage
  split
  · exact .read hs (.inr (.inr rfl)) rfl
  · exact .read hs (.inr (.inl rfl)) rfl
  · split
    · exact .read hs (.inr (.inr rfl)) rfl
    · next r _ =>
      apply ClientTurned.read hs _ rfl
      cases r.goesOn
      · exact .inr (.inr rfl)
      · exact .inl rfl

theorem clientTurn_cases (h : clientTurn lp prot s turn = some (s', o)) :
    ClientTurned lp prot s turn s' o := by
  cases turn with
  | handshake =>
    simp only [clientTurn, Option.ite_none_right_eq_some, Option.map_eq_some_iff] at h
    obtain ⟨hs, package, hp, heq⟩ := h
    obtain ⟨rfl, rfl⟩ := Prod.mk.inj heq
    exact .greeted hs hp
  | send result =>
    simp only [clientTurn] at h
    split at h
    · next buffer hs =>
      cases result with
      | sent n =>
        simp only [blockSend, Option.map_eq_some_iff, Option.ite_none_right_eq_some,
          Option.some.injEq] at h
        obtain ⟨_, ⟨-, rfl⟩, heq⟩ := h
        obtain ⟨rfl, rfl⟩ := Prod.mk.inj heq
        exact .sent hs
      | again =>
        simp only [blockSend, Option.map_some, Option.some.injEq, Prod.mk.injEq] at h
        obtain ⟨rfl, rfl⟩ := h
        rw [← hs]
        exact .again hs
      | error =>
        simp only [blockSend, Option.map_some, Option.some.injEq, Prod.mk.injEq] at h
        obtain ⟨rfl, rfl⟩ := h
        exact .error hs
    · cases h
  | recvPackage received beyond =>
    simp only [clientTurn, Option.ite_none_right_eq_some, Option.some.injEq] at h
    obtain ⟨hs, heq⟩ := h
    have hturned : ClientTurned lp prot s (.recvPackage received beyond)
        (receivePackage lp prot s received beyond).1 (receivePackage lp prot s received beyond).2 :=
      receivePackage_turned received beyond hs
    rw [heq] at hturned
    exact hturned
  | readstdin line =>
    simp only [clientTurn, Option.ite_none_right_eq_some] at h
    obtain ⟨hs, h⟩ := h
    cases line with
    | nothing =>
      obtain ⟨rfl, rfl⟩ := Prod.mk.inj (Option.some.inj h)
      exact .untyped hs rfl (.inl rfl)
    | wrong =>
      obtain ⟨rfl, rfl⟩ := Prod.mk.inj (Option.some.inj h)
      exact .untyped hs rfl (.inr rfl)
    | message m =>
      cases hm : m.package lp prot s.fd with
      | none =>
        simp only [hm, Option.some.injEq, Prod.mk.injEq] at h
        obtain ⟨rfl, rfl⟩ := h
        exact .unpacked hs hm
      | some bytes =>
        simp only [hm, Option.some.injEq, Prod.mk.injEq] at h
        obtain ⟨rfl, rfl⟩ := h
        exact .packed hs hm

/-- Where a run of the script stands that has sent `taken` of its greeting and its messages. -/
structure Saying (lp : LprotoC) (prot : Int → Option Prot) (fd : Int) (greeting : List Byte)
    (typed : List TypedMessage) (taken : List Byte) (s : ClientSession) : Prop where
  fd_eq : s.fd = fd
  fresh : s.stage = .connected → typed = [] ∧ taken = []
  exact : s.stage ≠ .connected → s.stage ≠ .stopped →
    taken ++ s.unsent = greeting ++ packagesOf lp prot fd typed
  kept : taken <+: greeting ++ packagesOf lp prot fd typed

section
variable {greeting taken : List Byte} {typed : List TypedMessage}

theorem Saying.working {stage : ClientStage} {last : LuaString} (hfd : s.fd = fd)
    (hc : stage ≠ .connected)
    (h : taken ++ ({ s with stage := stage, last := last } : ClientSession).unsent =
      greeting ++ packagesOf lp prot fd typed) :
    Saying lp prot fd greeting typed taken { s with stage := stage, last := last } where
  fd_eq := hfd
  fresh := fun hs => absurd hs hc
  exact := fun _ _ => h
  kept := ⟨_, h⟩

theorem Saying.stopped {last : LuaString} (hfd : s.fd = fd)
    (h : taken <+: greeting ++ packagesOf lp prot fd typed) :
    Saying lp prot fd greeting typed taken { s with stage := .stopped, last := last } where
  fd_eq := hfd
  fresh := fun hs => by cases hs
  exact := fun _ hs => absurd rfl hs
  kept := h

theorem Saying.idle (h : Saying lp prot fd greeting typed taken s)
    (hs : s.stage = .receiving ∨ s.stage = .prompting) :
    taken = greeting ++ packagesOf lp prot fd typed := by
  have hexact := h.exact (by rcases hs with hs | hs <;> simp [hs])
    (by rcases hs with hs | hs <;> simp [hs])
  have hunsent : s.unsent = [] := by rcases hs with hs | hs <;> simp [ClientSession.unsent, hs]
  rwa [hunsent, List.append_nil] at hexact

theorem Saying.step (hgreeting : Md5.clientGreeting fd = some greeting)
    (h : Saying lp prot fd greeting typed taken s) (hturn : ClientTurned lp prot s turn s' o) :
    Saying lp prot fd greeting (typed ++ turn.typed.toList) (taken ++ takenIn o) s' := by
  have hfd := h.fd_eq
  cases hturn with
  | greeted hs hp =>
    obtain ⟨rfl, rfl⟩ := h.fresh hs
    rw [hfd, hgreeting] at hp
    obtain rfl := Option.some.inj hp
    apply Saying.working hfd (sendLoop_working _).1
    rw [sendLoop_unsent]
    simp [ClientTurn.typed, packagesOf]
  | @sent buffer n hs =>
    have hexact := h.exact (by simp [hs]) (by simp [hs])
    apply Saying.working hfd (sendLoop_working _).1
    rw [sendLoop_unsent]
    simpa [ClientSession.unsent, hs, ClientTurn.typed] using hexact
  | again hs => simpa [ClientTurn.typed] using h
  | error hs =>
    apply Saying.stopped hfd
    simpa [ClientTurn.typed] using h.kept
  | @read received beyond stage last o hs hstage ho =>
    have hidle := h.idle (.inl hs)
    rw [ho, List.append_nil]
    simp only [ClientTurn.typed, Option.toList_none, List.append_nil]
    rcases hstage with rfl | rfl | rfl
    · exact Saying.working hfd (by simp) (by simpa [ClientSession.unsent] using hidle)
    · exact Saying.working hfd (by simp) (by simpa [ClientSession.unsent] using hidle)
    · exact Saying.stopped hfd h.kept
  | @untyped line stage hs hline hstage =>
    have hidle := h.idle (.inr hs)
    simp only [hline, Option.toList_none, List.append_nil, takenIn_nil]
    rcases hstage with rfl | rfl
    · exact Saying.working hfd (by simp) (by simpa [ClientSession.unsent] using hidle)
    · exact Saying.stopped hfd h.kept
  | @unpacked m hs hm =>
    apply Saying.stopped hfd
    rw [hfd] at hm
    simpa [ClientTurn.typed, packagesOf, hm] using h.kept
  | @packed m bytes hs hm =>
    have hidle := h.idle (.inr hs)
    apply Saying.working hfd (sendLoop_working _).1
    rw [sendLoop_unsent, hidle]
    rw [hfd] at hm
    simp [ClientTurn.typed, packagesOf, hm]

end

theorem session_run {greeting : List Byte} (hgreeting : Md5.clientGreeting fd = some greeting)
    {ok : ClientSession → ClientTurn → Prop}
    (h : Exec (clientTurn lp prot) ok (clientSessionInit fd) tr s) :
    Saying lp prot fd greeting (typedIn tr) (takenIn (outputsOf tr)) s := by
  induction h with
  | nil =>
    refine ⟨rfl, fun _ => ⟨rfl, rfl⟩, fun hs => absurd rfl hs, List.nil_prefix⟩
  | @snoc tr s s' turn o _ _ hrun ih =>
    rw [typedIn_snoc, outputsOf_snoc, takenIn_append]
    exact ih.step hgreeting (clientTurn_cases hrun)

theorem clientTurn_stopped (hs : s.stage = .stopped) : clientTurn lp prot s turn = none := by
  cases turn <;> simp [clientTurn, hs]

/-- A message is read from the console while everything before it has been sent. -/
theorem typed_prompting (h : ClientTurned lp prot s turn s' o) (hm : turn.typed ≠ none) :
    s.stage = .prompting := by
  cases h with
  | greeted _ _ => exact absurd rfl hm
  | sent _ => exact absurd rfl hm
  | again _ => exact absurd rfl hm
  | error _ => exact absurd rfl hm
  | read _ _ _ => exact absurd rfl hm
  | untyped hs _ _ => exact hs
  | unpacked hs _ => exact hs
  | packed hs _ => exact hs

end

/-- However much each `send` takes and however often it fails for the moment, the kernel gets the
greeting and the packages of the typed messages, in order and whole, and an initial segment of them
once an error has ended the script. No message is packed before all the ones before it are sent. -/
theorem client_said (lp : LprotoC) (prot : Int → Option Prot) (fd : Int)
    {tr : List (Record ClientSession ClientTurn ClientTurnAct)} {s : ClientSession}
    (h : Exec (clientTurn lp prot) (fun _ _ => True) (clientSessionInit fd) tr s) :
    ∃ hello : Framing.Frame beNat, Md5.clientGreeting fd = some hello.bytes ∧
      Greets gatewayMd5.client hello ∧
      takenIn (outputsOf tr) <+: hello.bytes ++ packagesOf lp prot fd (typedIn tr) ∧
      (s.stage ≠ .connected → s.stage ≠ .stopped → takenIn (outputsOf tr) ++ s.unsent =
        hello.bytes ++ packagesOf lp prot fd (typedIn tr)) ∧
      (s.stage = .stopped → ∀ turn, clientTurn lp prot s turn = none) ∧
      ∀ front r rest, tr = front ++ r :: rest → r.input.typed ≠ none →
        takenIn (outputsOf front) = hello.bytes ++ packagesOf lp prot fd (typedIn front) := by
  obtain ⟨hello, hgreeting, hgreets⟩ := Md5.clientGreeting_greets fd
  have hsaid := session_run hgreeting h
  refine ⟨hello, hgreeting, hgreets, hsaid.kept, hsaid.exact,
    fun hs _ => clientTurn_stopped hs, ?_⟩
  rintro front r rest rfl htyped
  obtain ⟨m, hfront, hrest⟩ := h.split
  obtain ⟨rfl, -, hstep, -⟩ := hrest.cons_inv
  have hprompting := typed_prompting (clientTurn_cases hstep) htyped
  exact (session_run hgreeting hfront).idle (.inr hprompting)

/-- The message `{n = 1}` as it is typed on descriptor 3. -/
def typedPing : TypedMessage := ⟨pingMessage, fun _ => 0#8, 1, 0⟩

/-- The greeting goes out in two pieces, and of the message only a part. -/
theorem client_said_cut :
    ∃ (tr : List (Record ClientSession ClientTurn ClientTurnAct)) (hello : Framing.Frame beNat),
      takenIn (outputsOf tr) = clientHandshake.bytes ++ [0, 8, 0, 3, 0] ∧
      Md5.clientGreeting 3 = some hello.bytes ∧
      takenIn (outputsOf tr) <+:
        hello.bytes ++ packagesOf lprotoBytes (initprot (oneProt 1 pingFields)) 3 (typedIn tr) := by
  have hrun : (execute (clientTurn lprotoBytes (initprot (oneProt 1 pingFields))) (fun _ _ => True)
      (clientSessionInit 3) [.handshake, .send (.sent 9), .send .again, .send (.sent 29),
        .recvPackage none (fun _ => 0#8), .readstdin (.message typedPing), .send (.sent 5)]).map
      (fun run => takenIn (outputsOf run.1)) = some (clientHandshake.bytes ++ [0, 8, 0, 3, 0]) := by
    decide +kernel
  obtain ⟨tr, s, h, htaken⟩ := exists_exec _ hrun
  obtain ⟨hello, hgreeting, -, hkept, -⟩ := client_said lprotoBytes _ 3 h
  exact ⟨tr, hello, htaken, hgreeting, hkept⟩

end NetgameFormal

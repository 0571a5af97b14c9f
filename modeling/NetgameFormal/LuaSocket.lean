import NetgameFormal.Lproto
import NetgameFormal.Runs

/-!
# socket.lua: who deletes a socket

A sock wraps a handle of the C module. It is listed under the descriptor it was
connected with, which the loop goes through, and it can be deleted by the
script or by its finaliser. The descriptor that the C socket reports becomes -1
when the connection ends. The order of the events is open, so that the turns of
one `socket.loop` may have calls of the script and finalisers between them.
-/

set_option autoImplicit false

namespace NetgameFormal

open Function

/-! ## The module -/

/-- A call of the C module on the handle of the sock `k`. -/
inductive SocketCall where
  | connect (k : Nat)
  | disconnect (k : Nat)
  | sendstring (k : Nat)
  | getfd (k : Nat)
  | loop (k : Nat)
  deriving DecidableEq

def SocketCall.handle : SocketCall → Nat
  | .connect k => k
  | .disconnect k => k
  | .sendstring k => k
  | .getfd k => k
  | .loop k => k

/-- A sock: the descriptor that its C socket reports, whether it has its metatable, whether the
script holds it, and whether its finaliser has run. -/
structure Sock where
  fd : Int
  metatable : Bool
  held : Bool
  finalised : Bool
  deriving DecidableEq

structure SockLists where
  socks : List Sock
  sockList_fd2sock : Int → Option Nat
  sockList_name2fd : LuaString → Option Int

def SockLists.init : SockLists := ⟨[], fun _ => none, fun _ => none⟩

inductive SockEvent where
  /-- `fd` is the descriptor of the new C socket; without one `socket_c.connect` raises. -/
  | connect (addr port : LuaString) (fd : Option Int)
  | close (k : Nat)
  | disconnect (k : Nat)
  | sendbuffer (k : Nat)
  | sendstring (k : Nat)
  | getfd (k : Nat)
  /-- One turn of `socket.loop`, on the sock listed under `fd`; the connection may end in it. -/
  | loop (fd : Int) (ends : Bool)
  | delsock (fd : Int)
  | getsock (fd : Int)
  /-- The script gives up its references to `k`. -/
  | drop (k : Nat)
  | gc (k : Nat)
  deriving DecidableEq

namespace SockLists

def delsock (st : SockLists) (fd : Int) : SockLists :=
  { st with sockList_fd2sock := update st.sockList_fd2sock fd none }

def modify (st : SockLists) (k : Nat) (f : Sock → Sock) : SockLists :=
  { st with socks := st.socks.modify k f }

/-- `if sockList_name2fd[name] then socket.delsock(sockList_name2fd[name]) end` -/
def delname (st : SockLists) (name : LuaString) : SockLists :=
  match st.sockList_name2fd name with
  | some fd => st.delsock fd
  | none => st

/-- A name is looked up with a colon in it, but entered without. -/
def connect (st : SockLists) (addr port : LuaString) (fd : Option Int) :
    SockLists × List SocketCall :=
  let st := st.delname (addr ++ luaString ":" ++ port)
  match fd with
  | none => (st, [])
  | some fd =>
    let k := st.socks.length
    ({ socks := st.socks ++ [⟨fd, true, true, false⟩]
       sockList_fd2sock := update st.sockList_fd2sock fd (some k)
       sockList_name2fd := update st.sockList_name2fd (addr ++ port) (some fd) },
      [.connect k, .getfd k])

/-- `sock:close` on the sock `o`, which is the `k`-th. -/
def close (st : SockLists) (k : Nat) (o : Sock) : SockLists × List SocketCall :=
  (st.delsock o.fd, [.getfd k, .disconnect k])

def disconnect (st : SockLists) (k : Nat) (o : Sock) : SockLists × List SocketCall :=
  let (st, calls) := st.close k o
  (st.modify k fun o => { o with metatable := false }, calls)

/-- A method found through the metatable; without it the call raises. -/
def method (st : SockLists) (k : Nat) (f : Sock → SockLists × List SocketCall) :
    Option (SockLists × List SocketCall) :=
  st.socks[k]?.map fun o => if o.metatable then f o else (st, [])

end SockLists

def sockStep (st : SockLists) : SockEvent → Option (SockLists × List SocketCall)
  | .connect addr port fd => some (st.connect addr port fd)
  | .close k => st.method k (st.close k)
  | .disconnect k => st.method k (st.disconnect k)
  | .sendbuffer k => st.method k fun _ => (st, [.sendstring k])
  | .sendstring k => st.method k fun _ => (st, [.sendstring k])
  | .getfd k => st.method k fun _ => (st, [.getfd k])
  | .loop fd ends =>
    (st.sockList_fd2sock fd).map fun k =>
      (if ends then st.modify k fun o => { o with fd := -1 } else st, [.loop k])
  | .delsock fd => some (st.delsock fd, [])
  | .getsock fd =>
    match st.sockList_fd2sock fd with
    | some k => some (st.modify k fun o => { o with held := true }, [])
    | none => some (st, [])
  | .drop k => some (st.modify k fun o => { o with held := false }, [])
  | .gc k => st.method k fun o =>
    let (st, calls) := st.close k o
    (st.modify k fun o => { o with finalised := true }, calls)

/-! ## What may happen when -/

namespace SockLists

def Held (st : SockLists) (k : Nat) : Prop := ∃ o, st.socks[k]? = some o ∧ o.held = true

def Listed (st : SockLists) (k : Nat) : Prop := ∃ fd, st.sockList_fd2sock fd = some k

def HasMetatable (st : SockLists) (k : Nat) : Prop :=
  ∃ o, st.socks[k]? = some o ∧ o.metatable = true

/-- Nothing leads to `k` any more; it has its metatable, and its finaliser has not run. -/
def Collectable (st : SockLists) (k : Nat) : Prop :=
  ¬ st.Held k ∧ ¬ st.Listed k ∧ st.HasMetatable k ∧
    ∃ o, st.socks[k]? = some o ∧ o.finalised = false

end SockLists

/-- The script calls methods of what it holds, and the collector finalises what is unreachable. -/
def Possible (st : SockLists) : SockEvent → Prop
  | .close k => st.Held k
  | .disconnect k => st.Held k
  | .sendbuffer k => st.Held k
  | .sendstring k => st.Held k
  | .getfd k => st.Held k
  | .gc k => st.Collectable k
  | _ => True

/-! ## The property and its condition -/

/-- `socket_c.disconnect` comes at most once for each handle, and nothing after it. -/
structure HandlesSafe (calls : List SocketCall) : Prop where
  once : ∀ k, calls.count (.disconnect k) ≤ 1
  last : calls.Pairwise fun call later => ∀ k, call = .disconnect k → later.handle ≠ k

/-- A method of the sock `k`, also as its finaliser. -/
def SockEvent.invokes (k : Nat) : SockEvent → Prop
  | .close j => j = k
  | .disconnect j => j = k
  | .sendbuffer j => j = k
  | .sendstring j => j = k
  | .getfd j => j = k
  | .gc j => j = k
  | _ => False

abbrev SockRecord := Record SockLists SockEvent SocketCall

/-- The script closes a sock with `sock:close`, and a method of it is called later: by the script,
or by the finaliser that the sock still has. -/
def ClosedThenUsed (r r' : SockRecord) : Prop :=
  ∃ k, r.input = .close k ∧ r.pre.HasMetatable k ∧ r'.input.invokes k ∧ r'.pre.HasMetatable k

/-- A sock is closed or disconnected when its descriptor is already -1, and a loop comes to it
later under the descriptor it is still listed by. -/
def LostThenLooped (r r' : SockRecord) : Prop :=
  ∃ k, (r.input = .close k ∨ r.input = .disconnect k) ∧
    (∃ o, r.pre.socks[k]? = some o ∧ o.metatable = true ∧ o.fd = -1) ∧
    ∃ fd ends, r'.input = .loop fd ends ∧ r'.pre.sockList_fd2sock fd = some k

/-! ## What a step can change -/

namespace SockLists

/-- How the socks of a later state go back to those of an earlier one. -/
structure Evolves (st st' : SockLists) : Prop where
  keeps : ∀ k o, st.socks[k]? = some o → ∃ o', st'.socks[k]? = some o' ∧
    (o'.fd = o.fd ∨ o'.fd = -1) ∧ (o'.metatable = true → o.metatable = true) ∧
    (o.finalised = true → o'.finalised = true) ∧
    (o'.held = true → o.held = true ∨ st.Listed k)
  lists : ∀ fd k, st'.sockList_fd2sock fd = some k → st.sockList_fd2sock fd = some k ∨
    st.socks[k]? = none ∧ ∃ o, st'.socks[k]? = some o ∧ (o.fd = fd ∨ o.fd = -1)

/-- A sock is listed under the descriptor it was connected with. -/
def Ok (st : SockLists) : Prop :=
  ∀ fd k, st.sockList_fd2sock fd = some k →
    ∃ o, st.socks[k]? = some o ∧ (o.fd = fd ∨ o.fd = -1)

section Evolution

variable {st st' st'' : SockLists} {k : Nat}

theorem Evolves.refl (st : SockLists) : st.Evolves st :=
  ⟨fun _ o ho => ⟨o, ho, .inl rfl, id, id, .inl⟩, fun _ _ h => .inl h⟩

theorem Evolves.listed (h : st.Evolves st') {o : Sock} (ho : st.socks[k]? = some o)
    (hlisted : st'.Listed k) : st.Listed k := by
  obtain ⟨fd, hfd⟩ := hlisted
  rcases h.lists fd k hfd with hold | ⟨hnew, -⟩
  · exact ⟨fd, hold⟩
  · rw [ho] at hnew
    cases hnew

theorem Evolves.trans (h : st.Evolves st') (h' : st'.Evolves st'') : st.Evolves st'' := by
  constructor
  · intro k o ho
    obtain ⟨o', ho', hfd, hmeta, hfinal, hheld⟩ := h.keeps k o ho
    obtain ⟨o'', ho'', hfd', hmeta', hfinal', hheld'⟩ := h'.keeps k o' ho'
    refine ⟨o'', ho'', ?_, fun hm => hmeta (hmeta' hm), fun hf => hfinal' (hfinal hf), ?_⟩
    · rcases hfd' with hfd' | hfd'
      · rw [hfd']
        exact hfd
      · exact .inr hfd'
    · intro hheld''
      rcases hheld' hheld'' with hh | hl
      · exact hheld hh
      · exact .inr (h.listed ho hl)
  · intro fd k hlist
    rcases h'.lists fd k hlist with hlist' | ⟨hnew, o, ho, hfd⟩
    · rcases h.lists fd k hlist' with hold | ⟨hnew, o, ho, hfd⟩
      · exact .inl hold
      · obtain ⟨o', ho', hfd', -⟩ := h'.keeps k o ho
        refine .inr ⟨hnew, o', ho', ?_⟩
        rcases hfd' with hfd' | hfd'
        · rw [hfd']
          exact hfd
        · exact .inr hfd'
    · refine .inr ⟨?_, o, ho, hfd⟩
      cases hk : st.socks[k]? with
      | none => rfl
      | some o₀ =>
        obtain ⟨o', ho', -⟩ := h.keeps k o₀ hk
        rw [hnew] at ho'
        cases ho'

theorem Evolves.ok (h : st.Evolves st') (hok : st.Ok) : st'.Ok := by
  intro fd k hlist
  rcases h.lists fd k hlist with hold | ⟨-, hnew⟩
  · obtain ⟨o, ho, hfd⟩ := hok fd k hold
    obtain ⟨o', ho', hfd', -⟩ := h.keeps k o ho
    refine ⟨o', ho', ?_⟩
    rcases hfd' with hfd' | hfd'
    · rw [hfd']
      exact hfd
    · exact .inr hfd'
  · exact hnew

theorem delsock_evolves (st : SockLists) (fd : Int) : st.Evolves (st.delsock fd) := by
  refine ⟨(Evolves.refl st).keeps, ?_⟩
  intro fd' k hlist
  by_cases heq : fd' = fd
  · subst heq
    simp only [delsock, update_self] at hlist
    cases hlist
  · simp only [delsock, update_of_ne heq] at hlist
    exact .inl hlist

theorem delname_evolves (st : SockLists) (name : LuaString) : st.Evolves (st.delname name) := by
  unfold delname
  cases st.sockList_name2fd name with
  | none => exact .refl st
  | some fd => exact delsock_evolves st fd

theorem modify_socks (st : SockLists) (k : Nat) (f : Sock → Sock) (j : Nat) :
    (st.modify k f).socks[j]? = if k = j then st.socks[j]?.map f else st.socks[j]? := by
  simp only [modify, List.getElem?_modify]
  by_cases hj : k = j
  · simp only [hj, if_true]
    rfl
  · simp only [hj, if_false, id_map']

theorem modify_self (st : SockLists) (f : Sock → Sock) {o : Sock} (ho : st.socks[k]? = some o) :
    (st.modify k f).socks[k]? = some (f o) := by
  rw [modify_socks, if_pos rfl, ho, Option.map_some]

theorem modify_evolves (st : SockLists) (k : Nat) {f : Sock → Sock}
    (hfd : ∀ o, (f o).fd = o.fd ∨ (f o).fd = -1)
    (hmeta : ∀ o, (f o).metatable = true → o.metatable = true)
    (hfinal : ∀ o, o.finalised = true → (f o).finalised = true)
    (hheld : ∀ o, (f o).held = true → o.held = true ∨ st.Listed k) :
    st.Evolves (st.modify k f) := by
  refine ⟨?_, fun _ _ h => .inl h⟩
  intro j o ho
  rw [modify_socks]
  by_cases hj : k = j
  · subst hj
    rw [if_pos rfl, ho]
    exact ⟨f o, rfl, hfd o, hmeta o, hfinal o, hheld o⟩
  · rw [if_neg hj]
    exact (Evolves.refl st).keeps j o ho

theorem connect_evolves (st : SockLists) (addr port : LuaString) (fd : Option Int) :
    st.Evolves (st.connect addr port fd).1 := by
  refine (delname_evolves st (addr ++ luaString ":" ++ port)).trans ?_
  unfold connect
  generalize st.delname (addr ++ luaString ":" ++ port) = st'
  cases fd with
  | none => exact .refl st'
  | some fd =>
    constructor
    · intro k o ho
      have hlt : k < st'.socks.length := (List.getElem?_eq_some_iff.mp ho).1
      refine ⟨o, ?_, .inl rfl, id, id, .inl⟩
      rw [List.getElem?_append_left hlt]
      exact ho
    · intro fd' k hlist
      by_cases heq : fd' = fd
      · subst heq
        simp only [update_self, Option.some.injEq] at hlist
        subst hlist
        refine .inr ⟨List.getElem?_eq_none le_rfl, ⟨fd', true, true, false⟩, ?_, .inl rfl⟩
        rw [List.getElem?_append_right le_rfl, Nat.sub_self]
        rfl
      · simp only [update_of_ne heq] at hlist
        exact .inl hlist

theorem method_some {f : Sock → SockLists × List SocketCall} {out : SockLists × List SocketCall}
    (h : st.method k f = some out) :
    ∃ o, st.socks[k]? = some o ∧
      (o.metatable = true ∧ out = f o ∨ o.metatable = false ∧ out = (st, [])) := by
  unfold method at h
  cases ho : st.socks[k]? with
  | none =>
    rw [ho] at h
    cases h
  | some o =>
    rw [ho, Option.map_some, Option.some.injEq] at h
    refine ⟨o, rfl, ?_⟩
    cases hmeta : o.metatable with
    | true =>
      simp only [hmeta, if_true] at h
      exact .inl ⟨rfl, h.symm⟩
    | false =>
      simp only [hmeta, Bool.false_eq_true, if_false] at h
      exact .inr ⟨rfl, h.symm⟩

theorem method_of_metatable {o : Sock} (ho : st.socks[k]? = some o) (hmeta : o.metatable = true)
    {f : Sock → SockLists × List SocketCall} : st.method k f = some (f o) := by
  rw [method, ho, Option.map_some, if_pos hmeta]

end Evolution

end SockLists

open SockLists

section Step

variable {st st' : SockLists} {e : SockEvent} {calls : List SocketCall} {k : Nat}

/-- All that a step can do: what it calls, and what becomes of the lists. -/
inductive Stepped (st : SockLists) : SockEvent → SockLists → List SocketCall → Prop
  | silent {e : SockEvent} {st' : SockLists} : st.Evolves st' → Stepped st e st' []
  | connected {addr port : LuaString} {fd : Int} {st' : SockLists} {k : Nat} :
      st.socks[k]? = none → st.Evolves st' →
      Stepped st (.connect addr port (some fd)) st' [.connect k, .getfd k]
  | closed {k : Nat} {o : Sock} : st.socks[k]? = some o → o.metatable = true →
      Stepped st (.close k) (st.close k o).1 [.getfd k, .disconnect k]
  | disconnected {k : Nat} {o : Sock} : st.socks[k]? = some o → o.metatable = true →
      Stepped st (.disconnect k) (st.disconnect k o).1 [.getfd k, .disconnect k]
  | collected {k : Nat} {o : Sock} : st.socks[k]? = some o → o.metatable = true →
      Stepped st (.gc k) ((st.close k o).1.modify k fun o => { o with finalised := true })
        [.getfd k, .disconnect k]
  | called {e : SockEvent} {k : Nat} {call : SocketCall} : e.invokes k → st.HasMetatable k →
      call.handle = k → (∀ j, call ≠ .disconnect j) → Stepped st e st [call]
  | looped {fd : Int} {ends : Bool} {st' : SockLists} {k : Nat} :
      st.sockList_fd2sock fd = some k → st.Evolves st' →
      Stepped st (.loop fd ends) st' [.loop k]

theorem method_stepped {f : Sock → SockLists × List SocketCall}
    (h : st.method k f = some (st', calls))
    (hf : ∀ o, st.socks[k]? = some o → o.metatable = true → Stepped st e (f o).1 (f o).2) :
    Stepped st e st' calls := by
  obtain ⟨o, ho, ⟨hmeta, hout⟩ | ⟨-, hout⟩⟩ := method_some h
  · have hst : st' = (f o).1 := congrArg Prod.fst hout
    have hcalls : calls = (f o).2 := congrArg Prod.snd hout
    rw [hst, hcalls]
    exact hf o ho hmeta
  · cases hout
    exact .silent (.refl st)

theorem sockStep_cases (h : sockStep st e = some (st', calls)) : Stepped st e st' calls := by
  cases e with
  | connect addr port fd =>
    have hevolves := connect_evolves st addr port fd
    have hnew : (st.delname (addr ++ luaString ":" ++ port)).socks = st.socks := by
      unfold delname
      cases st.sockList_name2fd (addr ++ luaString ":" ++ port) <;> rfl
    cases fd with
    | none =>
      cases h
      exact .silent hevolves
    | some fd =>
      cases h
      refine .connected ?_ hevolves
      rw [hnew]
      exact List.getElem?_eq_none le_rfl
  | close k => exact method_stepped h fun _ ho hmeta => .closed ho hmeta
  | disconnect k => exact method_stepped h fun _ ho hmeta => .disconnected ho hmeta
  | sendbuffer k =>
    exact method_stepped h fun o ho hmeta =>
      .called rfl ⟨o, ho, hmeta⟩ rfl fun _ => SocketCall.noConfusion
  | sendstring k =>
    exact method_stepped h fun o ho hmeta =>
      .called rfl ⟨o, ho, hmeta⟩ rfl fun _ => SocketCall.noConfusion
  | getfd k =>
    exact method_stepped h fun o ho hmeta =>
      .called rfl ⟨o, ho, hmeta⟩ rfl fun _ => SocketCall.noConfusion
  | loop fd ends =>
    obtain ⟨k, hlist, hout⟩ := Option.map_eq_some_iff.mp h
    cases hout
    refine .looped hlist ?_
    cases ends with
    | true =>
      exact modify_evolves st k (fun _ => .inr rfl) (fun _ => id) (fun _ => id) (fun _ => .inl)
    | false => exact .refl st
  | delsock fd =>
    cases h
    exact .silent (delsock_evolves st fd)
  | getsock fd =>
    unfold sockStep at h
    cases hlist : st.sockList_fd2sock fd with
    | none =>
      simp only [hlist] at h
      cases h
      exact .silent (.refl st)
    | some k =>
      simp only [hlist] at h
      cases h
      apply Stepped.silent
      exact modify_evolves st k (fun _ => .inl rfl) (fun _ => id) (fun _ => id)
        (fun _ _ => .inr ⟨fd, hlist⟩)
  | drop k =>
    cases h
    apply Stepped.silent
    exact modify_evolves st k (fun _ => .inl rfl) (fun _ => id) (fun _ => id)
      (fun _ hheld => by cases hheld)
  | gc k => exact method_stepped h fun _ ho hmeta => .collected ho hmeta

theorem Stepped.evolves (h : Stepped st e st' calls) : st.Evolves st' := by
  cases h with
  | silent hevolves => exact hevolves
  | connected hnew hevolves => exact hevolves
  | closed => exact delsock_evolves st _
  | disconnected =>
    apply (delsock_evolves st _).trans
    exact modify_evolves _ _ (fun _ => .inl rfl) (fun _ hm => by cases hm) (fun _ => id)
      (fun _ => .inl)
  | collected =>
    apply (delsock_evolves st _).trans
    exact modify_evolves _ _ (fun _ => .inl rfl) (fun _ => id) (fun _ _ => rfl) (fun _ => .inl)
  | called => exact .refl st
  | looped hlist hevolves => exact hevolves

/-- Where the calls of a step come from: a method, a turn of the loop, or a new sock. -/
theorem Stepped.caller (h : Stepped st e st' calls) {call : SocketCall} (hcall : call ∈ calls) :
    (e.invokes call.handle ∧ st.HasMetatable call.handle) ∨
      (∃ fd ends, e = .loop fd ends ∧ st.sockList_fd2sock fd = some call.handle) ∨
      st.socks[call.handle]? = none := by
  have hboth : ∀ {k : Nat}, call ∈ [SocketCall.getfd k, .disconnect k] → call.handle = k := by
    intro k hmem
    rcases List.mem_cons.mp hmem with rfl | hmem
    · rfl
    · rw [List.mem_singleton.mp hmem]
      rfl
  cases h with
  | silent => cases hcall
  | @connected _ _ _ _ k hnew =>
    rcases List.mem_cons.mp hcall with rfl | hcall
    · exact .inr (.inr hnew)
    · rw [List.mem_singleton.mp hcall]
      exact .inr (.inr hnew)
  | closed ho hmeta => exact .inl (by rw [hboth hcall]; exact ⟨rfl, _, ho, hmeta⟩)
  | disconnected ho hmeta => exact .inl (by rw [hboth hcall]; exact ⟨rfl, _, ho, hmeta⟩)
  | collected ho hmeta => exact .inl (by rw [hboth hcall]; exact ⟨rfl, _, ho, hmeta⟩)
  | called hinvokes hmeta hhandle =>
    rw [List.mem_singleton.mp hcall, hhandle]
    exact .inl ⟨hinvokes, hmeta⟩
  | looped hlist =>
    rw [List.mem_singleton.mp hcall]
    exact .inr (.inl ⟨_, _, rfl, hlist⟩)

/-- What a step deletes: the sock of a close, of a disconnect or of a finaliser. -/
theorem Stepped.deletes (h : Stepped st e st' calls) (hcall : .disconnect k ∈ calls) :
    ∃ o, st.socks[k]? = some o ∧ o.metatable = true ∧
      (e = .close k ∧ st' = (st.close k o).1 ∨ e = .disconnect k ∧ st' = (st.disconnect k o).1 ∨
        e = .gc k ∧ st' = (st.close k o).1.modify k fun o => { o with finalised := true }) := by
  have hone : ∀ {j : Nat}, SocketCall.disconnect k ∈ [SocketCall.getfd j, .disconnect j] → k = j := by
    intro j hmem
    simpa using hmem
  cases h with
  | silent => cases hcall
  | connected => simp at hcall
  | closed ho hmeta =>
    obtain rfl := hone hcall
    exact ⟨_, ho, hmeta, .inl ⟨rfl, rfl⟩⟩
  | disconnected ho hmeta =>
    obtain rfl := hone hcall
    exact ⟨_, ho, hmeta, .inr (.inl ⟨rfl, rfl⟩)⟩
  | collected ho hmeta =>
    obtain rfl := hone hcall
    exact ⟨_, ho, hmeta, .inr (.inr ⟨rfl, rfl⟩)⟩
  | called _ _ _ hother => exact absurd (List.mem_singleton.mp hcall).symm (hother k)
  | looped => simp at hcall

/-- Within one step nothing follows `socket_c.disconnect`. -/
theorem Stepped.pairwise (h : Stepped st e st' calls) :
    calls.Pairwise fun call later => ∀ k, call = .disconnect k → later.handle ≠ k := by
  cases h with
  | silent => exact .nil
  | called => exact List.pairwise_singleton _ _
  | looped => exact List.pairwise_singleton _ _
  | connected => simp
  | closed => simp
  | disconnected => simp
  | collected => simp

end Step

/-! ## What stays as it is -/

section Later

variable {st st' : SockLists} {k : Nat} {tr : List SockRecord}

abbrev SockRun := Exec sockStep Possible

theorem SockRun.evolves (h : SockRun st tr st') : st.Evolves st' := by
  induction h with
  | nil => exact .refl st
  | snoc _ _ hstep ih => exact ih.trans (sockStep_cases hstep).evolves

/-- A sock that is not listed, or whose only entry a step removed, is not looped again. -/
theorem SockLists.Evolves.not_listed (h : st.Evolves st') {o : Sock} (ho : st.socks[k]? = some o)
    (hunlisted : ¬ st.Listed k) : ¬ st'.Listed k := fun hlisted => hunlisted (h.listed ho hlisted)

theorem SockLists.Evolves.no_metatable (h : st.Evolves st') {o : Sock} (ho : st.socks[k]? = some o)
    (hmeta : o.metatable = false) : ¬ st'.HasMetatable k := by
  intro hlater
  obtain ⟨o', ho', hmeta'⟩ := hlater
  obtain ⟨o'', ho'', -, hback, -⟩ := h.keeps k o ho
  rw [ho'] at ho''
  cases ho''
  rw [hback hmeta'] at hmeta
  cases hmeta

/-- A sock that was finalised is neither called nor finalised again. -/
theorem SockLists.Evolves.finalised (h : st.Evolves st') {o : Sock} (ho : st.socks[k]? = some o)
    (hfinal : o.finalised = true) (hheld : o.held = false) (hunlisted : ¬ st.Listed k)
    {e : SockEvent} (hinvokes : e.invokes k) (hpossible : Possible st' e) : False := by
  obtain ⟨o', ho', -, -, hfinal', hheld'⟩ := h.keeps k o ho
  have hfree : ¬ st'.Held k := by
    intro hlater
    obtain ⟨o'', ho'', hheld''⟩ := hlater
    rw [ho'] at ho''
    cases ho''
    rcases hheld' hheld'' with hbefore | hlisted
    · rw [hheld] at hbefore
      cases hbefore
    · exact hunlisted hlisted
  cases e with
  | close j => exact hfree (hinvokes ▸ hpossible)
  | disconnect j => exact hfree (hinvokes ▸ hpossible)
  | sendbuffer j => exact hfree (hinvokes ▸ hpossible)
  | sendstring j => exact hfree (hinvokes ▸ hpossible)
  | getfd j => exact hfree (hinvokes ▸ hpossible)
  | gc j =>
    obtain rfl : j = k := hinvokes
    obtain ⟨-, -, -, o'', ho'', hfresh⟩ := hpossible
    rw [ho'] at ho''
    cases ho''
    rw [hfinal' hfinal] at hfresh
    cases hfresh
  | connect addr port fd => exact hinvokes.elim
  | loop fd ends => exact hinvokes.elim
  | delsock fd => exact hinvokes.elim
  | getsock fd => exact hinvokes.elim
  | drop j => exact hinvokes.elim

theorem close_unlists (hok : st.Ok) {o : Sock} (ho : st.socks[k]? = some o) (hfd : o.fd ≠ -1) :
    ¬ (st.delsock o.fd).Listed k := by
  intro hlisted
  obtain ⟨fd, hlist⟩ := hlisted
  by_cases heq : fd = o.fd
  · subst heq
    simp only [delsock, update_self] at hlist
    cases hlist
  · simp only [delsock, update_of_ne heq] at hlist
    obtain ⟨o', ho', hown⟩ := hok fd k hlist
    rw [ho] at ho'
    cases ho'
    rcases hown with hown | hown
    · exact heq hown.symm
    · exact hfd hown

end Later

/-! ## Two steps of a run -/

section Pair

variable {r r' : SockRecord}

/-- A record of a run: a possible step from lists in order. -/
structure SockRecord.Proper (r : SockRecord) : Prop where
  ok : r.pre.Ok
  possible : Possible r.pre r.input
  step : sockStep r.pre r.input = some (r.post, r.output)

theorem SockRecord.Proper.stepped (h : r.Proper) : Stepped r.pre r.input r.post r.output :=
  sockStep_cases h.step

/-- A method call after the deletion: the sock was closed with its metatable left on. -/
theorem clash_of_method (h : r.Proper) (hlater : r.post.Evolves r'.pre) {k : Nat}
    (hdelete : .disconnect k ∈ r.output) (hinvokes : r'.input.invokes k)
    (hmeta' : r'.pre.HasMetatable k) (hpossible' : Possible r'.pre r'.input) :
    ClosedThenUsed r r' := by
  obtain ⟨o, ho, hmeta, hcase⟩ := h.stepped.deletes hdelete
  rcases hcase with ⟨hinput, -⟩ | ⟨hinput, hpost⟩ | ⟨hinput, hpost⟩
  · exact ⟨k, hinput, ⟨o, ho, hmeta⟩, hinvokes, hmeta'⟩
  · have hstripped : r.post.socks[k]? = some { o with metatable := false } := by
      rw [hpost]
      exact modify_self (r.pre.delsock o.fd) _ ho
    exact absurd hmeta' (hlater.no_metatable hstripped rfl)
  · have hpossible := h.possible
    rw [hinput] at hpossible
    obtain ⟨hfree, hunlisted, -, -⟩ := hpossible
    have hfinal : r.post.socks[k]? = some { o with finalised := true } := by
      rw [hpost]
      exact modify_self (r.pre.delsock o.fd) _ ho
    have hheld : o.held = false := by
      rw [← Bool.not_eq_true]
      exact fun hheld => hfree ⟨o, ho, hheld⟩
    have hgone := h.stepped.evolves.not_listed ho hunlisted
    exact (hlater.finalised hfinal rfl hheld hgone hinvokes hpossible').elim

/-- A turn of the loop after the deletion: the entry was not the one that the deletion removed. -/
theorem clash_of_loop (h : r.Proper) (hlater : r.post.Evolves r'.pre) {k : Nat}
    (hdelete : .disconnect k ∈ r.output) {fd : Int} {ends : Bool}
    (hevent : r'.input = .loop fd ends) (hlist : r'.pre.sockList_fd2sock fd = some k) :
    LostThenLooped r r' := by
  obtain ⟨o, ho, hmeta, hcase⟩ := h.stepped.deletes hdelete
  obtain ⟨o', ho', -⟩ := h.stepped.evolves.keeps k o ho
  have hlisted : r.post.Listed k := hlater.listed ho' ⟨fd, hlist⟩
  have hfd : r.post.sockList_fd2sock = (r.pre.delsock o.fd).sockList_fd2sock → o.fd = -1 := by
    intro hsame
    by_contra hfd
    obtain ⟨fd', hlist'⟩ := hlisted
    rw [hsame] at hlist'
    exact close_unlists h.ok ho hfd ⟨fd', hlist'⟩
  rcases hcase with ⟨hinput, hpost⟩ | ⟨hinput, hpost⟩ | ⟨hinput, -⟩
  · exact ⟨k, .inl hinput, ⟨o, ho, hmeta, hfd (by rw [hpost]; rfl)⟩, fd, ends, hevent, hlist⟩
  · exact ⟨k, .inr hinput, ⟨o, ho, hmeta, hfd (by rw [hpost]; rfl)⟩, fd, ends, hevent, hlist⟩
  · have hpossible := h.possible
    rw [hinput] at hpossible
    exact absurd hlisted (h.stepped.evolves.not_listed ho hpossible.2.1)

/-- After a step that deletes the sock `k`, a call on its handle is one of the two ways. -/
theorem clash_of_call (h : r.Proper) (h' : r'.Proper) (hlater : r.post.Evolves r'.pre) {k : Nat}
    (hdelete : .disconnect k ∈ r.output) {call : SocketCall} (hcall : call ∈ r'.output)
    (hhandle : call.handle = k) : ClosedThenUsed r r' ∨ LostThenLooped r r' := by
  have hcaller := h'.stepped.caller hcall
  rw [hhandle] at hcaller
  rcases hcaller with ⟨hinvokes, hmeta'⟩ | ⟨fd, ends, hevent, hlist⟩ | hnew
  · exact .inl (clash_of_method h hlater hdelete hinvokes hmeta' h'.possible)
  · exact .inr (clash_of_loop h hlater hdelete hevent hlist)
  · obtain ⟨o, ho, -⟩ := h.stepped.deletes hdelete
    obtain ⟨o', ho', -⟩ := (h.stepped.evolves.trans hlater).keeps k o ho
    rw [ho'] at hnew
    cases hnew

theorem invokes_method {st : SockLists} {e : SockEvent} {k : Nat} (hinvokes : e.invokes k) :
    ∃ f : Sock → SockLists × List SocketCall, sockStep st e = st.method k f ∧
      ∀ o, ∃ call ∈ (f o).2, call.handle = k := by
  cases e with
  | close j =>
    obtain rfl : j = k := hinvokes
    exact ⟨_, rfl, fun _ => ⟨.getfd j, List.mem_cons_self, rfl⟩⟩
  | disconnect j =>
    obtain rfl : j = k := hinvokes
    exact ⟨_, rfl, fun _ => ⟨.getfd j, List.mem_cons_self, rfl⟩⟩
  | sendbuffer j =>
    obtain rfl : j = k := hinvokes
    exact ⟨_, rfl, fun _ => ⟨.sendstring j, List.mem_cons_self, rfl⟩⟩
  | sendstring j =>
    obtain rfl : j = k := hinvokes
    exact ⟨_, rfl, fun _ => ⟨.sendstring j, List.mem_cons_self, rfl⟩⟩
  | getfd j =>
    obtain rfl : j = k := hinvokes
    exact ⟨_, rfl, fun _ => ⟨.getfd j, List.mem_cons_self, rfl⟩⟩
  | gc j =>
    obtain rfl : j = k := hinvokes
    exact ⟨_, rfl, fun _ => ⟨.getfd j, List.mem_cons_self, rfl⟩⟩
  | connect addr port fd => exact hinvokes.elim
  | loop fd ends => exact hinvokes.elim
  | delsock fd => exact hinvokes.elim
  | getsock fd => exact hinvokes.elim
  | drop j => exact hinvokes.elim

theorem invokes_calls (h : r.Proper) {k : Nat} (hinvokes : r.input.invokes k)
    (hmeta : r.pre.HasMetatable k) : ∃ call ∈ r.output, call.handle = k := by
  obtain ⟨o, ho, hmeta⟩ := hmeta
  obtain ⟨f, hmethod, hcalls⟩ := @invokes_method r.pre _ k hinvokes
  have hstep := h.step
  rw [hmethod, method_of_metatable ho hmeta] at hstep
  have houtput : r.output = (f o).2 := congrArg Prod.snd (Option.some.inj hstep).symm
  rw [houtput]
  exact hcalls o

theorem close_deletes (h : r.Proper) {k : Nat}
    (hinput : r.input = .close k ∨ r.input = .disconnect k) (hmeta : r.pre.HasMetatable k) :
    .disconnect k ∈ r.output := by
  obtain ⟨o, ho, hmeta⟩ := hmeta
  have hstep := h.step
  have hcalls : r.output = [.getfd k, .disconnect k] := by
    rcases hinput with hinput | hinput
    · rw [hinput, sockStep, method_of_metatable ho hmeta] at hstep
      exact congrArg Prod.snd (Option.some.inj hstep).symm
    · rw [hinput, sockStep, method_of_metatable ho hmeta] at hstep
      exact congrArg Prod.snd (Option.some.inj hstep).symm
  rw [hcalls]
  exact List.mem_cons_of_mem _ List.mem_cons_self

theorem pair_iff (h : r.Proper) (h' : r'.Proper) (hlater : r.post.Evolves r'.pre) :
    (∀ call ∈ r.output, ∀ later ∈ r'.output, ∀ k, call = .disconnect k → later.handle ≠ k) ↔
      ¬ (ClosedThenUsed r r' ∨ LostThenLooped r r') := by
  constructor
  · intro hsafe hclash
    rcases hclash with ⟨k, hinput, hmeta, hinvokes, hmeta'⟩ |
      ⟨k, hinput, ⟨o, ho, hmeta, -⟩, fd, ends, hevent, hlist⟩
    · obtain ⟨later, hcall, hhandle⟩ := invokes_calls h' hinvokes hmeta'
      exact hsafe _ (close_deletes h (.inl hinput) hmeta) later hcall k rfl hhandle
    · have hstep := h'.step
      rw [hevent, sockStep, hlist, Option.map_some] at hstep
      have hcalls : r'.output = [.loop k] := congrArg Prod.snd (Option.some.inj hstep).symm
      refine hsafe _ (close_deletes h hinput ⟨o, ho, hmeta⟩) (.loop k) ?_ k rfl rfl
      rw [hcalls]
      exact List.mem_cons_self
  · intro hquiet call hcall later hlatercall k hdelete hhandle
    rw [hdelete] at hcall
    exact hquiet (clash_of_call h h' hlater hcall hlatercall hhandle)

end Pair

/-! ## Runs -/

theorem once_of_pairwise {calls : List SocketCall}
    (h : calls.Pairwise fun call later => ∀ k, call = .disconnect k → later.handle ≠ k) (k : Nat) :
    calls.count (.disconnect k) ≤ 1 := by
  induction calls with
  | nil => simp
  | cons call calls ih =>
    obtain ⟨hlater, hrest⟩ := List.pairwise_cons.mp h
    by_cases hcall : call = .disconnect k
    · have hnone : calls.count (.disconnect k) = 0 := by
        apply List.count_eq_zero_of_not_mem
        intro hmem
        exact hlater _ hmem k hcall rfl
      rw [hcall, List.count_cons_self, hnone]
    · rw [List.count_cons_of_ne hcall]
      exact ih hrest

theorem handlesSafe_iff {calls : List SocketCall} :
    HandlesSafe calls ↔
      calls.Pairwise fun call later => ∀ k, call = .disconnect k → later.handle ≠ k :=
  ⟨fun h => h.last, fun h => ⟨once_of_pairwise h, h⟩⟩

section Run

variable {st : SockLists} {tr : List SockRecord}

theorem sockRun_proper (h : SockRun .init tr st) : ∀ r ∈ tr, r.Proper := by
  intro r hr
  have hinit : SockLists.init.Ok := fun _ _ hlist => by cases hlist
  obtain ⟨hok, -, hpossible, hstep⟩ := Exec.record SockLists.Ok hinit
    (fun hs _ hrun => (sockStep_cases hrun).evolves.ok hs) h r hr
  exact ⟨hok, hpossible, hstep⟩

theorem handles_safe_iff (h : SockRun .init tr st) :
    HandlesSafe (outputsOf tr) ↔
      tr.Pairwise fun r r' => ¬ (ClosedThenUsed r r' ∨ LostThenLooped r r') := by
  have hproper := sockRun_proper h
  rw [handlesSafe_iff, outputsOf, List.pairwise_flatMap]
  constructor
  · intro hsafe
    refine (hsafe.2.and h.pairwise).imp_of_mem ?_
    intro r r' hr hr' hpair
    obtain ⟨hquiet, mid, hmid⟩ := hpair
    exact (pair_iff (hproper r hr) (hproper r' hr') (SockRun.evolves hmid)).mp hquiet
  · intro hquiet
    refine ⟨fun r hr => (hproper r hr).stepped.pairwise, ?_⟩
    refine (hquiet.and h.pairwise).imp_of_mem ?_
    intro r r' hr hr' hpair
    obtain ⟨hclash, mid, hmid⟩ := hpair
    exact (pair_iff (hproper r hr) (hproper r' hr') (SockRun.evolves hmid)).mpr hclash

end Run

theorem not_listed_removed (socks : List Sock) (names : LuaString → Option Int) (fd : Int)
    (k j : Nat) :
    ¬ SockLists.Listed ⟨socks, update (update (fun _ => none) fd (some k)) fd none, names⟩ j := by
  intro hlisted
  obtain ⟨fd', hlist⟩ := hlisted
  by_cases heq : fd' = fd
  · subst heq
    simp only [update_self] at hlist
    cases hlist
  · simp only [update_of_ne heq] at hlist
    cases hlist

/-- A sock that is disconnected, dropped, and then out of reach. -/
theorem handles_safe_disconnect :
    ∃ tr st, SockRun .init tr st ∧
      tr.map Record.input =
        [.connect (luaString "h") (luaString "8") (some 4), .disconnect 0, .drop 0] ∧
      outputsOf tr = [.connect 0, .getfd 0, .getfd 0, .disconnect 0] ∧
      HandlesSafe (outputsOf tr) := by
  have hrun : SockRun .init _ _ :=
    .cons (i := SockEvent.connect (luaString "h") (luaString "8") (some 4)) trivial rfl
      (.cons (i := SockEvent.disconnect 0) ⟨_, rfl, rfl⟩ rfl (.cons (i := SockEvent.drop 0) trivial rfl .nil))
  refine ⟨_, _, hrun, rfl, rfl, (handles_safe_iff hrun).mpr ?_⟩
  simp [ClosedThenUsed, LostThenLooped]

/-- A sock that is closed and then collected; and one that is disconnected after its connection
has ended, and is still in the list of the loop. -/
theorem handle_used_after_free :
    (∃ tr st, SockRun .init tr st ∧
      tr.map Record.input =
        [.connect (luaString "h") (luaString "8") (some 4), .close 0, .drop 0, .gc 0] ∧
      outputsOf tr =
        [.connect 0, .getfd 0, .getfd 0, .disconnect 0, .getfd 0, .disconnect 0] ∧
      ¬ HandlesSafe (outputsOf tr)) ∧
    ∃ tr st, SockRun .init tr st ∧
      tr.map Record.input = [.connect (luaString "h") (luaString "8") (some 4), .loop 4 true,
        .disconnect 0, .loop 4 false] ∧
      outputsOf tr =
        [.connect 0, .getfd 0, .loop 0, .getfd 0, .disconnect 0, .loop 0] ∧
      ¬ HandlesSafe (outputsOf tr) := by
  constructor
  · have hfree : ∀ names, SockLists.Collectable
        ⟨[⟨4, true, false, false⟩], update (update (fun _ => none) 4 (some 0)) 4 none, names⟩ 0 := by
      intro names
      refine ⟨?_, not_listed_removed _ names 4 0 0, ⟨_, rfl, rfl⟩, ⟨_, rfl, rfl⟩⟩
      intro hheld
      obtain ⟨o, ho, hheld⟩ := hheld
      cases ho
      cases hheld
    have hrun : SockRun .init _ _ :=
      .cons (i := SockEvent.connect (luaString "h") (luaString "8") (some 4)) trivial rfl
        (.cons (i := SockEvent.close 0) ⟨_, rfl, rfl⟩ rfl (.cons (i := SockEvent.drop 0) trivial rfl
          (.cons (i := SockEvent.gc 0) (hfree _) rfl .nil)))
    refine ⟨_, _, hrun, rfl, rfl, ?_⟩
    intro hsafe
    exact absurd (hsafe.once 0) (by decide)
  · have hrun : SockRun .init _ _ :=
      .cons (i := SockEvent.connect (luaString "h") (luaString "8") (some 4)) trivial rfl
        (.cons (i := SockEvent.loop 4 true) trivial rfl (.cons (i := SockEvent.disconnect 0) ⟨_, rfl, rfl⟩ rfl
          (.cons (i := SockEvent.loop 4 false) trivial rfl .nil)))
    refine ⟨_, _, hrun, rfl, rfl, ?_⟩
    intro hsafe
    have hlast : [SocketCall.connect 0, .getfd 0, .loop 0, .getfd 0, .disconnect 0,
        .loop 0].Pairwise _ := hsafe.last
    simp [SocketCall.handle] at hlast

end NetgameFormal

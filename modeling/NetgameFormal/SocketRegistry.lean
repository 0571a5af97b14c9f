import NetgameFormal.LuaSocket

/-!
# socket.lua: one sock for each name

A sock keeps the name `addr:port` it was connected under. `socket.connect`
clears the entry of an older sock of that name, which it finds by a second map,
from names to descriptors. The keys of that map are built in two ways.
-/

set_option autoImplicit false

namespace NetgameFormal

open Function

structure Registry where
  lists : SockLists
  /-- `_name`, for each sock. -/
  names : List LuaString

/-- `addr..":"..port` -/
def sockName (addr port : LuaString) : LuaString := addr ++ luaString ":" ++ port

def SockEvent.newNames : SockEvent → List LuaString
  | .connect addr port (some _) => [sockName addr port]
  | _ => []

def registryStep (r : Registry) (e : SockEvent) : Option (Registry × List SocketCall) :=
  (sockStep r.lists e).map fun out => (⟨out.1, r.names ++ e.newNames⟩, out.2)

namespace Registry

def init : Registry := ⟨.init, []⟩

/-- The loop polls the sock `k`, of the name `name`, under `fd`. -/
def Registered (r : Registry) (fd : Int) (k : Nat) (name : LuaString) : Prop :=
  r.lists.sockList_fd2sock fd = some k ∧ r.names[k]? = some name

def OnePerName (r : Registry) : Prop :=
  ∀ fd fd' k k' name, r.Registered fd k name → r.Registered fd' k' name → k = k'

/-- What a connect has to meet: the registered sock of its name is found by the look-up or stands
under the new descriptor, and no sock of another name does. -/
structure Fits (r : Registry) (addr port : LuaString) (fd : Option Int) : Prop where
  own : ∀ f k, r.Registered f k (sockName addr port) → ∀ fd', fd = some fd' →
    f = fd' ∨ r.lists.sockList_name2fd (sockName addr port) = some f
  others : ∀ f k name, r.Registered f k name → name ≠ sockName addr port →
    r.lists.sockList_name2fd (sockName addr port) ≠ some f ∧ fd ≠ some f

def FitsEvent (r : Registry) : SockEvent → Prop
  | .connect addr port fd => r.Fits addr port fd
  | _ => True

end Registry

abbrev RegistryRecord := Record Registry SockEvent SocketCall

abbrev RegistryRun :=
  Exec registryStep fun (r : Registry) (e : SockEvent) => Possible r.lists e

/-- After the step no name is polled twice, and a connect has left the other names registered. -/
structure RegistryRecord.Good (rec : RegistryRecord) : Prop where
  unique : rec.post.OnePerName
  spares : ∀ addr port fd, rec.input = .connect addr port fd → ∀ f k name,
    rec.pre.Registered f k name → name ≠ sockName addr port → rec.post.Registered f k name

/-! ## What a step does to the registry -/

theorem SockEvent.connect_or_other (e : SockEvent) :
    (∃ addr port fd, e = .connect addr port fd) ∨ ∀ addr port fd, e ≠ .connect addr port fd := by
  cases e with
  | connect addr port fd => exact .inl ⟨addr, port, fd, rfl⟩
  | _ => exact .inr fun _ _ _ => SockEvent.noConfusion

namespace SockLists
variable {st st' : SockLists} {e : SockEvent} {calls : List SocketCall}

theorem delsock_listed (st : SockLists) (fd f : Int) :
    (st.delsock fd).sockList_fd2sock f = if f = fd then none else st.sockList_fd2sock f := by
  simp only [delsock, update_apply]

theorem delname_listed (st : SockLists) (name : LuaString) (f : Int) :
    (st.delname name).sockList_fd2sock f =
      if st.sockList_name2fd name = some f then none else st.sockList_fd2sock f := by
  unfold delname
  cases hname : st.sockList_name2fd name with
  | none => simp
  | some fd =>
    simp only [delsock_listed, Option.some.injEq]
    exact if_congr eq_comm rfl rfl

@[simp] theorem delname_socks (st : SockLists) (name : LuaString) :
    (st.delname name).socks = st.socks := by
  unfold delname
  cases st.sockList_name2fd name with
  | none => rfl
  | some fd => rfl

@[simp] theorem delname_keys (st : SockLists) (name : LuaString) :
    (st.delname name).sockList_name2fd = st.sockList_name2fd := by
  unfold delname
  cases st.sockList_name2fd name with
  | none => rfl
  | some fd => rfl

/-- The registry shrinks, and no sock or key is made. -/
structure Shrinks (st st' : SockLists) : Prop where
  length : st'.socks.length = st.socks.length
  lists : ∀ fd k, st'.sockList_fd2sock fd = some k → st.sockList_fd2sock fd = some k
  keys : st'.sockList_name2fd = st.sockList_name2fd

theorem Shrinks.refl (st : SockLists) : st.Shrinks st := ⟨rfl, fun _ _ h => h, rfl⟩

theorem delsock_shrinks (st : SockLists) (fd : Int) : st.Shrinks (st.delsock fd) := by
  refine ⟨rfl, ?_, rfl⟩
  intro f k hlist
  rw [delsock_listed] at hlist
  split at hlist
  · cases hlist
  · exact hlist

theorem Shrinks.modify (h : st.Shrinks st') (k : Nat) (f : Sock → Sock) :
    st.Shrinks (st'.modify k f) :=
  ⟨(List.length_modify ..).trans h.length, h.lists, h.keys⟩

theorem method_shrinks {k : Nat} {f : Sock → SockLists × List SocketCall}
    (h : st.method k f = some (st', calls)) (hf : ∀ o, st.Shrinks (f o).1) : st.Shrinks st' := by
  obtain ⟨o, -, ⟨-, hout⟩ | ⟨-, hout⟩⟩ := method_some h
  · have hst : st' = (f o).1 := congrArg Prod.fst hout
    rw [hst]
    exact hf o
  · have hst : st' = st := congrArg Prod.fst hout
    rw [hst]
    exact .refl st

theorem step_shrinks (h : sockStep st e = some (st', calls))
    (hconnect : ∀ addr port fd, e ≠ .connect addr port fd) : st.Shrinks st' := by
  cases e with
  | connect addr port fd => exact absurd rfl (hconnect addr port fd)
  | close k => exact method_shrinks h fun o => delsock_shrinks st o.fd
  | disconnect k => exact method_shrinks h fun o => (delsock_shrinks st o.fd).modify k _
  | sendbuffer k => exact method_shrinks h fun _ => .refl st
  | sendstring k => exact method_shrinks h fun _ => .refl st
  | getfd k => exact method_shrinks h fun _ => .refl st
  | loop fd ends =>
    obtain ⟨k, -, hout⟩ := Option.map_eq_some_iff.mp h
    obtain rfl := congrArg Prod.fst hout
    cases ends with
    | true => exact (Shrinks.refl st).modify k _
    | false => exact .refl st
  | delsock fd =>
    obtain rfl := congrArg Prod.fst (Option.some.inj h)
    exact delsock_shrinks st fd
  | getsock fd =>
    cases hlist : st.sockList_fd2sock fd with
    | none =>
      simp only [sockStep, hlist, Option.some.injEq] at h
      obtain rfl := congrArg Prod.fst h
      exact .refl st
    | some k =>
      simp only [sockStep, hlist, Option.some.injEq] at h
      obtain rfl := congrArg Prod.fst h
      exact (Shrinks.refl st).modify k _
  | drop k =>
    obtain rfl := congrArg Prod.fst (Option.some.inj h)
    exact (Shrinks.refl st).modify k _
  | gc k => exact method_shrinks h fun o => (delsock_shrinks st o.fd).modify k _

end SockLists

namespace Registry
variable {r r' : Registry} {e : SockEvent} {calls : List SocketCall}

/-- Every sock has its name, and only socks are registered. -/
structure Aligned (r : Registry) : Prop where
  names : r.names.length = r.lists.socks.length
  socks : ∀ fd k, r.lists.sockList_fd2sock fd = some k → k < r.lists.socks.length

structure Ok (r : Registry) : Prop where
  aligned : r.Aligned
  unique : r.OnePerName

theorem fits_of_fresh {addr port : LuaString} {fd : Int}
    (hname : ∀ f k, ¬ r.Registered f k (sockName addr port))
    (hkey : r.lists.sockList_name2fd (sockName addr port) = none)
    (hfd : r.lists.sockList_fd2sock fd = none) : r.Fits addr port (some fd) where
  own f k hreg := absurd hreg (hname f k)
  others f k name hreg _ := by
    rw [hkey]
    refine ⟨by simp, fun heq => ?_⟩
    rw [Registered, ← Option.some.inj heq, hfd] at hreg
    cases hreg.1

theorem init_ok : init.Ok where
  aligned := ⟨rfl, fun _ _ hlist => by cases hlist⟩
  unique := fun _ _ _ _ _ hreg => by cases hreg.1

theorem step_eq (h : registryStep r e = some (r', calls)) :
    sockStep r.lists e = some (r'.lists, calls) ∧ r'.names = r.names ++ e.newNames := by
  obtain ⟨out, hout, heq⟩ := Option.map_eq_some_iff.mp h
  obtain ⟨rfl, rfl⟩ := Prod.mk.inj heq
  exact ⟨hout, rfl⟩

section Shrinking

theorem shrink_registered (hlists : r.lists.Shrinks r'.lists) (hnames : r'.names = r.names)
    {fd : Int} {k : Nat} {name : LuaString} (hreg : r'.Registered fd k name) :
    r.Registered fd k name :=
  ⟨hlists.lists fd k hreg.1, hnames ▸ hreg.2⟩

theorem Aligned.shrink (h : r.Aligned) (hlists : r.lists.Shrinks r'.lists)
    (hnames : r'.names = r.names) : r'.Aligned := by
  constructor
  · rw [hnames, hlists.length]
    exact h.names
  · intro fd k hlist
    rw [hlists.length]
    exact h.socks fd k (hlists.lists fd k hlist)

theorem names_eq (h : registryStep r e = some (r', calls))
    (hconnect : ∀ addr port fd, e ≠ .connect addr port fd) : r'.names = r.names := by
  rw [(step_eq h).2]
  cases e with
  | connect addr port fd => exact absurd rfl (hconnect addr port fd)
  | _ => exact List.append_nil _

theorem good_other (hr : r.Ok) (h : registryStep r e = some (r', calls))
    (hconnect : ∀ addr port fd, e ≠ .connect addr port fd) :
    RegistryRecord.Good ⟨r, e, calls, r'⟩ := by
  have hlists := SockLists.step_shrinks (step_eq h).1 hconnect
  have hnames := names_eq h hconnect
  constructor
  · intro fd fd' k k' name hreg hreg'
    exact hr.unique fd fd' k k' name (shrink_registered hlists hnames hreg)
      (shrink_registered hlists hnames hreg')
  · intro addr port fd heq
    exact absurd heq (hconnect addr port fd)

end Shrinking

section Connecting
variable {addr port : LuaString}

theorem step_connect_none (h : registryStep r (.connect addr port none) = some (r', calls)) :
    r'.lists = r.lists.delname (sockName addr port) ∧ r'.names = r.names := by
  obtain ⟨hstep, hnames⟩ := step_eq h
  exact ⟨(congrArg Prod.fst (Option.some.inj hstep)).symm, by rw [hnames]; exact List.append_nil _⟩

theorem step_connect_some {fd : Int}
    (h : registryStep r (.connect addr port (some fd)) = some (r', calls)) :
    r'.lists.socks.length = r.lists.socks.length + 1 ∧
      r'.names = r.names ++ [sockName addr port] ∧
      ∀ f, r'.lists.sockList_fd2sock f = if f = fd then some r.lists.socks.length
        else (r.lists.delname (sockName addr port)).sockList_fd2sock f := by
  obtain ⟨hstep, hnames⟩ := step_eq h
  have hlists : r'.lists = (r.lists.connect addr port (some fd)).1 :=
    (congrArg Prod.fst (Option.some.inj hstep)).symm
  refine ⟨?_, hnames, ?_⟩
  · rw [hlists]
    simp [SockLists.connect]
  · intro f
    rw [hlists]
    simp only [SockLists.connect, SockLists.delname_socks, update_apply]
    rfl

theorem registered_none (h : registryStep r (.connect addr port none) = some (r', calls))
    (f : Int) (k : Nat) (name : LuaString) :
    r'.Registered f k name ↔
      r.lists.sockList_name2fd (sockName addr port) ≠ some f ∧ r.Registered f k name := by
  obtain ⟨hlists, hnames⟩ := step_connect_none h
  rw [Registered, Registered, hlists, hnames, SockLists.delname_listed]
  split
  · next hfound => simp [hfound]
  · next hfound => simp [hfound]

/-- The new sock is registered, and what the clearing left, except under the new descriptor. -/
theorem registered_some (hr : r.Aligned) {fd : Int}
    (h : registryStep r (.connect addr port (some fd)) = some (r', calls))
    (f : Int) (k : Nat) (name : LuaString) :
    r'.Registered f k name ↔
      f = fd ∧ k = r.lists.socks.length ∧ name = sockName addr port ∨
      f ≠ fd ∧ r.lists.sockList_name2fd (sockName addr port) ≠ some f ∧ r.Registered f k name := by
  obtain ⟨-, hnames, hlists⟩ := step_connect_some h
  rw [Registered, Registered, hlists, hnames, SockLists.delname_listed, ← hr.names]
  by_cases hf : f = fd
  · simp only [hf, if_true, Option.some.injEq, true_and, ne_eq, not_true, false_and, or_false]
    constructor
    · intro hreg
      obtain ⟨rfl, hname⟩ := hreg
      rw [List.getElem?_concat_length, Option.some.injEq] at hname
      exact ⟨rfl, hname.symm⟩
    · intro hreg
      obtain ⟨rfl, rfl⟩ := hreg
      exact ⟨rfl, List.getElem?_concat_length⟩
  · simp only [hf, if_false, false_and, ne_eq, not_false_eq_true, true_and, false_or]
    split
    · next hfound => simp [hfound]
    · next hfound =>
      simp only [hfound, not_false_eq_true, true_and]
      refine and_congr_right fun hlist => ?_
      have hlt : k < r.names.length := by
        rw [hr.names]
        exact hr.socks f k hlist
      rw [List.getElem?_append_left hlt]

theorem Aligned.connect_some (hr : r.Aligned) {fd : Int}
    (h : registryStep r (.connect addr port (some fd)) = some (r', calls)) : r'.Aligned := by
  obtain ⟨hlength, hnames, hlists⟩ := step_connect_some h
  constructor
  · rw [hnames, hlength, List.length_append, hr.names, List.length_singleton]
  · intro f k hlist
    rw [hlists] at hlist
    rw [hlength]
    split at hlist
    · obtain rfl := Option.some.inj hlist
      exact Nat.lt_succ_self _
    · rw [SockLists.delname_listed] at hlist
      split at hlist
      · cases hlist
      · exact Nat.lt_succ_of_lt (hr.socks f k hlist)

theorem Aligned.connect_none (hr : r.Aligned)
    (h : registryStep r (.connect addr port none) = some (r', calls)) : r'.Aligned := by
  obtain ⟨hlists, hnames⟩ := step_connect_none h
  constructor
  · rw [hnames, hlists, SockLists.delname_socks]
    exact hr.names
  · intro f k hlist
    rw [hlists, SockLists.delname_listed] at hlist
    rw [hlists, SockLists.delname_socks]
    split at hlist
    · cases hlist
    · exact hr.socks f k hlist

/-- A connect that raises spares the other names exactly if its look-up finds none of them. -/
theorem good_none (hr : r.Ok) (h : registryStep r (.connect addr port none) = some (r', calls)) :
    RegistryRecord.Good ⟨r, .connect addr port none, calls, r'⟩ ↔ r.Fits addr port none := by
  constructor
  · intro hgood
    constructor
    · intro _ _ _ _ hfd
      cases hfd
    · intro f k name hreg hname
      have hkept := hgood.spares addr port none rfl f k name hreg hname
      exact ⟨((registered_none h f k name).mp hkept).1, by simp⟩
  · intro hfits
    constructor
    · intro f f' k k' name hreg hreg'
      exact hr.unique f f' k k' name ((registered_none h f k name).mp hreg).2
        ((registered_none h f' k' name).mp hreg').2
    · rintro _ _ _ ⟨⟩ f k name hreg hname
      exact (registered_none h f k name).mpr ⟨(hfits.others f k name hreg hname).1, hreg⟩

theorem unique_some (hr : r.Ok) {fd : Int}
    (h : registryStep r (.connect addr port (some fd)) = some (r', calls)) :
    r'.OnePerName ↔ ∀ f k, r.Registered f k (sockName addr port) →
      f = fd ∨ r.lists.sockList_name2fd (sockName addr port) = some f := by
  have hreg := registered_some hr.aligned h
  have hold : ∀ {f k name}, r.Registered f k name → k ≠ r.lists.socks.length := by
    intro f k name hreg
    exact Nat.ne_of_lt (hr.aligned.socks f k hreg.1)
  constructor
  · intro hunique f k hown
    by_contra hleft
    obtain ⟨hfd, hmissed⟩ := not_or.mp hleft
    have hkept := (hreg f k _).mpr (.inr ⟨hfd, hmissed, hown⟩)
    have hnew := (hreg fd _ _).mpr (.inl ⟨rfl, rfl, rfl⟩)
    exact hold hown (hunique f fd _ _ _ hkept hnew)
  · intro hgone f f' k k' name hf hf'
    rcases (hreg f k name).mp hf with ⟨-, hk, hname⟩ | ⟨hfd, hmissed, hf⟩
    · rcases (hreg f' k' name).mp hf' with ⟨-, hk', -⟩ | ⟨hfd', hmissed', hf'⟩
      · rw [hk, hk']
      · exact ((hgone f' k' (hname ▸ hf')).elim hfd' hmissed').elim
    · rcases (hreg f' k' name).mp hf' with ⟨-, -, hname⟩ | ⟨-, -, hf'⟩
      · exact ((hgone f k (hname ▸ hf)).elim hfd hmissed).elim
      · exact hr.unique f f' k k' name hf hf'

theorem good_some (hr : r.Ok) {fd : Int}
    (h : registryStep r (.connect addr port (some fd)) = some (r', calls)) :
    RegistryRecord.Good ⟨r, .connect addr port (some fd), calls, r'⟩ ↔
      r.Fits addr port (some fd) := by
  have hunique := unique_some hr h
  have hreg := registered_some hr.aligned h
  constructor
  · intro hgood
    constructor
    · rintro f k hown _ ⟨⟩
      exact hunique.mp hgood.unique f k hown
    · intro f k name hother hname
      have hkept := hgood.spares addr port (some fd) rfl f k name hother hname
      rcases (hreg f k name).mp hkept with ⟨-, -, heq⟩ | ⟨hfd, hmissed, -⟩
      · exact absurd heq hname
      · exact ⟨hmissed, fun heq => hfd (Option.some.inj heq).symm⟩
  · intro hfits
    constructor
    · exact hunique.mpr fun f k hown => hfits.own f k hown fd rfl
    · rintro _ _ _ ⟨⟩ f k name hother hname
      obtain ⟨hmissed, hfd⟩ := hfits.others f k name hother hname
      exact (hreg f k name).mpr (.inr ⟨fun heq => hfd (by rw [heq]), hmissed, hother⟩)

end Connecting

/-- A step is good exactly if its connect fits what is registered. -/
theorem good_iff (hr : r.Ok) (h : registryStep r e = some (r', calls)) :
    RegistryRecord.Good ⟨r, e, calls, r'⟩ ↔ r.FitsEvent e := by
  rcases e.connect_or_other with ⟨addr, port, fd, rfl⟩ | hother
  · cases fd with
    | none => exact good_none hr h
    | some fd => exact good_some hr h
  · have htrue : r.FitsEvent e := by
      cases e with
      | connect addr port fd => exact absurd rfl (hother addr port fd)
      | _ => trivial
    exact ⟨fun _ => htrue, fun _ => good_other hr h hother⟩

theorem aligned_step (hr : r.Aligned) (h : registryStep r e = some (r', calls)) :
    r'.Aligned := by
  rcases e.connect_or_other with ⟨addr, port, fd, rfl⟩ | hother
  · cases fd with
    | none => exact hr.connect_none h
    | some fd => exact hr.connect_some h
  · exact hr.shrink (SockLists.step_shrinks (step_eq h).1 hother) (names_eq h hother)

theorem ok_step (hr : r.Ok) (h : registryStep r e = some (r', calls)) (hfits : r.FitsEvent e) :
    r'.Ok :=
  ⟨aligned_step hr.aligned h, ((good_iff hr h).mpr hfits).unique⟩

end Registry

open Registry

/-! ## Runs -/

theorem run_aligned {r : Registry} {tr : List RegistryRecord} (h : RegistryRun .init tr r) :
    r.Aligned :=
  Exec.invariant Registry.Aligned init_ok.aligned (fun hs _ hstep => aligned_step hs hstep) h

theorem key_source {r r' : Registry} {e : SockEvent} {calls : List SocketCall}
    (h : registryStep r e = some (r', calls)) {key : LuaString} {fd : Int}
    (hkey : r'.lists.sockList_name2fd key = some fd) :
    r.lists.sockList_name2fd key = some fd ∨
      ∃ addr port, e = .connect addr port (some fd) ∧ key = addr ++ port := by
  rcases e.connect_or_other with ⟨addr, port, fd', rfl⟩ | hother
  · have hlists : r'.lists = (r.lists.connect addr port fd').1 :=
      (congrArg Prod.fst (Option.some.inj (step_eq h).1)).symm
    rw [hlists] at hkey
    cases fd' with
    | none =>
      simp only [SockLists.connect, SockLists.delname_keys] at hkey
      exact .inl hkey
    | some fd' =>
      simp only [SockLists.connect, SockLists.delname_keys, update_apply] at hkey
      split at hkey
      · next heq =>
        obtain rfl := Option.some.inj hkey
        exact .inr ⟨addr, port, rfl, heq⟩
      · exact .inl hkey
  · rw [(SockLists.step_shrinks (step_eq h).1 hother).keys] at hkey
    exact .inl hkey

/-- The keys are entered without the colon that every look-up has: as long as no address and no
port has a colon of its own, no reconnect finds the sock it should replace. -/
theorem lookup_misses {r : Registry} {tr : List RegistryRecord} (h : RegistryRun .init tr r)
    (hplain : ∀ rec ∈ tr, ∀ addr port fd, rec.input = .connect addr port fd →
      58#8 ∉ addr ∧ 58#8 ∉ port) (addr port : LuaString) :
    r.lists.sockList_name2fd (sockName addr port) = none := by
  have hkeys : ∀ key fd, r.lists.sockList_name2fd key = some fd → 58#8 ∉ key := by
    induction h with
    | nil =>
      intro key fd hkey
      cases hkey
    | @snoc tr s s' e calls hrun hok hstep ih =>
      intro key fd hkey
      rcases key_source hstep hkey with hold | ⟨addr, port, rfl, rfl⟩
      · exact ih (fun rec hrec => hplain rec (List.mem_append_left _ hrec)) key fd hold
      · obtain ⟨haddr, hport⟩ := hplain ⟨s, .connect addr port (some fd), calls, s'⟩ (by simp)
          addr port (some fd) rfl
        simp [haddr, hport]
  cases hfound : r.lists.sockList_name2fd (sockName addr port) with
  | none => rfl
  | some fd =>
    have hcolon : 58#8 ∈ sockName addr port :=
      List.mem_append_left _ (List.mem_append_right _ (by decide))
    exact absurd hcolon (hkeys _ fd hfound)

theorem registry_unique_iff {r : Registry} {tr : List RegistryRecord}
    (h : RegistryRun .init tr r) :
    (∀ rec ∈ tr, rec.Good) ↔ ∀ rec ∈ tr, rec.pre.FitsEvent rec.input :=
  Exec.records_iff Registry.Ok RegistryRecord.Good Registry.FitsEvent init_ok
    (fun hs _ hstep => good_iff hs hstep) (fun hs _ hstep hfits => ok_step hs hstep hfits) h

/-- A sock that is closed before the next one of its name is connected, beside another that stays. -/
theorem registry_unique_reconnect :
    ∃ (tr : List RegistryRecord) (r : Registry), RegistryRun .init tr r ∧
      tr.map Record.input = [.connect (luaString "g") (luaString "81") (some 3),
        .connect (luaString "h") (luaString "80") (some 4), .close 1,
        .connect (luaString "h") (luaString "80") (some 5)] ∧
      r.Registered 3 0 (luaString "g:81") ∧ r.Registered 5 2 (luaString "h:80") ∧
      ∀ rec ∈ tr, rec.Good := by
  have hrun : RegistryRun .init _ _ :=
    .cons (i := SockEvent.connect (luaString "g") (luaString "81") (some 3)) trivial rfl
      (.cons (i := SockEvent.connect (luaString "h") (luaString "80") (some 4)) trivial rfl
        (.cons (i := SockEvent.close 1) ⟨_, rfl, rfl⟩ rfl
          (.cons (i := SockEvent.connect (luaString "h") (luaString "80") (some 5)) trivial rfl
            .nil)))
  refine ⟨_, _, hrun, rfl, ⟨rfl, rfl⟩, ⟨rfl, rfl⟩, (registry_unique_iff hrun).mpr ?_⟩
  simp only [List.forall_mem_cons, List.not_mem_nil, false_imp_iff, implies_true, and_true]
  refine ⟨fits_of_fresh ?_ rfl rfl, fits_of_fresh ?_ rfl rfl, trivial, fits_of_fresh ?_ rfl rfl⟩
  · rintro f k ⟨hlist, -⟩
    cases hlist
  · rintro f k ⟨-, hname⟩
    exact absurd (List.mem_of_getElem? hname) (by decide)
  · rintro f k ⟨hlist, hname⟩
    change update (update (update (fun _ => none) (3 : Int) (some 0)) 4 (some 1)) 4 none f = some k
      at hlist
    have hk : k = 0 := by
      by_cases hthree : f = 3
      · subst hthree
        simpa using hlist.symm
      · by_cases hfour : f = 4
        · simp [hfour] at hlist
        · simp [update_of_ne hfour, update_of_ne hthree] at hlist
    subst hk
    exact absurd hname (by decide)

/-- Two connects to one address, both polled; and a connect to `h:80` that takes the sock of
`h:` and port 80, whose name is `h::80`, out of the registry. -/
theorem registry_not_unique :
    (∃ tr r, RegistryRun .init tr r ∧
      tr.map Record.input = [.connect (luaString "h") (luaString "80") (some 4),
        .connect (luaString "h") (luaString "80") (some 5)] ∧
      r.Registered 4 0 (luaString "h:80") ∧ r.Registered 5 1 (luaString "h:80") ∧
      ¬ r.OnePerName) ∧
    ∃ tr r r', RegistryRun .init tr r ∧
      tr.map Record.input = [.connect (luaString "h:") (luaString "80") (some 4)] ∧
      registryStep r (.connect (luaString "h") (luaString "80") (some 5)) =
        some (r', [.connect 1, .getfd 1]) ∧
      luaString "h::80" ≠ sockName (luaString "h") (luaString "80") ∧
      r.Registered 4 0 (luaString "h::80") ∧
      ∀ f, ¬ r'.Registered f 0 (luaString "h::80") := by
  constructor
  · have hrun : RegistryRun .init _ _ :=
      .cons (i := SockEvent.connect (luaString "h") (luaString "80") (some 4)) trivial rfl
        (.cons (i := SockEvent.connect (luaString "h") (luaString "80") (some 5)) trivial rfl .nil)
    refine ⟨_, _, hrun, rfl, ⟨rfl, rfl⟩, ⟨rfl, rfl⟩, ?_⟩
    intro hunique
    exact absurd (hunique 4 5 0 1 (luaString "h:80") ⟨rfl, rfl⟩ ⟨rfl, rfl⟩) (by decide)
  · have hrun : RegistryRun .init _ _ :=
      .cons (i := SockEvent.connect (luaString "h:") (luaString "80") (some 4)) trivial rfl .nil
    refine ⟨_, _, _, hrun, rfl, rfl, by decide, ⟨rfl, rfl⟩, ?_⟩
    intro f hreg
    rcases (registered_some (run_aligned hrun) rfl f 0 _).mp hreg with
      ⟨-, hk, -⟩ | ⟨-, hmissed, hlist, -⟩
    · cases hk
    · by_cases hf : f = 4
      · exact hmissed (by rw [hf]; rfl)
      · change update (fun _ => none) (4 : Int) (some 0) f = some 0 at hlist
        simp [update_of_ne hf] at hlist

end NetgameFormal

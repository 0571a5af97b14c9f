import NetgameFormal.ByteQueues
import NetgameFormal.Runs
import Mathlib.Algebra.Ring.Nat
import Mathlib.Algebra.Ring.Int.Defs

/-!
# Runs of databuffers on one pool

Every run of pushes, reads and clears on databuffers that share a pool is
compared with a family of byte strings. The size of a databuffer is an int, and
`databuffer_push` adds to it without a test: what a databuffer holds must stay
below `2 ^ 31` bytes.
-/

set_option autoImplicit false

namespace NetgameFormal

universe u
variable {ι : Type u}

/-- `databuffer_push`, where `db->size` is an int; none when `db->size += sz` overflows. -/
def databufferPushInt (db : Databuffer) (mp : Messagepool) (data : List Byte) :
    Option (Databuffer × Messagepool) :=
  if db.size + data.length ≤ 2 ^ 31 - 1 then databufferPush db mp data else none

/-- As long as the size remains an int, `databufferPush` is the push of the source. -/
theorem databufferPushInt_of_le {db : Databuffer} {data : List Byte}
    (h : db.size + data.length ≤ 2 ^ 31 - 1) (mp : Messagepool) :
    databufferPushInt db mp data = databufferPush db mp data := if_pos h

theorem databufferPushInt_of_lt {db : Databuffer} {data : List Byte}
    (h : 2 ^ 31 - 1 < db.size + data.length) (mp : Messagepool) :
    databufferPushInt db mp data = none := if_neg (Nat.not_le_of_lt h)

structure PoolUse (ι : Type u) where
  mp : Messagepool
  bufs : ι → Databuffer

inductive PoolCall (ι : Type u) where
  | push (i : ι) (data : List Byte)
  | read (i : ι) (sz : Nat)
  | clear (i : ι)

/-- A call, and the bytes that a read has copied. -/
def poolCall [DecidableEq ι] (s : PoolUse ι) :
    PoolCall ι → Option (PoolUse ι × List (List Byte))
  | .push i data =>
    (databufferPushInt (s.bufs i) s.mp data).map fun out =>
      (⟨out.2, Function.update s.bufs i out.1⟩, [])
  | .read i sz =>
    (databufferRead (s.bufs i) s.mp sz).map fun out =>
      (⟨out.2.1, Function.update s.bufs i out.1⟩, [out.2.2])
  | .clear i =>
    (databufferClear (s.bufs i) s.mp).map fun out =>
      (⟨out.2, Function.update s.bufs i out.1⟩, [])

namespace PoolUse

def init : PoolUse ι := ⟨.zero, fun _ => .zero⟩

def contents (s : PoolUse ι) (i : ι) : List Byte := heldBytes s.mp (s.bufs i)

/-- What a caller may ask for: any chunk whose size is an int, and a read of bytes that are there. -/
def admits (s : PoolUse ι) : PoolCall ι → Prop
  | .push _ data => data.length ≤ 2 ^ 31 - 1
  | .read i sz => 0 < sz ∧ sz ≤ (s.bufs i).size
  | .clear _ => True

/-- The size of the databuffer is an int still. -/
def Fits (s : PoolUse ι) : PoolCall ι → Prop
  | .push i data => (s.bufs i).size + data.length ≤ 2 ^ 31 - 1
  | .read _ _ => True
  | .clear _ => True

/-- The nodes of the pool by the list that they are in: the free list, or the chunks of one
databuffer. -/
structure Partitioned (s : PoolUse ι) (lists : Option ι → List Nat) : Prop where
  freelist : Chain s.mp.next s.mp.freelist (lists none)
  chunks : ∀ i, Chain s.mp.next (s.bufs i).head (lists (some i))
  nodup : ∀ p, (lists p).Nodup
  node_lt : ∀ p, ∀ a ∈ lists p, a < s.mp.limit
  one_place : ∀ a, a < s.mp.limit → ∃! p, a ∈ lists p
  head_iff_tail : ∀ i, (s.bufs i).head = none ↔ (s.bufs i).tail = none
  tail : ∀ i, (s.bufs i).tail = (lists (some i)).getLast?
  contents : ∀ i, s.contents i = (chunkBytes s.mp (lists (some i))).drop (s.bufs i).offset

structure Sound (s : PoolUse ι) : Prop where
  nodes : ∃ lists, s.Partitioned lists
  size : ∀ i, (s.contents i).length = (s.bufs i).size

end PoolUse

/-- The call on byte strings that have nothing to do with each other. -/
def bytesCall [DecidableEq ι] (bytes : ι → List Byte) :
    PoolCall ι → (ι → List Byte) × List (List Byte)
  | .push i data => (Function.update bytes i (bytes i ++ data), [])
  | .read i sz => (Function.update bytes i ((bytes i).drop sz), [(bytes i).take sz])
  | .clear i => (Function.update bytes i [], [])

/-! ## The state -/

theorem Owns.partitioned {s : PoolUse ι} {free : List Nat} {chunks : ι → List Nat}
    (h : Owns s.mp s.bufs free chunks) : s.Partitioned fun p => p.elim free chunks where
  freelist := h.freelist
  chunks := h.chain
  nodup p := by
    cases p with
    | none => exact h.freelist.nodup
    | some i => exact (h.chain i).nodup
  node_lt p a ha := by
    cases p with
    | none => exact (h.cover a).mpr (.inl ha)
    | some i => exact h.lt_limit ha
  one_place a ha := by
    cases (h.cover a).mp ha with
    | inl hfree =>
      refine ⟨none, hfree, ?_⟩
      intro p hp
      cases p with
      | none => rfl
      | some i => exact absurd hfree (h.apart i a hp)
    | inr hchunk =>
      obtain ⟨i, hi⟩ := hchunk
      refine ⟨some i, hi, ?_⟩
      intro p hp
      cases p with
      | none => exact absurd hp (h.apart i a hi)
      | some j => exact congrArg some (h.disjoint j i a hp hi)
  head_iff_tail i := by
    have hchain := h.chain i
    rw [h.tail i, List.getLast?_eq_none_iff]
    constructor
    · intro hhead
      rw [hhead] at hchain
      exact hchain.of_none
    · intro hnil
      rw [hnil] at hchain
      exact hchain
  tail := h.tail
  contents i := by
    rw [PoolUse.contents, heldBytes, (h.chain i).walk_eq (h.length_le i)]
    rfl

namespace Queues

variable {s : PoolUse ι} {bytes : ι → List Byte}

theorem contents_eq (h : Queues s.mp s.bufs bytes) : s.contents = bytes := by
  funext i
  exact h.heldBytes_eq i

theorem sound (h : Queues s.mp s.bufs bytes) : s.Sound where
  nodes := by
    obtain ⟨free, chunks, howns, -⟩ := h
    exact ⟨_, howns.partitioned⟩
  size i := by
    rw [h.contents_eq, h.size_eq]

/-! ## One call -/

variable [DecidableEq ι]

theorem call (h : Queues s.mp s.bufs bytes) {call : PoolCall ι} (hadmits : s.admits call)
    (hfits : s.Fits call) :
    ∃ s' out, poolCall s call = some (s', out) ∧ out = (bytesCall bytes call).2 ∧
      Queues s'.mp s'.bufs (bytesCall bytes call).1 := by
  cases call with
  | push i data =>
    obtain ⟨db, mp, hpush, hqueues, -⟩ := h.push i data
    have hint : databufferPushInt (s.bufs i) s.mp data = some (db, mp) :=
      (databufferPushInt_of_le hfits s.mp).trans hpush
    exact ⟨_, _, by rw [poolCall, hint]; rfl, rfl, hqueues⟩
  | read i sz =>
    obtain ⟨hpos, hle⟩ := hadmits
    rw [h.size_eq] at hle
    obtain ⟨db, mp, hread, hqueues, -⟩ := h.read hpos hle
    exact ⟨_, _, by rw [poolCall, hread]; rfl, rfl, hqueues⟩
  | clear i =>
    obtain ⟨mp, hclear, hqueues⟩ := h.clear i
    exact ⟨_, _, by rw [poolCall, hclear]; rfl, rfl, hqueues⟩

end Queues

section Runs

variable [DecidableEq ι] {s s' : PoolUse ι}

theorem fits_of_poolCall {call : PoolCall ι} {out : List (List Byte)}
    (h : poolCall s call = some (s', out)) : s.Fits call := by
  cases call with
  | push i data =>
    by_contra hlarge
    rw [poolCall, databufferPushInt_of_lt (Nat.lt_of_not_le hlarge)] at h
    cases h
  | read i sz => trivial
  | clear i => trivial

theorem pool_run {tr : List (Record (PoolUse ι) (PoolCall ι) (List Byte))}
    (h : Exec poolCall PoolUse.admits .init tr s) : ∃ bytes, Queues s.mp s.bufs bytes := by
  apply h.invariant (fun (s : PoolUse ι) => ∃ bytes, Queues s.mp s.bufs bytes)
    ⟨_, Queues.init ι⟩
  intro s call s' out hqueues hadmits hcall
  obtain ⟨bytes, hqueues⟩ := hqueues
  obtain ⟨t, out', hcall', -, ht⟩ := hqueues.call hadmits (fits_of_poolCall hcall)
  rw [hcall] at hcall'
  cases hcall'
  exact ⟨_, ht⟩

/-- In every run the nodes are partitioned and the sizes are right, and a call does what it does
on the byte strings exactly if it keeps the size of its databuffer an int. -/
theorem pool_queues_iff {tr : List (Record (PoolUse ι) (PoolCall ι) (List Byte))}
    (h : Exec poolCall PoolUse.admits .init tr s) :
    s.Sound ∧ ∀ call, s.admits call →
      ((∃ s' out, poolCall s call = some (s', out) ∧
        (s'.contents, out) = bytesCall s.contents call) ↔ s.Fits call) := by
  obtain ⟨bytes, hqueues⟩ := pool_run h
  refine ⟨hqueues.sound, ?_⟩
  intro call hadmits
  constructor
  · intro hanswers
    obtain ⟨s', out, hcall, -⟩ := hanswers
    exact fits_of_poolCall hcall
  · intro hfits
    obtain ⟨s', out, hcall, hout, hqueues'⟩ := hqueues.call hadmits hfits
    refine ⟨s', out, hcall, ?_⟩
    rw [hqueues'.contents_eq, hout, hqueues.contents_eq]

end Runs

instance (s : PoolUse ι) : (call : PoolCall ι) → Decidable (s.admits call)
  | .push _ data => inferInstanceAs (Decidable (data.length ≤ 2 ^ 31 - 1))
  | .read i sz => inferInstanceAs (Decidable (0 < sz ∧ sz ≤ (s.bufs i).size))
  | .clear _ => inferInstanceAs (Decidable True)

theorem pool_queues_two :
    ∃ tr s, Exec poolCall PoolUse.admits (.init : PoolUse Bool) tr s ∧
      (s.contents true, s.contents false, outputsOf tr) = ([3#8], [7#8], [[1#8, 2#8]]) ∧
      s.Sound ∧ ∀ call, s.admits call →
        ((∃ s' out, poolCall s call = some (s', out) ∧
          (s'.contents, out) = bytesCall s.contents call) ↔ s.Fits call) := by
  have hrun : (execute poolCall PoolUse.admits (.init : PoolUse Bool)
      [.push true [1#8], .push false [], .push true [2#8, 3#8], .push false [7#8],
        .read true 2]).map
      (fun run => (run.2.contents true, run.2.contents false, outputsOf run.1)) =
      some ([3#8], [7#8], [[1#8, 2#8]]) := by decide +kernel
  obtain ⟨tr, s, h, hdata⟩ := exists_exec _ hrun
  exact ⟨tr, s, h, hdata, pool_queues_iff h⟩

/-- A chunk of `2 ^ 30` bytes can be pushed once, not twice. -/
theorem pool_size_overflows :
    ∃ (data : List Byte) (tr : _) (s : PoolUse Bool), data.length = 2 ^ 30 ∧
      Exec poolCall PoolUse.admits .init tr s ∧ tr.map Record.input = [.push true data] ∧
      s.admits (.push true data) ∧ poolCall s (.push true data) = none ∧
      ¬∃ s' out, poolCall s (.push true data) = some (s', out) ∧
        (s'.contents, out) = bytesCall s.contents (.push true data) := by
  obtain ⟨data, hdata⟩ : ∃ data : List Byte, data.length = 2 ^ 30 :=
    ⟨_, List.length_replicate (a := 0#8)⟩
  have hadmits : ∀ s : PoolUse Bool, s.admits (.push true data) := by
    intro s
    rw [PoolUse.admits, hdata]
    decide
  have hfirst : (PoolUse.init : PoolUse Bool).Fits (.push true data) := by
    rw [PoolUse.Fits, hdata]
    decide
  obtain ⟨s, out, hcall, -, hqueues⟩ := (Queues.init Bool).call (s := .init) (hadmits _) hfirst
  have hbytes : (bytesCall (fun _ : Bool => []) (.push true data)).1 true = data := by
    simp only [bytesCall, Function.update_self, List.nil_append]
  have hsize : (s.bufs true).size = 2 ^ 30 := by
    rw [hqueues.size_eq, hbytes, hdata]
  have hnone : poolCall s (.push true data) = none := by
    have hlarge : 2 ^ 31 - 1 < (s.bufs true).size + data.length := by
      rw [hsize, hdata]
      decide
    rw [poolCall, databufferPushInt_of_lt hlarge]
    rfl
  refine ⟨data, _, s, hdata, .snoc .nil (hadmits _) hcall, rfl, hadmits s, hnone, ?_⟩
  rintro ⟨s', out', hcall', -⟩
  rw [hnone] at hcall'
  cases hcall'

end NetgameFormal

import MWebServer.Lib.Buckets
import MWebServer.Web.Str

/-!
# The dictionary (`web/dict.c`, `web/dict.h`)

A table of 256 chains keyed by `ssstr`.  A `void *` value is an `Option`, since the
source allows `NULL` as a value; `dict_get` therefore answers with a value and a
found flag.

The chains are buckets in the sense of `Buckets`, with the sdbm hash.  As the hash
of a key depends on its bytes only, a lookup finds the newest entry whose key has
the same bytes (`get_build`).  The counter `used` is the number of nodes in all chains, which
`dict_free` asserts when it has freed them (`map_of_bytes`).
-/

namespace MWebServer

/-- One step of the sdbm loop: `hash = (*str++) + (hash << 6) + (hash << 16) - hash`. -/
def sdbmStep (hash : UInt32) (c : Byte) : UInt32 :=
  c.toInt8.toInt32.toUInt32 + (hash <<< 6) + (hash <<< 16) - hash

/-- `ssstr_hash_sdbm`. -/
def Ssstr.hashSdbm (mem : Mem) (key : Ssstr) : UInt32 :=
  ((key.bytes mem).foldl sdbmStep 0) &&& 0x7FFFFFFF

/-- `LOTOS_HASH`: the index of the chain of a key. -/
def lotosHash (mem : Mem) (key : Ssstr) : UInt32 := key.hashSdbm mem &&& 0xFF

variable {ν : Type}

/-- `dict_node_t`, without its `next` pointer: a chain is a list. -/
structure DictNode (ν : Type) where
  k : Ssstr
  v : Option ν

/-- `dict_t`. -/
structure Dict (ν : Type) where
  table : UInt32 → List (DictNode ν)
  used : UInt32

namespace Dict

/-- `dict_init`. -/
def init : Dict ν := ⟨fun _ => [], 0⟩

/-- `dict_put`. -/
def put (mem : Mem) (d : Dict ν) (key : Ssstr) (val : Option ν) : Dict ν :=
  { table := Buckets.put (fun n => lotosHash mem n.k) d.table ⟨key, val⟩
    used := d.used + 1 }

/-- The walk along a chain in `dict_get`. -/
def chainGet (mem : Mem) (key : Ssstr) : List (DictNode ν) → Option ν × Bool
  | [] => (none, false)
  | p :: next => if Ssstr.cmp mem p.k key = 0 then (p.v, true) else chainGet mem key next

/-- `dict_get`: the value and the found flag. -/
def get (mem : Mem) (d : Dict ν) (key : Ssstr) : Option ν × Bool :=
  chainGet mem key (d.table (lotosHash mem key))

/-- The inner loop of `dict_free`: the nodes of a chain are freed, and counted down. -/
def freeChain (d : Dict ν) : List (DictNode ν) → Dict ν
  | [] => d
  | _ :: q => freeChain { d with used := d.used - 1 } q

/-- `dict_free`, on a dictionary that is not `NULL`.  The table keeps its dangling pointers. -/
def free (d : Dict ν) : Except Fault (Dict ν) :=
  let d := (List.range 256).foldl (fun d i => freeChain d (d.table (UInt32.ofNat i))) d
  if d.used = 0 then .ok d else .error .assertFailed

/-- A dictionary filled by successive puts. -/
def build (mem : Mem) (puts : List (Ssstr × Option ν)) : Dict ν :=
  puts.foldl (fun d p => d.put mem p.1 p.2) init

theorem chainGet_eq_find? (mem : Mem) (key : Ssstr) (chain : List (DictNode ν)) :
    chainGet mem key chain =
      match chain.find? (fun n => Ssstr.cmp mem n.k key = 0) with
      | some n => (n.v, true)
      | none => (none, false) := by
  induction chain with
  | nil => rfl
  | cons n chain ih =>
    rw [chainGet, List.find?_cons]
    by_cases h : Ssstr.cmp mem n.k key = 0
    · simp [h]
    · simp [h, ih]

/-- The chains of a filled dictionary are the buckets of its puts. -/
theorem table_build (mem : Mem) (puts : List (Ssstr × Option ν)) :
    (build mem puts).table =
      Buckets.build (fun n : DictNode ν => lotosHash mem n.k) (puts.map fun p => ⟨p.1, p.2⟩) := by
  suffices hgen : ∀ d : Dict ν, (puts.foldl (fun d p => d.put mem p.1 p.2) d).table =
      (puts.map fun p => (⟨p.1, p.2⟩ : DictNode ν)).foldl
        (Buckets.put fun n => lotosHash mem n.k) d.table from hgen init
  induction puts with
  | nil => intro d; rfl
  | cons p puts ih => intro d; exact ih (d.put mem p.1 p.2)

/-- Equal bytes have equal hashes. -/
theorem lotosHash_congr {mem mem' : Mem} {k key : Ssstr} (h : k.bytes mem = key.bytes mem') :
    lotosHash mem k = lotosHash mem' key := by
  unfold lotosHash Ssstr.hashSdbm
  rw [h]

/-- A put depends on the memory through the hash of its key only. -/
theorem put_congr {mem mem' : Mem} {key : Ssstr} (h : lotosHash mem key = lotosHash mem' key)
    (d : Dict ν) (val : Option ν) : d.put mem key val = d.put mem' key val := by
  unfold put Buckets.put
  simp only [h]

/-- A dictionary depends on the memory through the hashes of its keys only. -/
theorem build_congr {mem mem' : Mem} {puts : List (Ssstr × Option ν)}
    (h : ∀ p ∈ puts, lotosHash mem p.1 = lotosHash mem' p.1) : build mem puts = build mem' puts := by
  unfold build
  generalize (init : Dict ν) = d
  induction puts generalizing d with
  | nil => rfl
  | cons p puts ih =>
    rw [List.foldl_cons, List.foldl_cons, put_congr (h p (by simp))]
    exact ih (fun q hq => h q (by simp [hq])) _

/-- Every key of a filled dictionary has been put there, with its value. -/
theorem mem_build {mem : Mem} {puts : List (Ssstr × Option ν)} {i : UInt32} {n : DictNode ν}
    (h : n ∈ (build mem puts).table i) : (n.k, n.v) ∈ puts := by
  rw [table_build, Buckets.build_apply, List.mem_reverse] at h
  obtain ⟨p, hp, rfl⟩ := List.mem_map.1 (List.mem_of_mem_filter h)
  exact hp

/-- A value that is found has been put there. -/
theorem mem_of_get_build {mem mem' : Mem} {puts : List (Ssstr × Option ν)} {key : Ssstr} {v : ν}
    (h : ((build mem puts).get mem' key).1 = some v) : ∃ k, (k, some v) ∈ puts := by
  rw [get, chainGet_eq_find?] at h
  split at h
  · next n hn =>
    have hmem := mem_build (List.mem_of_find?_eq_some hn)
    rw [show n.v = some v from h] at hmem
    exact ⟨n.k, hmem⟩
  · cases h

/-- Literals as keys are the same strings in any memory. -/
theorem bytes_of_mem_build {mem : Mem} {puts : List (Ssstr × Option ν)} {i : UInt32} {n : DictNode ν}
    (hlit : ∀ p ∈ puts, ∃ s, p.1 = .ofLit s) (h : n ∈ (build mem puts).table i) (mem₁ mem₂ : Mem) :
    n.k.bytes mem₁ = n.k.bytes mem₂ := by
  obtain ⟨s, hs⟩ := hlit _ (mem_build h)
  rw [show n.k = .ofLit s from hs, Ssstr.bytes_ofLit, Ssstr.bytes_ofLit]

/-- A lookup depends on the memory through the bytes of the keys only. -/
theorem get_congr {mem mem' : Mem} {d : Dict ν} {key : Ssstr}
    (hd : ∀ i, ∀ n ∈ d.table i, n.k.bytes mem = n.k.bytes mem')
    (hkey : key.bytes mem = key.bytes mem') : d.get mem key = d.get mem' key := by
  have hchain : ∀ chain : List (DictNode ν), (∀ n ∈ chain, n.k.bytes mem = n.k.bytes mem') →
      chainGet mem key chain = chainGet mem' key chain := by
    intro chain hchain
    induction chain with
    | nil => rfl
    | cons n chain ih =>
      rw [chainGet, chainGet, Ssstr.cmp_congr (hchain n (by simp)) hkey,
        ih fun p hp => hchain p (by simp [hp])]
  rw [get, get, lotosHash_congr hkey]
  exact hchain _ (hd _)

/-- A key that can be looked up: set, and inside the memory it points to. -/
def KeyOk (mem : Mem) (k : Ssstr) : Prop := k.InRange mem ∧ k.str ≠ .null

/-- **A lookup finds the newest entry whose key has the same bytes.** -/
theorem get_build {mem : Mem} {puts : List (Ssstr × Option ν)} {key : Ssstr}
    (hputs : ∀ p ∈ puts, KeyOk mem p.1) (hkey : KeyOk mem key) :
    (build mem puts).get mem key =
      match puts.reverse.find? (fun p => p.1.bytes mem = key.bytes mem) with
      | some p => (p.2, true)
      | none => (none, false) := by
  have hcmp : ∀ p ∈ puts, Ssstr.cmp mem p.1 key = 0 ↔ p.1.bytes mem = key.bytes mem :=
    fun p hp => Ssstr.cmp_eq_zero (hputs p hp).1 hkey.1 (hputs p hp).2 hkey.2
  have hchain : ((build mem puts).table (lotosHash mem key)).find?
        (fun n => Ssstr.cmp mem n.k key = 0) =
      (puts.reverse.find? fun p => p.1.bytes mem = key.bytes mem).map
        fun p => (⟨p.1, p.2⟩ : DictNode ν) := by
    rw [table_build, Buckets.find?_build, ← List.map_reverse, List.find?_map]
    · congr 1
      refine List.find?_congr fun p hp => ?_
      simp [hcmp p (List.mem_reverse.1 hp)]
    · intro n hn htest
      obtain ⟨p, hp, rfl⟩ := List.mem_map.1 hn
      exact lotosHash_congr ((hcmp p hp).1 (by simpa using htest))
  rw [get, chainGet_eq_find?, hchain]
  cases puts.reverse.find? fun p => p.1.bytes mem = key.bytes mem <;> rfl

/-! ## A map keyed by bytes -/

/-- A dictionary filled by puts, each at the contents that the memory has by then. -/
def after (puts : List (Mem × Ssstr × Option ν)) : Dict ν :=
  puts.foldl (fun d p => d.put p.1 p.2.1 p.2.2) init

/-- As long as no key's bytes are changed, it does not matter when a put was made. -/
theorem after_eq_build {mem : Mem} {puts : List (Mem × Ssstr × Option ν)}
    (h : ∀ p ∈ puts, p.2.1.bytes p.1 = p.2.1.bytes mem) :
    after puts = build mem (puts.map Prod.snd) := by
  unfold after build
  generalize (init : Dict ν) = d
  induction puts generalizing d with
  | nil => rfl
  | cons p puts ih =>
    rw [List.map_cons, List.foldl_cons, List.foldl_cons,
      put_congr (lotosHash_congr (h p (by simp)))]
    exact ih (fun q hq => h q (by simp [hq])) _

/-- The number of nodes in all chains. -/
def nodes (d : Dict ν) : Nat := ∑ i ∈ Finset.range 256, (d.table (UInt32.ofNat i)).length

theorem lotosHash_lt (mem : Mem) (key : Ssstr) : (lotosHash mem key).toNat < 256 := by
  unfold lotosHash
  rw [UInt32.toNat_and]
  exact Nat.and_lt_two_pow _ (by decide : (0xFF : UInt32).toNat < 2 ^ 8)

theorem nodes_put (mem : Mem) (d : Dict ν) (key : Ssstr) (val : Option ν) :
    (d.put mem key val).nodes = d.nodes + 1 := by
  have hlen : ∀ i ∈ Finset.range 256, ((d.put mem key val).table (UInt32.ofNat i)).length =
      (d.table (UInt32.ofNat i)).length + if i = (lotosHash mem key).toNat then 1 else 0 := by
    intro i hi
    have hmod : (UInt32.ofNat i).toNat = i := by
      rw [UInt32.toNat_ofNat']
      exact Nat.mod_eq_of_lt (by have := Finset.mem_range.1 hi; omega)
    unfold put Buckets.put
    by_cases h : UInt32.ofNat i = lotosHash mem key
    · have hi' : i = (lotosHash mem key).toNat := by rw [← h, hmod]
      simp [hi']
    · have hi' : i ≠ (lotosHash mem key).toNat := fun hi' => h (UInt32.toNat_inj.1 (hmod.trans hi'))
      simp [h, hi', Function.update_of_ne]
  unfold nodes
  rw [Finset.sum_congr rfl hlen, Finset.sum_add_distrib, Finset.sum_ite_eq',
    if_pos (Finset.mem_range.2 (lotosHash_lt mem key))]

theorem nodes_after (puts : List (Mem × Ssstr × Option ν)) : (after puts).nodes = puts.length := by
  suffices hgen : ∀ d : Dict ν, (puts.foldl (fun d p => d.put p.1 p.2.1 p.2.2) d).nodes =
      d.nodes + puts.length by
    have hinit : (init : Dict ν).nodes = 0 := Finset.sum_eq_zero fun _ _ => rfl
    rw [after, hgen, hinit, Nat.zero_add]
  induction puts with
  | nil => simp
  | cons p puts ih =>
    intro d
    rw [List.foldl_cons, ih, nodes_put, List.length_cons]
    omega

theorem used_after (puts : List (Mem × Ssstr × Option ν)) :
    (after puts).used = UInt32.ofNat puts.length := by
  suffices hgen : ∀ d : Dict ν, (puts.foldl (fun d p => d.put p.1 p.2.1 p.2.2) d).used =
      d.used + UInt32.ofNat puts.length by
    rw [after, hgen]
    exact UInt32.zero_add _
  induction puts with
  | nil => simp
  | cons p puts ih =>
    intro d
    rw [List.foldl_cons, ih, List.length_cons, UInt32.ofNat_add, put]
    grind

theorem freeChain_eq (d : Dict ν) (chain : List (DictNode ν)) :
    freeChain d chain = { d with used := d.used - UInt32.ofNat chain.length } := by
  induction chain generalizing d with
  | nil => simp [freeChain]
  | cons n chain ih =>
    rw [freeChain, ih, List.length_cons, UInt32.ofNat_add]
    congr 1
    grind

theorem freeLoop_eq (d : Dict ν) (is : List Nat) :
    is.foldl (fun d i => freeChain d (d.table (UInt32.ofNat i))) d =
      { d with used := d.used - UInt32.ofNat (is.map fun i => (d.table (UInt32.ofNat i)).length).sum } := by
  induction is generalizing d with
  | nil => simp
  | cons i is ih =>
    rw [List.foldl_cons, freeChain_eq, ih, List.map_cons, List.sum_cons, UInt32.ofNat_add]
    congr 1
    grind

/-- `dict_free` succeeds when the counter is the number of nodes. -/
theorem free_eq_ok {d : Dict ν} (h : d.used = UInt32.ofNat d.nodes) :
    d.free = .ok { d with used := 0 } := by
  have hsum : ∀ n, ((List.range n).map fun i => (d.table (UInt32.ofNat i)).length).sum =
      ∑ i ∈ Finset.range n, (d.table (UInt32.ofNat i)).length := by
    intro n
    induction n with
    | zero => rfl
    | succ n ih => rw [List.range_succ, Finset.sum_range_succ, ← ih]; simp
  have hloop : (List.range 256).foldl (fun d i => freeChain d (d.table (UInt32.ofNat i))) d =
      { d with used := 0 } := by
    rw [freeLoop_eq, hsum, h, nodes, UInt32.sub_self]
  unfold free
  simp only [hloop, if_true]

/-- **The dictionary is a map keyed by bytes**, and counts its nodes. -/
theorem map_of_bytes (mem : Mem) (puts : List (Mem × Ssstr × Option ν)) (hlen : puts.length < 2 ^ 32)
    (hkept : ∀ p ∈ puts, p.2.1.bytes p.1 = p.2.1.bytes mem)
    (hputs : ∀ p ∈ puts, KeyOk mem p.2.1) :
    (∀ key, KeyOk mem key → (after puts).get mem key =
      match puts.reverse.find? (fun p => p.2.1.bytes mem = key.bytes mem) with
      | some p => (p.2.2, true)
      | none => (none, false)) ∧
    (after puts).used.toNat = (after puts).nodes ∧ ∃ d, (after puts).free = .ok d := by
  refine ⟨fun key hkey => ?_, ?_, ?_⟩
  · have hkeys : ∀ p ∈ puts.map Prod.snd, KeyOk mem p.1 := by
      intro p hp
      obtain ⟨q, hq, rfl⟩ := List.mem_map.1 hp
      exact hputs q hq
    rw [after_eq_build hkept, get_build hkeys hkey, ← List.map_reverse, List.find?_map]
    unfold Function.comp
    cases puts.reverse.find? fun p => decide (p.2.1.bytes mem = key.bytes mem) <;> rfl
  · rw [used_after, nodes_after, UInt32.toNat_ofNat', Nat.mod_eq_of_lt hlen]
  · exact ⟨_, free_eq_ok (by rw [used_after, nodes_after])⟩

/-- A key put twice, from two addresses and the second time with `NULL`, and one never put. -/
theorem map_of_bytes_host :
    let mem := str "Host"
    let d : Dict Nat := after [(mem, .ofLit "Host", some 1), (mem, .slice 0 4, none)]
    d.get mem (.ofLit "Host") = (none, true) ∧ d.get mem (.ofLit "Date") = (none, false) ∧
      ∃ d', d.free = .ok d' := by
  intro mem d
  have hlit : ∀ s, KeyOk mem (.ofLit s) := fun s => ⟨rfl, by simp [Ssstr.ofLit]⟩
  have hbuf : KeyOk mem (.slice 0 4) := ⟨⟨by decide, by decide⟩, by simp [Ssstr.slice]⟩
  obtain ⟨hget, -, hfree⟩ := map_of_bytes mem
    [(mem, .ofLit "Host", some 1), (mem, .slice 0 4, (none : Option Nat))] (by decide)
    (by simp) (by simp [hlit, hbuf])
  exact ⟨(hget _ (hlit "Host")).trans (by decide +kernel),
    (hget _ (hlit "Date")).trans (by decide +kernel), hfree⟩

end Dict

end MWebServer

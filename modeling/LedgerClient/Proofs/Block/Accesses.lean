/-
What a simulation read and wrote is shown whole.

The results of a simulation hold one encoded set for each namespace. Of a set
that can be read everything is shown, of the others nothing (`AccessesOf`), in
the order of the namespaces. So each namespace has a part of its own in what is
shown (`AccessesOf.append`), and other bytes in one of them change nothing but
that part.
-/
import LedgerClient.Block.Entry
import LedgerClient.Proofs.Except
import LedgerClient.Proofs.Protocol.Block

namespace LedgerClient.Block

open Protocol

/-- A record names its namespace and holds all that its set does: of what was written as metadata the keys, of the
queries for ranges how many they were. -/
structure NamespaceAccess.Holds (a : NamespaceAccess) (space : String) (kv : KvRwSet) : Prop where
  space : a.space = space
  reads : a.reads = kv.reads
  writes : a.writes = kv.writes
  metadataWrites : a.metadataWrites = kv.metadataWrites.map (·.key)
  rangeQueries : a.rangeQueries = kv.rangeQueries.length

/-- The records of some namespaces: one of each whose set can be read, in order, and none of the others. -/
inductive AccessesOf : List NsReadWriteSet → List NamespaceAccess → Prop
  | nil : AccessesOf [] []
  | keep {n : NsReadWriteSet} {ns : List NsReadWriteSet} {kv : KvRwSet} {a : NamespaceAccess}
      {as : List NamespaceAccess} (h : Wire.decode? KvRwSet n.rwset = some kv) (ha : a.Holds n.space kv)
      (hs : AccessesOf ns as) : AccessesOf (n :: ns) (a :: as)
  | drop {n : NsReadWriteSet} {ns : List NsReadWriteSet} {as : List NamespaceAccess}
      (h : Wire.decode? KvRwSet n.rwset = none) (hs : AccessesOf ns as) : AccessesOf (n :: ns) as

variable {n : NsReadWriteSet} {ns ms : List NsReadWriteSet} {kv : KvRwSet} {a : NamespaceAccess}
  {as bs : List NamespaceAccess} {s : TxReadWriteSet} {results : Bytes}

/-! ## Records -/

theorem NamespaceAccess.of?_eq_some_iff :
    NamespaceAccess.of? n = some a ↔ ∃ kv, Wire.decode? KvRwSet n.rwset = some kv ∧ a.Holds n.space kv := by
  rw [NamespaceAccess.of?, Option.map_eq_some_iff]
  constructor
  · rintro ⟨kv, hkv, rfl⟩
    exact ⟨kv, hkv, rfl, rfl, rfl, rfl, rfl⟩
  · rintro ⟨kv, hkv, hspace, hreads, hwrites, hmetadata, hranges⟩
    exact ⟨kv, hkv, by rw [← hspace, ← hreads, ← hwrites, ← hmetadata, ← hranges]⟩

theorem NamespaceAccess.of?_eq_none_iff : NamespaceAccess.of? n = none ↔ Wire.decode? KvRwSet n.rwset = none :=
  Option.map_eq_none_iff

theorem accessesOf_filterMap : ∀ ns : List NsReadWriteSet, AccessesOf ns (ns.filterMap NamespaceAccess.of?)
  | [] => .nil
  | n :: ns => by
    rw [List.filterMap_cons]
    split
    next h => exact .drop (NamespaceAccess.of?_eq_none_iff.1 h) (accessesOf_filterMap ns)
    next a h =>
      obtain ⟨kv, hkv, ha⟩ := NamespaceAccess.of?_eq_some_iff.1 h
      exact .keep hkv ha (accessesOf_filterMap ns)

/-- The namespaces determine their records. -/
theorem AccessesOf.eq_filterMap (h : AccessesOf ns as) : as = ns.filterMap NamespaceAccess.of? := by
  induction h with
  | nil => rfl
  | keep h ha _ ih => rw [List.filterMap_cons_some (NamespaceAccess.of?_eq_some_iff.2 ⟨_, h, ha⟩), ih]
  | drop h _ ih => rw [List.filterMap_cons_none (NamespaceAccess.of?_eq_none_iff.2 h), ih]

theorem AccessesOf.append (h : AccessesOf ns as) (h' : AccessesOf ms bs) : AccessesOf (ns ++ ms) (as ++ bs) := by
  rw [h.eq_filterMap, h'.eq_filterMap, ← List.filterMap_append]
  exact accessesOf_filterMap _

/-! ## Results -/

theorem accesses_of_decode? (h : Wire.decode? TxReadWriteSet results = some s) :
    accesses results = .ok (s.namespaces.filterMap NamespaceAccess.of?) := by
  rw [accesses, decodeAs_eq_ok_iff.2 h]
  rfl

theorem accesses_encode (hs : Wire.size s < 2 ^ 64) (h : AccessesOf s.namespaces as) :
    accesses (Wire.encode s) = .ok as := by
  rw [h.eq_filterMap]
  exact accesses_of_decode? (s.faithful.decode?_encode (by decide) hs)

/-- A set that stands encoded in a namespace is read back. -/
theorem decode?_rwset (hs : Wire.size s < 2 ^ 64) (hn : n ∈ s.namespaces) (hkv : n.rwset = Wire.encode kv) :
    Wire.decode? KvRwSet n.rwset = some kv := by
  have hns : Wire.size n ≤ Wire.size s := Wire.size_le_of_mem 2 (by
    simpa [Wire.Typed.toMessage, Wire.Message.ofChildren] using .inr ⟨n, hn, rfl⟩)
  rw [hkv]
  exact (kv.faithful.decode?_inside (by decide) n 2 (by simp [Wire.Typed.toMessage, hkv])
    (Nat.lt_of_le_of_lt hns hs)).1

/-- The set with other bytes in the namespace at a position. -/
def withRwset (s : TxReadWriteSet) (i : Nat) (rwset : Bytes) : TxReadWriteSet :=
  { s with namespaces := s.namespaces.modify i fun n => { n with rwset } }

theorem namespaces_withRwset {i : Nat} (hn : s.namespaces[i]? = some n) (rwset : Bytes) :
    (withRwset s i rwset).namespaces = s.namespaces.take i ++ { n with rwset } :: s.namespaces.drop (i + 1) := by
  obtain ⟨hi, rfl⟩ := List.getElem?_eq_some_iff.1 hn
  exact List.modify_eq_take_cons_drop hi

/-- **Read-write sets are shown whole.** Of the results of a simulation a record is shown for each namespace whose set
can be read, in order, with everything in it, and none for the others; a set that was written as a whole can be read, and
is what was written. Other bytes in a namespace change its own record and no other. Results that are no read-write set
are refused. -/
theorem accesses_whole (s : TxReadWriteSet) (hs : Wire.size s < 2 ^ 64) :
    (∃ as, accesses (Wire.encode s) = .ok as ∧ AccessesOf s.namespaces as) ∧
    (∀ n ∈ s.namespaces, ∀ kv, n.rwset = Wire.encode kv → Wire.decode? KvRwSet n.rwset = some kv) ∧
    (∀ i n, s.namespaces[i]? = some n →
      ∃ before after, AccessesOf (s.namespaces.take i) before ∧ AccessesOf (s.namespaces.drop (i + 1)) after ∧
        ∀ rwset, Wire.size (withRwset s i rwset) < 2 ^ 64 →
          ∃ own, AccessesOf [{ n with rwset }] own ∧
            accesses (Wire.encode (withRwset s i rwset)) = .ok (before ++ own ++ after)) ∧
    ∀ results, Wire.decode? TxReadWriteSet results = none →
      accesses results = .error (.malformed "tx read write set") := by
  refine ⟨⟨_, accesses_encode hs (accessesOf_filterMap _), accessesOf_filterMap _⟩,
    fun n hn kv hkv => decode?_rwset hs hn hkv, fun i n hn => ?_, fun results h => ?_⟩
  · have hbefore := accessesOf_filterMap (s.namespaces.take i)
    have hafter := accessesOf_filterMap (s.namespaces.drop (i + 1))
    refine ⟨_, _, hbefore, hafter, fun rwset hsize => ?_⟩
    have hown := accessesOf_filterMap [{ n with rwset }]
    refine ⟨_, hown, accesses_encode hsize ?_⟩
    rw [namespaces_withRwset hn, List.append_cons]
    exact (hbefore.append hown).append hafter
  · rw [accesses, bind_eq_error_iff]
    exact .inl (decodeAs_eq_error_iff.2 ⟨h, rfl⟩)

/-! A set that cannot be read before one in which a version, a value and a query's bounds are zero or empty. -/

def plainRwset : KvRwSet :=
  { reads := [{ key := "a", version := some {} }, { key := "b" }]
    writes := [{ key := "b" }, { key := "c", isDelete := true }]
    metadataWrites := [{ key := "d", entries := [{ name := "policy" }] }]
    rangeQueries := [{}, { readsInfo := some (.raw {}) }] }

def patchySet : TxReadWriteSet :=
  { namespaces := [{ space := "broken", rwset := [255, 255] }, { space := "basic", rwset := Wire.encode plainRwset }] }

theorem accesses_whole_patchy :
    ∃ a own, accesses (Wire.encode patchySet) = .ok [a] ∧ a.Holds "basic" plainRwset ∧
      AccessesOf [{ space := "broken", rwset := [] }] own ∧
      accesses (Wire.encode (withRwset patchySet 0 [])) = .ok (own ++ [a]) := by
  obtain ⟨⟨as, has, hall⟩, hwhole, hreplace, -⟩ := accesses_whole patchySet (by decide +kernel)
  have hread : Wire.decode? KvRwSet (Wire.encode plainRwset) = some plainRwset :=
    hwhole { space := "basic", rwset := Wire.encode plainRwset } (by simp [patchySet]) plainRwset rfl
  have hbroken : Wire.decode? KvRwSet [255, 255] = none := by decide +kernel
  obtain ⟨before, after, hbefore, hafter, hother⟩ := hreplace 0 { space := "broken", rwset := [255, 255] } rfl
  obtain ⟨own, hown, haccesses⟩ := hother [] (by decide +kernel)
  -- nothing stands before the first namespace, and the other one behind it
  cases hbefore
  cases hall with
  | keep h => cases hbroken.symm.trans h
  | drop _ hall =>
    obtain rfl := hall.eq_filterMap.trans hafter.eq_filterMap.symm
    cases hafter with
    | drop h => cases hread.symm.trans h
    | keep h ha hnil =>
      obtain rfl := Option.some.inj (hread.symm.trans h)
      cases hnil
      exact ⟨_, own, has, ha, hown, haccesses⟩

end LedgerClient.Block

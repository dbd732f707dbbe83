import QuantaDB.Word

/-!
The tuple store `HashmapKVStore` (HashmapKVStore.cc): the table from keys to
tuples, and the SSN meta each tuple carries. `put` and `maximizeMetaEta` act on
the tuple object the caller holds; in a run they act on the tuple the table
holds under a key. `putNew` writes its stamps into the object it is given before
the table decides: given a fresh tuple from `preput`, a refusal leaves the table
as it was; given the object the table already holds, the stamps of that object
change although the call returns false. The invariant of the data model is
proved for every run, one lemma per operation.
-/

set_option autoImplicit false

namespace QuantaDB.DSSN

open QuantaDB

/-- `DSSNMeta`: the SSN stamps of one tuple version. -/
structure DSSNMeta where
  pStamp : UInt64
  sStamp : UInt64
  pStampPrev : UInt64
  sStampPrev : UInt64
  cStamp : UInt64
  deriving DecidableEq, Repr

/-- `KVLayout`: the key bytes `k`, the value bytes `v.valuePtr[0, v.valueLength)`,
the meta and the tombstone flag of one tuple. -/
structure KVLayout where
  key : List UInt8
  value : List UInt8
  meta : DSSNMeta
  isTombstone : Bool
  deriving DecidableEq, Repr

/-- `my_hashtable`: the tuple installed under each key. -/
structure HashmapKVStore where
  table : List UInt8 → Option KVLayout

namespace HashmapKVStore

def empty : HashmapKVStore := ⟨fun _ => none⟩

def set (s : HashmapKVStore) (key : List UInt8) (kv : KVLayout) : HashmapKVStore :=
  ⟨fun k => if k = key then some kv else s.table k⟩

@[simp] theorem set_table (s : HashmapKVStore) (key k : List UInt8) (kv : KVLayout) :
    (s.set key kv).table k = if k = key then some kv else s.table k := rfl

/-- `my_hashtable->put(key, kv)`. Modelled from the spec: the hash table (not
under src/) installs the tuple when no tuple has its key, and answers null when
one has. -/
def tablePut (s : HashmapKVStore) (kv : KVLayout) : HashmapKVStore × Bool :=
  match s.table kv.key with
  | none => (s.set kv.key kv, true)
  | some _ => (s, false)

/-- Lines 28-31: the stamps `putNew` gives a new tuple. -/
def putNewMeta (m : DSSNMeta) (cts pi : UInt64) : DSSNMeta :=
  let m := { m with pStamp := cts }
  let m := { m with cStamp := m.pStamp }
  let m := { m with pStampPrev := 0 }
  let m := { m with sStampPrev := pi }
  { m with sStamp := cts }

/-- Lines 38-41, assignment by assignment: `cStamp = pStamp = cts` writes
`pStamp` first, and `pStampPrev` is read from it afterwards. -/
def putMeta (m : DSSNMeta) (cts pi : UInt64) : DSSNMeta :=
  let m := { m with pStamp := cts }
  let m := { m with cStamp := m.pStamp }
  let m := { m with pStampPrev := m.pStamp }
  let m := { m with sStampPrev := pi }
  { m with sStamp := cts }

@[simp] theorem putNewMeta_eq (m : DSSNMeta) (cts pi : UInt64) :
    putNewMeta m cts pi = ⟨cts, cts, 0, pi, cts⟩ := rfl

@[simp] theorem putMeta_eq (m : DSSNMeta) (cts pi : UInt64) :
    putMeta m cts pi = ⟨cts, cts, cts, pi, cts⟩ := rfl

/-- `putNew(kv, cts, pi)` with `kv` a tuple the table does not hold, fresh from
`preput`. -/
def putNew (s : HashmapKVStore) (kv : KVLayout) (cts pi : UInt64) : HashmapKVStore × Bool :=
  s.tablePut { kv with meta := putNewMeta kv.meta cts pi }

/-- `put` overwrites the tuple in place; the old value is freed. -/
def put (kv : KVLayout) (cts pi : UInt64) (value : List UInt8) : KVLayout × Bool :=
  ({ kv with meta := putMeta kv.meta cts pi, value := value }, true)

def maximizeMetaEta (kv : KVLayout) (eta : UInt64) : KVLayout × Bool :=
  ({ kv with meta := { kv.meta with pStamp := max eta kv.meta.pStamp } }, true)

def fetch (s : HashmapKVStore) (k : List UInt8) : Option KVLayout := s.table k

/-- `getValue(k, valuePtr, valueLength)`: false, with length 0, for a missing key. -/
def getValue (s : HashmapKVStore) (k : List UInt8) : Bool × List UInt8 :=
  match s.fetch k with
  | some kv => (true, kv.value)
  | none => (false, [])

def getMeta (s : HashmapKVStore) (k : List UInt8) : Option DSSNMeta :=
  (s.fetch k).map KVLayout.meta

def remove (s : HashmapKVStore) (k : List UInt8) (meta : DSSNMeta) : HashmapKVStore × Bool :=
  match s.fetch k with
  | some kv => (s.set k { kv with isTombstone := true, meta := meta }, true)
  | none => (s, false)

/-- Apply `f` to the tuple installed under `key`, if any. -/
def update (s : HashmapKVStore) (key : List UInt8) (f : KVLayout → KVLayout) :
    HashmapKVStore :=
  match s.table key with
  | some kv => s.set key (f kv)
  | none => s

/-- `putNew(kv, cts, pi)` with `kv` the object installed under `key`, the pointer
`fetch(key)` returned: lines 28-31 rewrite that object's stamps, and
`my_hashtable->put` then refuses its key. -/
def putNewInstalled (s : HashmapKVStore) (key : List UInt8) (cts pi : UInt64) :
    HashmapKVStore × Bool :=
  (s.update key fun kv => { kv with meta := putNewMeta kv.meta cts pi }, false)

end HashmapKVStore

open HashmapKVStore

/-- A call on the store. `put` and `maximizeMetaEta` name the tuple by its key. -/
inductive Op where
  | putNew (kv : KVLayout) (cts pi : UInt64)
  | putNewInstalled (key : List UInt8) (cts pi : UInt64)
  | put (key : List UInt8) (cts pi : UInt64) (value : List UInt8)
  | maximizeMetaEta (key : List UInt8) (eta : UInt64)
  | remove (key : List UInt8) (meta : DSSNMeta)
  deriving DecidableEq, Repr

namespace HashmapKVStore

def apply (s : HashmapKVStore) : Op → HashmapKVStore
  | .putNew kv cts pi => (s.putNew kv cts pi).1
  | .putNewInstalled key cts pi => (s.putNewInstalled key cts pi).1
  | .put key cts pi value => s.update key fun kv => (HashmapKVStore.put kv cts pi value).1
  | .maximizeMetaEta key eta => s.update key fun kv => (HashmapKVStore.maximizeMetaEta kv eta).1
  | .remove key meta => (s.remove key meta).1

def run (s : HashmapKVStore) (ops : List Op) : HashmapKVStore := ops.foldl apply s

end HashmapKVStore

/-! ## The SSN meta invariant over runs -/

/-- The stamp order of the data model without its last conjunct:
`cStamp ≤ pStamp`, `cStamp ≤ sStamp`, `pStampPrev ≤ cStamp`. -/
def DSSNMeta.Ordered (m : DSSNMeta) : Prop :=
  m.cStamp ≤ m.pStamp ∧ m.cStamp ≤ m.sStamp ∧ m.pStampPrev ≤ m.cStamp

/-- The SSN meta invariant of the data model, with `sStampPrev ≤ cStamp`. -/
def DSSNMeta.Valid (m : DSSNMeta) : Prop := m.Ordered ∧ m.sStampPrev ≤ m.cStamp

instance : DecidablePred DSSNMeta.Ordered := fun _ => inferInstanceAs (Decidable (_ ∧ _ ∧ _))

instance : DecidablePred DSSNMeta.Valid := fun _ => inferInstanceAs (Decidable (_ ∧ _))

/-- Every tuple the table holds has a meta satisfying `P`. -/
def HashmapKVStore.All (P : DSSNMeta → Prop) (s : HashmapKVStore) : Prop :=
  ∀ k kv, s.table k = some kv → P kv.meta

/-- What a call needs of `P` to keep it: the meta it installs satisfies `P`, and
raising `pStamp` keeps `P`. -/
def Op.Keeps (P : DSSNMeta → Prop) : Op → Prop
  | .putNew kv cts pi => P (putNewMeta kv.meta cts pi)
  | .putNewInstalled _ cts pi => ∀ m, P (putNewMeta m cts pi)
  | .put _ cts pi _ => ∀ m, P (putMeta m cts pi)
  | .maximizeMetaEta _ eta => ∀ m, P m → P { m with pStamp := max eta m.pStamp }
  | .remove _ meta => P meta

namespace HashmapKVStore

variable {P : DSSNMeta → Prop} {s : HashmapKVStore}

theorem All.set {key : List UInt8} {kv : KVLayout} (hs : s.All P) (hkv : P kv.meta) :
    (s.set key kv).All P := by
  intro k kv' h
  simp only [set_table] at h
  split at h
  · cases h; exact hkv
  · exact hs k kv' h

theorem All.update {key : List UInt8} {f : KVLayout → KVLayout} (hs : s.All P)
    (hf : ∀ kv, P kv.meta → P (f kv).meta) : (s.update key f).All P := by
  unfold HashmapKVStore.update
  split
  · rename_i kv hkv; exact hs.set (hf kv (hs key kv hkv))
  · exact hs

theorem All.apply {op : Op} (hs : s.All P) (hop : op.Keeps P) : (s.apply op).All P := by
  cases op with
  | putNew kv cts pi =>
    simp only [HashmapKVStore.apply, putNew, tablePut]
    split
    · exact hs.set hop
    · exact hs
  | putNewInstalled key cts pi => exact hs.update fun kv _ => hop kv.meta
  | put key cts pi value => exact hs.update fun kv _ => hop kv.meta
  | maximizeMetaEta key eta => exact hs.update fun kv h => hop kv.meta h
  | remove key meta =>
    simp only [HashmapKVStore.apply, remove, fetch]
    split
    · exact hs.set hop
    · exact hs

theorem All.run {ops : List Op} (hs : s.All P) (hops : ∀ op ∈ ops, op.Keeps P) :
    (s.run ops).All P := by
  induction ops generalizing s with
  | nil => exact hs
  | cons op ops ih =>
    exact ih (hs.apply (hops op (.head _))) fun o h => hops o (.tail _ h)

end HashmapKVStore

open UInt64 in
/-- The three stamp inequalities hold for any arguments: only a tombstone's meta
can break them. -/
theorem Op.keeps_ordered (op : Op) (h : ∀ key meta, op = .remove key meta → meta.Ordered) :
    op.Keeps DSSNMeta.Ordered := by
  cases op with
  | remove key meta => exact h key meta rfl
  | maximizeMetaEta key eta =>
    intro m hm
    simp only [DSSNMeta.Ordered, le_iff_toNat_le, toNat_max] at hm ⊢
    omega
  | _ => simp only [Op.Keeps, putNewMeta_eq, putMeta_eq, DSSNMeta.Ordered, le_iff_toNat_le,
    UInt64.toNat_zero]; omega

/-- The calls that keep the whole invariant: installs and overwrites with
`pi ≤ cts`, and tombstones whose meta is itself valid. -/
def Op.Admissible : Op → Prop
  | .putNew _ cts pi | .putNewInstalled _ cts pi | .put _ cts pi _ => pi ≤ cts
  | .maximizeMetaEta _ _ => True
  | .remove _ meta => meta.Valid

instance : DecidablePred Op.Admissible
  | .putNew _ cts pi => inferInstanceAs (Decidable (pi ≤ cts))
  | .putNewInstalled _ cts pi => inferInstanceAs (Decidable (pi ≤ cts))
  | .put _ cts pi _ => inferInstanceAs (Decidable (pi ≤ cts))
  | .maximizeMetaEta _ _ => inferInstanceAs (Decidable True)
  | .remove _ meta => inferInstanceAs (Decidable meta.Valid)

open UInt64 in
theorem Op.keeps_valid (op : Op) (h : op.Admissible) : op.Keeps DSSNMeta.Valid := by
  cases op with
  | remove key meta => exact h
  | maximizeMetaEta key eta =>
    intro m hm
    simp only [DSSNMeta.Valid, DSSNMeta.Ordered, le_iff_toNat_le, toNat_max] at hm ⊢
    omega
  | _ =>
    simp only [Op.Admissible, le_iff_toNat_le] at h
    simp only [Op.Keeps, putNewMeta_eq, putMeta_eq, DSSNMeta.Valid, DSSNMeta.Ordered,
      le_iff_toNat_le, UInt64.toNat_zero]
    omega

/-! ## Runs -/

/-- The whole SSN meta invariant holds after every run of admissible calls. -/
theorem run_meta_valid (s : HashmapKVStore) (ops : List Op) (hs : s.All DSSNMeta.Valid)
    (hops : ∀ op ∈ ops, op.Admissible) : (s.run ops).All DSSNMeta.Valid :=
  hs.run fun op h => op.keeps_valid (hops op h)

theorem run_meta_valid_install_read_overwrite :
    (∀ op ∈ [Op.putNew ⟨[7], [1], ⟨0, 0, 0, 0, 0⟩, false⟩ 3 2, .maximizeMetaEta [7] 9,
      .put [7] 12 10 [2]], op.Admissible) ∧
    (empty.run [.putNew ⟨[7], [1], ⟨0, 0, 0, 0, 0⟩, false⟩ 3 2, .maximizeMetaEta [7] 9,
      .put [7] 12 10 [2]]).All DSSNMeta.Valid :=
  ⟨by decide, run_meta_valid empty _ (fun _ _ h => nomatch h) (by decide)⟩

/-- `putNew` with `pi` above `cts`, here the spec's initial `pi = TS_MAX`,
installs a tuple whose `sStampPrev` exceeds its `cStamp`. -/
theorem putNew_pi_above_cts_breaks_valid :
    ¬ (empty.run [.putNew ⟨[7], [1], ⟨0, 0, 0, 0, 0⟩, false⟩ 3 0xffffffffffffffff]).All
      DSSNMeta.Valid :=
  fun h => absurd (h [7] _ rfl) (by decide)

/-- The three stamp inequalities hold after every run, whatever the stamps. -/
theorem run_meta_ordered (s : HashmapKVStore) (ops : List Op) (hs : s.All DSSNMeta.Ordered)
    (hrm : ∀ key meta, Op.remove key meta ∈ ops → meta.Ordered) :
    (s.run ops).All DSSNMeta.Ordered :=
  hs.run fun op h => op.keeps_ordered fun key meta e => hrm key meta (e ▸ h)

theorem run_meta_ordered_open_pi :
    (empty.run [.putNew ⟨[7], [1], ⟨0, 0, 0, 0, 0⟩, false⟩ 3 0xffffffffffffffff,
      .remove [7] ⟨4, 4, 1, 9, 2⟩]).All DSSNMeta.Ordered :=
  run_meta_ordered empty _ (fun _ _ h => nomatch h) fun key meta h => by
    simp only [List.mem_cons, Op.remove.injEq, List.mem_singleton, reduceCtorEq, false_or,
      List.not_mem_nil, or_false] at h
    obtain ⟨-, rfl⟩ := h
    decide

/-- A version installed with cts 1 and read at 5 is overwritten with cts 7: the
new version's `pStampPrev` is 7, and the read stamp 5 is gone. -/
theorem put_loses_read_stamp :
    (empty.run [.putNew ⟨[7], [1], ⟨0, 0, 0, 0, 0⟩, false⟩ 1 0, .maximizeMetaEta [7] 5,
      .put [7] 7 0 [2]]).getMeta [7] = some ⟨7, 7, 7, 0, 7⟩ := by decide

end QuantaDB.DSSN

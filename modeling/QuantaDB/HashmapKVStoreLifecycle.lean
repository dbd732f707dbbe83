import QuantaDB.HashmapKVStore

/-!
What the tuple store (HashmapKVStore.cc) does to one key over a whole run,
besides the SSN stamp order: no call takes a tuple out of the table and none
clears a tombstone, and `putNew` refuses every key the table holds. A removed
key therefore stays a tombstone for good: `getValue` keeps answering for it and
it can never be installed again. A tuple's `pStampPrev` is 0, as `putNew` sets
it, or its own `cStamp`, as `put` sets it: no reachable tuple records a stamp of
the version it replaced.
-/

set_option autoImplicit false

namespace QuantaDB.DSSN

open QuantaDB HashmapKVStore

/-! ## Keys and tombstones -/

/-- From `s` to `s'` the tuple under `k` stays installed, and stays a tombstone
once it is one. -/
def KeyKept (k : List UInt8) (s s' : HashmapKVStore) : Prop :=
  ∀ kv, s.table k = some kv →
    ∃ kv', s'.table k = some kv' ∧ (kv.isTombstone = true → kv'.isTombstone = true)

namespace KeyKept

variable {k : List UInt8}

theorem refl (s : HashmapKVStore) : KeyKept k s s := fun kv h => ⟨kv, h, id⟩

theorem trans {s₁ s₂ s₃ : HashmapKVStore} (h₁ : KeyKept k s₁ s₂) (h₂ : KeyKept k s₂ s₃) :
    KeyKept k s₁ s₃ := by
  intro kv h
  obtain ⟨kv', h', ht⟩ := h₁ kv h
  obtain ⟨kv'', h'', ht'⟩ := h₂ kv' h'
  exact ⟨kv'', h'', ht' ∘ ht⟩

end KeyKept

namespace HashmapKVStore

/-- `putNew` of a key the table holds is refused and changes nothing. -/
theorem putNew_of_fetch (s : HashmapKVStore) (kv kv₀ : KVLayout) (cts pi : UInt64)
    (h : s.fetch kv.key = some kv₀) : s.putNew kv cts pi = (s, false) := by
  simp only [putNew, tablePut]
  rw [show s.table kv.key = some kv₀ from h]

/-- Rewriting the tuple under `key` by an `f` that keeps the flag keeps every key. -/
theorem keyKept_update (s : HashmapKVStore) (key k : List UInt8) (f : KVLayout → KVLayout)
    (hf : ∀ kv, (f kv).isTombstone = kv.isTombstone) : KeyKept k s (s.update key f) := by
  intro kv h
  unfold update
  split
  · rename_i kv₀ h₀
    by_cases hk : k = key
    · subst hk
      obtain rfl : kv₀ = kv := Option.some.inj (h₀.symm.trans h)
      exact ⟨f kv₀, by simp, fun ht => (hf kv₀).trans ht⟩
    · exact ⟨kv, by simp [hk, h], id⟩
  · exact ⟨kv, h, id⟩

/-- No call removes a key or clears a tombstone. -/
theorem keyKept_apply (s : HashmapKVStore) (op : Op) (k : List UInt8) :
    KeyKept k s (s.apply op) := by
  cases op with
  | putNew kv₀ cts pi =>
    intro kv h
    simp only [HashmapKVStore.apply, putNew, tablePut]
    split
    · -- the new key was free, so it is not `k`
      rename_i hn
      have hk : k ≠ kv₀.key := fun e => by simp [← e, h] at hn
      exact ⟨kv, by rw [set_table, if_neg hk, h], id⟩
    · exact ⟨kv, h, id⟩
  | putNewInstalled key cts pi => exact keyKept_update s key k _ fun _ => rfl
  | put key cts pi value => exact keyKept_update s key k _ fun _ => rfl
  | maximizeMetaEta key eta => exact keyKept_update s key k _ fun _ => rfl
  | remove key meta =>
    intro kv h
    simp only [HashmapKVStore.apply, remove, fetch]
    split
    · rename_i kv₀ _
      by_cases hk : k = key
      · exact ⟨{ kv₀ with isTombstone := true, meta := meta }, by simp [hk], fun _ => rfl⟩
      · exact ⟨kv, by simp [hk, h], id⟩
    · exact ⟨kv, h, id⟩

theorem keyKept_run (s : HashmapKVStore) (ops : List Op) (k : List UInt8) :
    KeyKept k s (s.run ops) := by
  induction ops generalizing s with
  | nil => exact KeyKept.refl s
  | cons op ops ih => exact (keyKept_apply s op k).trans (ih _)

/-- `putNew` handed the installed object rewrites its stamps in place. -/
theorem putNewInstalled_fetch (s : HashmapKVStore) (key : List UInt8) (kv : KVLayout)
    (cts pi : UInt64) (h : s.table key = some kv) :
    (s.putNewInstalled key cts pi).1.fetch key = some { kv with meta := putNewMeta kv.meta cts pi } := by
  simp [putNewInstalled, update, fetch, h]

/-- A `remove` that finds its key leaves a tombstone under it. -/
theorem remove_tombstone (s : HashmapKVStore) (k : List UInt8) (meta : DSSNMeta)
    (h : (s.remove k meta).2 = true) :
    ∃ kv, (s.remove k meta).1.table k = some kv ∧ kv.isTombstone = true := by
  unfold remove at h ⊢
  split at h
  · rename_i kv₀ _
    exact ⟨{ kv₀ with isTombstone := true, meta := meta }, by simp, rfl⟩
  · cases h

end HashmapKVStore

/-- Once `remove` has found its key, every later state, whatever calls run in
between, holds a tombstone under it, and `getValue` still answers true for the
key. A `putNew` of a fresh tuple with that key is refused and changes nothing; a
`putNew` handed the installed tombstone itself is refused too, but rewrites the
tombstone's stamps. -/
theorem remove_is_permanent (s : HashmapKVStore) (k : List UInt8) (meta : DSSNMeta)
    (h : (s.remove k meta).2 = true) (ops : List Op) :
    (∃ kv, ((s.remove k meta).1.run ops).fetch k = some kv ∧ kv.isTombstone = true) ∧
      (((s.remove k meta).1.run ops).getValue k).1 = true ∧
      (∀ kv cts pi, kv.key = k →
        ((s.remove k meta).1.run ops).putNew kv cts pi = (((s.remove k meta).1.run ops), false)) ∧
      ∀ cts pi, (((s.remove k meta).1.run ops).putNewInstalled k cts pi).2 = false ∧
        ∃ kv, (((s.remove k meta).1.run ops).putNewInstalled k cts pi).1.fetch k = some kv ∧
          kv.isTombstone = true ∧ kv.meta = ⟨cts, cts, 0, pi, cts⟩ := by
  obtain ⟨kv₀, h₀, ht₀⟩ := remove_tombstone s k meta h
  obtain ⟨kv, hkv, ht⟩ := keyKept_run _ ops k kv₀ h₀
  refine ⟨⟨kv, hkv, ht ht₀⟩, by simp [getValue, fetch, hkv], ?_, fun cts pi => ?_⟩
  · rintro kv' cts pi rfl
    exact putNew_of_fetch _ kv' kv cts pi hkv
  · exact ⟨rfl, _, putNewInstalled_fetch _ k kv cts pi hkv, ht ht₀, putNewMeta_eq _ _ _⟩

/-- A tuple installed at cts 1 and removed, then overwritten and handed to
`putNew` itself: the key is still a tombstone. -/
theorem remove_is_permanent_put_then_putNew :
    ((empty.run [.putNew ⟨[7], [1], ⟨0, 0, 0, 0, 0⟩, false⟩ 1 0]).remove [7]
        ⟨3, 3, 0, 0, 3⟩).2 = true ∧
      (∃ kv, (((empty.run [.putNew ⟨[7], [1], ⟨0, 0, 0, 0, 0⟩, false⟩ 1 0]).remove [7]
          ⟨3, 3, 0, 0, 3⟩).1.run [.put [7] 5 0 [2], .putNewInstalled [7] 6 0]).fetch [7] =
            some kv ∧ kv.isTombstone = true) ∧
      ((((empty.run [.putNew ⟨[7], [1], ⟨0, 0, 0, 0, 0⟩, false⟩ 1 0]).remove [7]
          ⟨3, 3, 0, 0, 3⟩).1.run [.put [7] 5 0 [2], .putNewInstalled [7] 6 0]).getValue [7]).1 =
            true ∧
      (∀ kv cts pi, kv.key = [7] →
        (((empty.run [.putNew ⟨[7], [1], ⟨0, 0, 0, 0, 0⟩, false⟩ 1 0]).remove [7]
          ⟨3, 3, 0, 0, 3⟩).1.run [.put [7] 5 0 [2], .putNewInstalled [7] 6 0]).putNew kv cts pi =
          ((((empty.run [.putNew ⟨[7], [1], ⟨0, 0, 0, 0, 0⟩, false⟩ 1 0]).remove [7]
            ⟨3, 3, 0, 0, 3⟩).1.run [.put [7] 5 0 [2], .putNewInstalled [7] 6 0]), false)) ∧
      ∀ cts pi, ((((empty.run [.putNew ⟨[7], [1], ⟨0, 0, 0, 0, 0⟩, false⟩ 1 0]).remove [7]
          ⟨3, 3, 0, 0, 3⟩).1.run [.put [7] 5 0 [2], .putNewInstalled [7] 6 0]).putNewInstalled
            [7] cts pi).2 = false ∧
        ∃ kv, ((((empty.run [.putNew ⟨[7], [1], ⟨0, 0, 0, 0, 0⟩, false⟩ 1 0]).remove [7]
          ⟨3, 3, 0, 0, 3⟩).1.run [.put [7] 5 0 [2], .putNewInstalled [7] 6 0]).putNewInstalled
            [7] cts pi).1.fetch [7] = some kv ∧
          kv.isTombstone = true ∧ kv.meta = ⟨cts, cts, 0, pi, cts⟩ :=
  ⟨by decide, remove_is_permanent _ _ _ (by decide) _⟩

/-! ## The predecessor stamp -/

/-- `pStampPrev` as the installing calls leave it: 0 after `putNew`, the
version's own `cStamp` after `put`. -/
def DSSNMeta.PrevOwnOrZero (m : DSSNMeta) : Prop := m.pStampPrev = 0 ∨ m.pStampPrev = m.cStamp

instance : DecidablePred DSSNMeta.PrevOwnOrZero := fun _ => inferInstanceAs (Decidable (_ ∨ _))

theorem Op.keeps_prevOwnOrZero (op : Op)
    (h : ∀ key meta, op = .remove key meta → meta.PrevOwnOrZero) :
    op.Keeps DSSNMeta.PrevOwnOrZero := by
  cases op with
  | putNew kv cts pi => exact .inl rfl
  | putNewInstalled key cts pi => exact fun _ => .inl rfl
  | put key cts pi value => exact fun _ => .inr rfl
  | maximizeMetaEta key eta => exact fun _ hm => hm
  | remove key meta => exact h key meta rfl

/-- In every state a run reaches, each tuple's `pStampPrev` is 0 or its own
`cStamp`: the read stamp of the version a `put` replaced is recorded nowhere. -/
theorem run_pStampPrev_zero_or_own (s : HashmapKVStore) (ops : List Op)
    (hs : s.All DSSNMeta.PrevOwnOrZero)
    (hrm : ∀ key meta, Op.remove key meta ∈ ops → meta.PrevOwnOrZero) :
    (s.run ops).All DSSNMeta.PrevOwnOrZero :=
  hs.run fun op h => op.keeps_prevOwnOrZero fun key meta e => hrm key meta (e ▸ h)

theorem run_pStampPrev_zero_or_own_read_overwrite :
    (∀ key meta, Op.remove key meta ∈ [Op.putNew ⟨[7], [1], ⟨0, 0, 0, 0, 0⟩, false⟩ 1 0,
      .maximizeMetaEta [7] 5, .put [7] 7 0 [2], .remove [7] ⟨9, 9, 0, 0, 9⟩] →
        meta.PrevOwnOrZero) ∧
      (empty.run [.putNew ⟨[7], [1], ⟨0, 0, 0, 0, 0⟩, false⟩ 1 0, .maximizeMetaEta [7] 5,
        .put [7] 7 0 [2], .remove [7] ⟨9, 9, 0, 0, 9⟩]).All DSSNMeta.PrevOwnOrZero := by
  have hrm : ∀ key meta, Op.remove key meta ∈ [Op.putNew ⟨[7], [1], ⟨0, 0, 0, 0, 0⟩, false⟩ 1 0,
      .maximizeMetaEta [7] 5, .put [7] 7 0 [2], .remove [7] ⟨9, 9, 0, 0, 9⟩] →
        meta.PrevOwnOrZero := fun key meta h => by
    simp only [List.mem_cons, Op.remove.injEq, List.mem_singleton, reduceCtorEq, false_or,
      List.not_mem_nil, or_false] at h
    obtain ⟨-, rfl⟩ := h
    decide
  exact ⟨hrm, run_pStampPrev_zero_or_own empty _ (fun _ _ h => nomatch h) hrm⟩

end QuantaDB.DSSN

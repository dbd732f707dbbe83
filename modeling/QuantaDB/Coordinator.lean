import QuantaDB.Word
import Mathlib.Data.Finset.Basic

/-!
The `Coordinator`'s early-abort bookkeeping (Coordinator.h): `ssnRead` and
`ssnWrite` fold the stamps the validator returns into the transaction's `eta`
and `pi`, and answer whether the SSN exclusion `pi <= eta` is violated. Both
guard their update with `writeSet.find(kv) != writeSet.end()`, which holds for
keys the transaction has already written.
-/

set_option autoImplicit false

namespace QuantaDB.DSSN

open QuantaDB

/-- The `Coordinator`'s DSSN data. `readSet` and `writeSet` are `std::set<KVLayout>`;
an element of `K` stands for one class of tuples the sets' order does not tell
apart. -/
structure Coordinator (K : Type) where
  cts : UInt64
  eta : UInt64
  pi : UInt64
  txState : UInt32
  readSet : Finset K
  writeSet : Finset K

/-- One call the client makes on the coordinator. -/
inductive Call (K : Type) where
  | ssnRead (kv : K) (cStamp sStamp : UInt64)
  | ssnWrite (kv : K) (pStampPrev : UInt64)

namespace Coordinator

variable {K : Type} [DecidableEq K]

def isExclusionViolated (c : Coordinator K) : Bool := decide (c.pi ≤ c.eta)

def ssnRead (c : Coordinator K) (kv : K) (cStamp sStamp : UInt64) : Coordinator K × Bool :=
  let c :=
    if kv ∈ c.writeSet then
      let c := { c with eta := max c.eta cStamp }
      if sStamp = 0xffffffffffffffff then { c with readSet := insert kv c.readSet }
      else { c with pi := min c.pi sStamp }
    else c
  (c, c.isExclusionViolated)

def ssnWrite (c : Coordinator K) (kv : K) (pStampPrev : UInt64) : Coordinator K × Bool :=
  let c :=
    if kv ∈ c.writeSet then
      { c with eta := max c.eta pStampPrev, writeSet := insert kv c.writeSet,
               readSet := c.readSet.erase kv }
    else c
  (c, c.isExclusionViolated)

def call (c : Coordinator K) : Call K → Coordinator K × Bool
  | .ssnRead kv cStamp sStamp => c.ssnRead kv cStamp sStamp
  | .ssnWrite kv pStampPrev => c.ssnWrite kv pStampPrev

def run (c : Coordinator K) (calls : List (Call K)) : Coordinator K :=
  calls.foldl (fun c op => (c.call op).1) c

/-- Every call answers the exclusion check on the state it leaves. -/
@[simp] theorem call_snd (c : Coordinator K) (op : Call K) :
    (c.call op).2 = (c.call op).1.isExclusionViolated := by
  cases op <;> rfl

open UInt64 in
/-- A call only raises `eta` and only lowers `pi`. -/
theorem call_bounds (c : Coordinator K) (op : Call K) :
    c.eta ≤ (c.call op).1.eta ∧ (c.call op).1.pi ≤ c.pi := by
  simp only [le_iff_toNat_le]
  cases op with
  | ssnRead kv cStamp sStamp =>
    simp only [call, ssnRead]
    split_ifs <;> simp only [toNat_max, toNat_min, Nat.le_refl, and_self, and_true] <;> omega
  | ssnWrite kv pStampPrev =>
    simp only [call, ssnWrite]
    split_ifs <;> simp only [toNat_max, Nat.le_refl, and_self, and_true]
    omega

theorem run_bounds (c : Coordinator K) (calls : List (Call K)) :
    c.eta ≤ (c.run calls).eta ∧ (c.run calls).pi ≤ c.pi := by
  induction calls generalizing c with
  | nil => exact ⟨UInt64.le_refl _, UInt64.le_refl _⟩
  | cons op calls ih =>
    obtain ⟨h₁, h₂⟩ := call_bounds c op
    obtain ⟨h₃, h₄⟩ := ih (c.call op).1
    exact ⟨UInt64.le_trans h₁ h₃, UInt64.le_trans h₄ h₂⟩

/-- Early abort is final: once the exclusion check fails, every later call on
the coordinator reports it failed again. -/
theorem exclusion_violation_persists (c : Coordinator K) (calls : List (Call K)) (op : Call K)
    (h : c.isExclusionViolated = true) : ((c.run calls).call op).2 = true := by
  have hb := run_bounds c calls
  have hc := call_bounds (c.run calls) op
  simp only [isExclusionViolated, decide_eq_true_eq, call_snd] at h ⊢
  exact UInt64.le_trans hc.2 (UInt64.le_trans hb.2 (UInt64.le_trans h
    (UInt64.le_trans hb.1 hc.1)))

/-- `ssnWrite` inserts only a key its guard found in the write set already: no
call changes the write set. -/
theorem call_writeSet (c : Coordinator K) (op : Call K) : (c.call op).1.writeSet = c.writeSet := by
  cases op with
  | ssnRead kv cStamp sStamp =>
    simp only [call, ssnRead]
    split_ifs <;> rfl
  | ssnWrite kv pStampPrev =>
    simp only [call, ssnWrite]
    split_ifs with h
    · exact Finset.insert_eq_of_mem h
    · rfl

/-- No run of calls changes the write set. -/
theorem run_writeSet (c : Coordinator K) (calls : List (Call K)) :
    (c.run calls).writeSet = c.writeSet := by
  induction calls generalizing c with
  | nil => rfl
  | cons op calls ih => exact (ih (c.call op).1).trans (call_writeSet c op)

/-- A coordinator whose write set is empty ignores every call: the guards never
hold, and the write set stays empty. -/
theorem run_of_writeSet_empty (c : Coordinator K) (calls : List (Call K))
    (h : c.writeSet = ∅) : c.run calls = c := by
  induction calls generalizing c with
  | nil => rfl
  | cons op calls ih =>
    have hc : (c.call op).1 = c := by
      cases op <;> simp [call, ssnRead, ssnWrite, h]
    exact (congrArg (run · calls) hc).trans (ih c h)

end Coordinator

/-! ## `eta` and `pi` as bounds of the stamps the calls report -/

/-- The stamp a call folds into `eta`: the `cStamp` of a read and the
`pStampPrev` of a write of a key in `ws`; 0, which `max` ignores, otherwise. -/
def Call.etaStamp {K : Type} [DecidableEq K] (ws : Finset K) : Call K → UInt64
  | .ssnRead kv cStamp _ => if kv ∈ ws then cStamp else 0
  | .ssnWrite kv pStampPrev => if kv ∈ ws then pStampPrev else 0

/-- The stamp a call folds into `pi`: the `sStamp` of a read of a key in `ws`;
`TS_MAX`, which `min` ignores, otherwise. A read whose `sStamp` is `TS_MAX`
joins the read set and leaves `pi` as a `min` with `TS_MAX` would. -/
def Call.piStamp {K : Type} [DecidableEq K] (ws : Finset K) : Call K → UInt64
  | .ssnRead kv _ sStamp => if kv ∈ ws then sStamp else 0xffffffffffffffff
  | .ssnWrite _ _ => 0xffffffffffffffff

namespace Coordinator

variable {K : Type} [DecidableEq K]

open UInt64 in
theorem call_eta (c : Coordinator K) (op : Call K) :
    (c.call op).1.eta.toNat = max c.eta.toNat (op.etaStamp c.writeSet).toNat := by
  cases op with
  | ssnRead kv cStamp sStamp =>
    simp only [call, ssnRead, Call.etaStamp]
    split_ifs <;> simp [toNat_max]
  | ssnWrite kv pStampPrev =>
    simp only [call, ssnWrite, Call.etaStamp]
    split_ifs <;> simp [toNat_max]

open UInt64 in
theorem call_pi (c : Coordinator K) (op : Call K) :
    (c.call op).1.pi.toNat = min c.pi.toNat (op.piStamp c.writeSet).toNat := by
  -- `TS_MAX` is neutral for `min`
  have hmin : min c.pi.toNat (0xffffffffffffffff : UInt64).toNat = c.pi.toNat :=
    Nat.min_eq_left (Nat.le_pred_of_lt c.pi.toNat_lt)
  cases op with
  | ssnRead kv cStamp sStamp =>
    simp only [call, ssnRead, Call.piStamp]
    split_ifs with hw hs
    · rw [hs, hmin]
    · simp [toNat_min]
    · rw [hmin]
  | ssnWrite kv pStampPrev =>
    simp only [call, ssnWrite, Call.piStamp]
    split_ifs <;> rw [hmin]

theorem run_eta_le_iff (c : Coordinator K) (calls : List (Call K)) (b : Nat) :
    (c.run calls).eta.toNat ≤ b ↔
      c.eta.toNat ≤ b ∧ ∀ op ∈ calls, (op.etaStamp c.writeSet).toNat ≤ b := by
  induction calls generalizing c with
  | nil => simp [run]
  | cons op calls ih =>
    show ((c.call op).1.run calls).eta.toNat ≤ b ↔ _
    rw [ih, call_writeSet, call_eta]
    simp only [List.mem_cons, forall_eq_or_imp, max_le_iff, and_assoc]

theorem le_run_pi_iff (c : Coordinator K) (calls : List (Call K)) (b : Nat) :
    b ≤ (c.run calls).pi.toNat ↔
      b ≤ c.pi.toNat ∧ ∀ op ∈ calls, b ≤ (op.piStamp c.writeSet).toNat := by
  induction calls generalizing c with
  | nil => simp [run]
  | cons op calls ih =>
    show b ≤ ((c.call op).1.run calls).pi.toNat ↔ _
    rw [ih, call_writeSet, call_pi]
    simp only [List.mem_cons, forall_eq_or_imp, le_min_iff, and_assoc]

/-- Whatever the order of the calls, `eta` ends as the least upper bound of its
start value and the stamps of the reads and writes of written keys, and `pi` as
the greatest lower bound of its start value and the `sStamp`s of those reads:
the SSN definitions of the two stamps. -/
theorem run_eta_max_pi_min (c : Coordinator K) (calls : List (Call K)) (b : UInt64) :
    ((c.run calls).eta ≤ b ↔ c.eta ≤ b ∧ ∀ op ∈ calls, op.etaStamp c.writeSet ≤ b) ∧
      (b ≤ (c.run calls).pi ↔ b ≤ c.pi ∧ ∀ op ∈ calls, b ≤ op.piStamp c.writeSet) := by
  simp only [UInt64.le_iff_toNat_le]
  exact ⟨run_eta_le_iff c calls b.toNat, le_run_pi_iff c calls b.toNat⟩

/-- The validators' replies may arrive in any order: `eta`, `pi` and the early
abort answer after a run do not depend on it. (The read set does: a read of a
written key with an open `sStamp` and a write of it leave the key in the read
set only when the read comes last.) -/
theorem run_stamps_perm (c : Coordinator K) {calls calls' : List (Call K)}
    (h : calls.Perm calls') :
    (c.run calls).eta = (c.run calls').eta ∧ (c.run calls).pi = (c.run calls').pi ∧
      (c.run calls).isExclusionViolated = (c.run calls').isExclusionViolated := by
  have heta : (c.run calls).eta = (c.run calls').eta :=
    UInt64.ext (eq_of_forall_ge_iff fun b => by simp only [run_eta_le_iff, h.mem_iff])
  have hpi : (c.run calls).pi = (c.run calls').pi :=
    UInt64.ext (eq_of_forall_le_iff fun b => by simp only [le_run_pi_iff, h.mem_iff])
  exact ⟨heta, hpi, by simp only [isExclusionViolated, heta, hpi]⟩

end Coordinator

open Coordinator

theorem run_stamps_perm_read_write_swapped :
    [Call.ssnRead 7 3 9, .ssnWrite 7 5].Perm [.ssnWrite 7 5, .ssnRead 7 3 9] ∧
      ((⟨1, 0, 0xffffffffffffffff, 1, ∅, {7}⟩ : Coordinator Nat).run
          [.ssnRead 7 3 9, .ssnWrite 7 5]).eta =
        ((⟨1, 0, 0xffffffffffffffff, 1, ∅, {7}⟩ : Coordinator Nat).run
          [.ssnWrite 7 5, .ssnRead 7 3 9]).eta ∧
      ((⟨1, 0, 0xffffffffffffffff, 1, ∅, {7}⟩ : Coordinator Nat).run
          [.ssnRead 7 3 9, .ssnWrite 7 5]).pi =
        ((⟨1, 0, 0xffffffffffffffff, 1, ∅, {7}⟩ : Coordinator Nat).run
          [.ssnWrite 7 5, .ssnRead 7 3 9]).pi ∧
      ((⟨1, 0, 0xffffffffffffffff, 1, ∅, {7}⟩ : Coordinator Nat).run
          [.ssnRead 7 3 9, .ssnWrite 7 5]).isExclusionViolated =
        ((⟨1, 0, 0xffffffffffffffff, 1, ∅, {7}⟩ : Coordinator Nat).run
          [.ssnWrite 7 5, .ssnRead 7 3 9]).isExclusionViolated :=
  ⟨List.Perm.swap _ _ _, run_stamps_perm _ (List.Perm.swap _ _ _)⟩

theorem exclusion_violation_persists_after_write :
    (⟨1, 8, 5, 1, ∅, {7}⟩ : Coordinator Nat).isExclusionViolated = true ∧
    (((⟨1, 8, 5, 1, ∅, {7}⟩ : Coordinator Nat).run [.ssnWrite 7 2]).call
      (.ssnRead 3 1 9)).2 = true :=
  ⟨by decide, exclusion_violation_persists _ _ _ (by decide)⟩

theorem run_of_writeSet_empty_reads_writes :
    (⟨1, 0, 0xffffffffffffffff, 1, ∅, ∅⟩ : Coordinator Nat).writeSet = ∅ ∧
    (⟨1, 0, 0xffffffffffffffff, 1, ∅, ∅⟩ : Coordinator Nat).run
        [.ssnWrite 7 4, .ssnRead 8 5 9, .ssnRead 7 3 0xffffffffffffffff] =
      ⟨1, 0, 0xffffffffffffffff, 1, ∅, ∅⟩ :=
  ⟨rfl, run_of_writeSet_empty _ _ rfl⟩

/-- A read, with an open `sStamp`, of a key the transaction has already written
puts the key in both sets. -/
theorem ssnRead_overlaps_write_set :
    Disjoint (⟨1, 0, 0xffffffffffffffff, 1, ∅, {7}⟩ : Coordinator Nat).readSet
        (⟨1, 0, 0xffffffffffffffff, 1, ∅, {7}⟩ : Coordinator Nat).writeSet ∧
      ¬ Disjoint
        ((⟨1, 0, 0xffffffffffffffff, 1, ∅, {7}⟩ : Coordinator Nat).ssnRead 7 3
          0xffffffffffffffff).1.readSet
        ((⟨1, 0, 0xffffffffffffffff, 1, ∅, {7}⟩ : Coordinator Nat).ssnRead 7 3
          0xffffffffffffffff).1.writeSet := by decide

/-- From `eta = 0`, `pi = TS_MAX` and empty sets, writing key 7 with
`pStampPrev` 4 and reading key 8 with stamps 5 and 9 leave `eta` and `pi` where
they were, and the second call reports no violation. -/
theorem ssn_stamps_of_unwritten_keys_ignored :
    let c : Coordinator Nat := ⟨1, 0, 0xffffffffffffffff, 1, ∅, ∅⟩
    (c.run [.ssnWrite 7 4, .ssnRead 8 5 9]).eta = 0 ∧
    (c.run [.ssnWrite 7 4, .ssnRead 8 5 9]).pi = 0xffffffffffffffff ∧
    ((c.run [.ssnWrite 7 4]).call (.ssnRead 8 5 9)).2 = false := by decide

end QuantaDB.DSSN

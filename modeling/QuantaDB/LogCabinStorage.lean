import QuantaDB.Word
import Mathlib.Data.Nat.Digits

/-!
`LogCabinStorage` (LogCabinStorage.cc): the external storage kept in a LogCabin
tree. The tree is any cluster, shared with other contenders, so a call may get
any answer: a status, and the contents for a read. `RAMCLOUD_DIE` and a failed
assertion end the process; `LostLeadershipException` is thrown out of the call.
Strings and buffers are their bytes.
-/

set_option autoImplicit false

namespace QuantaDB.LogCabin

open QuantaDB

/-- `LogCabin::Client::Status`. -/
inductive Status where
  | ok
  | invalidArgument
  | lookupError
  | typeError
  | conditionNotMet
  | timeout
  deriving DecidableEq, Repr

/-- The tree's answer to one call. -/
structure Reply where
  status : Status
  contents : List UInt8
  deriving DecidableEq, Repr

/-- How a call of the storage ends. -/
inductive Outcome (α : Type) where
  | returns (a : α)
  | dies
  | throws
  deriving DecidableEq, Repr

def Outcome.map {α β : Type} (f : α → β) : Outcome α → Outcome β
  | .returns a => .returns (f a)
  | .dies => .dies
  | .throws => .throws

/-- The bytes of an ASCII text. -/
def ascii (s : String) : List UInt8 := s.toList.map fun c => c.toNat.toUInt8

section

/- `downCast<uint32_t>`, RAMCloud's narrowing cast (Common.h, not under src/):
`none` is its failed assertion. -/
variable (downCast : UInt64 → Option UInt32)

/-- `get(name, value)` on the tree's answer to `tree.read(name, contents)`: the
buffer is reset, then gets `appendCopy(contents.data(), downCast(contents.size()))`. -/
def get (r : Reply) : Outcome (Bool × List UInt8) :=
  match r.status with
  | .ok =>
    match downCast r.contents.length.toUInt64 with
    | some n => .returns (true, r.contents.take n.toNat)
    | none => .dies
  | .typeError => .returns (true, [])
  | .lookupError => .returns (false, [])
  | .conditionNotMet => .throws
  | _ => .dies

/-- `getLeaderInfo(name, value)`: `get`, then the first 17 bytes (16 hexadecimal
digits and a colon) are stripped from a value that has them. -/
def getLeaderInfo (r : Reply) : Outcome (Bool × List UInt8) :=
  (get downCast r).map fun (ret, value) =>
    (ret, if 17 ≤ value.length then value.drop 17 else value)

end

/-- `downCast<uint32_t>` built with assertions: a value past 32 bits fails the
assertion `large - small == 0`. -/
def downCastChecked (n : UInt64) : Option UInt32 :=
  if n.toNat < 2 ^ 32 then some n.toUInt32 else none

/-- `downCast<uint32_t>` built with `NDEBUG`: the bare `static_cast`, which keeps
the low 32 bits. -/
def downCastTruncating (n : UInt64) : Option UInt32 := some n.toUInt32

/-- `format("%016lx", n)`: `n` in lowercase hexadecimal, padded with zeros to
16 digits. -/
def hex016 (n : UInt64) : List UInt8 :=
  let digits := (Nat.toDigits 16 n.toNat).map fun c => c.toNat.toUInt8
  List.replicate (16 - digits.length) (ascii "0").head! ++ digits

/-- `format("%016lx:", nonce) + leaderInfo`, the value `becomeLeader` writes. -/
def leaderInfoWithNonce (nonce : UInt64) (leaderInfo : List UInt8) : List UInt8 :=
  hex016 nonce ++ ascii ":" ++ leaderInfo

theorem length_toDigits_le (n : UInt64) : (Nat.toDigits 16 n.toNat).length ≤ 16 :=
  Nat.toDigitsCore_length 16 (by norm_num) _ _ 16
    (lt_of_lt_of_eq (UInt64.toNat_lt n) (by norm_num)) (by norm_num)

@[simp] theorem length_hex016 (n : UInt64) : (hex016 n).length = 16 := by
  have := length_toDigits_le n
  simp only [hex016, List.length_append, List.length_replicate, List.length_map]
  omega

@[simp] theorem length_leaderInfoWithNonce (nonce : UInt64) (leaderInfo : List UInt8) :
    (leaderInfoWithNonce nonce leaderInfo).length = 17 + leaderInfo.length := by
  have h : (ascii ":").length = 1 := rfl
  simp only [leaderInfoWithNonce, List.length_append, length_hex016, h]

/-- The value `becomeLeader` writes is 17 bytes longer than `leaderInfo`, and
its leader information comes back from `getLeaderInfo` whenever the value fits
the 32-bit length of a RAMCloud `Buffer`, with any `downCast` that keeps the
values that fit. -/
theorem getLeaderInfo_leaderInfoWithNonce (downCast : UInt64 → Option UInt32)
    (hdc : ∀ n : UInt64, n.toNat < 2 ^ 32 → downCast n = some n.toUInt32)
    (nonce : UInt64) (leaderInfo : List UInt8) :
    (leaderInfoWithNonce nonce leaderInfo).length = 17 + leaderInfo.length ∧
      (17 + leaderInfo.length < 2 ^ 32 →
        getLeaderInfo downCast ⟨.ok, leaderInfoWithNonce nonce leaderInfo⟩ =
          .returns (true, leaderInfo)) := by
  have hlen := length_leaderInfoWithNonce nonce leaderInfo
  refine ⟨hlen, fun hfit => ?_⟩
  have hpre : (hex016 nonce ++ ascii ":").length = 17 := by simp [ascii]
  have hn : (17 + leaderInfo.length).toUInt64.toNat < 2 ^ 32 := by
    rw [UInt64.toNat_natCast]; omega
  have hcast : (17 + leaderInfo.length).toUInt64.toUInt32.toNat = 17 + leaderInfo.length := by
    rw [UInt64.toUInt32_toNat, UInt64.toNat_natCast]; omega
  unfold leaderInfoWithNonce at hlen ⊢
  unfold getLeaderInfo get
  rw [hlen, hdc _ hn]
  simp only [hcast, List.take_of_length_le (le_of_eq hlen), Outcome.map, hlen]
  rw [if_pos (by omega), List.drop_left' hpre]

theorem getLeaderInfo_leaderInfoWithNonce_node :
    (leaderInfoWithNonce 0xbeef (ascii "node-1")).length = 17 + (ascii "node-1").length ∧
      17 + (ascii "node-1").length < 2 ^ 32 ∧
      getLeaderInfo downCastChecked
        ⟨.ok, leaderInfoWithNonce 0xbeef (ascii "node-1")⟩ = .returns (true, ascii "node-1") :=
  have h := getLeaderInfo_leaderInfoWithNonce downCastChecked (fun _ h => if_pos h) 0xbeef
    (ascii "node-1")
  ⟨h.1, by decide, h.2 (by decide)⟩

/-- A value of `2^32` bytes or more is longer than any `uint32_t` length:
whatever `downCast` does, `getLeaderInfo` does not return its `leaderInfo`. -/
theorem getLeaderInfo_ne_of_past_uint32 (downCast : UInt64 → Option UInt32) (nonce : UInt64)
    (leaderInfo : List UInt8) (hlong : 2 ^ 32 ≤ 17 + leaderInfo.length) :
    getLeaderInfo downCast ⟨.ok, leaderInfoWithNonce nonce leaderInfo⟩ ≠
      .returns (true, leaderInfo) := by
  intro h
  simp only [getLeaderInfo, get] at h
  split at h
  · rename_i n _
    simp only [Outcome.map, Outcome.returns.injEq, Prod.mk.injEq, true_and] at h
    have hl := congrArg List.length h
    have hn := n.toNat_lt
    split at hl <;> simp only [List.length_drop, List.length_take,
      length_leaderInfoWithNonce] at * <;> omega
  · simp [Outcome.map] at h

theorem getLeaderInfo_ne_of_past_uint32_zeros :
    2 ^ 32 ≤ 17 + (List.replicate (2 ^ 32 - 17) (0 : UInt8)).length ∧
      getLeaderInfo downCastChecked
          ⟨.ok, leaderInfoWithNonce 0 (List.replicate (2 ^ 32 - 17) 0)⟩ ≠
        .returns (true, List.replicate (2 ^ 32 - 17) 0) :=
  ⟨by rw [List.length_replicate]; omega,
    getLeaderInfo_ne_of_past_uint32 downCastChecked 0 _ (by rw [List.length_replicate]; omega)⟩

/-- `get` with the asserting cast returns the whole value when its length fits
32 bits, and dies otherwise. -/
theorem get_downCastChecked (c : List UInt8) (h : c.length < 2 ^ 64) :
    get downCastChecked ⟨.ok, c⟩ = if c.length < 2 ^ 32 then .returns (true, c) else .dies := by
  have hn : c.length.toUInt64.toNat = c.length := by rw [UInt64.toNat_natCast]; omega
  by_cases h₁ : c.length < 2 ^ 32
  · simp only [get, downCastChecked, hn, if_pos h₁, UInt64.toUInt32_toNat,
      Nat.mod_eq_of_lt h₁, List.take_length]
  · simp only [get, downCastChecked, hn, if_neg h₁]

/-- `get` with the truncating cast returns the first `length % 2^32` bytes. -/
theorem get_downCastTruncating (c : List UInt8) (h : c.length < 2 ^ 64) :
    get downCastTruncating ⟨.ok, c⟩ = .returns (true, c.take (c.length % 2 ^ 32)) := by
  have hn : c.length.toUInt64.toNat = c.length := by rw [UInt64.toNat_natCast]; omega
  simp only [get, downCastTruncating, UInt64.toUInt32_toNat, hn]

/-- A `leaderInfo` of `2^32 - 17` zero bytes: built with assertions, `get` dies;
without them, `getLeaderInfo` returns true with an empty buffer. -/
theorem getLeaderInfo_value_past_uint32 :
    getLeaderInfo downCastChecked
        ⟨.ok, leaderInfoWithNonce 0 (List.replicate (2 ^ 32 - 17) 0)⟩ = .dies ∧
      getLeaderInfo downCastTruncating
        ⟨.ok, leaderInfoWithNonce 0 (List.replicate (2 ^ 32 - 17) 0)⟩ = .returns (true, []) := by
  have hl : (leaderInfoWithNonce 0 (List.replicate (2 ^ 32 - 17) 0)).length = 2 ^ 32 := by
    simp only [length_leaderInfoWithNonce, List.length_replicate]; rfl
  have hfit : (leaderInfoWithNonce 0 (List.replicate (2 ^ 32 - 17) 0)).length < 2 ^ 64 := by
    rw [hl]; norm_num
  simp only [getLeaderInfo, get_downCastChecked _ hfit, get_downCastTruncating _ hfit, hl,
    lt_irrefl, if_false, Nat.mod_self, List.take_zero]
  exact ⟨rfl, rfl⟩

end QuantaDB.LogCabin

import QuantaDB.Word
import Mathlib.Data.UInt

/-!
`inMemStream` and `outMemStream` (MemStreamIo.h): cursors over a buffer of the
64-bit address space. Every assertion `cur + sz <= end` is computed on
`UInt64`, so it wraps past `2^64` as the machine's pointer sums do, and
`memcpy` moves the bytes at the addresses `span a n`. `none` is a failed
assertion.
-/

set_option autoImplicit false

namespace QuantaDB.DSSN

universe u

open QuantaDB

/-- The bytes of the address space. -/
abbrev Mem := UInt64 → UInt8

/-- The addresses `a, a+1, ..., a+n-1`, wrapping past `2^64`. -/
def span (a : UInt64) (n : Nat) : List UInt64 := (List.range n).map fun i => a + i.toUInt64

/-- `memcpy(a, p, p.length)`: the bytes of `p` at `span a p.length`. -/
def store (mem : Mem) (a : UInt64) (p : List UInt8) : Mem :=
  fun x => if (x - a).toNat < p.length then p.getD (x - a).toNat 0 else mem x

/-- `inMemStream`: the unread bytes are `[cur, end)` of the buffer `[bgn, end)`. -/
structure InMemStream where
  bgn : UInt64
  cur : UInt64
  «end» : UInt64
  deriving DecidableEq, Repr

/-- `inMemStream(buf, sz)`. -/
def inMemStream (buf sz : UInt64) : InMemStream := ⟨buf, buf, buf + sz⟩

/-- `outMemStream`: the bytes written are `[bgn, cur)` of the buffer `[bgn, end)`. -/
structure OutMemStream where
  cur : UInt64
  bgn : UInt64
  «end» : UInt64
  deriving DecidableEq, Repr

/-- `outMemStream(buf, sz)`. -/
def outMemStream (buf sz : UInt64) : OutMemStream := ⟨buf, buf, buf + sz⟩

namespace InMemStream

/-- `read(p, sz)`. -/
def read (mem : Mem) (s : InMemStream) (sz : UInt64) : Option (List UInt8 × InMemStream) :=
  if s.cur + sz ≤ s.«end» then some ((span s.cur sz.toNat).map mem, { s with cur := s.cur + sz })
  else none

/-- `toString(s)`: a `size_t` length, then that many bytes under the same
assertion and copy as `read`. -/
def toString (mem : Mem) (s : InMemStream) : Option (List UInt8 × InMemStream) := do
  let (b, s) ← s.read mem 8
  s.read mem (valueLE b).toUInt64

/-- The loop of `toVector`: `n` elements, each built by the constructor `T(this)`. -/
def readElems {T : Type} (construct : Mem → InMemStream → Option (T × InMemStream))
    (mem : Mem) : Nat → InMemStream → Option (List T × InMemStream)
  | 0, s => some ([], s)
  | n + 1, s => do
    let (t, s) ← construct mem s
    let (ts, s) ← readElems construct mem n s
    pure (t :: ts, s)

/-- `toVector(v)`: a `size_t` count, then that many elements. -/
def toVector {T : Type} (construct : Mem → InMemStream → Option (T × InMemStream))
    (mem : Mem) (s : InMemStream) : Option (List T × InMemStream) := do
  let (b, s) ← s.read mem 8
  readElems construct mem (valueLE b) s

def dsize (s : InMemStream) : UInt64 := s.«end» - s.cur

end InMemStream

namespace OutMemStream

/-- `write(p, sz)`, with `sz` the length of `p`. -/
def write (o : OutMemStream) (mem : Mem) (p : List UInt8) : Option (OutMemStream × Mem) :=
  if o.cur + p.length.toUInt64 ≤ o.«end» then
    some ({ o with cur := o.cur + p.length.toUInt64 }, store mem o.cur p)
  else none

/-- `write(const std::string&)`: the length as a `size_t`, then the bytes. -/
def writeString (o : OutMemStream) (mem : Mem) (s : List UInt8) :
    Option (OutMemStream × Mem) := do
  let (o, mem) ← o.write mem (bytesLE 8 s.length)
  o.write mem s

/-- The loop of `writeVector`: `it.serialize(this)` for each element in turn. -/
def serializeAll {T : Type u} (serialize : T → OutMemStream → Mem → Option (OutMemStream × Mem)) :
    List T → OutMemStream → Mem → Option (OutMemStream × Mem)
  | [], o, mem => some (o, mem)
  | t :: ts, o, mem => do
    let (o, mem) ← serialize t o mem
    serializeAll serialize ts o mem

/-- `writeVector(v)`: the count as a `size_t`, then every element. -/
def writeVector {T : Type} (serialize : T → OutMemStream → Mem → Option (OutMemStream × Mem))
    (o : OutMemStream) (mem : Mem) (v : List T) : Option (OutMemStream × Mem) := do
  let (o, mem) ← o.write mem (bytesLE 8 v.length)
  serializeAll serialize v o mem

def dsize (o : OutMemStream) : UInt64 := o.cur - o.bgn

def freeSpace (o : OutMemStream) : UInt64 := o.«end» - o.cur

end OutMemStream

/-! ## Spans and stores -/

open UInt64

theorem add_natCast_add (a : UInt64) (m i : Nat) :
    a + (m + i).toUInt64 = a + m.toUInt64 + i.toUInt64 := by
  apply UInt64.ext
  simp only [toNat_add', toNat_natCast]
  omega

theorem add_natCast_sub_self (a : UInt64) (i : Nat) (h : i < 2 ^ 64) :
    (a + i.toUInt64 - a).toNat = i := by
  have := UInt64.toNat_lt a
  simp only [toNat_sub', toNat_add', toNat_natCast]
  omega

@[simp] theorem length_span (a : UInt64) (n : Nat) : (span a n).length = n := by
  simp [span]

theorem span_add (a : UInt64) (m n : Nat) :
    span a (m + n) = span a m ++ span (a + m.toUInt64) n := by
  simp only [span, List.range_add, List.map_append, List.map_map]
  congr 1
  exact List.map_congr_left fun i _ => add_natCast_add a m i

/-- Reading back what `store` wrote. -/
theorem map_store_span (mem : Mem) (a : UInt64) (p : List UInt8) (hp : p.length < 2 ^ 64) :
    (span a p.length).map (store mem a p) = p := by
  apply List.ext_getElem (by simp)
  intro i h₁ h₂
  have e : (a + i.toUInt64 - a).toNat = i := add_natCast_sub_self a i (by omega)
  simp only [span, List.getElem_map, List.getElem_range, store, e, if_pos h₂]
  simp [h₂]

/-- `store` leaves every address it does not write. -/
theorem map_store_span_of_far (mem : Mem) (a b : UInt64) (p : List UInt8) (n : Nat)
    (h : ∀ i < n, p.length ≤ (b + i.toUInt64 - a).toNat) :
    (span b n).map (store mem a p) = (span b n).map mem := by
  simp only [span, List.map_map]
  exact List.map_congr_left fun i hi => by
    simp [store, Nat.not_lt.2 (h i (List.mem_range.1 hi))]

/-- Two `memcpy`s end to end are one: the second starts where the first ended. -/
theorem store_append (mem : Mem) (a : UInt64) (xs ys : List UInt8)
    (h : xs.length + ys.length < 2 ^ 64) :
    store (store mem a xs) (a + xs.length.toUInt64) ys = store mem a (xs ++ ys) := by
  funext x
  have hd := UInt64.toNat_lt (x - a)
  -- the second `memcpy` sees the offsets of the first shifted down by its length
  have e : (x - (a + xs.length.toUInt64)).toNat = (2 ^ 64 - xs.length + (x - a).toNat) % 2 ^ 64 := by
    rw [sub_add_eq_sub_sub, toNat_sub', toNat_natCast,
      Nat.mod_eq_of_lt (show xs.length < 2 ^ 64 by omega)]
  simp only [store, List.length_append, List.getD_eq_getElem?_getD, e]
  generalize (x - a).toNat = d at *
  by_cases h₁ : d < xs.length
  · rw [if_neg (by omega), if_pos h₁, if_pos (by omega), List.getElem?_append_left h₁]
  · have e' : (2 ^ 64 - xs.length + d) % 2 ^ 64 = d - xs.length := by omega
    rw [if_neg h₁, List.getElem?_append_right (by omega), e']
    by_cases h₂ : d < xs.length + ys.length
    · rw [if_pos (by omega), if_pos h₂]
    · rw [if_neg (by omega), if_neg h₂]

/-! ## What the streams do on well-formed buffers -/

def InMemStream.skip (s : InMemStream) (n : Nat) : InMemStream :=
  { s with cur := s.cur + n.toUInt64 }

def OutMemStream.skip (o : OutMemStream) (n : Nat) : OutMemStream :=
  { o with cur := o.cur + n.toUInt64 }

theorem InMemStream.skip_skip (s : InMemStream) (m n : Nat) : (s.skip m).skip n = s.skip (m + n) := by
  simp only [skip, add_natCast_add]

theorem OutMemStream.skip_skip (o : OutMemStream) (m n : Nat) : (o.skip m).skip n = o.skip (m + n) := by
  simp only [skip, add_natCast_add]

theorem add_natCast_zero (a : UInt64) : a + (0 : Nat).toUInt64 = a :=
  UInt64.ext (by have := UInt64.toNat_lt a; simp only [toNat_add', toNat_natCast]; omega)

@[simp] theorem InMemStream.skip_zero (s : InMemStream) : s.skip 0 = s := by
  simp only [skip, add_natCast_zero]

@[simp] theorem OutMemStream.skip_zero (o : OutMemStream) : o.skip 0 = o := by
  simp only [skip, add_natCast_zero]

/-- The unread bytes of `s` are `bytes`: they sit at `cur, cur+1, ...`, and
`end` comes right after them. -/
def Holds (mem : Mem) (s : InMemStream) (bytes : List UInt8) : Prop :=
  s.cur.toNat + bytes.length = s.«end».toNat ∧ (span s.cur bytes.length).map mem = bytes

/-- The bytes written so far are `data`: they sit at `bgn, bgn+1, ...`, and
`cur` comes right after them. -/
def Wrote (mem : Mem) (o : OutMemStream) (data : List UInt8) : Prop :=
  o.bgn.toNat + data.length = o.cur.toNat ∧ (span o.bgn data.length).map mem = data

theorem toNat_add_natCast_of_lt {a : UInt64} {n : Nat} (h : a.toNat + n < 2 ^ 64) :
    (a + n.toUInt64).toNat = a.toNat + n := by
  simp only [toNat_add', toNat_natCast]
  omega

/-- `read` of the first `xs.length` unread bytes returns them and leaves the rest. -/
theorem InMemStream.read_holds {mem : Mem} {s : InMemStream} {xs ys : List UInt8}
    (h : Holds mem s (xs ++ ys)) :
    s.read mem xs.length.toUInt64 = some (xs, s.skip xs.length) ∧
      Holds mem (s.skip xs.length) ys := by
  obtain ⟨hn, hb⟩ := h
  have he := UInt64.toNat_lt s.«end»
  simp only [List.length_append] at hn hb
  have hc : (s.cur + xs.length.toUInt64).toNat = s.cur.toNat + xs.length :=
    toNat_add_natCast_of_lt (by omega)
  rw [span_add, List.map_append] at hb
  obtain ⟨hx, hy⟩ := List.append_inj hb (by simp)
  have hsz : (xs.length.toUInt64).toNat = xs.length := by
    rw [toNat_natCast]; omega
  refine ⟨?_, by simp only [skip]; omega, hy⟩
  rw [read, if_pos (by rw [le_iff_toNat_le, hc]; omega), hsz, hx]
  rfl

/-- A `write` that fits appends its bytes after those already written. -/
theorem OutMemStream.write_wrote {mem : Mem} {o : OutMemStream} {data p : List UInt8}
    (h : Wrote mem o data) (hcap : o.cur.toNat + p.length ≤ o.«end».toNat) :
    o.write mem p = some (o.skip p.length, store mem o.cur p) ∧
      Wrote (store mem o.cur p) (o.skip p.length) (data ++ p) := by
  obtain ⟨hn, hb⟩ := h
  have he := UInt64.toNat_lt o.«end»
  have hc : (o.cur + p.length.toUInt64).toNat = o.cur.toNat + p.length :=
    toNat_add_natCast_of_lt (by omega)
  have hcur : o.bgn + data.length.toUInt64 = o.cur := by
    apply UInt64.ext; rw [toNat_add_natCast_of_lt (by omega)]; exact hn
  refine ⟨by rw [write, if_pos (by rw [le_iff_toNat_le, hc]; exact hcap)]; rfl,
    by simp only [skip, List.length_append]; omega, ?_⟩
  simp only [skip, List.length_append, span_add, List.map_append, hcur]
  rw [map_store_span _ _ _ (by omega), map_store_span_of_far, hb]
  intro i hi
  have hb' := UInt64.toNat_lt o.bgn
  simp only [toNat_sub', toNat_add', toNat_natCast]
  omega

/-! ## The assertion and the buffer -/

/-- When `cur + sz` does not wrap, a `read` whose assertion passes returns the
`sz` bytes at `cur, cur+1, ...`, all of them inside `[cur, end)`, and leaves the
cursor inside `[bgn, end]`. -/
theorem InMemStream.read_in_buffer (mem : Mem) (s : InMemStream) (sz : UInt64)
    (bytes : List UInt8) (s' : InMemStream) (hbc : s.bgn ≤ s.cur)
    (hw : s.cur.toNat + sz.toNat < 2 ^ 64) (h : s.read mem sz = some (bytes, s')) :
    bytes = (span s.cur sz.toNat).map mem ∧
      (∀ a ∈ span s.cur sz.toNat, s.cur ≤ a ∧ a < s.«end») ∧ s'.bgn ≤ s'.cur ∧ s'.cur ≤ s'.«end» := by
  unfold read at h
  split at h
  · rename_i hg
    cases h
    rw [le_iff_toNat_le, toNat_add', Nat.mod_eq_of_lt hw] at hg
    rw [le_iff_toNat_le] at hbc
    refine ⟨rfl, fun a ha => ?_, ?_⟩
    · obtain ⟨i, hi, rfl⟩ := List.mem_map.1 ha
      rw [List.mem_range] at hi
      rw [le_iff_toNat_le, lt_iff_toNat_lt, toNat_add_natCast_of_lt (by omega)]
      omega
    · simp only [le_iff_toNat_le, toNat_add', Nat.mod_eq_of_lt hw]
      omega
  · cases h

theorem InMemStream.read_in_buffer_sixteen :
    (⟨0, 0, 16⟩ : InMemStream).bgn ≤ (⟨0, 0, 16⟩ : InMemStream).cur ∧
      [0, 0, 0, 0, 0, 0, 0, 0] = (span 0 8).map (fun _ => (0 : UInt8)) ∧
      (∀ a ∈ span 0 8, 0 ≤ a ∧ a < 16) ∧
      (⟨0, 8, 16⟩ : InMemStream).bgn ≤ (⟨0, 8, 16⟩ : InMemStream).cur ∧
      (⟨0, 8, 16⟩ : InMemStream).cur ≤ (⟨0, 8, 16⟩ : InMemStream).«end» :=
  ⟨by decide, read_in_buffer (fun _ => 0) ⟨0, 0, 16⟩ 8 _ ⟨0, 8, 16⟩ (by decide) (by decide) rfl⟩

/-- A buffer of 16 bytes at `2^64 - 32` whose length prefix says 100: the
assertion of `toString` passes because `cur + 100` wraps to 76, the string is
copied from 100 addresses of which 8 lie in the buffer, and the cursor ends at
76, below `bgn`. The same wrap lets a `read` through on a buffer at an ordinary
address: 16 bytes at `0x1000` and `sz = 2^64 - 0x800`, far more than the 16
left, pass `cur + sz <= end` and leave the cursor at `0x800`, below `bgn`. -/
theorem toString_wraps_past_end :
    (inMemStream 0xffffffffffffffe0 16).toString
        (fun a => if a = 0xffffffffffffffe0 then 100 else 0) =
      some ((span 0xffffffffffffffe8 100).map
        (fun a => if a = 0xffffffffffffffe0 then 100 else 0),
        ⟨0xffffffffffffffe0, 76, 0xfffffffffffffff0⟩) ∧
    (span 0xffffffffffffffe8 100).countP
        (fun a => 0xffffffffffffffe0 ≤ a ∧ a < 0xfffffffffffffff0) = 8 ∧
    ¬ (0xffffffffffffffe0 : UInt64) ≤ 76 ∧
    ((inMemStream 0x1000 16).read (fun _ => 0) 0xfffffffffffff800).map Prod.snd =
      some ⟨0x1000, 0x800, 0x1010⟩ ∧
    ¬ (0xfffffffffffff800 : UInt64) ≤ 16 ∧ ¬ (0x1000 : UInt64) ≤ 0x800 := by
  decide

end QuantaDB.DSSN

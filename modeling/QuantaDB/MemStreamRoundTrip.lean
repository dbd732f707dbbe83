import QuantaDB.MemStreamIo

/-!
The round trip of `outMemStream` and `inMemStream` (MemStreamIo.h, MemStreamIoTest.cc):
items written in order into a buffer with room for them are read back, kind by
kind, from `inMemStream(buf, out.dsize())`. Each writer appends the bytes of
its item after those already written (`Appends`), each reader takes the bytes
of its item off the front of the unread ones (`Reads`); the round trip is the
two chained over the list of items.
-/

set_option autoImplicit false

namespace QuantaDB.DSSN

universe u

open QuantaDB UInt64

/-- A buffer `[buf, buf + sz)` of the address space: its end pointer does not
wrap past `2^64`. -/
structure Buffer where
  buf : UInt64
  sz : UInt64
  end_lt : buf.toNat + sz.toNat < 2 ^ 64

/-- A writer that appends `bytes` after the bytes already written, whenever
they fit before `end`. -/
def Appends (f : OutMemStream → Mem → Option (OutMemStream × Mem)) (bytes : List UInt8) :
    Prop :=
  ∀ o mem data, Wrote mem o data → o.cur.toNat + bytes.length ≤ o.«end».toNat →
    ∃ mem', f o mem = some (o.skip bytes.length, mem') ∧
      Wrote mem' (o.skip bytes.length) (data ++ bytes)

/-- A reader that returns `a` from a stream whose unread bytes start with
`bytes`, and consumes exactly them. -/
def Reads {α : Type u} (mem : Mem) (g : InMemStream → Option (α × InMemStream)) (a : α)
    (bytes : List UInt8) : Prop :=
  ∀ s rest, Holds mem s (bytes ++ rest) → g s = some (a, s.skip bytes.length)

/-- An element type of `writeVector` and `toVector`. `serialize(out)` makes one
`write` per chunk of `chunks t`; the constructor `T(in)` rebuilds `t` from a
stream whose unread bytes start with those chunks, consuming exactly them. -/
structure Codec (T : Type) where
  chunks : T → List (List UInt8)
  construct : Mem → InMemStream → Option (T × InMemStream)
  construct_reads : ∀ mem t, Reads mem (construct mem) t (chunks t).flatten

/-- One item of the stream; a vector carries its element type's codec, so one
stream may hold vectors of different element types. -/
inductive Item : Type 1 where
  | raw (bytes : List UInt8)
  | string (s : List UInt8)
  | vector {T : Type} (c : Codec T) (v : List T)

/-- What the reader asks for: a raw block of `sz` bytes, a string, a vector of
the element type `c` constructs. -/
inductive Kind : Type 1 where
  | raw (sz : UInt64)
  | string
  | vector {T : Type} (c : Codec T)

variable {T : Type}

namespace Codec

/-- The bytes `t.serialize(out)` writes. -/
def enc (c : Codec T) (t : T) : List UInt8 := (c.chunks t).flatten

/-- `t.serialize(out)`: one `write` per chunk. -/
def serialize (c : Codec T) (t : T) (o : OutMemStream) (mem : Mem) :
    Option (OutMemStream × Mem) :=
  OutMemStream.serializeAll (fun p o mem => o.write mem p) (c.chunks t) o mem

end Codec

namespace Item

/-- A `std::vector`'s `size()` is a `size_t`. -/
def SizeFits : Item → Prop
  | .vector _ v => v.length < 2 ^ 64
  | _ => True

instance : DecidablePred SizeFits
  | .vector _ v => inferInstanceAs (Decidable (v.length < 2 ^ 64))
  | .raw _ => inferInstanceAs (Decidable True)
  | .string _ => inferInstanceAs (Decidable True)

def kind : Item → Kind
  | .raw bytes => .raw bytes.length.toUInt64
  | .string _ => .string
  | .vector c _ => .vector c

def encode : Item → List UInt8
  | .raw bytes => bytes
  | .string s => bytesLE 8 s.length ++ s
  | .vector c v => bytesLE 8 v.length ++ (v.map c.enc).flatten

end Item

/-- `write(p, sz)`, `write(s)` or `writeVector(v)`, by the item's kind. -/
def writeItem (o : OutMemStream) (mem : Mem) : Item → Option (OutMemStream × Mem)
  | .raw bytes => o.write mem bytes
  | .string s => o.writeString mem s
  | .vector c v => o.writeVector c.serialize mem v

def writeItems (items : List Item) (o : OutMemStream) (mem : Mem) :
    Option (OutMemStream × Mem) :=
  OutMemStream.serializeAll (fun it o mem => writeItem o mem it) items o mem

/-- `read(p, sz)`, `toString(s)` or `toVector(v)`, by the kind asked for. -/
def readItem (mem : Mem) (s : InMemStream) : Kind → Option (Item × InMemStream)
  | .raw sz => (s.read mem sz).map fun (b, s) => (.raw b, s)
  | .string => (s.toString mem).map fun (b, s) => (.string b, s)
  | .vector c => (s.toVector c.construct mem).map fun (v, s) => (.vector c v, s)

def readItems (mem : Mem) : List Kind → InMemStream → Option (List Item × InMemStream)
  | [], s => some ([], s)
  | k :: ks, s => do
    let (it, s) ← readItem mem s k
    let (its, s) ← readItems mem ks s
    pure (it :: its, s)

/-! ## Writers -/

theorem write_appends (p : List UInt8) : Appends (fun o mem => o.write mem p) p :=
  fun _ _ _ h hcap => ⟨_, (OutMemStream.write_wrote h hcap).1, (OutMemStream.write_wrote h hcap).2⟩

theorem Appends.bind {f g : OutMemStream → Mem → Option (OutMemStream × Mem)}
    {xs ys : List UInt8} (hf : Appends f xs) (hg : Appends g ys) :
    Appends (fun o mem => (f o mem).bind fun r => g r.1 r.2) (xs ++ ys) := by
  intro o mem data h hcap
  have he := UInt64.toNat_lt o.«end»
  simp only [List.length_append] at hcap
  obtain ⟨m₁, e₁, w₁⟩ := hf o mem data h (by omega)
  have hc : (o.skip xs.length).cur.toNat = o.cur.toNat + xs.length :=
    toNat_add_natCast_of_lt (by omega)
  obtain ⟨m₂, e₂, w₂⟩ := hg _ m₁ _ w₁ (by rw [hc]; exact Nat.add_assoc _ _ _ ▸ hcap)
  refine ⟨m₂, ?_, ?_⟩
  · simp only [e₁, Option.some_bind, e₂, OutMemStream.skip_skip, List.length_append]
  · simpa only [OutMemStream.skip_skip, List.length_append, List.append_assoc] using w₂

theorem serializeAll_appends {α : Type u} {w : α → OutMemStream → Mem → Option (OutMemStream × Mem)}
    {enc : α → List UInt8} (hw : ∀ a, Appends (w a) (enc a)) :
    ∀ l, Appends (OutMemStream.serializeAll w l) (l.map enc).flatten
  | [] => fun _ mem _ h _ => ⟨mem, by simp [OutMemStream.serializeAll], by simpa using h⟩
  | a :: l => by
    simp only [List.map_cons, List.flatten_cons]
    exact (hw a).bind (serializeAll_appends hw l)

theorem Codec.serialize_appends (c : Codec T) (t : T) : Appends (c.serialize t) (c.enc t) := by
  have h := serializeAll_appends write_appends (c.chunks t)
  rwa [List.map_id'] at h

theorem writeItem_appends (it : Item) :
    Appends (fun o mem => writeItem o mem it) it.encode := by
  cases it with
  | raw bytes => exact write_appends bytes
  | string str => exact (write_appends _).bind (write_appends str)
  | vector c v => exact (write_appends _).bind (serializeAll_appends c.serialize_appends v)

theorem writeItems_appends (items : List Item) :
    Appends (writeItems items) (items.map Item.encode).flatten :=
  serializeAll_appends writeItem_appends items

/-! ## Readers -/

theorem Holds.skip {mem : Mem} {s : InMemStream} {xs ys : List UInt8}
    (h : Holds mem s (xs ++ ys)) : Holds mem (s.skip xs.length) ys :=
  (InMemStream.read_holds h).2

theorem read_reads (mem : Mem) (xs : List UInt8) :
    Reads mem (fun s => s.read mem xs.length.toUInt64) xs xs :=
  fun _ _ h => (InMemStream.read_holds h).1

theorem Reads.bind {α β : Type u} {mem : Mem} {g : InMemStream → Option (α × InMemStream)}
    {a : α} {b : β} {xs ys : List UInt8} (hg : Reads mem g a xs)
    (k : α → InMemStream → Option (β × InMemStream)) (hk : Reads mem (k a) b ys) :
    Reads mem (fun s => (g s).bind fun r => k r.1 r.2) b (xs ++ ys) := by
  intro s rest h
  rw [List.append_assoc] at h
  simp only [hg s _ h, Option.some_bind, hk _ rest h.skip, InMemStream.skip_skip,
    List.length_append]

theorem Reads.map {α : Type} {β : Type u} {mem : Mem} {g : InMemStream → Option (α × InMemStream)}
    {a : α} {xs : List UInt8} (hg : Reads mem g a xs) (f : α → β) :
    Reads mem (fun s => (g s).map fun r => (f r.1, r.2)) (f a) xs := by
  intro s rest h
  simp only [hg s rest h, Option.map_some']

theorem Reads.bind_some {α β : Type u} {mem : Mem} {g : InMemStream → Option (α × InMemStream)}
    {a : α} {xs : List UInt8} (hg : Reads mem g a xs) (f : α → β) :
    Reads mem (fun s => (g s).bind fun r => some (f r.1, r.2)) (f a) xs := by
  intro s rest h
  simp only [hg s rest h, Option.some_bind]

/-- The `size_t` prefix of a count below `2^64` reads back as that count. -/
theorem read_size_reads (mem : Mem) (n : Nat) :
    Reads mem (fun s => s.read mem 8) (bytesLE 8 n) (bytesLE 8 n) := by
  simpa using read_reads mem (bytesLE 8 n)

theorem valueLE_bytesLE_eight {n : Nat} (h : n < 2 ^ 64) : valueLE (bytesLE 8 n) = n := by
  rw [valueLE_bytesLE]; omega

theorem toString_reads (mem : Mem) (str : List UInt8) :
    Reads mem (fun s => s.toString mem) str (bytesLE 8 str.length ++ str) := by
  have hv : (valueLE (bytesLE 8 str.length)).toUInt64 = str.length.toUInt64 := by
    apply UInt64.ext; simp only [toNat_natCast, valueLE_bytesLE]; omega
  exact (read_size_reads mem str.length).bind (fun b s => s.read mem (valueLE b).toUInt64)
    (by simpa only [hv] using read_reads mem str)

theorem readElems_reads (mem : Mem) (c : Codec T) :
    ∀ v : List T, Reads mem (InMemStream.readElems c.construct mem v.length) v
      (v.map c.enc).flatten
  | [] => fun s _ _ => by simp [InMemStream.readElems]
  | t :: v => by
    have h := (c.construct_reads mem t).bind
      (fun t s => (InMemStream.readElems c.construct mem v.length s).bind
        fun r => some (t :: r.1, r.2))
      ((readElems_reads mem c v).bind_some (t :: ·))
    simpa only [List.map_cons, List.flatten_cons] using h

theorem toVector_reads (mem : Mem) (c : Codec T) (v : List T) (hv : v.length < 2 ^ 64) :
    Reads mem (fun s => s.toVector c.construct mem) v
      (bytesLE 8 v.length ++ (v.map c.enc).flatten) :=
  (read_size_reads mem v.length).bind (fun b s => InMemStream.readElems c.construct mem (valueLE b) s)
    (by simpa only [valueLE_bytesLE_eight hv] using readElems_reads mem c v)

theorem readItem_reads (mem : Mem) (it : Item) (hit : it.SizeFits) :
    Reads mem (fun s => readItem mem s it.kind) it it.encode := by
  cases it with
  | raw bytes => exact (read_reads mem bytes).map Item.raw
  | string str => exact (toString_reads mem str).map Item.string
  | vector c v => exact (toVector_reads mem c v hit).map (Item.vector c)

theorem readItems_reads (mem : Mem) :
    ∀ items : List Item, (∀ it ∈ items, it.SizeFits) →
      Reads mem (readItems mem (items.map Item.kind)) items (items.map Item.encode).flatten
  | [], _ => fun s _ _ => by simp [readItems]
  | it :: items, h => by
    have hr := (readItem_reads mem it (h it (.head _))).bind
      (fun it s => (readItems mem (items.map Item.kind) s).bind fun r => some (it :: r.1, r.2))
      ((readItems_reads mem items fun i hi => h i (.tail _ hi)).bind_some (it :: ·))
    simpa only [List.map_cons, List.flatten_cons] using hr

/-! ## The round trip -/

theorem wrote_outMemStream (mem : Mem) (buf sz : UInt64) : Wrote mem (outMemStream buf sz) [] := by
  simp [Wrote, outMemStream, span]

/-- `inMemStream(buf, n)` over the `n` bytes an `outMemStream` on `buf` wrote
holds exactly those bytes. -/
theorem holds_inMemStream {mem : Mem} {buf sz : UInt64} {data : List UInt8}
    (h : Wrote mem ((outMemStream buf sz).skip data.length) data)
    (hn : buf.toNat + data.length < 2 ^ 64) :
    ((outMemStream buf sz).skip data.length).dsize = data.length.toUInt64 ∧
      Holds mem (inMemStream buf data.length.toUInt64) data := by
  refine ⟨UInt64.ext ?_, ?_, h.2⟩
  · simp only [OutMemStream.dsize, OutMemStream.skip, outMemStream]
    rw [add_natCast_sub_self _ _ (by omega), toNat_natCast, Nat.mod_eq_of_lt (by omega)]
  · simp only [inMemStream]
    rw [toNat_add_natCast_of_lt hn]

/-- Items written in order by `write`, `write(string)` and `writeVector` into a
buffer with room for them are read back, the same kinds in the same order, from
`inMemStream(buf, out.dsize())`: no assertion fails, and nothing is left unread. -/
theorem memStream_round_trip (items : List Item) (b : Buffer) (mem : Mem)
    (hfit : ∀ it ∈ items, it.SizeFits)
    (hcap : (items.map Item.encode).flatten.length ≤ b.sz.toNat) :
    ∃ o mem', writeItems items (outMemStream b.buf b.sz) mem = some (o, mem') ∧
      ∃ s, readItems mem' (items.map Item.kind) (inMemStream b.buf o.dsize) = some (items, s) ∧
        s.dsize = 0 := by
  have hb := b.end_lt
  have he : (b.buf + b.sz).toNat = b.buf.toNat + b.sz.toNat := by
    rw [toNat_add', Nat.mod_eq_of_lt hb]
  obtain ⟨mem', hw, hwrote⟩ := writeItems_appends items (outMemStream b.buf b.sz) mem []
    (wrote_outMemStream mem _ _) (by simp only [outMemStream, he]; omega)
  rw [List.nil_append] at hwrote
  obtain ⟨hd, hh⟩ := holds_inMemStream hwrote (by omega)
  refine ⟨_, mem', hw, _,
    by rw [hd]; exact readItems_reads mem' items hfit _ [] (by rwa [List.append_nil]), ?_⟩
  simp only [InMemStream.dsize, InMemStream.skip, inMemStream, List.append_nil, hd]
  exact sub_self _

/-- The element type of one byte: `serialize` writes it, `T(in)` reads it. -/
def byteCodec : Codec UInt8 where
  chunks b := [[b]]
  construct mem s := (s.read mem 1).bind fun r => r.1.head?.map (·, r.2)
  construct_reads mem b s rest h := by
    have e : s.read mem [b].length.toUInt64 = some ([b], s.skip [b].length) :=
      read_reads mem [b] s rest h
    show (s.read mem [b].length.toUInt64).bind _ = _
    rw [e]
    rfl

theorem memStream_round_trip_sample :
    (∀ it ∈ [Item.raw [1, 2], .string [104, 105], .vector byteCodec [7, 8, 9]], it.SizeFits) ∧
    ∃ o mem', writeItems [.raw [1, 2], .string [104, 105], .vector byteCodec [7, 8, 9]]
        (outMemStream 4096 64) (fun _ => 0) = some (o, mem') ∧
      ∃ s, readItems mem' [.raw 2, .string, .vector byteCodec] (inMemStream 4096 o.dsize) =
        some ([.raw [1, 2], .string [104, 105], .vector byteCodec [7, 8, 9]], s) ∧
          s.dsize = 0 :=
  ⟨by decide, memStream_round_trip _ ⟨4096, 64, by decide⟩ _ (by decide) (by decide)⟩

end QuantaDB.DSSN

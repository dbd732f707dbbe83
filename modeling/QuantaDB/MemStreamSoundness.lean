import QuantaDB.MemStreamRoundTrip

/-!
The converse of the MemStream round trip (MemStreamIo.h). On the reading side,
whatever the readers accept is an encoding: when `readItems` returns items, on
any memory and from any stream, the bytes from `cur` on are exactly their
encoding and the cursor has moved just past them. On the writing side, the
writers' chain of `write`s, each under its own assertion, is one bounds check
and one `memcpy` of the whole encoding, as long as the encoding does not reach
past `2^64`.
-/

set_option autoImplicit false

namespace QuantaDB.DSSN

universe u

open QuantaDB UInt64

variable {T : Type}

/-! ## Readers -/

/-- `s'` is `s` after reading `bytes` from `cur` on. -/
def ReadFrom (mem : Mem) (s s' : InMemStream) (bytes : List UInt8) : Prop :=
  s' = s.skip bytes.length ∧ (span s.cur bytes.length).map mem = bytes

/-- A reader that, whenever it returns `a`, read the bytes `enc a`. -/
def ReadsBack {α : Type} (mem : Mem) (g : InMemStream → Option (α × InMemStream))
    (enc : α → List UInt8) : Prop :=
  ∀ s a s', g s = some (a, s') → ReadFrom mem s s' (enc a)

/-- The element constructor of a vector kind reads back what it returns. -/
def Kind.ElemReadsBack (mem : Mem) : Kind → Prop
  | .vector c => ReadsBack mem (c.construct mem) c.enc
  | _ => True

section

variable {mem : Mem} {s s₁ s₂ : InMemStream}

theorem ReadFrom.nil (mem : Mem) (s : InMemStream) : ReadFrom mem s s [] :=
  ⟨(InMemStream.skip_zero s).symm, rfl⟩

theorem ReadFrom.append {xs ys : List UInt8} (h₁ : ReadFrom mem s s₁ xs)
    (h₂ : ReadFrom mem s₁ s₂ ys) : ReadFrom mem s s₂ (xs ++ ys) := by
  obtain ⟨rfl, hx⟩ := h₁
  obtain ⟨rfl, hy⟩ := h₂
  refine ⟨by rw [InMemStream.skip_skip, List.length_append], ?_⟩
  rw [List.length_append, span_add, List.map_append, hx]
  exact congrArg (xs ++ ·) hy

/-- `read(p, sz)` returns `sz` bytes, those from `cur` on. -/
theorem InMemStream.read_readFrom {sz : UInt64} {bytes : List UInt8}
    (h : s.read mem sz = some (bytes, s₁)) : bytes.length = sz.toNat ∧ ReadFrom mem s s₁ bytes := by
  unfold InMemStream.read at h
  split at h
  · cases h
    refine ⟨by simp, ?_, by simp⟩
    simp only [List.length_map, length_span, InMemStream.skip, UInt64.natCast_toNat]
  · cases h

/-- The `size_t` prefix read back as bytes is the 8 bytes of its value. -/
theorem bytesLE_valueLE_eight {b : List UInt8} (hb : b.length = 8) :
    bytesLE 8 (valueLE b).toUInt64.toNat = b := by
  have := valueLE_lt b
  rw [hb] at this
  rw [toNat_natCast, Nat.mod_eq_of_lt (by omega), ← hb, bytesLE_valueLE]

/-- `toString` returns a string whose `size_t` length and bytes were read from `cur` on. -/
theorem InMemStream.toString_readFrom {str : List UInt8} (h : s.toString mem = some (str, s₁)) :
    ReadFrom mem s s₁ (bytesLE 8 str.length ++ str) := by
  simp only [InMemStream.toString, Option.bind_eq_bind, Option.bind_eq_some] at h
  obtain ⟨⟨b, s'⟩, h₁, h₂⟩ := h
  obtain ⟨hb, r₁⟩ := InMemStream.read_readFrom h₁
  obtain ⟨hs, r₂⟩ := InMemStream.read_readFrom h₂
  rw [hs, bytesLE_valueLE_eight hb]
  exact r₁.append r₂

theorem readElems_readFrom (c : Codec T) (hc : ReadsBack mem (c.construct mem) c.enc) :
    ∀ (n : Nat) (s s₁ : InMemStream) (v : List T),
      InMemStream.readElems c.construct mem n s = some (v, s₁) →
        v.length = n ∧ ReadFrom mem s s₁ (v.map c.enc).flatten
  | 0, s, s₁, v, h => by
    simp only [InMemStream.readElems, Option.some.injEq, Prod.mk.injEq] at h
    obtain ⟨rfl, rfl⟩ := h
    exact ⟨rfl, ReadFrom.nil mem s⟩
  | n + 1, s, s₁, v, h => by
    simp only [InMemStream.readElems, Option.bind_eq_bind, Option.bind_eq_some, Option.pure_def,
      Option.some.injEq] at h
    obtain ⟨⟨t, s'⟩, h₁, ⟨ts, s''⟩, h₂, he⟩ := h
    simp only [Prod.mk.injEq] at he
    obtain ⟨rfl, rfl⟩ := he
    obtain ⟨hl, r₂⟩ := readElems_readFrom c hc n s' s'' ts h₂
    exact ⟨by simp [hl], (hc s t s' h₁).append r₂⟩

/-- `toVector` returns elements whose `size_t` count and encodings were read from `cur` on. -/
theorem InMemStream.toVector_readFrom (c : Codec T) (hc : ReadsBack mem (c.construct mem) c.enc)
    {v : List T} (h : s.toVector c.construct mem = some (v, s₁)) :
    ReadFrom mem s s₁ (bytesLE 8 v.length ++ (v.map c.enc).flatten) := by
  simp only [InMemStream.toVector, Option.bind_eq_bind, Option.bind_eq_some] at h
  obtain ⟨⟨b, s'⟩, h₁, h₂⟩ := h
  obtain ⟨hb, r₁⟩ := InMemStream.read_readFrom h₁
  obtain ⟨hl, r₂⟩ := readElems_readFrom c hc _ _ _ _ h₂
  have hb8 : b.length = 8 := hb
  have hv : bytesLE 8 v.length = b := by
    rw [hl, ← hb8, bytesLE_valueLE]
  rw [hv]
  exact r₁.append r₂

theorem readItem_readFrom (k : Kind) (hc : k.ElemReadsBack mem) {it : Item}
    (h : readItem mem s k = some (it, s₁)) : it.kind = k ∧ ReadFrom mem s s₁ it.encode := by
  cases k with
  | raw sz =>
    simp only [readItem, Option.map_eq_some'] at h
    obtain ⟨⟨b, s'⟩, h₁, he⟩ := h
    cases he
    obtain ⟨hb, r⟩ := InMemStream.read_readFrom h₁
    exact ⟨by rw [Item.kind, hb, UInt64.natCast_toNat], r⟩
  | string =>
    simp only [readItem, Option.map_eq_some'] at h
    obtain ⟨⟨b, s'⟩, h₁, he⟩ := h
    cases he
    exact ⟨rfl, InMemStream.toString_readFrom h₁⟩
  | vector c =>
    simp only [readItem, Option.map_eq_some'] at h
    obtain ⟨⟨v, s'⟩, h₁, he⟩ := h
    cases he
    exact ⟨rfl, InMemStream.toVector_readFrom c hc h₁⟩

end

/-- Whatever `readItems` accepts is an encoding: on any memory and from any
stream, when it returns `items`, they have the kinds asked for, the bytes from
`cur` on are exactly their encoding, and the cursor has moved just past it. -/
theorem readItems_accepts_encoding (mem : Mem) (ks : List Kind)
    (hc : ∀ k ∈ ks, k.ElemReadsBack mem) (s s' : InMemStream) (items : List Item)
    (h : readItems mem ks s = some (items, s')) :
    items.map Item.kind = ks ∧ ReadFrom mem s s' (items.map Item.encode).flatten := by
  induction ks generalizing s items with
  | nil =>
    simp only [readItems, Option.some.injEq, Prod.mk.injEq] at h
    obtain ⟨rfl, rfl⟩ := h
    exact ⟨rfl, ReadFrom.nil mem s⟩
  | cons k ks ih =>
    simp only [readItems, Option.bind_eq_bind, Option.bind_eq_some, Option.pure_def,
      Option.some.injEq] at h
    obtain ⟨⟨it, s₁⟩, h₁, ⟨its, s₂⟩, h₂, he⟩ := h
    simp only [Prod.mk.injEq] at he
    obtain ⟨rfl, rfl⟩ := he
    obtain ⟨hk, r₁⟩ := readItem_readFrom k (hc k (.head _)) h₁
    obtain ⟨hks, r₂⟩ := ih (fun k' hk' => hc k' (.tail _ hk')) s₁ its h₂
    refine ⟨by rw [List.map_cons, hk, hks], ?_⟩
    simpa only [List.map_cons, List.flatten_cons] using r₁.append r₂

/-- The one-byte element type reads back what it read. -/
theorem byteCodec_readsBack (mem : Mem) : ReadsBack mem (byteCodec.construct mem) byteCodec.enc := by
  intro s b s' h
  simp only [byteCodec, Option.bind_eq_some, Option.map_eq_some'] at h
  obtain ⟨⟨bs, s₁⟩, h₁, c, hc, he⟩ := h
  obtain ⟨hl, r⟩ := InMemStream.read_readFrom h₁
  simp only [Prod.mk.injEq] at he
  obtain ⟨rfl, rfl⟩ := he
  match bs, hl, hc with
  | [b], _, rfl => exact r

/-- A `size_t` length of 1 at address 2: a raw block of two bytes, the string of
the one byte after the prefix, and a vector of none. -/
theorem readItems_accepts_encoding_sample :
    (∀ k ∈ [Kind.raw 2, .string, .vector byteCodec],
        k.ElemReadsBack fun a => if a = 2 then 1 else 0) ∧
      readItems (fun a => if a = 2 then 1 else 0) [.raw 2, .string, .vector byteCodec]
        (inMemStream 0 64) = some ([.raw [0, 0], .string [0], .vector byteCodec []], ⟨0, 19, 64⟩) ∧
      [Item.raw [0, 0], .string [0], .vector byteCodec []].map Item.kind =
          [.raw 2, .string, .vector byteCodec] ∧
        ReadFrom (fun a => if a = 2 then 1 else 0) (inMemStream 0 64) ⟨0, 19, 64⟩
          ([Item.raw [0, 0], .string [0], .vector byteCodec []].map Item.encode).flatten := by
  have hc : ∀ k ∈ [Kind.raw 2, .string, .vector byteCodec],
      k.ElemReadsBack fun a => if a = 2 then 1 else 0 := by
    simp only [List.forall_mem_cons]
    exact ⟨trivial, trivial, byteCodec_readsBack _, fun _ h => nomatch h⟩
  exact ⟨hc, rfl, readItems_accepts_encoding _ _ hc _ _ _ rfl⟩

/-! ## Writers -/

/-- A writer of `bytes` shorter than `2^64` that, whenever it succeeds, moved the
cursor past them and stored them at the old cursor: one `memcpy`. -/
def Stores (f : OutMemStream → Mem → Option (OutMemStream × Mem)) (bytes : List UInt8) : Prop :=
  bytes.length < 2 ^ 64 → ∀ o mem o' mem', f o mem = some (o', mem') →
    o' = o.skip bytes.length ∧ mem' = store mem o.cur bytes

/-- A writer that fails, from a stream holding what was written and not past its
end, when `bytes` would pass `end` without reaching `2^64`. -/
def FailsPast (f : OutMemStream → Mem → Option (OutMemStream × Mem)) (bytes : List UInt8) :
    Prop :=
  ∀ o mem data, Wrote mem o data → o.cur.toNat ≤ o.«end».toNat →
    o.«end».toNat < o.cur.toNat + bytes.length → o.cur.toNat + bytes.length < 2 ^ 64 →
      f o mem = none

section

variable {f g : OutMemStream → Mem → Option (OutMemStream × Mem)} {xs ys : List UInt8}

theorem write_stores (p : List UInt8) : Stores (fun o mem => o.write mem p) p := by
  intro _ o mem o' mem' h
  dsimp only [OutMemStream.write] at h
  split at h
  · cases h
    exact ⟨rfl, rfl⟩
  · cases h

theorem write_failsPast (p : List UInt8) : FailsPast (fun o mem => o.write mem p) p := by
  intro o mem _ _ _ hend hw
  dsimp only [OutMemStream.write]
  rw [if_neg]
  rw [le_iff_toNat_le, toNat_add_natCast_of_lt hw]
  omega

theorem Stores.bind (hf : Stores f xs) (hg : Stores g ys) :
    Stores (fun o mem => do let (o, mem) ← f o mem; g o mem) (xs ++ ys) := by
  intro h o mem o' mem' he
  rw [List.length_append] at h
  simp only [Option.bind_eq_bind, Option.bind_eq_some] at he
  obtain ⟨⟨o₁, mem₁⟩, h₁, h₂⟩ := he
  obtain ⟨rfl, rfl⟩ := hf (by omega) o mem o₁ mem₁ h₁
  obtain ⟨rfl, rfl⟩ := hg (by omega) _ _ o' mem' h₂
  exact ⟨by rw [OutMemStream.skip_skip, List.length_append], store_append mem o.cur xs ys h⟩

theorem FailsPast.bind (hf : Appends f xs) (hf' : FailsPast f xs) (hg' : FailsPast g ys) :
    FailsPast (fun o mem => do let (o, mem) ← f o mem; g o mem) (xs ++ ys) := by
  intro o mem data hd hce hend hw
  simp only [Option.bind_eq_bind]
  rw [List.length_append] at hend hw
  by_cases hfit : o.cur.toNat + xs.length ≤ o.«end».toNat
  · obtain ⟨mem', e, hd'⟩ := hf o mem data hd hfit
    have hc : (o.skip xs.length).cur.toNat = o.cur.toNat + xs.length :=
      toNat_add_natCast_of_lt (by omega)
    rw [e, Option.some_bind]
    exact hg' _ mem' _ hd' (by rw [hc]; exact hfit) (by rw [hc]; exact Nat.add_assoc _ _ _ ▸ hend)
      (by rw [hc]; omega)
  · rw [hf' o mem data hd hce (by omega) (by omega), Option.none_bind]

theorem serializeAll_stores {α : Type u} {w : α → OutMemStream → Mem → Option (OutMemStream × Mem)}
    {enc : α → List UInt8} (hw : ∀ a, Stores (w a) (enc a)) :
    ∀ l, Stores (OutMemStream.serializeAll w l) (l.map enc).flatten
  | [] => fun _ o mem o' mem' h => by
    simp only [OutMemStream.serializeAll, Option.some.injEq, Prod.mk.injEq] at h
    obtain ⟨rfl, rfl⟩ := h
    refine ⟨(OutMemStream.skip_zero o).symm, ?_⟩
    funext x
    simp [store]
  | a :: l => by
    simp only [List.map_cons, List.flatten_cons]
    exact (hw a).bind (serializeAll_stores hw l)

theorem serializeAll_failsPast {α : Type u}
    {w : α → OutMemStream → Mem → Option (OutMemStream × Mem)} {enc : α → List UInt8}
    (hw : ∀ a, Appends (w a) (enc a)) (hw' : ∀ a, FailsPast (w a) (enc a)) :
    ∀ l, FailsPast (OutMemStream.serializeAll w l) (l.map enc).flatten
  | [] => fun _ _ _ _ hce hend _ => by
    simp only [List.map_nil, List.flatten_nil, List.length_nil, Nat.add_zero] at hend
    omega
  | a :: l => by
    simp only [List.map_cons, List.flatten_cons]
    exact FailsPast.bind (hw a) (hw' a) (serializeAll_failsPast hw hw' l)

end

theorem Codec.serialize_stores (c : Codec T) (t : T) : Stores (c.serialize t) (c.enc t) := by
  have h := serializeAll_stores write_stores (c.chunks t)
  rwa [List.map_id'] at h

theorem Codec.serialize_failsPast (c : Codec T) (t : T) : FailsPast (c.serialize t) (c.enc t) := by
  have h := serializeAll_failsPast write_appends write_failsPast (c.chunks t)
  rwa [List.map_id'] at h

theorem writeItem_stores (it : Item) : Stores (fun o mem => writeItem o mem it) it.encode := by
  cases it with
  | raw bytes => exact write_stores bytes
  | string str => exact (write_stores _).bind (write_stores str)
  | vector c v => exact (write_stores _).bind (serializeAll_stores c.serialize_stores v)

theorem writeItem_failsPast (it : Item) : FailsPast (fun o mem => writeItem o mem it) it.encode := by
  cases it with
  | raw bytes => exact write_failsPast bytes
  | string str => exact FailsPast.bind (write_appends _) (write_failsPast _) (write_failsPast str)
  | vector c v =>
    exact FailsPast.bind (write_appends _) (write_failsPast _)
      (serializeAll_failsPast c.serialize_appends c.serialize_failsPast v)

/-- On a buffer whose end does not wrap, writing items in order is one bounds
check and one `memcpy` of their encoding: when it fits, the stream ends just
past it and the memory is the old one with the encoding stored at `buf`, and
nothing else changed; when it does not fit, an assertion fails. The encoding
must not reach `2^64` from `buf`, or the assertion's sum wraps. -/
theorem writeItems_eq_store (items : List Item) (b : Buffer) (mem : Mem)
    (hw : b.buf.toNat + (items.map Item.encode).flatten.length < 2 ^ 64) :
    writeItems items (outMemStream b.buf b.sz) mem =
      if (items.map Item.encode).flatten.length ≤ b.sz.toNat then
        some ((outMemStream b.buf b.sz).skip (items.map Item.encode).flatten.length,
          store mem b.buf (items.map Item.encode).flatten)
      else none := by
  have he : (outMemStream b.buf b.sz).«end».toNat = b.buf.toNat + b.sz.toNat := by
    rw [outMemStream, toNat_add', Nat.mod_eq_of_lt b.end_lt]
  split_ifs with hfit
  · obtain ⟨mem', e, -⟩ := writeItems_appends items (outMemStream b.buf b.sz) mem []
      (wrote_outMemStream mem _ _) (by simp only [he]; exact Nat.add_le_add_left hfit _)
    obtain ⟨-, rfl⟩ := serializeAll_stores writeItem_stores items (by omega) _ _ _ _ e
    exact e
  · have hc : (outMemStream b.buf b.sz).cur.toNat = b.buf.toNat := rfl
    exact serializeAll_failsPast writeItem_appends writeItem_failsPast items _ mem []
      (wrote_outMemStream mem _ _) (by rw [hc, he]; omega) (by rw [hc, he]; omega)
      (by rw [hc]; exact hw)

/-- Three items whose encoding takes 30 bytes, into a buffer of 8: an assertion fails. -/
theorem writeItems_eq_store_short_buffer :
    4096 + ([Item.raw [1, 2], .string [104, 105], .vector byteCodec [7, 8, 9]].map
        Item.encode).flatten.length < 2 ^ 64 ∧
      writeItems [.raw [1, 2], .string [104, 105], .vector byteCodec [7, 8, 9]]
          (outMemStream 4096 8) (fun _ => 0) =
        if ([Item.raw [1, 2], .string [104, 105], .vector byteCodec [7, 8, 9]].map
            Item.encode).flatten.length ≤ (8 : UInt64).toNat then
          some ((outMemStream 4096 8).skip
              ([Item.raw [1, 2], .string [104, 105], .vector byteCodec [7, 8, 9]].map
                Item.encode).flatten.length,
            store (fun _ => 0) 4096
              ([Item.raw [1, 2], .string [104, 105], .vector byteCodec [7, 8, 9]].map
                Item.encode).flatten)
        else none :=
  ⟨by decide, writeItems_eq_store _ ⟨4096, 8, by decide⟩ _ (by decide)⟩

end QuantaDB.DSSN

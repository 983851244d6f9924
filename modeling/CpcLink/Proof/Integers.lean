/-
  An `int` on the wire (packet.c, command.c): the high half first, each half with
  its low byte first.

  `add_int_to_packet` takes the bytes off with arithmetic shifts, so those of a
  negative number too, and `get_command_next_32bit_param_bin` puts them together
  without a sign and casts.  Both are one bijection between the values of an
  `int` and four bytes (`int_transparent`).
-/
import CpcLink.Proof.Fifo
import CpcLink.Proof.Params

namespace CpcLink

/-- The value that four bytes have, in the order in which they are read. -/
def intOf (b0 b1 b2 b3 : BYTE) : ℤ :=
  wrap32 (b3.toNat * 256 + (b2.toNat + (b1.toNat * 256 + b0.toNat) * 2 ^ 16))

/-! ## Values and bytes -/

theorem toNat_byte_int (x : ℤ) : ((byte x).toNat : ℤ) = x % 256 := by
  rw [byte, UInt8.toNat_ofNat']
  omega

theorem byte_eq_iff {x : ℤ} {b : BYTE} : byte x = b ↔ x % 256 = b.toNat := by
  rw [← UInt8.toNat_inj, ← Int.natCast_inj, toNat_byte_int]

/-- An `int` is its value without a sign, as the cast leaves it. -/
theorem wrap32_emod (x : ℤ) : wrap32 x % 2 ^ 32 = x % 2 ^ 32 := by
  unfold wrap32
  exact Int.bmod_emod

/-- The bytes are the digits of the value without a sign. -/
theorem digits_sum (x : ℤ) : x / 2 ^ 8 % 256 * 256 + (x % 256 +
    (x / 2 ^ 24 % 256 * 256 + x / 2 ^ 16 % 256) * 2 ^ 16) = x % 2 ^ 32 := by omega

/-- The bytes of a value have that value. -/
theorem intOf_intBytes {v : ℤ} (h1 : -2 ^ 31 ≤ v) (h2 : v < 2 ^ 31) :
    intOf (byte (v / 2 ^ 16)) (byte (v / 2 ^ 24)) (byte v) (byte (v / 2 ^ 8)) = v := by
  have hsum := digits_sum v
  rw [intOf]
  simp only [toNat_byte_int]
  rw [hsum]
  have hwrap : wrap32 (v % 2 ^ 32) = wrap32 v := by
    unfold wrap32
    exact_mod_cast Int.emod_bmod v (2 ^ 32)
  exact hwrap.trans (wrap32_id h1 h2)

/-- The value of four bytes has these bytes. -/
theorem intBytes_intOf (b0 b1 b2 b3 : BYTE) : intBytes (intOf b0 b1 b2 b3) = [b0, b1, b2, b3] := by
  have h0 := b0.toNat_lt
  have h1 := b1.toNat_lt
  have h2 := b2.toNat_lt
  have h3 := b3.toNat_lt
  have hmod : intOf b0 b1 b2 b3 % 2 ^ 32 =
      b3.toNat * 256 + (b2.toNat + (b1.toNat * 256 + b0.toNat) * 2 ^ 16) := by
    rw [intOf, wrap32_emod]
    omega
  rw [intBytes]
  generalize intOf b0 b1 b2 b3 = v at hmod
  simp only [List.cons.injEq, and_true, byte_eq_iff]
  refine ⟨?_, ?_, ?_, ?_⟩ <;> omega

/-! ## Reading and appending -/

section
variable {q : Queue}

theorem InRange.next32 (h : InRange q) : getCommandNext32bitParamBin q =
    (intOf (q.peek 0) (q.peek 1) (q.peek 2) (q.peek 3), incrementReadNextIndex q (4 : ℕ)) := by
  refine Prod.ext ?_ (next32_queue h)
  simp only [getCommandNext32bitParamBin]
  rw [show (1 : ℤ) = ((1 : ℕ) : ℤ) from rfl, h.inc_nat, h.inc_nat, h.current, (h.inc _).current,
    (h.inc _).current, (h.inc _).current, h.peek_inc, h.peek_inc, h.peek_inc]
  rfl

/-- The bytes that the read index is at are those of the value. -/
theorem InRange.next32_of_unread (h : InRange q) {v : ℤ} (h1 : -2 ^ 31 ≤ v) (h2 : v < 2 ^ 31)
    {rest : List BYTE} (hu : q.unread = intBytes v ++ rest) :
    getCommandNext32bitParamBin q = (v, incrementReadNextIndex q (4 : ℕ)) := by
  have hc : 4 ≤ q.count := by
    rw [← length_unread, hu, List.length_append, show (intBytes v).length = 4 from rfl]
    omega
  rw [h.next32, peek_eq_getD (by omega), peek_eq_getD (by omega), peek_eq_getD (by omega),
    peek_eq_getD (by omega), hu]
  simp only [intBytes, List.cons_append, List.getD_cons_zero, List.getD_cons_succ]
  rw [intOf_intBytes h1 h2]

/-- The four bytes are stored whatever is free: a queue that they fill looks
    empty. -/
theorem Valid.addInt (h : Valid q) (v : ℤ) :
    addIntToPacket q v = (intBytes v).foldl storeByte q := by
  have hadd : ∀ (data : List BYTE) {q : Queue}, Valid q →
      addBytesOfDataToPacket q data = data.foldl storeByte q := by
    intro data
    induction data with
    | nil => exact fun _ => rfl
    | cons b data ih =>
      intro q h
      rw [addBytesOfDataToPacket, List.foldl_cons, List.foldl_cons, addByteOfDataToPacket, h.writeByte]
      exact ih (h.store b)
  exact hadd _ h

/-- Storing does not look at the read index. -/
theorem foldl_store_read_of (data : List BYTE) (q : Queue) (r : ℤ) :
    { data.foldl storeByte q with readNextByte := r } =
      data.foldl storeByte { q with readNextByte := r } := by
  induction data generalizing q with
  | nil => rfl
  | cons b data ih => exact ih (storeByte q b)

/-- The queue, read from where the next byte is stored. -/
theorem Valid.atStore (h : Valid q) : Valid { q with readNextByte := q.storeNextByte } ∧
    Queue.count { q with readNextByte := q.storeNextByte } = 0 := by
  have hv : Valid { q with readNextByte := q.storeNextByte } :=
    ⟨⟨⟨by have := h.storeNonneg; have := queueSize_pos; dsimp only; omega, h.storeLt⟩,
      h.storeNonneg, h.storeLt⟩, h.storeNonneg⟩
  exact ⟨hv, hv.count_eq_zero.2 rfl⟩

end

/-- **An `int` survives the wire.**  Wherever the indices are, the bytes that are
    appended for a value are read back as that value, by a step of four; and four
    bytes that were read as a value are appended again for it. -/
theorem int_transparent (q : Queue) (hstore : 0 ≤ q.storeNextByte)
    (hstoreQ : q.storeNextByte < queueSize) (hread : 0 ≤ q.readNextByte)
    (hreadQ : q.readNextByte < queueSize) :
    (∀ v : ℤ, -2 ^ 31 ≤ v → v < 2 ^ 31 →
      let appended : Queue := { addIntToPacket q v with readNextByte := q.storeNextByte }
      getCommandNext32bitParamBin appended = (v, incrementReadNextIndex appended 4)) ∧
    (getCommandNext32bitParamBin q).2 = incrementReadNextIndex q 4 ∧
      intBytes (getCommandNext32bitParamBin q).1 = (readBytes 4 q).1 ∧
      ∀ out : Queue, addIntToPacket out (getCommandNext32bitParamBin q).1 =
        addBytesOfDataToPacket out (readBytes 4 q).1 := by
  have h : Valid q := ⟨⟨⟨by have := queueSize_pos; omega, hreadQ⟩, hstore, hstoreQ⟩, hread⟩
  have hbytes : intBytes (getCommandNext32bitParamBin q).1 = (readBytes 4 q).1 := by
    rw [h.next32, intBytes_intOf, readBytes_bytes h.toInRange]
    rfl
  refine ⟨fun v h1 h2 => ?_, ?_, hbytes, fun out => by rw [addIntToPacket, hbytes]⟩
  · obtain ⟨hv, h0⟩ := h.atStore
    obtain ⟨hvalid, hunread⟩ := hv.foldl_store (intBytes v)
      (by rw [h0, show (intBytes v).length = 4 from rfl]; decide)
    rw [unread_eq_nil.2 h0, List.nil_append] at hunread
    dsimp only
    rw [h.addInt, foldl_store_read_of]
    exact hvalid.next32_of_unread h1 h2 (hunread.trans (List.append_nil _).symm)
  · rw [h.next32]
    rfl

/-- An instance: a negative number whose bytes lie across the end of the array. -/
theorem int_transparent_negative :
    let q : Queue := ⟨fun _ => 7, 131068, 5⟩
    let appended : Queue := { addIntToPacket q (-70001) with readNextByte := q.storeNextByte }
    getCommandNext32bitParamBin appended = (-70001, incrementReadNextIndex appended 4) :=
  (int_transparent ⟨fun _ => 7, 131068, 5⟩ (by decide) (by decide) (by decide) (by decide)).1 (-70001)
    (by decide) (by decide)

end CpcLink

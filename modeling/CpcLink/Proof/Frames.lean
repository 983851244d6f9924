/-
  Packets as lists of bytes.

  `encode` is a packet.  `frameNext` is the decision of the recogniser on the
  bytes that wait, one packet or one byte of noise at a time; it is a
  `Decoder`.  `resync` drops the noise in front of a packet.
-/
import Mathlib.Data.List.GetD
import CpcLink.Packet
import CpcLink.Lib.Decoder

namespace CpcLink

/-- The bytes of a packet. -/
def encode (packetType : PacketType) (body : List BYTE) : List BYTE :=
  plusPlusPlus ++ [byte (body.length + 3), byte ((body.length + 3) / 256), packetType] ++ body
    ++ minusMinusMinus

/-- The size and the type in the header of a packet, and the three bytes where
    its end should be. -/
def frameSize (u : List BYTE) : ℕ := (u.getD 3 0).toNat + (u.getD 4 0).toNat * 256
def frameType (u : List BYTE) : PacketType := u.getD 5 0
def frameEnd (u : List BYTE) : List BYTE := (u.drop (frameSize u + 3)).take 3

/-- A packet of a type that is accepted, with its terminator. -/
def WellFormed (u : List BYTE) : Prop :=
  ¬ (frameType u = unknownPacket ∨ frameType u ≥ maxPacketType) ∧ frameEnd u = minusMinusMinus

instance (u : List BYTE) : Decidable (WellFormed u) := inferInstanceAs (Decidable (_ ∧ _))

/-- Wait, drop a byte of noise, drop a packet that is not well formed, or
    deliver a packet. -/
def frameNext (u : List BYTE) : Option (ℕ × Option (List BYTE)) :=
  if u.length < 3 then none
  else if u.take 3 ≠ plusPlusPlus then some (1, none)
  else if u.length < 6 ∨ u.length < frameSize u + 6 then none
  else if WellFormed u then some (frameSize u + 6, some (u.take (frameSize u + 6)))
  else some (frameSize u + 6, none)

/-- Drop the bytes in front of the first `+++`; without one the last two bytes
    are kept. -/
def resync : List BYTE → List BYTE
  | a :: b :: c :: rest =>
    if [a, b, c] = plusPlusPlus then a :: b :: c :: rest else resync (b :: c :: rest)
  | u => u

/-! ## The header -/

theorem toNat_byte (n : ℕ) : (byte n).toNat = n % 256 := by
  rw [byte, show ((n : ℤ) % 256).toNat = n % 256 by omega, UInt8.toNat_ofNat']
  omega

@[simp] theorem length_encode (ty : PacketType) (body : List BYTE) :
    (encode ty body).length = body.length + 9 := by
  simp [encode, plusPlusPlus, minusMinusMinus]

theorem encode_append (ty : PacketType) (body rest : List BYTE) : encode ty body ++ rest =
    43 :: 43 :: 43 :: byte (body.length + 3) :: byte ((body.length + 3) / 256) :: ty ::
      (body ++ (45 :: 45 :: 45 :: rest)) := by
  simp [encode, plusPlusPlus, minusMinusMinus]

theorem frameType_encode (ty : PacketType) (body rest : List BYTE) :
    frameType (encode ty body ++ rest) = ty := by rw [encode_append]; rfl

theorem frameSize_encode (ty : PacketType) {body : List BYTE} (hb : body.length ≤ 65532)
    (rest : List BYTE) : frameSize (encode ty body ++ rest) = body.length + 3 := by
  have h1 := toNat_byte (body.length + 3)
  have h2 := toNat_byte ((body.length + 3) / 256)
  push_cast at h1 h2
  rw [encode_append]
  simp only [frameSize, List.getD_cons_succ, List.getD_cons_zero, h1, h2]
  omega

theorem drop_encode (ty : PacketType) (body rest : List BYTE) :
    (encode ty body ++ rest).drop (body.length + 6) = minusMinusMinus ++ rest := by
  rw [encode_append]
  simp only [List.drop_succ_cons, List.drop_left]; rfl

/-- Bytes start with one packet at most. -/
theorem encode_inj {ty ty' : PacketType} {body body' rest rest' : List BYTE}
    (hb : body.length ≤ 65532) (hb' : body'.length ≤ 65532)
    (h : encode ty body ++ rest = encode ty' body' ++ rest') : body = body' ∧ rest = rest' := by
  have hs := congrArg frameSize h
  rw [frameSize_encode _ hb, frameSize_encode _ hb'] at hs
  have hdrop := congrArg (List.drop 6) h
  rw [encode_append, encode_append] at hdrop
  obtain ⟨rfl, hrest⟩ := List.append_inj hdrop (by omega)
  exact ⟨rfl, by simpa using hrest⟩

/-- The types the recogniser accepts. -/
def AcceptedType (ty : PacketType) : Prop := ty ≠ 0 ∧ ty < 5

instance (ty : PacketType) : Decidable (AcceptedType ty) := inferInstanceAs (Decidable (_ ∧ _))

theorem accepted_iff (ty : PacketType) :
    ¬ (ty = unknownPacket ∨ ty ≥ maxPacketType) ↔ AcceptedType ty := by
  simp [AcceptedType]

/-! ## Recognising a packet -/

theorem frameNext_encode {ty : PacketType} (ht : AcceptedType ty) {body : List BYTE}
    (hb : body.length ≤ 65532) (rest : List BYTE) :
    frameNext (encode ty body ++ rest) = some (body.length + 9, some (encode ty body)) := by
  have hs := frameSize_encode ty hb rest
  have hl : (encode ty body ++ rest).length = body.length + 9 + rest.length := by simp
  have hw : WellFormed (encode ty body ++ rest) := by
    refine ⟨(accepted_iff _).2 (by rwa [frameType_encode]), ?_⟩
    rw [frameEnd, hs, show body.length + 3 + 3 = body.length + 6 by omega, drop_encode]; rfl
  have hp : (encode ty body ++ rest).take 3 = plusPlusPlus := by rw [encode_append]; rfl
  rw [frameNext, if_neg (by omega), if_neg (by simp [hp]), if_neg (by omega), if_pos hw, hs,
    show body.length + 3 + 6 = (encode ty body).length by simp, List.take_left]

/-- What is delivered is an encoded packet. -/
theorem frameNext_eq_some {u p : List BYTE} {k : ℕ} (h : frameNext u = some (k, some p)) :
    ∃ ty body rest, AcceptedType ty ∧ body.length ≤ 65532 ∧ u = encode ty body ++ rest ∧
      p = encode ty body ∧ k = body.length + 9 := by
  unfold frameNext at h
  split at h
  · cases h
  split at h
  · cases h
  next h3 hp =>
  split at h
  · cases h
  next hl =>
  split at h
  case isFalse => cases h
  next hw =>
  cases h
  match u with
  | a :: b :: c :: lo :: hi :: ty :: tail =>
    simp only [ne_eq, not_not] at hp
    obtain ⟨rfl, rfl, rfl⟩ : a = 43 ∧ b = 43 ∧ c = 43 := by simpa [plusPlusPlus] using hp
    have hs : frameSize (43 :: 43 :: 43 :: lo :: hi :: ty :: tail) = lo.toNat + hi.toNat * 256 := rfl
    have hlo := lo.toNat_lt; have hhi := hi.toNat_lt
    obtain ⟨ht, he⟩ := hw
    rw [accepted_iff] at ht
    rw [frameEnd, hs] at he
    -- a smaller size would put the terminator onto the header
    have h3 : 3 ≤ lo.toNat + hi.toNat * 256 := by
      by_contra hlt
      have hi0 : hi = 0 := UInt8.toNat_inj.1 (by rw [UInt8.toNat_zero]; omega)
      have hcases : lo.toNat = 0 ∨ lo.toNat = 1 ∨ lo.toNat = 2 := by omega
      subst hi0
      rcases hcases with h | h | h <;> rw [h] at he <;> simp [minusMinusMinus] at he
      obtain ⟨rfl, -⟩ := he
      exact absurd ht.2 (show ¬ (45 : BYTE) < 5 by decide)
    simp only [hs, List.length_cons] at hl
    have hd : (43 :: 43 :: 43 :: lo :: hi :: ty :: tail).drop (lo.toNat + hi.toNat * 256 + 3) =
        tail.drop (lo.toNat + hi.toNat * 256 - 3) := by
      rw [show lo.toNat + hi.toNat * 256 + 3 = lo.toNat + hi.toNat * 256 - 3 + 1 + 1 + 1 + 1 + 1 + 1
        by omega]
      rfl
    rw [hd] at he
    set n := lo.toNat + hi.toNat * 256 - 3 with hn
    have hrest : tail = tail.take n ++ (minusMinusMinus ++ (tail.drop n).drop 3) := by
      rw [← he, List.take_append_drop, List.take_append_drop]
    have hlen : (tail.take n).length = n := by rw [List.length_take]; omega
    have hlo' : byte ((tail.take n).length + 3) = lo := UInt8.toNat_inj.1 (by
      have := toNat_byte (n + 3); push_cast at this; rw [hlen, this]; omega)
    have hhi' : byte (((tail.take n).length + 3) / 256) = hi := UInt8.toNat_inj.1 (by
      have := toNat_byte ((n + 3) / 256); push_cast at this; rw [hlen, this]; omega)
    have hu : 43 :: 43 :: 43 :: lo :: hi :: ty :: tail =
        encode ty (tail.take n) ++ (tail.drop n).drop 3 := by
      rw [encode_append, hlo', hhi']
      congr 6
    refine ⟨ty, tail.take n, (tail.drop n).drop 3, ht, by omega, hu, ?_, by rw [hs]; omega⟩
    rw [hs, hu, show lo.toNat + hi.toNat * 256 + 6 = (encode ty (tail.take n)).length by
      rw [length_encode]; omega, List.take_left]
  | [] | [_] | [_, _] | [_, _, _] | [_, _, _, _] | [_, _, _, _, _] =>
    simp only [List.length_cons, List.length_nil] at hl; omega

/-! ## The recogniser as a decoder -/

theorem frameNext_pos {u : List BYTE} {k : ℕ} {b : Option (List BYTE)}
    (h : frameNext u = some (k, b)) : 0 < k ∧ k ≤ u.length := by
  unfold frameNext at h
  split at h
  · cases h
  split at h
  · cases h; omega
  split at h
  · cases h
  split at h <;> cases h <;> omega

theorem getD_append {u : List BYTE} {k : ℕ} (h : k < u.length) (v : List BYTE) :
    (u ++ v).getD k 0 = u.getD k 0 := List.getD_append _ _ _ _ h

theorem frameNext_append {u : List BYTE} {r : ℕ × Option (List BYTE)} (v : List BYTE)
    (h : frameNext u = some r) : frameNext (u ++ v) = some r := by
  unfold frameNext at h ⊢
  split at h
  · cases h
  next h3 =>
  have ht : (u ++ v).take 3 = u.take 3 := List.take_append_of_le_length (by omega)
  rw [if_neg (by rw [List.length_append]; omega), ht]
  split at h
  next hp => rw [if_pos hp]; exact h
  next hp =>
  rw [if_neg hp]
  split at h
  · cases h
  next hl =>
  have hs : frameSize (u ++ v) = frameSize u := by
    rw [frameSize, getD_append (by omega), getD_append (by omega)]; rfl
  have hty : frameType (u ++ v) = frameType u := getD_append (by omega) v
  have he : frameEnd (u ++ v) = frameEnd u := by
    rw [frameEnd, hs, List.drop_append_of_le_length (by omega),
      List.take_append_of_le_length (by rw [List.length_drop]; omega)]; rfl
  have hw : WellFormed (u ++ v) ↔ WellFormed u := by simp only [WellFormed, hty, he]
  rw [hs, if_neg (by rw [List.length_append]; omega),
    List.take_append_of_le_length (by omega)]
  simpa only [hw] using h

/-- The recogniser. -/
def recogniser : Decoder BYTE (List BYTE) where
  next := frameNext
  pos := frameNext_pos
  stable v h := frameNext_append v h

/-! ## Dropping noise -/

/-- Dropping noise is a run of the recogniser that delivers nothing. -/
theorem runs_resync (u : List BYTE) : recogniser.Runs u [] (resync u) := by
  fun_induction resync u with
  | case1 => exact .refl _
  | case2 a b c rest h ih =>
    refine .step (k := 1) (b := none) ?_ (by simpa using ih)
    change frameNext (a :: b :: c :: rest) = some (1, none)
    rw [frameNext, if_neg (by simp), if_pos (by simpa using h)]
  | case3 => exact .refl _

theorem resync_suffix (u : List BYTE) : resync u <:+ u := by
  fun_induction resync u with
  | case1 => exact List.suffix_rfl
  | case2 a b c rest h ih => exact ih.trans (List.suffix_cons a _)
  | case3 => exact List.suffix_rfl

theorem length_resync_le (u : List BYTE) : (resync u).length ≤ u.length := (resync_suffix u).length_le

/-- What is left is too short, or starts with `+++`. -/
theorem resync_front (u : List BYTE) :
    (resync u).length < 3 ∨ (resync u).take 3 = plusPlusPlus := by
  fun_induction resync u with
  | case1 a b c rest h => exact .inr h
  | case2 a b c rest h ih => exact ih
  | case3 u h =>
    left
    match u with
    | [] | [_] | [_, _] => simp
    | a :: b :: c :: rest => exact absurd rfl (h a b c rest)

theorem resync_of_plus {u : List BYTE} (h : u.take 3 = plusPlusPlus) : resync u = u := by
  match u with
  | a :: b :: c :: rest => rw [resync, if_pos (by simpa using h)]
  | [] | [_] | [_, _] => rfl

theorem resync_of_short {u : List BYTE} (h : u.length < 3) : resync u = u := by
  match u with
  | a :: b :: c :: rest => simp only [List.length_cons] at h; omega
  | [] | [_] | [_, _] => rfl

/-- A recogniser that waits has dropped the noise. -/
theorem resync_of_none {u : List BYTE} (h : frameNext u = none) : resync u = u := by
  unfold frameNext at h
  split at h
  next h3 => exact resync_of_short h3
  split at h
  · cases h
  next hp => exact resync_of_plus (not_not.1 hp)

theorem resync_encode (ty : PacketType) (body rest : List BYTE) :
    resync (encode ty body ++ rest) = encode ty body ++ rest :=
  resync_of_plus (by rw [encode_append]; rfl)

end CpcLink

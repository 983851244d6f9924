/-
  Do the programs on the CPC stay in step with the answers?

  A function that reads a packet is followed through the header, the message and the
  trailing delimiter (`readFrom_packet`).  It takes the packet and no more exactly if the
  type and the size are what it expects, and its index can count that far (`inStep_iff`).
-/
import Mathlib.Data.List.Forall2
import CpcLink.Reader
import CpcLink.Proof.Writing

namespace CpcLink

/-- The buffer with these bytes from `index` on. -/
def stored (response : ℕ → BYTE) (index : ℕ) (data : List BYTE) : ℕ → BYTE := fun i =>
  if index ≤ i ∧ i < index + data.length then data.getD (i - index) 0 else response i

theorem stored_nil (response : ℕ → BYTE) (index : ℕ) : stored response index [] = response := by
  ext i
  rw [stored, if_neg]
  rintro ⟨h, h'⟩
  exact absurd h (Nat.not_le.2 h')

theorem stored_cons (response : ℕ → BYTE) (index : ℕ) (b : BYTE) (data : List BYTE) :
    stored (Function.update response index b) (index + 1) data = stored response index (b :: data) := by
  ext i
  rcases Nat.lt_trichotomy i index with h | rfl | h
  · rw [stored, stored, if_neg (by omega), if_neg (by omega), Function.update_of_ne (by omega)]
  · rw [stored, stored, if_neg (by omega), if_pos ⟨le_rfl, by simp⟩, Function.update_self, Nat.sub_self]
    rfl
  · obtain ⟨k, rfl⟩ := Nat.exists_eq_add_of_lt h
    simp only [stored, List.length_cons, Function.update_of_ne (Nat.ne_of_gt h)]
    rw [show index + k + 1 - index = k + 1 by omega, show index + k + 1 - (index + 1) = k by omega,
      List.getD_cons_succ]
    have hin : (index + 1 ≤ index + k + 1 ∧ index + k + 1 < index + 1 + data.length) ↔
        (index ≤ index + k + 1 ∧ index + k + 1 < index + (data.length + 1)) := by omega
    simp only [hin]

theorem stored_snoc (response : ℕ → BYTE) (index : ℕ) (data : List BYTE) (b : BYTE) :
    stored response index (data ++ [b]) =
      Function.update (stored response index data) (index + data.length) b := by
  induction data generalizing response index with
  | nil => rw [List.nil_append, ← stored_cons, stored_nil, stored_nil, List.length_nil, Nat.add_zero]
  | cons c data ih =>
    rw [List.cons_append, ← stored_cons, ih, stored_cons, List.length_cons, Nat.add_right_comm,
      Nat.add_assoc]

/-! ## The parts of a packet -/

theorem headerSize_front {ty : BYTE} {n : ℕ} (hn : n ≤ 65532) :
    headerSize (front ty n) = UInt16.ofNat n := by
  have hlow := toNat_byte (n + 3)
  have hhigh := toNat_byte ((n + 3) / 256)
  push_cast at hlow hhigh
  have hsum : (byte (n + 3)).toNat + (byte ((n + 3) / 256)).toNat * 256 = n + 3 := by
    rw [hlow, hhigh]
    omega
  rw [headerSize, front, List.getD_cons_succ, List.getD_cons_succ, List.getD_cons_succ,
    List.getD_cons_zero, List.getD_cons_succ, List.getD_cons_succ, List.getD_cons_succ,
    List.getD_cons_succ, List.getD_cons_zero, hsum, UInt16.ofNat_add]
  exact UInt16.add_sub_cancel _ _

theorem headerLoop_front {expected ty : BYTE} {numberBytes : UInt16 → UInt16} {n : ℕ}
    (hn : n ≤ 65532) : headerLoop expected numberBytes (front ty n) =
      if ty = expected then messageLoop 0 (numberBytes (UInt16.ofNat n)).toNat else .returned false := by
  rw [headerLoop, if_neg (by simp [front]), headerSize_front hn]
  refine if_congr (and_iff_right rfl) rfl rfl

namespace Reader

variable {r : Reader} {ty : PacketType} {body : List BYTE} {response : ℕ → BYTE}

theorem readFrom_returned (wellFormed : Bool) (u : List BYTE) :
    r.readFrom ⟨.returned wellFormed, response⟩ u = (⟨.returned wellFormed, response⟩, u) := by
  cases u with
  | nil => rfl
  | cons b rest => rfl

/-- Six bytes are the header. -/
theorem readFrom_header {header : List BYTE} (h : header.length = 6) (rest : List BYTE) :
    r.readFrom (.call response) (header ++ rest) =
      r.readFrom ⟨headerLoop r.packetType r.numberBytes header, response⟩ rest := by
  match header, h with
  | [_, _, _, _, _, _], _ => rfl

/-- A byte of the message. -/
theorem readFrom_cons (index n : ℕ) (b : BYTE) (u : List BYTE) :
    r.readFrom ⟨.message index n, response⟩ (b :: u) = r.readFrom
      ⟨messageLoop ((index + 1) % r.indexes) n, Function.update response index b⟩ u := rfl

theorem readFrom_message {index n : ℕ} (hn : n < r.indexes) (data rest : List BYTE)
    (hfit : index + data.length ≤ n) :
    r.readFrom ⟨messageLoop index n, response⟩ (data ++ rest) =
      r.readFrom ⟨messageLoop (index + data.length) n, stored response index data⟩ rest := by
  induction data generalizing index response with
  | nil => rw [stored_nil]; rfl
  | cons b data ih =>
    rw [List.length_cons] at hfit ⊢
    rw [messageLoop, if_pos (by omega), List.cons_append, readFrom_cons,
      Nat.mod_eq_of_lt (by omega), ih (by omega), stored_cons, Nat.add_right_comm, Nat.add_assoc]

theorem readFrom_trailer {trailer : List BYTE} (h : trailer.length = 3) (rest : List BYTE) :
    r.readFrom ⟨.trailer 0, response⟩ (trailer ++ rest) = (⟨.returned true, response⟩, rest) := by
  match trailer, h with
  | [_, _, _], _ =>
    rw [← readFrom_returned (r := r)]
    rfl

/-- A message whose end is in reach of the index, and the delimiter. -/
theorem readFrom_body {n : ℕ} (hn : n < r.indexes) {u : List BYTE} (hu : n + 3 ≤ u.length) :
    r.readFrom ⟨messageLoop 0 n, response⟩ u =
      (⟨.returned true, stored response 0 (u.take n)⟩, u.drop (n + 3)) := by
  have htake : (u.take n).length = n := List.length_take_of_le (by omega)
  have hsplit : u = u.take n ++ ((u.drop n).take 3 ++ u.drop (n + 3)) := by
    rw [← List.drop_drop, List.take_append_drop, List.take_append_drop]
  have htrailer : ((u.drop n).take 3).length = 3 := by
    rw [List.length_take_of_le]
    rw [List.length_drop]
    omega
  conv_lhs => rw [hsplit]
  rw [readFrom_message hn _ _ (by omega), htake, Nat.zero_add, messageLoop, if_neg (lt_irrefl n),
    readFrom_trailer htrailer]

/-- A message whose end is not is read for ever. -/
theorem readFrom_forever {n : ℕ} (h0 : 0 < r.indexes) (hn : r.indexes ≤ n) {index : ℕ}
    (hi : index < r.indexes) (u : List BYTE) : ∃ index' response', index' < r.indexes ∧
      r.readFrom ⟨.message index n, response⟩ u = (⟨.message index' n, response'⟩, []) := by
  induction u generalizing index response with
  | nil => exact ⟨index, response, hi, rfl⟩
  | cons b u ih =>
    have hnext : (index + 1) % r.indexes < r.indexes := Nat.mod_lt _ h0
    rw [readFrom_cons, messageLoop, if_pos (by omega)]
    exact ih hnext

/-- The bytes that the function wants to read of a message of `body`. -/
def wants (r : Reader) (body : List BYTE) : ℕ := (r.numberBytes (UInt16.ofNat body.length)).toNat

/-- **One call.**  What it makes of a packet of another type, of a message that its index
    can count, and of one that it cannot. -/
theorem readFrom_packet (response : ℕ → BYTE) (h0 : 0 < r.indexes) (hbody : body.length ≤ 65532)
    (rest : List BYTE) :
    (ty ≠ r.packetType → r.readFrom (.call response) (encode ty body ++ rest) =
      (⟨.returned false, response⟩, body ++ minusMinusMinus ++ rest)) ∧
    (ty = r.packetType → r.wants body < r.indexes →
      r.wants body + 3 ≤ (body ++ minusMinusMinus ++ rest).length →
      r.readFrom (.call response) (encode ty body ++ rest) =
        (⟨.returned true, stored response 0 ((body ++ minusMinusMinus ++ rest).take (r.wants body))⟩,
          (body ++ minusMinusMinus ++ rest).drop (r.wants body + 3))) ∧
    (ty = r.packetType → r.indexes ≤ r.wants body → ∃ index response',
      r.readFrom (.call response) (encode ty body ++ rest) =
        (⟨.message index (r.wants body), response'⟩, [])) := by
  have hheader : r.readFrom (.call response) (encode ty body ++ rest) =
      r.readFrom ⟨headerLoop r.packetType r.numberBytes (front ty body.length), response⟩
        (body ++ minusMinusMinus ++ rest) := by
    rw [encode_eq_front, List.append_assoc, List.append_assoc, readFrom_header rfl, List.append_assoc]
  rw [hheader, headerLoop_front hbody]
  refine ⟨fun hty => ?_, fun hty hwants hlong => ?_, fun hty hwants => ?_⟩
  · rw [if_neg hty, readFrom_returned]
  · rw [if_pos hty]
    exact readFrom_body hwants hlong
  · rw [if_pos hty]
    change ∃ index response', r.readFrom ⟨messageLoop 0 (r.wants body), response⟩ _ = _
    rw [messageLoop, if_pos (by omega)]
    obtain ⟨index, response', -, hrun⟩ := readFrom_forever h0 hwants h0 (body ++ minusMinusMinus ++ rest)
    exact ⟨index, response', hrun⟩

/-! ## In step -/

/-- The type is the expected one, the function wants as many bytes as the message has, and
    its index can count them. -/
def Suits (r : Reader) (ty : PacketType) (body : List BYTE) : Prop :=
  ty = r.packetType ∧ r.wants body = body.length ∧ body.length < r.indexes

instance : Decidable (r.Suits ty body) := inferInstanceAs (Decidable (_ ∧ _ ∧ _))

/-- Then the packet is taken off the stream, and its message is in the buffer. -/
theorem Suits.readFrom (h : r.Suits ty body) (hbody : body.length ≤ 65532) (response : ℕ → BYTE)
    (rest : List BYTE) : r.readFrom (.call response) (encode ty body ++ rest) =
      (⟨.returned true, stored response 0 body⟩, rest) := by
  obtain ⟨hty, hwants, hlt⟩ := h
  have hreads := (readFrom_packet response (Nat.zero_lt_of_lt hlt) hbody rest).2.1 hty
    (by omega) (by simp [minusMinusMinus]; omega)
  rw [hreads, hwants, List.append_assoc, List.take_left, ← List.append_assoc]
  congr 1
  exact List.drop_left' (by simp [minusMinusMinus])

/-- If it is taken off the stream, and no more, then it suits: a message that is too long
    or too short for the function leaves another length. -/
theorem Suits.of_readFrom (h0 : 0 < r.indexes) (hbody : body.length ≤ 65532) {rest : List BYTE}
    (hlong : r.wants body + 3 ≤ rest.length) {response' : ℕ → BYTE}
    (hrun : r.readFrom (.call response) (encode ty body ++ rest) =
      (⟨.returned true, response'⟩, rest)) : r.Suits ty body := by
  obtain ⟨hother, hreads, hforever⟩ := readFrom_packet (r := r) response h0 hbody rest
  by_cases hty : ty = r.packetType
  · rcases Nat.lt_or_ge (r.wants body) r.indexes with hlt | hge
    · rw [hreads hty hlt (by simp only [List.length_append]; omega)] at hrun
      have hlength := congrArg (fun p : ReadState × List BYTE => p.2.length) hrun
      simp only [List.length_drop, List.length_append, minusMinusMinus, List.length_cons,
        List.length_nil] at hlength
      refine ⟨hty, ?_, ?_⟩ <;> omega
    · obtain ⟨index, response'', hrun'⟩ := hforever hty hge
      rw [hrun'] at hrun
      cases hrun
  · rw [hother hty] at hrun
    cases hrun

end Reader

/-! ## A session -/

/-- A call, and the packet that comes for it. -/
structure Reading where
  reader : Reader
  packetType : PacketType
  body : List BYTE

namespace Reading

/-- The packets. -/
def stream (readings : List Reading) : List BYTE :=
  readings.flatMap fun c => encode c.packetType c.body

/-- The buffer behind the calls. -/
def buffer (readings : List Reading) (response : ℕ → BYTE) : ℕ → BYTE :=
  readings.foldl (fun response c => stored response 0 c.body) response

/-- Each call takes its packet off the stream, and no more. -/
def InStep (readings : List Reading) : Prop :=
  ∀ before after, readings = before ++ after → ∀ response rest,
    readAll (before.map reader) response (stream readings ++ rest) =
      (List.replicate before.length true, buffer before response, stream after ++ rest)

def Suits (c : Reading) : Prop := c.reader.Suits c.packetType c.body

instance (c : Reading) : Decidable c.Suits := inferInstanceAs (Decidable (c.reader.Suits _ _))

/-- The index of the function has a value, and the size of the packet fits into its header. -/
def Sound (c : Reading) : Prop := 0 < c.reader.indexes ∧ c.body.length ≤ 65532

instance (c : Reading) : Decidable c.Sound := inferInstanceAs (Decidable (_ ∧ _))

theorem readAll_suits {readings : List Reading} (hsound : ∀ c ∈ readings, c.Sound)
    (h : ∀ c ∈ readings, c.Suits) (response : ℕ → BYTE) (rest : List BYTE) :
    readAll (readings.map reader) response (stream readings ++ rest) =
      (List.replicate readings.length true, buffer readings response, rest) := by
  induction readings generalizing response with
  | nil => rfl
  | cons c readings ih =>
    have hfirst := Reader.Suits.readFrom (h c List.mem_cons_self) (hsound c List.mem_cons_self).2
      response (stream readings ++ rest)
    have hrest := ih (fun c' h' => hsound c' (List.mem_cons_of_mem _ h'))
      (fun c' h' => h c' (List.mem_cons_of_mem _ h')) (stored response 0 c.body)
    rw [stream, List.flatMap_cons, List.append_assoc, List.map_cons, readAll]
    dsimp only
    rw [← stream, hfirst]
    dsimp only
    rw [hrest]
    rfl

theorem stream_append (readings readings' : List Reading) :
    stream (readings ++ readings') = stream readings ++ stream readings' := List.flatMap_append

/-- Calls behind calls that have all returned. -/
theorem readAll_append {rs rs' : List Reader} {response response' : ℕ → BYTE} {u u' : List BYTE}
    {returns : List Bool} (h : readAll rs response u = (returns, response', u'))
    (hall : returns.length = rs.length) : readAll (rs ++ rs') response u =
      (returns ++ (readAll rs' response' u').1, (readAll rs' response' u').2) := by
  induction rs generalizing response u returns with
  | nil =>
    cases h
    rfl
  | cons r rs ih =>
    rw [readAll] at h
    rw [List.cons_append, readAll]
    generalize r.readFrom (.call response) u = run at h ⊢
    obtain ⟨⟨stage, buffer⟩, left⟩ := run
    cases stage with
    | returned wellFormed =>
      dsimp only at h ⊢
      cases hrs : readAll rs buffer left with
      | mk more p =>
        rw [hrs] at h
        cases h
        rw [ih hrs (by simpa using hall)]
        rfl
    | header | message | trailer =>
      cases h
      cases hall

/-- A single call that has returned. -/
theorem readAll_single {r : Reader} {response response' : ℕ → BYTE} {u u' : List BYTE}
    (h : readAll [r] response u = ([true], response', u')) :
    r.readFrom (.call response) u = (⟨.returned true, response'⟩, u') := by
  rw [readAll] at h
  generalize r.readFrom (.call response) u = run at h ⊢
  obtain ⟨⟨stage, buffer⟩, left⟩ := run
  cases stage with
  | returned wellFormed =>
    cases h
    rfl
  | header | message | trailer => cases h

/-- **In step over a session.**  The calls stay in step with the packets, whatever is
    behind these and in the buffer, exactly if each suits its packet. -/
theorem session_in_step_iff {readings : List Reading} (hsound : ∀ c ∈ readings, c.Sound) :
    InStep readings ↔ ∀ c ∈ readings, c.Suits := by
  constructor
  · intro hstep c hc
    obtain ⟨before, after, rfl⟩ := List.append_of_mem hc
    obtain ⟨h0, hbody⟩ := hsound c hc
    obtain ⟨rest, hrest⟩ : ∃ rest : List BYTE, rest.length = c.reader.wants c.body + 3 :=
      ⟨List.replicate _ 0, List.length_replicate⟩
    have hlong : c.reader.wants c.body + 3 ≤ (stream after ++ rest).length := by
      rw [List.length_append, hrest]
      exact Nat.le_add_left _ _
    have hbefore := hstep before (c :: after) rfl (fun _ => 0) rest
    have hthrough := hstep (before ++ [c]) after (by simp) (fun _ => 0) rest
    rw [List.map_append, readAll_append hbefore (by simp), List.length_append,
      List.replicate_add] at hthrough
    obtain ⟨hreturns, hleft⟩ := Prod.mk.inj hthrough
    have hcall := readAll_single (Prod.ext (List.append_cancel_left hreturns) hleft)
    rw [stream, List.flatMap_cons, List.append_assoc, ← stream] at hcall
    exact .of_readFrom h0 hbody hlong hcall
  · rintro h before after rfl response rest
    rw [stream_append, List.append_assoc]
    exact readAll_suits (fun c hc => hsound c (List.mem_append_left _ hc))
      (fun c hc => h c (List.mem_append_left _ hc)) response _

/-- An instance: an answer, and the page behind it. -/
theorem session_in_step_page : InStep
    [⟨allocReadResponseFromPi, binaryCommand, [23, 1, 0, 0, 0]⟩,
      ⟨readBinaryDataFromPi 4, binaryData, [7, 7, 7, 7]⟩] :=
  (session_in_step_iff (List.forall_mem_cons.2 ⟨by decide, List.forall_mem_singleton.2 (by decide)⟩)).2
    (List.forall_mem_cons.2 ⟨by decide, List.forall_mem_singleton.2 (by decide)⟩)

/-- `read_response_from_pi` of ping cannot count a text of 256 bytes. -/
example : ¬ readResponseFromPi.Suits textCommand (List.replicate 256 65) := by
  intro h
  have hlt := h.2.2
  rw [List.length_replicate] at hlt
  exact lt_irrefl _ hlt

end Reading

end CpcLink

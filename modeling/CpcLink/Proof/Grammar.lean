/-
  Which bytes does the recogniser accept as a packet?

  It looks at the first `+++` only.  So noise in front of a packet costs
  nothing, unless it ends in a `+`: then `+++` is found early, and what is read
  as the header lies askew.
-/
import Mathlib.Data.Nat.Find
import CpcLink.Proof.Framing

namespace CpcLink

/-- Bytes that start with `+++ lo hi type body ---`, where the size field counts
    the header and the body. -/
def StartsPacket (u : List BYTE) : Prop :=
  ∃ (lo hi : BYTE) (ty : PacketType) (body rest : List BYTE),
    u = plusPlusPlus ++ [lo, hi, ty] ++ body ++ minusMinusMinus ++ rest ∧
    3 ≤ lo.toNat + 256 * hi.toNat ∧ body.length = lo.toNat + 256 * hi.toNat - 3 ∧
    1 ≤ ty ∧ ty ≤ 4

/-- The first `+++` has `k` bytes in front of it. -/
def FirstPlus (u : List BYTE) (k : ℕ) : Prop :=
  (u.drop k).take 3 = plusPlusPlus ∧ ∀ j < k, (u.drop j).take 3 ≠ plusPlusPlus

section
variable {u : List BYTE} {k : ℕ}

theorem acceptedType_iff (ty : PacketType) : 1 ≤ ty ∧ ty ≤ 4 ↔ AcceptedType ty := by
  simp only [AcceptedType, UInt8.le_iff_toNat_le, UInt8.lt_iff_toNat_lt, ne_eq, ← UInt8.toNat_inj,
    show (1 : BYTE).toNat = 1 from rfl, show (4 : BYTE).toNat = 4 from rfl,
    show (5 : BYTE).toNat = 5 from rfl, UInt8.toNat_zero]
  omega

/-- The size field of a packet tells the length of its body. -/
theorem byte_size {lo hi : BYTE} {n : ℕ} (h3 : 3 ≤ lo.toNat + 256 * hi.toNat)
    (hn : n = lo.toNat + 256 * hi.toNat - 3) : byte (n + 3) = lo ∧ byte ((n + 3) / 256) = hi := by
  have hlo := lo.toNat_lt
  have hhi := hi.toNat_lt
  have h1 := toNat_byte (n + 3)
  have h2 := toNat_byte ((n + 3) / 256)
  push_cast at h1 h2
  rw [← UInt8.toNat_inj, ← UInt8.toNat_inj, h1, h2]
  constructor <;> omega

/-- The grammar says what `encode` builds. -/
theorem startsPacket_iff : StartsPacket u ↔
    ∃ ty body rest, AcceptedType ty ∧ body.length ≤ 65532 ∧ u = encode ty body ++ rest := by
  constructor
  · rintro ⟨lo, hi, ty, body, rest, rfl, h3, hl, hty⟩
    have hlo := lo.toNat_lt
    have hhi := hi.toNat_lt
    obtain ⟨h1, h2⟩ := byte_size h3 hl
    exact ⟨ty, body, rest, (acceptedType_iff ty).1 hty, by omega, by rw [encode, h1, h2]⟩
  · rintro ⟨ty, body, rest, hty, hb, rfl⟩
    have h1 := toNat_byte (body.length + 3)
    have h2 := toNat_byte ((body.length + 3) / 256)
    push_cast at h1 h2
    refine ⟨byte (body.length + 3), byte ((body.length + 3) / 256), ty, body, rest, rfl, ?_, ?_,
      (acceptedType_iff ty).2 hty⟩
    · omega
    · omega

/-! ## The first delimiter -/

/-- Dropping noise drops what is in front of the first delimiter. -/
theorem resync_of_first (h : FirstPlus u k) : resync u = u.drop k := by
  induction k generalizing u with
  | zero => exact resync_of_plus h.1
  | succ k ih =>
    match u with
    | a :: b :: c :: rest =>
      have hne : [a, b, c] ≠ plusPlusPlus := h.2 0 (Nat.succ_pos k)
      rw [resync, if_neg hne]
      exact ih ⟨h.1, fun j hj => h.2 (j + 1) (Nat.succ_lt_succ hj)⟩
    | [] | [_] | [_, _] =>
      have hl := congrArg List.length h.1
      simp only [plusPlusPlus, List.length_take, List.length_drop, List.length_cons,
        List.length_nil] at hl
      omega

theorem exists_first (h : (resync u).take 3 = plusPlusPlus) : ∃ k, FirstPlus u k := by
  fun_induction resync u with
  | case1 a b c rest hp => exact ⟨0, hp, fun j hj => absurd hj (Nat.not_lt_zero j)⟩
  | case2 a b c rest hne ih =>
    obtain ⟨k, hk, hfirst⟩ := ih h
    refine ⟨k + 1, hk, fun j hj => ?_⟩
    cases j with
    | zero => exact hne
    | succ j => exact hfirst j (Nat.lt_of_succ_lt_succ hj)
  | case3 u => exact ⟨0, h, fun j hj => absurd hj (Nat.not_lt_zero j)⟩

theorem FirstPlus.lt (h : FirstPlus u k) : k + 3 ≤ u.length := by
  have hl := congrArg List.length h.1
  simp only [plusPlusPlus, List.length_take, List.length_drop, List.length_cons,
    List.length_nil] at hl
  omega

theorem exists_firstPlus (h : (u.drop k).take 3 = plusPlusPlus) : ∃ k, FirstPlus u k := by
  have hplus : ∃ j, (u.drop j).take 3 = plusPlusPlus := ⟨k, h⟩
  exact ⟨Nat.find hplus, Nat.find_spec hplus, fun _ hj => Nat.find_min hplus hj⟩

/-- The search leaves what starts with `+++` if the first one is there. -/
theorem resync_eq_iff {found : List BYTE} (hfound : found.take 3 = plusPlusPlus) :
    resync u = found ↔ ∃ skipped, u = skipped ++ found ∧ FirstPlus u skipped.length := by
  constructor
  · rintro rfl
    obtain ⟨k, hk⟩ := exists_first hfound
    have hlen : (u.take k).length = k := List.length_take_of_le (by have := hk.lt; omega)
    refine ⟨u.take k, ?_, hlen.symm ▸ hk⟩
    rw [resync_of_first hk, List.take_append_drop]
  · rintro ⟨skipped, hu, hfirst⟩
    rw [resync_of_first hfirst, hu, List.drop_left]

/-- Two ends of a list. -/
theorem suffix_eq_iff {l l' : List BYTE} (h : l <:+ u) (h' : l' <:+ u) :
    l = l' ↔ l.length = l'.length := by
  constructor
  · exact congrArg List.length
  · intro hlen
    exact (List.suffix_of_suffix_length_le h h' hlen.le).eq_of_length hlen

/-- The search leaves two bytes at least. -/
theorem two_le_resync (u : List BYTE) (h : 2 ≤ u.length) : 2 ≤ (resync u).length := by
  fun_induction resync u with
  | case1 => exact h
  | case2 a b c rest _ ih => exact ih (by simp)
  | case3 => exact h

/-- Without a `+++` it leaves just these. -/
theorem length_resync_of_no_plus (h : ∀ k, ¬ FirstPlus u k) : (resync u).length = min u.length 2 := by
  have hle := length_resync_le u
  have hlt : (resync u).length < 3 := (resync_front u).resolve_right fun hplus =>
    (exists_first hplus).elim h
  rcases Nat.lt_or_ge u.length 2 with hshort | hlong
  · rw [resync_of_short (by omega)]
    omega
  · have := two_le_resync u hlong
    omega

/-- **Where the search ends**: at `rest`, if no `+++` comes before, and either one starts
    there, or two bytes are left there, or all there are. -/
theorem resync_eq_rest_iff {skipped rest : List BYTE} (hu : u = skipped ++ rest) :
    resync u = rest ↔
      (∀ i < skipped.length, (u.drop i).take 3 ≠ plusPlusPlus) ∧
      (rest.take 3 = plusPlusPlus ∨ rest.length = min u.length 2) := by
  have hlen := congrArg List.length hu
  rw [List.length_append] at hlen
  have hrest : u.drop skipped.length = rest := by rw [hu, List.drop_left]
  rw [suffix_eq_iff (resync_suffix u) ⟨skipped, hu.symm⟩]
  by_cases hplus : ∃ k, FirstPlus u k
  · obtain ⟨k, hk⟩ := hplus
    have hlt := hk.lt
    rw [resync_of_first hk, List.length_drop]
    constructor
    · intro he
      obtain rfl : k = skipped.length := by omega
      exact ⟨hk.2, .inl (hrest ▸ hk.1)⟩
    · rintro ⟨hno, hend⟩
      have hge : skipped.length ≤ k := not_lt.1 fun hlt => hno k hlt hk.1
      rcases hend with hend | hend
      · have hle : k ≤ skipped.length := not_lt.1 fun hlt => hk.2 _ hlt (hrest.symm ▸ hend)
        omega
      · omega
  · rw [length_resync_of_no_plus (not_exists.1 hplus)]
    constructor
    · intro he
      exact ⟨fun i _ hi => hplus (exists_firstPlus hi), .inr he.symm⟩
    · rintro ⟨-, hend | hend⟩
      · exact absurd (exists_firstPlus (hrest.symm ▸ hend)) hplus
      · exact hend.symm

theorem StartsPacket.take (h : StartsPacket u) : u.take 3 = plusPlusPlus := by
  obtain ⟨lo, hi, ty, body, rest, rfl, -⟩ := h
  rfl

end

/-! ## The grammar -/

section
variable {q : Queue}

/-- What `resync` leaves starts with a packet exactly if `frameNext` delivers it. -/
theorem delivers_iff (u : List BYTE) : (∃ k p, frameNext u = some (k, some p)) ↔ StartsPacket u := by
  rw [startsPacket_iff]
  constructor
  · rintro ⟨k, p, h⟩
    obtain ⟨ty, body, rest, hty, hb, hu, -⟩ := frameNext_eq_some h
    exact ⟨ty, body, rest, hty, hb, hu⟩
  · rintro ⟨ty, body, rest, hty, hb, rfl⟩
    exact ⟨_, _, frameNext_encode hty hb rest⟩

theorem isComplete_true_iff (h : InRange q) : (isCompletePacketAvailable q).1 = true ↔
    StartsPacket (resync q.unread) := by
  rw [← delivers_iff, isComplete_eq h]
  match frameNext (resync q.unread) with
  | none => simp
  | some (k, none) => simp
  | some (k, some p) => simp

theorem isComplete_synced (h : InRange q) (ht : (isCompletePacketAvailable q).1 = true) :
    (isCompletePacketAvailable q).2 = synced q := by
  obtain ⟨k, p, hf⟩ := (delivers_iff _).2 ((isComplete_true_iff h).1 ht)
  rw [isComplete_eq h, hf]

/-- Dropping the noise steps to the first delimiter. -/
theorem synced_of_first {k : ℕ} (hk : FirstPlus q.unread k) :
    synced q = incrementReadNextIndex q k := by
  have hl := hk.lt
  rw [length_unread] at hl
  rw [synced, resync_of_first hk, List.length_drop, length_unread]
  congr 2
  omega

/-- **The recogniser accepts the grammar.**  It finds a packet exactly if the
    bytes from the first `+++` on are one; the read index is then at that
    `+++`, and the size that is declared counts the header. -/
theorem isComplete_grammar (h : Valid q) :
    ((isCompletePacketAvailable q).1 = true ↔
      ∃ k, FirstPlus q.unread k ∧ StartsPacket (q.unread.drop k)) ∧
    ((isCompletePacketAvailable q).1 = true → ∃ k, FirstPlus q.unread k ∧
      (isCompletePacketAvailable q).2 = incrementReadNextIndex q k ∧
      (isCompletePacketAvailable q).2.unread = q.unread.drop k ∧
      3 ≤ getPacketSize (isCompletePacketAvailable q).2) := by
  have hr := h.toInRange
  refine ⟨?_, fun ht => ?_⟩
  · rw [isComplete_true_iff hr]
    constructor
    · intro hs
      obtain ⟨k, hk⟩ := exists_first hs.take
      exact ⟨k, hk, resync_of_first hk ▸ hs⟩
    · rintro ⟨k, hk, hs⟩
      rwa [resync_of_first hk]
  · have hs := (isComplete_true_iff hr).1 ht
    obtain ⟨k, hk⟩ := exists_first hs.take
    have hq := isComplete_synced hr ht
    obtain ⟨ty, body, rest, hty, hb, hu⟩ := startsPacket_iff.1 hs
    have hp : AtPacket (synced q) ty body rest := ⟨hty, hb, hr.unread_synced.trans hu⟩
    refine ⟨k, hk, hq.trans (synced_of_first hk), ?_, ?_⟩
    · rw [hq, hr.unread_synced, resync_of_first hk]
    · rw [hq, hp.packetSize]
      omega

/-- An instance: noise, and a packet that lies across the end of the array. -/
theorem isComplete_grammar_noise :
    let q : Queue := ⟨fun i => (bytes "+-" ++ encode 1 (bytes "PING\n")).getD ((i + 5) % queueSize).toNat 0,
      11, 131065⟩
    ((isCompletePacketAvailable q).1 = true ↔
      ∃ k, FirstPlus q.unread k ∧ StartsPacket (q.unread.drop k)) ∧
    ((isCompletePacketAvailable q).1 = true → ∃ k, FirstPlus q.unread k ∧
      (isCompletePacketAvailable q).2 = incrementReadNextIndex q k ∧
      (isCompletePacketAvailable q).2.unread = q.unread.drop k ∧
      3 ≤ getPacketSize (isCompletePacketAvailable q).2) :=
  isComplete_grammar ⟨⟨⟨by decide, by decide⟩, by decide, by decide⟩, by decide⟩

/-! ## Noise -/

/-- Noise that does not end in a `+` leaves the first delimiter where the packet
    starts. -/
theorem first_behind_noise {g p : List BYTE} (hg : ¬ plusPlusPlus <:+: g)
    (hlast : g.getLast? ≠ some 43) (hp : p.take 3 = plusPlusPlus) : FirstPlus (g ++ p) g.length := by
  refine ⟨by rw [List.drop_left]; exact hp, fun j hj hpj => ?_⟩
  rw [List.drop_append_of_le_length hj.le] at hpj
  -- the last byte of the noise is among the three, or all three are noise
  by_cases hin : j + 3 ≤ g.length
  · rw [List.take_append_of_le_length (by rw [List.length_drop]; omega)] at hpj
    exact hg ⟨g.take j, (g.drop j).drop 3, by
      rw [← hpj, List.append_assoc, List.take_append_drop, List.take_append_drop]⟩
  · refine hlast ?_
    have hget : ((g.drop j ++ p).take 3)[g.length - 1 - j]? = some 43 := by
      have hlt : g.length - 1 - j = 0 ∨ g.length - 1 - j = 1 := by omega
      rw [hpj]
      rcases hlt with h | h <;> rw [h] <;> rfl
    rw [List.getElem?_take_of_lt (by omega),
      List.getElem?_append_left (by rw [List.length_drop]; omega), List.getElem?_drop] at hget
    rw [List.getLast?_eq_getElem?, ← hget]
    congr 1
    omega

/-- Noise that ends in a `+` takes the first delimiter with it. -/
theorem not_first_of_plus {g p : List BYTE} (hlast : g.getLast? = some 43)
    (hp : p.take 3 = plusPlusPlus) : ¬ FirstPlus (g ++ p) g.length := by
  intro hfirst
  obtain ⟨g', rfl⟩ : ∃ g', g = g' ++ [43] := by
    rw [List.getLast?_eq_some_iff] at hlast
    exact hlast
  refine hfirst.2 g'.length (by simp) ?_
  obtain ⟨p', rfl⟩ : ∃ p', p = plusPlusPlus ++ p' :=
    ⟨p.drop 3, by rw [← hp, List.take_append_drop]⟩
  rw [List.append_assoc, List.drop_left]
  rfl

/-- **A packet behind noise is found** exactly if the noise does not end in a
    `+`. -/
theorem noise_skipped_iff (h : Valid q) {g body : List BYTE} {ty : PacketType}
    (hg : ¬ plusPlusPlus <:+: g) (hty : 1 ≤ ty ∧ ty ≤ 4) (hb : body.length ≤ 65532)
    (hu : q.unread = g ++ encode ty body) :
    isCompletePacketAvailable q = (true, incrementReadNextIndex q g.length) ↔
      g.getLast? ≠ some 43 := by
  have hr := h.toInRange
  have hp : (encode ty body).take 3 = plusPlusPlus := rfl
  constructor
  · intro hfound hlast
    have ht : (isCompletePacketAvailable q).1 = true := by rw [hfound]
    obtain ⟨k, hk⟩ := exists_first ((isComplete_true_iff hr).1 ht).take
    have hq := isComplete_synced hr ht
    rw [hfound, synced_of_first hk] at hq
    -- the two places are less than the size of the ring apart
    have hcount : (incrementReadNextIndex q g.length).count = (incrementReadNextIndex q k).count := by
      rw [show incrementReadNextIndex q g.length = incrementReadNextIndex q k from hq]
    have hl : q.count = g.length + (body.length + 9) := by
      rw [← length_unread, hu, List.length_append, length_encode]
    have hkl := hk.lt
    rw [length_unread] at hkl
    rw [hr.count_inc (by omega), hr.count_inc (by omega)] at hcount
    have hkg : k = g.length := by omega
    rw [hu, hkg] at hk
    exact not_first_of_plus hlast hp hk
  · intro hlast
    have hk : FirstPlus q.unread g.length := hu ▸ first_behind_noise hg hlast hp
    have ht : (isCompletePacketAvailable q).1 = true := by
      rw [isComplete_true_iff hr, resync_of_first hk, hu, List.drop_left, startsPacket_iff]
      exact ⟨ty, body, [], (acceptedType_iff ty).1 hty, hb, (List.append_nil _).symm⟩
    exact Prod.ext ht ((isComplete_synced hr ht).trans (synced_of_first hk))

/-- An instance: the end of an earlier packet in front of one that wraps. -/
theorem noise_skipped_end :
    let q : Queue := ⟨fun i => (bytes "7---" ++ encode 1 (bytes "PING\n")).getD ((i + 5) % queueSize).toNat 0,
      13, 131065⟩
    isCompletePacketAvailable q = (true, incrementReadNextIndex q (bytes "7---").length) := by
  intro q
  have hu : q.unread = bytes "7---" ++ encode 1 (bytes "PING\n") := by decide
  exact (noise_skipped_iff ⟨⟨⟨by decide, by decide⟩, by decide, by decide⟩, by decide⟩ (by decide)
    ⟨by decide, by decide⟩ (by decide) hu).2 (by decide)

/-- A single `+` in front of a packet: `+++` is found one byte early, the size
    is read from `+` and the low byte of the size, and the recogniser waits for
    2097 bytes. -/
theorem noise_plus :
    let q : Queue := ⟨fun i => (bytes "+" ++ encode 1 (bytes "PING\n")).getD i.toNat 0, 15, 0⟩
    q.unread = bytes "+" ++ encode 1 (bytes "PING\n") ∧ ¬ plusPlusPlus <:+: bytes "+" ∧
      (isCompletePacketAvailable q).1 = false ∧ getPacketSize (isCompletePacketAvailable q).2 = 2091 := by
  decide +kernel

end

end CpcLink

/-
  Does every byte come back?

  The ring of the program forgets what it holds when it has taken in as many bytes as it
  has cells (`Overrun`).  The program loses nothing else, whatever the CPC does in between;
  what a reset drops is lost before it is read.
-/
import CpcLink.Loopback
import CpcLink.Lib.Overrun
import CpcLink.Proof.Gpio

namespace CpcLink

open CircularBuffer

namespace Loopback

/-- The bytes in the ring. -/
def held (s : Loopback) : List BYTE := contents s.queue loopbackQueueSz s.wptr s.rptr

/-- The byte that `receive` takes in, if it takes one in. -/
def received (sched : Schedule) (s : Loopback) : List BYTE :=
  let dor := s.pi.access sched (.digitalRead pinDor)
  if dor.1 then [UInt8.ofNat (readFifoByte sched dor.2).1] else []

/-- The bytes that have been taken in. -/
def taken (sched : Schedule) (gpio : Gpio) : ℕ → List BYTE
  | 0 => []
  | n + 1 => taken sched gpio n ++ (after sched gpio n).received sched

/-- The program between two rounds, after `given` was taken in: `put` is what had gone
    through the FIFO to the CPC before. -/
structure Echoes (given put : List BYTE) (s : Loopback) : Prop where
  pins : SetUp s.pi.gpio
  rptr : 0 ≤ s.rptr ∧ s.rptr < loopbackQueueSz
  wptr : 0 ≤ s.wptr ∧ s.wptr < loopbackQueueSz
  ring : ∃ back, s.pi.gpio.toCpc.put = put ++ back ∧ Overrun loopbackQueueSz given back s.held

variable {given put : List BYTE} {s : Loopback}

theorem next_bounds {i : ℤ} (h : 0 ≤ i) :
    0 ≤ (i + 1).tmod loopbackQueueSz ∧ (i + 1).tmod loopbackQueueSz < loopbackQueueSz :=
  ⟨Int.tmod_nonneg _ (by omega), Int.tmod_lt_of_pos _ (by decide)⟩

theorem Echoes.index (h : Echoes given put s) : Index loopbackQueueSz s.wptr :=
  ⟨lt_of_lt_of_le (by decide) h.wptr.1, h.wptr.2⟩

theorem held_nil_iff (h : Echoes given put s) : s.held = [] ↔ s.wptr = s.rptr := by
  constructor
  · intro hnil
    by_contra hne
    rw [held, contents_pop h.index h.wptr.1 h.rptr.1 h.rptr.2 (Ne.symm hne)] at hnil
    cases hnil
  · intro he
    rw [held, he]
    exact contents_self

/-- Only the pins have moved. -/
theorem Echoes.moved (h : Echoes given put s) {pi : PiSide} (hpins : SetUp pi.gpio)
    (hmoved : CpcMoved s.pi.gpio pi.gpio) : Echoes given put { s with pi := pi } where
  pins := hpins
  rptr := h.rptr
  wptr := h.wptr
  ring := by
    obtain ⟨back, hput, hring⟩ := h.ring
    exact ⟨back, hmoved.put.trans hput, hring⟩

/-- What `receive` does: nothing, or it takes a byte in.  Without a reset it is the one in
    front. -/
theorem receive_cases (sched : Schedule) (hpins : SetUp s.pi.gpio) :
    (∃ pi, s.receive sched = { s with pi := pi } ∧ s.received sched = [] ∧ SetUp pi.gpio ∧
        CpcMoved s.pi.gpio pi.gpio ∧ pi.gpio.toPi.held = []) ∨
      ∃ v pi, s.receive sched = { s with
          queue := Function.update s.queue s.rptr v
          rptr := move loopbackQueueSz s.rptr 1
          pi := pi } ∧ s.received sched = [v] ∧ SetUp pi.gpio ∧
        pi.gpio.toCpc.put = s.pi.gpio.toCpc.put ∧
        (Undisturbed sched s.pi.clock pi.clock →
          pi.gpio.toPi.got = s.pi.gpio.toPi.got ++ [v]) := by
  obtain ⟨hpins', hmoved⟩ := poll_kept sched hpins (by decide : (PinOp.digitalRead pinDor).Quiet)
  have hpoll := access_later sched s.pi (.digitalRead pinDor)
  unfold receive received
  dsimp only
  split_ifs with hdor
  · obtain ⟨hpins'', hput⟩ := readFifoByte_kept sched hpins'
    refine .inr ⟨_, _, rfl, rfl, hpins'', hput.trans hmoved.put, fun hno => ?_⟩
    rw [poll_dor, Passage.hasSome_iff] at hdor
    obtain ⟨v, rest, hheld⟩ := List.exists_cons_of_ne_nil hdor
    obtain ⟨hval, hgot, -⟩ := readFifoByte_spec sched hpins' (hno.mono hpoll.clock le_rfl) hheld
    rw [hval, UInt8.ofNat_toNat, hgot, hmoved.got]
  · refine .inl ⟨_, rfl, rfl, hpins', hmoved, ?_⟩
    rw [poll_dor, Passage.hasSome_iff, not_not] at hdor
    exact hdor

/-- What `send` does: nothing, as the ring is empty or the FIFO full, or it puts a byte out. -/
theorem send_cases (sched : Schedule) (hpins : SetUp s.pi.gpio) :
    (∃ pi, s.send sched = { s with pi := pi } ∧ SetUp pi.gpio ∧ CpcMoved s.pi.gpio pi.gpio ∧
        (s.wptr = s.rptr ∨ pi.gpio.toCpc.hasRoom = false)) ∨
      s.wptr ≠ s.rptr ∧
      ∃ pi, s.send sched = { s with wptr := move loopbackQueueSz s.wptr 1, pi := pi } ∧
        SetUp pi.gpio ∧ pi.gpio.toPi.got = s.pi.gpio.toPi.got ∧
        pi.gpio.toCpc.put = s.pi.gpio.toCpc.put ++ [s.queue s.wptr] := by
  obtain ⟨hpins', hmoved⟩ := poll_kept sched hpins (by decide : (PinOp.digitalRead pinDir).Quiet)
  by_cases hne : s.wptr ≠ s.rptr
  · by_cases hdir : (s.pi.access sched (.digitalRead pinDir)).1 = true
    · obtain ⟨hpins'', hput, hgot⟩ :=
        writeFifoByte_spec sched hpins' hdir (s.queue s.wptr)
      refine .inr ⟨hne, _, ?_, hpins'', hgot.trans hmoved.got, hput.trans (by rw [hmoved.put])⟩
      simp only [send, if_pos hne, hdir, if_true, move]
    · refine .inl ⟨(s.pi.access sched (.digitalRead pinDir)).2, ?_, hpins', hmoved, .inr ?_⟩
      · rw [send, if_pos hne]
        exact if_neg hdir
      · rwa [poll_dir, Bool.not_eq_true] at hdir
  · exact .inl ⟨s.pi, by rw [send, if_neg hne], hpins, .refl _, .inl (not_not.1 hne)⟩

theorem receive_kept (sched : Schedule) (h : Echoes given put s) :
    Echoes (given ++ s.received sched) put (s.receive sched) := by
  rcases receive_cases sched h.pins with
    ⟨pi, he, hnone, hpins, hmoved, -⟩ | ⟨v, pi, he, hone, hpins, hput, -⟩
  · rw [he, hnone, List.append_nil]
    exact h.moved hpins hmoved
  · obtain ⟨back, hput', hring⟩ := h.ring
    have hlt : s.held.length < loopbackQueueSz := hring.held_lt (by decide)
    rw [he, hone]
    refine ⟨hpins, next_bounds h.rptr.1, h.wptr, back, hput.trans hput', ?_⟩
    rw [held, contents_push h.index h.wptr.1 h.rptr.1 h.rptr.2 v]
    split
    · next hroom => exact hring.push v (Int.ofNat_lt.1 hroom)
    · next hfull =>
      refine hring.forget v (le_antisymm hlt ?_)
      exact Int.ofNat_le.1 (not_lt.1 hfull)

theorem send_kept (sched : Schedule) (h : Echoes given put s) : Echoes given put (s.send sched) := by
  rcases send_cases sched h.pins with ⟨pi, he, hpins, hmoved, -⟩ | ⟨hne, pi, he, hpins, -, hput⟩
  · rw [he]
    exact h.moved hpins hmoved
  · obtain ⟨back, hput', hring⟩ := h.ring
    rw [held, contents_pop h.index h.wptr.1 h.rptr.1 h.rptr.2 (Ne.symm hne)] at hring
    rw [he]
    refine ⟨hpins, h.rptr, next_bounds h.wptr.1, back ++ [s.queue s.wptr], ?_, hring.pop⟩
    rw [hput, hput', List.append_assoc]

theorem round_kept (sched : Schedule) (h : Echoes given put s) :
    Echoes (given ++ s.received sched) put (s.round sched) :=
  send_kept sched (receive_kept sched h)

theorem start_echoes (sched : Schedule) (gpio : Gpio) :
    Echoes [] (start sched gpio).pi.gpio.toCpc.put (start sched gpio) where
  pins := setupPins_spec sched _
  rptr := ⟨le_rfl, (by decide : (0 : ℤ) < loopbackQueueSz)⟩
  wptr := ⟨le_rfl, (by decide : (0 : ℤ) < loopbackQueueSz)⟩
  ring := by
    refine ⟨[], (List.append_nil _).symm, ?_⟩
    rw [held, start, contents_self]
    exact .start

theorem after_echoes (sched : Schedule) (gpio : Gpio) (n : ℕ) :
    Echoes (taken sched gpio n) (start sched gpio).pi.gpio.toCpc.put (after sched gpio n) := by
  induction n with
  | zero => exact start_echoes sched gpio
  | succ n ih => exact round_kept sched ih

section
variable {sched : Schedule}

theorem receive_later (sched : Schedule) (s : Loopback) : Later sched s.pi (s.receive sched).pi := by
  have hpoll := access_later sched s.pi (.digitalRead pinDor)
  rw [receive]
  split_ifs
  · exact hpoll.trans (readFifoByte_later sched _)
  · exact hpoll

theorem send_later (sched : Schedule) (s : Loopback) : Later sched s.pi (s.send sched).pi := by
  have hpoll := access_later sched s.pi (.digitalRead pinDir)
  rw [send]
  dsimp only
  split_ifs
  · exact hpoll.trans (accesses_later sched _ _)
  · exact hpoll
  · exact .refl sched _

theorem round_later (sched : Schedule) (s : Loopback) : Later sched s.pi (s.round sched).pi :=
  (receive_later sched s).trans (send_later sched _)

theorem rounds_later (sched : Schedule) (gpio : Gpio) (n k : ℕ) :
    Later sched (after sched gpio n).pi (after sched gpio (n + k)).pi := by
  induction k with
  | zero => exact .refl sched _
  | succ k ih => exact ih.trans (round_later sched (after sched gpio (n + k)))

theorem after_later (sched : Schedule) (gpio : Gpio) (n : ℕ) :
    Later sched (start sched gpio).pi (after sched gpio n).pi := by
  simpa [after] using rounds_later sched gpio 0 n

theorem send_got (sched : Schedule) (hpins : SetUp s.pi.gpio) :
    (s.send sched).pi.gpio.toPi.got = s.pi.gpio.toPi.got := by
  rcases send_cases sched hpins with ⟨pi, he, -, hmoved, -⟩ | ⟨-, pi, he, -, hgot, -⟩ <;> rw [he]
  · exact hmoved.got
  · exact hgot

/-- Without a reset, what comes out of the FIFO is what is taken in. -/
theorem receive_got (sched : Schedule) (hpins : SetUp s.pi.gpio)
    (hno : Undisturbed sched s.pi.clock (s.receive sched).pi.clock) :
    (s.receive sched).pi.gpio.toPi.got = s.pi.gpio.toPi.got ++ s.received sched := by
  rcases receive_cases sched hpins with
    ⟨pi, he, hnone, -, hmoved, -⟩ | ⟨v, pi, he, hone, -, -, hgot⟩
  · rw [he, hnone, List.append_nil]
    exact hmoved.got
  · rw [he] at hno ⊢
    rw [hone]
    exact hgot hno

theorem after_got (sched : Schedule) (gpio : Gpio) {n : ℕ}
    (hno : Undisturbed sched (start sched gpio).pi.clock (after sched gpio n).pi.clock) :
    (after sched gpio n).pi.gpio.toPi.got =
      (start sched gpio).pi.gpio.toPi.got ++ taken sched gpio n := by
  induction n with
  | zero => exact (List.append_nil _).symm
  | succ n ih =>
    have hechoes := after_echoes sched gpio n
    have hreceive := receive_later sched (after sched gpio n)
    have hsend := send_later sched ((after sched gpio n).receive sched)
    have hlater := after_later sched gpio n
    rw [after, round] at hno ⊢
    rw [send_got sched (receive_kept sched hechoes).pins,
      receive_got sched hechoes.pins (hno.mono hlater.clock hsend.clock),
      ih (hno.mono le_rfl (hreceive.clock.trans hsend.clock)), taken, List.append_assoc]

/-- **What is lost.**  Whatever the CPC does in between: the bytes that have come back and
    the ones in the ring are bytes that were taken in, in their order, and what is missing are
    as many as the ring has cells, or a multiple of it.  Nothing is missing exactly when the
    bytes that came back are less than a ring behind.  The bytes that were taken in are the
    ones that came out of the FIFO, unless the CPC has reset it. -/
theorem after_lost (sched : Schedule) (gpio : Gpio) (n : ℕ) :
    (∃ back,
      (after sched gpio n).pi.gpio.toCpc.put = (start sched gpio).pi.gpio.toCpc.put ++ back ∧
      (back ++ (after sched gpio n).held).Sublist (taken sched gpio n) ∧
      (∃ rounds, (taken sched gpio n).length =
        back.length + (after sched gpio n).held.length + loopbackQueueSz * rounds) ∧
      (back ++ (after sched gpio n).held = taken sched gpio n ↔
        (taken sched gpio n).length < back.length + loopbackQueueSz)) ∧
    (Undisturbed sched (start sched gpio).pi.clock (after sched gpio n).pi.clock →
      (after sched gpio n).pi.gpio.toPi.got =
        (start sched gpio).pi.gpio.toPi.got ++ taken sched gpio n) := by
  obtain ⟨back, hput, hring⟩ := (after_echoes sched gpio n).ring
  exact ⟨⟨back, hput, hring.sublist, hring.lost, hring.kept_iff (by decide)⟩,
    after_got sched gpio⟩

/-! ## A CPC that reads what it has sent -/

/-- From an access on, the CPC only reads. -/
def Listens (sched : Schedule) (clock : ℕ) : Prop := ∀ t ≥ clock, ∀ e ∈ (sched t).host, e = .take

/-- It reads between two times. -/
def ReadsIn (sched : Schedule) (t t' : ℕ) : Prop := ∃ i ≥ t, i < t' ∧ .take ∈ (sched i).host

theorem Listens.later {p p' : PiSide} (h : Listens sched p.clock) (hp : Later sched p p') :
    Listens sched p'.clock := fun t ht => h t (hp.clock.trans ht)

/-- Then nothing is sent, and nothing is dropped. -/
theorem Listens.silent {p p' : PiSide} (h : Listens sched p.clock) (hp : Later sched p p') :
    p'.gpio.toPi.put = p.gpio.toPi.put :=
  hp.put fun t ht _ => h t ht

theorem Listens.undisturbed {t t' : ℕ} (h : Listens sched t) : Undisturbed sched t t' :=
  fun i hi _ hreset => by cases h i hi _ hreset

/-- The bytes that have been sent and have not come back to the interface. -/
def waiting (s : Loopback) : ℕ := s.pi.gpio.toPi.held.length + s.held.length

/-- Nothing new waits. -/
theorem Listens.count {p p' : PiSide} (h : Listens sched p.clock) (hp : Later sched p p') :
    p'.gpio.toPi.got.length + p'.gpio.toPi.held.length =
      p.gpio.toPi.got.length + p.gpio.toPi.held.length := by
  have hkept := (hp.kept h.undisturbed).1.length
  rw [h.silent hp] at hkept
  omega

/-- A byte is taken in, or the ring is not empty, or nothing waits any more. -/
theorem receive_waiting (h : Echoes given put s) (hlistens : Listens sched s.pi.clock) :
    (s.receive sched).waiting ≤ s.waiting ∧
      ((s.receive sched).waiting ≤ s.waiting - 1 ∨ (s.receive sched).held ≠ []) := by
  have hcount := hlistens.count (receive_later sched s)
  rcases receive_cases sched h.pins with
    ⟨pi, he, -, -, hmoved, hnil⟩ | ⟨v, pi, he, hone, -, -, -⟩
  · have hheld : (s.receive sched).held = s.held := by rw [he]; rfl
    rw [waiting, waiting, hheld]
    rw [he] at hcount ⊢
    simp only [hmoved.got, hnil, List.length_nil] at hcount ⊢
    refine ⟨by omega, ?_⟩
    by_cases hempty : s.held = []
    · left
      rw [hempty, List.length_nil]
      omega
    · exact .inr hempty
  · have hheld : (s.receive sched).held =
        if (s.held.length : ℤ) + 1 < loopbackQueueSz then s.held ++ [v] else [] := by
      rw [he]
      exact contents_push h.index h.wptr.1 h.rptr.1 h.rptr.2 v
    have hgot := congrArg List.length (receive_got sched h.pins hlistens.undisturbed)
    rw [hone, List.length_append, List.length_singleton] at hgot
    rw [waiting, waiting, hheld]
    split
    · rw [List.length_append, List.length_singleton]
      exact ⟨by omega, .inr (List.append_ne_nil_of_right_ne_nil _ (List.cons_ne_nil _ _))⟩
    · rw [List.length_nil]
      exact ⟨by omega, .inl (by omega)⟩

/-- A byte of the ring goes out, or the FIFO is full. -/
theorem send_waiting (h : Echoes given put s) (hlistens : Listens sched s.pi.clock) :
    (s.send sched).waiting ≤ s.waiting ∧
      (s.held ≠ [] → (s.send sched).waiting ≤ s.waiting - 1 ∨
        (s.send sched).pi.gpio.toCpc.put = s.pi.gpio.toCpc.put ∧
        (s.send sched).pi.gpio.toCpc.hasRoom = false) := by
  have hcount := hlistens.count (send_later sched s)
  rw [send_got sched h.pins] at hcount
  rcases send_cases sched h.pins with ⟨pi, he, -, hmoved, hwhy⟩ | ⟨hne, pi, he, -, -, -⟩
  · have hheld : (s.send sched).held = s.held := by rw [he]; rfl
    rw [waiting, waiting, hheld]
    refine ⟨by omega, fun hsome => .inr ?_⟩
    rw [he]
    exact ⟨hmoved.put, hwhy.resolve_left fun hindices => hsome ((held_nil_iff h).2 hindices)⟩
  · have hheld : s.held = s.queue s.wptr :: (s.send sched).held := by
      rw [he]
      exact contents_pop h.index h.wptr.1 h.rptr.1 h.rptr.2 (Ne.symm hne)
    rw [waiting, waiting, hheld, List.length_cons]
    exact ⟨by omega, fun _ => .inl (by omega)⟩

theorem receive_put (sched : Schedule) (hpins : SetUp s.pi.gpio) :
    (s.receive sched).pi.gpio.toCpc.put = s.pi.gpio.toCpc.put := by
  rcases receive_cases sched hpins with
    ⟨pi, he, -, -, hmoved, -⟩ | ⟨v, pi, he, -, -, hput, -⟩ <;> rw [he]
  · exact hmoved.put
  · exact hput

/-- One byte less, unless the CPC has not read in this round. -/
theorem round_waiting (h : Echoes given put s) (hlistens : Listens sched s.pi.clock) :
    (s.round sched).waiting ≤ s.waiting ∧
      ((s.round sched).waiting ≤ s.waiting - 1 ∨
        ¬ ReadsIn sched s.pi.clock (s.round sched).pi.clock) := by
  obtain ⟨hle, hless⟩ := receive_waiting h hlistens
  obtain ⟨hle', hless'⟩ := send_waiting (receive_kept sched h)
    (hlistens.later (receive_later sched s))
  refine ⟨hle'.trans hle, ?_⟩
  rcases hless with hless | hsome
  · exact .inl (hle'.trans hless)
  rcases hless' hsome with hless' | ⟨hput, hfull⟩
  · exact .inl (hless'.trans (Nat.sub_le_sub_right hle 1))
  · refine .inr fun hreads => ?_
    have hroom := (round_later sched s).room (hput.trans (receive_put sched h.pins)) (.inr hreads)
    rw [round, hfull] at hroom
    cases hroom

theorem round_clock (sched : Schedule) (s : Loopback) : s.pi.clock < (s.round sched).pi.clock := by
  refine lt_of_lt_of_le ?_ (send_later sched (s.receive sched)).clock
  rw [receive]
  split_ifs
  · exact (readFifoByte_later sched (s.pi.access sched (.digitalRead pinDor)).2).clock
  · exact Nat.lt_succ_self _

section
variable {gpio : Gpio} {n : ℕ}

theorem rounds_clock (sched : Schedule) (gpio : Gpio) (n k : ℕ) :
    (after sched gpio n).pi.clock + k ≤ (after sched gpio (n + k)).pi.clock := by
  induction k with
  | zero => exact le_rfl
  | succ k ih =>
    have hround := round_clock sched (after sched gpio (n + k))
    change _ ≤ ((after sched gpio (n + k)).round sched).pi.clock
    omega

theorem rounds_waiting (hlistens : Listens sched (after sched gpio n).pi.clock) (k : ℕ) :
    (after sched gpio (n + k)).waiting ≤ (after sched gpio n).waiting ∧
      ((after sched gpio (n + k)).waiting ≤ (after sched gpio n).waiting - 1 ∨
        ¬ ReadsIn sched (after sched gpio n).pi.clock (after sched gpio (n + k)).pi.clock) := by
  induction k with
  | zero => exact ⟨le_rfl, .inr fun ⟨i, hi, hlt, _⟩ => hi.not_gt hlt⟩
  | succ k ih =>
    obtain ⟨hle, hless⟩ := ih
    obtain ⟨hle', hless'⟩ := round_waiting (after_echoes sched gpio (n + k))
      (hlistens.later (rounds_later sched gpio n k))
    change ((after sched gpio (n + k)).round sched).waiting ≤ _ ∧
      (((after sched gpio (n + k)).round sched).waiting ≤ _ ∨ _)
    refine ⟨hle'.trans hle, ?_⟩
    rcases hless with hless | hquiet
    · exact .inl (hle'.trans hless)
    rcases hless' with hless' | hquiet'
    · exact .inl (hless'.trans (Nat.sub_le_sub_right hle 1))
    · refine .inr fun ⟨i, hi, hlt, htake⟩ => ?_
      rcases Nat.lt_or_ge i (after sched gpio (n + k)).pi.clock with hbefore | hafter
      · exact hquiet ⟨i, hi, hbefore, htake⟩
      · exact hquiet' ⟨i, hafter, hlt, htake⟩

/-- One byte less once the CPC has read. -/
theorem waiting_of_reads (hlistens : Listens sched (after sched gpio n).pi.clock) {k : ℕ}
    (hreads : ReadsIn sched (after sched gpio n).pi.clock ((after sched gpio n).pi.clock + k)) :
    (after sched gpio (n + k)).waiting ≤ (after sched gpio n).waiting - 1 := by
  obtain ⟨i, hi, hlt, htake⟩ := hreads
  refine (rounds_waiting hlistens k).2.resolve_right (not_not.2 ⟨i, hi, ?_, htake⟩)
  exact hlt.trans_le (rounds_clock sched gpio n k)

/-- A CPC that reads again and again is waited for. -/
theorem waiting_fair (hlistens : Listens sched (after sched gpio n).pi.clock)
    (hreads : ∀ t ≥ (after sched gpio n).pi.clock, ∃ t', ReadsIn sched t t') :
    ∃ m, (after sched gpio (n + m)).waiting = 0 := by
  induction hw : (after sched gpio n).waiting using Nat.strong_induction_on generalizing n with
  | _ w ih =>
    subst hw
    rcases Nat.eq_zero_or_pos (after sched gpio n).waiting with hnone | hsome
    · exact ⟨0, hnone⟩
    obtain ⟨t', i, hi, hlt, htake⟩ := hreads _ le_rfl
    have hless := waiting_of_reads hlistens ⟨i, hi, by omega, htake⟩ (k := t')
    have hlater := rounds_later sched gpio n t'
    obtain ⟨m, hm⟩ := ih _ (by omega) (hlistens.later hlater)
      (fun t ht => hreads t (hlater.clock.trans ht)) rfl
    exact ⟨t' + m, by rw [← Nat.add_assoc]; exact hm⟩

/-- If it reads once in every `period` accesses, a byte comes back in as many rounds. -/
theorem waiting_within (hlistens : Listens sched (after sched gpio n).pi.clock) {period : ℕ}
    (hreads : ∀ t ≥ (after sched gpio n).pi.clock, ReadsIn sched t (t + period)) (j : ℕ) :
    (after sched gpio (n + period * j)).waiting ≤ (after sched gpio n).waiting - j := by
  induction j with
  | zero => exact le_rfl
  | succ j ih =>
    have hlater := rounds_later sched gpio n (period * j)
    have hless := waiting_of_reads (hlistens.later hlater) (hreads _ hlater.clock)
    rw [Nat.mul_succ, ← Nat.add_assoc]
    omega

/-- A byte is in one of the FIFOs, in the ring, or back at the CPC. -/
theorem kept_of_window (hpower : PowerUp gpio) (hno : Undisturbed sched 0 (after sched gpio n).pi.clock)
    (h : (after sched gpio n).pi.gpio.toPi.put.length <
      (after sched gpio n).pi.gpio.toCpc.put.length + loopbackQueueSz) :
    (after sched gpio n).pi.gpio.toCpc.got ++ (after sched gpio n).pi.gpio.toCpc.held ++
      (after sched gpio n).held ++ (after sched gpio n).pi.gpio.toPi.held =
        (after sched gpio n).pi.gpio.toPi.put := by
  obtain ⟨back, hput, hring⟩ := (after_echoes sched gpio n).ring
  obtain ⟨hgot0, hput0⟩ := hpower.start sched
  have hgot := after_got sched gpio (hno.mono (Nat.zero_le _) le_rfl)
  have hpower' := (accesses_later sched ⟨gpio, 0⟩ setupPins).trans (after_later sched gpio n)
  obtain ⟨hpi, hcpc⟩ := hpower'.kept hno
  have hcount := Passage.length_put (after sched gpio n).pi.gpio.toPi
  rw [start, hgot0, List.nil_append] at hgot
  rw [start, hput0, List.nil_append] at hput
  have hall : back ++ (after sched gpio n).held = taken sched gpio n := by
    rw [hring.kept_iff (by decide)]
    rw [hput] at h
    rw [hgot] at hcount
    omega
  rw [hcpc.passes hpower.toCpc, hput, hall, ← hgot, hpi.passes hpower.toPi]

/-- When nothing waits any more, everything has come back to the interface. -/
theorem put_of_waiting (hpower : PowerUp gpio)
    (hno : Undisturbed sched 0 (after sched gpio n).pi.clock)
    (hlistens : Listens sched (after sched gpio n).pi.clock)
    (hwindow : (after sched gpio n).pi.gpio.toPi.put.length <
      (after sched gpio n).pi.gpio.toCpc.put.length + loopbackQueueSz) {k : ℕ}
    (hnone : (after sched gpio (n + k)).waiting = 0) :
    (after sched gpio (n + k)).pi.gpio.toCpc.put = (after sched gpio n).pi.gpio.toPi.put := by
  have hlater := rounds_later sched gpio n k
  have hput := hlistens.silent hlater
  have hno' : Undisturbed sched 0 (after sched gpio (n + k)).pi.clock := by
    intro i _ hi
    rcases Nat.lt_or_ge i (after sched gpio n).pi.clock with hbefore | hafter
    · exact hno i (Nat.zero_le _) hbefore
    · exact hlistens.undisturbed i hafter hi
  have hpower' := (accesses_later sched ⟨gpio, 0⟩ setupPins).trans (after_later sched gpio (n + k))
  have hkept := kept_of_window hpower hno' (by
    have := hlater.grows.length_le
    rw [hput]
    omega)
  rw [waiting, Nat.add_eq_zero_iff, List.length_eq_zero_iff, List.length_eq_zero_iff] at hnone
  rwa [hnone.1, hnone.2, List.append_nil, List.append_nil,
    (hpower'.kept hno').2.passes hpower.toCpc, hput] at hkept

/-- **A CPC that keeps count.**  While fewer bytes are under way than the ring has cells, and
    nothing was reset, every byte is in a FIFO or in the ring, or it has come back, in the order
    in which it was sent.  If the CPC then only reads, all of them come back to its side, however
    slow it is; if it reads once in every `period` accesses, after as many rounds for each cell
    of the ring. -/
theorem after_echo (sched : Schedule) (hpower : PowerUp gpio)
    (hno : Undisturbed sched 0 (after sched gpio n).pi.clock)
    (hwindow : (after sched gpio n).pi.gpio.toPi.put.length <
      (after sched gpio n).pi.gpio.toCpc.got.length + loopbackQueueSz) :
    (after sched gpio n).pi.gpio.toCpc.got ++ (after sched gpio n).pi.gpio.toCpc.held ++
        (after sched gpio n).held ++ (after sched gpio n).pi.gpio.toPi.held =
      (after sched gpio n).pi.gpio.toPi.put ∧
    (Listens sched (after sched gpio n).pi.clock →
      ((∀ t ≥ (after sched gpio n).pi.clock, ∃ t', ReadsIn sched t t') →
        ∃ m, ∀ k ≥ m,
          (after sched gpio (n + k)).pi.gpio.toCpc.put = (after sched gpio n).pi.gpio.toPi.put) ∧
      ∀ period, (∀ t ≥ (after sched gpio n).pi.clock, ReadsIn sched t (t + period)) →
        ∀ k ≥ period * loopbackQueueSz,
          (after sched gpio (n + k)).pi.gpio.toCpc.put =
            (after sched gpio n).pi.gpio.toPi.put) := by
  have hcpc := Passage.length_put (after sched gpio n).pi.gpio.toCpc
  have hwindow' : (after sched gpio n).pi.gpio.toPi.put.length <
      (after sched gpio n).pi.gpio.toCpc.put.length + loopbackQueueSz := by omega
  have hnow := kept_of_window hpower hno hwindow'
  refine ⟨hnow, fun hlistens => ?_⟩
  -- nothing waits from the first round on in which nothing waits
  have hfrom : ∀ m, (after sched gpio (n + m)).waiting = 0 → ∀ k ≥ m,
      (after sched gpio (n + k)).pi.gpio.toCpc.put = (after sched gpio n).pi.gpio.toPi.put := by
    intro m hm k hk
    obtain ⟨j, rfl⟩ := Nat.exists_eq_add_of_le hk
    have hle := (rounds_waiting (hlistens.later (rounds_later sched gpio n m)) j).1
    rw [hm, Nat.add_assoc] at hle
    exact put_of_waiting hpower hno hlistens hwindow' (Nat.le_zero.1 hle)
  constructor
  · intro hreads
    obtain ⟨m, hm⟩ := waiting_fair hlistens hreads
    exact ⟨m, hfrom m hm⟩
  · intro period hreads
    have hwithin := waiting_within hlistens hreads loopbackQueueSz
    have hcount := congrArg List.length hnow
    simp only [List.length_append] at hcount
    have hless : (after sched gpio n).waiting < loopbackQueueSz := by
      rw [waiting]
      omega
    exact hfrom _ (by omega)

end

/-- Three bytes while the pins are set up, and then a CPC that reads at every fifth access. -/
def threeBytes : Schedule := fun t =>
  ⟨if t < 3 then [.put (UInt8.ofNat (65 + t))] else if t % 5 = 0 then [.take] else [], 0⟩

theorem after_echo_three :
    (∃ m, ∀ k ≥ m, (after threeBytes .reset (0 + k)).pi.gpio.toCpc.put = [65, 66, 67]) ∧
    (after threeBytes .reset (0 + 5 * loopbackQueueSz)).pi.gpio.toCpc.put = [65, 66, 67] := by
  have hno : Undisturbed threeBytes 0 (after threeBytes .reset 0).pi.clock := by
    intro t _ _ h
    rw [threeBytes] at h
    split_ifs at h
    · cases List.mem_singleton.1 h
    · cases List.mem_singleton.1 h
    · cases h
  have hlistens : Listens threeBytes (after threeBytes .reset 0).pi.clock := by
    intro t (ht : 16 ≤ t) e he
    rw [threeBytes, if_neg (by omega)] at he
    split_ifs at he with hfifth
    · exact List.mem_singleton.1 he
    · cases he
  have hreads : ∀ t ≥ (after threeBytes .reset 0).pi.clock, ReadsIn threeBytes t (t + 5) := by
    intro t (ht : 16 ≤ t)
    refine ⟨(t + 4) / 5 * 5, by omega, by omega, ?_⟩
    rw [threeBytes, if_neg (by omega), if_pos (Nat.mul_mod_left _ _)]
    exact List.mem_singleton_self _
  obtain ⟨hfair, hwithin⟩ :=
    (after_echo threeBytes (n := 0) ⟨rfl, rfl, fun _ => rfl⟩ hno (by decide)).2 hlistens
  exact ⟨hfair fun t ht => ⟨t + 5, hreads t ht⟩, hwithin 5 hreads _ le_rfl⟩

end

end Loopback

end CpcLink

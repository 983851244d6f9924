/-
  Does the loader come where the line of BASIC looks for it?

  The line of BASIC throws 16 bytes away before it takes the loader.  When the CPC reads
  nothing until the FIFO is full, these are the 16 bytes that are in it then
  (`upload_arrives`), and the loader starts what comes behind it (`game_starts`).
-/
import CpcLink.Bootstrap
import CpcLink.Proof.Bootloader
import CpcLink.Proof.Gpio

namespace CpcLink.Bootstrap

variable {sched : Schedule} {files : Files} {gpio : Gpio} {s : Boot}

/-- Before the upload. -/
def Early (phase : Phase) : Prop := phase = .flushing ∨ phase = .toppingUp

/-- What is still to be sent. -/
def toSend (files : Files) : Phase → List BYTE
  | .flushing | .toppingUp | .waiting => upload files
  | .sending rest => rest

/-! ## The rounds -/

/-- A round of a loop reads a pin, and may read or write a byte then. -/
inductive Rounds (sched : Schedule) (files : Files) (s : Boot) : Boot → Prop
  | flushed {pi : PiSide} : s.phase = .flushing → SetUp pi.gpio → Later sched s.pi pi →
      (Undisturbed sched s.pi.clock pi.clock →
        ∃ v, pi.gpio.toPi.got = s.pi.gpio.toPi.got ++ [v]) →
      pi.gpio.toCpc.put = s.pi.gpio.toCpc.put → Rounds sched files s ⟨.flushing, pi⟩
  | written {pi : PiSide} {c : BYTE} {phase : Phase} :
      (s.phase = .toppingUp ∧ phase = .toppingUp ∧ c = 0xe5) ∨
        (∃ rest, s.phase = .sending (c :: rest) ∧ phase = .sending rest) →
      SetUp pi.gpio → Later sched s.pi pi → pi.gpio.toCpc.put = s.pi.gpio.toCpc.put ++ [c] →
      Rounds sched files s ⟨phase, pi⟩
  | polled {pi : PiSide} {phase : Phase} :
      (s.phase = .flushing ∧ phase = .toppingUp) ∨
        (s.phase = .toppingUp ∧ phase = .waiting ∧ pi.gpio.toCpc.held.length = fifoSize) ∨
        (s.phase = .waiting ∧ phase = .sending (upload files)) ∨
        ((s.pi.access sched (.digitalRead pinDir)).1 = false ∧ phase = s.phase ∧ ¬ Early s.phase) →
      SetUp pi.gpio → pi.clock = s.pi.clock + 1 → Later sched s.pi pi →
      pi.gpio.toCpc.put = s.pi.gpio.toCpc.put → Rounds sched files s ⟨phase, pi⟩
  | done : s.phase = .sending [] → Rounds sched files s s

theorem Rounds.later {s' : Boot} (h : Rounds sched files s s') : Later sched s.pi s'.pi := by
  cases h with
  | flushed _ _ hlater | written _ _ hlater | polled _ _ _ hlater => exact hlater
  | done => exact .refl sched _

theorem full_of_dir {p : PiSide} (h : (p.access sched (.digitalRead pinDir)).1 = false) :
    (p.access sched (.digitalRead pinDir)).2.gpio.toCpc.held.length = fifoSize := by
  have hroom : ¬ (p.access sched (.digitalRead pinDir)).2.gpio.toCpc.hasRoom = true := by
    rw [← poll_dir, h]
    exact Bool.false_ne_true
  rw [Passage.hasRoom_iff, not_lt] at hroom
  exact le_antisymm (p.access sched (.digitalRead pinDir)).2.gpio.toCpc.fits hroom

/-- A round that waits for `DIR`, and writes a byte. -/
theorem write_rounds {c : BYTE} {phase : Phase} (hpins : SetUp s.pi.gpio)
    (hdir : (s.pi.access sched (.digitalRead pinDir)).1 = true)
    (hphase : (s.phase = .toppingUp ∧ phase = .toppingUp ∧ c = 0xe5) ∨
      ∃ rest, s.phase = .sending (c :: rest) ∧ phase = .sending rest) :
    Rounds sched files s ⟨phase, (s.pi.access sched (.digitalRead pinDir)).2.accesses sched
      (writeFifoByte c)⟩ := by
  obtain ⟨hpins', hmoved⟩ := poll_kept sched hpins (by decide : (PinOp.digitalRead pinDir).Quiet)
  obtain ⟨hpins'', hput, -⟩ := writeFifoByte_spec sched hpins' hdir c
  refine .written hphase hpins'' ?_ (hput.trans (by rw [hmoved.put]))
  exact (access_later sched _ _).trans (accesses_later sched _ _)

/-- One in which `DIR` is looked at. -/
theorem poll_rounds {phase : Phase} (hpins : SetUp s.pi.gpio)
    (hphase : (s.phase = .toppingUp ∧ phase = .waiting ∧
          (s.pi.access sched (.digitalRead pinDir)).1 = false) ∨
        (s.phase = .waiting ∧ phase = .sending (upload files)) ∨
        ((s.pi.access sched (.digitalRead pinDir)).1 = false ∧ phase = s.phase ∧ ¬ Early s.phase)) :
    Rounds sched files s ⟨phase, (s.pi.access sched (.digitalRead pinDir)).2⟩ := by
  obtain ⟨hpins', hmoved⟩ := poll_kept sched hpins (by decide : (PinOp.digitalRead pinDir).Quiet)
  refine .polled (.inr ?_) hpins' rfl (access_later sched _ _) hmoved.put
  exact hphase.imp_left fun h => ⟨h.1, h.2.1, full_of_dir h.2.2⟩

theorem step_rounds (hpins : SetUp s.pi.gpio) : Rounds sched files s (step sched files s) := by
  unfold step
  split
  next hphase =>
    obtain ⟨hpins', hmoved⟩ := poll_kept sched hpins (by decide : (PinOp.digitalRead pinDor).Quiet)
    dsimp only
    split
    · next hdor =>
      rw [poll_dor, Passage.hasSome_iff] at hdor
      obtain ⟨v, rest, hheld⟩ := List.exists_cons_of_ne_nil hdor
      obtain ⟨hpins'', hput⟩ := readAtOnce_kept sched hpins'
      have hpoll := access_later sched s.pi (.digitalRead pinDor)
      have hread : Later sched (s.pi.access sched (.digitalRead pinDor)).2 _ :=
        readAtOnce_accesses sched _ ▸ accesses_later sched _ _
      refine .flushed hphase hpins'' (hpoll.trans hread) (fun hno => ⟨v, ?_⟩) (hput.trans hmoved.put)
      obtain ⟨-, hgot, -⟩ := readAtOnce_spec sched hpins' (hno.mono hpoll.clock le_rfl) hheld
      exact hgot.trans (by rw [hmoved.got])
    · exact .polled (.inl ⟨hphase, rfl⟩) hpins' rfl (access_later sched _ _) hmoved.put
  next hphase =>
    dsimp only
    split
    · next hdir => exact write_rounds hpins hdir (.inl ⟨hphase, rfl, rfl⟩)
    · next hdir =>
      rw [Bool.not_eq_true] at hdir
      exact poll_rounds hpins (.inl ⟨hphase, rfl, hdir⟩)
  next hphase =>
    dsimp only
    split
    · next hdir => exact poll_rounds hpins (.inr (.inl ⟨hphase, rfl⟩))
    · next hdir =>
      rw [Bool.not_eq_true] at hdir
      exact poll_rounds hpins (.inr (.inr ⟨hdir, hphase.symm, by rw [hphase]; rintro (h | h) <;> cases h⟩))
  next hphase => exact .done hphase
  next c rest hphase =>
    dsimp only
    split
    · next hdir => exact write_rounds hpins hdir (.inr ⟨rest, hphase, rfl⟩)
    · next hdir =>
      rw [Bool.not_eq_true] at hdir
      exact poll_rounds hpins (.inr (.inr ⟨hdir, hphase.symm, by rw [hphase]; rintro (h | h) <;> cases h⟩))

/-! ## What has been sent -/

/-- Fillers, and then a part of the upload; there are as many bytes before it as the FIFO
    holds. -/
structure Sends (files : Files) (put₀ : List BYTE) (s : Boot) : Prop where
  pins : SetUp s.pi.gpio
  stream : ∃ fill sent, s.pi.gpio.toCpc.put = put₀ ++ List.replicate fill 0xe5 ++ sent ∧
    sent ++ toSend files s.phase = upload files ∧
    (¬ Early s.phase → fifoSize ≤ put₀.length + fill)

theorem Early.toSend {phase : Phase} (h : Early phase) (files : Files) :
    toSend files phase = upload files := by
  rcases h with rfl | rfl <;> rfl

theorem Sends.kept {put₀ : List BYTE} {s' : Boot} (h : Sends files put₀ s)
    (hround : Rounds sched files s s') : Sends files put₀ s' := by
  obtain ⟨hpins, fill, sent, hput, hsent, hfull⟩ := h
  cases hround with
  | flushed hphase hpins' _ _ hkept =>
    refine ⟨hpins', fill, sent, hkept.trans hput, ?_, fun hlate => absurd (.inl rfl) hlate⟩
    rw [hphase] at hsent
    exact hsent
  | @written pi c phase hphase hpins' _ hkept =>
    rcases hphase with ⟨hphase, rfl, rfl⟩ | ⟨rest, hphase, rfl⟩
    · refine ⟨hpins', fill + 1, [], ?_, rfl, fun hlate => absurd (.inr rfl) hlate⟩
      rw [hphase] at hsent
      have hnil : sent = [] := List.append_left_eq_self.1 hsent
      rw [hkept, hput, hnil, List.replicate_succ', List.append_nil, List.append_nil,
        List.append_assoc]
    · rw [hphase] at hsent hfull
      refine ⟨hpins', fill, sent ++ [c], ?_, ?_, fun _ => hfull (by rintro (h | h) <;> cases h)⟩
      · rw [hkept, hput, List.append_assoc]
      · rw [List.append_assoc]
        exact hsent
  | @polled pi phase hphase hpins' _ _ hkept =>
    refine ⟨hpins', fill, sent, hkept.trans hput, ?_⟩
    rcases hphase with ⟨hphase, rfl⟩ | ⟨hphase, rfl, hlen⟩ | ⟨hphase, rfl⟩ | ⟨-, rfl, -⟩
    · rw [hphase] at hsent
      exact ⟨hsent, fun hlate => absurd (.inr rfl) hlate⟩
    · rw [hphase] at hsent
      have hnil : sent = [] := List.append_left_eq_self.1 hsent
      have hcount := Passage.length_put pi.gpio.toCpc
      rw [hkept, hput, hnil, hlen] at hcount
      simp only [List.length_append, List.length_replicate, List.length_nil] at hcount
      exact ⟨hsent, fun _ => by omega⟩
    · rw [hphase] at hsent hfull
      exact ⟨hsent, fun _ => hfull (by rintro (h | h) <;> cases h)⟩
    · exact ⟨hsent, hfull⟩
  | done => exact ⟨hpins, fill, sent, hput, hsent, hfull⟩

theorem after_sends (sched : Schedule) (files : Files) (gpio : Gpio) (n : ℕ) :
    Sends files (after sched files gpio 0).pi.gpio.toCpc.put (after sched files gpio n) := by
  induction n with
  | zero =>
    refine ⟨setupPins_spec sched _, 0, [], ?_, rfl, fun hlate => absurd (.inl rfl) hlate⟩
    simp
  | succ n ih => exact ih.kept (step_rounds ih.pins)

/-- **What is sent.**  Whatever the CPC does at the pins: the bytes that the program has put
    into the FIFO are fillers and then the upload, as far as it has got.  Once it has sent a
    byte of the upload, there were as many bytes before it as the FIFO holds. -/
theorem upload_order (sched : Schedule) (files : Files) (gpio : Gpio) (n : ℕ) :
    ∃ fill sent, (after sched files gpio n).pi.gpio.toCpc.put =
        (after sched files gpio 0).pi.gpio.toCpc.put ++ List.replicate fill 0xe5 ++ sent ∧
      sent <+: upload files ∧
      (sent ≠ [] → fifoSize ≤ (after sched files gpio 0).pi.gpio.toCpc.put.length + fill) ∧
      ((after sched files gpio n).phase = .sending [] → sent = upload files) := by
  obtain ⟨-, fill, sent, hput, hsent, hfull⟩ := after_sends sched files gpio n
  refine ⟨fill, sent, hput, ⟨_, hsent⟩, fun hne => hfull fun hearly => hne ?_, fun hphase => ?_⟩
  · rw [hearly.toSend] at hsent
    exact List.append_left_eq_self.1 hsent
  · rw [hphase, toSend, List.append_nil] at hsent
    exact hsent

/-! ## A CPC that waits for the loader -/

/-- The CPC sends nothing; it reads nothing until the FIFO is full, and then it reads again
    and again. -/
structure Patient (sched : Schedule) (files : Files) (gpio : Gpio) : Prop where
  silent : ∀ t, ∀ e ∈ (sched t).host, e = .take
  quiet : ∀ n, Early (after sched files gpio n).phase →
    ∀ t < (after sched files gpio (n + 1)).pi.clock, (sched t).host = []
  reads : ∀ t, ∃ t' ≥ t, (sched t').host ≠ []

theorem Patient.undisturbed (h : Patient sched files gpio) (t t' : ℕ) : Undisturbed sched t t' := by
  intro i _ _ hreset
  cases h.silent i _ hreset

theorem after_rounds (sched : Schedule) (files : Files) (gpio : Gpio) (n : ℕ) :
    Rounds sched files (after sched files gpio n) (after sched files gpio (n + 1)) :=
  step_rounds (after_sends sched files gpio n).pins

/-- What is left to do before the FIFO is full. -/
def early (s : Boot) : ℕ :=
  (if s.phase = .flushing then s.pi.gpio.toPi.held.length + 1 else 0) +
    (fifoSize - s.pi.gpio.toCpc.held.length)

/-- The FIFO gets full, and nothing has been taken out of it. -/
theorem fills (h : Patient sched files gpio) {n : ℕ} (hearly : Early (after sched files gpio n).phase) :
    ∃ k ≥ n, (after sched files gpio k).phase = .waiting ∧
      (after sched files gpio k).pi.gpio.toCpc.held.length = fifoSize ∧
      (after sched files gpio k).pi.gpio.toCpc.got = (after sched files gpio n).pi.gpio.toCpc.got := by
  induction hleft : early (after sched files gpio n) using Nat.strong_induction_on generalizing n with
  | _ left ih =>
    subst hleft
    have hagain : Early (after sched files gpio (n + 1)).phase →
        (after sched files gpio (n + 1)).pi.gpio.toCpc.got =
          (after sched files gpio n).pi.gpio.toCpc.got →
        early (after sched files gpio (n + 1)) < early (after sched files gpio n) →
        ∃ k ≥ n, (after sched files gpio k).phase = .waiting ∧
          (after sched files gpio k).pi.gpio.toCpc.held.length = fifoSize ∧
          (after sched files gpio k).pi.gpio.toCpc.got =
            (after sched files gpio n).pi.gpio.toCpc.got := by
      intro hearly' hgot hlt
      obtain ⟨k, hk, hphase, hfull, hgot'⟩ := ih _ hlt hearly' rfl
      exact ⟨k, (Nat.le_succ n).trans hk, hphase, hfull, hgot'.trans hgot⟩
    have hround := after_rounds sched files gpio n
    have hquiet := h.quiet n hearly
    generalize hs' : after sched files gpio (n + 1) = s' at hround hagain hquiet
    -- what goes through the FIFOs in this round
    have hgot : Later sched (after sched files gpio n).pi s'.pi →
        s'.pi.gpio.toCpc.got = (after sched files gpio n).pi.gpio.toCpc.got := fun hlater =>
      hlater.got fun t _ hlt => hquiet t hlt
    have hcount : ∀ hlater : Later sched (after sched files gpio n).pi s'.pi, _ := fun hlater =>
      (hlater.kept (h.undisturbed _ _)).imp Passage.Kept.length Passage.Kept.length
    cases hround with
    | @flushed pi hphase _ hlater hread hput =>
      obtain ⟨hpi, hcpc⟩ := hcount hlater
      obtain ⟨v, hgot'⟩ := hread (h.undisturbed _ _)
      have hsame : pi.gpio.toPi.put = (after sched files gpio n).pi.gpio.toPi.put :=
        hlater.put fun t _ _ => h.silent t
      have htaken : pi.gpio.toCpc.got = (after sched files gpio n).pi.gpio.toCpc.got := hgot hlater
      refine hagain (.inl rfl) htaken ?_
      simp only [htaken, hput] at hcpc
      simp only [hsame, hgot', List.length_append, List.length_singleton] at hpi
      simp only [early, hphase, if_true]
      omega
    | @written pi c phase hphase _ hlater hput =>
      rcases hphase with ⟨hphase, rfl, rfl⟩ | ⟨rest, hphase, rfl⟩
      · have htaken : pi.gpio.toCpc.got = (after sched files gpio n).pi.gpio.toCpc.got := hgot hlater
        have hfits := pi.gpio.toCpc.fits
        have hcpc := (hcount hlater).2
        refine hagain (.inr rfl) htaken ?_
        simp only [htaken, hput, List.length_append, List.length_singleton] at hcpc
        simp only [early, hphase, if_neg (by decide : ¬ Phase.toppingUp = .flushing)]
        omega
      · rw [hphase] at hearly
        rcases hearly with he | he <;> cases he
    | @polled pi phase hphase _ _ hlater hput =>
      rcases hphase with ⟨hphase, rfl⟩ | ⟨hphase, rfl, hlen⟩ | ⟨hphase, rfl⟩ | ⟨-, -, hlate⟩
      · have htaken : pi.gpio.toCpc.got = (after sched files gpio n).pi.gpio.toCpc.got := hgot hlater
        have hcpc := (hcount hlater).2
        refine hagain (.inr rfl) htaken ?_
        simp only [htaken, hput] at hcpc
        simp only [early, hphase, if_true, if_neg (by decide : ¬ Phase.toppingUp = .flushing)]
        omega
      · exact ⟨n + 1, Nat.le_succ n, by rw [hs'], by rw [hs']; exact hlen,
          by rw [hs']; exact hgot hlater⟩
      · rw [hphase] at hearly
        rcases hearly with he | he <;> cases he
      · exact absurd hearly hlate
    | done hphase =>
      rw [hphase] at hearly
      rcases hearly with he | he <;> cases he

/-- Where a loop of the upload leads, and what it sends. -/
inductive Moves (files : Files) : Phase → Phase → List BYTE → Prop
  | starts : Moves files .waiting (.sending (upload files)) []
  | sends (c : BYTE) (rest : List BYTE) : Moves files (.sending (c :: rest)) (.sending rest) [c]

/-- A round leads there, or finds no room. -/
theorem Moves.rounds {phase : Phase} {sent : List BYTE} {s' : Boot} (h : Moves files s.phase phase sent)
    (hround : Rounds sched files s s') :
    (s'.phase = phase ∧ s'.pi.gpio.toCpc.put = s.pi.gpio.toCpc.put ++ sent) ∨
      ((s.pi.access sched (.digitalRead pinDir)).1 = false ∧ s'.phase = s.phase ∧
        s'.pi.clock = s.pi.clock + 1 ∧ s'.pi.gpio.toCpc.put = s.pi.gpio.toCpc.put) := by
  generalize hnow : s.phase = now at h
  cases hround with
  | flushed hphase =>
    rw [hphase] at hnow
    subst hnow
    cases h
  | @written pi c phase' hphase _ _ hput =>
    rcases hphase with ⟨hphase, -, -⟩ | ⟨rest, hphase, rfl⟩
    · rw [hphase] at hnow
      subst hnow
      cases h
    · rw [hphase] at hnow
      subst hnow
      cases h
      exact .inl ⟨rfl, hput⟩
  | @polled pi phase' hphase _ hclock _ hput =>
    rcases hphase with ⟨hphase, -⟩ | ⟨hphase, -, -⟩ | ⟨hphase, rfl⟩ | ⟨hdir, rfl, -⟩
    · rw [hphase] at hnow
      subst hnow
      cases h
    · rw [hphase] at hnow
      subst hnow
      cases h
    · rw [hphase] at hnow
      subst hnow
      cases h
      exact .inl ⟨rfl, hput.trans (List.append_nil _).symm⟩
    · exact .inr ⟨hdir, hnow, hclock, hput⟩
  | done hphase =>
    rw [hphase] at hnow
    subst hnow
    cases h

/-- Each loop of the upload ends. -/
theorem moves (h : Patient sched files gpio) {phase : Phase} {sent : List BYTE} {n : ℕ}
    (hmoves : Moves files (after sched files gpio n).phase phase sent) :
    ∃ k ≥ n, (after sched files gpio k).phase = phase ∧
      (after sched files gpio k).pi.gpio.toCpc.put =
        (after sched files gpio n).pi.gpio.toCpc.put ++ sent := by
  -- the induction is on the accesses until the CPC reads
  obtain ⟨t, ht, hreads⟩ := h.reads (after sched files gpio n).pi.clock
  obtain ⟨wait, rfl⟩ := Nat.exists_eq_add_of_le ht
  clear ht
  induction wait generalizing n with
  | zero =>
    rcases hmoves.rounds (after_rounds sched files gpio n) with hmoved | ⟨hdir, -⟩
    · exact ⟨n + 1, Nat.le_succ n, hmoved⟩
    · obtain ⟨e, events, he⟩ := List.exists_cons_of_ne_nil hreads
      have htake : .take ∈ (sched (after sched files gpio n).pi.clock).host := by
        rw [Nat.add_zero] at he
        have hmem : e ∈ (sched (after sched files gpio n).pi.clock).host := by simp [he]
        exact h.silent _ e hmem ▸ hmem
      rw [poll_dir_take sched _ htake] at hdir
      cases hdir
  | succ wait ih =>
    rcases hmoves.rounds (after_rounds sched files gpio n) with hmoved | ⟨-, hphase, hclock, hput⟩
    · exact ⟨n + 1, Nat.le_succ n, hmoved⟩
    · rw [← hphase] at hmoves
      obtain ⟨k, hle, hk, hputk⟩ := ih hmoves (by rwa [hclock, Nat.add_right_comm, Nat.add_assoc])
      exact ⟨k, (Nat.le_succ n).trans hle, hk, by rw [hputk, hput]⟩

theorem sends_all (h : Patient sched files gpio) {rest : List BYTE} {n : ℕ}
    (hphase : (after sched files gpio n).phase = .sending rest) :
    ∃ k ≥ n, (after sched files gpio k).phase = .sending [] ∧
      (after sched files gpio k).pi.gpio.toCpc.put =
        (after sched files gpio n).pi.gpio.toCpc.put ++ rest := by
  induction rest generalizing n with
  | nil => exact ⟨n, le_rfl, hphase, (List.append_nil _).symm⟩
  | cons c rest ih =>
    obtain ⟨k, hle, hk, hput⟩ := moves h (by rw [hphase]; exact .sends c rest)
    obtain ⟨k', hle', hk', hput'⟩ := ih hk
    exact ⟨k', hle.trans hle', hk', by rw [hput', hput, List.append_assoc]; rfl⟩

theorem after_later (sched : Schedule) (files : Files) (gpio : Gpio) (n k : ℕ) :
    Later sched (after sched files gpio n).pi (after sched files gpio (n + k)).pi := by
  induction k with
  | zero => exact .refl sched _
  | succ k ih => exact ih.trans (after_rounds sched files gpio (n + k)).later

/-- The program sends all of the upload.  What the CPC has read then, and what is still in
    the FIFO, are 16 other bytes, and then the upload. -/
theorem upload_arrives (h : Patient sched files gpio) :
    ∃ n old, (after sched files gpio n).phase = .sending [] ∧ old.length = fifoSize ∧
      (after sched files gpio n).pi.gpio.toCpc.got ++ (after sched files gpio n).pi.gpio.toCpc.held =
        (after sched files gpio 0).pi.gpio.toCpc.got ++ (old ++ upload files) := by
  obtain ⟨k, -, hphase, hfull, hgot⟩ := fills h (n := 0) (.inl rfl)
  obtain ⟨k', hle, hphase', hput'⟩ := moves h (by rw [hphase]; exact .starts)
  obtain ⟨n, hle', hdone, hput⟩ := sends_all h hphase'
  obtain ⟨d, rfl⟩ := Nat.exists_eq_add_of_le (hle.trans hle')
  rw [hput', List.append_nil] at hput
  obtain ⟨added, hadded, hkept⟩ := ((after_later sched files gpio k d).kept (h.undisturbed _ _)).2
  rw [hput] at hadded
  refine ⟨k + d, (after sched files gpio k).pi.gpio.toCpc.held, hdone, hfull, ?_⟩
  rw [hkept, ← List.append_cancel_left hadded, hgot, List.append_assoc]

/-! ## On the CPC -/

open Z80 Bootloader

theorem header_eq : header = [0x80, 0x43, 0x00, 0x40] := by decide
theorem entry_eq : entry = [0x25, 0x40] := by decide

/-- The file of the loader is what bootloader.s is assembled to. -/
def Assembled (files : Files) : Prop := (List.range loaderLen).map files.loader = Bootloader.loader

/-- The stack below `sp` is above the game, and the game above the loader. -/
theorem above_game {sp : UInt16} (hsp : 0x8384 ≤ sp.toNat) {address : UInt16}
    (h : address.toNat < 0x8380) : Outside (sp - 4) 4 address := by
  intro i hi he
  have hsub : (sp - 4).toNat = sp.toNat - 4 := by
    rw [UInt16.toNat_sub_of_le _ _ (by rw [UInt16.le_iff_toNat_le]; exact (by decide : 4 ≤ 0x8384).trans hsp)]
    rfl
  have hlt := sp.toNat_lt
  rw [he, UInt16.toNat_add, hsub, UInt16.toNat_ofNat', Nat.mod_eq_of_lt (by omega : i < _),
    Nat.mod_eq_of_lt (by omega)] at h
  omega

theorem game_clear : Apart 0x4000 binLen origin Bootloader.loader.length := by
  intro i hi j hj he
  have hi' : i < 45 := hi
  have hj' : j < 0x4380 := hj
  have hnat := congrArg UInt16.toNat he
  rw [UInt16.toNat_add, UInt16.toNat_add, UInt16.toNat_ofNat', UInt16.toNat_ofNat'] at hnat
  rw [Nat.mod_eq_of_lt (by omega : i < _), Nat.mod_eq_of_lt (by omega : j < _)] at hnat
  change (126 + i) % _ = (0x4000 + j) % _ at hnat
  omega

/-- The loader gets the game, which comes behind it. -/
theorem game_runs {bus : Bus} {m : Machine} {mem : UInt16 → BYTE} {old : List BYTE} {k' : ℕ}
    (hold : old.length = 16) (hmem : m.core.mem = poked mem (old ++ Bootloader.loader))
    (hsp : 0x8384 ≤ m.sp.toNat) (harr : Arrives bus m.core.reads
      ([0x80, 0x43, 0x00, 0x40] ++ (List.range binLen).map files.binary ++ [0x25, 0x40]) k') :
    ∃ m' : Machine, Stored.Runs bus (m.goto origin) (m'.goto 0x4025) ∧ m'.sp = m.sp ∧
      m'.core.reads = k' ∧ ∀ i < binLen, m'.core.mem (0x4000 + UInt16.ofNat i) = files.binary i := by
  have hlen : ((List.range binLen).map files.binary).length = binLen := by
    rw [List.length_map, List.length_range]
  have haddr : word 0x40 0x00 = 0x4000 := word_eq rfl
  obtain ⟨m', hruns, hsp', hreads, hkept⟩ := runs_program harr (by rw [toNat_word, hlen]; rfl)
    (by rw [← List.length_pos_iff, hlen]; decide) (by rw [hmem]; exact holds_poked hold)
    (fun i hi => above_game hsp (by
      have hi' : i < 45 := hi
      rw [UInt16.toNat_add, UInt16.toNat_ofNat', Nat.mod_eq_of_lt (by omega : i < _)]
      change (126 + i) % _ < _
      omega)) (by rw [haddr, hlen]; exact game_clear)
  rw [word_eq (w := 0x4025) rfl] at hruns
  refine ⟨m', hruns, hsp', hreads, fun i hi => ?_⟩
  have hi' : i < 0x4380 := hi
  rw [hkept, haddr, storeFrom_apply (by rw [hlen]; decide) (by rw [hlen]; exact hi), List.getElem_map,
    List.getElem_range]
  refine above_game hsp ?_
  rw [UInt16.toNat_add, UInt16.toNat_ofNat', Nat.mod_eq_of_lt (by omega : i < _)]
  change (0x4000 + i) % _ < _
  omega

/-- **The game starts.**  The CPC sends nothing, does not reset the FIFOs and reads nothing
    until the FIFO is full, and the Pi has the file of the loader.  Then the Pi sends
    everything, and with what the CPC reads from there on, the line of BASIC and the loader
    put the game at its address, whatever was in the memory and on the ports before, and go
    on at its entry; the stack is above the game. -/
theorem game_starts (hloader : Assembled files) (h : Patient sched files gpio) :
    ∃ n stream, (after sched files gpio n).phase = .sending [] ∧
      (after sched files gpio n).pi.gpio.toCpc.got ++ (after sched files gpio n).pi.gpio.toCpc.held =
        (after sched files gpio 0).pi.gpio.toCpc.got ++ stream ∧
      ∀ (bus : Bus) (m : Machine) (mem : UInt16 → BYTE) (k' : ℕ),
        m.core.mem = poked mem (stream.take 61) → 0x8384 ≤ m.sp.toNat →
        Arrives bus m.core.reads (stream.drop 61) k' →
        ∃ m' : Machine, Stored.Runs bus (m.goto origin) (m'.goto 0x4025) ∧ m'.sp = m.sp ∧
          m'.core.reads = k' ∧
          ∀ i < binLen, m'.core.mem (0x4000 + UInt16.ofNat i) = files.binary i := by
  obtain ⟨n, old, hphase, hold, hread⟩ := upload_arrives h
  refine ⟨n, old ++ upload files, hphase, hread, fun bus m mem k' hmem hsp harr => ?_⟩
  have hsplit : old ++ upload files = old ++ Bootloader.loader ++
      ([0x80, 0x43, 0x00, 0x40] ++ (List.range binLen).map files.binary ++ [0x25, 0x40]) := by
    rw [upload, hloader, header_eq, entry_eq]
    simp only [List.append_assoc]
  have hfront : (old ++ Bootloader.loader).length = 61 := by
    rw [List.length_append, hold]
    rfl
  rw [hsplit, ← hfront, List.take_left] at hmem
  rw [hsplit, ← hfront, List.drop_left] at harr
  exact game_runs hold hmem hsp harr

/-! An instance: the CPC begins to read when the FIFO is full. -/

theorem after_clock (sched : Schedule) (files : Files) (gpio : Gpio) :
    Monotone fun n => (after sched files gpio n).pi.clock :=
  monotone_nat_of_le_succ fun n => (after_rounds sched files gpio n).later.clock

theorem Rounds.late {s' : Boot} (h : Rounds sched files s s') (hlate : ¬ Early s.phase) :
    ¬ Early s'.phase := by
  cases h with
  | flushed hphase => exact absurd (.inl hphase) hlate
  | written hphase =>
    rcases hphase with ⟨hphase, -⟩ | ⟨rest, -, rfl⟩
    · exact absurd (.inr hphase) hlate
    · rintro (he | he) <;> cases he
  | polled hphase =>
    rcases hphase with ⟨hphase, -⟩ | ⟨hphase, -⟩ | ⟨-, rfl⟩ | ⟨-, rfl, -⟩
    · exact absurd (.inl hphase) hlate
    · exact absurd (.inr hphase) hlate
    · rintro (he | he) <;> cases he
    · exact hlate
  | done => exact hlate

def lateReader : Schedule := fun t => if t < 482 then ⟨[], 0⟩ else ⟨[.take], 0⟩

/-- A game that is no program, but can be told apart from the memory before. -/
def counting : Files := ⟨fun i => Bootloader.loader.getD i 0, fun i => UInt8.ofNat i⟩

theorem counting_assembled : Assembled counting := rfl

theorem lateReader_full : (after lateReader counting .reset 18).phase = .waiting ∧
    (after lateReader counting .reset 18).pi.clock = 482 := by decide +kernel

theorem lateReader_late (k : ℕ) : ¬ Early (after lateReader counting .reset (18 + k)).phase := by
  induction k with
  | zero =>
    rw [Nat.add_zero, lateReader_full.1]
    rintro (he | he) <;> cases he
  | succ k ih => exact (after_rounds lateReader counting .reset (18 + k)).late ih

theorem lateReader_patient : Patient lateReader counting .reset where
  silent t e he := by
    rw [lateReader] at he
    split at he
    · cases he
    · exact List.mem_singleton.1 he
  quiet n hearly t ht := by
    have hn : n < 18 := by
      by_contra hge
      obtain ⟨k, rfl⟩ := Nat.exists_eq_add_of_le (not_lt.1 hge)
      exact lateReader_late k hearly
    have hclock := after_clock lateReader counting .reset (Nat.succ_le_of_lt hn)
    dsimp only at hclock
    rw [lateReader_full.2] at hclock
    rw [lateReader, if_pos (ht.trans_le hclock)]
  reads t := by
    refine ⟨max t 482, le_max_left _ _, ?_⟩
    rw [lateReader, if_neg (not_lt.2 (le_max_right _ _))]
    exact List.cons_ne_nil _ _

/-- The CPC behind the line of BASIC, with the stack below `0xc000`. -/
def pokedMachine (front : List BYTE) : Machine :=
  { afterLine with core := { afterLine.core with mem := poked (fun _ => 0xff) front } }

theorem game_starts_counting : ∃ (n : ℕ) (stream : List BYTE) (m' : Machine),
    (after lateReader counting .reset n).phase = .sending [] ∧
    (after lateReader counting .reset n).pi.gpio.toCpc.got ++
      (after lateReader counting .reset n).pi.gpio.toCpc.held = stream ∧
    Stored.Runs (delivering (stream.drop 61)) ((pokedMachine (stream.take 61)).goto origin)
      (m'.goto 0x4025) ∧
    ∀ i < 0x4380, m'.core.mem (0x4000 + UInt16.ofNat i) = UInt8.ofNat i := by
  obtain ⟨n, stream, hphase, hread, hruns⟩ := game_starts counting_assembled lateReader_patient
  obtain ⟨m', hgame, -, -, hmem⟩ := hruns (delivering (stream.drop 61))
    (pokedMachine (stream.take 61)) (fun _ => 0xff) _ rfl (by decide : 0x8384 ≤ 0xc000)
    (arrives_delivering _)
  exact ⟨n, stream, m', hphase, hread, hgame, hmem⟩

end CpcLink.Bootstrap

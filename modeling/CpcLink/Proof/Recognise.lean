/-
  Recognition does not depend on when the bytes arrive.

  A poll of the code is a run of the recogniser, and a byte that arrives is
  appended, so every history is one of the decoder (`reception_fed`) and two
  histories of one stream that have settled agree.
-/
import CpcLink.Proof.Writing

namespace CpcLink

inductive Event where
  | arrive (b : BYTE)
  | poll

/-- A queue with the packets it has delivered. -/
structure Reception where
  queue : Queue
  delivered : List (List BYTE)

/-- A poll that finds a packet takes `get_packet_size + PACKET_DELIMITER_OVERHEAD`
    bytes off the queue. -/
def receptionStep (r : Reception) : Event → Reception
  | .arrive b =>
    if numberFreeBytesInQueueToWriteToo r.queue > 0 then { r with queue := storeByte r.queue b }
    else r
  | .poll =>
    let c := isCompletePacketAvailable r.queue
    if c.1 then
      let d := getDataFromQueue c.2 (getPacketSize c.2 + packetDelimiterOverhead)
      ⟨d.2.2, r.delivered ++ [d.2.1]⟩
    else { r with queue := c.2 }

def reception (q : Queue) (events : List Event) : Reception := events.foldl receptionStep ⟨q, []⟩

/-- The stream of a history. -/
def arrivals (events : List Event) : List BYTE :=
  events.filterMap fun | .arrive b => some b | .poll => none

/-- The unread bytes never reach the size of the queue. -/
def NeverFull (q : Queue) (events : List Event) : Prop :=
  ∀ pre b post, events = pre ++ .arrive b :: post →
    numberBytesInQueueToRead (reception q pre).queue + 1 < queueSize

/-- Polling changes nothing any more. -/
def Settled (r : Reception) : Prop := receptionStep r .poll = r

/-! ## A poll -/

section
variable {r : Reception}

/-- The bytes of the packet at the head, taken off. -/
theorem AtPacket.getBytes {q : Queue} {ty : PacketType} {body rest : List BYTE} (h : Valid q)
    (hp : AtPacket q ty body rest) :
    getDataFromQueue q (getPacketSize q + packetDelimiterOverhead) =
      (true, encode ty body, incrementReadNextIndex q (body.length + 9 : ℕ)) := by
  have hc := hp.count
  have hg := h.get (body.length + 9)
  rw [if_pos (by omega), hp.2.2, List.take_left' (by simp)] at hg
  rw [hp.packetSize, ← hg, packetDelimiterOverhead]
  congr 1

/-- A poll is a run of the recogniser; if the recogniser does not wait, it takes
    bytes off the queue. -/
theorem poll_runs (h : Valid r.queue) : ∃ bs, Valid (receptionStep r .poll).queue ∧
    (receptionStep r .poll).delivered = r.delivered ++ bs ∧
    recogniser.Runs r.queue.unread bs (receptionStep r .poll).queue.unread ∧
    (frameNext r.queue.unread ≠ none →
      (receptionStep r .poll).queue.count < r.queue.count) := by
  have hr := runs_resync r.queue.unread
  have hu := h.toInRange.unread_synced
  have hcs := h.toInRange.count_synced
  have hlen : (resync r.queue.unread).length ≤ r.queue.count := by
    simpa using length_resync_le r.queue.unread
  have hc := isComplete_eq h.toInRange
  match hf : frameNext (resync r.queue.unread) with
  | none =>
    rw [hf] at hc
    refine ⟨[], ?_, ?_, ?_, fun hne => ?_⟩ <;> simp only [receptionStep, hc, Bool.false_eq_true, if_false]
    · exact h.synced
    · simp
    · rw [hu]; exact hr
    · rw [hcs]
      refine Nat.lt_of_le_of_ne hlen fun he => hne ?_
      rw [← hf, ← hu, synced_of_length h.toInRange he]
  | some (k, none) =>
    have hk := frameNext_pos hf
    have hcnt := h.toInRange.synced.count_inc (a := k) (by omega)
    rw [hf] at hc
    refine ⟨[], ?_, ?_, ?_, fun _ => ?_⟩ <;> simp only [receptionStep, hc, Bool.false_eq_true, if_false]
    · exact h.synced.inc (by omega)
    · simp
    · rw [h.synced.unread_inc (by omega), hu]
      have := hr.trans (.single (D := recogniser) hf)
      simpa using this
    · omega
  | some (k, some p) =>
    obtain ⟨ty, body, rest, ht, hb, he, rfl, rfl⟩ := frameNext_eq_some hf
    have hp : AtPacket (synced r.queue) ty body rest := ⟨ht, hb, hu.trans he⟩
    have hg := hp.getBytes h.synced
    have hcnt := h.toInRange.synced.count_inc (a := body.length + 9) (by have := hp.count; omega)
    have hpc := hp.count
    rw [hf] at hc
    refine ⟨[encode ty body], ?_, ?_, ?_, fun _ => ?_⟩ <;> simp only [receptionStep, hc, if_true, hg]
    · exact h.synced.inc (by omega)
    · rw [h.synced.unread_inc (by omega), hu]
      have := hr.trans (.single (D := recogniser) hf)
      simpa using this
    · omega

/-- Polling has settled when the recogniser waits. -/
theorem settled_iff (h : Valid r.queue) : Settled r ↔ frameNext r.queue.unread = none := by
  constructor
  · intro hs
    by_contra hne
    obtain ⟨_, _, _, _, hlt⟩ := poll_runs h
    rw [hs] at hlt
    exact Nat.lt_irrefl _ (hlt hne)
  · intro hn
    have hr := resync_of_none hn
    rw [Settled, receptionStep, isComplete_eq h.toInRange, hr, hn]
    simp [synced_of_resync h.toInRange hr]

/-- Polling settles. -/
theorem poll_settles (h : Valid r.queue) :
    ∃ n, Settled ((fun r => receptionStep r .poll)^[n] r) := by
  induction hc : r.queue.count using Nat.strongRecOn generalizing r with
  | _ c ih =>
    by_cases hn : frameNext r.queue.unread = none
    · exact ⟨0, (settled_iff h).2 hn⟩
    · obtain ⟨_, hv, _, _, hlt⟩ := poll_runs h
      obtain ⟨n, hs⟩ := ih _ (hc ▸ hlt hn) hv rfl
      exact ⟨n + 1, hs⟩

end

/-! ## Histories -/

theorem reception_append (q : Queue) (events : List Event) (e : Event) :
    reception q (events ++ [e]) = receptionStep (reception q events) e := by
  simp [reception]

/-- A history of the queue is a history of the decoder. -/
theorem reception_fed {q : Queue} (h : Valid q) (h0 : q.count = 0) (events : List Event)
    (hn : NeverFull q events) : Valid (reception q events).queue ∧
      recogniser.Fed (arrivals events) (reception q events).delivered
        (reception q events).queue.unread := by
  induction events using List.reverseRecOn with
  | nil =>
    refine ⟨h, ?_⟩
    rw [show (reception q []).queue.unread = [] from unread_eq_nil.2 h0]
    exact .nil
  | append_singleton events e ih =>
    obtain ⟨hv, hf⟩ := ih fun pre b post he => hn pre b (post ++ [e]) (by simp [he])
    rw [reception_append]
    cases e with
    | arrive b =>
      have hlt := hn events b [] rfl
      rw [hv.numberBytes] at hlt
      have hst : receptionStep (reception q events) (.arrive b) =
          { reception q events with queue := storeByte (reception q events).queue b } := by
        rw [receptionStep, hv.free, if_pos (by omega)]
      rw [hst, show arrivals (events ++ [.arrive b]) = arrivals events ++ [b] by simp [arrivals]]
      refine ⟨hv.store b, ?_⟩
      simp only [hv.unread_store b hlt]
      exact hf.arrive b
    | poll =>
      obtain ⟨bs, hv', hd, hr, -⟩ := poll_runs hv
      refine ⟨hv', ?_⟩
      rw [hd, show arrivals (events ++ [.poll]) = arrivals events by simp [arrivals]]
      exact hf.decode hr

/-- A stream that is shorter than the queue never fills it. -/
theorem neverFull_of_short {q : Queue} (h : Valid q) (h0 : q.count = 0) (events : List Event)
    (hl : ((arrivals events).length : ℤ) < queueSize) : NeverFull q events := by
  induction events using List.reverseRecOn with
  | nil => intro pre b post he; simp at he
  | append_singleton events e ih =>
    have hle : (arrivals (events ++ [e])).length = (arrivals events).length + (arrivals [e]).length := by
      simp [arrivals, List.filterMap_append]
    have hn := ih (by omega)
    intro pre b post he
    rcases List.eq_nil_or_concat post with rfl | ⟨post, e', rfl⟩
    · obtain ⟨rfl, hb⟩ := List.append_inj' he rfl
      obtain rfl : e = .arrive b := by simpa using hb
      obtain ⟨hv, hf⟩ := reception_fed h h0 events hn
      have hlen := hf.runs.length_le
      rw [length_unread] at hlen
      have : (arrivals [.arrive b]).length = 1 := rfl
      rw [hv.numberBytes]; omega
    · rw [List.concat_eq_append, ← List.cons_append, ← List.append_assoc] at he
      exact hn pre b post (List.append_inj' he rfl).1

/-- **Recognition does not depend on arrival timing.**  Two histories of one
    stream, from empty queues with their indices anywhere, that have settled
    have delivered the same packets and left the same bytes. -/
theorem arrival_timing {q₁ q₂ : Queue} (h₁ : Valid q₁) (h₂ : Valid q₂)
    (he₁ : q₁.storeNextByte = q₁.readNextByte) (he₂ : q₂.storeNextByte = q₂.readNextByte)
    (events₁ events₂ : List Event) (hstream : arrivals events₁ = arrivals events₂)
    (hn₁ : NeverFull q₁ events₁) (hn₂ : NeverFull q₂ events₂)
    (hs₁ : Settled (reception q₁ events₁)) (hs₂ : Settled (reception q₂ events₂)) :
    (reception q₁ events₁).delivered = (reception q₂ events₂).delivered ∧
      (reception q₁ events₁).queue.unread = (reception q₂ events₂).queue.unread := by
  obtain ⟨hv₁, hf₁⟩ := reception_fed h₁ (h₁.count_eq_zero.2 he₁) events₁ hn₁
  obtain ⟨hv₂, hf₂⟩ := reception_fed h₂ (h₂.count_eq_zero.2 he₂) events₂ hn₂
  rw [← hstream] at hf₂
  exact hf₁.confluent ((settled_iff hv₁).1 hs₁) hf₂ ((settled_iff hv₂).1 hs₂)

/-- Noise and a packet of one byte, which come in at once. -/
def wholePacket : List Event := (7 :: encode binaryCommand [9]).map .arrive ++ [.poll]

/-- The same bytes, with polls within the `+++`, the size and the terminator, and a last one. -/
def splitPacket : List Event :=
  [.arrive 7, .arrive 43, .poll, .arrive 43, .arrive 43, .poll, .arrive 4, .poll, .arrive 0,
    .arrive binaryCommand, .arrive 9, .arrive 45, .poll, .arrive 45, .arrive 45, .poll]

/-- An instance: the packet is delivered once, at two places of the ring. -/
theorem arrival_timing_split :
    (reception ⟨fun _ => 0, 0, 0⟩ splitPacket).delivered =
        (reception ⟨fun _ => 0, 131069, 131069⟩ wholePacket).delivered ∧
      (reception ⟨fun _ => 0, 0, 0⟩ splitPacket).queue.unread =
        (reception ⟨fun _ => 0, 131069, 131069⟩ wholePacket).queue.unread ∧
      (reception ⟨fun _ => 0, 0, 0⟩ splitPacket).delivered = [encode binaryCommand [9]] := by
  have h₁ : Valid ⟨fun _ => 0, 0, 0⟩ := ⟨⟨⟨by decide, by decide⟩, by decide, by decide⟩, by decide⟩
  have h₂ : Valid ⟨fun _ => 0, 131069, 131069⟩ :=
    ⟨⟨⟨by decide, by decide⟩, by decide, by decide⟩, by decide⟩
  have hn₁ := neverFull_of_short h₁ (by decide) splitPacket (by decide)
  have hn₂ := neverFull_of_short h₂ (by decide) wholePacket (by decide)
  obtain ⟨hdelivered, hunread⟩ := arrival_timing h₁ h₂ rfl rfl splitPacket wholePacket (by decide)
    hn₁ hn₂ ((settled_iff (reception_fed h₁ (by decide) splitPacket hn₁).1).2
      (by decide +kernel))
    ((settled_iff (reception_fed h₂ (by decide) wholePacket hn₂).1).2 (by decide +kernel))
  exact ⟨hdelivered, hunread, by decide +kernel⟩

end CpcLink

/-
  `SALLOC` and `IALLOC` and the stream: does the dispatch end behind the data
  packet that follows the command?

  A rejected request looks for the next `+++` from the second byte of the data
  packet on, so it stays in step if it finds none in the packet and one behind
  it.  An accepted one reads as many bytes as it wants, so it stays in step if
  the packet has just as many: `inStep_iff`, and `inStep_format` for parameters
  as documented.
-/
import CpcLink.Proof.Containment
import CpcLink.Proof.Grammar

namespace CpcLink

/-- The bytes behind a terminator, if there is one. -/
def stripEnd (u : List BYTE) : List BYTE := if u.take 3 = minusMinusMinus then u.drop 3 else u

/-- The search for the next packet, from the second byte of `v` on, ends where `rest` starts:
    no `+++` comes before, and one starts there, or two bytes are left there, or all there
    are. -/
def SkippedTo (v rest : List BYTE) : Prop :=
  ∃ b skipped, v = b :: (skipped ++ rest) ∧
    (∀ i < skipped.length, ((skipped ++ rest).drop i).take 3 ≠ plusPlusPlus) ∧
    (rest.take 3 = plusPlusPlus ∨ rest.length = min (skipped ++ rest).length 2)

/-- `SALLOC` and `IALLOC` end where `rest` starts.  `s` is at the parameters.  A request that
    is not rejected takes the packet at the first `+++`. -/
def DataInStep (env : Env) (fn : CommandFunction) (s : Server) (rest : List BYTE) : Prop :=
  let v := (behind fn s.inQueue).unread
  (DataRejected env fn s → SkippedTo v rest) ∧
  (¬ DataRejected env fn s → ∃ skipped ty body rest', AcceptedType ty ∧ body.length ≤ 65532 ∧
    v = skipped ++ (encode ty body ++ rest') ∧ FirstPlus v skipped.length ∧
    if dataWant fn s ≤ body.length then ¬ Overruns fn s ∧
      stripEnd ((body ++ (minusMinusMinus ++ rest')).drop (dataWant fn s).toNat) = rest
    else encode ty body ++ rest' = rest)

/-- The place behind the data packet. -/
def behindData (q : Queue) (body data : List BYTE) : Queue :=
  incrementReadNextIndex q (body.length + 9 + (data.length + 9) : ℕ)

section
variable {q : Queue}

/-! ## Places within the unread bytes -/

theorem InRange.skipPlace_unread (h : InRange q) {n : ℕ} (hn : n ≤ q.count) :
    skipPlace q n ≤ q.count ∧ q.unread.drop (skipPlace q n) = stripEnd (q.unread.drop n) := by
  rw [skipPlace, h.unread_inc hn, stripEnd]
  split
  next he =>
    have := congrArg List.length he
    simp only [List.length_take, List.length_drop, length_unread, minusMinusMinus, List.length_cons,
      List.length_nil] at this
    exact ⟨by omega, by rw [List.drop_drop]⟩
  · exact ⟨hn, rfl⟩

theorem InRange.nextPlace_unread (h : InRange q) {n : ℕ} (hn : n ≤ q.count) :
    nextPlace q n ≤ q.count ∧ q.unread.drop (nextPlace q n) = resync (q.unread.drop n) := by
  have hle : nextPlace q n ≤ q.count := by
    rw [nextPlace, h.count_inc hn]
    omega
  have hu := (h.inc n).unread_synced
  rw [CpcLink.synced, h.inc_nat, ← nextPlace, h.unread_inc hn, h.unread_inc hle] at hu
  exact ⟨hle, hu⟩

/-- Behind `w` bytes of a packet at `n`. -/
theorem InRange.reading_place (h : InRange q) {n w : ℕ} {ty : PacketType} {body rest : List BYTE}
    (hn : q.unread.drop n = encode ty body ++ rest) (hw : w ≤ body.length) :
    skipPlace q (n + (6 + w)) ≤ q.count ∧ q.unread.drop (skipPlace q (n + (6 + w))) =
      stripEnd ((body ++ (minusMinusMinus ++ rest)).drop w) := by
  have hcount := congrArg List.length hn
  simp only [List.length_drop, length_unread, List.length_append, length_encode] at hcount
  obtain ⟨hle, hr⟩ := h.skipPlace_unread (n := n + (6 + w)) (by omega)
  refine ⟨hle, hr.trans ?_⟩
  rw [← List.drop_drop, hn, ← List.drop_drop, encode_append]
  rfl

/-- From one byte behind the unread bytes the search does not end where they do. -/
theorem InRange.nextPlace_past (h : InRange q) :
    (nextPlace q (q.count + 1) : ℤ) < queueSize + q.count ∧
      q.count < nextPlace q (q.count + 1) := by
  have hQ : queueSize = 131070 := rfl
  have hlt := h.count_lt
  have hc := h.count_inc_mod (q.count + 1)
  rw [show ((q.count : ℤ) - (q.count + 1 : ℕ)) = -1 by push_cast; omega] at hc
  have h2 := two_le_resync (incrementReadNextIndex q (q.count + 1 : ℕ)).unread (by
    rw [length_unread]; rw [hQ] at hc; omega)
  have hle := length_resync_le (incrementReadNextIndex q (q.count + 1 : ℕ)).unread
  rw [length_unread] at hle
  rw [nextPlace]
  rw [hQ] at hc ⊢
  omega

/-! ## The dispatch -/

variable {env : Env} {s : Server} {ty : PacketType} {body data rest : List BYTE}

/-- A command and the data packet behind it are longer than its parameters. -/
theorem behindPlace_le (h : InRange q) (hp : AtPacket q ty body (encode binaryData data ++ rest))
    {c : Command} {k : ℕ} (hr : request q = some (c, k)) (hd : takesData (functionOf c) = true)
    (hc : c < maxCommands) : behindPlace q c k ≤ q.count := by
  have hk := request_le h hp hr hc
  have hlen := dataParams_le hd (incrementReadNextIndex q k)
  have hskip := skipPlace_le q (paramsEnd q c k)
  have hcount := hp.count
  simp only [List.length_append, length_encode] at hcount
  unfold behindPlace paramsEnd at *
  omega

theorem lt_of_takesData {c : Command} (hd : takesData (functionOf c) = true) : c < maxCommands := by
  rcases data_command hd with rfl | rfl <;> decide

/-- When the parameters fill the body, what is behind them is behind the packet. -/
theorem AtPacket.behind_full (h : InRange q) (hp : AtPacket q ty body rest) {c : Command} {k : ℕ}
    (hfull : paramsEnd q c k = body.length + 6) :
    (behind (functionOf c) (incrementReadNextIndex q k)).unread = rest := by
  rw [h.behind_place, behindPlace, hfull, skipPlace, hp.unread_end h, if_pos (by rfl)]
  exact hp.unread_behind h

/-- A place within the unread bytes is the end of the data packet if what is behind the
    packet is left. -/
theorem place_behindData (h : InRange q) (hp : AtPacket q ty body (encode binaryData data ++ rest))
    {n : ℕ} (hn : n ≤ q.count) :
    (incrementReadNextIndex q n).readNextByte = (behindData q body data).readNextByte ↔
      q.unread.drop n = rest := by
  have hlt := h.count_lt
  have hcount := hp.count
  simp only [List.length_append, length_encode] at hcount
  have hrest : rest <:+ q.unread := by
    rw [hp.2.2]
    exact (List.suffix_append _ _).trans (List.suffix_append _ _)
  rw [behindData, h.inc_inj (by omega) (by omega), suffix_eq_iff (List.drop_suffix _ _) hrest,
    List.length_drop, length_unread]
  omega

/-- The packet found behind the parameters. -/
theorem atData_packet {fn : CommandFunction} (h : InRange (behind fn q)) {ty' : PacketType}
    {body' rest' : List BYTE} (ht : AcceptedType ty') (hl : body'.length ≤ 65532)
    (hu : resync (behind fn q).unread = encode ty' body' ++ rest') :
    (isCompletePacketAvailable (behind fn q)).1 = true ∧ AtPacket (atData fn q) ty' body' rest' := by
  have he := isComplete_eq h
  rw [hu, frameNext_encode ht hl] at he
  have hat : atData fn q = synced (behind fn q) := by rw [atData, he]
  exact ⟨by rw [he], ht, hl, by rw [hat, h.unread_synced, hu]⟩

/-! ## The condition -/

/-- Where the search from the second byte on ends. -/
theorem skippedTo_iff {v skipped : List BYTE} (hv : v = skipped ++ rest) :
    SkippedTo v rest ↔ v ≠ [] ∧ resync (v.drop 1) = rest := by
  subst hv
  cases skipped with
  | nil =>
    constructor
    · rintro ⟨b, skipped, he, -⟩
      have := congrArg List.length he
      simp only [List.nil_append, List.length_cons, List.length_append] at this
      omega
    · rintro ⟨hne, he⟩
      have hle := length_resync_le (rest.drop 1)
      have := List.length_pos_iff.2 hne
      rw [List.nil_append] at he this
      rw [he, List.length_drop] at hle
      omega
  | cons b skipped =>
    rw [List.cons_append, List.drop_succ_cons, List.drop_zero, resync_eq_rest_iff rfl]
    constructor
    · rintro ⟨b', skipped', he, hno⟩
      obtain ⟨-, he⟩ := List.cons.inj he
      obtain rfl := List.append_cancel_right he
      exact ⟨List.cons_ne_nil _ _, hno⟩
    · rintro ⟨-, hno⟩
      exact ⟨b, skipped, rfl, hno⟩

theorem dataInStep_rejected {fn : CommandFunction} (hrej : DataRejected env fn s) :
    DataInStep env fn s rest ↔ SkippedTo (behind fn s.inQueue).unread rest := by
  constructor
  · intro hi
    exact hi.1 hrej
  · intro hi
    exact ⟨fun _ => hi, fun hn => absurd hrej hn⟩

theorem encode_take (ty : PacketType) (body rest : List BYTE) :
    (encode ty body ++ rest).take 3 = plusPlusPlus := by
  rw [encode_append]
  rfl

/-- Of an accepted request the condition is about the packet that is found. -/
theorem dataInStep_accepted {fn : CommandFunction} (hrej : ¬ DataRejected env fn s)
    {ty' : PacketType} {body' rest' : List BYTE} (ht : AcceptedType ty') (hl : body'.length ≤ 65532)
    (hu : resync (behind fn s.inQueue).unread = encode ty' body' ++ rest') :
    DataInStep env fn s rest ↔ if dataWant fn s ≤ body'.length then ¬ Overruns fn s ∧
        stripEnd ((body' ++ (minusMinusMinus ++ rest')).drop (dataWant fn s).toNat) = rest
      else encode ty' body' ++ rest' = rest := by
  constructor
  · intro hi
    obtain ⟨skipped, ty₁, body₁, rest₁, -, hl₁, hv, hfirst, hi⟩ := hi.2 hrej
    have hu₁ := (resync_eq_iff (encode_take ty₁ body₁ rest₁)).2 ⟨skipped, hv, hfirst⟩
    have he := hu.symm.trans hu₁
    obtain ⟨rfl, rfl⟩ := encode_inj hl hl₁ he
    rwa [he]
  · intro hi
    obtain ⟨skipped, hv, hfirst⟩ := (resync_eq_iff (encode_take ty' body' rest')).1 hu
    exact ⟨fun hr => absurd hr hrej, fun _ => ⟨skipped, ty', body', rest', ht, hl, hv, hfirst, hi⟩⟩

/-! ## The exits -/

/-- The call was processed and ends behind the data packet. -/
def EndsBehind (q : Queue) (body data : List BYTE) (r : Bool × Server) : Prop :=
  r.1 = true ∧
    (queueSkipTerminatorOfPacket r.2.inQueue).readNextByte = (behindData q body data).readNextByte

/-- The end of a rejected request. -/
theorem rejected_inStep (h : InRange q) (hp : AtPacket q ty body (encode binaryData data ++ rest))
    {n : ℕ} (hn : n ≤ body.length + 18) (hc : n ≤ q.count) :
    (incrementReadNextIndex q (nextPlace q (n + 1) : ℕ)).readNextByte =
        (behindData q body data).readNextByte ↔ SkippedTo (q.unread.drop n) rest := by
  have hcount := hp.count
  simp only [List.length_append, length_encode] at hcount
  have hne : q.unread.drop n ≠ [] ↔ n < q.count := by
    rw [ne_eq, List.drop_eq_nil_iff, length_unread]; omega
  have hskipped : q.unread.drop n = (encode ty body ++ encode binaryData data).drop n ++ rest := by
    rw [hp.2.2, ← List.append_assoc, List.drop_append_of_le_length]
    simp only [List.length_append, length_encode]
    omega
  rw [skippedTo_iff hskipped, hne, List.drop_drop]
  rcases Nat.lt_or_ge n q.count with hlt | hge
  · obtain ⟨hle, hr⟩ := h.nextPlace_unread (n := n + 1) hlt
    rw [place_behindData h hp hle, hr]
    constructor
    · intro he
      exact ⟨hlt, he⟩
    · intro he
      exact he.2
  · -- nothing is left, and the search goes round the ring
    obtain rfl : n = q.count := by omega
    obtain ⟨h1, h2⟩ := h.nextPlace_past
    have hend : body.length + 9 + (data.length + 9) = q.count := by omega
    have hne := (h.inc q.count).inc_ne (a := (nextPlace q (q.count + 1) - q.count : ℕ)) (by omega)
      (by omega)
    rw [h.inc_nat, Nat.add_sub_cancel' h2.le] at hne
    rw [behindData, hend]
    constructor
    · intro he
      exact absurd he hne
    · rintro ⟨he, -⟩
      omega

/-- The end of a request whose data packet is found: behind the header of the
    packet and as many bytes as are wanted, or where the packet starts. -/
theorem accepted_inStep (h : InRange s.inQueue)
    (hp : AtPacket s.inQueue ty body (encode binaryData data ++ rest)) {c : Command} {k : ℕ}
    (hle : behindPlace s.inQueue c k ≤ s.inQueue.count)
    (hrej : ¬ DataRejected env (functionOf c) (atParams s k))
    (ht : (isCompletePacketAvailable (behind (functionOf c) (atParams s k).inQueue)).1 = true) :
    DataInStep env (functionOf c) (atParams s k) rest ↔
      if (readData (functionOf c) (atParams s k)).1 = true then
        ¬ Overruns (functionOf c) (atParams s k) ∧
          (queueSkipTerminatorOfPacket (readData (functionOf c) (atParams s k)).2.2).readNextByte =
            (behindData s.inQueue body data).readNextByte
      else (queueSkipTerminatorOfPacket
          (atData (functionOf c) (atParams s k).inQueue)).readNextByte =
        (behindData s.inQueue body data).readNextByte := by
  have hparams : InRange (atParams s k).inQueue := h.inc k
  have hbr := hparams.behind (functionOf c)
  obtain ⟨hnle, hnext⟩ := h.nextPlace_unread hle
  have hat : atData (functionOf c) (atParams s k).inQueue =
      incrementReadNextIndex s.inQueue (nextPlace s.inQueue (behindPlace s.inQueue c k)) :=
    h.atData_place ht
  have hv : (behind (functionOf c) (atParams s k).inQueue).unread =
      s.inQueue.unread.drop (behindPlace s.inQueue c k) :=
    (congrArg Queue.unread (h.behind_place c k)).trans (h.unread_inc hle)
  obtain ⟨-, ty₁, body₁, rest₁, hacc, hl, hu⟩ := isComplete_true hbr ht
  rw [hbr.unread_synced] at hu
  have hpk := (atData_packet hbr hacc hl hu).2
  have hsize : getPacketSize (atData (functionOf c) (atParams s k).inQueue) - frontPacketOverhead =
      body₁.length := hpk.bodySize
  rw [dataInStep_accepted hrej hacc hl hu]
  by_cases hd : (readData (functionOf c) (atParams s k)).1 = true
  · obtain ⟨hwant, hq⟩ := readData_long (hparams.atData _) hd
    rw [hsize] at hwant
    have hdrop := hpk.2.2
    rw [hat, h.unread_inc hnle] at hdrop
    obtain ⟨hle, hr⟩ := h.reading_place hdrop (Int.toNat_le.2 hwant)
    rw [if_pos hwant, if_pos hd, hq, hat, h.inc_nat, h.skip_place, place_behindData h hp hle, hr]
  · have hlt := readData_short_lt (Bool.eq_false_iff.2 hd)
    rw [hsize] at hlt
    rw [if_neg (by omega), if_neg hd, hat, h.skip_place, h.skip_next, place_behindData h hp hnle,
      hnext, ← hv, hu]

/-- Every exit ends behind the data packet exactly if the request is `DataInStep`. -/
theorem DataStep.inStep (h : InRange s.inQueue) (hm : StoreValid s.memstore)
    (hp : AtPacket s.inQueue ty body (encode binaryData data ++ rest)) {c : Command} {k : ℕ}
    (hr : request s.inQueue = some (c, k)) (hd : takesData (functionOf c) = true)
    {r : Bool × Server} (hs : DataStep env (functionOf c) (atParams s k) r) :
    EndsBehind s.inQueue body data r ↔ DataInStep env (functionOf c) (atParams s k) rest := by
  have hc := lt_of_takesData hd
  have hle := behindPlace_le h hp hr hd hc
  have hparams : InRange (atParams s k).inQueue := h.inc k
  have hb : behind (functionOf c) (atParams s k).inQueue =
      incrementReadNextIndex s.inQueue (behindPlace s.inQueue c k) := h.behind_place c k
  unfold EndsBehind
  cases hs with
  | rejected errorId hrej =>
    have hk := request_le h hp hr hc
    have hlen := dataParams_le hd (incrementReadNextIndex s.inQueue k)
    have hskip := skipPlace_le s.inQueue (paramsEnd s.inQueue c k)
    have hin : queueSkipTerminatorOfPacket (rejectData (functionOf c) (atParams s k) errorId).inQueue =
        incrementReadNextIndex s.inQueue (nextPlace s.inQueue (behindPlace s.inQueue c k + 1)) := by
      rw [rejectData, hb, show (1 : ℤ) = ((1 : ℕ) : ℤ) from rfl, h.inc_nat, h.next_place, h.skip_place,
        h.skip_next]
    rw [dataInStep_rejected hrej, hin,
      rejected_inStep h hp (by unfold behindPlace paramsEnd at *; omega) hle, hb, h.unread_inc hle]
    simp only [true_and]
  | incomplete hrej hf =>
    constructor
    · rintro ⟨hdone, -⟩
      cases hdone
    · intro hi
      obtain ⟨skipped, ty₁, body₁, rest₁, hacc, hl, hv, hfirst, -⟩ := hi.2 hrej
      have hu := (resync_eq_iff (encode_take ty₁ body₁ rest₁)).2 ⟨skipped, hv, hfirst⟩
      rw [(atData_packet (hparams.behind _) hacc hl hu).1] at hf
      cases hf
  | short hrej ht hf =>
    rw [accepted_inStep h hp hle hrej ht, if_neg (by simp [hf])]
    simp only [true_and]
  | stored allocationId errorId w hrej ht hf hw =>
    have hno : ¬ Overruns (functionOf c) (atParams s k) := by
      rw [← storeData_faults hd (hparams.atData _) hm hf]
      rintro ⟨e, he⟩
      rw [hw] at he; cases he
    rw [accepted_inStep h hp hle hrej ht, if_pos hf]
    simp only [hno, not_false_eq_true, true_and]

/-- A fault is not in step. -/
theorem StoreFaults.not_inStep (h : InRange s.inQueue) (hm : StoreValid s.memstore)
    (hp : AtPacket s.inQueue ty body (encode binaryData data ++ rest)) {c : Command} {k : ℕ}
    (hr : request s.inQueue = some (c, k)) (hd : takesData (functionOf c) = true)
    (hf : StoreFaults env (functionOf c) (atParams s k)) :
    ¬ DataInStep env (functionOf c) (atParams s k) rest := by
  obtain ⟨hrej, ht, hread, he⟩ := hf
  have hle := behindPlace_le h hp hr hd (lt_of_takesData hd)
  have hparams : InRange (atParams s k).inQueue := h.inc k
  rw [accepted_inStep h hp hle hrej ht, if_pos hread]
  rintro ⟨hno, -⟩
  exact hno ((storeData_faults hd (hparams.atData _) hm hread).1 he)

/-! ## The dispatch -/

theorem dispatch_endsBehind (h : InRange s.inQueue)
    (hp : ∃ ty body rest, AtPacket s.inQueue ty body rest) {c : Command} {k : ℕ}
    (hr : request s.inQueue = some (c, k)) (hd : takesData (functionOf c) = true)
    (hsp : isQueueSpaceAvailable s.outQueue 30 = true) {r : Bool × Server}
    (hcall : callFunction env (atParams s k) 0 (functionOf c) = .ok r) :
    (∃ s', dispatch env s = .ok (.processed, s') ∧
      s'.inQueue.readNextByte = (behindData s.inQueue body data).readNextByte) ↔
      EndsBehind s.inQueue body data r := by
  rw [dispatch_data h hp hr hd hsp, hcall]
  obtain ⟨done, s₁⟩ := r
  cases done with
  | true =>
    constructor
    · rintro ⟨s', he, hend⟩
      cases he
      exact ⟨rfl, hend⟩
    · rintro ⟨-, hend⟩
      exact ⟨_, rfl, hend⟩
  | false =>
    constructor
    · rintro ⟨s', he, -⟩
      cases he
    · rintro ⟨he, -⟩
      cases he

/-- **In step with the stream.**  A dispatch of `SALLOC` or `IALLOC`, with a data
    packet behind it, ends behind the data packet exactly if it is `DataInStep`. -/
theorem inStep_iff (h : InRange s.inQueue) (hm : StoreValid s.memstore)
    (hp : AtPacket s.inQueue ty body (encode binaryData data ++ rest)) {c : Command} {k : ℕ}
    (hr : request s.inQueue = some (c, k)) (hd : takesData (functionOf c) = true)
    (hsp : isQueueSpaceAvailable s.outQueue 30 = true) :
    (∃ s', dispatch env s = .ok (.processed, s') ∧
      s'.inQueue.readNextByte = (behindData s.inQueue body data).readNextByte) ↔
      DataInStep env (functionOf c) (atParams s k) rest := by
  have hparams : InRange (atParams s k).inQueue := h.inc k
  rcases data_spec hparams hd 0 with ⟨r, hcall, hstep⟩ | ⟨hfault, e, hcall⟩
  · rw [dispatch_endsBehind h ⟨ty, body, _, hp⟩ hr hd hsp hcall]
    exact hstep.inStep h hm hp hr hd
  · rw [dispatch_data h ⟨ty, body, _, hp⟩ hr hd hsp, hcall]
    constructor
    · rintro ⟨s', he, -⟩
      cases he
    · intro hi
      exact absurd hi (hfault.not_inStep h hm hp hr hd)

/-! ## Parameters as documented -/

theorem stripEnd_eq {w : ℕ} (hw : w ≤ data.length) :
    stripEnd ((data ++ (minusMinusMinus ++ rest)).drop w) = rest ↔ w = data.length := by
  rw [stripEnd, List.drop_append_of_le_length hw]
  constructor
  · intro he
    split at he
    all_goals
      have he := congrArg List.length he
      simp only [List.length_drop, List.length_append, minusMinusMinus, List.length_cons,
        List.length_nil] at he
      omega
  · rintro rfl
    rw [List.drop_length, List.nil_append, if_pos (by rfl)]
    rfl

/-- No `+++` starts in the data packet behind its first byte, or across its end, and one starts
    behind it, or just two bytes are there. -/
def SkipsData (data rest : List BYTE) : Prop :=
  (∀ i, 0 < i → i < data.length + 9 →
    ((encode binaryData data ++ rest).drop i).take 3 ≠ plusPlusPlus) ∧
  (rest.take 3 = plusPlusPlus ∨ rest.length = 2)

theorem skippedTo_data : SkippedTo (encode binaryData data ++ rest) rest ↔ SkipsData data rest := by
  obtain ⟨b, skipped, henc⟩ : ∃ b skipped, encode binaryData data = b :: skipped := ⟨_, _, rfl⟩
  have hlen := congrArg List.length henc
  rw [length_encode, List.length_cons] at hlen
  have hmin : min (skipped ++ rest).length 2 = 2 := by
    rw [List.length_append]
    omega
  rw [SkipsData, henc, List.cons_append]
  constructor
  · rintro ⟨b', skipped', he, hno, hend⟩
    obtain ⟨-, he⟩ := List.cons.inj he
    obtain rfl := List.append_cancel_right he
    refine ⟨fun i hi hlt => ?_, hend.imp_right fun he => he.trans hmin⟩
    obtain ⟨j, rfl⟩ := Nat.exists_eq_succ_of_ne_zero hi.ne'
    exact hno j (by omega)
  · rintro ⟨hno, hend⟩
    refine ⟨b, skipped, rfl, fun i hi => ?_, hend.imp_right fun he => he.trans hmin.symm⟩
    exact hno (i + 1) (Nat.succ_pos i) (by omega)

/-- When the parameters fill the body of the command, a rejected request stays
    in step if no `+++` starts in the data packet behind its first byte, and one
    starts behind it or just two bytes are there, and an accepted one if the payload
    is what is wanted. -/
theorem inStep_format (h : InRange q) (hp : AtPacket q ty body (encode binaryData data ++ rest))
    (hl : data.length ≤ 65532) {c : Command} {k : ℕ} (hs : s.inQueue = incrementReadNextIndex q k)
    (hfull : paramsEnd q c k = body.length + 6) :
    DataInStep env (functionOf c) s rest ↔
      (DataRejected env (functionOf c) s → SkipsData data rest) ∧
      (¬ DataRejected env (functionOf c) s →
        (dataWant (functionOf c) s).toNat = data.length ∧ ¬ Overruns (functionOf c) s) := by
  have hv : (behind (functionOf c) s.inQueue).unread = encode binaryData data ++ rest := by
    rw [hs]; exact hp.behind_full h hfull
  by_cases hrej : DataRejected env (functionOf c) s
  · rw [dataInStep_rejected hrej, hv, skippedTo_data]
    simp only [hrej, forall_const, not_true_eq_false, false_implies, and_true]
  · have hu : resync (behind (functionOf c) s.inQueue).unread = encode binaryData data ++ rest := by
      rw [hv, resync_encode]
    have hrest : encode binaryData data ++ rest ≠ rest := by
      intro he
      have := congrArg List.length he
      rw [List.length_append, length_encode] at this
      omega
    rw [dataInStep_accepted hrej (by decide) hl hu]
    simp only [hrej, false_implies, true_and, not_false_eq_true, forall_const]
    constructor
    · intro hi
      split at hi
      next hwant => exact ⟨(stripEnd_eq (by omega)).1 hi.2, hi.1⟩
      next => exact absurd hi hrest
    · rintro ⟨hwant, hno⟩
      rw [if_pos (by omega)]
      exact ⟨hno, (stripEnd_eq hwant.le).2 hwant⟩

end

/-- Six bytes to insert at 2, which look like the ends of a packet, and a command behind them. -/
def insertingDelimiters : List BYTE :=
  encode binaryCommand [25, 1, 0, 0, 2, 0, 0, 0, 6, 0] ++
    (encode binaryData (plusPlusPlus ++ minusMinusMinus) ++ encode binaryCommand [1])

/-- An instance: they are stored, and the command behind them is next. -/
theorem inStep_delimiters : ∃ s',
    dispatch calmEnv (withPage (serverOf insertingDelimiters)) = .ok (.processed, s') ∧
    s'.inQueue.readNextByte = (behindData (queueOf insertingDelimiters)
      [25, 1, 0, 0, 2, 0, 0, 0, 6, 0] (plusPlusPlus ++ minusMinusMinus)).readNextByte ∧
    ((s'.memstore 1).data.getD []).take 9 = [0, 0, 43, 43, 43, 45, 45, 45, 0] := by
  have hv : Valid (queueOf insertingDelimiters) := queueOf_valid (by decide)
  have hp : AtPacket (queueOf insertingDelimiters) binaryCommand [25, 1, 0, 0, 2, 0, 0, 0, 6, 0]
      (encode binaryData (plusPlusPlus ++ minusMinusMinus) ++ encode binaryCommand [1]) :=
    atPacket_queueOf (by decide) (by decide) (by decide)
  have hr : request (queueOf insertingDelimiters) = some (25, 7) := by decide
  have hin : DataInStep calmEnv (functionOf 25)
      (atParams (withPage (serverOf insertingDelimiters)) 7) (encode binaryCommand [1]) := by
    rw [inStep_format hv.toInRange hp (by decide) rfl (by decide)]
    constructor
    · rintro (hrej | hrej)
      · cases hrej
      · exact absurd hrej (by decide)
    · intro _
      refine ⟨by decide, ?_⟩
      rintro ⟨-, -, -, -, hwraps⟩
      exact absurd hwraps (by decide)
  obtain ⟨s', hs, hread⟩ := (inStep_iff (s := withPage (serverOf insertingDelimiters)) hv.toInRange
    (withPage_store _ (serverOf_store _)) hp hr (by decide) (by decide)).2 hin
  refine ⟨s', hs, hread, ?_⟩
  have hstored : (dispatch calmEnv (withPage (serverOf insertingDelimiters))).toOption.map
      (fun r => ((r.2.memstore 1).data.getD []).take 9) =
        some [0, 0, 43, 43, 43, 45, 45, 45, 0] := by decide +kernel
  rw [hs] at hstored
  exact Option.some.inj hstored

/-- A page for an allocation there is not: the search for the next packet stops
    two bytes before the end of the data packet. -/
theorem inStep_rejected :
    AtPacket (queueOf (encode binaryCommand [24, 1, 0, 0] ++ encode binaryData [7])) binaryCommand
      [24, 1, 0, 0] (encode binaryData [7]) ∧
    ∃ s', dispatch calmEnv (serverOf (encode binaryCommand [24, 1, 0, 0] ++ encode binaryData [7])) =
        .ok (.processed, s') ∧
      s'.inQueue.readNextByte ≠ (behindData (queueOf (encode binaryCommand [24, 1, 0, 0] ++
        encode binaryData [7])) [24, 1, 0, 0] [7]).readNextByte :=
  ⟨atPacket_queueOf (by decide) (by decide) (by decide), _, rfl, by decide⟩

end CpcLink

/-
  Which ranges do `XALLOC` and `IALLOC` accept?

  The commands reject a range that ends behind the allocation, the store one
  that ends at its end as well: such a range passes the first check, fails the
  second, and is answered with error 1.
-/
import CpcLink.Proof.InsertCut
import CpcLink.Proof.Integers
import CpcLink.Proof.ReadBack

namespace CpcLink

open Splice

/-! ## Requests and answers -/

/-- The request for a range, as its packet's body. -/
def rangeRequest (c : Command) (i : ℤ) (off len : ℕ) : List BYTE :=
  byte c :: byte i :: (intBytes off ++ intBytes len)

/-- The command at the head is answered with this error and leaves this store. -/
def AnswersRange (env : Env) (s : Server) (c : Command) (allocationId errorId : ℤ)
    (m : Memstore) : Prop :=
  ∃ s', dispatch env s = .ok (.processed, s') ∧ s'.memstore = m ∧
    s'.outQueue.unread =
      s.outQueue.unread ++ encode binaryCommand [byte c, byte allocationId, byte errorId]

/-- The range is accepted if it fits into the `size` bytes of the allocation,
    and rejected with `errorId` if it does not. -/
structure AcceptsFitting (env : Env) (s : Server) (c : Command) (i : ℤ) (off len size : ℕ)
    (accepted : Memstore) (errorId : ℤ) : Prop where
  fits : off + len ≤ size → AnswersRange env s c i 0 accepted
  outside : size < off + len → AnswersRange env s c 0 errorId s.memstore

/-- The bound of the commands and that of the store let the same ranges through. -/
def BoundsAgree (m : Memstore) (i off len : ℤ) : Prop :=
  ¬ wrap32 (off + len) > memstoreGetAllocSizeBytes m i ↔ RangePasses m i off len

section
variable {env : Env} {s : Server} {q : Queue} {c : Command} {i : ℤ} {off len : ℕ}
  {rest d : List BYTE}

/-- An `int` is read back as it was sent. -/
theorem next32_intBytes (h : InRange q) {n v : ℕ} (hv : v < 2 ^ 31)
    (hb : ∀ j (hj : j < 4), q.peek (n + j) = (intBytes v).get ⟨j, hj⟩) :
    (getCommandNext32bitParamBin (incrementReadNextIndex q n)).1 = v := by
  have h0 : q.peek (n + 0) = byte ((v : ℤ) / 2 ^ 16) := hb 0 (by decide)
  have h1 : q.peek (n + 1) = byte ((v : ℤ) / 2 ^ 24) := hb 1 (by decide)
  have h2 : q.peek (n + 2) = byte v := hb 2 (by decide)
  have h3 : q.peek (n + 3) = byte ((v : ℤ) / 2 ^ 8) := hb 3 (by decide)
  have hvalue : intOf (byte ((v : ℤ) / 2 ^ 16)) (byte ((v : ℤ) / 2 ^ 24)) (byte v)
      (byte ((v : ℤ) / 2 ^ 8)) = v := intOf_intBytes (by omega) (by omega)
  rw [(h.inc n).next32, h.peek_inc, h.peek_inc, h.peek_inc, h.peek_inc, h0, h1, h2, h3, hvalue]

/-- A request for a range, as the dispatch reads it. -/
theorem rangeRequest_read (h : InRange s.inQueue) (hi : 0 ≤ i ∧ i < 256) (hc : c < 256)
    (hoff : off < 2 ^ 31) (hlen : len < 2 ^ 31)
    (hin : s.inQueue.unread = encode binaryCommand (rangeRequest c i off len) ++ rest) :
    AtPacket s.inQueue binaryCommand (rangeRequest c i off len) rest ∧
      request s.inQueue = some (c, 7) ∧ AsksFor (atParams s 7) i off len := by
  have hp : AtPacket s.inQueue binaryCommand (rangeRequest c i off len) rest :=
    ⟨by decide, by simp [rangeRequest, intBytes], hin⟩
  have hl : (rangeRequest c i off len).length = 10 := rfl
  refine ⟨hp, request_binary hc hp, h.inc (7 : ℕ), ?_, ?_, ?_⟩
  · have hid := peek_body hp (k := 1) (by omega)
    change (getCommandNext8bitParamBin (incrementReadNextIndex s.inQueue (7 : ℕ))).1 = i
    rw [getCommandNext8bitParamBin, (h.inc _).current, h.peek_inc, hid]
    exact toNat_byte_of_lt hi.1 hi.2
  · change (getCommandNext32bitParamBin (getCommandNext8bitParamBin
      (incrementReadNextIndex s.inQueue (7 : ℕ))).2).1 = off
    rw [next8_queue, h.inc_nat]
    refine next32_intBytes h hoff fun j hj => ?_
    have hb := peek_body hp (k := 2 + j) (by omega)
    rw [← Nat.add_assoc] at hb
    rw [hb]
    interval_cases j <;> rfl
  · change (getCommandNext32bitParamBin (getCommandNext32bitParamBin (getCommandNext8bitParamBin
      (incrementReadNextIndex s.inQueue (7 : ℕ))).2).2).1 = len
    rw [next8_queue, h.inc_nat, next32_queue (h.inc _), h.inc_nat]
    refine next32_intBytes h hlen fun j hj => ?_
    have hb := peek_body hp (k := 6 + j) (by omega)
    rw [← Nat.add_assoc] at hb
    rw [hb]
    interval_cases j <;> rfl

/-- Different errors are different answers. -/
theorem AnswersRange.error_eq {a a' e e' : ℤ} {m m' : Memstore} (h : AnswersRange env s c a e m)
    (h' : AnswersRange env s c a' e' m') : byte e = byte e' := by
  obtain ⟨s₁, hd, -, hu⟩ := h
  obtain ⟨s₂, hd', -, hu'⟩ := h'
  obtain rfl : s₁ = s₂ := by
    rw [hd] at hd'
    cases hd'
    rfl
  rw [hu] at hu'
  have hbody := List.append_cancel_left hu'
  have hboth : byte a = byte a' ∧ byte e = byte e' := by
    simpa [encode, plusPlusPlus, minusMinusMinus] using hbody
  exact hboth.2

theorem allocSize_eq (hm : StoreValid s.memstore) (hi : isAllocated s.memstore i)
    (hd : (s.memstore i).data = some d) :
    memstoreGetAllocSizeBytes s.memstore i = d.length := by
  obtain ⟨d', hd', hl⟩ := (hm.live hi).data
  obtain rfl : d = d' := Option.some.inj (hd.symm.trans hd')
  rw [memstoreGetAllocSizeBytes, if_pos hi, hl, mul_comm]

/-- The store turns down a range that ends where the allocation does. -/
theorem store_rejects_end (hm : StoreValid s.memstore) (hi : isAllocated s.memstore i)
    (hd : (s.memstore i).data = some d) (hend : off + len = d.length) (data : List BYTE) :
    memstoreCutData s.memstore i off len = .ok (false, s.memstore) ∧
      memstoreInsertData s.memstore i off len data = .ok (false, s.memstore) := by
  have ha := hm.live hi
  have hsize := ha.size_le
  obtain ⟨d', hd', hl⟩ := ha.data
  obtain rfl : d = d' := Option.some.inj (hd.symm.trans hd')
  have hno : ¬ (isAllocated s.memstore i ∧ (0 : ℤ) ≤ off ∧ (0 : ℤ) < len ∧
      wrap32 ((off : ℤ) + len) < (s.memstore i).numberPages * (s.memstore i).pageSize) := by
    rintro ⟨-, -, -, hlt⟩
    rw [wrap32_id (by omega) (by omega)] at hlt
    omega
  constructor
  · rw [memstoreCutData, if_neg hno]; rfl
  · rw [memstoreInsertData, if_neg hno]; rfl

/-! ## `XALLOC` -/

/-- The answer of a command that ends in `respondBytes`. -/
theorem answersRange_of_respond (h : Healthy s) (hc : c < maxCommands)
    (hsp : isQueueSpaceAvailable s.outQueue 30 = true) (hspace : spaceOf (functionOf c) = 30)
    (hp : ∃ ty body rest, AtPacket s.inQueue ty body rest) (hr : request s.inQueue = some (c, 7))
    {t : Server} {a e : ℤ} {m : Memstore} (hm : t.memstore = m)
    (hout : t.outQueue = buildResponse s.outQueue [byte c, byte a, byte e])
    (hcall : callFunction env (atParams s 7) 0 (functionOf c) = .ok (true, t)) :
    AnswersRange env s c a e m := by
  refine ⟨skipEnd t, dispatch_processed h.inQueue hp hc hr (by rwa [hspace]) hcall, hm, ?_⟩
  change t.outQueue.unread = _
  rw [hout, unread_buildResponse h.outQueue hsp (by simp)]

/-- `XALLOC`, in the numbers of the request. -/
theorem commandCutAlloc_eq (s : Server) : ∃ inQ, commandCutAlloc s =
    if wrap32 (insertAtOf s.inQueue + insertLengthOf s.inQueue) >
        memstoreGetAllocSizeBytes s.memstore (allocationIdOf s.inQueue) then
      .ok (true, respondBytes { s with inQueue := inQ } cutAlloc [0, 2])
    else do
      let r ← memstoreCutData s.memstore (allocationIdOf s.inQueue) (insertAtOf s.inQueue)
        (insertLengthOf s.inQueue)
      let t := { s with inQueue := inQ, memstore := r.2 }
      if r.1 then return (true, respondBytes t cutAlloc [allocationIdOf s.inQueue, 0])
      else return (true, respondBytes t cutAlloc [0, 1]) := by
  unfold commandCutAlloc allocationIdOf insertAtOf insertLengthOf
  exact ⟨_, rfl⟩

theorem cutAlloc_rejects (hasks : AsksFor s i off len)
    (hgt : wrap32 ((off : ℤ) + len) > memstoreGetAllocSizeBytes s.memstore i) :
    ∃ inQ, commandCutAlloc s = .ok (true, respondBytes { s with inQueue := inQ } cutAlloc [0, 2]) := by
  obtain ⟨inQ, he⟩ := commandCutAlloc_eq s
  rw [hasks.allocationId, hasks.atIndex, hasks.length, if_pos hgt] at he
  exact ⟨inQ, he⟩

theorem cutAlloc_calls (hasks : AsksFor s i off len)
    (hle : ¬ wrap32 ((off : ℤ) + len) > memstoreGetAllocSizeBytes s.memstore i) {ok : Bool}
    {m : Memstore} (hr : memstoreCutData s.memstore i off len = .ok (ok, m)) :
    ∃ inQ, commandCutAlloc s = .ok (true, respondBytes { s with inQueue := inQ, memstore := m }
      cutAlloc (if ok then [i, 0] else [0, 1])) := by
  obtain ⟨inQ, he⟩ := commandCutAlloc_eq s
  rw [hasks.allocationId, hasks.atIndex, hasks.length, if_neg hle, hr] at he
  refine ⟨inQ, he.trans ?_⟩
  cases ok <;> rfl

/-- How `XALLOC` is answered: the range fits, ends at the end, or is outside. -/
theorem cutAlloc_answer (env : Env) (h : Healthy s) (hi : isAllocated s.memstore i)
    (hd : (s.memstore i).data = some d) (hpos : 0 < len) (hsum : off + len < 2 ^ 31)
    (hsp : isQueueSpaceAvailable s.outQueue 30 = true)
    (hin : s.inQueue.unread = encode binaryCommand (rangeRequest cutAlloc i off len) ++ rest) :
    (off + len < d.length → AnswersRange env s cutAlloc i 0
      (withContent s.memstore i (spliceOut d off len 0))) ∧
    (off + len = d.length → AnswersRange env s cutAlloc 0 1 s.memstore) ∧
    (d.length < off + len → AnswersRange env s cutAlloc 0 2 s.memstore) := by
  have hi0 : 0 < i := hi.1
  have hi21 : i < 21 := hi.2.1
  obtain ⟨hp, hr, hasks⟩ := rangeRequest_read h.inQueue (by omega) (by decide) (by omega) (by omega) hin
  have hsize : memstoreGetAllocSizeBytes (atParams s 7).memstore i = d.length :=
    allocSize_eq h.memstore hi hd
  have hwrap : wrap32 ((off : ℤ) + len) = off + len := wrap32_id (by omega) (by omega)
  have answer : ∀ {inQ : Queue} {m : Memstore} {a e : ℤ}, commandCutAlloc (atParams s 7) =
      .ok (true, respondBytes { atParams s 7 with inQueue := inQ, memstore := m } cutAlloc [a, e]) →
      AnswersRange env s cutAlloc a e m := fun hcall =>
    answersRange_of_respond h (by decide) hsp rfl ⟨_, _, _, hp⟩ hr rfl rfl hcall
  refine ⟨fun hlt => ?_, fun he => ?_, fun hgt => ?_⟩
  · obtain ⟨inQ, hcall⟩ := cutAlloc_calls hasks (by rw [hsize, hwrap]; omega)
      (cut_splices h.memstore hi hd hpos hlt)
    exact answer hcall
  · obtain ⟨inQ, hcall⟩ := cutAlloc_calls hasks (by rw [hsize, hwrap]; omega)
      (store_rejects_end h.memstore hi hd he []).1
    exact answer hcall
  · obtain ⟨inQ, hcall⟩ := cutAlloc_rejects hasks (by rw [hsize, hwrap]; omega)
    exact answer hcall

/-! ## `IALLOC` -/

/-- How `IALLOC` with its data is answered. -/
theorem insertAlloc_answer (env : Env) (h : Healthy s) (hi : isAllocated s.memstore i)
    (hd : (s.memstore i).data = some d) {x : List BYTE} (hpos : 0 < x.length)
    (hx : x.length ≤ 65532) (hsum : off + x.length < 2 ^ 31)
    (hsp : isQueueSpaceAvailable s.outQueue 30 = true)
    (hin : s.inQueue.unread = encode binaryCommand (rangeRequest insertAlloc i off x.length) ++
      (encode binaryData x ++ rest)) :
    (env.calloc (x.length + 1) = false → AnswersRange env s insertAlloc 0 2 s.memstore) ∧
    (env.calloc (x.length + 1) = true →
      (off + x.length < d.length → AnswersRange env s insertAlloc i 0
        (withContent s.memstore i (spliceIn d off x))) ∧
      (off + x.length = d.length → AnswersRange env s insertAlloc 0 1 s.memstore) ∧
      (d.length < off + x.length → AnswersRange env s insertAlloc 0 3 s.memstore)) := by
  have hi0 : 0 < i := hi.1
  have hi21 : i < 21 := hi.2.1
  obtain ⟨hp, hr, hasks⟩ := rangeRequest_read h.inQueue (by omega) (by decide) (by omega) (by omega) hin
  have hparams := hasks.inQueue
  have hsize : memstoreGetAllocSizeBytes (atParams s 7).memstore i = d.length :=
    allocSize_eq h.memstore hi hd
  have hwant : dataWant .commandInsertAlloc (atParams s 7) = x.length := hasks.length
  have hwrap : wrap32 ((off : ℤ) + x.length) = off + x.length := wrap32_id (by omega) (by omega)
  have hcopy : wrap32 ((x.length : ℤ) + 1) = x.length + 1 := wrap32_id (by omega) (by omega)
  have hrun : commandInsertAlloc env (atParams s 7) = _ := commandInsertAlloc_eq hparams
  rw [hwant, hcopy, hasks.allocationId, hasks.atIndex, hsize, hwrap] at hrun
  have answer : ∀ {t : Server} {a e : ℤ}, commandInsertAlloc env (atParams s 7) = .ok (true, t) →
      t.outQueue = answerData .commandInsertAlloc (atParams s 7) a e → ∀ {m}, t.memstore = m →
      AnswersRange env s insertAlloc a e m := by
    intro t a e hcall hout m hm
    exact answersRange_of_respond h (by decide) hsp rfl ⟨_, _, _, hp⟩ hr hm hout hcall
  -- the data packet is right behind the parameters
  obtain ⟨hc, hat⟩ : (isCompletePacketAvailable (behind .commandInsertAlloc
      (atParams s 7).inQueue)).1 = true ∧
      AtPacket (atData .commandInsertAlloc (atParams s 7).inQueue) binaryData x rest := by
    refine atData_packet (hparams.behind _) (by decide) hx ?_
    have hbehind := hp.behind_full h.inQueue (c := insertAlloc) (k := 7) rfl
    rw [← resync_encode binaryData x rest, ← hbehind]
    rfl
  have stored : ∀ (ok : Bool) {m : Memstore}, env.calloc (x.length + 1) = true →
      off + x.length ≤ d.length → memstoreInsertData s.memstore i off x.length x = .ok (ok, m) →
      AnswersRange env s insertAlloc (if ok then i else 0) (if ok then 0 else 1) m := by
    intro ok m hcalloc hle hstore
    have hdone : storeData .commandInsertAlloc (atParams s 7) x = .ok (ok, m) := by
      change memstoreInsertData _ (allocationIdOf _) (insertAtOf _) (dataWant _ _) x = _
      rw [hasks.allocationId, hasks.atIndex, hwant]
      exact hstore
    rw [if_neg (by simp [hcalloc]), if_neg (by omega),
      dataExits_runs hparams hc hat hwant hdone] at hrun
    rw [hasks.allocationId] at hrun
    cases ok
    · exact answer hrun rfl rfl
    · exact answer hrun rfl rfl
  refine ⟨fun hno => ?_, fun hcalloc => ⟨fun hlt => ?_, fun he => ?_, fun hgt => ?_⟩⟩
  · rw [if_pos hno] at hrun
    exact answer hrun rfl rfl
  · exact stored true hcalloc hlt.le (insert_splices h.memstore hi hd hpos hlt)
  · exact stored false hcalloc he.le (store_rejects_end h.memstore hi hd he x).2
  · rw [if_neg (by simp [hcalloc]), if_pos (by omega)] at hrun
    exact answer hrun rfl rfl

/-! ## Which ranges are accepted -/

theorem acceptsFitting_iff {size : ℕ} {accepted : Memstore} {errorId : ℤ}
    (hlt : off + len < size → AnswersRange env s c i 0 accepted)
    (hend : off + len = size → AnswersRange env s c 0 1 s.memstore)
    (hgt : size < off + len → AnswersRange env s c 0 errorId s.memstore) :
    AcceptsFitting env s c i off len size accepted errorId ↔ off + len ≠ size := by
  constructor
  · intro h he
    exact absurd ((hend he).error_eq (h.fits he.le)) (by decide)
  · intro hne
    exact ⟨fun hle => hlt (lt_of_le_of_ne hle hne), hgt⟩

theorem boundsAgree_iff (hm : StoreValid s.memstore) (hi : isAllocated s.memstore i)
    (hd : (s.memstore i).data = some d) (hpos : 0 < len) (hsum : off + len < 2 ^ 31) :
    BoundsAgree s.memstore i off len ↔ off + len ≠ d.length := by
  have hsize := allocSize_eq hm hi hd
  have hmul : (s.memstore i).numberPages * (s.memstore i).pageSize = d.length := by
    rw [← hsize, memstoreGetAllocSizeBytes, if_pos hi, mul_comm]
  have hwrap : wrap32 ((off : ℤ) + len) = off + len := wrap32_id (by omega) (by omega)
  unfold BoundsAgree RangePasses
  rw [hsize, hmul, hwrap]
  constructor
  · intro h he
    have hlt := (h.1 (by omega)).2.2.2
    omega
  · intro hne
    constructor
    · intro hle
      exact ⟨hi, by omega, by omega, by omega⟩
    · rintro ⟨-, -, -, hlt⟩
      omega

/-- **Which ranges are accepted**: exactly those that fit, but for a range that
    ends where the allocation does.  `IALLOC` needs memory for its copy of the
    data, too. -/
theorem ranges_accepted_iff (env : Env) (h : Healthy s) (hi : isAllocated s.memstore i)
    (hd : (s.memstore i).data = some d) (hpos : 0 < len) (hsum : off + len < 2 ^ 31)
    (hsp : isQueueSpaceAvailable s.outQueue 30 = true) :
    (BoundsAgree s.memstore i off len ↔ off + len ≠ d.length) ∧
    (∀ rest, s.inQueue.unread = encode binaryCommand (rangeRequest cutAlloc i off len) ++ rest →
      (AcceptsFitting env s cutAlloc i off len d.length
        (withContent s.memstore i (spliceOut d off len 0)) 2 ↔ off + len ≠ d.length)) ∧
    (∀ x rest, x.length = len → x.length ≤ 65532 → s.inQueue.unread =
        encode binaryCommand (rangeRequest insertAlloc i off len) ++ (encode binaryData x ++ rest) →
      (AcceptsFitting env s insertAlloc i off len d.length
        (withContent s.memstore i (spliceIn d off x)) 3 ↔
          off + len ≠ d.length ∧ env.calloc (len + 1) = true)) := by
  refine ⟨boundsAgree_iff h.memstore hi hd hpos hsum, fun rest hin => ?_, ?_⟩
  · obtain ⟨hlt, hend, hgt⟩ := cutAlloc_answer env h hi hd hpos hsum hsp hin
    exact acceptsFitting_iff hlt hend hgt
  · rintro x rest rfl hx hin
    obtain ⟨hno, hyes⟩ := insertAlloc_answer env h hi hd hpos hx hsum hsp hin
    cases hcalloc : env.calloc (x.length + 1) with
    | true =>
      obtain ⟨hlt, hend, hgt⟩ := hyes hcalloc
      rw [acceptsFitting_iff hlt hend hgt]
      exact (and_iff_left rfl).symm
    | false =>
      -- `AcceptsFitting` is about two answers, and error 2 is neither
      have hanswer := hno hcalloc
      refine iff_of_false (fun hacc => ?_) (fun hboth => Bool.false_ne_true hboth.2)
      rcases le_or_gt (off + x.length) d.length with hle | hgt
      · exact absurd (hanswer.error_eq (hacc.fits hle)) (by decide)
      · exact absurd (hanswer.error_eq (hacc.outside hgt)) (by decide)

end

/-! ## A page of 1 KB -/

/-- The client asks for a range to be cut out of the page. -/
def askingToCut (off len : ℕ) : Server :=
  withPage (serverOf (encode binaryCommand (rangeRequest cutAlloc 1 off len) ++ []))

theorem askingToCut_length (off len : ℕ) :
    ((encode binaryCommand (rangeRequest cutAlloc 1 off len) ++ []).length : ℤ) < queueSize := by
  have hl : (rangeRequest cutAlloc 1 off len).length = 10 := rfl
  rw [List.append_nil, length_encode, hl]
  decide

theorem askingToCut_healthy (off len : ℕ) : Healthy (askingToCut off len) :=
  withPage_healthy (askingToCut_length off len)

theorem askingToCut_unread (off len : ℕ) : (askingToCut off len).inQueue.unread =
    encode binaryCommand (rangeRequest cutAlloc 1 off len) ++ [] :=
  queueOf_unread (askingToCut_length off len)

/-- An instance: two bytes are cut. -/
theorem ranges_accepted_two : AcceptsFitting calmEnv (askingToCut 10 2) cutAlloc 1 10 2 1024
    (withContent (askingToCut 10 2).memstore 1 (spliceOut (List.replicate 1024 0) 10 2 0)) 2 := by
  have hsum : 10 + 2 < 2 ^ 31 := by decide
  obtain ⟨-, hcut, -⟩ := ranges_accepted_iff calmEnv (askingToCut_healthy 10 2) (i := 1)
    (d := List.replicate 1024 0) (by decide) rfl (by decide) hsum (by decide)
  rw [List.length_replicate] at hcut
  exact (hcut [] (askingToCut_unread 10 2)).2 (by decide)

/-- The last four bytes of the page: the range fits, and is answered with error
    1. -/
theorem range_at_end : AnswersRange calmEnv (askingToCut 1020 4) cutAlloc 0 1
      (askingToCut 1020 4).memstore ∧
    ¬ AcceptsFitting calmEnv (askingToCut 1020 4) cutAlloc 1 1020 4 1024
      (withContent (askingToCut 1020 4).memstore 1 (spliceOut (List.replicate 1024 0) 1020 4 0)) 2 ∧
    ¬ BoundsAgree (askingToCut 1020 4).memstore 1 1020 4 := by
  have h := askingToCut_healthy 1020 4
  have hi : isAllocated (askingToCut 1020 4).memstore 1 := by decide
  have hd : ((askingToCut 1020 4).memstore 1).data = some (List.replicate 1024 0) := rfl
  have hend : 1020 + 4 = (List.replicate 1024 (0 : BYTE)).length := by rw [List.length_replicate]
  have hanswer : AnswersRange calmEnv (askingToCut 1020 4) cutAlloc 0 1
      (askingToCut 1020 4).memstore :=
    (cutAlloc_answer calmEnv h hi hd (by decide) (by decide) (by decide)
      (askingToCut_unread 1020 4)).2.1 hend
  refine ⟨hanswer, fun hacc => ?_, fun hagree => ?_⟩
  · exact absurd (hanswer.error_eq (hacc.fits le_rfl)) (by decide)
  · have hsum : 1020 + 4 < 2 ^ 31 := by decide
    exact (boundsAgree_iff h.memstore hi hd (by decide) hsum).1 hagree hend

end CpcLink

/-
  What do `SALLOC` and `IALLOC` take for their data?

  The first complete packet that is found behind the request, if it is long
  enough: its type is not looked at, nor what was skipped in front of it, and of
  a longer packet the first bytes are taken.
-/
import CpcLink.Proof.RangeAnswers

namespace CpcLink

open Splice

/-- The command hands these bytes to the store, which takes them. -/
structure Takes (env : Env) (fn : CommandFunction) (s : Server) (data : List BYTE)
    (m : Memstore) : Prop where
  accepted : ¬ DataRejected env fn s
  found : (isCompletePacketAvailable (behind fn s.inQueue)).1 = true
  long : (readData fn s).1 = true
  bytes : data = (readData fn s).2.1
  stored : storeData fn s data = .ok (true, m)

/-- What is taken is the payload of the data packet right behind the request. -/
def TakesItsData (env : Env) (fn : CommandFunction) (s : Server) (rest : List BYTE) : Prop :=
  ∀ data m, Takes env fn s data m →
    ∃ rest', data.length ≤ 65532 ∧ rest = encode binaryData data ++ rest'

/-- The page is there, or the range is. -/
def StoreTakes (fn : CommandFunction) (s : Server) : Prop :=
  match fn with
  | .commandStoreAlloc => isAllocated s.memstore (allocationIdOf s.inQueue) ∧
      0 ≤ pageNumberOf s.inQueue ∧
      pageNumberOf s.inQueue < (s.memstore (allocationIdOf s.inQueue)).numberPages
  | _ => RangePasses s.memstore (allocationIdOf s.inQueue) (insertAtOf s.inQueue)
      (insertLengthOf s.inQueue) ∧ ¬ EndWraps (insertAtOf s.inQueue) (insertLengthOf s.inQueue)

/-- Of the packets that can follow, only the right one is complete and long
    enough: with nothing skipped in front of it, a data packet, and not too long. -/
def RightPacketBehind (env : Env) (fn : CommandFunction) (s : Server) (rest : List BYTE) : Prop :=
  ¬ DataRejected env fn s → StoreTakes fn s → ∀ ty body rest',
    resync rest = encode ty body ++ rest' → AcceptedType ty → body.length ≤ 65532 →
    dataWant fn s ≤ body.length →
    resync rest = rest ∧ ty = binaryData ∧ body.length = dataWant fn s

section
variable {env : Env} {s : Server} {fn : CommandFunction} {data : List BYTE} {m : Memstore}

/-! ## The store -/

theorem memstoreInsert_true {i p n : ℤ} {r : Bool × Memstore} (hpass : RangePasses m i p n)
    (hr : memstoreInsertData m i p n data = .ok r) : r.1 = true := by
  unfold RangePasses at hpass
  unfold memstoreInsertData at hr
  dsimp only at hr
  rw [if_pos hpass] at hr
  obtain ⟨moved, -, hr⟩ := bind_eq_ok.1 hr
  obtain ⟨data₁, -, hr⟩ := bind_eq_ok.1 hr
  obtain ⟨data₂, -, hr⟩ := bind_eq_ok.1 hr
  cases hr
  rfl

theorem memstoreInsert_false {i p n : ℤ} (hno : ¬ RangePasses m i p n) :
    memstoreInsertData m i p n data = .ok (false, m) := by
  unfold RangePasses at hno
  unfold memstoreInsertData
  dsimp only
  rw [if_neg hno]
  rfl

theorem memstoreStore_false {i p : ℤ}
    (hno : ¬ (isAllocated m i ∧ 0 ≤ p ∧ p < (m i).numberPages)) :
    memstoreStorePageOfData m i p data = .ok (false, m) := by
  rw [memstoreStorePageOfData, if_neg hno]
  rfl

/-- What the store turns down leaves it as it was. -/
theorem storeData_false {r : Bool × Memstore} (hr : storeData fn s data = .ok r)
    (hf : r.1 = false) : r.2 = s.memstore := by
  unfold storeData at hr
  split at hr
  · by_cases hin : isAllocated s.memstore (allocationIdOf s.inQueue) ∧
        0 ≤ pageNumberOf s.inQueue ∧
        pageNumberOf s.inQueue < (s.memstore (allocationIdOf s.inQueue)).numberPages
    · rw [memstoreStorePageOfData, if_pos hin] at hr
      obtain ⟨d, -, hr⟩ := bind_eq_ok.1 hr
      cases hr
      cases hf
    · rw [memstoreStore_false hin] at hr
      cases hr
      rfl
  · by_cases hpass : RangePasses s.memstore (allocationIdOf s.inQueue) (insertAtOf s.inQueue)
        (dataWant fn s)
    · rw [memstoreInsert_true hpass hr] at hf
      cases hf
    · rw [memstoreInsert_false hpass] at hr
      cases hr
      rfl

theorem storeTakes_store : StoreTakes .commandStoreAlloc s ↔
    isAllocated s.memstore (allocationIdOf s.inQueue) ∧ 0 ≤ pageNumberOf s.inQueue ∧
      pageNumberOf s.inQueue < (s.memstore (allocationIdOf s.inQueue)).numberPages := by
  unfold StoreTakes
  rfl

theorem storeTakes_insert : StoreTakes .commandInsertAlloc s ↔
    RangePasses s.memstore (allocationIdOf s.inQueue) (insertAtOf s.inQueue)
      (insertLengthOf s.inQueue) ∧ ¬ EndWraps (insertAtOf s.inQueue) (insertLengthOf s.inQueue) := by
  unfold StoreTakes
  rfl

theorem dataWant_store (hi : isAllocated s.memstore (allocationIdOf s.inQueue)) :
    dataWant .commandStoreAlloc s = (s.memstore (allocationIdOf s.inQueue)).pageSize := by
  unfold dataWant
  exact if_pos hi

theorem dataWant_insert : dataWant .commandInsertAlloc s = insertLengthOf s.inQueue := by
  unfold dataWant
  rfl

theorem storeData_insert : storeData .commandInsertAlloc s data =
    memstoreInsertData s.memstore (allocationIdOf s.inQueue) (insertAtOf s.inQueue)
      (insertLengthOf s.inQueue) data := by
  unfold storeData dataWant
  rfl

theorem dataWant_pos (hfn : takesData fn = true) (hm : StoreValid s.memstore)
    (hst : StoreTakes fn s) : 0 < dataWant fn s := by
  cases fn with
  | commandStoreAlloc =>
    obtain ⟨hi, -⟩ := storeTakes_store.1 hst
    have hsize := (hm.live hi).size
    rw [dataWant_store hi]
    omega
  | commandInsertAlloc =>
    obtain ⟨hpass, -⟩ := storeTakes_insert.1 hst
    rw [dataWant_insert]
    exact hpass.2.2.1
  | _ => cases hfn

/-- As many bytes as are wanted are taken if there is room for them. -/
theorem storeData_true (hfn : takesData fn = true) (hm : StoreValid s.memstore)
    (hl : (data.length : ℤ) = max (dataWant fn s) 0) :
    (∃ m, storeData fn s data = .ok (true, m)) ↔ StoreTakes fn s := by
  cases fn with
  | commandStoreAlloc =>
    rw [storeTakes_store, storeData]
    constructor
    · rintro ⟨m, hr⟩
      by_contra hno
      rw [memstoreStore_false hno] at hr
      cases hr
    · rintro ⟨hi, h0, hp⟩
      have hsize := (hm.live hi).size
      rw [dataWant_store hi, max_eq_left (by omega)] at hl
      obtain ⟨d, -, -, hstore⟩ := storePage_eq hm hi h0 hp hl
      exact ⟨_, hstore⟩
  | commandInsertAlloc =>
    rw [dataWant_insert] at hl
    have hfaults := memstoreInsert_faults (i := allocationIdOf s.inQueue) hm
      (insertAtOf_range s.inQueue).2 (insertLengthOf_range s.inQueue).2 hl
    rw [storeTakes_insert, storeData_insert]
    constructor
    · rintro ⟨m, hr⟩
      have hpass : RangePasses s.memstore (allocationIdOf s.inQueue) (insertAtOf s.inQueue)
          (insertLengthOf s.inQueue) := by
        by_contra hno
        rw [memstoreInsert_false hno] at hr
        cases hr
      refine ⟨hpass, fun hw => ?_⟩
      obtain ⟨e, he⟩ := hfaults.2 ⟨hpass.1, hw⟩
      rw [hr] at he
      cases he
    · rintro ⟨hpass, hw⟩
      cases hr : memstoreInsertData s.memstore (allocationIdOf s.inQueue) (insertAtOf s.inQueue)
          (insertLengthOf s.inQueue) data with
      | error e => exact absurd (hfaults.1 ⟨e, hr⟩).2 hw
      | ok r =>
        obtain ⟨b, m⟩ := r
        obtain rfl : b = true := memstoreInsert_true hpass hr
        exact ⟨m, rfl⟩
  | _ => cases hfn

/-! ## The packet -/

/-- **What is taken**: the first bytes of the first packet behind the request,
    whatever it is. -/
theorem takes_iff (hfn : takesData fn = true) (h : InRange s.inQueue) (hm : StoreValid s.memstore)
    {rest : List BYTE} (hrest : (behind fn s.inQueue).unread = rest) :
    (∃ m, Takes env fn s data m) ↔ ¬ DataRejected env fn s ∧ StoreTakes fn s ∧
      ∃ ty body rest', resync rest = encode ty body ++ rest' ∧ AcceptedType ty ∧
        body.length ≤ 65532 ∧ dataWant fn s ≤ body.length ∧ data = body.take (dataWant fn s).toNat := by
  have hbehind := h.behind fn
  have hat := h.atData fn
  constructor
  · rintro ⟨m, hacc, hfound, hlong, hdata, hstored⟩
    have hl := readData_length hat hlong
    rw [← hdata] at hl
    have hst := (storeData_true hfn hm hl).1 ⟨m, hstored⟩
    have hpos := dataWant_pos hfn hm hst
    obtain ⟨hsync, ty, body, rest', hp⟩ := isComplete_true hbehind hfound
    have hq : atData fn s.inQueue = synced (behind fn s.inQueue) := hsync
    rw [← hq] at hp
    have hlen := (readData_long hat hlong).1
    rw [hp.packetSize] at hlen
    simp only [frontPacketOverhead] at hlen
    refine ⟨hacc, hst, ty, body, rest', ?_, hp.1, hp.2.1, by omega, ?_⟩
    · rw [← hp.2.2, hq, hbehind.unread_synced, hrest]
    · have hget := hp.getData hat (n := (dataWant fn s).toNat) (by omega)
      rw [Int.toNat_of_nonneg hpos.le] at hget
      rw [hdata, readData, hget]
  · rintro ⟨hacc, hst, ty, body, rest', hu, hty, hb, hle, rfl⟩
    have hpos := dataWant_pos hfn hm hst
    obtain ⟨hfound, hp⟩ := atData_packet hbehind hty hb (by rw [hrest, hu])
    have hget := hp.getData hat (n := (dataWant fn s).toNat) (by omega)
    rw [Int.toNat_of_nonneg hpos.le] at hget
    have hl : ((body.take (dataWant fn s).toNat).length : ℤ) = max (dataWant fn s) 0 := by
      rw [List.length_take]
      omega
    obtain ⟨m, hstored⟩ := (storeData_true hfn hm hl).2 hst
    exact ⟨m, hacc, hfound, by rw [readData, hget], by rw [readData, hget], hstored⟩

theorem takesItsData_iff (hfn : takesData fn = true) (h : InRange s.inQueue)
    (hm : StoreValid s.memstore) {rest : List BYTE} (hrest : (behind fn s.inQueue).unread = rest) :
    TakesItsData env fn s rest ↔ RightPacketBehind env fn s rest := by
  constructor
  · intro hits hacc hst ty body rest' hu hty hb hle
    have hpos := dataWant_pos hfn hm hst
    obtain ⟨m, htakes⟩ : ∃ m, Takes env fn s (body.take (dataWant fn s).toNat) m :=
      (takes_iff hfn h hm hrest).2 ⟨hacc, hst, ty, body, rest', hu, hty, hb, hle, rfl⟩
    obtain ⟨rest'', hl, hr⟩ := hits _ m htakes
    have hsame : resync rest = rest := by rw [hr, resync_encode]
    rw [hsame, hr] at hu
    have htype := congrArg frameType hu
    rw [frameType_encode, frameType_encode] at htype
    obtain ⟨hbody, -⟩ := encode_inj hl hb hu
    have hlen := congrArg List.length hbody
    rw [List.length_take] at hlen
    exact ⟨hsame, htype.symm, by omega⟩
  · intro hright data m htakes
    obtain ⟨hacc, hst, ty, body, rest', hu, hty, hb, hle, rfl⟩ :=
      (takes_iff hfn h hm hrest).1 ⟨m, htakes⟩
    obtain ⟨hsame, rfl, hlen⟩ := hright hacc hst ty body rest' hu hty hb hle
    have hall : body.take (dataWant fn s).toNat = body := List.take_of_length_le (by omega)
    rw [hall]
    exact ⟨rest', hb, by rw [← hu, hsame]⟩

/-! ## The command -/

/-- A call changes the store only by what it takes. -/
theorem DataStep.takes {r : Bool × Server} (h : DataStep env fn s r)
    (hne : r.2.memstore ≠ s.memstore) : ∃ data, Takes env fn s data r.2.memstore := by
  cases h with
  | rejected => exact absurd rfl hne
  | incomplete => exact absurd rfl hne
  | short => exact absurd rfl hne
  | stored allocationId errorId w hacc hfound hlong hstored =>
    obtain ⟨ok, m⟩ := w
    cases ok with
    | true => exact ⟨_, hacc, hfound, hlong, rfl, hstored⟩
    | false => exact absurd (storeData_false hstored rfl) hne

/-- What is taken is stored. -/
theorem Takes.call (ht : Takes env fn s data m) (hfn : takesData fn = true) (h : InRange s.inQueue)
    (tick : ℤ) : ∃ t, callFunction env s tick fn = .ok (true, t) ∧ t.memstore = m := by
  obtain ⟨hacc, hfound, hlong, rfl, hstored⟩ := ht
  have hspec : DataSpec env fn s (callFunction env s tick fn) := data_spec h hfn tick
  rcases hspec with ⟨r, hr, hstep⟩ | ⟨⟨-, -, -, e, he⟩, -⟩
  · cases hstep with
    | rejected _ hrej => exact absurd hrej hacc
    | incomplete _ hc => rw [hfound] at hc; cases hc
    | short _ _ hs => rw [hlong] at hs; cases hs
    | stored _ _ w _ _ _ hw =>
      rw [hstored] at hw
      cases hw
      exact ⟨_, hr, rfl⟩
  · rw [hstored] at he
    cases he

/-- **Whose payload is stored**: a dispatch changes the store only by what it
    takes, it stores what it takes, and that is the payload of the data packet
    right behind the request exactly if no other packet is long enough. -/
theorem data_packet_iff (env : Env) (h : Healthy s) {ty : PacketType} {body rest : List BYTE}
    {c : Command} {k : ℕ} (hp : AtPacket s.inQueue ty body rest) (hr : request s.inQueue = some (c, k))
    (hfn : takesData (functionOf c) = true) (hfull : paramsEnd s.inQueue c k = body.length + 6) :
    (∀ o s', dispatch env s = .ok (o, s') → s'.memstore ≠ s.memstore →
      ∃ data, Takes env (functionOf c) (atParams s k) data s'.memstore) ∧
    (isQueueSpaceAvailable s.outQueue (spaceOf (functionOf c)) = true →
      ∀ data m, Takes env (functionOf c) (atParams s k) data m →
        ∃ s', dispatch env s = .ok (.processed, s') ∧ s'.memstore = m) ∧
    (TakesItsData env (functionOf c) (atParams s k) rest ↔
      RightPacketBehind env (functionOf c) (atParams s k) rest) := by
  have hparams : InRange (atParams s k).inQueue := h.inQueue.inc k
  refine ⟨fun o s' hd hne => ?_, fun hsp data m ht => ?_,
    takesItsData_iff hfn hparams h.memstore (hp.behind_full h.inQueue hfull)⟩
  · have call : ∀ {c' : Command} {k' : ℕ} {r : Bool × Server},
        request s.inQueue = some (c', k') →
        callFunction env (atParams s k') 0 (functionOf c') = .ok r → r.2.memstore ≠ s.memstore →
        ∃ data, Takes env (functionOf c) (atParams s k) data r.2.memstore := by
      intro c' k' r hr' hcall hne
      rw [hr] at hr'
      cases hr'
      exact (data_call hparams hfn hcall).takes hne
    cases dispatch_step h.inQueue ⟨_, _, _, hp⟩ hd with
    | ignored => exact absurd rfl hne
    | badText => exact absurd rfl hne
    | noSpace => exact absurd rfl hne
    | complete hr' _ _ hcall => exact call hr' hcall hne
    | retried hr' _ _ _ hcall => exact call hr' hcall hne
    | scheduled hr' _ _ _ hcall hsched =>
      obtain ⟨_, rfl, -⟩ := schedule_spec hsched
      exact call hr' hcall hne
  · obtain ⟨t, hcall, hm⟩ := ht.call hfn hparams 0
    exact ⟨_, dispatch_processed h.inQueue ⟨_, _, _, hp⟩ (lt_of_takesData hfn) hr hsp hcall, hm⟩

end

/-! ## Five bytes to insert -/

/-- The client asks for five bytes to be put into the page, and sends a packet. -/
def askingToInsert (ty : PacketType) (body : List BYTE) : Server :=
  withPage (serverOf (encode binaryCommand (rangeRequest insertAlloc 1 0 5) ++ (encode ty body ++ [])))

section
variable {ty : PacketType} {body : List BYTE}

theorem askingToInsert_length (hl : body.length = 5) :
    ((encode binaryCommand (rangeRequest insertAlloc 1 0 5) ++ (encode ty body ++ [])).length : ℤ) <
      queueSize := by
  rw [List.append_nil, List.length_append, length_encode, length_encode, hl]
  decide

theorem askingToInsert_healthy (ty : PacketType) (hl : body.length = 5) : Healthy (askingToInsert ty body) :=
  withPage_healthy (askingToInsert_length hl)

/-- The request is the same for every packet, and not rejected. -/
theorem askingToInsert_read (ty : PacketType) (hl : body.length = 5) :
    AtPacket (askingToInsert ty body).inQueue binaryCommand (rangeRequest insertAlloc 1 0 5)
      (encode ty body ++ []) ∧
    request (askingToInsert ty body).inQueue = some (insertAlloc, 7) ∧
    AsksFor (atParams (askingToInsert ty body) 7) 1 0 5 ∧
    StoreTakes .commandInsertAlloc (atParams (askingToInsert ty body) 7) ∧
    ¬ DataRejected calmEnv .commandInsertAlloc (atParams (askingToInsert ty body) 7) := by
  obtain ⟨hp, hr, hasks⟩ := rangeRequest_read (askingToInsert_healthy ty hl).inQueue
    (i := 1) (c := insertAlloc) (by decide) (by decide) (by decide) (by decide)
    (queueOf_unread (askingToInsert_length hl))
  refine ⟨hp, hr, hasks, ?_, ?_⟩
  · rw [storeTakes_insert, hasks.allocationId, hasks.atIndex, hasks.length]
    change RangePasses (withPage (serverOf [])).memstore 1 0 5 ∧ _
    refine ⟨?_, fun hw => absurd hw.2.2 (by decide)⟩
    unfold RangePasses
    decide
  · rintro (hno | hbig)
    · cases hno
    · rw [dataWant_insert, hasks.allocationId, hasks.atIndex, hasks.length] at hbig
      change wrap32 (0 + 5) > memstoreGetAllocSizeBytes (withPage (serverOf [])).memstore 1 at hbig
      exact absurd hbig (by decide)

end

/-- An instance: the five bytes of a data packet. -/
theorem data_packet_five : TakesItsData calmEnv .commandInsertAlloc
    (atParams (askingToInsert binaryData [1, 2, 3, 4, 5]) 7)
    (encode binaryData [1, 2, 3, 4, 5] ++ []) := by
  have hl : [1, 2, 3, 4, (5 : BYTE)].length = 5 := rfl
  obtain ⟨hp, hr, hasks, -, -⟩ := askingToInsert_read binaryData hl
  refine (data_packet_iff calmEnv (askingToInsert_healthy binaryData hl) hp hr rfl rfl).2.2.2 ?_
  rintro - - ty body rest' hu - hb -
  rw [resync_encode] at hu ⊢
  have htype := congrArg frameType hu
  rw [frameType_encode, frameType_encode] at htype
  obtain ⟨rfl, -⟩ := encode_inj (by decide) hb hu
  exact ⟨rfl, htype.symm, hasks.length.symm⟩

/-- A text command is put into the page, as if it were the five bytes. -/
theorem text_inserted : ∃ s',
    dispatch calmEnv (askingToInsert textCommand (bytes "PING\n")) = .ok (.processed, s') ∧
    (s'.memstore 1).data = some (bytes "PING\n" ++ List.replicate 1019 0) ∧
    ¬ TakesItsData calmEnv .commandInsertAlloc
      (atParams (askingToInsert textCommand (bytes "PING\n")) 7)
      (encode textCommand (bytes "PING\n") ++ []) := by
  have hl : (bytes "PING\n").length = 5 := length_bytes _
  have h := askingToInsert_healthy textCommand hl
  obtain ⟨hp, hr, hasks, htakes, hacc⟩ := askingToInsert_read textCommand hl
  have hwant : dataWant (functionOf insertAlloc)
      (atParams (askingToInsert textCommand (bytes "PING\n")) 7) = 5 := hasks.length
  obtain ⟨m, ht⟩ : ∃ m, Takes calmEnv (functionOf insertAlloc)
      (atParams (askingToInsert textCommand (bytes "PING\n")) 7) (bytes "PING\n") m := by
    refine (takes_iff rfl hasks.inQueue h.memstore
      (hp.behind_full h.inQueue (c := insertAlloc) rfl)).2 ⟨hacc, htakes, textCommand,
        bytes "PING\n", [], resync_encode _ _ _, by decide, by omega, ?_, ?_⟩
    · rw [hwant, hl]
      rfl
    · rw [hwant, List.take_of_length_le (by rw [hl]; rfl)]
  obtain ⟨t, hcall, hm⟩ := ht.call rfl hasks.inQueue 0
  refine ⟨_, dispatch_processed h.inQueue ⟨_, _, _, hp⟩ (by decide) hr (by decide) hcall, ?_, ?_⟩
  · have hstored : storeData .commandInsertAlloc _ _ = .ok (true, m) := ht.stored
    rw [storeData_insert, hasks.allocationId, hasks.atIndex, hasks.length] at hstored
    have hend : 0 + (bytes "PING\n").length < (List.replicate 1024 (0 : BYTE)).length := by
      rw [hl, List.length_replicate]
      decide
    have hsplice := insert_splices h.memstore (i := 1) (by decide) rfl (by omega) hend
    rw [hl] at hsplice
    have hm' := (Prod.mk.inj (Except.ok.inj (hsplice.symm.trans hstored))).2
    change (t.memstore 1).data = _
    rw [hm, ← hm', withContent_self]
    have hfill : spliceIn (List.replicate 1024 0) 0 (bytes "PING\n") =
        bytes "PING\n" ++ List.replicate 1019 0 := by
      rw [spliceIn, hl, List.take_zero, List.drop_zero, List.nil_append, List.length_replicate,
        List.take_replicate]
      rfl
    exact congrArg some hfill
  · intro hits
    obtain ⟨rest', -, he⟩ := hits _ m ht
    have htype := congrArg frameType he
    rw [frameType_encode, frameType_encode] at htype
    exact absurd htype (by decide)

end CpcLink

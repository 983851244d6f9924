/-
  Does a page come back as it was stored?

  `SALLOC` stores the payload of the data packet, unless `calloc` fails for its
  copy of the page: then it answers with error 2 and the page stays as it was.
  A page that was stored comes back byte for byte, whatever is dispatched in
  between for other pages and other allocations.
-/
import CpcLink.Proof.Answers
import CpcLink.Proof.SendLock
import CpcLink.Proof.StoreMap
import CpcLink.Proof.Table

namespace CpcLink

open Splice

/-! ## Pages -/

/-- Page `p` of the live allocation `i` holds these bytes. -/
structure PageHolds (m : Memstore) (i p : ℤ) (page : List BYTE) : Prop where
  live : isAllocated m i
  inside : 0 ≤ p ∧ p < (m i).numberPages
  length : (page.length : ℤ) = (m i).pageSize
  bytes : memRead (m i).data (p * (m i).pageSize) page.length = .ok page

section
variable {m m' : Memstore} {i p : ℤ} {page data : List BYTE}

theorem PageHolds.found (h : PageHolds m i p page) :
    memstoreRetrievePageOfData m i p = some (p * (m i).pageSize, (page.length : ℤ)) := by
  rw [memstoreRetrievePageOfData, if_pos ⟨h.live, h.inside⟩, h.length]

/-- The page is in the slot of its allocation. -/
theorem PageHolds.slot (h : PageHolds m i p page) (he : m' i = m i) : PageHolds m' i p page := by
  obtain ⟨⟨h0, h1, hid⟩, hinside, hlength, hbytes⟩ := h
  rw [← he] at hid hinside hlength hbytes
  exact ⟨⟨h0, h1, hid⟩, hinside, hlength, hbytes⟩

/-- The store after a page was stored. -/
theorem storePage_eq (hm : StoreValid m) (hi : isAllocated m i) (h0 : 0 ≤ p)
    (hp : p < (m i).numberPages) (hlen : (data.length : ℤ) = (m i).pageSize) :
    ∃ d : List BYTE, (m i).data = some d ∧ (p * (m i).pageSize).toNat + data.length ≤ d.length ∧
      memstoreStorePageOfData m i p data = .ok (true, Function.update m i
        { m i with data := some (overwrite d (p * (m i).pageSize).toNat data) }) := by
  obtain ⟨d, hd, hl⟩ := (hm.live hi).data
  obtain ⟨hend, hoff⟩ := (hm.live hi).page h0 hp
  have hfits : (p * (m i).pageSize).toNat + data.length ≤ d.length := by omega
  have hwrite := memWrite_overwrite hfits
  rw [Int.toNat_of_nonneg hoff] at hwrite
  refine ⟨d, hd, hfits, ?_⟩
  rw [memstoreStorePageOfData, if_pos ⟨hi, h0, hp⟩, hd, hwrite]
  rfl

theorem memRead_toNat {d : List BYTE} {off : ℤ} {n : ℕ} (h0 : 0 ≤ off)
    (hle : off.toNat + n ≤ d.length) :
    memRead (some d) off n = .ok ((d.drop off.toNat).take n) := by
  have hread := memRead_part hle
  rwa [Int.toNat_of_nonneg h0] at hread

/-- The page after the data of its allocation was written. -/
theorem pageHolds_update {x : Option (List BYTE)} (hi : isAllocated m i)
    (hinside : 0 ≤ p ∧ p < (m i).numberPages) (hlen : (page.length : ℤ) = (m i).pageSize)
    (hread : memRead x (p * (m i).pageSize) page.length = .ok page) :
    PageHolds (Function.update m i { m i with data := x }) i p page := by
  obtain ⟨h0, h1, hid⟩ := hi
  constructor
  · refine ⟨h0, h1, ?_⟩
    rw [Function.update_self]; exact hid
  · rw [Function.update_self]; exact hinside
  · rw [Function.update_self]; exact hlen
  · rw [Function.update_self]; exact hread

/-- **A page that was stored is there.** -/
theorem storePage_holds (hm : StoreValid m) (hi : isAllocated m i) (h0 : 0 ≤ p)
    (hp : p < (m i).numberPages) (hlen : (data.length : ℤ) = (m i).pageSize) :
    ∃ m', memstoreStorePageOfData m i p data = .ok (true, m') ∧ PageHolds m' i p data := by
  obtain ⟨d, -, hfits, hstore⟩ := storePage_eq hm hi h0 hp hlen
  obtain ⟨-, hoff⟩ := (hm.live hi).page h0 hp
  refine ⟨_, hstore, pageHolds_update hi ⟨h0, hp⟩ hlen ?_⟩
  rw [memRead_toNat hoff (by rwa [length_overwrite hfits]), part_overwrite hfits]

/-- The bytes of different pages do not overlap. -/
theorem pages_disjoint {q size : ℤ} (h0 : 0 ≤ p) (hq0 : 0 ≤ q) (hs : 0 ≤ size) (hne : q ≠ p) :
    (p * size).toNat + size.toNat ≤ (q * size).toNat ∨
      (q * size).toNat + size.toNat ≤ (p * size).toNat := by
  have hp := Int.mul_nonneg h0 hs
  have hq := Int.mul_nonneg hq0 hs
  rcases lt_or_gt_of_ne hne with hlt | hlt
  · have := Int.mul_le_mul_of_nonneg_right (show q + 1 ≤ p by omega) hs
    rw [Int.add_mul, Int.one_mul] at this
    omega
  · have := Int.mul_le_mul_of_nonneg_right (show p + 1 ≤ q by omega) hs
    rw [Int.add_mul, Int.one_mul] at this
    omega

/-- A store to another page leaves the page as it was. -/
theorem PageHolds.storePage (h : PageHolds m i p page) (hm : StoreValid m) {q : ℤ} (hq : q ≠ p)
    (hlen : (data.length : ℤ) = (m i).pageSize) {r : Bool × Memstore}
    (hr : memstoreStorePageOfData m i q data = .ok r) : PageHolds r.2 i p page := by
  by_cases hin : isAllocated m i ∧ 0 ≤ q ∧ q < (m i).numberPages
  swap
  · rw [memstoreStorePageOfData, if_neg hin] at hr
    cases hr
    exact h
  obtain ⟨d, hd, hfits, hstore⟩ := storePage_eq hm hin.1 hin.2.1 hin.2.2 hlen
  rw [hstore] at hr
  cases hr
  obtain ⟨hi, hinside, hlength, hbytes⟩ := h
  obtain ⟨hend, hoff⟩ := (hm.live hi).page hinside.1 hinside.2
  have hsize := (hm.live hi).size
  obtain ⟨d', hd', hl⟩ := (hm.live hi).data
  cases hd.symm.trans hd'
  have hroom : (p * (m i).pageSize).toNat + page.length ≤ d.length := by omega
  rw [hd, memRead_toNat hoff hroom] at hbytes
  have hpos : 0 ≤ (m i).pageSize := by omega
  have hdisjoint := pages_disjoint hinside.1 hin.2.1 hpos hq
  refine pageHolds_update hi hinside hlength ?_
  rw [memRead_toNat hoff (by rwa [length_overwrite hfits]),
    part_overwrite_of_disjoint hfits (by omega), hbytes]

end

/-! ## What happens in between -/

/-- The command at the head is not for this page: it resets nothing, and for
    this allocation it is a store to another page. -/
def LeavesPage (i p : ℤ) (s : Server) : Prop :=
  ∀ c k, request s.inQueue = some (c, k) → functionOf c ≠ .commandReset ∧
    (functionOf c ≠ .commandCreateAlloc → slotOf (functionOf c) (atParams s k) = some i →
      functionOf c = .commandStoreAlloc ∧ pageNumberOf (atParams s k).inQueue ≠ p)

/-- The states that such commands lead to, with anything in between that is
    not a dispatch: bytes come in and go out, and commands that wait are run. -/
inductive Between (i p : ℤ) (s : Server) : Server → Prop
  | here : Between i p s s
  | other {t u : Server} : Between i p s t → u.memstore = t.memstore → Between i p s u
  | dispatched {t u : Server} {env : Env} {o : Outcome} : Between i p s t → Healthy t →
      (∃ ty body rest, AtPacket t.inQueue ty body rest) → LeavesPage i p t →
      dispatch env t = .ok (o, u) → Between i p s u

section
variable {env : Env} {s t u : Server} {i p : ℤ} {page : List BYTE}

/-- The slot that is given out next is not this one. -/
theorem PageHolds.not_free (h : PageHolds s.memstore i p page) :
    getFreeMemoryAllocation s.memstore ≠ i := by
  obtain ⟨h0, -, hid⟩ := h.live
  rintro rfl
  rcases getFree_spec s.memstore with ⟨-, -, hz⟩ | ⟨hz, -⟩
  · omega
  · omega

/-- A call keeps the page, if it is not for it. -/
theorem PageHolds.call (h : PageHolds s.memstore i p page) (hin : InRange s.inQueue)
    (hm : StoreValid s.memstore) {fn : CommandFunction} {tick : ℤ} (hreset : fn ≠ .commandReset)
    (hother : fn ≠ .commandCreateAlloc → slotOf fn s = some i →
      fn = .commandStoreAlloc ∧ pageNumberOf s.inQueue ≠ p) {r : Bool × Server}
    (hr : callFunction env s tick fn = .ok r) : PageHolds r.2.memstore i p page := by
  by_cases hslot : slotOf fn s = some i
  swap
  · exact h.slot (((call_leaves env s tick hreset).result hr).slots i hslot)
  by_cases hcreate : fn = .commandCreateAlloc
  · subst hcreate
    cases hslot
    exact absurd rfl h.not_free
  obtain ⟨rfl, hq⟩ := hother hcreate hslot
  have hi : allocationIdOf s.inQueue = i := Option.some.inj hslot
  cases data_call hin rfl hr with
  | rejected => exact h
  | incomplete => exact h
  | short => exact h
  | stored allocationId errorId w _ _ hd hw =>
    have hat : InRange (atData .commandStoreAlloc s.inQueue) := hin.atData _
    have hlen := readData_length hat hd
    have hsize := (hm.live h.live).size
    have hwant : dataWant .commandStoreAlloc s = (s.memstore i).pageSize := by
      change memstoreGetPageSizeBytes s.memstore (allocationIdOf s.inQueue) = _
      rw [hi]
      exact if_pos h.live
    rw [hwant, max_eq_left (by omega)] at hlen
    change memstoreStorePageOfData _ (allocationIdOf s.inQueue) _ _ = _ at hw
    rw [hi] at hw
    exact h.storePage hm hq hlen hw

/-- A dispatch keeps the page, if it is not for it. -/
theorem PageHolds.dispatch (h : PageHolds s.memstore i p page) (hs : Healthy s)
    (hp : ∃ ty body rest, AtPacket s.inQueue ty body rest) (hleaves : LeavesPage i p s) {o : Outcome}
    (hd : dispatch env s = .ok (o, t)) : PageHolds t.memstore i p page := by
  have call : ∀ {c : Command} {k : ℕ} {r : Bool × Server}, request s.inQueue = some (c, k) →
      callFunction env (atParams s k) 0 (functionOf c) = .ok r → PageHolds r.2.memstore i p page := by
    intro c k r hr hcall
    obtain ⟨hreset, hother⟩ := hleaves c k hr
    exact h.call (s := atParams s k) (hs.inQueue.inc _) hs.memstore hreset hother hcall
  cases dispatch_step hs.inQueue hp hd with
  | ignored => exact h
  | badText => exact h
  | noSpace => exact h
  | complete hr _ _ hcall => exact call hr hcall
  | retried hr _ _ _ hcall => exact call hr hcall
  | scheduled hr _ _ _ hcall hsched =>
    obtain ⟨_, rfl, -⟩ := schedule_spec hsched
    exact call hr hcall

/-- **The page stays as it was**, by induction on what happens in between. -/
theorem Between.holds (hb : Between i p s t) (h : PageHolds s.memstore i p page) :
    PageHolds t.memstore i p page := by
  induction hb with
  | here => exact h
  | other _ hsame ih => rw [hsame]; exact ih
  | dispatched _ hs hp hleaves hd ih => exact ih.dispatch hs hp hleaves hd

/-- A command that waits works on no slot. -/
theorem slotOf_staged {fn : CommandFunction} (h : staged fn = true) (s : Server) :
    slotOf fn s = none := by
  revert h
  cases fn <;> first | (intro; rfl) | (intro h; cases h)

/-- A round of the main loop is such a step, if what it dispatches is. -/
theorem Between.round {m m' : Mcp} {input : Input} (hb : Between i p s m.server)
    (h : Healthy m.server) (hok : RoundMeets (fun _ => LeavesPage i p) (fun _ _ => True) m input)
    (hr : Round m input m') : Between i p s m'.server := by
  obtain ⟨m₁, hpackets, hticks⟩ := hr.steps
  have hx := h.exchange input
  have hbx : Between i p s (exchangeBytes input m).server := by
    refine hb.other ?_
    unfold exchangeBytes
    rcases sendByte_cases (receiveByte m input.dor) input.dir with he | ⟨-, he⟩ <;> rw [he] <;>
      rcases receiveByte_cases m input.dor with he' | ⟨_, -, -, he'⟩ <;> rw [he']
  have hb₁ : Between i p s m₁.server := by
    have hstep := (checkPackets_step hpackets).1
    generalize m₁.server = s₁ at hstep
    cases hstep with
    | idle => exact hbx
    | polled => exact hbx.other rfl
    | dispatched hd hrun =>
      have hpolled : Between i p s (polled (exchangeBytes input m).server) := hbx.other rfl
      exact hpolled.dispatched hx.polled (hd.atPacket hx) (hok.dispatch hd) hrun
  have h₁ := hx.packets (checkPackets_step hpackets).1
  have hstep := (checkTicks_step hticks).1
  generalize m'.server = s' at hstep
  cases hstep with
  | idle => exact hb₁
  | @run k fn _ _ _ _ _ hfn hcall _ =>
    have hstaged := h₁.commandStates k fn hfn
    have hleaves := (call_leaves input.env m₁.server (m₁.server.commandStates k).nextTickCount
      (staged_kind hstaged).2.1).result hcall
    refine hb₁.other (funext fun j => hleaves.slots j ?_)
    rw [slotOf_staged hstaged]
    rintro ⟨⟩

end

/-! ## The two requests -/

/-- The request for a page, as its packet's body. -/
def pageRequest (c : Command) (i p : ℤ) : List BYTE :=
  [byte c, byte i, byte (p % 256), byte (p / 256)]

section
variable {env : Env} {s : Server} {q : Queue} {i p : ℤ} {c : Command} {rest : List BYTE}

theorem toNat_byte_of_lt {x : ℤ} (h0 : 0 ≤ x) (h1 : x < 256) : ((byte x).toNat : ℤ) = x := by
  lift x to ℕ using h0
  rw [toNat_byte]
  omega

theorem pageRequest_params (h : InRange q) (hp : AtPacket q binaryCommand (pageRequest c i p) rest)
    (hi : 0 ≤ i ∧ i < 256) (hpage : 0 ≤ p ∧ p < 65536) :
    allocationIdOf (incrementReadNextIndex q (7 : ℕ)) = i ∧
      pageNumberOf (incrementReadNextIndex q (7 : ℕ)) = p := by
  have h7 := h.inc (7 : ℕ)
  have h8 := h.inc (8 : ℕ)
  have h9 := h.inc (9 : ℕ)
  have hid := peek_body hp (k := 1) (by simp [pageRequest])
  have hlo := peek_body hp (k := 2) (by simp [pageRequest])
  have hhi := peek_body hp (k := 3) (by simp [pageRequest])
  simp only [pageRequest, List.getElem_cons_succ, List.getElem_cons_zero] at hid hlo hhi
  constructor
  · rw [allocationIdOf, getCommandNext8bitParamBin, h7.current, h.peek_inc, hid]
    exact toNat_byte_of_lt hi.1 hi.2
  · rw [pageNumberOf, next8_queue, h.inc_nat]
    simp only [getCommandNext16bitParamBin]
    rw [show (1 : ℤ) = ((1 : ℕ) : ℤ) from rfl, h.inc_nat, h8.current, h9.current, h.peek_inc,
      h.peek_inc, hlo, hhi, toNat_byte_of_lt (by omega) (by omega),
      toNat_byte_of_lt (by omega) (by omega)]
    omega

/-- A command is called, if there is space for its answer. -/
theorem processCommand_calls (hc : c < maxCommands)
    (hsp : isQueueSpaceAvailable s.outQueue (spaceOf (functionOf c)) = true) {r : Bool × Server}
    (hcall : callFunction env s 0 (functionOf c) = .ok r) :
    processCommand env c s = if r.1 then .ok (true, r.2) else if isRetried c then .ok (false, r.2)
      else do return (true, ← scheduleCommand env r.2 c (functionOf c)) := by
  obtain ⟨row, hrow⟩ : ∃ row, commandDefs[c]? = some row :=
    ⟨_, List.getElem?_eq_getElem (show c < commandDefs.length from hc)⟩
  have hR := row_of_getElem hrow
  rw [functionOf, hrow] at hsp hcall ⊢
  dsimp only at hsp hcall ⊢
  rw [processCommand_eq, hrow]
  dsimp only
  rw [hR.space, hsp, if_neg (by simp), hcall]
  rfl

/-- A command that is run and complete is processed. -/
theorem dispatch_processed (h : InRange s.inQueue)
    (hp : ∃ ty body rest, AtPacket s.inQueue ty body rest) {k : ℕ} (hc : c < maxCommands)
    (hr : request s.inQueue = some (c, k))
    (hsp : isQueueSpaceAvailable s.outQueue (spaceOf (functionOf c)) = true) {s' : Server}
    (hcall : callFunction env (atParams s k) 0 (functionOf c) = .ok (true, s')) :
    dispatch env s = .ok (.processed, skipEnd s') := by
  have hout : isQueueSpaceAvailable (atParams s k).outQueue (spaceOf (functionOf c)) = true := hsp
  rw [dispatch_request h hp hr, processCommand_calls hc hout hcall]
  rfl

/-- A command that does not complete and is to be read again is rewound to. -/
theorem dispatch_rewound (h : InRange s.inQueue)
    (hp : ∃ ty body rest, AtPacket s.inQueue ty body rest) {k : ℕ} (hc : c < maxCommands)
    (hr : request s.inQueue = some (c, k))
    (hsp : isQueueSpaceAvailable s.outQueue (spaceOf (functionOf c)) = true)
    (hretried : isRetried c = true) {s' : Server}
    (hcall : callFunction env (atParams s k) 0 (functionOf c) = .ok (false, s')) :
    dispatch env s = .ok (.rewound, { s' with
      inQueue := { s'.inQueue with readNextByte := s.inQueue.readNextByte } }) := by
  have hout : isQueueSpaceAvailable (atParams s k).outQueue (spaceOf (functionOf c)) = true := hsp
  rw [dispatch_request h hp hr, processCommand_calls hc hout hcall, hretried]
  rfl

/-- The data packet is as long as is wanted, and its bytes go to the store. -/
theorem dataExits_runs {fn : CommandFunction} (h : InRange s.inQueue)
    (hc : (isCompletePacketAvailable (behind fn s.inQueue)).1 = true) {payload : List BYTE} {ok : Bool}
    {m' : Memstore} (hat : AtPacket (atData fn s.inQueue) binaryData payload rest)
    (hwant : dataWant fn s = payload.length) (hstore : storeData fn s payload = .ok (ok, m')) :
    dataExits fn s = .ok (true, { s with
      inQueue := incrementReadNextIndex (atData fn s.inQueue) (payload.length + 6 : ℕ)
      memstore := m'
      outQueue := if ok then answerData fn s (allocationIdOf s.inQueue) 0 else answerData fn s 0 1 }) := by
  have hread : readData fn s = (true, payload,
      incrementReadNextIndex (atData fn s.inQueue) (payload.length + 6 : ℕ)) := by
    rw [readData, hwant, hat.getData (h.atData _) le_rfl, List.take_length, Nat.add_comm]
  rw [dataExits, hc, hread]
  dsimp only
  rw [if_neg (by simp), if_neg (by simp), hstore]
  cases ok <;> rfl

/-- `SALLOC` with a page of data, if it is not rejected. -/
theorem storeAlloc_runs (h : InRange s.inQueue) (hrej : ¬ DataRejected env .commandStoreAlloc s)
    (hc : (isCompletePacketAvailable (behind .commandStoreAlloc s.inQueue)).1 = true)
    {payload : List BYTE} {m' : Memstore}
    (hat : AtPacket (atData .commandStoreAlloc s.inQueue) binaryData payload rest)
    (hwant : dataWant .commandStoreAlloc s = payload.length)
    (hstore : memstoreStorePageOfData s.memstore (allocationIdOf s.inQueue)
      (pageNumberOf s.inQueue) payload = .ok (true, m')) :
    commandStoreAlloc env s = .ok (true, { s with
      inQueue := incrementReadNextIndex (atData .commandStoreAlloc s.inQueue) (payload.length + 6 : ℕ)
      memstore := m'
      outQueue := answerData .commandStoreAlloc s (allocationIdOf s.inQueue) 0 }) := by
  have hdone : storeData .commandStoreAlloc s payload = .ok (true, m') := hstore
  unfold DataRejected at hrej
  dsimp only at hrej
  rw [commandStoreAlloc_eq h, if_neg fun hn => hrej (.inl hn),
    if_neg fun hn => hrej (.inr (.inl hn)), if_neg fun hn => hrej (.inr (.inr hn)),
    dataExits_runs h hc hat hwant hdone]
  rfl

/-- A request for a page of a live allocation, as the dispatch reads it. -/
theorem pageRequest_read (h : Healthy s) (hi : isAllocated s.memstore i)
    (hpage : 0 ≤ p ∧ p < (s.memstore i).numberPages) (hc : c < maxCommands)
    (hin : s.inQueue.unread = encode binaryCommand (pageRequest c i p) ++ rest) :
    AtPacket s.inQueue binaryCommand (pageRequest c i p) rest ∧
      request s.inQueue = some (c, 7) ∧ allocationIdOf (atParams s 7).inQueue = i ∧
      pageNumberOf (atParams s 7).inQueue = p := by
  obtain ⟨hp1, hp9999⟩ := (h.memstore.live hi).pages
  have hi0 : 0 < i := hi.1
  have hi21 : i < 21 := hi.2.1
  have hp : AtPacket s.inQueue binaryCommand (pageRequest c i p) rest :=
    ⟨by decide, by simp [pageRequest], hin⟩
  obtain ⟨hid, hnumber⟩ := pageRequest_params h.inQueue hp (by omega) (by omega)
  exact ⟨hp, request_binary (hc.trans (by decide)) hp, hid, hnumber⟩

/-- `SALLOC` of a page is not rejected, if there is memory for its copy. -/
theorem storeAlloc_accepted (h : StoreValid s.memstore) (hi : isAllocated s.memstore i)
    (hpage : 0 ≤ p ∧ p < (s.memstore i).numberPages)
    (hid : allocationIdOf s.inQueue = i) (hnumber : pageNumberOf s.inQueue = p)
    (hcalloc : env.calloc ((s.memstore i).pageSize + 1) = true) :
    dataWant .commandStoreAlloc s = (s.memstore i).pageSize ∧
      ¬ DataRejected env .commandStoreAlloc s := by
  obtain ⟨hp1, hp9999⟩ := (h.live hi).pages
  obtain ⟨hs1, hs32⟩ := (h.live hi).size
  have hwant : dataWant .commandStoreAlloc s = (s.memstore i).pageSize := by
    change memstoreGetPageSizeBytes s.memstore (allocationIdOf s.inQueue) = _
    rw [hid]
    exact if_pos hi
  refine ⟨hwant, ?_⟩
  rintro (hno | hzero | hlimit)
  · rw [hwant, hcalloc] at hno
    cases hno
  · rw [hwant] at hzero
    omega
  · rw [hnumber] at hlimit
    omega

/-- A short answer goes out behind what waits. -/
theorem unread_buildResponse (h : Valid q) (hsp : isQueueSpaceAvailable q 30 = true)
    {payload : List BYTE} (hl : payload.length ≤ 20) :
    (buildResponse q payload).unread = q.unread ++ encode binaryCommand payload := by
  have hf : Fits q 30 := (h.fits (by decide)).1 hsp
  have hle := hf.le
  rw [buildResponse_eq h (hf.mono (by omega)), (h.emit payload (by omega)).2]

/-- The answer to `SALLOC`. -/
theorem storeAlloc_answer (h : Valid s.outQueue) (hid : allocationIdOf s.inQueue = i)
    (hnumber : pageNumberOf s.inQueue = p) (hsp : isQueueSpaceAvailable s.outQueue 30 = true) :
    (answerData .commandStoreAlloc s (allocationIdOf s.inQueue) 0).unread =
      s.outQueue.unread ++ encode binaryCommand (pageRequest storeAlloc i p ++ [0]) := by
  have hanswer : answerData .commandStoreAlloc s i 0 =
      buildResponse s.outQueue (pageRequest storeAlloc i p ++ [0]) := by
    rw [answerData, dataAnswer, hnumber]
    rfl
  rw [hid, hanswer, unread_buildResponse h hsp (by simp [pageRequest])]

/-- **`SALLOC` stores the page** and answers with error 0. -/
theorem storeAlloc_stores (h : Healthy s) (hi : isAllocated s.memstore i)
    (hpage : 0 ≤ p ∧ p < (s.memstore i).numberPages) {payload : List BYTE}
    (hlen : (payload.length : ℤ) = (s.memstore i).pageSize)
    (hin : s.inQueue.unread =
      encode binaryCommand (pageRequest storeAlloc i p) ++ (encode binaryData payload ++ rest))
    (hcalloc : env.calloc ((s.memstore i).pageSize + 1) = true)
    (hsp : isQueueSpaceAvailable s.outQueue 30 = true) :
    ∃ s', dispatch env s = .ok (.processed, s') ∧ s'.inQueue.unread = rest ∧
      s'.outQueue.unread =
        s.outQueue.unread ++ encode binaryCommand (pageRequest storeAlloc i p ++ [0]) ∧
      PageHolds s'.memstore i p payload := by
  obtain ⟨hs1, hs32⟩ := (h.memstore.live hi).size
  obtain ⟨hp, hr, hid, hnumber⟩ := pageRequest_read h hi hpage (by decide) hin
  have hparams : InRange (atParams s 7).inQueue := h.inQueue.inc (7 : ℕ)
  obtain ⟨hwant, hrej⟩ : dataWant .commandStoreAlloc (atParams s 7) = (s.memstore i).pageSize ∧
      ¬ DataRejected env .commandStoreAlloc (atParams s 7) :=
    storeAlloc_accepted h.memstore hi hpage hid hnumber hcalloc
  -- the data packet is right behind the parameters
  obtain ⟨hc, hat⟩ : (isCompletePacketAvailable (behind .commandStoreAlloc
      (atParams s 7).inQueue)).1 = true ∧
      AtPacket (atData .commandStoreAlloc (atParams s 7).inQueue) binaryData payload rest := by
    refine atData_packet (hparams.behind _) (by decide) (by omega) ?_
    have hbehind := hp.behind_full h.inQueue (c := storeAlloc) (k := 7) rfl
    rw [← resync_encode binaryData payload rest, ← hbehind]
    rfl
  obtain ⟨m', hstore, hholds⟩ := storePage_holds h.memstore hi hpage.1 hpage.2 hlen
  have hcall := storeAlloc_runs hparams hrej hc hat (by rw [hwant, hlen])
    (by rw [hid, hnumber]; exact hstore)
  refine ⟨_, dispatch_processed h.inQueue ⟨_, _, _, hp⟩ (by decide) hr hsp hcall, ?_, ?_, hholds⟩
  · have hatr := hparams.atData .commandStoreAlloc
    change (queueSkipTerminatorOfPacket _).unread = rest
    rw [skipTerminator_eq (hatr.inc _), hat.unread_end hatr, if_pos (by rfl),
      show (3 : ℤ) = ((3 : ℕ) : ℤ) from rfl, hatr.inc_nat]
    exact hat.unread_behind hatr
  · have hanswer : (answerData .commandStoreAlloc (atParams s 7) _ 0).unread = _ :=
      storeAlloc_answer h.outQueue hid hnumber hsp
    exact hanswer

/-- **`RALLOC` sends the page** behind its answer. -/
theorem retrieveAlloc_retrieves (h : Healthy s) {page : List BYTE}
    (hholds : PageHolds s.memstore i p page) (hempty : s.outQueue.unread = [])
    (hin : s.inQueue.unread = encode binaryCommand (pageRequest retrieveAlloc i p) ++ rest) :
    ∃ s', dispatch env s = .ok (.processed, s') ∧
      s'.outQueue.unread = encode binaryCommand (pageRequest retrieveAlloc i p ++ [0]) ++
        encode binaryData page := by
  have hQ : queueSize = 131070 := rfl
  obtain ⟨hp1, hp9999⟩ := (h.memstore.live hholds.live).pages
  obtain ⟨hs1, hs32⟩ := (h.memstore.live hholds.live).size
  obtain ⟨hp0, hpages⟩ := hholds.inside
  have hlen := hholds.length
  have h0 : numberBytesInQueueToRead s.outQueue = 0 := by
    rw [h.outQueue.numberBytes, unread_eq_nil.1 hempty]
    rfl
  obtain ⟨hp, hr, hid, hnumber⟩ := pageRequest_read h hholds.live hholds.inside (by decide) hin
  have hlimit : ¬ pageNumberOf (atParams s 7).inQueue > 9999 := by
    rw [hnumber]
    omega
  have hasked : pageAsked (atParams s 7) =
      some (p * (s.memstore i).pageSize, (page.length : ℤ)) := by
    change memstoreRetrievePageOfData s.memstore (allocationIdOf (atParams s 7).inQueue)
      (pageNumberOf (atParams s 7).inQueue) = _
    rw [hid, hnumber]
    exact hholds.found
  have hread : memRead ((atParams s 7).memstore (allocationIdOf (atParams s 7).inQueue)).data
      (p * (s.memstore i).pageSize) page.length = .ok page := by
    rw [hid]
    exact hholds.bytes
  obtain ⟨⟨done, s'⟩, hcall, hsends⟩ := retrieveAlloc_page (s := atParams s 7) (h.inQueue.inc _)
    h.memstore h.outQueue (h.outQueue.fits_empty h0 (by decide)) hlimit hasked hread
    (space_of_empty h.outQueue h0 (by omega) (by omega))
  obtain rfl : done = true := hsends.done
  refine ⟨_, dispatch_processed h.inQueue ⟨_, _, _, hp⟩ (by decide) hr
    (space_of_empty h.outQueue h0 (by decide) (by decide)) hcall, ?_⟩
  have hanswer : pageAnswer (atParams s 7).inQueue = pageRequest retrieveAlloc i p ++ [0] := by
    rw [pageAnswer, hid, hnumber]
    rfl
  have hout : s'.outQueue = sendPackets s.outQueue
      [(binaryCommand, pageRequest retrieveAlloc i p ++ [0]), (binaryData, page)] := by
    rw [← hanswer]
    exact hsends.outQueue
  change s'.outQueue.unread = _
  rw [hout, sendPackets_empty h.outQueue h0]
  · simp [encodePackets]
  · simp [encodePackets, pageRequest]
    omega

/-! ## Read your writes -/

/-- **A page comes back as it was stored.**  The page is stored if `calloc` of
    the copy succeeds; whatever happens in between for other pages and other
    allocations, it is sent when it is asked for. -/
theorem read_your_writes (env env' : Env) {rest' payload : List BYTE} (h : Healthy s)
    (hi : isAllocated s.memstore i) (hpage : 0 ≤ p ∧ p < (s.memstore i).numberPages)
    (hlen : (payload.length : ℤ) = (s.memstore i).pageSize)
    (hin : s.inQueue.unread =
      encode binaryCommand (pageRequest storeAlloc i p) ++ (encode binaryData payload ++ rest))
    (hcalloc : env.calloc ((s.memstore i).pageSize + 1) = true)
    (hsp : isQueueSpaceAvailable s.outQueue 30 = true) :
    ∃ s₁, dispatch env s = .ok (.processed, s₁) ∧ s₁.inQueue.unread = rest ∧
      s₁.outQueue.unread =
        s.outQueue.unread ++ encode binaryCommand (pageRequest storeAlloc i p ++ [0]) ∧
      ∀ s₂, Between i p s₁ s₂ → Healthy s₂ → s₂.outQueue.unread = [] →
        s₂.inQueue.unread = encode binaryCommand (pageRequest retrieveAlloc i p) ++ rest' →
        ∃ s₃, dispatch env' s₂ = .ok (.processed, s₃) ∧
          s₃.outQueue.unread = encode binaryCommand (pageRequest retrieveAlloc i p ++ [0]) ++
            encode binaryData payload := by
  obtain ⟨s₁, hd, hrest, hout, hholds⟩ := storeAlloc_stores h hi hpage hlen hin hcalloc hsp
  refine ⟨s₁, hd, hrest, hout, ?_⟩
  intro s₂ hb h₂ hempty hin₂
  exact retrieveAlloc_retrieves h₂ (hb.holds hholds) hempty hin₂

end

/-! ## A page to store -/

/-- The client has sent the request to store a page of ones, the page, and the
    request for the page. -/
def storeThenRetrieve : Server := withPage (serverOf
  (encode binaryCommand (pageRequest storeAlloc 1 0) ++ (encode binaryData (List.replicate 1024 1) ++
    (encode binaryCommand (pageRequest retrieveAlloc 1 0) ++ []))))

/-- All that waits in the out queue was sent. -/
def drained (s : Server) : Server :=
  { s with outQueue := incrementReadNextIndex s.outQueue s.outQueue.count }

/-- There is no memory for a copy of the page. -/
def noMemory : Env := { calmEnv with calloc := fun _ => false }

theorem drained_healthy {s : Server} (h : Healthy s) : Healthy (drained s) :=
  ⟨h.inQueue, h.outQueue.inc (Int.natCast_nonneg _), h.memstore, h.commandStates⟩

theorem drained_unread {s : Server} (h : Healthy s) : (drained s).outQueue.unread = [] := by
  change (incrementReadNextIndex s.outQueue (s.outQueue.count : ℕ)).unread = []
  rw [h.outQueue.toInRange.unread_inc le_rfl, ← length_unread, List.drop_length]

theorem storeThenRetrieve_unread : storeThenRetrieve.inQueue.unread =
    encode binaryCommand (pageRequest storeAlloc 1 0) ++ (encode binaryData (List.replicate 1024 1) ++
      (encode binaryCommand (pageRequest retrieveAlloc 1 0) ++ [])) :=
  queueOf_unread (by
    simp only [List.length_append, length_encode, List.length_replicate, pageRequest]
    decide)

theorem withPage_healthy {input : List BYTE} (hl : (input.length : ℤ) < queueSize) :
    Healthy (withPage (serverOf input)) :=
  ⟨(queueOf_valid hl).toInRange, queueOf_valid (by decide), withPage_store _ (serverOf_store _),
    onlyStaged_zero⟩

theorem storeThenRetrieve_healthy : Healthy storeThenRetrieve := by
  refine withPage_healthy ?_
  simp only [List.length_append, length_encode, List.length_replicate, pageRequest]
  decide

/-- An instance: the page of ones comes back. -/
theorem read_your_writes_ones : ∃ s₁ s₃, dispatch calmEnv storeThenRetrieve = .ok (.processed, s₁) ∧
    dispatch calmEnv (drained s₁) = .ok (.processed, s₃) ∧
    s₃.outQueue.unread = encode binaryCommand (pageRequest retrieveAlloc 1 0 ++ [0]) ++
      encode binaryData (List.replicate 1024 1) := by
  have h := storeThenRetrieve_healthy
  have hp : AtPacket storeThenRetrieve.inQueue _ _ _ :=
    ⟨show AcceptedType binaryCommand by decide, by simp [pageRequest], storeThenRetrieve_unread⟩
  obtain ⟨s₁, hd, hrest, -, hback⟩ := read_your_writes calmEnv calmEnv h (i := 1) (p := 0)
    (by decide) (by decide) (by rw [List.length_replicate]; rfl) storeThenRetrieve_unread rfl
    (by decide)
  have h₁ : Healthy s₁ := h.dispatch ⟨_, _, _, hp⟩ hd
  obtain ⟨s₃, hd₃, hout⟩ := hback (drained s₁) (.other .here rfl) (drained_healthy h₁)
    (drained_unread h₁) hrest
  exact ⟨s₁, s₃, hd, hd₃, hout⟩

/-- A rejected request skips to the packet behind the data packet. -/
theorem rejected_unread {q : Queue} (h : InRange q) {u : List BYTE}
    (hu : resync (q.unread.drop 1) = u) (hne : q.unread ≠ []) (hplus : u.take 3 = plusPlusPlus) :
    (queueSkipTerminatorOfPacket
      (queueSkipToNextPacket (incrementReadNextIndex q 1)).2).unread = u := by
  have h1 : InRange (incrementReadNextIndex q (1 : ℕ)) := h.inc _
  have hpos : 1 ≤ q.count := by
    rw [Nat.one_le_iff_ne_zero]
    exact fun h0 => hne (unread_eq_nil.2 h0)
  have hnext : (queueSkipToNextPacket (incrementReadNextIndex q 1)).2 =
      synced (incrementReadNextIndex q (1 : ℕ)) := by
    rw [show (1 : ℤ) = ((1 : ℕ) : ℤ) from rfl, skipToNext_eq h1]
    rfl
  have hsynced : (synced (incrementReadNextIndex q (1 : ℕ))).unread = u := by
    rw [h1.unread_synced, h.unread_inc hpos, hu]
  rw [hnext, skipTerminator_eq h1.synced, hsynced, hplus, if_neg (by decide), hsynced]

/-- Without memory for a copy `SALLOC` leaves the store as it is. -/
theorem storeAlloc_refused {env : Env} {s : Server} {i p : ℤ} {payload u : List BYTE} (h : Healthy s)
    (hin : s.inQueue.unread =
      encode binaryCommand (pageRequest storeAlloc i p) ++ (encode binaryData payload ++ u))
    (hcalloc : ∀ n, env.calloc n = false) (hsp : isQueueSpaceAvailable s.outQueue 30 = true)
    (hu : resync ((encode binaryData payload ++ u).drop 1) = u) (hplus : u.take 3 = plusPlusPlus) :
    ∃ s', dispatch env s = .ok (.processed, s') ∧ s'.inQueue.unread = u ∧ s'.memstore = s.memstore := by
  have hp : AtPacket s.inQueue binaryCommand (pageRequest storeAlloc i p)
      (encode binaryData payload ++ u) := ⟨by decide, by simp [pageRequest], hin⟩
  have hr : request s.inQueue = some (storeAlloc, 7) := request_binary (by decide) hp
  have hparams : InRange (atParams s 7).inQueue := h.inQueue.inc (7 : ℕ)
  have hcall : callFunction env (atParams s 7) 0 (functionOf storeAlloc) =
      .ok (true, rejectData .commandStoreAlloc (atParams s 7) 2) := by
    change commandStoreAlloc env (atParams s 7) = _
    rw [commandStoreAlloc_eq hparams, if_pos (hcalloc _)]
  have hbehind : (behind .commandStoreAlloc (atParams s 7).inQueue).unread =
      encode binaryData payload ++ u := hp.behind_full h.inQueue (c := storeAlloc) (k := 7) rfl
  refine ⟨_, dispatch_processed h.inQueue ⟨_, _, _, hp⟩ (by decide) hr hsp hcall, ?_, rfl⟩
  refine rejected_unread (hparams.behind .commandStoreAlloc) (by rw [hbehind, hu]) ?_ hplus
  rw [hbehind]
  intro he
  have hlen := congrArg List.length he
  simp only [List.length_append, length_encode, List.length_nil] at hlen
  omega

theorem memRead_all (d : List BYTE) : memRead (some d) 0 d.length = .ok d := by
  have hread := memRead_part (d := d) (show 0 + d.length ≤ d.length by omega)
  rwa [List.drop_zero, List.take_length, Nat.cast_zero] at hread

/-- Without memory for a copy the page is not stored: zeros come back. -/
theorem store_refused : ∃ s₁ s₃, dispatch noMemory storeThenRetrieve = .ok (.processed, s₁) ∧
    dispatch calmEnv (drained s₁) = .ok (.processed, s₃) ∧
    s₃.outQueue.unread ≠ encode binaryCommand (pageRequest retrieveAlloc 1 0 ++ [0]) ++
      encode binaryData (List.replicate 1024 1) := by
  have h := storeThenRetrieve_healthy
  have hp : AtPacket storeThenRetrieve.inQueue binaryCommand (pageRequest storeAlloc 1 0) _ :=
    ⟨by decide, by simp [pageRequest], storeThenRetrieve_unread⟩
  obtain ⟨s₁, hd, hrest, hsame⟩ : ∃ s₁, dispatch noMemory storeThenRetrieve = .ok (.processed, s₁) ∧
      s₁.inQueue.unread = encode binaryCommand (pageRequest retrieveAlloc 1 0) ++ [] ∧
      s₁.memstore = storeThenRetrieve.memstore :=
    storeAlloc_refused h storeThenRetrieve_unread (fun _ => rfl) (by decide) (by decide +kernel)
      (by decide)
  have h₁ := h.dispatch ⟨_, _, _, hp⟩ hd
  -- the page is as it was
  have hzeros : PageHolds storeThenRetrieve.memstore 1 0 (List.replicate 1024 0) :=
    ⟨by decide, by decide, by rw [List.length_replicate]; rfl, memRead_all (List.replicate 1024 0)⟩
  obtain ⟨s₃, hd₃, hout⟩ : ∃ s₃, dispatch calmEnv (drained s₁) = .ok (.processed, s₃) ∧
      s₃.outQueue.unread = encode binaryCommand (pageRequest retrieveAlloc 1 0 ++ [0]) ++
        encode binaryData (List.replicate 1024 0) :=
    retrieveAlloc_retrieves (drained_healthy h₁) (hzeros.slot (congrFun hsame 1))
      (drained_unread h₁) hrest
  refine ⟨s₁, s₃, hd, hd₃, ?_⟩
  rw [hout]
  decide +kernel

end CpcLink

/-
  A program that works on pages is a memory of pages.

  Each function of the client says or hears one packet.  Alone with the server, an allocation
  has its pages until it is given back, and a page is retrieved as it was stored; so a program
  can be followed on a memory of pages.  What it has there, it has on the line.
-/
import CpcLink.Program
import CpcLink.Proof.Reader
import CpcLink.Proof.Requests

namespace CpcLink

open Responder Talk

/-! ## The abstract memory -/

/-- The pages that are there, by allocation and number. -/
abbrev Memory := ℤ → ℤ → Option (List BYTE)

namespace Memory

def store (memory : Memory) (i p : ℤ) (page : List BYTE) : Memory := fun j q =>
  if j = i ∧ q = p then some page else memory j q

/-- New pages of zeros. -/
def create (memory : Memory) (i numberPages : ℤ) (pageSize : ℕ) : Memory := fun j q =>
  if j = i then if 0 ≤ q ∧ q < numberPages then some (List.replicate pageSize 0) else none
  else memory j q

def free (memory : Memory) (i : ℤ) : Memory := fun j q => if j = i then none else memory j q

end Memory

/-- The program uses pages that are there, with the size that they have, and `post` holds when
    it is done.  An allocation may be refused (0), or gets an id that no page has. -/
def PageProgram.Meets {ρ : Type} (post : ρ → Memory → Prop) : PageProgram ρ → Memory → Prop
  | .done result, memory => post result memory
  | .create n kb next, memory => (0 ≤ n ∧ n < 65536) ∧ (0 ≤ kb ∧ kb < 256) ∧
      (next 0).Meets post memory ∧ ∀ i, 0 < i ∧ i < 21 → (∀ p, memory i p = none) →
        (next i).Meets post (memory.create i n (kb * 1024).toNat)
  | .store i p page next, memory => (∃ old, memory i p = some old ∧ page.length = old.length) ∧
      next.Meets post (memory.store i p page)
  | .retrieve i p pageSize next, memory => ∃ page, memory i p = some page ∧ pageSize = page.length ∧
      (next page).Meets post memory
  | .free i next, memory => (∃ p page, memory i p = some page) ∧ next.Meets post (memory.free i)

/-- The server holds these pages. -/
def HoldsPages (memory : Memory) (c : Core) : Prop :=
  ∀ i p page, memory i p = some page → PageHolds c.memstore i p page

section
variable {memory : Memory} {c c' : Core} {i p : ℤ} {page : List BYTE}

theorem HoldsPages.store (h : HoldsPages memory c) (hstored : PageHolds c'.memstore i p page)
    (hkept : KeepsPages i p c c') : HoldsPages (memory.store i p page) c' := by
  intro j q page' hpage
  unfold Memory.store at hpage
  split at hpage
  next hsame =>
    obtain ⟨rfl, rfl⟩ := hsame
    cases hpage
    exact hstored
  next hother => exact hkept j q page' hother (h j q page' hpage)

theorem HoldsPages.create (h : HoldsPages memory c) {n : ℤ} {size : ℕ}
    (hcreated : ∀ p, 0 ≤ p ∧ p < n → PageHolds c'.memstore i p (List.replicate size 0))
    (hkept : ∀ j q page, PageHolds c.memstore j q page → PageHolds c'.memstore j q page) :
    HoldsPages (memory.create i n size) c' := by
  intro j q page' hpage
  unfold Memory.create at hpage
  split_ifs at hpage with hj hq
  · subst hj
    cases hpage
    exact hcreated q hq
  · exact hkept j q page' (h j q page' hpage)

theorem HoldsPages.free (h : HoldsPages memory c)
    (hkept : ∀ j q page, j ≠ i → PageHolds c.memstore j q page → PageHolds c'.memstore j q page) :
    HoldsPages (memory.free i) c' := by
  intro j q page' hpage
  unfold Memory.free at hpage
  split_ifs at hpage with hj
  exact hkept j q page' hj (h j q page' hpage)

/-- An id that is not in use has no pages. -/
theorem HoldsPages.fresh (h : HoldsPages memory c) (hi : ¬ isAllocated c.memstore i) (p : ℤ) :
    memory i p = none := by
  by_contra hsome
  obtain ⟨page, hpage⟩ := Option.ne_none_iff_exists'.1 hsome
  exact hi (h i p page hpage).live

/-- A page is not longer than 32 KB. -/
theorem PageHolds.length_le (h : PageHolds c.memstore i p page) (hstore : StoreValid c.memstore) :
    page.length ≤ 32768 := by
  have hlength := h.length
  obtain ⟨-, hsize⟩ := (hstore.live h.live).size
  omega

end

/-! ## The functions of the client -/

/-- The most bytes that a call still gets. -/
def ReadStage.left : ReadStage → ℕ
  | .header packetHeader => (6 - packetHeader.length) + 2 ^ 16 + 3
  | .message index numberBytes => (numberBytes - index) + 3
  | .trailer index => 3 - index
  | .returned _ => 0

/-- The loops are at their heads, and have not ended. -/
def ReadStage.InLoop : ReadStage → Prop
  | .header packetHeader => packetHeader.length < 6
  | .message index numberBytes => index < numberBytes ∧ numberBytes < 2 ^ 16
  | .trailer index => index < 3
  | .returned _ => True

section
variable {ρ : Type} {r : Reader} {next : (ℕ → BYTE) → Talk BYTE ρ} {s s' : ReadState} {u : List BYTE}
  {fuel : ℕ} {response : ℕ → BYTE} {ty : PacketType} {body : List BYTE}

theorem talk_returned {wellFormed : Bool} (h : s.stage = .returned wellFormed) (fuel : ℕ) :
    r.talk next fuel s = next s.response := by
  cases fuel with
  | zero => rfl
  | succ fuel => simp only [Reader.talk, h]

theorem talk_hears (h : ∀ wellFormed, s.stage ≠ .returned wellFormed) (fuel : ℕ) :
    r.talk next (fuel + 1) s = .hear fun b => r.talk next fuel (r.take s b) := by
  obtain ⟨stage, response⟩ := s
  cases stage with
  | returned wellFormed => exact absurd rfl (h wellFormed)
  | _ => rfl

theorem messageLoop_inLoop (index : ℕ) {n : ℕ} (hn : n < 2 ^ 16) : (messageLoop index n).InLoop ∧
    (messageLoop index n).left ≤ (n - index) + 3 := by
  unfold messageLoop
  split
  next hlt => exact ⟨⟨hlt, hn⟩, le_rfl⟩
  next => exact ⟨Nat.zero_lt_succ 2, Nat.le_add_left _ _⟩

/-- With each byte there is less to get. -/
theorem take_left (hr : r.indexes = 2 ^ 16) (h : s.stage.InLoop)
    (hgoes : ∀ wellFormed, s.stage ≠ .returned wellFormed) (b : BYTE) :
    (r.take s b).stage.InLoop ∧ (r.take s b).stage.left < s.stage.left := by
  obtain ⟨stage, response⟩ := s
  cases stage with
  | returned wellFormed => exact absurd rfl (hgoes wellFormed)
  | header packetHeader =>
    have hlen : (packetHeader ++ [b]).length = packetHeader.length + 1 := List.length_append
    change packetHeader.length < 6 at h
    change (headerLoop _ _ (packetHeader ++ [b])).InLoop ∧
      (headerLoop _ _ (packetHeader ++ [b])).left < (6 - packetHeader.length) + 2 ^ 16 + 3
    unfold headerLoop
    split_ifs with hmore hmatch
    · refine ⟨hmore, ?_⟩
      simp only [ReadStage.left, hlen]
      omega
    · have hn := (r.numberBytes (headerSize (packetHeader ++ [b]))).toNat_lt
      obtain ⟨hloop, hleft⟩ := messageLoop_inLoop 0 hn
      exact ⟨hloop, by omega⟩
    · exact ⟨trivial, by simp only [ReadStage.left]; omega⟩
  | message index numberBytes =>
    obtain ⟨hlt, hn⟩ := h
    have hnext : (index + 1) % r.indexes = index + 1 := by
      rw [hr]
      omega
    change (messageLoop ((index + 1) % r.indexes) numberBytes).InLoop ∧
      (messageLoop ((index + 1) % r.indexes) numberBytes).left < (numberBytes - index) + 3
    rw [hnext]
    obtain ⟨hloop, hleft⟩ := messageLoop_inLoop (index + 1) hn
    exact ⟨hloop, by omega⟩
  | trailer index =>
    change index < 3 at h
    change (trailerLoop (index + 1)).InLoop ∧ (trailerLoop (index + 1)).left < 3 - index
    unfold trailerLoop
    split_ifs with hmore
    · exact ⟨hmore, by simp only [ReadStage.left]; omega⟩
    · exact ⟨trivial, by simp only [ReadStage.left]; omega⟩

theorem talk_fuel (hr : r.indexes = 2 ^ 16) (h : s.stage.InLoop) (hfuel : s.stage.left ≤ fuel)
    (more : ℕ) : r.talk next (fuel + more) s = r.talk next fuel s := by
  induction fuel generalizing s with
  | zero =>
    obtain ⟨stage, response⟩ := s
    cases stage with
    | returned => rw [talk_returned rfl, talk_returned rfl]
    | _ => simp only [ReadStage.left, ReadStage.InLoop] at h hfuel; omega
  | succ fuel ih =>
    by_cases hstage : ∃ wellFormed, s.stage = .returned wellFormed
    · obtain ⟨_, hstage⟩ := hstage
      rw [talk_returned hstage, talk_returned hstage]
    · have hgoes : ∀ wellFormed, s.stage ≠ .returned wellFormed := fun w hw => hstage ⟨w, hw⟩
      rw [Nat.succ_add, talk_hears hgoes, talk_hears hgoes]
      congr 1
      funext b
      obtain ⟨hloop, hleft⟩ := take_left hr h hgoes b
      exact ih hloop (by omega)

/-- **A call of alloctest ends by itself**, whatever it gets. -/
theorem reads_ends (hr : r.indexes = 2 ^ 16) (response : ℕ → BYTE) (more : ℕ) :
    r.talk next (readFuel + more) (.call response) = r.reads response next := by
  have hloop : (ReadState.call response).stage.InLoop := Nat.zero_lt_succ 5
  exact talk_fuel hr hloop le_rfl more

/-- A call hears what it reads off the stream. -/
theorem hears_of_readFrom {wellFormed : Bool} (hfuel : u.length ≤ fuel)
    (hrun : r.readFrom s u = (s', [])) (hreturned : s'.stage = .returned wellFormed) :
    Hears (r.talk next fuel s) u (next s'.response) := by
  induction u generalizing s fuel with
  | nil =>
    cases hrun
    rw [talk_returned hreturned]
    exact .nothing _
  | cons b u ih =>
    by_cases hstage : ∃ wellFormed, s.stage = .returned wellFormed
    · obtain ⟨wellFormed', hstage⟩ := hstage
      obtain ⟨stage, response⟩ := s
      cases hstage
      rw [Reader.readFrom_returned] at hrun
      cases hrun
    · have hgoes : ∀ wellFormed, s.stage ≠ .returned wellFormed := fun w hw => hstage ⟨w, hw⟩
      have hread : r.readFrom s (b :: u) = r.readFrom (r.take s b) u := by
        obtain ⟨stage, response⟩ := s
        cases stage with
        | returned wellFormed' => exact absurd rfl (hgoes wellFormed')
        | _ => rfl
      obtain ⟨n, rfl⟩ : ∃ n, fuel = n + 1 := ⟨fuel - 1, by rw [List.length_cons] at hfuel; omega⟩
      rw [talk_hears hgoes]
      rw [hread] at hrun
      exact .more (ih (by simpa using hfuel) hrun)

theorem reads_hears (r : Reader) (response : ℕ → BYTE) (next : (ℕ → BYTE) → Talk BYTE ρ) :
    ∃ heard : BYTE → Talk BYTE ρ, r.reads response next = .hear heard := by
  refine ⟨_, talk_hears (s := .call response) (fun _ => ?_) (6 + 2 ^ 16 + 2)⟩
  nofun

/-- A call for a packet that suits it. -/
theorem Reader.Suits.hears (h : r.Suits ty body) (hbody : body.length ≤ 65532)
    (response : ℕ → BYTE) :
    Hears (r.reads response next) (encode ty body) (next (stored response 0 body)) := by
  have hrun := h.readFrom hbody response []
  rw [List.append_nil] at hrun
  refine hears_of_readFrom ?_ hrun rfl
  rw [length_encode, readFuel]
  omega

/-- The message is at the start of the buffer. -/
theorem stored_pages (response : ℕ → BYTE) (page : List BYTE) :
    (List.range page.length).map (stored response 0 page) = page := by
  refine List.ext_getElem (by simp) fun k hk _ => ?_
  have hlt : k < page.length := by simpa using hk
  simp [stored, hlt]

theorem range_map_getD (data : List BYTE) :
    (List.range data.length).map (fun k => data.getD k 0) = data := by
  refine List.ext_getElem (by simp) fun k hk _ => ?_
  have hlt : k < data.length := by simpa using hk
  simp [hlt]

/-- `send_bytes_to_pi` says a packet. -/
theorem sendBytes_eq {data : List BYTE} (hl : data.length < 256) (t : Talk BYTE ρ) :
    sendBytes data t = sayAll (encode binaryCommand data) t := by
  have hbody : (Request.bytes (fun k => data.getD k 0) (UInt8.ofNat data.length)).body = data := by
    rw [Request.body, UInt8.toNat_ofNat_of_lt' hl, range_map_getD]
  have hcalls := calls_eq_encode (.bytes (fun k => data.getD k 0) (UInt8.ofNat data.length))
    (by rw [hbody]; omega)
  rw [hbody] at hcalls
  exact congrArg (sayAll · t) hcalls

theorem sendBinaryData_eq {data : List BYTE} (hl : data.length ≤ 65532) (t : Talk BYTE ρ) :
    sendBinaryData data t = sayAll (encode binaryData data) t := by
  have hbody : (Request.binaryData (fun k => data.getD k 0) (UInt16.ofNat data.length)).body = data := by
    rw [Request.body, UInt16.toNat_ofNat_of_lt' (by simp [UInt16.size]; omega), range_map_getD]
  have hcalls := calls_eq_encode (.binaryData (fun k => data.getD k 0) (UInt16.ofNat data.length))
    (by rw [hbody]; omega)
  rw [hbody] at hcalls
  exact congrArg (sayAll · t) hcalls

end

/-! ## Turns -/

section
variable {memory : Memory} {c : Core} {i p : ℤ} {page old : List BYTE} {ρ : Type}
  {post : ρ → Core → Prop} {response : ℕ → BYTE}

/-- A request, and an answer of one packet. -/
theorem answer_turn {req : List BYTE} {answer : List BYTE → Core → Prop}
    (hserves : Serves Allocates c req answer) (hne : req ≠ []) (hfits : req.length ≤ inboxSize)
    {next : (ℕ → BYTE) → Talk BYTE ρ}
    (hnext : ∀ ans c', StoreValid c'.memstore → answer ans c' → ∃ body, ans = encode binaryCommand body ∧
      body.length ≤ 20 ∧
      piServer.InTurn InService inboxSize Allocates post (next (stored response 0 body)) c') :
    piServer.InTurn InService inboxSize Allocates post
      (sayAll req (allocReadResponseFromPi.reads response next)) c := by
  obtain ⟨heard, hheard⟩ := reads_hears allocReadResponseFromPi response next
  rw [hheard]
  refine hserves.turn hne hfits
    (fun ans => next (allocReadResponseFromPi.readFrom (.call response) ans).1.response) ?_
  intro ans c' hstore hanswer
  obtain ⟨body, rfl, hl, hturn⟩ := hnext ans c' hstore hanswer
  have hsuits : allocReadResponseFromPi.Suits binaryCommand body := by
    refine ⟨rfl, UInt16.toNat_ofNat_of_lt' ?_, ?_⟩
    · simp only [UInt16.size]
      omega
    · simp only [allocReadResponseFromPi]
      omega
  have hrun := hsuits.readFrom (by omega) response []
  rw [List.append_nil] at hrun
  rw [← hheard, hrun]
  exact ⟨hsuits.hears (by omega) response, hturn⟩

/-- An allocation is asked for. -/
theorem create_turn {n kb : ℤ} (hn : 0 ≤ n ∧ n < 65536) (hkb : 0 ≤ kb ∧ kb < 256)
    (next : ℤ → (ℕ → BYTE) → Talk BYTE ρ)
    (hnext : ∀ i response c', StoreValid c'.memstore → Created n kb c c' i →
      (∀ j q page, PageHolds c.memstore j q page → PageHolds c'.memstore j q page) →
      piServer.InTurn InService inboxSize Allocates post (next i response) c') :
    piServer.InTurn InService inboxSize Allocates post
      (sendBytes [21, byte (n % 256), byte (n / 256), byte kb]
        (allocReadResponseFromPi.reads response fun response => next (response 1).toNat response)) c := by
  rw [sendBytes_eq (by simp)]
  refine answer_turn (create_serves hn hkb) (by simp [encode]) ?_ ?_
  · rw [length_encode, inboxSize]
    simp [createRequest]
  · rintro _ c' hstore ⟨i, err, rfl, hcreated, hkept⟩
    have hi : 0 ≤ i ∧ i < 256 := by
      cases hcreated with
      | refused => decide
      | created hi => omega
    have hid : stored response 0 [byte createAlloc, byte i, err] 1 = byte i := rfl
    refine ⟨_, rfl, by simp, ?_⟩
    rw [hid, toNat_byte_of_lt hi.1 hi.2]
    exact hnext i _ c' hstore hcreated hkept

/-- A page is stored. -/
theorem store_turn (hstore : StoreValid c.memstore) (hholds : PageHolds c.memstore i p old)
    (hlen : page.length = old.length) {next : (ℕ → BYTE) → Talk BYTE ρ}
    (hnext : ∀ response c', StoreValid c'.memstore → PageHolds c'.memstore i p page →
      KeepsPages i p c c' → piServer.InTurn InService inboxSize Allocates post (next response) c') :
    piServer.InTurn InService inboxSize Allocates post
      (sendBytes [24, byte i, byte (p % 256), byte (p / 256)] (sendBinaryData page
        (allocReadResponseFromPi.reads response next))) c := by
  have hbig := hholds.length_le hstore
  rw [sendBytes_eq (by simp), sendBinaryData_eq (by omega), ← sayAll_append]
  refine answer_turn (store_serves hholds hlen) (by simp [encode]) ?_ ?_
  · have hrequest : (pageRequest storeAlloc i p).length = 4 := rfl
    rw [List.length_append, length_encode, length_encode, hrequest, inboxSize]
    omega
  · rintro _ c' hstore' ⟨rfl, hstored, hkept⟩
    exact ⟨_, rfl, by simp [pageRequest], hnext _ c' hstore' hstored hkept⟩

/-- A page is retrieved: two packets, read by two calls. -/
theorem retrieve_turn (hstore : StoreValid c.memstore) (hholds : PageHolds c.memstore i p page)
    {next : (ℕ → BYTE) → Talk BYTE ρ}
    (hnext : ∀ response c', StoreValid c'.memstore → (List.range page.length).map response = page →
      (∀ j q page', PageHolds c.memstore j q page' → PageHolds c'.memstore j q page') →
      piServer.InTurn InService inboxSize Allocates post (next response) c') :
    piServer.InTurn InService inboxSize Allocates post
      (sendBytes [23, byte i, byte (p % 256), byte (p / 256)] (allocReadResponseFromPi.reads response
        fun response => (readBinaryDataFromPi (UInt16.ofNat page.length)).reads response next)) c := by
  have hbig := hholds.length_le hstore
  obtain ⟨heard, hheard⟩ := reads_hears allocReadResponseFromPi response
    fun response => (readBinaryDataFromPi (UInt16.ofNat page.length)).reads response next
  have hanswer : allocReadResponseFromPi.Suits binaryCommand (pageRequest retrieveAlloc i p ++ [0]) :=
    ⟨rfl, rfl, by simp [pageRequest, allocReadResponseFromPi]⟩
  have hpage : (readBinaryDataFromPi (UInt16.ofNat page.length)).Suits binaryData page := by
    have hsize : (UInt16.ofNat page.length).toNat = page.length :=
      UInt16.toNat_ofNat_of_lt' (by simp only [UInt16.size]; omega)
    exact ⟨rfl, hsize, by simp only [readBinaryDataFromPi]; omega⟩
  rw [sendBytes_eq (by simp), hheard]
  refine (retrieve_serves hholds).turn (by simp [encode])
    (by rw [length_encode, inboxSize]; simp [pageRequest]) (fun _ => next (stored (stored response 0
      (pageRequest retrieveAlloc i p ++ [0])) 0 page)) ?_
  rintro ans c' hstore' ⟨rfl, hkept⟩
  rw [← hheard]
  refine ⟨?_, hnext _ c' hstore' (stored_pages _ page) hkept⟩
  exact (hanswer.hears (by simp [pageRequest]) response).append (hpage.hears (by omega) _)

/-- An allocation is given back. -/
theorem free_turn (hi : isAllocated c.memstore i) {next : (ℕ → BYTE) → Talk BYTE ρ}
    (hnext : ∀ response c', StoreValid c'.memstore →
      (∀ j q page, j ≠ i → PageHolds c.memstore j q page → PageHolds c'.memstore j q page) →
      piServer.InTurn InService inboxSize Allocates post (next response) c') :
    piServer.InTurn InService inboxSize Allocates post
      (sendBytes [22, byte i] (allocReadResponseFromPi.reads response next)) c := by
  rw [sendBytes_eq (by simp)]
  refine answer_turn (free_serves hi) (by simp [encode]) ?_ ?_
  · rw [length_encode, inboxSize]
    simp
  · rintro _ c' hstore ⟨rfl, hkept⟩
    exact ⟨_, rfl, by simp, hnext _ c' hstore hkept⟩

/-- **Alone with the server the program works on a memory of pages**, by induction on the program. -/
theorem program_inTurn {result : ρ → Memory → Prop} (program : PageProgram ρ)
    (hmeets : program.Meets result memory) (hstore : StoreValid c.memstore) (hpages : HoldsPages memory c)
    (response : ℕ → BYTE) : piServer.InTurn InService inboxSize Allocates
      (fun v c' => ∃ memory', result v memory' ∧ HoldsPages memory' c') (program.talk response) c := by
  induction program generalizing memory c response with
  | done v => exact .done ⟨memory, hmeets, hpages⟩
  | create n kb next ih =>
    obtain ⟨hn, hkb, hrefused, hcreated⟩ := hmeets
    refine create_turn hn hkb (fun i => (next i).talk) fun i response c' hstore' hnew hkept => ?_
    cases hnew with
    | refused => exact ih 0 hrefused hstore' (fun j q page h => hkept j q page (hpages j q page h)) response
    | created hi hfree hzeros =>
      exact ih i (hcreated i hi (hpages.fresh hfree)) hstore' (hpages.create hzeros hkept) response
  | store i p page next ih =>
    obtain ⟨⟨old, hold, hlen⟩, hnext⟩ := hmeets
    refine store_turn hstore (hpages i p old hold) hlen fun response c' hstore' hstored hkept => ?_
    exact ih hnext hstore' (hpages.store hstored hkept) response
  | retrieve i p pageSize next ih =>
    obtain ⟨page, hpage, rfl, hnext⟩ := hmeets
    refine retrieve_turn hstore (hpages i p page hpage) fun response c' hstore' hheard hkept => ?_
    rw [hheard]
    exact ih page hnext hstore' (fun j q page' h => hkept j q page' (hpages j q page' h)) response
  | free i next ih =>
    obtain ⟨⟨p, page, hpage⟩, hnext⟩ := hmeets
    refine free_turn (hpages i p page hpage).live fun response c' hstore' hkept => ?_
    exact ih hnext hstore' (hpages.free hkept) response

/-! ## On the line -/

/-- **A memory of pages on the line.**  Whatever the order of the steps, as long as no byte is
    written to a full FIFO and `calloc` succeeds, the server never breaks down, and it answers a
    program that waits as soon as it looks for a packet.  When the program is done, its result
    is one that it has with a memory of pages, the server holds the pages of that memory, and no
    byte is left over. -/
theorem pages_on_the_line {result : ρ → Memory → Prop} {program : PageProgram ρ} {s : Line ρ}
    (hmeets : program.Meets result memory) (hpages : HoldsPages memory c)
    (hr : Reach (Line.Begins (program.talk response) c) Line.Step (Line.Lossless Allocates) s)
    {env : Env} (henv : Allocates env) :
    (∃ s', s.serve env = .ok s') ∧
      (∀ next, s.talk = .hear next → s.Quiet → s.AboutToLook →
        ∃ s', s.serve env = .ok s' ∧ s'.mcp.server.outQueue.unread ≠ []) ∧
      ∀ v, s.talk = .done v → s.Quiet ∧ s.mcp.server.inQueue.unread = [] ∧
        ∃ memory', result v memory' ∧ HoldsPages memory' s.mcp.server.core := by
  have hstore : StoreValid c.memstore := by
    refine hr.inv (P := fun _ => StoreValid c.memstore) (fun _ hbegins => ?_) fun _ _ _ h _ _ => h
    have hrest := atRest_of_at hbegins.server
    rw [← congrArg Core.memstore hrest.core]
    exact hrest.orderly.healthy.memstore
  obtain ⟨hserves, hwaits, hdone⟩ :=
    Line.line_takes_turns (program_inTurn program hmeets hstore hpages response) hr henv
  refine ⟨hserves, hwaits, fun v htalk => ?_⟩
  obtain ⟨hquiet, c', hresult, -, hat⟩ := hdone v htalk
  have hrest : AtRest c' [] s.mcp.server := atRest_of_at hat
  rw [hrest.core]
  exact ⟨hquiet, hrest.inQueue, hresult⟩

end

/-! ## A run -/

namespace Line

variable {ρ : Type}

/-- `FindsFull`, computed. -/
def findsFull (s : Line ρ) : LineEvent → Bool
  | .look => match s.pending, s.talk with
    | [], .say _ _ => !s.toPi.dir
    | _, _ => false
  | _ => false

/-- A run in which no byte is lost, if there is one. -/
def run : List LineEvent → Line ρ → Option (Line ρ)
  | [], s => some s
  | e :: events, s => if s.findsFull e then none else (s.step e).toOption.bind (run events)

theorem findsFull_of {s : Line ρ} {e : LineEvent} (h : FindsFull s e) : s.findsFull e = true := by
  cases e with
  | look =>
    obtain ⟨hpending, ⟨b, next, htalk⟩, hdir⟩ := h
    simp [findsFull, hpending, htalk, hdir]
  | write | read | serve => exact h.elim

theorem reach_run {ok : Env → Prop} {init : Line ρ → Prop} {events : List LineEvent} {s s' : Line ρ}
    (hok : ∀ env, .serve env ∈ events → ok env) (hr : Reach init Step (Lossless ok) s)
    (hrun : run events s = some s') : Reach init Step (Lossless ok) s' := by
  induction events generalizing s with
  | nil =>
    cases hrun
    exact hr
  | cons e events ih =>
    rw [run] at hrun
    split at hrun
    · cases hrun
    next hfits =>
      cases hstep : s.step e with
      | error f =>
        rw [hstep] at hrun
        cases hrun
      | ok s₁ =>
        rw [hstep] at hrun
        have hlossless : Lossless ok s e := by
          refine ⟨fun hfull => hfits (findsFull_of hfull), ?_⟩
          rintro env rfl
          exact hok env (List.mem_cons_self ..)
        exact ih (fun env henv => hok env (List.mem_cons_of_mem _ henv)) (.next hr hlossless hstep) hrun

end Line

/-- An allocation of one page is asked for. -/
def createOne : PageProgram ℤ := .create 1 1 .done

/-- It is refused, or its page is zero. -/
theorem createOne_meets (memory : Memory) : createOne.Meets
    (fun i memory' => i = 0 ∨ memory' i 0 = some (List.replicate (1 * 1024 : ℤ).toNat 0)) memory := by
  refine ⟨by decide, by decide, .inl rfl, fun i _ _ => .inr ?_⟩
  rw [Memory.create, if_pos rfl, if_pos (by decide)]

/-- The server starts, and nothing is under way. -/
def createOneStart : Line ℤ := .start (createOne.talk fun _ => 0) startedMcp

theorem createOne_begins :
    Line.Begins (createOne.talk fun _ => 0) startedMcp.server.core createOneStart := by
  have hempty : ∀ q, (initQueue q).unread = [] := fun q =>
    List.eq_nil_of_length_eq_zero (by rw [length_unread]; exact count_initQueue q)
  have horderly : Orderly startedMcp.server :=
    ⟨startedMcp_initial.healthy, valid_initQueue _, rfl⟩
  exact ⟨⟨_, rfl⟩, ⟨horderly, hempty (queueOf []), hempty (queueOf []), rfl⟩⟩

/-- The program says its request, the server goes round, and the answer is heard. -/
def createOneRun : List LineEvent :=
  (List.replicate 13 [LineEvent.look, .write]).flatten ++ List.replicate 105 (.serve calmEnv) ++
    List.replicate 12 .read

theorem createOne_runs : ∃ s, Line.run createOneRun createOneStart = some s ∧ s.talk = .done 1 := by
  have hrun : (match Line.run createOneRun createOneStart with
      | some s => match s.talk with
        | .done v => v == 1
        | _ => false
      | none => false) = true := by
    rw [createOneStart, createOne, PageProgram.talk, sendBytes_eq (by simp)]
    decide +kernel
  split at hrun
  next s hs =>
    refine ⟨s, hs, ?_⟩
    split at hrun
    next v hv =>
      rw [hv, eq_of_beq hrun]
    next => cases hrun
  next => cases hrun

/-- An instance: the program is done, nothing is under way, and the server holds its page. -/
theorem pages_on_the_line_created : ∃ s : Line ℤ, s.talk = .done 1 ∧ s.Quiet ∧
    PageHolds s.mcp.server.memstore 1 0 (List.replicate 1024 0) := by
  obtain ⟨s, hrun, hdone⟩ := createOne_runs
  have hcalm : ∀ env, LineEvent.serve env ∈ createOneRun → Allocates env := by
    intro env henv
    have : env = calmEnv := by simpa [createOneRun] using henv
    rw [this]
    exact fun _ => rfl
  have hr : Reach (Line.Begins (createOne.talk fun _ => 0) startedMcp.server.core) Line.Step
      (Line.Lossless Allocates) s := Line.reach_run hcalm (.start createOne_begins) hrun
  have hnone : HoldsPages (fun _ _ => none) startedMcp.server.core := by
    intro i p page hpage
    cases hpage
  have hcalloc : Allocates calmEnv := fun _ => rfl
  obtain ⟨-, -, hends⟩ := pages_on_the_line (createOne_meets fun _ _ => none) hnone hr hcalloc
  obtain ⟨hquiet, -, memory, hresult, hheld⟩ := hends 1 hdone
  rcases hresult with hzero | hpage
  · cases hzero
  · exact ⟨s, hdone, hquiet, hheld 1 0 _ hpage⟩

end CpcLink

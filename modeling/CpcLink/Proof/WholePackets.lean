/-
  Does the client deliver whole packets?

  `fifo_out_byte` writes a byte if it finds that the FIFO has room (`outByte_runs`),
  and the client never asks whether it did.  So the server gets the packet exactly
  if no call finds the FIFO full (`packet_whole_iff`), in whatever order the calls
  and the server's rounds come.
-/
import CpcLink.Client
import CpcLink.Proof.Recognise
import CpcLink.Proof.Unrolled

namespace CpcLink

namespace Fifolib

open Z80

/-- The flag was read. -/
def flagRead (bus : Bus) (m : State) : State := { m with
  a := bus m.reads fifoStatus &&& 2, b := 0xFD, c := 0x81
  z := bus m.reads fifoStatus &&& 2 == 0, cy := false, reads := m.reads + 1
  ins := m.ins ++ [(fifoStatus, bus m.reads fifoStatus)] }

theorem flagRead_effects (bus : Bus) (m : State) :
    effects bus m [.ldPair .bc 0xfd81, .inPort .a, .and 2] = some (flagRead bus m) := by
  have hhigh : high 0xfd81 = 0xFD := high_eq rfl
  have hlow : low 0xfd81 = 0x81 := low_eq rfl
  simp [effects, effect, flagRead, hhigh, hlow, word_status]

/-- The byte was written. -/
def byteWritten (m : State) : State := { m with
  a := 1, c := m.c - 1, l := 1, z := m.c - 1 == 0, outs := m.outs ++ [(word m.b (m.c - 1), m.l)] }

theorem byteWritten_effects (bus : Bus) (m : State) :
    effects bus m [.dec .c, .outPort .l, .ldNum .a 1, .ldReg .l .a] = some (byteWritten m) := rfl

/-- **`_fifo_out_byte`** reads the flag once, and does what is said of it. -/
theorem outByte_runs (bus : Bus) (m : Machine) : ∃ m' : Machine,
    Machine.Runs program bus (m.goto fifoOutByte) (m'.goto m.top) ∧
      m'.core.ins = m.core.ins ++ [(fifoStatus, bus m.core.reads fifoStatus)] ∧
      m'.core.l = (CpcLink.fifoOutByte (bus m.core.reads fifoStatus &&& 2 != 0) m.core.l).1 ∧
      m'.core.outs = m.core.outs ++
        (CpcLink.fifoOutByte (bus m.core.reads fifoStatus &&& 2 != 0) m.core.l).2.map
          fun b => (fifoData, b) := by
  have hlook : CodeAt (Machine.coreOf program) fifoOutByte [.ldPair .bc 0xfd81, .inPort .a, .and 2] :=
    ⟨rfl, rfl, rfl, trivial⟩
  have hwrite : CodeAt (Machine.coreOf program) 35 [.dec .c, .outPort .l, .ldNum .a 1, .ldReg .l .a] :=
    ⟨rfl, rfl, rfl, rfl, trivial⟩
  by_cases hdir : bus m.core.reads fifoStatus &&& 2 = 0
  · refine ⟨⟨{ flagRead bus m.core with l := bus m.core.reads fifoStatus &&& 2 }, m.sp + 2⟩,
      .core_step (.block hlook (flagRead_effects bus m.core)
        (.jrZ_taken rfl (beq_iff_eq.2 hdir) (.plain rfl rfl .refl))) (.ret rfl .refl), rfl, ?_, ?_⟩
    · simp [hdir, CpcLink.fifoOutByte]
    · simp [hdir, CpcLink.fifoOutByte, flagRead]
  · refine ⟨⟨byteWritten (flagRead bus m.core), m.sp + 2⟩,
      .core_step (.block hlook (flagRead_effects bus m.core)
        (.jrZ_next rfl (beq_eq_false_iff_ne.2 hdir)
          (.block hwrite (byteWritten_effects bus _) .refl))) (.ret rfl .refl), rfl, ?_, ?_⟩
    · simp [hdir, CpcLink.fifoOutByte, byteWritten]
    · have hport : (0x81 : UInt8) - 1 = 0x80 := rfl
      simp [hdir, CpcLink.fifoOutByte, byteWritten, flagRead, hport, word_data]

end Fifolib

/-! ## The two of them -/

/-- What the client asks for. -/
inductive Request where
  | bytes (data : ℕ → BYTE) (sizeToSend : UInt8)
  | binaryData (responseBuffer : ℕ → BYTE) (numberBytesToWrite : UInt16)

namespace Request

/-- The calls of `fifo_out_byte`. -/
def calls : Request → List BYTE
  | bytes data sizeToSend => sendBytesToPi data sizeToSend
  | binaryData responseBuffer numberBytesToWrite =>
    sendBinaryDataToPi responseBuffer numberBytesToWrite

def packetType : Request → PacketType
  | bytes _ _ => binaryCommand
  | binaryData _ _ => CpcLink.binaryData

def body : Request → List BYTE
  | bytes data sizeToSend => (List.range sizeToSend.toNat).map data
  | binaryData responseBuffer numberBytesToWrite =>
    (List.range numberBytesToWrite.toNat).map responseBuffer

end Request

/-- The client, the FIFO and the server. -/
structure Link where
  /-- the calls that are still to come -/
  calls : List BYTE
  /-- what the call that is under way has left to write -/
  pending : List BYTE
  fifo : Fifo
  /-- the bytes that the FIFO has taken so far -/
  put : List BYTE
  reception : Reception

/-- What happens next. -/
inductive LinkEvent where
  /-- a call of `fifo_out_byte` reads the flag -/
  | look
  /-- it writes -/
  | write
  /-- the server takes a byte, if it has room -/
  | take
  /-- the server looks for a packet -/
  | poll

def linkStep (s : Link) : LinkEvent → Link
  | .look =>
    match s.pending, s.calls with
    | [], b :: calls => { s with calls := calls, pending := (fifoOutByte s.fifo.dir b).2 }
    | _, _ => s
  | .write =>
    match s.pending with
    | b :: pending => { s with
        pending := pending, fifo := s.fifo.write b, put := if s.fifo.dir then s.put ++ [b] else s.put }
    | [] => s
  | .take =>
    match s.fifo.bytes with
    | b :: _ =>
      if numberFreeBytesInQueueToWriteToo s.reception.queue > 0 then
        { s with fifo := s.fifo.rest, reception := receptionStep s.reception (.arrive b) }
      else s
    | [] => s
  | .poll => { s with reception := receptionStep s.reception .poll }

def link (s : Link) (events : List LinkEvent) : Link := events.foldl linkStep s

/-- The client begins, with the FIFO empty. -/
def Request.start (r : Request) (q : Queue) : Link := ⟨r.calls, [], .empty, [], q, []⟩

/-- The client has made its calls. -/
def Done (s : Link) : Prop := s.calls = [] ∧ s.pending = []

instance (s : Link) : Decidable (Done s) := inferInstanceAs (Decidable (_ ∧ _))

/-- A call looks at the FIFO, and it is full. -/
def FindsFull (s : Link) : LinkEvent → Prop
  | .look => s.pending = [] ∧ s.calls ≠ [] ∧ s.fifo.dir = false
  | _ => False

instance (s : Link) (e : LinkEvent) : Decidable (FindsFull s e) :=
  match e with
  | .look => inferInstanceAs (Decidable (_ ∧ _ ∧ _))
  | .write | .take | .poll => inferInstanceAs (Decidable False)

/-- No call finds the FIFO full. -/
def FindsRoom (s : Link) : List LinkEvent → Prop
  | [] => True
  | e :: events => ¬ FindsFull s e ∧ FindsRoom (linkStep s e) events

instance FindsRoom.decidable : ∀ (s : Link) (events : List LinkEvent), Decidable (FindsRoom s events)
  | _, [] => .isTrue trivial
  | s, e :: events =>
    have := FindsRoom.decidable (linkStep s e) events
    inferInstanceAs (Decidable (_ ∧ _))

/-- The packet arrives: the FIFO has taken its bytes once and in order, and when
    the server has taken them from there and has polled, it has got this packet. -/
structure Whole (r : Request) (s : Link) : Prop where
  put : s.put = encode r.packetType r.body
  arrives : ∃ more, (link s more).fifo.bytes = [] ∧ Settled (link s more).reception
  accepted : ∀ more, (link s more).fifo.bytes = [] → Settled (link s more).reception →
    (link s more).reception.delivered = [encode r.packetType r.body]

/-! ## What the client sends -/

section
variable {data : ℕ → BYTE} {q : Queue} {r : Request} {s : Link}

theorem sendBytesLoop_eq (data : ℕ → BYTE) (sizeToSend index : UInt8) :
    sendBytesLoop data sizeToSend index =
      (List.range' index.toNat (sizeToSend.toNat - index.toNat)).map data := by
  fun_induction sendBytesLoop data sizeToSend index with
  | case1 index hlt ih =>
    have hlt' : index.toNat < sizeToSend.toNat := UInt8.lt_iff_toNat_lt.1 hlt
    have hsize := sizeToSend.toNat_lt
    have hnext : (index + 1).toNat = index.toNat + 1 := by
      rw [UInt8.toNat_add, show (1 : UInt8).toNat = 1 from rfl, Nat.mod_eq_of_lt (by omega)]
    rw [ih, hnext, ← List.map_cons, ← List.range'_succ]
    congr 2
    omega
  | case2 index hge =>
    have hge' : sizeToSend.toNat ≤ index.toNat := by
      rw [UInt8.lt_iff_toNat_lt] at hge
      exact Nat.not_lt.1 hge
    rw [Nat.sub_eq_zero_of_le hge', List.range'_zero, List.map_nil]

theorem sendBinaryDataLoop_eq (data : ℕ → BYTE) (size index : UInt16) :
    sendBinaryDataLoop data size index =
      (List.range' index.toNat (size.toNat - index.toNat)).map data := by
  fun_induction sendBinaryDataLoop data size index with
  | case1 index hlt ih =>
    have hlt' : index.toNat < size.toNat := UInt16.lt_iff_toNat_lt.1 hlt
    have hsize := size.toNat_lt
    have hnext : (index + 1).toNat = index.toNat + 1 := by
      rw [UInt16.toNat_add, show (1 : UInt16).toNat = 1 from rfl, Nat.mod_eq_of_lt (by omega)]
    rw [ih, hnext, ← List.map_cons, ← List.range'_succ]
    congr 2
    omega
  | case2 index hge =>
    have hge' : size.toNat ≤ index.toNat := by
      rw [UInt16.lt_iff_toNat_lt] at hge
      exact Nat.not_lt.1 hge
    rw [Nat.sub_eq_zero_of_le hge', List.range'_zero, List.map_nil]

theorem low_byte (n : ℕ) : UInt8.ofNat (n % 256) = byte n :=
  UInt8.toNat_inj.1 (by rw [toNat_byte, UInt8.toNat_ofNat', Nat.mod_mod])

theorem high_byte (n : ℕ) : UInt8.ofNat (n / 256) = byte (n / 256 : ℕ) :=
  UInt8.toNat_inj.1 (by rw [toNat_byte, UInt8.toNat_ofNat'])

/-- The calls are a packet. -/
theorem calls_eq_encode (r : Request) (h : r.body.length ≤ 65532) :
    r.calls = encode r.packetType r.body := by
  cases r with
  | bytes data size =>
    have hlength : (Request.bytes data size).body.length = size.toNat := by
      rw [Request.body, List.length_map, List.length_range]
    have hloop : sendBytesLoop data size 0 = (Request.bytes data size).body := by
      rw [sendBytesLoop_eq, UInt8.toNat_zero, Nat.sub_zero, Request.body, List.range_eq_range']
    rw [Request.calls, sendBytesToPi, hloop, low_byte, high_byte, encode, hlength]
    rfl
  | binaryData data size =>
    have hlength : (Request.binaryData data size).body.length = size.toNat := by
      rw [Request.body, List.length_map, List.length_range]
    have hloop : sendBinaryDataLoop data size 0 = (Request.binaryData data size).body := by
      rw [sendBinaryDataLoop_eq, UInt16.toNat_zero, Nat.sub_zero, Request.body, List.range_eq_range']
    have htotal : (size + 3).toNat = size.toNat + 3 := by
      rw [UInt16.toNat_add, show (3 : UInt16).toNat = 3 from rfl]
      omega
    rw [Request.calls, sendBinaryDataToPi, hloop, low_byte, high_byte, encode, hlength, htotal]
    rfl

/-! ## What the FIFO takes -/

theorem link_append (s : Link) (events more : List LinkEvent) :
    link s (events ++ more) = link (link s events) more := List.foldl_append

/-- What was put and what is still to be put. -/
def Link.sent (s : Link) : List BYTE := s.put ++ s.pending ++ s.calls

/-- A byte that is to be written has room: only the client fills the FIFO. -/
def PendingFits (s : Link) : Prop := s.pending = [] ∨ ∃ b, s.pending = [b] ∧ s.fifo.dir = true

theorem Fifo.dir_rest {f : Fifo} (h : f.dir = true) : f.rest.dir = true := by
  have hlt : f.bytes.length < fifoSize := of_decide_eq_true h
  refine decide_eq_true ?_
  rw [Fifo.rest, List.length_tail]
  exact (Nat.sub_le _ _).trans_lt hlt

theorem Fifo.bytes_rest {f : Fifo} {b : BYTE} {bytes : List BYTE} (h : f.bytes = b :: bytes) :
    f.rest.bytes = bytes := by
  have htail := congrArg List.tail h
  exact htail

theorem Fifo.bytes_write {f : Fifo} (h : f.dir = true) (b : BYTE) :
    (f.write b).bytes = f.bytes ++ [b] := by
  rw [Fifo.write, dif_pos (of_decide_eq_true h)]

/-- What a step does, if it does anything. -/
inductive LinkMove (s : Link) : LinkEvent → Link → Prop where
  | idle {e : LinkEvent} : LinkMove s e s
  | look {b : BYTE} {calls : List BYTE} : s.pending = [] → s.calls = b :: calls →
      LinkMove s .look { s with calls := calls, pending := (fifoOutByte s.fifo.dir b).2 }
  | write {b : BYTE} {pending : List BYTE} : s.pending = b :: pending →
      LinkMove s .write { s with
        pending := pending, fifo := s.fifo.write b
        put := if s.fifo.dir then s.put ++ [b] else s.put }
  | take {b : BYTE} {bytes : List BYTE} : s.fifo.bytes = b :: bytes →
      LinkMove s .take { s with
        fifo := s.fifo.rest, reception := receptionStep s.reception (.arrive b) }
  | poll : LinkMove s .poll { s with reception := receptionStep s.reception .poll }

theorem linkStep_move (s : Link) (e : LinkEvent) : LinkMove s e (linkStep s e) := by
  cases e with
  | look =>
    cases hp : s.pending with
    | nil =>
      cases hc : s.calls with
      | nil => simpa only [linkStep, hp, hc] using LinkMove.idle
      | cons b calls => simpa only [linkStep, hp, hc] using LinkMove.look hp hc
    | cons b pending => simpa only [linkStep, hp] using LinkMove.idle
  | write =>
    cases hp : s.pending with
    | nil => simpa only [linkStep, hp] using LinkMove.idle
    | cons b pending => simpa only [linkStep, hp] using LinkMove.write hp
  | take =>
    cases hb : s.fifo.bytes with
    | nil => simpa only [linkStep, hb] using LinkMove.idle
    | cons b bytes =>
      simp only [linkStep, hb]
      split
      · exact .take hb
      · exact .idle
  | poll => exact .poll

theorem pendingFits_step (h : PendingFits s) (e : LinkEvent) : PendingFits (linkStep s e) := by
  have hmove := linkStep_move s e
  generalize linkStep s e = s' at hmove ⊢
  cases hmove with
  | idle | poll => exact h
  | look hp hc =>
    cases hdir : s.fifo.dir with
    | false => exact .inl rfl
    | true => exact .inr ⟨_, rfl, hdir⟩
  | write hp =>
    rcases h with h | ⟨b, h, -⟩
    · rw [hp] at h
      cases h
    · rw [hp] at h
      cases h
      exact .inl rfl
  | take hb => exact h.imp id fun ⟨b, hp, hdir⟩ => ⟨b, hp, Fifo.dir_rest hdir⟩

/-- A step that does not find the FIFO full loses nothing. -/
theorem sent_step (h : PendingFits s) {e : LinkEvent} (he : ¬ FindsFull s e) :
    (linkStep s e).sent = s.sent := by
  have hmove := linkStep_move s e
  generalize linkStep s e = s' at hmove ⊢
  cases hmove with
  | idle | take | poll => rfl
  | look hp hc =>
    have hdir : s.fifo.dir = true := by
      rw [FindsFull, hp, hc] at he
      simpa using he
    simp [Link.sent, fifoOutByte, hdir, hp, hc]
  | write hp =>
    rcases h with h | ⟨b, -, hdir⟩
    · rw [hp] at h
      cases h
    · simp [Link.sent, hdir, hp]

/-- One that does loses a byte. -/
theorem sent_step_full {e : LinkEvent} (he : FindsFull s e) :
    (linkStep s e).sent.length + 1 = s.sent.length := by
  cases e with
  | look =>
    obtain ⟨hp, hc, hdir⟩ := he
    obtain ⟨b, calls, hc⟩ := List.exists_cons_of_ne_nil hc
    simp [linkStep, Link.sent, fifoOutByte, hdir, hp, hc]
    omega
  | write | take | poll => cases he

theorem sent_run_le (h : PendingFits s) (events : List LinkEvent) :
    (link s events).sent.length ≤ s.sent.length := by
  induction events generalizing s with
  | nil => exact Nat.le_refl _
  | cons e events ih =>
    have hstep : (linkStep s e).sent.length ≤ s.sent.length := by
      by_cases he : FindsFull s e
      · exact Nat.le_of_succ_le (sent_step_full he).le
      · rw [sent_step h he]
    exact (ih (pendingFits_step h e)).trans hstep

/-- **Nothing is lost exactly if no call finds the FIFO full.** -/
theorem sent_run_iff (h : PendingFits s) (events : List LinkEvent) :
    (link s events).sent = s.sent ↔ FindsRoom s events := by
  induction events generalizing s with
  | nil => exact iff_of_true rfl trivial
  | cons e events ih =>
    have hrest := ih (pendingFits_step h e)
    by_cases he : FindsFull s e
    · refine iff_of_false (fun heq => ?_) fun hroom => hroom.1 he
      have hle := sent_run_le (pendingFits_step h e) events
      have hlost := sent_step_full he
      have hsame : (link (linkStep s e) events).sent.length = s.sent.length := congrArg List.length heq
      omega
    · rw [sent_step h he] at hrest
      exact hrest.trans (and_iff_right he).symm

/-! ## What the server gets -/

/-- The bytes that were put are those that the server has taken, and then those
    that are in the FIFO. -/
def Carried (q : Queue) (s : Link) : Prop :=
  ∃ events, s.reception = reception q events ∧ arrivals events ++ s.fifo.bytes = s.put

theorem arrivals_append (events : List Event) (e : Event) :
    arrivals (events ++ [e]) = arrivals events ++ arrivals [e] := List.filterMap_append

theorem carried_step (h : Carried q s) (hfits : PendingFits s) (e : LinkEvent) :
    Carried q (linkStep s e) := by
  obtain ⟨events, hreception, hput⟩ := h
  have hmove := linkStep_move s e
  generalize linkStep s e = s' at hmove ⊢
  cases hmove with
  | idle | look => exact ⟨events, hreception, hput⟩
  | write hp =>
    rcases hfits with h | ⟨b, -, hdir⟩
    · rw [hp] at h
      cases h
    · refine ⟨events, hreception, ?_⟩
      dsimp only
      rw [Fifo.bytes_write hdir, if_pos hdir, ← hput, List.append_assoc]
  | @take b bytes hb =>
    refine ⟨events ++ [.arrive b], by rw [reception_append, hreception], ?_⟩
    dsimp only
    rw [arrivals_append, ← hput, hb, List.append_assoc, Fifo.bytes_rest hb]
    rfl
  | poll =>
    refine ⟨events ++ [.poll], by rw [reception_append, hreception], ?_⟩
    rw [arrivals_append, ← hput]
    exact congrArg (· ++ s.fifo.bytes) (List.append_nil _)

theorem carried_run (h : Carried q s) (hfits : PendingFits s) (events : List LinkEvent) :
    Carried q (link s events) ∧ PendingFits (link s events) := by
  induction events generalizing s with
  | nil => exact ⟨h, hfits⟩
  | cons e events ih => exact ih (carried_step h hfits e) (pendingFits_step hfits e)

/-- When the client has made its calls, nothing more is put. -/
theorem done_step (h : Done s) (e : LinkEvent) :
    Done (linkStep s e) ∧ (linkStep s e).put = s.put := by
  have hmove := linkStep_move s e
  generalize linkStep s e = s' at hmove ⊢
  cases hmove with
  | idle | take | poll => exact ⟨h, rfl⟩
  | look hp hc =>
    rw [h.1] at hc
    cases hc
  | write hp =>
    rw [h.2] at hp
    cases hp

theorem done_run (h : Done s) (events : List LinkEvent) : (link s events).put = s.put := by
  induction events generalizing s with
  | nil => rfl
  | cons e events ih =>
    obtain ⟨hdone, hput⟩ := done_step h e
    exact (ih hdone).trans hput

/-- What has come to the server is a stream of the recogniser. -/
theorem Carried.fed (h : Carried q s) (hq : Valid q) (h0 : q.count = 0)
    (hsmall : (s.put.length : ℤ) < queueSize) : Valid s.reception.queue ∧
      ∃ taken, taken ++ s.fifo.bytes = s.put ∧
        recogniser.Fed taken s.reception.delivered s.reception.queue.unread := by
  obtain ⟨events, hreception, hput⟩ := h
  have hlength := congrArg List.length hput
  rw [List.length_append] at hlength
  obtain ⟨hv, hfed⟩ := reception_fed hq h0 events (neverFull_of_short hq h0 events (by omega))
  rw [hreception]
  exact ⟨hv, _, hput, hfed⟩

/-- The server can take all that is in the FIFO. -/
theorem drains (h : Carried q s) (hfits : PendingFits s) (hdone : Done s) (hq : Valid q)
    (h0 : q.count = 0) (hsmall : (s.put.length : ℤ) < queueSize) :
    ∃ events, (link s events).fifo.bytes = [] := by
  induction hb : s.fifo.bytes generalizing s with
  | nil => exact ⟨[], hb⟩
  | cons b bytes ih =>
    obtain ⟨hv, taken, htaken, hfed⟩ := h.fed hq h0 hsmall
    have hroom : numberFreeBytesInQueueToWriteToo s.reception.queue > 0 := by
      have hle := hfed.runs.length_le
      have hlength := congrArg List.length htaken
      rw [List.length_append] at hlength
      rw [length_unread] at hle
      rw [hv.free]
      omega
    have htake : linkStep s .take = { s with
        fifo := s.fifo.rest, reception := receptionStep s.reception (.arrive b) } := by
      rw [linkStep, hb]
      exact if_pos hroom
    obtain ⟨hdone', hput⟩ := done_step hdone .take
    have hbytes : (linkStep s .take).fifo.bytes = bytes := by
      rw [htake]
      exact Fifo.bytes_rest hb
    rw [← hput] at hsmall
    obtain ⟨events, hempty⟩ := ih (carried_step h hfits .take) (pendingFits_step hfits .take) hdone'
      hsmall hbytes
    exact ⟨.take :: events, hempty⟩

theorem polls (s : Link) (n : ℕ) : link s (List.replicate n .poll) =
    { s with reception := (fun r => receptionStep r .poll)^[n] s.reception } := by
  induction n generalizing s with
  | zero => rfl
  | succ n ih =>
    rw [List.replicate_succ, Function.iterate_succ_apply]
    exact ih (linkStep s .poll)

/-- The types of the two requests are accepted. -/
theorem Request.acceptedType (r : Request) : AcceptedType r.packetType := by
  cases r with
  | bytes => exact (by decide : AcceptedType 2)
  | binaryData => exact (by decide : AcceptedType 3)

theorem runs_encode {ty : PacketType} (ht : AcceptedType ty) {body : List BYTE}
    (hb : body.length ≤ 65532) : recogniser.Runs (encode ty body) [encode ty body] [] := by
  have hnext : frameNext (encode ty body) = some (body.length + 9, some (encode ty body)) := by
    have happend := frameNext_encode ht hb []
    rwa [List.append_nil] at happend
  have hrun : recogniser.Runs (encode ty body) [encode ty body] _ :=
    .single (b := some (encode ty body)) hnext
  rwa [List.drop_eq_nil_of_le (by rw [length_encode])] at hrun

/-- **A packet that was put arrives.** -/
theorem whole_of_put (hfits : r.body.length ≤ 65532) (hq : Valid q) (h0 : q.count = 0)
    (h : Carried q s) (hpending : PendingFits s) (hdone : Done s)
    (hput : s.put = encode r.packetType r.body) : Whole r s := by
  have hsmall : (s.put.length : ℤ) < queueSize := by
    rw [hput, length_encode, show queueSize = 131070 from rfl]
    omega
  have hlater : ∀ more, Carried q (link s more) ∧ (link s more).put = s.put := fun more =>
    ⟨(carried_run h hpending more).1, done_run hdone more⟩
  refine ⟨hput, ?_, ?_⟩
  · obtain ⟨events, hempty⟩ := drains h hpending hdone hq h0 hsmall
    obtain ⟨hc, hp⟩ := hlater events
    obtain ⟨hv, -⟩ := hc.fed hq h0 (by rwa [hp])
    obtain ⟨n, hsettled⟩ := poll_settles (r := (link s events).reception) hv
    refine ⟨events ++ List.replicate n .poll, ?_, ?_⟩ <;> rw [link_append, polls]
    · exact hempty
    · exact hsettled
  · intro more hempty hsettled
    obtain ⟨hc, hp⟩ := hlater more
    obtain ⟨hv, taken, htaken, hfed⟩ := hc.fed hq h0 (by rwa [hp])
    rw [hempty, List.append_nil, hp, hput] at htaken
    rw [htaken] at hfed
    exact (hfed.runs.unique ((settled_iff hv).1 hsettled) (runs_encode r.acceptedType hfits) rfl).1

theorem carried_start (r : Request) (q : Queue) : Carried q (r.start q) := ⟨[], rfl, rfl⟩

/-- **When packets are delivered whole**: no call finds the FIFO full. -/
theorem packet_whole_iff (r : Request) (hfits : r.body.length ≤ 65532) (hq : Valid q)
    (hempty : q.storeNextByte = q.readNextByte) (events : List LinkEvent)
    (hdone : Done (link (r.start q) events)) :
    Whole r (link (r.start q) events) ↔ FindsRoom (r.start q) events := by
  have hstart : PendingFits (r.start q) := .inl rfl
  obtain ⟨hcarried, hpending⟩ := carried_run (carried_start r q) hstart events
  have hput : (link (r.start q) events).sent = (link (r.start q) events).put := by
    rw [Link.sent, hdone.1, hdone.2, List.append_nil, List.append_nil]
  have hcalls : (r.start q).sent = encode r.packetType r.body := calls_eq_encode r hfits
  rw [← sent_run_iff hstart, hput, hcalls]
  exact ⟨Whole.put,
    whole_of_put hfits hq (hq.count_eq_zero.2 hempty) hcarried hpending hdone⟩

end

/-! ## Two schedules -/

/-- Every call comes before the server takes a byte. -/
def hurried (n : ℕ) : List LinkEvent := (List.replicate n [.look, .write]).flatten

def nothingWaits : Queue := ⟨fun _ => 0, 0, 0⟩

theorem nothingWaits_valid : Valid nothingWaits :=
  ⟨⟨⟨by decide, by decide⟩, by decide, by decide⟩, by decide⟩

/-- The start of a request for `n` zeros. -/
theorem start_zeros (n : UInt8) : (Request.bytes (fun _ => 0) n).start nothingWaits =
    ⟨encode 2 (List.replicate n.toNat 0), [], .empty, [], nothingWaits, []⟩ := by
  have hbody : (Request.bytes (fun _ => 0) n).body = List.replicate n.toNat 0 := by
    rw [Request.body, List.map_const', List.length_range]
  have hsmall := n.toNat_lt
  rw [Request.start, calls_eq_encode, hbody]
  · rfl
  · rw [hbody, List.length_replicate]
    omega

/-- A command of seven bytes fits into the FIFO. -/
theorem packet_whole_iff_seven : Whole (.bytes (fun _ => 0) 7)
    (link ((Request.bytes (fun _ => 0) 7).start nothingWaits) (hurried 16)) := by
  refine (packet_whole_iff _ (by decide) nothingWaits_valid rfl _ ?_).2 ?_ <;> rw [start_zeros]
  · decide
  · decide

/-- Of a command of eight bytes the last `-` is lost. -/
theorem packet_cut_short : Done (link ((Request.bytes (fun _ => 0) 8).start nothingWaits) (hurried 17)) ∧
    ¬ Whole (.bytes (fun _ => 0) 8)
      (link ((Request.bytes (fun _ => 0) 8).start nothingWaits) (hurried 17)) := by
  rw [start_zeros]
  refine ⟨by decide, fun h => ?_⟩
  have hlength := congrArg List.length h.put
  revert hlength
  decide

end CpcLink

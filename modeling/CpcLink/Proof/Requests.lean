/-
  The requests for allocations and pages, as a program makes them.

  `SALLOC` comes in two packets.  While the second one is on its way the command is read and
  rewound to, which nobody sees.  `RALLOC` is one packet, and has two for an answer.
-/
import CpcLink.Proof.Indices
import CpcLink.Proof.Line
import CpcLink.Proof.ReadBack
import CpcLink.Proof.Retry

namespace CpcLink

open Responder Talk

def Server.core (s : Server) : Core := ⟨s.memstore, s.world, s.tron⟩

/-- The server has received `u`, keeps `c`, and has nothing to send. -/
structure AtRest (c : Core) (u : List BYTE) (s : Server) : Prop where
  orderly : Orderly s
  inQueue : s.inQueue.unread = u
  outQueue : s.outQueue.unread = []
  core : s.core = c

/-- A request that waits until it is whole, and is served then. -/
structure Serves (ok : Env → Prop) (c : Core) (req : List BYTE) (post : List BYTE → Core → Prop) :
    Prop where
  waits : ∀ env s u, ok env → AtRest c u s → u <+: req → u ≠ req →
    ∃ s', pollAndDispatch env s = .ok s' ∧ AtRest c u s'
  serves : ∀ env s, ok env → AtRest c req s →
    ∃ s', pollAndDispatch env s = .ok s' ∧ Orderly s' ∧ s'.inQueue.unread = [] ∧
      post s'.outQueue.unread s'.core

section
variable {ρ : Type} {ok : Env → Prop} {c : Core} {req u : List BYTE} {post : List BYTE → Core → Prop}
  {m : Mcp} {env : Env} {s s' : Server} {i p : ℤ}

/-! ## Turns -/

theorem atRest_of_at (h : piServer.At InService c u m) : AtRest c u m.server :=
  ⟨h.sound, h.inbox, h.outbox, h.keeps⟩

/-- The checks with the whole request before them: nothing happens, or it is served. -/
theorem Serves.checks (h : Serves ok c req post) (henv : ok env) (hrest : AtRest c req m.server) :
    ∃ m', piServer.work m env = some m' ∧ (¬ piServer.ready m ∧ m'.server = m.server ∨
      Orderly m'.server ∧ m'.server.inQueue.unread = [] ∧
        post m'.server.outQueue.unread m'.server.core) := by
  obtain ⟨s', hpoll, horderly, hin, hpost⟩ := h.serves env m.server henv hrest
  obtain ⟨m', hchecks, hserver⟩ := checks_idle env hrest.orderly.table
    fun _ => ⟨s', hpoll, horderly.table⟩
  refine ⟨m', by rw [piServer_work, hchecks]; rfl, ?_⟩
  rcases hserver with hsame | hrun
  · exact .inl hsame
  · cases hpoll.symm.trans hrun
    exact .inr ⟨horderly, hin, hpost⟩

theorem same_of_server {m m' : Mcp} (h : m'.server = m.server) : piServer.Same m m' := by
  constructor <;> simp [h]

/-- The checks with a part of the request before them. -/
theorem Serves.checks_part (h : Serves ok c req post) (henv : ok env) (hrest : AtRest c u m.server)
    (hu : u <+: req) (hne : u ≠ req) :
    ∃ m', piServer.work m env = some m' ∧ Orderly m'.server ∧ piServer.Same m m' := by
  obtain ⟨s', hpoll, hrest'⟩ := h.waits env m.server u henv hrest hu hne
  obtain ⟨m', hchecks, hserver⟩ := checks_idle env hrest.orderly.table
    fun _ => ⟨s', hpoll, hrest'.orderly.table⟩
  refine ⟨m', by rw [piServer_work, hchecks]; rfl, ?_⟩
  rcases hserver with ⟨-, hsame⟩ | hrun
  · exact ⟨hsame ▸ hrest.orderly, same_of_server hsame⟩
  · cases hpoll.symm.trans hrun
    exact ⟨hrest'.orderly, hrest'.inQueue.trans hrest.inQueue.symm,
      hrest'.outQueue.trans hrest.outQueue.symm, hrest'.core.trans hrest.core.symm⟩

theorem Serves.asked (h : Serves ok c req post) (hne : req ≠ []) (hfits : req.length ≤ inboxSize) :
    piServer.Asked InService inboxSize ok c req where
  ne := hne
  fits := hfits
  works := by
    intro u m env hu hat henv
    have hrest : AtRest c u m.server := atRest_of_at hat
    by_cases hwhole : u = req
    · rw [hwhole] at hrest
      obtain ⟨m', hwork, ⟨-, hsame⟩ | ⟨horderly, hin, -⟩⟩ := h.checks henv hrest
      · exact ⟨m', hwork, show Orderly m'.server from hsame ▸ hrest.orderly, .inl (same_of_server hsame)⟩
      · exact ⟨m', hwork, horderly, .inr ⟨hwhole, hin⟩⟩
    · obtain ⟨m', hwork, horderly, hsame⟩ := h.checks_part henv hrest hu hwhole
      exact ⟨m', hwork, horderly, .inl hsame⟩
  serves := by
    intro m env hat henv hready
    obtain ⟨m', hwork, ⟨hnot, -⟩ | ⟨-, hin, -⟩⟩ := h.checks henv (atRest_of_at hat)
    · exact absurd hready hnot
    · exact ⟨m', hwork, hin⟩

theorem Serves.answers (h : Serves ok c req post) (hne : req ≠ []) {ans : List BYTE} {c' : Core}
    (ha : piServer.Answers InService ok c req ans c') : StoreValid c'.memstore ∧ post ans c' := by
  obtain ⟨m, env, m', hat, henv, hwork, hin, rfl, rfl⟩ := ha
  have hrest : AtRest c req m.server := atRest_of_at hat
  obtain ⟨m₁, hwork₁, hserver⟩ := h.checks henv hrest
  cases hwork.symm.trans hwork₁
  rcases hserver with ⟨-, hsame⟩ | ⟨horderly, -, hpost⟩
  · -- the request is still there
    rw [piServer_inbox, hsame, hrest.inQueue] at hin
    exact absurd hin hne
  · exact ⟨horderly.healthy.memstore, hpost⟩

/-- A program that makes such a request, and goes on when it has heard the answer. -/
theorem Serves.turn (h : Serves ok c req post) (hne : req ≠ []) (hfits : req.length ≤ inboxSize)
    {result : ρ → Core → Prop} {next : BYTE → Talk BYTE ρ} (resume : List BYTE → Talk BYTE ρ)
    (hgoes : ∀ ans c', StoreValid c'.memstore → post ans c' → Hears (.hear next) ans (resume ans) ∧
      piServer.InTurn InService inboxSize ok result (resume ans) c') :
    piServer.InTurn InService inboxSize ok result (sayAll req (.hear next)) c := by
  have goes : ∀ ans c', piServer.Answers InService ok c req ans c' → _ := fun ans c' ha =>
    hgoes ans c' (h.answers hne ha).1 (h.answers hne ha).2
  exact .turn req next resume (h.asked hne hfits) (fun ans c' ha => (goes ans c' ha).1)
    fun ans c' ha => (goes ans c' ha).2

/-! ## Packets -/

/-- A part of a packet is not dispatched. -/
theorem frameNext_part {ty : PacketType} (ht : AcceptedType ty) {body : List BYTE}
    (hb : body.length ≤ 65532) (hu : u <+: encode ty body) (hne : u ≠ encode ty body) :
    frameNext u = none := by
  obtain ⟨v, hv⟩ := hu
  by_contra hsome
  obtain ⟨⟨k, found⟩, hk⟩ := Option.ne_none_iff_exists'.1 hsome
  have hwhole := frameNext_encode ht hb []
  rw [List.append_nil, ← hv, frameNext_append v hk] at hwhole
  cases hwhole
  have hlen := congrArg List.length hv
  rw [List.length_append, length_encode] at hlen
  have hle := (frameNext_pos hk).2
  have hnil : v = [] := List.eq_nil_of_length_eq_zero (by omega)
  rw [hnil, List.append_nil] at hv
  exact hne hv

theorem poll_dispatches {ty : PacketType} {body rest : List BYTE} (h : InRange s.inQueue)
    (hp : AtPacket s.inQueue ty body rest) {o : Outcome} (hd : dispatch env s = .ok (o, s')) :
    pollAndDispatch env s = .ok s' := by
  unfold pollAndDispatch
  simp only [hp.isComplete h, if_true]
  exact bind_eq_ok.2 ⟨_, hd, rfl⟩

/-- A command that is done at once leaves the server in order. -/
theorem Orderly.dispatch (h : Orderly s) {body rest : List BYTE}
    (hp : AtPacket s.inQueue binaryCommand body rest) {cmd : Command} {k : ℕ}
    (hr : request s.inQueue = some (cmd, k)) (hreset : functionOf cmd ≠ .commandReset)
    (honce : staged (functionOf cmd) = false) (hd : dispatch env s = .ok (.processed, s')) :
    Orderly s' := by
  have hfit : TextFits env s := by
    intro body' rest' hp' _
    have hty : textCommand = binaryCommand := hp'.packetType.symm.trans hp.packetType
    cases hty
  refine ⟨h.healthy.dispatch ⟨_, _, _, hp⟩ hd, dispatch_valid h.healthy h.inQueue ⟨_, _, _, hp⟩ hfit hd,
    ?_⟩
  cases dispatch_step h.healthy.inQueue ⟨_, _, _, hp⟩ hd with
  | complete hr' _ _ hcall =>
    cases hr.symm.trans hr'
    have heffect := (call_effect env (atParams s k) 0 hreset).result hcall
    exact heffect.table.trans h.table
  | scheduled hr' _ _ hret hcall =>
    cases hr.symm.trans hr'
    rcases ((call_effect env (atParams s k) 0 hreset).result hcall).incomplete rfl with hst | hst
    · rw [hst] at honce
      cases honce
    · rw [hst] at hret
      cases hret

theorem numberBytes_of_unread {q : Queue} (h : Valid q) (hempty : q.unread = []) :
    numberBytesInQueueToRead q = 0 := by
  rw [h.numberBytes, unread_eq_nil.1 hempty]
  rfl

theorem AtRest.memstore (h : AtRest c u s) : s.memstore = c.memstore := congrArg Core.memstore h.core

/-- There is space for an answer. -/
theorem AtRest.space (h : AtRest c u s) : isQueueSpaceAvailable s.outQueue 30 = true := by
  have hv := h.orderly.healthy.outQueue
  exact space_of_empty hv (numberBytes_of_unread hv h.outQueue) (by decide) (by decide)

theorem AtRest.atPacket {body : List BYTE} (h : AtRest c (encode binaryCommand body) s)
    (hb : body.length ≤ 65532) : AtPacket s.inQueue binaryCommand body [] :=
  ⟨by decide, hb, by rw [h.inQueue, List.append_nil]⟩

/-- A part of a packet waits. -/
theorem packet_waits {ty : PacketType} (ht : AcceptedType ty) {body : List BYTE}
    (hb : body.length ≤ 65532) (hrest : AtRest c u s) (hu : u <+: encode ty body)
    (hne : u ≠ encode ty body) : ∃ s', pollAndDispatch env s = .ok s' ∧ AtRest c u s' := by
  have hnone : frameNext s.inQueue.unread = none := by
    rw [hrest.inQueue]
    exact frameNext_part ht hb hu hne
  exact ⟨s, poll_waits hrest.orderly.healthy.inQueue hnone, hrest⟩

/-- A command whose parameters fill its packet takes the packet off the in queue. -/
theorem plain_unread (h : Healthy s) {cmd : Command} {params rest : List BYTE}
    (hp : AtPacket s.inQueue binaryCommand (byte cmd :: params) rest)
    (hparams : ∀ q, paramsLength (functionOf cmd) q = params.length)
    (hdata : takesData (functionOf cmd) = false) (hreset : functionOf cmd ≠ .commandReset)
    (hcall : callFunction env (atParams s 7) 0 (functionOf cmd) = .ok (true, s')) :
    (skipEnd s').inQueue.unread = rest := by
  have hplain : Plain (functionOf cmd) (atParams s 7) (true, s') :=
    plain_call (s := atParams s 7) (h.inQueue.inc (7 : ℕ)) h.memstore hdata hreset hcall
  have hfull : paramsEnd s.inQueue cmd 7 = (byte cmd :: params).length + 6 := by
    rw [paramsEnd, hparams, List.length_cons]
    omega
  have hend := hp.behind_full h.inQueue hfull
  change (queueSkipTerminatorOfPacket s'.inQueue).unread = rest
  rw [hplain.inQueue]
  exact hend

/-- A request that is one packet, for a command that is done at once. -/
theorem request_served (cmd : Command) (params : List BYTE) (hcmd : cmd < maxCommands)
    (hparams : ∀ q, paramsLength (functionOf cmd) q = params.length) (hlen : params.length ≤ 100)
    (hdata : takesData (functionOf cmd) = false) (hreset : functionOf cmd ≠ .commandReset)
    (honce : staged (functionOf cmd) = false) (hspace : spaceOf (functionOf cmd) = 30)
    (hrest : AtRest c (encode binaryCommand (byte cmd :: params)) s) {s₁ : Server}
    (hcall : AtPacket s.inQueue binaryCommand (byte cmd :: params) [] →
      callFunction env (atParams s 7) 0 (functionOf cmd) = .ok (true, s₁)) :
    dispatch env s = .ok (.processed, skipEnd s₁) ∧ pollAndDispatch env s = .ok (skipEnd s₁) ∧
      Orderly (skipEnd s₁) ∧ (skipEnd s₁).inQueue.unread = [] := by
  have h := hrest.orderly.healthy
  have hp : AtPacket s.inQueue binaryCommand (byte cmd :: params) [] :=
    hrest.atPacket (by rw [List.length_cons]; omega)
  have hr : request s.inQueue = some (cmd, 7) := request_binary (hcmd.trans (by decide)) hp
  have hd := dispatch_processed h.inQueue ⟨_, _, _, hp⟩ hcmd hr (by rw [hspace]; exact hrest.space)
    (hcall hp)
  exact ⟨hd, poll_dispatches h.inQueue hp hd, hrest.orderly.dispatch hp hr hreset honce hd,
    plain_unread h hp hparams hdata hreset (hcall hp)⟩

/-- The answer to it is all that goes out. -/
theorem respondBytes_unread (hv : Valid s.outQueue) (hempty : s.outQueue.unread = [])
    (cmd : Command) {params : List ℤ} (hl : params.length ≤ 6) :
    (respondBytes s cmd params).outQueue.unread =
      encode binaryCommand (byte cmd :: params.map byte) := by
  have h0 := numberBytes_of_unread hv hempty
  rw [respondBytes_eq hv (hv.fits_empty h0 (by decide)) cmd hl, sendPackets_empty hv h0]
  · simp [encodePackets]
  · have hsize : queueSize = 131070 := rfl
    simp [encodePackets]
    omega

/-! ## Pages -/

/-- Every page but this one is as it was. -/
def KeepsPages (i p : ℤ) (c c' : Core) : Prop :=
  ∀ j q page, ¬ (j = i ∧ q = p) → PageHolds c.memstore j q page → PageHolds c'.memstore j q page

variable {page old : List BYTE}

/-- **`RALLOC` as a request.** -/
theorem retrieve_serves (hholds : PageHolds c.memstore i p page) :
    Serves ok c (encode binaryCommand (pageRequest retrieveAlloc i p)) fun ans c' =>
      ans = encode binaryCommand (pageRequest retrieveAlloc i p ++ [0]) ++ encode binaryData page ∧
        ∀ j q page', PageHolds c.memstore j q page' → PageHolds c'.memstore j q page' where
  waits env s u _ hrest hu hne := packet_waits (by decide) (by simp [pageRequest]) hrest hu hne
  serves := by
    intro env s _ hrest
    have h := hrest.orderly.healthy
    have hmemstore := hrest.memstore
    rw [← hmemstore] at hholds ⊢
    have hin : s.inQueue.unread = encode binaryCommand (pageRequest retrieveAlloc i p) ++ [] := by
      rw [hrest.inQueue, List.append_nil]
    obtain ⟨hp, hr, -, -⟩ := pageRequest_read h hholds.live hholds.inside (by decide) hin
    obtain ⟨s', hd, hout⟩ : ∃ s', dispatch env s = .ok (.processed, s') ∧ s'.outQueue.unread =
        encode binaryCommand (pageRequest retrieveAlloc i p ++ [0]) ++ encode binaryData page :=
      retrieveAlloc_retrieves h hholds hrest.outQueue hin
    refine ⟨s', poll_dispatches h.inQueue hp hd, hrest.orderly.dispatch hp hr (by decide) rfl hd, ?_,
      hout, fun j q page' hpage => ?_⟩
    · cases dispatch_step h.inQueue ⟨_, _, _, hp⟩ hd with
      | complete hr' _ _ hcall =>
        cases hr.symm.trans hr'
        exact plain_unread h hp (fun _ => rfl) rfl (by decide) hcall
      | scheduled hr' _ _ hret =>
        cases hr.symm.trans hr'
        cases hret
    · refine hpage.dispatch h ⟨_, _, _, hp⟩ (fun cmd k hr' => ?_) hd
      cases hr.symm.trans hr'
      refine ⟨by decide, fun _ hslot => ?_⟩
      cases hslot

/-- There is memory for what the server asks for. -/
def Allocates (env : Env) : Prop := ∀ n, env.calloc n = true

/-- While the page is on its way `SALLOC` is read and rewound to. -/
theorem storeAlloc_waits (h : Orderly s) (hi : isAllocated s.memstore i)
    (hpage : 0 ≤ p ∧ p < (s.memstore i).numberPages) (hcalloc : Allocates env)
    (hsp : isQueueSpaceAvailable s.outQueue 30 = true) (hnone : frameNext u = none)
    (hin : s.inQueue.unread = encode binaryCommand (pageRequest storeAlloc i p) ++ u) :
    ∃ s', pollAndDispatch env s = .ok s' ∧ Orderly s' ∧ s'.inQueue = s.inQueue ∧
      s'.outQueue = s.outQueue ∧ s'.core = s.core := by
  have hq := h.healthy.inQueue
  obtain ⟨hp, hr, hid, hnumber⟩ := pageRequest_read h.healthy hi hpage (by decide) hin
  have hparams : InRange (atParams s 7).inQueue := hq.inc (7 : ℕ)
  obtain ⟨-, hrej⟩ : dataWant .commandStoreAlloc (atParams s 7) = (s.memstore i).pageSize ∧
      ¬ DataRejected env .commandStoreAlloc (atParams s 7) :=
    storeAlloc_accepted h.healthy.memstore hi hpage hid hnumber (hcalloc _)
  -- there is no packet behind the parameters yet
  have hbehind : (behind .commandStoreAlloc (atParams s 7).inQueue).unread = u :=
    hp.behind_full hq (c := storeAlloc) (k := 7) rfl
  have hincomplete : (isCompletePacketAvailable (behind .commandStoreAlloc (atParams s 7).inQueue)).1 =
      false := by
    rw [isComplete_eq (hparams.behind _), hbehind, resync_of_none hnone, hnone]
  have hcall : callFunction env (atParams s 7) 0 (functionOf storeAlloc) =
      .ok (false, awaitData .commandStoreAlloc (atParams s 7)) := by
    change commandStoreAlloc env (atParams s 7) = _
    unfold DataRejected at hrej
    dsimp only at hrej
    rw [commandStoreAlloc_eq hparams, if_neg fun hn => hrej (.inl hn),
      if_neg fun hn => hrej (.inr (.inl hn)), if_neg fun hn => hrej (.inr (.inr hn)), dataExits,
      if_pos hincomplete]
  have hd := dispatch_rewound hq ⟨_, _, _, hp⟩ (by decide) hr hsp rfl hcall
  have hsame := (retry_untouched env s).2 _ hd
  refine ⟨_, poll_dispatches hq hp hd, ⟨?_, ?_, h.table⟩, hsame.inQueue.symm, rfl, rfl⟩
  · exact ⟨hsame.inQueue ▸ hq, h.healthy.outQueue, h.healthy.memstore, h.healthy.commandStates⟩
  · exact hsame.inQueue ▸ h.inQueue

/-- **`SALLOC` and its page as a request.** -/
theorem store_serves (hholds : PageHolds c.memstore i p old) (hlen : page.length = old.length) :
    Serves Allocates c
      (encode binaryCommand (pageRequest storeAlloc i p) ++ encode binaryData page) fun ans c' =>
      ans = encode binaryCommand (pageRequest storeAlloc i p ++ [0]) ∧
        PageHolds c'.memstore i p page ∧ KeepsPages i p c c' where
  waits := by
    intro env s u henv hrest hu hne
    have h := hrest.orderly.healthy
    have hmemstore := hrest.memstore
    rw [← hmemstore] at hholds
    obtain ⟨hs1, hs32⟩ := (h.memstore.live hholds.live).size
    have hsize := hholds.length
    rcases Nat.lt_or_ge u.length (encode binaryCommand (pageRequest storeAlloc i p)).length with hlt | hge
    · -- the command itself is on its way
      have hpart := List.prefix_of_prefix_length_le hu (List.prefix_append _ _) hlt.le
      refine packet_waits (by decide) (by simp [pageRequest]) hrest hpart fun he => ?_
      rw [he] at hlt
      exact lt_irrefl _ hlt
    · obtain ⟨v, rfl⟩ := List.prefix_of_prefix_length_le (List.prefix_append _ _) hu hge
      have hv : v <+: encode binaryData page := (List.prefix_append_right_inj _).1 hu
      have hnone : frameNext v = none :=
        frameNext_part (by decide) (by omega) hv fun he => hne (by rw [he])
      obtain ⟨s', hpoll, horderly, hin, hout, hcore⟩ :=
        storeAlloc_waits hrest.orderly hholds.live hholds.inside henv hrest.space hnone
          hrest.inQueue
      refine ⟨s', hpoll, horderly, ?_, ?_, hcore.trans hrest.core⟩
      · rw [hin, hrest.inQueue]
      · rw [hout, hrest.outQueue]
  serves := by
    intro env s henv hrest
    have h := hrest.orderly.healthy
    have hmemstore := hrest.memstore
    rw [← hmemstore] at hholds
    have hsize := hholds.length
    have hin : s.inQueue.unread = encode binaryCommand (pageRequest storeAlloc i p) ++
        (encode binaryData page ++ []) := by
      rw [hrest.inQueue, List.append_nil]
    obtain ⟨hp, hr, hid, hnumber⟩ := pageRequest_read h hholds.live hholds.inside (by decide) hin
    obtain ⟨s', hd, hempty, hout, hstored⟩ := storeAlloc_stores h hholds.live hholds.inside
      (by rw [hlen, hsize]) hin (henv _) hrest.space
    refine ⟨s', poll_dispatches h.inQueue hp hd, hrest.orderly.dispatch hp hr (by decide) rfl hd, hempty,
      ?_, hstored, fun j q page' hother hpage => ?_⟩
    · rw [hout, hrest.outQueue, List.nil_append]
    · rw [← hmemstore] at hpage
      refine hpage.dispatch h ⟨_, _, _, hp⟩ (fun cmd k hr' => ?_) hd
      cases hr.symm.trans hr'
      refine ⟨by decide, fun _ hslot => ⟨rfl, fun hq => ?_⟩⟩
      have hj : allocationIdOf (atParams s 7).inQueue = j := Option.some.inj hslot
      exact hother ⟨hj.symm.trans hid, hq.symm.trans hnumber⟩

/-! ## `CALLOC` -/

/-- The request for an allocation, as its packet's body. -/
def createRequest (numberPages pageSizeInKb : ℤ) : List BYTE :=
  [byte createAlloc, byte (numberPages % 256), byte (numberPages / 256), byte pageSizeInKb]

theorem createRequest_params {q : Queue} {n kb : ℤ} (h : InRange q)
    (hp : AtPacket q binaryCommand (createRequest n kb) []) (hn : 0 ≤ n ∧ n < 65536)
    (hkb : 0 ≤ kb ∧ kb < 256) :
    (getCommandNext16bitParamBin (incrementReadNextIndex q (7 : ℕ))).1 = n ∧
      (getCommandNext8bitParamBin
        (getCommandNext16bitParamBin (incrementReadNextIndex q (7 : ℕ))).2).1 = kb := by
  have h7 := h.inc (7 : ℕ)
  have h8 := h.inc (8 : ℕ)
  have h9 := h.inc (9 : ℕ)
  have hlo := peek_body hp (k := 1) (by simp [createRequest])
  have hhi := peek_body hp (k := 2) (by simp [createRequest])
  have hsize := peek_body hp (k := 3) (by simp [createRequest])
  simp only [createRequest, List.getElem_cons_succ, List.getElem_cons_zero] at hlo hhi hsize
  constructor
  · simp only [getCommandNext16bitParamBin]
    rw [show (1 : ℤ) = ((1 : ℕ) : ℤ) from rfl, h.inc_nat, h7.current, h8.current, h.peek_inc,
      h.peek_inc, hlo, hhi, toNat_byte_of_lt (by omega) (by omega),
      toNat_byte_of_lt (by omega) (by omega)]
    omega
  · rw [getCommandNext8bitParamBin, next16_queue h7, h.inc_nat, h9.current, h.peek_inc, hsize]
    exact toNat_byte_of_lt hkb.1 hkb.2

/-- The pages of a new allocation. -/
theorem create_holds {m : Memstore} {n kb : ℤ} (hi : 0 < i ∧ i < 21) (hkb : 1 ≤ kb)
    (hp : 0 ≤ p ∧ p < n) :
    PageHolds (Function.update m i { m i with
      allocationId := i
      numberPages := n
      pageSize := kb * 1024
      data := some (List.replicate (n * kb * 1024).toNat 0) }) i p
      (List.replicate (kb * 1024).toNat 0) := by
  have hpage : p * (kb * 1024) + kb * 1024 ≤ n * kb * 1024 := by nlinarith
  have hoff : 0 ≤ p * (kb * 1024) := Int.mul_nonneg hp.1 (by omega)
  refine ⟨⟨hi.1, hi.2, by rw [Function.update_self]⟩, by rw [Function.update_self]; exact hp, ?_, ?_⟩
  · rw [Function.update_self, List.length_replicate]
    simp only
    omega
  · rw [Function.update_self]
    simp only
    rw [memRead_toNat hoff (by rw [List.length_replicate, List.length_replicate]; omega),
      List.drop_replicate, List.take_replicate, List.length_replicate]
    congr 2
    omega

/-- What comes of `CALLOC`: no allocation, or a new one with its pages. -/
inductive Created (n kb : ℤ) (c c' : Core) : ℤ → Prop
  | refused : c'.memstore = c.memstore → Created n kb c c' 0
  | created {i : ℤ} : 0 < i ∧ i < 21 → (¬ isAllocated c.memstore i) →
      (∀ p, 0 ≤ p ∧ p < n → PageHolds c'.memstore i p (List.replicate (kb * 1024).toNat 0)) →
      Created n kb c c' i

/-- With memory at hand an allocation is refused only if there is no free slot. -/
theorem memstoreCreate_cases (henv : Allocates env) (m : Memstore) (n kb : ℤ) :
    memstoreCreateAllocationId env m n kb = (0, m) ∨ ∃ i, (0 < i ∧ i < 21) ∧ (m i).allocationId = 0 ∧
      memstoreCreateAllocationId env m n kb = (i, Function.update m i { m i with
        allocationId := i
        numberPages := n
        pageSize := kb * 1024
        data := some (List.replicate (n * kb * 1024).toNat 0) }) := by
  unfold memstoreCreateAllocationId
  dsimp only
  rcases getFree_spec m with ⟨hpos, hle, hzero⟩ | ⟨hnone, -⟩
  · have hslot : 0 < getFreeMemoryAllocation m ∧ getFreeMemoryAllocation m < maxMemoryAllocations :=
      ⟨by omega, lt_of_le_of_lt hle (by decide)⟩
    refine .inr ⟨_, hslot, hzero, ?_⟩
    rw [if_pos hslot, henv, if_pos rfl]
  · have hslot : ¬ (0 < getFreeMemoryAllocation m ∧ getFreeMemoryAllocation m < maxMemoryAllocations) :=
      fun h => by omega
    refine .inl ?_
    rw [if_neg hslot, hnone]

theorem createAlloc_created {n kb : ℤ} (henv : Allocates env) {t : Server} (hv : Valid t.outQueue)
    (hempty : t.outQueue.unread = []) (hpages : (getCommandNext16bitParamBin t.inQueue).1 = n)
    (hkb : (getCommandNext8bitParamBin (getCommandNext16bitParamBin t.inQueue).2).1 = kb)
    (h0 : 0 ≤ kb) : ∃ s₁ i err, commandCreateAlloc env t = (true, s₁) ∧
      s₁.outQueue.unread = encode binaryCommand [byte createAlloc, byte i, err] ∧
      Created n kb t.core s₁.core i := by
  have hanswer : ∀ (q : Queue) (m : Memstore) (i err : ℤ),
      (respondBytes { t with inQueue := q, memstore := m } createAlloc [i, err]).outQueue.unread =
        encode binaryCommand [byte createAlloc, byte i, byte err] :=
    fun q m i err => respondBytes_unread (s := { t with inQueue := q, memstore := m }) hv hempty
      createAlloc (by simp)
  unfold commandCreateAlloc
  simp only [hpages, hkb]
  split_ifs with h1 h2 h3
  · exact ⟨_, 0, byte 1, rfl, hanswer _ _ 0 1, .refused rfl⟩
  · exact ⟨_, 0, byte 1, rfl, hanswer _ _ 0 1, .refused rfl⟩
  · rcases memstoreCreate_cases henv t.memstore n kb with he | ⟨i, hslot, -, he⟩
    · rw [he]
      exact ⟨_, 0, byte 2, rfl, hanswer _ _ 0 2, .refused rfl⟩
    · rw [he] at h3
      simp only at h3
      omega
  · rcases memstoreCreate_cases henv t.memstore n kb with he | ⟨i, hslot, hfree, he⟩
    · rw [he] at h3
      exact absurd rfl h3
    · rw [he]
      refine ⟨_, i, byte 0, rfl, hanswer _ _ i 0, .created hslot ?_ fun p hp => ?_⟩
      · rintro ⟨-, -, hid⟩
        have hzero : (t.core.memstore i).allocationId = 0 := hfree
        omega
      · exact create_holds hslot (by omega) hp

/-- **`CALLOC` as a request.** -/
theorem create_serves {n kb : ℤ} (hn : 0 ≤ n ∧ n < 65536) (hkb : 0 ≤ kb ∧ kb < 256) :
    Serves Allocates c (encode binaryCommand (createRequest n kb)) fun ans c' => ∃ i err,
      ans = encode binaryCommand [byte createAlloc, byte i, err] ∧ Created n kb c c' i ∧
        ∀ j q page, PageHolds c.memstore j q page → PageHolds c'.memstore j q page where
  waits env s u _ hrest hu hne :=
    packet_waits (by decide) (by simp [createRequest]) hrest hu hne
  serves := by
    intro env s henv hrest
    have h := hrest.orderly.healthy
    have hp := hrest.atPacket (by simp [createRequest])
    obtain ⟨hpages, hsize⟩ := createRequest_params h.inQueue hp hn hkb
    obtain ⟨s₁, i, err, hcall, hout, hcreated⟩ := createAlloc_created (t := atParams s 7) henv h.outQueue
      hrest.outQueue hpages hsize hkb.1
    obtain ⟨hd, hpoll, horderly, hin⟩ := request_served createAlloc
      (createRequest n kb).tail (by decide) (fun _ => rfl) (by simp [createRequest]) rfl
      (by decide) rfl rfl hrest fun _ => congrArg Except.ok hcall
    refine ⟨_, hpoll, horderly, hin, i, err, hout, hrest.core ▸ hcreated, fun j q page hpage => ?_⟩
    rw [← hrest.core] at hpage
    refine PageHolds.dispatch (s := s) hpage h ⟨_, _, _, hp⟩ (fun cmd k hr' => ?_) hd
    have hr : request s.inQueue = some (createAlloc, 7) := request_binary (by decide) hp
    cases hr.symm.trans hr'
    exact ⟨by decide, fun hne => absurd rfl hne⟩

/-! ## `FALLOC` -/

/-- **`FALLOC` as a request**, for an allocation that is there. -/
theorem free_serves (hi : isAllocated c.memstore i) :
    Serves ok c (encode binaryCommand [byte freeAlloc, byte i]) fun ans c' =>
      ans = encode binaryCommand [byte freeAlloc, byte i, 0] ∧
        ∀ j q page, j ≠ i → PageHolds c.memstore j q page → PageHolds c'.memstore j q page where
  waits env s u _ hrest hu hne := packet_waits (by decide) (by simp) hrest hu hne
  serves := by
    intro env s _ hrest
    have h := hrest.orderly.healthy
    have hmemstore := hrest.memstore
    rw [← hmemstore] at hi
    obtain ⟨hpos, hlt, hslot⟩ := hi
    have hp := hrest.atPacket (by simp)
    have hid : allocationIdOf (atParams s 7).inQueue = i := by
      have hbyte := peek_body hp (k := 1) (by simp)
      have h7 := h.inQueue.inc (7 : ℕ)
      change ((getCurrentReadByte (incrementReadNextIndex s.inQueue (7 : ℕ))).toNat : ℤ) = i
      rw [h7.current, h.inQueue.peek_inc, hbyte]
      exact toNat_byte_of_lt hpos.le (by simp at hlt; omega)
    have hfreed : memstoreFreeAllocationId s.memstore i = (true, Function.update s.memstore i .zero) := by
      rw [memstoreFreeAllocationId, if_pos hlt, if_pos hslot]
    obtain ⟨s₁, hcall, hout⟩ : ∃ s₁, commandFreeAlloc (atParams s 7) = (true, s₁) ∧
        s₁.outQueue.unread = encode binaryCommand [byte freeAlloc, byte i, 0] := by
      have hparam : (getCommandNext8bitParamBin (atParams s 7).inQueue).1 = i := hid
      unfold commandFreeAlloc
      simp only [hparam]
      rw [show (atParams s 7).memstore = s.memstore from rfl, hfreed]
      exact ⟨_, rfl, respondBytes_unread h.outQueue hrest.outQueue freeAlloc (by simp)⟩
    obtain ⟨hd, hpoll, horderly, hin⟩ := request_served freeAlloc [byte i]
      (by decide) (fun _ => rfl) (by simp) rfl (by decide) rfl rfl hrest fun _ => congrArg Except.ok hcall
    refine ⟨_, hpoll, horderly, hin, hout, fun j q page hother hpage => ?_⟩
    rw [← hmemstore] at hpage
    refine PageHolds.dispatch (s := s) hpage h ⟨_, _, _, hp⟩ (fun cmd k hr' => ?_) hd
    have hr : request s.inQueue = some (freeAlloc, 7) := request_binary (by decide) hp
    cases hr.symm.trans hr'
    refine ⟨by decide, fun _ hslot => ?_⟩
    have hj : allocationIdOf (atParams s 7).inQueue = j := Option.some.inj hslot
    exact absurd (hj.symm.trans hid) hother

end

end CpcLink

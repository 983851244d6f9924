/-
  The commands of one packet.  For every command but `RESET`, `SHELLEXEC`,
  `RALLOC`, `SALLOC` and `IALLOC` the answer is one packet or none, the same
  whatever waits in the out queue.
-/
import Mathlib.Data.Nat.Digits.Defs
import CpcLink.Lib.Outcome
import CpcLink.Proof.HelpTexts
import CpcLink.Proof.MemoryCommands

namespace CpcLink

/-- The commands whose answer is one packet, or none. -/
def onePacket : CommandFunction → Bool
  | .commandReset | .commandShellexec | .commandRetrieveAlloc | .commandStoreAlloc
  | .commandInsertAlloc => false
  | _ => true

/-- The commands that build their answer without a space check of their own. -/
def reliesOnSpace : CommandFunction → Bool
  | .commandCreateAlloc | .commandFreeAlloc | .commandRetrieveAlloc | .commandStoreAlloc
  | .commandInsertAlloc | .commandCutAlloc | .commandLoadAlloc | .commandSaveAlloc => true
  | _ => false

/-- The space the table asks for before a command is run. -/
def spaceOf : CommandFunction → ℤ
  | .commandHelp => 1024
  | .commandWifiIp => maxWifiLineLength
  | .commandShellexec => 2048
  | _ => 30

/-! ## Sizes of the answers -/

/-- The help that `HELP` is asked for. -/
def helpAsked (q : Queue) : HelpFunction :=
  let r := getCommandNextParamText q maxCommandNameLength true
  if isNewline (getPreviousReadByte q) ∨ r.1 = false ∨ getCommandIDFromString r.2.1 = unknown then
    helpFunctionOf help
  else helpFunctionOf (getCommandIDFromString r.2.1)

/-- The size of the packet of a help function. -/
def helpSize (hf : HelpFunction) : ℕ := (callHelpFunction hf ⟨fun _ => 0, 0, 0⟩).2.count

/-- The address in the result of the shell. -/
def wifiAddress (env : Env) (s : Server) : List BYTE :=
  match fopenRead env (system env s.world wifiCommand).2 (bytes "/tmp/wifi.tmp") with
  | (some file, w) => cString ((fgetcAll env w file).filter fun ch => ¬ isNewline ch)
  | (none, _) => []

/-- What the shell writes for the command in the in queue. -/
def shellOutput (env : Env) (s : Server) : List BYTE :=
  match bufferString maxShellLineLength (getAllCommandParamsText s.inQueue maxShellLineLength).2.1 with
  | .ok buffer => ((env.system (buffer ++ bytes " > /tmp/shellexec.tmp 2> /tmp/shellexec.tmp")
      s.world.files).2 (bytes "/tmp/shellexec.tmp")).getD []
  | .error _ => []

/-- The result of the shell can be read. -/
def AddressRead (env : Env) (s : Server) : Prop :=
  (system env s.world wifiCommand).1 = 0 ∧
    (fopenRead env (system env s.world wifiCommand).2 (bytes "/tmp/wifi.tmp")).1.isSome = true ∧
    env.fseekEnd = true

instance (env : Env) (s : Server) : Decidable (AddressRead env s) :=
  inferInstanceAs (Decidable (_ ∧ _ ∧ _))

/-- A shell command is given, the shell runs it, and its output can be read and
    is not too large. -/
def ResultRead (env : Env) (s : Server) : Prop :=
  let p := getAllCommandParamsText s.inQueue maxShellLineLength
  p.1 = true ∧ ∃ buffer, bufferString maxShellLineLength p.2.1 = .ok buffer ∧
    let r := system env s.world (buffer ++ bytes " > /tmp/shellexec.tmp 2> /tmp/shellexec.tmp")
    r.1 = 0 ∧ (fopenRead env r.2 (bytes "/tmp/shellexec.tmp")).1.isSome = true ∧
      env.fseekEnd = true ∧ ((shellOutput env s).length : ℤ) ≤ queueSize / 4

instance (env : Env) (s : Server) : Decidable (ResultRead env s) :=
  inferInstanceAs (Decidable (_ ∧ ∃ _, _ ∧ _ ∧ _ ∧ _ ∧ _))

/-- The size of an answer that may take more space than the table asks for, and
    0 for one that does not. -/
def answerSize (env : Env) (s : Server) (tick : ℤ) : CommandFunction → ℕ
  | .commandShutdown => if tick = 0 then 32 else 0
  | .commandReboot => if tick = 0 then 35 else 0
  | .commandHelp => helpSize (helpAsked s.inQueue)
  | .commandWifiIp => if AddressRead env s then (wifiAddress env s).length + 18 else 0
  | .commandShellexec => if ResultRead env s then (shellOutput env s).length + 34 else 0
  | .commandRetrieveAlloc =>
    match pageAsked s with
    | some (_, pageSize) => pageSize.toNat + 23
    | none => 0
  | _ => 0

/-- An answer either takes less space than the table asks for, or `size` bytes. -/
def SizeKnown (fn : CommandFunction) (size : ℕ) (packets : List (PacketType × List BYTE)) : Prop :=
  (staged fn = false ∧ ((encodePackets packets).length : ℤ) < spaceOf fn) ∨
    (encodePackets packets).length = size

/-- The command sends these packets, whatever is in the out queue. -/
def Answers (fn : CommandFunction) (size : ℕ) (s : Server)
    (run : Server → Except Fault (Bool × Server)) : Prop :=
  ∃ packets, Sized packets ∧ packets.length ≤ 1 ∧ SizeKnown fn size packets ∧
    ∀ q r, run { s with outQueue := q } = .ok r → Plain fn s r ∧
      (Valid q → (reliesOnSpace fn → Fits q 30) → r.2.outQueue = sendPackets q packets)

section
variable {s : Server} {fn : CommandFunction} {run : Server → Except Fault (Bool × Server)}
  {size : ℕ}

theorem length_encodePackets_single (ty : PacketType) (body : List BYTE) :
    (encodePackets [(ty, body)]).length = body.length + 9 := by
  simp [encodePackets]

theorem sizeKnown_nil (fn : CommandFunction) : SizeKnown fn 0 [] := .inr rfl

theorem AnswersWith.answers {id : Command} (h : AnswersWith fn id s run)
    (hr : reliesOnSpace fn = true) : Answers fn 0 s run := by
  obtain ⟨a, ha, hrun⟩ := h
  have hl : (byte id :: a).length ≤ 7 := by simp only [List.length_cons]; omega
  refine ⟨[(binaryCommand, byte id :: a)], sized_single (by omega), le_rfl, .inl ⟨?_, ?_⟩,
    fun q r hq => ?_⟩
  · revert hr; cases fn <;> decide
  · have h30 : spaceOf fn = 30 := by revert hr; cases fn <;> decide
    rw [length_encodePackets_single, h30]; push_cast; omega
  · obtain ⟨hp, -, hout⟩ := hrun q r hq
    exact ⟨hp, fun hv hf => hout hv (hf hr)⟩

/-- The size of a text, short or known. -/
def TextSize (fn : CommandFunction) (size n : ℕ) : Prop :=
  (staged fn = false ∧ (n + 9 : ℤ) < spaceOf fn) ∨ n + 9 = size

theorem TextSize.sizeKnown {text : List BYTE} (h : TextSize fn size text.length) :
    SizeKnown fn size [(textCommand, text)] := by
  rw [SizeKnown, length_encodePackets_single]
  exact h.imp_left fun h => ⟨h.1, by push_cast; exact h.2⟩

/-- A command without parameters that leaves everything but the trace switch and
    the world, and answers with a text. -/
theorem Answers.of_text (h : InRange s.inQueue) (hp : paramsLength fn s.inQueue = 0)
    (text : List BYTE) (hl : text.length ≤ 65532) (hsize : TextSize fn size text.length)
    (done : Bool) (hd : done = false → staged fn) (tron : Bool) (w : World)
    (hrun : ∀ q, run { s with outQueue := q } = .ok (done,
      respond { s with outQueue := q, tron := tron, world := w } text)) : Answers fn size s run := by
  refine ⟨[(textCommand, text)], sized_single hl, le_rfl, hsize.sizeKnown, fun q r hr => ?_⟩
  rw [hrun] at hr
  cases hr
  exact ⟨plain_noParams h hp rfl rfl rfl rfl hd, fun _ _ => rfl⟩

/-- One that sends nothing. -/
theorem Answers.of_silent (h : InRange s.inQueue) (hp : paramsLength fn s.inQueue = 0)
    (done : Bool) (hd : done = false → staged fn) (w : World)
    (hrun : ∀ q, run { s with outQueue := q } = .ok (done, { s with outQueue := q, world := w })) :
    Answers fn 0 s run := by
  refine ⟨[], sized_nil, by simp, sizeKnown_nil fn, fun q r hr => ?_⟩
  rw [hrun] at hr
  cases hr
  exact ⟨plain_noParams h hp rfl rfl rfl rfl hd, fun _ _ => rfl⟩

theorem Answers.of_fault (hfn : staged fn = false) {e : Fault}
    (hrun : ∀ q, run { s with outQueue := q } = .error e) : Answers fn size s run :=
  ⟨[], sized_nil, by simp, .inl ⟨hfn, by
    revert hfn; cases fn <;> decide⟩, fun q r hr => by rw [hrun] at hr; cases hr⟩

/-! ## Texts of the clock -/

theorem padded_le {w n k : ℕ} (hk : 0 < k) (hn : n < 10 ^ k) : (padded w n).length ≤ max w k := by
  have := Nat.toDigits_length 10 n k hk hn
  simp only [padded, List.length_append, List.length_replicate, List.length_map]; omega

/-- Two numbers of two digits and one of at most ten. -/
theorem timeText_le {a b c : List BYTE} (u v w : String) (ha : a.length ≤ 2) (hb : b.length ≤ 2)
    (hc : c.length ≤ 10) (hu : (bytes u).length = 1) (hv : (bytes v).length = 1)
    (hw : (bytes w).length = 1) : (a ++ bytes u ++ b ++ bytes v ++ c ++ bytes w).length ≤ 17 := by
  simp only [List.length_append]; omega

/-- A text of at most 17 bytes is short. -/
theorem textSize_of_le {n : ℕ} (hfn : staged fn = false) (h30 : spaceOf fn = 30) (hn : n ≤ 17) :
    TextSize fn size n := .inl ⟨hfn, by rw [h30]; omega⟩

theorem time_le (env : Env) : (padded 2 env.localtime.tmHour ++ bytes ":" ++
    padded 2 env.localtime.tmMin ++ bytes ":" ++ padded 2 env.localtime.tmSec ++
    bytes "\n").length ≤ 17 := by
  have hH := padded_le (w := 2) (k := 2) (by decide) (env.localtime.tmHour.isLt.trans (by decide))
  have hM := padded_le (w := 2) (k := 2) (by decide) (env.localtime.tmMin.isLt.trans (by decide))
  have hS := padded_le (w := 2) (k := 2) (by decide) (env.localtime.tmSec.isLt.trans (by decide))
  exact timeText_le ":" ":" "\n" hH hM (hS.trans (by decide)) (length_bytes _) (length_bytes _)
    (length_bytes _)

theorem time_answers (env : Env) (h : InRange s.inQueue) :
    Answers .commandTime 0 s fun s => .ok (commandTime env s) := by
  have hl := time_le env
  exact .of_text h rfl _ (hl.trans (by decide)) (textSize_of_le rfl rfl hl) true (fun h => by cases h)
    s.tron s.world fun q => rfl

theorem date_le (env : Env) : (padded 2 env.localtime.tmMday ++ bytes ":" ++
    padded 2 (env.localtime.tmMon + 1) ++ bytes ":" ++ padded 4 (env.localtime.tmYear + 1900) ++
    bytes "\n").length ≤ 17 := by
  have hD := padded_le (w := 2) (k := 2) (by decide) (env.localtime.tmMday.isLt.trans (by decide))
  have hM := padded_le (w := 2) (n := env.localtime.tmMon + 1) (k := 2) (by decide)
    (by have := env.localtime.tmMon.isLt; omega)
  have hY := padded_le (w := 4) (n := env.localtime.tmYear + 1900) (k := 10) (by decide)
    (by have := env.localtime.tmYear.isLt; omega)
  exact timeText_le ":" ":" "\n" hD hM hY (length_bytes _) (length_bytes _) (length_bytes _)

theorem date_answers (env : Env) (h : InRange s.inQueue) :
    Answers .commandDate 0 s fun s => .ok (commandDate env s) := by
  have hl := date_le env
  exact .of_text h rfl _ (hl.trans (by decide)) (textSize_of_le rfl rfl hl) true (fun h => by cases h)
    s.tron s.world fun q => rfl

/-! ## Help -/

/-- The packets of a help function take `helpSize` bytes. -/
theorem helpSize_eq {hf : HelpFunction} {packets : List (PacketType × List BYTE)}
    (hs : Sized packets) (hl : packets.length ≤ 1)
    (hout : ∀ q, Valid q → (callHelpFunction hf q).2 = sendPackets q packets) :
    (encodePackets packets).length = helpSize hf := by
  have hv : Valid ⟨fun _ => 0, 0, 0⟩ :=
    ⟨⟨⟨by decide, queueSize_pos⟩, le_rfl, queueSize_pos⟩, le_rfl⟩
  have h0 : (⟨fun _ => 0, 0, 0⟩ : Queue).count = 0 := hv.count_eq_zero.2 rfl
  have hsmall : ((encodePackets packets).length : ℤ) < queueSize := by
    match packets with
    | [] => decide
    | [(ty, body)] =>
      have : body.length ≤ 65532 := hs (ty, body) (by simp)
      rw [length_encodePackets_single, show queueSize = 131070 from rfl]; push_cast; omega
    | _ :: _ :: _ => simp at hl
  have hu := (sendPackets_unread packets hv (by rw [h0]; simpa using hsmall)).2
  rw [helpSize, hout _ hv, ← length_unread, hu, List.length_append, length_unread, h0, Nat.zero_add]

theorem sendHelp_answers {inQ : Queue}
    (hin : inQ = incrementReadNextIndex s.inQueue (paramsLength .commandHelp s.inQueue))
    (hf : HelpFunction) (hrun : ∀ q, run { s with outQueue := q } =
      .ok (sendHelp { s with outQueue := q, inQueue := inQ } hf)) :
    Answers .commandHelp (helpSize hf) s run := by
  obtain ⟨packets, hs, hl, hout⟩ := callHelp_sends hf
  refine ⟨packets, hs, hl, .inr (helpSize_eq hs hl hout), fun q r hr => ?_⟩
  rw [hrun] at hr
  cases hr
  exact ⟨⟨hin, rfl, rfl, id, fun _ => .inl rfl⟩, fun hv _ => hout q hv⟩

theorem help_answers (h : InRange s.inQueue) :
    Answers .commandHelp (helpSize (helpAsked s.inQueue)) s fun s => .ok (commandHelp s) := by
  by_cases hn : isNewline (getPreviousReadByte s.inQueue) = true
  · have hp : paramsLength .commandHelp s.inQueue = 0 := by rw [paramsLength, if_pos hn]
    have hin : s.inQueue = incrementReadNextIndex s.inQueue (paramsLength .commandHelp s.inQueue) := by
      rw [hp, Nat.cast_zero, h.inc_zero]
    have ha : helpAsked s.inQueue = helpFunctionOf help := if_pos (.inl hn)
    rw [ha]
    exact sendHelp_answers hin _ fun q => by
      simp only [commandHelp, hn, if_true]
  have hin : (getCommandNextParamText s.inQueue maxCommandNameLength true).2.2 =
      incrementReadNextIndex s.inQueue (paramsLength .commandHelp s.inQueue) := by
    rw [nextParam_queue h, paramsLength, if_neg hn]
  by_cases h1 : (getCommandNextParamText s.inQueue maxCommandNameLength true).1 = true
  swap
  · have ha : helpAsked s.inQueue = helpFunctionOf help :=
      if_pos (.inr (.inl (Bool.eq_false_iff.2 h1)))
    rw [ha]
    exact sendHelp_answers hin _ fun q => by
      simp only [commandHelp, hn, h1, Bool.false_eq_true, if_false]
  by_cases h2 : getCommandIDFromString
      (getCommandNextParamText s.inQueue maxCommandNameLength true).2.1 = unknown
  · have ha : helpAsked s.inQueue = helpFunctionOf help := if_pos (.inr (.inr h2))
    rw [ha]
    exact sendHelp_answers hin _ fun q => by
      simp only [commandHelp, hn, h1, h2, Bool.false_eq_true, if_false, if_true]
  · have ha : helpAsked s.inQueue = helpFunctionOf (getCommandIDFromString
        (getCommandNextParamText s.inQueue maxCommandNameLength true).2.1) :=
      if_neg fun h => by rcases h with h | h | h <;> simp_all
    rw [ha]
    exact sendHelp_answers hin _ fun q => by
      simp only [commandHelp, hn, h1, h2, Bool.false_eq_true, if_false, if_true]

/-! ## The address of the interface -/

theorem wifiIp_answers (env : Env) (tick : ℤ) (h : InRange s.inQueue) :
    Answers .commandWifiIp (answerSize env s tick .commandWifiIp) s (commandWifiIp env) := by
  set size := answerSize env s tick .commandWifiIp with hsize
  set sys := system env s.world wifiCommand with hsys
  have text : ∀ (l : List Char) (w : World), l.length ≤ 50 → (∀ q,
      commandWifiIp env { s with outQueue := q } = .ok (true,
        respond { s with outQueue := q, world := w } (bytes (String.ofList l)))) →
      Answers .commandWifiIp size s (commandWifiIp env) := by
    intro l w hl hrun
    have hb := (length_bytes l).trans_le hl
    exact .of_text h rfl _ (hb.trans (by decide))
      (.inl ⟨rfl, by rw [show spaceOf .commandWifiIp = 100 from rfl]; omega⟩) true
      (fun h => by cases h) s.tron w hrun
  by_cases h1 : sys.1 = 0
  swap
  · refine text "WIFI Unable to execute command.\n".toList sys.2 (by decide) fun q => ?_
    simp only [commandWifiIp, ← hsys, ne_eq, h1, not_false_eq_true, if_true]; rfl
  have hretrieve : "WIFI Unable to retrieve result.\n".toList.length ≤ 50 := by decide
  cases hop : fopenRead env sys.2 (bytes "/tmp/wifi.tmp") with
  | mk file w =>
    cases file with
    | none =>
      refine text _ w hretrieve fun q => ?_
      simp only [commandWifiIp, ← hsys, ne_eq, h1, not_true, if_false, hop]; rfl
    | some file =>
      by_cases h2 : env.fseekEnd = true
      swap
      · refine text _ (fclose w file) hretrieve fun q => ?_
        simp only [commandWifiIp, ← hsys, ne_eq, h1, not_true, if_false, hop, h2]; rfl
      set buffer := (fgetcAll env w file).filter fun ch => ¬ isNewline ch with hbuffer
      have haddress : wifiAddress env s = cString buffer := by
        rw [wifiAddress, ← hsys, hop]
      have hread : AddressRead env s := ⟨h1, by rw [← hsys, hop]; rfl, h2⟩
      by_cases h3 : buffer.length < maxWifiLineLength
      · have hc : (cString buffer).length ≤ buffer.length := (List.takeWhile_sublist _).length_le
        have h8 : (bytes "WIFI IP ").length = 8 := length_bytes _
        have h1' : (bytes "\n").length = 1 := length_bytes _
        have hl : (bytes "WIFI IP " ++ cString buffer ++ bytes "\n").length =
            (cString buffer).length + 9 := by
          rw [List.length_append, List.length_append, h8, h1']; omega
        refine .of_text h rfl (bytes "WIFI IP " ++ cString buffer ++ bytes "\n") ?_
          (.inr (by rw [hsize, answerSize, if_pos hread, hl, haddress])) true (fun h => by cases h) s.tron (fclose w file)
          fun q => ?_
        · simp only [maxWifiLineLength] at h3
          omega
        · simp only [commandWifiIp, ← hsys, ne_eq, h1, not_true, if_false, hop, h2, ← hbuffer, h3,
            if_true]; rfl
      · exact .of_fault (e := .buffer) rfl fun q => by
          simp only [commandWifiIp, ← hsys, ne_eq, h1, not_true, if_false, hop, h2, ← hbuffer, h3]

/-! ## All of them -/

/-- **A command of one packet sends the same packet whatever is in the out
    queue**, or none. -/
theorem onePacket_answers (env : Env) (tick : ℤ) (h : InRange s.inQueue)
    (hfn : onePacket fn = true) :
    Answers fn (answerSize env s tick fn) s fun s => callFunction env s tick fn := by
  have text : ∀ {fn : CommandFunction} {size : ℕ} {run : Server → Except Fault (Bool × Server)}
      (l : List Char) (done : Bool) (tron : Bool), (done = false → staged fn) →
      paramsLength fn s.inQueue = 0 → l.length ≤ 50 → TextSize fn size l.length →
      (∀ q, run { s with outQueue := q } = .ok (done,
        respond { s with outQueue := q, tron := tron } (bytes (String.ofList l)))) →
      Answers fn size s run := fun l done tron hd hp hl hsize hrun =>
    .of_text h hp _ ((length_bytes l).trans_le (hl.trans (by decide)))
      (by rw [length_bytes]; exact hsize) done hd tron s.world hrun
  have now : true = false → staged fn := fun h => by cases h
  cases fn with
  | commandReset | commandShellexec | commandRetrieveAlloc | commandStoreAlloc
  | commandInsertAlloc => cases hfn
  | commandUnknown =>
    exact text "Unknown Command\n".toList true s.tron now rfl (by decide)
      (textSize_of_le rfl rfl (by decide)) fun q => rfl
  | commandPing =>
    exact text "PONG!\n".toList true s.tron now rfl (by decide)
      (textSize_of_le rfl rfl (by decide)) fun q => rfl
  | commandTron =>
    exact text "OK\n".toList true true now rfl (by decide)
      (textSize_of_le rfl rfl (by decide)) fun q => rfl
  | commandTroff =>
    exact text "OK\n".toList true false now rfl (by decide)
      (textSize_of_le rfl rfl (by decide)) fun q => rfl
  | commandVersion =>
    have hl : (bytes "MCP v" ++ version ++ bytes "\n").length ≤ 17 := by
      rw [List.length_append, List.length_append, length_bytes, version, length_bytes, length_bytes]
      decide
    exact .of_text h rfl (bytes "MCP v" ++ version ++ bytes "\n") (hl.trans (by decide))
      (textSize_of_le rfl rfl hl) true now s.tron s.world fun q => rfl
  | commandShutdown =>
    by_cases ht : tick = 0
    · refine text "SHUTDOWN IN 10 SECONDS\n".toList false s.tron (fun _ => rfl) rfl (by decide)
        (.inr (by rw [answerSize, if_pos ht]; rfl)) fun q => ?_
      simp only [callFunction, commandShutdown, ht, if_true]; rfl
    · rw [answerSize, if_neg ht]
      refine .of_silent h rfl true now
        (system env s.world (bytes "sudo /sbin/shutdown -h now")).2 fun q => ?_
      simp only [callFunction, commandShutdown, ht, if_false]
  | commandReboot =>
    by_cases ht : tick = 0
    · refine text "Rebooting PI IN 3 SECONDS\n".toList false s.tron (fun _ => rfl) rfl (by decide)
        (.inr (by rw [answerSize, if_pos ht]; rfl)) fun q => ?_
      simp only [callFunction, commandReboot, ht, if_true]; rfl
    · rw [answerSize, if_neg ht]
      refine .of_silent h rfl true now
        (system env s.world (bytes "sudo /sbin/reboot")).2 fun q => ?_
      simp only [callFunction, commandReboot, ht, if_false]
  | commandTime => exact time_answers env h
  | commandDate => exact date_answers env h
  | commandHelp => exact help_answers h
  | commandWifiIp => exact wifiIp_answers env tick h
  | commandCreateAlloc => exact (createAlloc_answers env h).answers rfl
  | commandFreeAlloc => exact freeAlloc_answers.answers rfl
  | commandCutAlloc => exact (cutAlloc_answers h).answers rfl
  | commandLoadAlloc => exact (loadAlloc_answers env h).answers rfl
  | commandSaveAlloc => exact (saveAlloc_answers env h).answers rfl
  | commandGetFile | commandPutFile | commandGetMemFile | commandPutMemFile =>
    exact .of_silent h rfl false (fun _ => rfl) s.world fun q => rfl

/-- `RESET` empties the queues and the store, and answers. -/
theorem reset_spec (s : Server) :
    (commandReset s).1 = true ∧ (commandReset s).2.inQueue = initQueue s.inQueue ∧
      (commandReset s).2.outQueue = sendPackets (initQueue s.outQueue) [(textCommand, bytes "OK\n")] ∧
      (commandReset s).2.memstore = memstoreInit s.memstore ∧
      (commandReset s).2.commandStates = (fun _ => .zero) ∧
      (commandReset s).2.binaryDataReceiveMode = s.binaryDataReceiveMode := by
  refine ⟨rfl, rfl, ?_, rfl, rfl, rfl⟩
  simp only [commandReset, respond, commandProcessorInit, sendPackets, List.foldl_cons, List.foldl_nil]

end

end CpcLink

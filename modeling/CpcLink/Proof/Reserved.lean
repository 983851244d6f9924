/-
  Does the space that the table reserves suffice for the answer?

  The general commands of one text answer (ids 0 to 11 but `HELP`).  Each
  writes one text packet at stage 0 and does not look whether it went in.  It
  is stored if the text and its overhead leave a cell free.
-/
import CpcLink.Proof.ShellCommand
import CpcLink.Proof.Dispatch

namespace CpcLink

/-- The text of the answer of `WIFIIP`. -/
def wifiText (env : Env) (s : Server) : List BYTE :=
  if (system env s.world wifiCommand).1 ≠ 0 then bytes "WIFI Unable to execute command.\n"
  else if (fopenRead env (system env s.world wifiCommand).2 (bytes "/tmp/wifi.tmp")).1.isSome = true ∧
      env.fseekEnd = true then bytes "WIFI IP " ++ wifiAddress env s ++ bytes "\n"
  else bytes "WIFI Unable to retrieve result.\n"

/-- The text a general command answers with at stage 0. -/
def responseText (env : Env) (s : Server) : CommandFunction → List BYTE
  | .commandUnknown => bytes "Unknown Command\n"
  | .commandPing => bytes "PONG!\n"
  | .commandShutdown => bytes "SHUTDOWN IN 10 SECONDS\n"
  | .commandTime => padded 2 env.localtime.tmHour ++ bytes ":" ++ padded 2 env.localtime.tmMin ++
      bytes ":" ++ padded 2 env.localtime.tmSec ++ bytes "\n"
  | .commandDate => padded 2 env.localtime.tmMday ++ bytes ":" ++
      padded 2 (env.localtime.tmMon + 1) ++ bytes ":" ++ padded 4 (env.localtime.tmYear + 1900) ++
      bytes "\n"
  | .commandReset | .commandTron | .commandTroff => bytes "OK\n"
  | .commandReboot => bytes "Rebooting PI IN 3 SECONDS\n"
  | .commandVersion => bytes "MCP v" ++ version ++ bytes "\n"
  | .commandWifiIp => wifiText env s
  | _ => []

/-- The out queue that the answer goes into: `RESET` empties it first. -/
def answeredQueue (s : Server) : CommandFunction → Queue
  | .commandReset => initQueue s.outQueue
  | _ => s.outQueue

/-- The general commands of one text. -/
def answersText : CommandFunction → Bool
  | .commandUnknown | .commandPing | .commandShutdown | .commandTime | .commandDate | .commandReset
  | .commandReboot | .commandTron | .commandTroff | .commandVersion | .commandWifiIp => true
  | _ => false

/-- The space for the answers that take more than the table reserves. -/
def EnoughSpace (env : Env) (s : Server) : CommandFunction → Prop
  | .commandShutdown => numberBytesInQueueToRead s.outQueue + 32 < queueSize
  | .commandReboot => numberBytesInQueueToRead s.outQueue + 35 < queueSize
  | .commandWifiIp => AddressRead env s → (wifiAddress env s).length < 82 ∨
      numberBytesInQueueToRead s.outQueue + (wifiAddress env s).length + 18 < queueSize
  | _ => True

section
variable {env : Env} {s : Server} {fn : CommandFunction} {r : Bool × Server}

/-! ## The texts -/

/-- `WIFIIP` writes its text, if the address fits into the buffer. -/
theorem wifiIp_writes (hr : commandWifiIp env s = .ok r) :
    r.2.outQueue = (writeDataToPacket s.outQueue (wifiText env s) textCommand).2 := by
  set sys := system env s.world wifiCommand with hsys
  by_cases h1 : sys.1 = 0
  swap
  · simp only [commandWifiIp, ← hsys, ne_eq, h1, not_false_eq_true, if_true] at hr
    cases hr
    rw [wifiText, if_pos h1]
    rfl
  rw [wifiText, if_neg (not_not.2 h1)]
  cases hop : fopenRead env sys.2 (bytes "/tmp/wifi.tmp") with
  | mk file w =>
    cases file with
    | none =>
      simp only [commandWifiIp, ← hsys, ne_eq, h1, not_true, if_false, hop] at hr
      cases hr
      rw [if_neg (by simp)]
      rfl
    | some file =>
      by_cases h2 : env.fseekEnd = true
      swap
      · simp only [commandWifiIp, ← hsys, ne_eq, h1, not_true, if_false, hop, h2] at hr
        cases hr
        rw [if_neg fun h => h2 h.2]
        rfl
      have haddress : wifiAddress env s =
          cString ((fgetcAll env w file).filter fun ch => ¬ isNewline ch) := by
        rw [wifiAddress, ← hsys, hop]
      rw [if_pos ⟨rfl, h2⟩, haddress]
      simp only [commandWifiIp, ← hsys, ne_eq, h1, not_true, if_false, hop, h2] at hr
      split at hr
      · cases hr
        rfl
      · cases hr

theorem length_wifiText (env : Env) (s : Server) :
    (AddressRead env s ∧ (wifiText env s).length = (wifiAddress env s).length + 9) ∨
      (¬ AddressRead env s ∧ (wifiText env s).length ≤ 50) := by
  unfold wifiText AddressRead
  split_ifs with h1 h2
  · exact .inr ⟨fun h => h1 h.1, (length_bytes _).trans_le (by decide)⟩
  · refine .inl ⟨⟨not_not.1 h1, h2⟩, ?_⟩
    rw [List.length_append, List.length_append, length_bytes, length_bytes]
    simp
    omega
  · exact .inr ⟨fun h => h2 h.2, (length_bytes _).trans_le (by decide)⟩

/-- A general command writes its text. -/
theorem general_writes (hfn : answersText fn = true) (hr : callFunction env s 0 fn = .ok r) :
    r.2.outQueue = (writeDataToPacket (answeredQueue s fn) (responseText env s fn) textCommand).2 := by
  cases fn with
  | commandWifiIp => exact wifiIp_writes hr
  | commandReset =>
    obtain rfl := Except.ok.inj hr
    simp only [commandReset, commandProcessorInit, respond, answeredQueue, responseText]
  | commandUnknown | commandPing | commandShutdown | commandTime | commandDate | commandReboot
  | commandTron | commandTroff | commandVersion =>
    obtain rfl := Except.ok.inj hr
    simp only [commandUnknown, commandPing, commandShutdown, commandTime, commandDate, commandReboot,
      commandTron, commandTroff, commandVersion, respond, answeredQueue, responseText, if_true]
  | _ => cases hfn

/-! ## Is the answer stored? -/

theorem valid_answeredQueue (h : Valid s.outQueue) (fn : CommandFunction) :
    Valid (answeredQueue s fn) ∧ (answeredQueue s fn).count ≤ s.outQueue.count := by
  cases fn with
  | commandReset => exact ⟨valid_initQueue _, by rw [answeredQueue, count_initQueue]; omega⟩
  | _ => exact ⟨h, le_rfl⟩

/-- The commands whose answer can take more than the table reserves. -/
def mayOverrun : CommandFunction → Bool
  | .commandShutdown | .commandReboot | .commandWifiIp => true
  | _ => false

theorem length_responseText (hfn : answersText fn = true) (ho : mayOverrun fn = false) :
    (responseText env s fn).length ≤ 17 := by
  cases fn with
  | commandUnknown | commandPing | commandReset | commandTron | commandTroff =>
    exact (length_bytes _).trans_le (by decide)
  | commandVersion =>
    have hl : (bytes "MCP v" ++ version ++ bytes "\n").length ≤ 17 := by
      rw [List.length_append, List.length_append, length_bytes, version, length_bytes, length_bytes]
      decide
    exact hl
  | commandTime => exact time_le env
  | commandDate => exact date_le env
  | commandShutdown | commandReboot | commandWifiIp => cases ho
  | _ => cases hfn

/-- The answer leaves a cell free exactly if `EnoughSpace`. -/
theorem leavesFree_iff (hv : Valid s.outQueue) (hfn : answersText fn = true)
    (hroom : Fits s.outQueue (spaceOf fn)) :
    ((answeredQueue s fn).count : ℤ) + (responseText env s fn).length + 9 < queueSize ↔
      EnoughSpace env s fn := by
  have hle := hroom.le
  by_cases ho : mayOverrun fn = false
  · have hl : (responseText env s fn).length ≤ 17 := length_responseText hfn ho
    have hc := (valid_answeredQueue hv fn).2
    have hs : spaceOf fn = 30 := by revert hfn ho; cases fn <;> decide
    have he : EnoughSpace env s fn := by revert hfn ho; cases fn <;> simp [EnoughSpace, mayOverrun, answersText]
    exact ⟨fun _ => he, fun _ => by omega⟩
  cases fn with
  | commandShutdown =>
    have hl : (responseText env s .commandShutdown).length = 23 := length_bytes _
    rw [EnoughSpace, hv.numberBytes, hl]
    rfl
  | commandReboot =>
    have hl : (responseText env s .commandReboot).length = 26 := length_bytes _
    rw [EnoughSpace, hv.numberBytes, hl]
    rfl
  | commandWifiIp =>
    have h100 : spaceOf .commandWifiIp = 100 := rfl
    rw [EnoughSpace, hv.numberBytes]
    change (s.outQueue.count : ℤ) + (wifiText env s).length + 9 < queueSize ↔ _
    rcases length_wifiText env s with ⟨hread, hl⟩ | ⟨hread, hl⟩
    · simp only [hread, true_imp_iff]
      omega
    · simp only [hread, false_imp_iff, iff_true]
      omega
  | _ => exact absurd rfl ho

/-- **The reserved space suffices** exactly if `EnoughSpace`: the answer is then
    stored whole, behind what waited. -/
theorem reserved_iff (hv : Valid s.outQueue) {c : Command} (hc : c ≤ 11) (hne : c ≠ help) {space : ℤ}
    (hspace : getCommandOutQueueSpaceRequired c = .ok space)
    (hsp : isQueueSpaceAvailable s.outQueue space = true)
    (hr : callFunction env s 0 (functionOf c) = .ok r) :
    r.2.outQueue.unread = (answeredQueue s (functionOf c)).unread ++
      encode textCommand (responseText env s (functionOf c)) ↔ EnoughSpace env s (functionOf c) := by
  have hrow : answersText (functionOf c) = true ∧ space = spaceOf (functionOf c) := by
    simp only [help] at hne
    interval_cases c <;> first | exact absurd rfl hne | exact ⟨rfl, (Except.ok.inj hspace).symm⟩
  obtain ⟨hfn, rfl⟩ := hrow
  have hpos : 0 < spaceOf (functionOf c) := by cases functionOf c <;> decide
  rw [general_writes hfn hr, (valid_answeredQueue hv _).1.stored_iff,
    leavesFree_iff hv hfn ((hv.fits hpos).1 hsp)]

end

/-- A server that sends `n` bytes, starting with the first cell. -/
def sending (n : ℤ) : Server := { serverOf [] with outQueue := ⟨fun _ => 7, n, 0⟩ }

theorem sending_valid {n : ℤ} (h0 : 0 ≤ n) (hn : n < queueSize) : Valid (sending n).outQueue :=
  ⟨⟨⟨show -queueSize < 0 by decide, queueSize_pos⟩, h0, hn⟩, le_rfl⟩

/-- An instance: with 33 bytes free the shutdown is announced. -/
theorem reserved_announced : ∃ r, callFunction calmEnv (sending 131037) 0 (functionOf 2) = .ok r ∧
    r.2.outQueue.unread = (sending 131037).outQueue.unread ++
      encode textCommand (bytes "SHUTDOWN IN 10 SECONDS\n") := by
  have henough : EnoughSpace calmEnv (sending 131037) (functionOf 2) := by
    change numberBytesInQueueToRead (sending 131037).outQueue + 32 < queueSize
    decide
  have hv : Valid (sending 131037).outQueue := sending_valid (by decide) (by decide)
  exact ⟨_, rfl, (reserved_iff hv (c := 2) (by decide) (by decide) rfl (by decide) rfl).2 henough⟩

/-- With 30 bytes free `process_command` runs it, and the announcement is lost. -/
theorem reserved_lost : isQueueSpaceAvailable (sending 131040).outQueue 30 = true ∧
    getCommandOutQueueSpaceRequired 2 = .ok 30 ∧
    ∃ r, processCommand calmEnv 2 (sending 131040) = .ok r ∧ r.1 = true ∧
      r.2.outQueue.unread = (sending 131040).outQueue.unread ∧
      r.2.outQueue.unread ≠ (sending 131040).outQueue.unread ++
        encode textCommand (responseText calmEnv (sending 131040) .commandShutdown) := by
  have hw : writeDataToPacket (sending 131040).outQueue (bytes "SHUTDOWN IN 10 SECONDS\n")
      textCommand = (false, (sending 131040).outQueue) := by
    rw [writeDataToPacket, if_neg (by rw [length_bytes]; decide)]
  have hu : (writeDataToPacket (sending 131040).outQueue (bytes "SHUTDOWN IN 10 SECONDS\n")
      textCommand).2.unread = (sending 131040).outQueue.unread := by rw [hw]
  refine ⟨by decide, rfl, _, rfl, rfl, hu, fun he => ?_⟩
  have hl := congrArg List.length (hu.symm.trans he)
  rw [List.length_append, length_encode] at hl
  omega

end CpcLink

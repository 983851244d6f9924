/-
  `SHELLEXEC`: the result of a shell command goes out as one packet, whose size
  is announced before its lines are written.

  The lines are what was announced if the result has no NUL byte
  (`shellResult_eq`).  The space is checked for the payload alone, so the packet
  is whole if there is space for its overhead, too.
-/
import Mathlib.Data.List.TakeWhile
import CpcLink.Proof.GeneralCommands

namespace CpcLink

theorem content_fopenRead {env : Env} {w w' : World} {name : FileName} {file : File}
    (h : fopenRead env w name = (some file, w')) : w'.content file = (w.files name).getD [] := by
  unfold fopenRead at h
  split at h <;> cases h
  rfl

theorem fopenRead_commands {env : Env} {w w' : World} {name : FileName} {file : Option File}
    (h : fopenRead env w name = (file, w')) : w'.commands = w.commands := by
  unfold fopenRead at h
  split at h
  · cases h
    rfl
  · cases h
    rfl

/-- A line of the result ends in a carriage return. -/
def resultByte (ch : BYTE) : BYTE := if isNewline ch ∨ ch = 13 then 13 else ch

/-- The payload of the answer. -/
def resultText (result : List BYTE) : List BYTE :=
  resultHeaderText ++ result.map resultByte ++ bytes "\n"

theorem resultText_length (result : List BYTE) : (resultText result).length = result.length + 25 := by
  have h1 : resultHeaderText.length = 24 := length_bytes _
  have h2 : (bytes "\n").length = 1 := length_bytes _
  rw [resultText, List.length_append, List.length_append, List.length_map, h1, h2]; omega

section
variable {q : Queue}

/-! ## Lines -/

theorem cString_eq {l : List BYTE} (h : (0 : BYTE) ∉ l) : cString l = l :=
  List.takeWhile_eq_self_iff.2 fun b hb => by
    have : b ≠ 0 := fun h0 => h (h0 ▸ hb)
    simpa using this

theorem addData_after (h : Valid q) {a b : List BYTE}
    (hn : (q.count : ℤ) + a.length + b.length < queueSize) :
    addDataToPacket (a.foldl storeByte q) b = (a ++ b).foldl storeByte q := by
  rw [addDataToPacket, h.write_after (by omega) (by omega)]

/-- The loop writes every byte of a result without NUL once. -/
theorem shellResult_eq (h : Valid q) (result line : List BYTE) {a : List BYTE} {q' : Queue}
    (hn : (q.count : ℤ) + a.length + line.length + result.length < queueSize)
    (h0 : (0 : BYTE) ∉ line) (h0' : (0 : BYTE) ∉ result)
    (hq : shellResultLoop result line (a.foldl storeByte q) = .ok q') :
    q' = (a ++ (line ++ result.map resultByte)).foldl storeByte q := by
  induction result generalizing line a with
  | nil =>
    simp only [List.length_nil, Nat.cast_zero, Int.add_zero] at hn
    rw [shellResultLoop] at hq
    split_ifs at hq with h1 h2
    · cases hq
      rw [cString_eq h0, addData_after h hn, List.map_nil, List.append_nil]
    · cases hq
      obtain rfl : line = [] := List.eq_nil_of_length_eq_zero (by omega)
      simp
  | cons ch rest ih =>
    simp only [List.length_cons] at hn
    push_cast at hn
    obtain ⟨hch, hrest⟩ : (0 : BYTE) ≠ ch ∧ (0 : BYTE) ∉ rest := by simpa using h0'
    rw [shellResultLoop] at hq
    split_ifs at hq with h1 h2 h2
    · have hline : (0 : BYTE) ∉ line ++ [13] := by simpa using h0
      have hlen : (line ++ [(13 : BYTE)]).length = line.length + 1 := by simp
      rw [cString_eq hline, addData_after h (by rw [hlen]; push_cast; omega)] at hq
      rw [ih [] (by rw [List.length_append, hlen, List.length_nil]; push_cast; omega) (by simp)
        hrest hq, List.map_cons, resultByte, if_pos h1]
      simp
    · have hlen : (line ++ [ch]).length = line.length + 1 := by simp
      rw [ih (line ++ [ch]) (by rw [hlen]; push_cast; omega) (by simpa [h0] using hch) hrest hq,
        List.map_cons, resultByte, if_neg h1]
      simp

/-- **The result goes out as one packet** if it has no NUL and there is space. -/
theorem sendShellResult_eq (h : Valid q) {result : List BYTE} (hf : Fits q (result.length + 34))
    (h0 : (0 : BYTE) ∉ result) {q' : Queue} (hq : sendShellResult q result = .ok q') :
    q' = emit q textCommand (resultText result) := by
  have hle := hf.le
  have h1 : resultHeaderText.length = 24 := length_bytes _
  have h2 : (bytes "\n").length = 1 := length_bytes _
  have hlen := resultText_length result
  have hlf : (front textCommand (resultText result).length).length = 6 := rfl
  have hf' : Fits q ((resultText result).length + 9) := hf.mono (by rw [hlen]; push_cast; omega)
  have hstart : startBuildDataPacket q (result.length + resultHeaderText.length + 1) textCommand =
      (true, (front textCommand (resultText result).length).foldl storeByte q) := by
    have hsize : ((result.length : ℤ) + resultHeaderText.length + 1) = (resultText result).length := by
      rw [hlen, h1]; push_cast; omega
    rw [hsize, h.startBuild (by omega), if_pos ((h.fits (by omega)).2 hf')]
  simp only [sendShellResult, hstart] at hq
  obtain ⟨q₁, hloop, hq⟩ := bind_eq_ok.1 hq
  rw [addData_after h (by rw [hlf, h1]; push_cast; omega)] at hloop
  have hq₁ := shellResult_eq h result [] (by
    rw [List.length_append, hlf, h1, List.length_nil]; push_cast; omega) (by simp) h0 hloop
  cases hq
  rw [hq₁, addData_after h (by
    simp only [List.length_append, hlf, h1, List.length_map, List.length_nil, h2]
    push_cast; omega), ← finish_eq h hf', resultText]
  simp only [List.nil_append, List.append_assoc]

/-! ## Indices of the out queue -/

theorem Valid.foldl (h : Valid q) (data : List BYTE) : Valid (data.foldl storeByte q) :=
  ⟨(h.toInRange.foldl_store_mod data).1, by rw [foldl_store_read]; exact h.readNonneg⟩

theorem Valid.writeData (h : Valid q) (data : List BYTE) : Valid (writeDataToQueue q data).2 := by
  rw [h.write]
  split
  · exact h.foldl data
  · exact h

theorem Valid.sendPackets (h : Valid q) (packets : List (PacketType × List BYTE)) :
    Valid (sendPackets q packets) := by
  induction packets generalizing q with
  | nil => exact h
  | cons p packets ih =>
    rw [CpcLink.sendPackets, List.foldl_cons]
    refine ih ?_
    rw [h.writePacket]
    split
    · exact h.foldl _
    · exact h

theorem Valid.shellResult (result line : List BYTE) : ∀ {q q' : Queue}, Valid q →
    shellResultLoop result line q = .ok q' → Valid q' := by
  induction result generalizing line with
  | nil =>
    intro q q' h hq
    rw [shellResultLoop] at hq
    split_ifs at hq <;> cases hq
    · exact h.writeData _
    · exact h
  | cons ch rest ih =>
    intro q q' h hq
    rw [shellResultLoop] at hq
    split_ifs at hq
    · exact ih _ (h.writeData _) hq
    · exact ih _ h hq

theorem Valid.sendShellResult (h : Valid q) {result : List BYTE} {q' : Queue}
    (hq : sendShellResult q result = .ok q') : Valid q' := by
  have hstart : Valid (startBuildDataPacket q (result.length + resultHeaderText.length + 1)
      textCommand).2 := by
    rw [h.startBuild (by omega)]
    split
    · exact h.foldl _
    · exact h
  obtain ⟨q₁, hloop, hq⟩ := bind_eq_ok.1 hq
  cases hq
  exact ((Valid.shellResult _ _ (hstart.writeData _) hloop).writeData _).writeData _

end

/-! ## The command -/

/-- The result of a shell command goes out, or the command is to be run again. -/
def SendsResult (env : Env) (s : Server) : Prop := ∃ result : List BYTE,
  result.length = (shellOutput env s).length ∧ (result.length : ℤ) ≤ queueSize / 4 ∧
    ((env.fseekSet = true → (0 : BYTE) ∉ shellOutput env s) → (0 : BYTE) ∉ result) ∧
    ∀ q r, commandShellexec env { s with outQueue := q } = .ok r → Plain .commandShellexec s r ∧
      ((isQueueSpaceAvailable q (result.length + 25) = false ∧ r.1 = false ∧ r.2.outQueue = q) ∨
        (isQueueSpaceAvailable q (result.length + 25) = true ∧ r.1 = true ∧
          sendShellResult q result = .ok r.2.outQueue))

/-- An error is one text packet, and the command is complete. -/
def SendsError (env : Env) (s : Server) : Prop :=
  Answers .commandShellexec 0 s (commandShellexec env) ∧
  ∀ q r, commandShellexec env { s with outQueue := q } = .ok r → r.1 = true

section
variable {env : Env} {s : Server}

/-- A run that ends in an error message. -/
theorem SendsError.of_run (h : InRange s.inQueue) {l : List Char} {w : World} (hl : l.length ≤ 50)
    (hrun : ∀ q, commandShellexec env { s with outQueue := q } = .ok (true,
      respond { s with
        outQueue := q
        inQueue := (getAllCommandParamsText s.inQueue maxShellLineLength).2.2
        world := w } (bytes (String.ofList l)))) : SendsError env s := by
  have hb := (length_bytes l).trans_le hl
  have hspace : spaceOf .commandShellexec = 2048 := rfl
  constructor
  · refine ⟨[(textCommand, bytes (String.ofList l))], sized_single (hb.trans (by decide)), le_rfl,
      TextSize.sizeKnown (.inl ⟨rfl, by omega⟩), fun q r hr => ?_⟩
    rw [hrun] at hr
    cases hr
    exact ⟨⟨allParams_queue h maxShellLineLength, rfl, rfl, id, fun h => by cases h⟩,
      fun _ _ => rfl⟩
  · intro q r hr
    rw [hrun] at hr
    cases hr; rfl

/-- A run that has the result. -/
theorem SendsResult.of_run (h : InRange s.inQueue) {result : List BYTE} {v w : World}
    (hlen : result.length = (shellOutput env s).length) (hle : (result.length : ℤ) ≤ queueSize / 4)
    (h0 : (env.fseekSet = true → (0 : BYTE) ∉ shellOutput env s) → (0 : BYTE) ∉ result)
    (hrun : ∀ q, commandShellexec env { s with outQueue := q } =
      if isQueueSpaceAvailable q (result.length + 25) then do
        let q' ← sendShellResult q result
        return (true, { s with
          outQueue := q'
          inQueue := (getAllCommandParamsText s.inQueue maxShellLineLength).2.2
          world := w })
      else .ok (false, { s with
        outQueue := q
        inQueue := (getAllCommandParamsText s.inQueue maxShellLineLength).2.2
        world := v })) : SendsResult env s := by
  have hin := allParams_queue h maxShellLineLength
  refine ⟨result, hlen, hle, h0, fun q r hr => ?_⟩
  rw [hrun] at hr
  by_cases hsp : isQueueSpaceAvailable q (result.length + 25) = true
  · rw [if_pos hsp] at hr
    obtain ⟨q', hq', hr⟩ := bind_eq_ok.1 hr
    cases hr
    exact ⟨⟨hin, rfl, rfl, id, fun h => by cases h⟩, .inr ⟨hsp, rfl, hq'⟩⟩
  · rw [if_neg hsp] at hr
    cases hr
    exact ⟨⟨hin, rfl, rfl, id, fun _ => .inr (.inr rfl)⟩, .inl ⟨Bool.eq_false_iff.2 hsp, rfl, rfl⟩⟩

/-- What is read from a file is as long as the file, and has no NUL but those of
    a file that is read from its start. -/
theorem fgetcAll_spec (env : Env) (w : World) (file : File) :
    (fgetcAll env w file).length = (w.content file).length ∧
      ((env.fseekSet = true → (0 : BYTE) ∉ w.content file) → (0 : BYTE) ∉ fgetcAll env w file) := by
  unfold fgetcAll
  split
  next hset => exact ⟨rfl, fun h0 => h0 hset⟩
  · exact ⟨List.length_replicate, fun _ hm => absurd (List.eq_of_mem_replicate hm) (by decide)⟩

/-- The result is read: it is sent if there is space for it. -/
theorem shellexec_result (h : ResultRead env s) : ∃ result, ∃ v w : World,
    result.length = (shellOutput env s).length ∧
    (env.fseekSet = true → result = shellOutput env s) ∧
    ((env.fseekSet = true → (0 : BYTE) ∉ shellOutput env s) → (0 : BYTE) ∉ result) ∧
    v.commands.length = s.world.commands.length + 1 ∧
    w.commands.length = s.world.commands.length + 1 ∧
    ∀ q, commandShellexec env { s with outQueue := q } =
      if isQueueSpaceAvailable q (result.length + 25) then do
        let q' ← sendShellResult q result
        return (true, { s with
          outQueue := q'
          inQueue := (getAllCommandParamsText s.inQueue maxShellLineLength).2.2
          world := w })
      else .ok (false, { s with
        outQueue := q
        inQueue := (getAllCommandParamsText s.inQueue maxShellLineLength).2.2
        world := v }) := by
  obtain ⟨h1, buffer, hb, h2, hsome, h3, hle⟩ := h
  set p := getAllCommandParamsText s.inQueue maxShellLineLength with hp
  set sys := system env s.world (buffer ++ bytes " > /tmp/shellexec.tmp 2> /tmp/shellexec.tmp")
    with hsys
  cases hop : fopenRead env sys.2 (bytes "/tmp/shellexec.tmp") with
  | mk opened w =>
    rw [hop] at hsome
    obtain ⟨file, rfl⟩ := Option.isSome_iff_exists.1 hsome
    have hcontent : w.content file = shellOutput env s := by
      rw [content_fopenRead hop, hsys, shellOutput, ← hp, hb]
      rfl
    have hcommands : w.commands.length = s.world.commands.length + 1 := by
      rw [fopenRead_commands hop]
      rfl
    have h4 : ¬ ((w.content file).length : ℤ) > queueSize / 4 := by
      rw [hcontent]
      omega
    obtain ⟨hlen, h0⟩ := fgetcAll_spec env w file
    have h24 : resultHeaderText.length = 24 := length_bytes _
    have hspace : ((w.content file).length + resultHeaderText.length + 1 : ℤ) =
        (fgetcAll env w file).length + 25 := by
      rw [hlen, h24]
      push_cast
      omega
    rw [hcontent] at h0
    refine ⟨fgetcAll env w file, w, fclose w file, hlen.trans (congrArg _ hcontent), fun hset => ?_,
      h0, hcommands, hcommands, fun q => ?_⟩
    · rw [fgetcAll, if_pos hset, hcontent]
    · simp only [commandShellexec, ← hp, h1, hb, bind, Except.bind, ← hsys, ne_eq, h2, not_true,
        if_false, hop, h3, h4, hspace, Bool.true_eq_false]
      rfl

/-- It is not: the command ends in a message. -/
theorem shellexec_message (hno : ¬ ResultRead env s) :
    (∃ e, ∀ q, commandShellexec env { s with outQueue := q } = .error e) ∨
    ∃ (l : List Char) (w : World), l.length ≤ 50 ∧
      w.commands.length ≤ s.world.commands.length + 1 ∧
      ∀ q, commandShellexec env { s with outQueue := q } = .ok (true, respond { s with
        outQueue := q
        inQueue := (getAllCommandParamsText s.inQueue maxShellLineLength).2.2
        world := w } (bytes (String.ofList l))) := by
  set p := getAllCommandParamsText s.inQueue maxShellLineLength with hp
  by_cases h1 : p.1 = false
  · refine .inr ⟨"SHELLEXEC No shell command specified to run.\n".toList, s.world, by decide,
      Nat.le_succ _, fun q => ?_⟩
    simp only [commandShellexec, ← hp, h1, if_true]
    rfl
  cases hb : bufferString maxShellLineLength p.2.1 with
  | error e =>
    refine .inl ⟨e, fun q => ?_⟩
    simp only [commandShellexec, ← hp, h1, hb]
    rfl
  | ok buffer =>
    set sys := system env s.world (buffer ++ bytes " > /tmp/shellexec.tmp 2> /tmp/shellexec.tmp")
      with hsys
    have hcalled : sys.2.commands.length ≤ s.world.commands.length + 1 := le_rfl
    by_cases h2 : sys.1 = 0
    swap
    · refine .inr ⟨"SHELLEXEC Unable to execute command.\n".toList, sys.2, by decide, hcalled,
        fun q => ?_⟩
      simp only [commandShellexec, ← hp, h1, hb, bind, Except.bind, ← hsys, ne_eq, h2,
        not_false_eq_true, if_true]
      rfl
    have hretrieve : "SHELLEXEC Unable to retrieve result.\n".toList.length ≤ 50 := by decide
    cases hop : fopenRead env sys.2 (bytes "/tmp/shellexec.tmp") with
    | mk file w =>
      have hw : w.commands = sys.2.commands := fopenRead_commands hop
      rw [← hw] at hcalled
      cases file with
      | none =>
        refine .inr ⟨_, w, hretrieve, hcalled, fun q => ?_⟩
        simp only [commandShellexec, ← hp, h1, hb, bind, Except.bind, ← hsys, ne_eq, h2, not_true,
          if_false, hop]
        rfl
      | some file =>
        by_cases h3 : env.fseekEnd = true
        swap
        · refine .inr ⟨_, fclose w file, hretrieve, hcalled, fun q => ?_⟩
          simp only [commandShellexec, ← hp, h1, hb, bind, Except.bind, ← hsys, ne_eq, h2, not_true,
            if_false, hop, h3]
          rfl
        have hcontent : w.content file = shellOutput env s := by
          rw [content_fopenRead hop, hsys, shellOutput, ← hp, hb]
          rfl
        -- the result is too large
        have h4 : ((w.content file).length : ℤ) > queueSize / 4 := by
          by_contra hle
          refine hno ⟨Bool.of_not_eq_false h1, buffer, hb, h2, ?_, h3, ?_⟩
          · rw [← hsys, hop]
            rfl
          · rw [← hcontent]
            omega
        refine .inr ⟨"SHELLEXEC Result to large to return.\n".toList, fclose w file, by decide,
          hcalled, fun q => ?_⟩
        simp only [commandShellexec, ← hp, h1, hb, bind, Except.bind, ← hsys, ne_eq, h2, not_true,
          if_false, hop, h3, h4, if_true]
        rfl

/-- **`SHELLEXEC` answers with the result, if it is read**, and with an error if not. -/
theorem shellexec_spec (env : Env) {s : Server} (h : InRange s.inQueue) :
    (¬ ResultRead env s ∧ SendsError env s) ∨ (ResultRead env s ∧ SendsResult env s) := by
  by_cases hread : ResultRead env s
  · obtain ⟨result, v, w, hlen, -, h0, -, -, hrun⟩ := shellexec_result hread
    have hle := hread
    obtain ⟨-, -, -, -, -, -, hle⟩ := hle
    exact .inr ⟨hread, .of_run h hlen (by rw [hlen]; exact hle) h0 hrun⟩
  · refine .inl ⟨hread, ?_⟩
    rcases shellexec_message hread with ⟨e, hrun⟩ | ⟨l, w, hl, -, hrun⟩
    · exact ⟨.of_fault rfl hrun, fun q r hr => by rw [hrun] at hr; cases hr⟩
    · exact .of_run h hl hrun

end

end CpcLink
